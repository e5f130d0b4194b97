import SchemaDelta.Graph.Builder
import SchemaDelta.Proofs.Graph.Built
import SchemaDelta.Proofs.Lists

/-!
The graph that is built step by step is that of the entries of the type system. A builder that has
read some entries has their vertices, and edges that stand for their relations; each step reads the
entries of one element, or stops at the first of them that is at fault.
-/

namespace SchemaDelta

/-- Which names are known decides on the vertices of entries, not their order. -/
theorem TypeSystem.entryVertices_congr {known known' : List String}
    (h : ∀ name, name ∈ known ↔ name ∈ known') (entries : List Entry) :
    entryVertices known entries = entryVertices known' entries := by
  induction entries generalizing known known' with
  | nil => rfl
  | cons entry rest ih =>
    cases hname : mentionedType? entry with
    | some name =>
      have hrest : entryVertices (name :: known) rest = entryVertices (name :: known') rest :=
        ih fun other => by rw [List.mem_cons, List.mem_cons, h other]
      rw [entryVertices_cons hname, entryVertices_cons hname, ih h, hrest]
      simp only [h name]
    | none =>
      cases entry with
      | element owner label v => rw [entryVertices, entryVertices, ih h]
      | mention source name role =>
        cases role with
        | directive => rw [entryVertices, entryVertices, ih h]
        | _ => cases hname

namespace Builder

variable {ts : TypeSystem} {b b' b'' : Builder} {seen linked done : List Entry} {id owner : Nat}
  {place : Place} {name label : String} {v : Vertex}

/-! ## Builders that have read entries -/

/-- Whether the vertex of a number is at a place. -/
def IsAt (b : Builder) (id : Nat) (place : Place) : Prop :=
  ∃ v, b.draft.vertex? id = some v ∧ v.place = place

/-- Whether an edge leads between the places that a relation is between. -/
structure StandsFor (b : Builder) (e : Edge) (link : TypeSystem.Link) : Prop where
  source : b.IsAt e.one link.source
  target : b.IsAt e.two link.target
  label : e.label = link.label

/-- Whether the names that a builder knows are those of definitions, and stand for the vertices at
their places. Other types that it knows are built-in scalars. -/
structure Resolves (ts : TypeSystem) (b : Builder) : Prop where
  types : ∀ name id, b.types.lookup name = some id →
    ∃ place, ts.typePlace? name = some place ∧ b.IsAt id place
  unknown : ∀ name, b.types.lookup name = none → ts.type? name = none
  directives : ∀ name id, b.directives.lookup name = some id →
    (ts.directive? name).isSome = true ∧ b.IsAt id (directivePlace name)
  undefined : ∀ name, b.directives.lookup name = none → ts.directive? name = none

/-- Whether a builder has the vertices of the entries that it has seen, and the edges of those that
it has linked. The names that it knows decide which vertices the entries to come still add. -/
structure HasRead (ts : TypeSystem) (seen linked : List Entry) (b : Builder) : Prop
    extends Resolves ts b where
  vertices : ∀ rest,
    ts.definitionVertices ++ TypeSystem.entryVertices ts.types.names (seen ++ rest) =
      b.draft.vertices ++ TypeSystem.entryVertices (b.types.map Prod.fst) rest
  edges : List.Forall₂ b.StandsFor b.draft.edges (linked.filterMap ts.link?)

/-- Whether a builder has all the vertices of another, under their numbers. -/
def Extends (b' b : Builder) : Prop :=
  b.draft.vertices <+: b'.draft.vertices

theorem Extends.trans (h : b'.Extends b) (h' : b''.Extends b') : b''.Extends b :=
  List.IsPrefix.trans h h'

theorem IsAt.mono (h : b.IsAt id place) (hextends : b'.Extends b) : b'.IsAt id place := by
  obtain ⟨v, hv, hplace⟩ := h
  obtain ⟨rest, hrest⟩ := hextends
  refine ⟨v, ?_, hplace⟩
  rw [Draft.vertex?, ← hrest, List.getElem?_append_left (List.getElem?_eq_some_iff.1 hv).1]
  exact hv

theorem IsAt.lt (h : b.IsAt id place) : id < b.draft.vertices.length := by
  obtain ⟨v, hv, -⟩ := h
  exact (List.getElem?_eq_some_iff.1 hv).1

theorem StandsFor.mono {e : Edge} {link : TypeSystem.Link} (h : b.StandsFor e link)
    (hextends : b'.Extends b) : b'.StandsFor e link :=
  ⟨h.source.mono hextends, h.target.mono hextends, h.label⟩

/-! ## One vertex or edge more -/

theorem extends_pushVertex (b : Builder) (v : Vertex) : (b.pushVertex v).2.Extends b :=
  List.prefix_append _ _

theorem isAt_pushVertex (b : Builder) (v : Vertex) :
    (b.pushVertex v).2.IsAt (b.pushVertex v).1 v.place := by
  refine ⟨v, ?_, rfl⟩
  simp [pushVertex, Draft.vertex?, Draft.addVertex]

theorem Resolves.of_extends (h : b.Resolves ts) (hextends : b'.Extends b)
    (htypes : b'.types = b.types) (hdirectives : b'.directives = b.directives) :
    b'.Resolves ts where
  types name id hname := by
    rw [htypes] at hname
    obtain ⟨place, hplace, hat⟩ := h.types name id hname
    exact ⟨place, hplace, hat.mono hextends⟩
  unknown name hname := h.unknown name (htypes ▸ hname)
  directives name id hname := by
    rw [hdirectives] at hname
    obtain ⟨hdefined, hat⟩ := h.directives name id hname
    exact ⟨hdefined, hat.mono hextends⟩
  undefined name hname := h.undefined name (hdirectives ▸ hname)

/-- A type that becomes known stands for the vertex at its place. -/
theorem Resolves.learnType (h : b.Resolves ts) (hplace : ts.typePlace? name = some place)
    (hat : b.IsAt id place) : (b.learnType name id).Resolves ts where
  types other there hother := by
    rw [Builder.learnType, List.lookup_cons] at hother
    split at hother
    · next heq =>
      cases hother
      rw [beq_iff_eq.1 heq]
      exact ⟨place, hplace, hat⟩
    · exact h.types other there hother
  unknown other hother := by
    rw [Builder.learnType, List.lookup_cons] at hother
    split at hother
    · cases hother
    · exact h.unknown other hother
  directives := h.directives
  undefined := h.undefined

/-- A builder with more vertices and the same edges has seen the entries that add these vertices. -/
theorem HasRead.of_extends (h : b.HasRead ts seen linked) (hextends : b'.Extends b)
    {more : List Entry} (hvertices : ∀ rest,
      b.draft.vertices ++ TypeSystem.entryVertices (b.types.map Prod.fst) (more ++ rest) =
        b'.draft.vertices ++ TypeSystem.entryVertices (b'.types.map Prod.fst) rest)
    (hedges : b'.draft.edges = b.draft.edges) (hresolves : b'.Resolves ts) :
    b'.HasRead ts (seen ++ more) linked where
  toResolves := hresolves
  vertices rest := by rw [List.append_assoc, h.vertices, hvertices]
  edges := by
    rw [hedges]
    exact h.edges.imp fun _ _ hstands => hstands.mono hextends

theorem HasRead.pushVertex (h : b.HasRead ts seen linked) (place : Place) (label : String)
    (v : Vertex) : (b.pushVertex v).2.HasRead ts (seen ++ [.element place label v]) linked := by
  have hextends := extends_pushVertex b v
  refine h.of_extends hextends (fun rest => ?_) rfl (h.toResolves.of_extends hextends rfl rfl)
  simp [Builder.pushVertex, Draft.addVertex, TypeSystem.entryVertices]

/-- An edge between vertices that are there is added. -/
theorem HasRead.exists_pushEdge {entry : Entry} {link : TypeSystem.Link} {one two : Nat}
    (h : b.HasRead ts (done ++ [entry]) done) (hlink : ts.link? entry = some link)
    (hone : b.IsAt one link.source) (htwo : b.IsAt two link.target) :
    ∃ b', b.pushEdge one two link.label = .ok b' ∧
      b'.HasRead ts (done ++ [entry]) (done ++ [entry]) ∧ b'.Extends b := by
  let edge : Edge := ⟨one, two, link.label⟩
  have hadd : ∃ draft, b.draft.addEdge edge = .ok draft ∧ draft.vertices = b.draft.vertices ∧
      draft.edges = b.draft.edges ++ [edge] := by
    unfold Draft.addEdge
    rw [dif_pos hone.lt, dif_pos htwo.lt]
    exact ⟨_, rfl, rfl, rfl⟩
  obtain ⟨draft, hadd, hvertices, hedges⟩ := hadd
  have hextends : Extends { b with draft := draft } b := by
    rw [Extends, hvertices]
  have hpush : b.pushEdge one two link.label = .ok { b with draft := draft } :=
    congrArg (Except.map _) hadd
  refine ⟨_, hpush, ⟨h.toResolves.of_extends hextends rfl rfl, ?_, ?_⟩, hextends⟩
  · intro rest
    rw [h.vertices, hvertices]
  · rw [hedges, List.filterMap_append, List.filterMap_cons_some hlink, List.filterMap_nil]
    refine List.rel_append ?_ (.cons ⟨hone.mono hextends, htwo.mono hextends, rfl⟩ .nil)
    exact h.edges.imp fun _ _ hstands => hstands.mono hextends

/-! ## Names that are resolved -/

/-- A mention of a type that is known adds no vertex. -/
theorem HasRead.mention_known (h : b.HasRead ts seen linked) {source : Place} {role : MentionRole}
    (hrole : role ≠ .directive) (hname : name ∈ b.types.map Prod.fst) :
    b.HasRead ts (seen ++ [.mention source name role]) linked := by
  refine h.of_extends (List.prefix_refl _) (fun rest => ?_) rfl h.toResolves
  rw [List.singleton_append, TypeSystem.entryVertices_cons
    (TypeSystem.mentionedType?_eq_some_iff.2 ⟨source, role, hrole, rfl⟩), if_pos hname]

theorem extends_pushBuiltIn (b : Builder) (name : String) : (b.pushBuiltIn name).2.Extends b :=
  extends_pushVertex b (builtInScalarVertex name)

theorem isAt_pushBuiltIn (b : Builder) (name : String) :
    (b.pushBuiltIn name).2.IsAt (b.pushBuiltIn name).1 (builtInScalarVertex name).place :=
  isAt_pushVertex b (builtInScalarVertex name)

/-- The first mention of a built-in scalar that is not defined adds it. -/
theorem HasRead.pushBuiltIn (h : b.HasRead ts seen linked) {source : Place} {role : MentionRole}
    (hrole : role ≠ .directive) (hname : name ∉ b.types.map Prod.fst)
    (hplace : ts.typePlace? name = some (builtInScalarVertex name).place) :
    (b.pushBuiltIn name).2.HasRead ts (seen ++ [.mention source name role]) linked := by
  have hresolves : (b.pushBuiltIn name).2.Resolves ts :=
    (h.toResolves.of_extends (extends_pushVertex b _) rfl rfl).learnType hplace
      (isAt_pushVertex b (builtInScalarVertex name))
  refine h.of_extends (extends_pushBuiltIn b name) (fun rest => ?_) rfl hresolves
  rw [List.singleton_append, TypeSystem.entryVertices_cons
    (TypeSystem.mentionedType?_eq_some_iff.2 ⟨source, role, hrole, rfl⟩), if_neg hname]
  simp [Builder.pushBuiltIn, Builder.pushVertex, Draft.addVertex, Builder.learnType]

/-- A type that is mentioned is resolved to a vertex at its place. If it has no place, there is an
error that names what mentions it. -/
theorem HasRead.resolveType (h : b.HasRead ts seen linked) (source : Place) (name : String)
    {role : MentionRole} (hrole : role ≠ .directive) (location : String) :
    (ts.typePlace? name = none ∧
      b.resolveType location name = .error (.danglingTypeReference location name)) ∨
    ∃ place id b', ts.typePlace? name = some place ∧ b.resolveType location name = .ok (id, b') ∧
      b'.HasRead ts (seen ++ [.mention source name role]) linked ∧ b'.IsAt id place ∧
        b'.Extends b := by
  unfold Builder.resolveType
  cases hlookup : b.types.lookup name with
  | some id =>
    obtain ⟨place, hplace, hat⟩ := h.types name id hlookup
    have hname : name ∈ b.types.map Prod.fst := by
      obtain ⟨before, after, heq, -⟩ := List.lookup_eq_some_iff.1 hlookup
      rw [heq]
      simp
    exact Or.inr ⟨place, id, b, hplace, rfl, h.mention_known hrole hname, hat, List.prefix_refl _⟩
  | none =>
    have hplace : ts.typePlace? name = if isBuiltIn name then some ⟨.scalar, name⟩ else none := by
      rw [TypeSystem.typePlace?, h.unknown name hlookup]
    have hname : name ∉ b.types.map Prod.fst := by
      rw [List.lookup_eq_none_iff] at hlookup
      intro hmem
      obtain ⟨pair, hpair, rfl⟩ := List.mem_map.1 hmem
      simpa using hlookup pair hpair
    by_cases hbuiltIn : isBuiltIn name = true
    · rw [if_pos hbuiltIn] at hplace
      simp only [if_pos hbuiltIn]
      exact Or.inr ⟨_, _, _, hplace, rfl, h.pushBuiltIn hrole hname hplace,
        isAt_pushBuiltIn b name, extends_pushBuiltIn b name⟩
    · rw [if_neg hbuiltIn] at hplace
      simp only [if_neg hbuiltIn]
      exact Or.inl ⟨hplace, trivial⟩

/-- Where the type that an element mentions is resolved, the edge to it is added. -/
theorem HasRead.exists_mention (h : b.HasRead ts done done) {source : Place}
    (hat : b.IsAt id source) (name : String) {role : MentionRole} (hrole : role ≠ .directive) :
    (ts.typePlace? name = none ∧
      b.resolveType source.path name = .error (.danglingTypeReference source.path name)) ∨
    ∃ place target b' b'', ts.typePlace? name = some place ∧
      b.resolveType source.path name = .ok (target, b') ∧ b'.IsAt target place ∧
      b'.pushEdge id target (role.label name) = .ok b'' ∧
      b''.HasRead ts (done ++ [.mention source name role]) (done ++ [.mention source name role]) ∧
      b''.Extends b := by
  rcases h.resolveType source name hrole source.path with
    hnone | ⟨place, target, b', hplace, hresolve, hread, htarget, hextends⟩
  · exact Or.inl hnone
  · have hlink : ts.link? (.mention source name role) = some ⟨source, place, role.label name⟩ := by
      rw [TypeSystem.link?_mention hrole, hplace]
      rfl
    obtain ⟨b'', hpush, hread', hextends'⟩ :=
      hread.exists_pushEdge hlink (hat.mono hextends) htarget
    exact Or.inr ⟨place, target, b', b'', hplace, hresolve, htarget, hpush, hread',
      hextends.trans hextends'⟩

/-! ## Steps that read entries -/

/-- What comes of entries that are read after others: the first fault, or a builder that has read
them too. -/
inductive Outcome (ts : TypeSystem) (done entries : List Entry) (b : Builder) :
    Except GraphError Builder → Prop where
  | stopped {fault : GraphError} (hfault : entries.findSome? ts.fault? = some fault) :
    Outcome ts done entries b (.error fault)
  | read {b' : Builder} (hfault : entries.findSome? ts.fault? = none)
    (hread : b'.HasRead ts (done ++ entries) (done ++ entries)) (hextends : b'.Extends b) :
    Outcome ts done entries b (.ok b')

/-- Entries are read after others unless those stop the reading. -/
theorem Outcome.andThen {entries more : List Entry} {result : Except GraphError Builder}
    {next : Builder → Except GraphError Builder} (h : Outcome ts done entries b result)
    (hnext : ∀ b', result = .ok b' → b'.HasRead ts (done ++ entries) (done ++ entries) →
      b'.Extends b → Outcome ts (done ++ entries) more b' (next b')) :
    Outcome ts done (entries ++ more) b (result >>= next) := by
  cases h with
  | stopped hfault => exact .stopped (by rw [List.findSome?_append, hfault]; rfl)
  | @read b' hfault hread hextends =>
    have hsecond := hnext b' rfl hread hextends
    change Outcome ts done (entries ++ more) b (next b')
    generalize next b' = result at hsecond ⊢
    cases hsecond with
    | stopped hfault' => exact .stopped (by rw [List.findSome?_append, hfault, hfault']; rfl)
    | read hfault' hread' hextends' =>
      refine .read (by rw [List.findSome?_append, hfault, hfault']; rfl) ?_
        (hextends.trans hextends')
      rw [← List.append_assoc]
      exact hread'

/-- Whether a step reads entries, with vertices at given places. -/
def Reads (ts : TypeSystem) (holders : List (Nat × Place)) (entries : List Entry)
    (step : Builder → Except GraphError Builder) : Prop :=
  ∀ b done, b.HasRead ts done done → (∀ holder ∈ holders, b.IsAt holder.1 holder.2) →
    Outcome ts done entries b (step b)

namespace Reads

variable {holders : List (Nat × Place)} {entries more : List Entry}
  {step next : Builder → Except GraphError Builder}

theorem nothing : Reads ts holders [] .ok := by
  intro b done hread _
  exact .read rfl (by simpa using hread) (List.prefix_refl _)

theorem andThen (h : Reads ts holders entries step) (hnext : Reads ts holders more next) :
    Reads ts holders (entries ++ more) fun b => step b >>= next := by
  intro b done hread hat
  refine (h b done hread hat).andThen fun b' _ hread' hextends => ?_
  exact hnext b' _ hread' fun holder hholder => (hat holder hholder).mono hextends

theorem weaken {fewer : List (Nat × Place)} (h : Reads ts fewer entries step)
    (hsubset : fewer ⊆ holders) : Reads ts holders entries step :=
  fun b done hread hat => h b done hread fun holder hholder => hat holder (hsubset hholder)

theorem foldlM {α : Type} {f : Builder → α → Except GraphError Builder} {inside : α → List Entry}
    {as : List α} (h : ∀ a ∈ as, Reads ts holders (inside a) (f · a)) :
    Reads ts holders (as.flatMap inside) fun b => as.foldlM f b := by
  induction as with
  | nil => exact nothing
  | cons a as ih =>
    exact (h a List.mem_cons_self).andThen (ih fun a' ha' => h a' (List.mem_cons_of_mem a ha'))

/-- An element is added with the edge from its owner, and what it has inside is read on it. -/
theorem element {inner : Nat → Builder → Except GraphError Builder}
    (hinner : ∀ id, Reads ts [(id, v.place)] entries (inner id)) :
    Reads ts [(owner, place)] (.element place label v :: entries) (fun b => do
      let (id, b) ← b.pushElement owner label v
      inner id b) := by
  intro b done hread hat
  have hextends := extends_pushVertex b v
  have hid := isAt_pushVertex b v
  have hlink : ts.link? (.element place label v) = some ⟨place, v.place, label⟩ := rfl
  obtain ⟨b', hpush, hread', hextends'⟩ := (hread.pushVertex place label v).exists_pushEdge hlink
    ((hat _ List.mem_cons_self).mono hextends) hid
  have helement : b.pushElement owner label v = .ok ((b.pushVertex v).1, b') :=
    congrArg (Except.map _) hpush
  have hfirst : Outcome ts done [.element place label v] b (.ok b') :=
    .read rfl hread' (hextends.trans hextends')
  simp only [helement]
  change Outcome ts done ([.element place label v] ++ entries) b
    (.ok b' >>= inner (b.pushVertex v).1)
  refine hfirst.andThen fun b'' heq hread'' _ => ?_
  cases heq
  refine hinner _ b' _ hread'' fun holder hholder => ?_
  rw [List.mem_singleton.1 hholder]
  exact hid.mono hextends'

/-- The type of an element is resolved and gets an edge from it. -/
theorem typeOf (id : Nat) (place : Place) (type : TypeRef) :
    Reads ts [(id, place)] [.mention place type.name (.typeOf type.rendered)]
      fun b => b.readTypeOf id place.path type := by
  intro b done hread hat
  have hrole : MentionRole.typeOf type.rendered ≠ .directive := nofun
  rcases hread.exists_mention (hat _ List.mem_cons_self) type.name hrole with
    ⟨hplace, hresolve⟩ | ⟨target, there, b', b'', hplace, hresolve, -, hpush, hread', hextends⟩
  · simp only [readTypeOf, hresolve]
    exact .stopped (by simp [TypeSystem.fault?, TypeSystem.mentionFault?, hplace])
  · have hstep : b.readTypeOf id place.path type = .ok b'' := by
      simp only [readTypeOf, hresolve]
      exact hpush
    simp only [hstep]
    exact .read (by simp [TypeSystem.fault?, TypeSystem.mentionFault?, hplace]) hread' hextends

/-- A type that must be of a kind is resolved, and gets an edge from what mentions it if it is. -/
theorem ofKind {role : MentionRole} {kind : ElementKind} {fault : GraphError}
    (hrole : role ≠ .directive)
    (hfault : ts.fault? (.mention place name role) =
      ts.mentionFault? place name (some (kind, fault))) :
    Reads ts [(id, place)] [.mention place name role]
      (readOfKind id place.path kind fault (role.label name) · name) := by
  intro b done hread hat
  rcases hread.exists_mention (hat _ List.mem_cons_self) name hrole with
    ⟨hplace, hresolve⟩ | ⟨target, there, b', b'', hplace, hresolve, hthere, hpush, hread', hextends⟩
  · simp only [readOfKind, hresolve]
    exact .stopped (by simp [hfault, TypeSystem.mentionFault?, hplace])
  · obtain ⟨v, hv, rfl⟩ := hthere
    have hstep : readOfKind id place.path kind fault (role.label name) b name =
        if v.kind = kind then .ok b'' else .error fault := by
      simp only [readOfKind, hresolve, ← hpush]
      simp [bind, Except.bind, hv]
    have hentry : ts.fault? (.mention place name role) =
        if v.kind = kind then none else some fault := by
      rw [hfault, TypeSystem.mentionFault?, hplace]
      rfl
    simp only [hstep]
    split
    · next hkind => exact .read (by simp [hentry, hkind]) hread' hextends
    · next hkind => exact .stopped (by simp [hentry, hkind])

/-- A directive that is applied gets an edge to its definition, if there is one. -/
theorem definition (id : Nat) (place : Place) (name : String) :
    Reads ts [(id, place)] [.mention place name .directive]
      fun b => b.readDefinition id name := by
  intro b done hread hat
  have hseen : b.HasRead ts (done ++ [.mention place name .directive]) done :=
    hread.of_extends (List.prefix_refl _) (fun rest => rfl) rfl hread.toResolves
  cases hlookup : b.directives.lookup name with
  | some target =>
    obtain ⟨hdefined, htarget⟩ := hread.directives name target hlookup
    obtain ⟨d, hd⟩ := Option.isSome_iff_exists.1 hdefined
    have hlink : ts.link? (.mention place name .directive) =
        some ⟨place, directivePlace name, Label.directive⟩ := by
      simp [TypeSystem.link?, hd]
    obtain ⟨b', hpush, hread', hextends⟩ :=
      hseen.exists_pushEdge hlink (hat _ List.mem_cons_self) htarget
    have hstep : b.readDefinition id name = .ok b' := by
      rw [readDefinition, hlookup]
      exact hpush
    simp only [hstep]
    exact .read rfl hread' hextends
  | none =>
    have hstep : b.readDefinition id name = .ok b := by
      rw [readDefinition, hlookup]
    have hlink : ts.link? (.mention place name .directive) = none := by
      simp [TypeSystem.link?, hread.undefined name hlookup]
    simp only [hstep]
    refine .read rfl { hseen with edges := ?_ } (List.prefix_refl _)
    rw [List.filterMap_append, List.filterMap_cons_none hlink, List.filterMap_nil, List.append_nil]
    exact hseen.edges

/-! ## What each element reads -/

theorem applications (id : Nat) (place : Place) (before : List String)
    (directives : List AppliedDirective) :
    Reads ts [(id, place)] (applicationEntries place before directives)
      (readApplications id place before directives) := by
  induction directives generalizing before with
  | nil => exact nothing
  | cons d ds ih =>
    let vertex := d.vertex place (before.count d.name)
    have hfirst : Reads ts [(id, place)] [.element place Label.appliedDirective vertex,
        .mention vertex.place d.name .directive] (fun b => do
          let (applied, b) ← b.pushElement id Label.appliedDirective vertex
          b.readDefinition applied d.name) :=
      element fun applied => definition applied vertex.place d.name
    have hstep : readApplications id place before (d :: ds) = fun b => (do
        let (applied, b) ← b.pushElement id Label.appliedDirective vertex
        b.readDefinition applied d.name) >>= readApplications id place (d.name :: before) ds := by
      funext b
      rw [readApplications]
      cases b.pushElement id Label.appliedDirective vertex <;> rfl
    rw [hstep]
    exact hfirst.andThen (ih (d.name :: before))

theorem inputValue (id : Nat) (place : Place) (kind : ElementKind) (label : String)
    (value : InputValue) : Reads ts [(id, place)] (value.entries place kind label)
      (readInputValue id place kind label · value) :=
  element fun inner => (typeOf inner _ value.type).andThen
    (applications inner _ [] value.directives)

theorem field (id : Nat) (place : Place) (f : Field) :
    Reads ts [(id, place)] (f.entries place) (readField id place · f) :=
  element fun inner => (typeOf inner _ f.type).andThen
    ((foldlM fun value _ => inputValue inner _ .argument Label.argument value).andThen
      (applications inner _ [] f.directives))

theorem enumValue (id : Nat) (place : Place) (value : EnumValue) :
    Reads ts [(id, place)] (value.entries place) (readEnumValue id place · value) :=
  element fun inner => applications inner _ [] value.directives

theorem interfaces (id : Nat) (place : Place) (names : List String) :
    Reads ts [(id, place)] (names.map fun name => .mention place name .interface)
      (names.foldlM (readInterface id place)) := by
  rw [List.map_eq_flatMap]
  exact foldlM fun name _ => ofKind nofun rfl

theorem members (id : Nat) (place : Place) (names : List String) :
    Reads ts [(id, place)] (names.map fun name => .mention place name .member)
      (names.foldlM (readMember id place)) := by
  rw [List.map_eq_flatMap]
  exact foldlM fun name _ => ofKind nofun rfl

theorem body (id : Nat) (place : Place) (body : TypeBody) :
    Reads ts [(id, place)] (body.entries place) (readBody id place · body) := by
  cases body with
  | object names fields =>
    exact (interfaces id place names).andThen (foldlM fun f _ => field id place f)
  | interface names fields =>
    exact (interfaces id place names).andThen (foldlM fun f _ => field id place f)
  | union names => exact members id place names
  | inputObject fields =>
    exact foldlM fun value _ => inputValue id place .inputField Label.inputField value
  | enum values => exact foldlM fun value _ => enumValue id place value
  | scalar => exact nothing

theorem typeDefinition (id : Nat) (d : TypeDefinition) :
    Reads ts [(id, d.place)] d.entries (readType · (id, d)) :=
  (applications id d.place [] d.directives).andThen (body id d.place d.body)

theorem directiveDefinition (id : Nat) (d : DirectiveDefinition) :
    Reads ts [(id, directivePlace d.name)] d.entries (readDirective · (id, d)) :=
  foldlM fun value _ => inputValue id _ .argument Label.argument value

end Reads

/-! ## Definitions that are added first -/

section Define

variable {α : Type} {vertex : α → Vertex} {learn : Builder → α → Nat → Builder}

/-- The first definition is added and made known before the others are. -/
theorem define_cons (d : α) (ds : List α) (b : Builder) :
    define vertex learn (d :: ds) b =
      let (id, b') := b.pushVertex (vertex d)
      ((id, d) :: (define vertex learn ds (learn b' d id)).1,
        (define vertex learn ds (learn b' d id)).2) :=
  rfl

theorem map_snd_define (ds : List α) (b : Builder) :
    (define vertex learn ds b).1.map Prod.snd = ds := by
  induction ds generalizing b with
  | nil => rfl
  | cons d ds ih => exact congrArg (d :: ·) (ih _)

/-- What a builder knows apart from what it learns stays as it is. -/
theorem define_keeps {β : Type} (known : Builder → β)
    (hpush : ∀ b v, known (b.pushVertex v).2 = known b)
    (hlearn : ∀ b d id, known (learn b d id) = known b) (ds : List α) (b : Builder) :
    known (define vertex learn ds b).2 = known b := by
  induction ds generalizing b with
  | nil => rfl
  | cons d ds ih => exact (ih _).trans ((hlearn _ _ _).trans (hpush _ _))

/-- The definitions are known by their names and numbers. -/
theorem define_learns (known : Builder → List (String × Nat)) {name : α → String}
    (hpush : ∀ b v, known (b.pushVertex v).2 = known b)
    (hlearn : ∀ b d id, known (learn b d id) = (name d, id) :: known b) (ds : List α)
    (b : Builder) :
    known (define vertex learn ds b).2 =
      ((define vertex learn ds b).1.map fun p => (name p.2, p.1)).reverse ++ known b := by
  induction ds generalizing b with
  | nil => rfl
  | cons d ds ih =>
    have hrest := ih (learn (b.pushVertex (vertex d)).2 d (b.pushVertex (vertex d)).1)
    rw [hlearn, hpush] at hrest
    simp [define_cons, hrest]

variable (hlearn : ∀ b d id, (learn b d id).draft = b.draft)

include hlearn

theorem vertices_define (ds : List α) (b : Builder) :
    (define vertex learn ds b).2.draft.vertices = b.draft.vertices ++ ds.map vertex := by
  induction ds generalizing b with
  | nil => simp [define]
  | cons d ds ih =>
    simp only [define_cons, ih, hlearn]
    simp [pushVertex, Draft.addVertex]

/-- Definitions are given with the numbers of their vertices. -/
theorem isAt_define (ds : List α) (b : Builder) {p : Nat × α}
    (hp : p ∈ (define vertex learn ds b).1) :
    (define vertex learn ds b).2.IsAt p.1 (vertex p.2).place := by
  induction ds generalizing b with
  | nil => cases hp
  | cons d ds ih =>
    rcases List.mem_cons.1 hp with rfl | hp
    · refine (isAt_pushVertex b (vertex d)).mono ?_
      -- what is added later comes behind
      refine ⟨ds.map vertex, ?_⟩
      simp only [define_cons, vertices_define hlearn, hlearn]
    · exact ih _ hp

end Define

/-- The number of a name that is known from definitions is that of a definition of this name. -/
theorem exists_of_lookup {α : Type} {name : α → String} {defined : List (Nat × α)} {key : String}
    (h : ((defined.map fun p : Nat × α => (name p.2, p.1)).reverse ++ []).lookup key = some id) :
    ∃ d, (id, d) ∈ defined ∧ name d = key := by
  obtain ⟨before, after, heq, -⟩ := List.lookup_eq_some_iff.1 h
  have hmem : (key, id) ∈ defined.map fun p : Nat × α => (name p.2, p.1) := by
    rw [← List.mem_reverse, ← List.append_nil (List.reverse _), heq]
    simp
  obtain ⟨⟨other, d⟩, hd, hpair⟩ := List.mem_map.1 hmem
  cases hpair
  exact ⟨d, hd, rfl⟩

/-- A name that is not known from definitions is that of none. -/
theorem not_mem_of_lookup {α : Type} {name : α → String} {defined : List (Nat × α)} {key : String}
    (h : ((defined.map fun p : Nat × α => (name p.2, p.1)).reverse ++ []).lookup key = none) :
    key ∉ (defined.map Prod.snd).map name := by
  rw [List.lookup_eq_none_iff] at h
  intro hmem
  obtain ⟨d, hd, rfl⟩ := List.mem_map.1 hmem
  obtain ⟨p, hp, rfl⟩ := List.mem_map.1 hd
  have hne := h (name p.2, p.1)
    (List.mem_append_left _ (List.mem_reverse.2 (List.mem_map_of_mem hp)))
  simp at hne

/-! ## The whole reading -/

/-- The types of a type system with their numbers, and the builder that has added them. -/
def definedTypes (ts : TypeSystem) : List (Nat × TypeDefinition) × Builder :=
  define TypeDefinition.vertex (fun b d => b.learnType d.name) ts.types.entries empty

/-- The directives of a type system with their numbers, and the builder that has added them after
the types. -/
def definedDirectives (ts : TypeSystem) : List (Nat × DirectiveDefinition) × Builder :=
  define DirectiveDefinition.vertex (fun b d => b.learnDirective d.name) ts.directives.entries
    (definedTypes ts).2

theorem read_eq (ts : TypeSystem) : read ts =
    ((definedTypes ts).1.foldlM readType (definedDirectives ts).2 >>= fun b =>
      (definedDirectives ts).1.foldlM readDirective b) :=
  rfl

theorem extends_definedDirectives (ts : TypeSystem) :
    (definedDirectives ts).2.Extends (definedTypes ts).2 :=
  ⟨_, (vertices_define (by intros; rfl) _ _).symm⟩

theorem isAt_definedTypes {p : Nat × TypeDefinition} (hp : p ∈ (definedTypes ts).1) :
    (definedDirectives ts).2.IsAt p.1 p.2.place :=
  (isAt_define (by intros; rfl) _ _ hp).mono (extends_definedDirectives ts)

theorem isAt_definedDirectives {p : Nat × DirectiveDefinition} (hp : p ∈ (definedDirectives ts).1) :
    (definedDirectives ts).2.IsAt p.1 (directivePlace p.2.name) :=
  isAt_define (by intros; rfl) _ _ hp

theorem types_definedDirectives (ts : TypeSystem) : (definedDirectives ts).2.types =
    ((definedTypes ts).1.map fun p => (p.2.name, p.1)).reverse ++ [] := by
  have hkeeps : (definedDirectives ts).2.types = (definedTypes ts).2.types :=
    define_keeps Builder.types (fun _ _ => rfl) (by intros; rfl) _ _
  rw [hkeeps]
  exact define_learns Builder.types (fun _ _ => rfl) (by intros; rfl) _ _

theorem directives_definedDirectives (ts : TypeSystem) : (definedDirectives ts).2.directives =
    ((definedDirectives ts).1.map fun p => (p.2.name, p.1)).reverse ++ [] := by
  have hkeeps : (definedTypes ts).2.directives = [] :=
    define_keeps Builder.directives (fun _ _ => rfl) (by intros; rfl) _ _
  rw [← hkeeps]
  exact define_learns Builder.directives (fun _ _ => rfl) (by intros; rfl) _ _

theorem map_snd_definedTypes (ts : TypeSystem) :
    (definedTypes ts).1.map Prod.snd = ts.types.entries :=
  map_snd_define _ _

theorem map_snd_definedDirectives (ts : TypeSystem) :
    (definedDirectives ts).1.map Prod.snd = ts.directives.entries :=
  map_snd_define _ _

theorem vertices_definedDirectives (ts : TypeSystem) :
    (definedDirectives ts).2.draft.vertices = ts.definitionVertices := by
  have htypes : (definedTypes ts).2.draft.vertices = ts.types.entries.map TypeDefinition.vertex :=
    vertices_define (by intros; rfl) _ _
  have hdirectives : (definedDirectives ts).2.draft.vertices = (definedTypes ts).2.draft.vertices ++
      ts.directives.entries.map DirectiveDefinition.vertex :=
    vertices_define (by intros; rfl) _ _
  rw [hdirectives, htypes]
  rfl

theorem edges_definedDirectives (ts : TypeSystem) : (definedDirectives ts).2.draft.edges = [] := by
  have htypes : (definedTypes ts).2.draft.edges = [] :=
    define_keeps (fun b => b.draft.edges) (fun _ _ => rfl) (by intros; rfl) _ _
  rw [← htypes]
  exact define_keeps (fun b => b.draft.edges) (fun _ _ => rfl) (by intros; rfl) _ _

/-- When the definitions are added, no entry is read yet. -/
theorem hasRead_definedDirectives (ts : TypeSystem) :
    HasRead ts [] [] (definedDirectives ts).2 where
  vertices rest := by
    rw [vertices_definedDirectives, types_definedDirectives, List.nil_append]
    congr 1
    refine TypeSystem.entryVertices_congr (fun name => ?_) rest
    rw [Catalog.names, ← map_snd_definedTypes]
    simp
  edges := by
    rw [edges_definedDirectives]
    exact .nil
  types name id hname := by
    rw [types_definedDirectives] at hname
    obtain ⟨d, hd, rfl⟩ := exists_of_lookup hname
    have hmem : d ∈ ts.types.entries := map_snd_definedTypes ts ▸ List.mem_map_of_mem hd
    refine ⟨d.place, ?_, isAt_definedTypes hd⟩
    rw [TypeSystem.typePlace?, TypeSystem.type?, Catalog.find?_eq_some_iff.2 ⟨hmem, rfl⟩]
  unknown name hname := by
    rw [types_definedDirectives] at hname
    rw [TypeSystem.type?, Catalog.find?_eq_none_iff, Catalog.names, ← map_snd_definedTypes]
    exact not_mem_of_lookup hname
  directives name id hname := by
    rw [directives_definedDirectives] at hname
    obtain ⟨d, hd, rfl⟩ := exists_of_lookup hname
    have hmem : d ∈ ts.directives.entries := map_snd_definedDirectives ts ▸ List.mem_map_of_mem hd
    refine ⟨?_, isAt_definedDirectives hd⟩
    rw [TypeSystem.directive?, Catalog.find?_eq_some_iff.2 ⟨hmem, rfl⟩, Option.isSome_some]
  undefined name hname := by
    rw [directives_definedDirectives] at hname
    rw [TypeSystem.directive?, Catalog.find?_eq_none_iff, Catalog.names,
      ← map_snd_definedDirectives]
    exact not_mem_of_lookup hname

/-- The entries of a type system are read, or the first of them that is at fault is the error. -/
theorem outcome_read (ts : TypeSystem) :
    Outcome ts [] ts.entries (definedDirectives ts).2 (read ts) := by
  have htypes : Reads ts ((definedTypes ts).1.map fun p => (p.1, p.2.place))
      ((definedTypes ts).1.flatMap fun p => p.2.entries)
      fun b => (definedTypes ts).1.foldlM readType b :=
    .foldlM fun p hp => (Reads.typeDefinition p.1 p.2).weaken
      (List.cons_subset.2 ⟨List.mem_map.2 ⟨p, hp, rfl⟩, List.nil_subset _⟩)
  have hdirectives : Reads ts ((definedDirectives ts).1.map fun p => (p.1, directivePlace p.2.name))
      ((definedDirectives ts).1.flatMap fun p => p.2.entries)
      fun b => (definedDirectives ts).1.foldlM readDirective b :=
    .foldlM fun p hp => (Reads.directiveDefinition p.1 p.2).weaken
      (List.cons_subset.2 ⟨List.mem_map.2 ⟨p, hp, rfl⟩, List.nil_subset _⟩)
  have hentries : ts.entries = ((definedTypes ts).1.flatMap fun p => p.2.entries) ++
      (definedDirectives ts).1.flatMap fun p => p.2.entries := by
    rw [TypeSystem.entries, ← map_snd_definedTypes, ← map_snd_definedDirectives, List.flatMap_map,
      List.flatMap_map]
  rw [hentries, read_eq]
  refine ((htypes.weaken (List.subset_append_left _ _)).andThen
    (hdirectives.weaken (List.subset_append_right _ _))) _ _ (hasRead_definedDirectives ts) ?_
  intro holder hholder
  rcases List.mem_append.1 hholder with hholder | hholder
  · obtain ⟨p, hp, rfl⟩ := List.mem_map.1 hholder
    exact isAt_definedTypes hp
  · obtain ⟨p, hp, rfl⟩ := List.mem_map.1 hholder
    exact isAt_definedDirectives hp

end Builder

/-! ## The graph that comes of it -/

theorem Draft.toGraph_of_repeat {d : Draft} {place : Place}
    (h : firstRepeat? d.places = some place) : d.toGraph = .error (.duplicateElement place) := by
  unfold toGraph
  split
  · next other hother => rw [Option.some.inj (hother.symm.trans h)]
  · next hnone => cases hnone.symm.trans h

namespace TypeSystem

variable {ts : TypeSystem}

/-- An edge leads to a vertex at the target of the relation that it stands for. -/
theorem Link.exists_of_edge? {vertices : List Vertex} {link : Link} {e : Edge}
    (h : link.edge? vertices = some e) :
    ∃ w, vertices[e.two]? = some w ∧ w.place = link.target ∧ e.label = link.label := by
  simp only [edge?, Option.bind_eq_bind, Option.bind_eq_some_iff, Option.pure_def] at h
  obtain ⟨one, -, two, htwo, he⟩ := h
  obtain rfl := Option.some.inj he
  obtain ⟨hlt, hplace, -⟩ := List.findIdx?_eq_some_iff_getElem.1 htwo
  exact ⟨vertices[two], List.getElem?_eq_getElem hlt, by simpa using hplace, rfl⟩

/-- If all vertices have places of their own, none has two owners. -/
theorem nodup_owned (h : (ts.vertices.map Vertex.place).Nodup) : ts.draft.owned.Nodup := by
  have helements := nodup_places_of_vertices h
  unfold List.Nodup at helements ⊢
  rw [List.pairwise_map, List.pairwise_filterMap] at helements
  rw [Draft.owned, List.pairwise_map, List.pairwise_filter, draft, List.pairwise_filterMap, links,
    List.pairwise_filterMap]
  -- what is owned is at the place of the element that owns it by its entry
  have howned {entry : Entry} {link : Link} {e : Edge} (hlink : ts.link? entry = some link)
      (he : link.edge? ts.vertices = some e) (howns : e.isOwnership = true) :
      ∃ v w, entry.vertex? = some v ∧ ts.vertices[e.two]? = some w ∧ w.place = v.place := by
    obtain ⟨w, hw, hplace, hlabel⟩ := Link.exists_of_edge? he
    cases entry with
    | element owner label v =>
      cases hlink
      exact ⟨v, w, rfl, hw, hplace⟩
    | mention source name role =>
      -- the labels of mentions are not those of owners
      rw [Edge.isOwnership, hlabel, (eq_of_link?_mention hlink).2,
        Label.isOwnership_mention] at howns
      cases howns
  refine helements.imp fun hne link hlink link' hlink' e he e' he' howns howns' => ?_
  obtain ⟨v, w, hv, hw, hplace⟩ := howned hlink he howns
  obtain ⟨v', w', hv', hw', hplace'⟩ := howned hlink' he' howns'
  intro heq
  rw [heq, hw'] at hw
  cases hw
  exact hne v hv v' hv' (hplace.symm.trans hplace')

/-- If no mention is at fault and all vertices have places of their own, there is a graph. -/
theorem exists_graph (hfault : ts.firstFault? = none) (h : (ts.vertices.map Vertex.place).Nodup) :
    ∃ g, Graph.ofTypeSystem ts = .ok g :=
  ⟨⟨ts.draft, h, nodup_owned h⟩, Graph.ofTypeSystem_eq_ok_iff.2 ⟨hfault, rfl⟩⟩

end TypeSystem

theorem Draft.eq_of_vertices_of_edges {d d' : Draft} (hvertices : d.vertices = d'.vertices)
    (hedges : d.edges = d'.edges) : d = d' := by
  cases d
  cases d'
  cases hvertices
  cases hedges
  rfl

/-- Where a place has one vertex, the edges that stand for relations are those that come of them. -/
theorem Builder.edges_eq {b : Builder} {g : Graph} (hvertices : b.draft.vertices = g.vertices)
    {edges : List Edge} {links : List TypeSystem.Link}
    (h : List.Forall₂ b.StandsFor edges links) :
    edges = links.filterMap (TypeSystem.Link.edge? g.vertices) := by
  induction h with
  | nil => rfl
  | @cons e link edges links hstands _ ih =>
    obtain ⟨v, hv, hvplace⟩ := hstands.source
    obtain ⟨w, hw, hwplace⟩ := hstands.target
    rw [Draft.vertex?, hvertices] at hv hw
    have hedge : link.edge? g.vertices = some e := TypeSystem.Link.edge?_eq_some_iff.2
      ⟨Graph.find?_eq_some_iff.2 ⟨v, hv, hvplace⟩, Graph.find?_eq_some_iff.2 ⟨w, hw, hwplace⟩,
        hstands.label⟩
    rw [List.filterMap_cons_some hedge, ← ih]

/-- A builder that has read all entries of a type system has its vertices. -/
theorem Builder.HasRead.vertices_eq {ts : TypeSystem} {b : Builder}
    (h : b.HasRead ts ts.entries ts.entries) : b.draft.vertices = ts.vertices := by
  have hall := h.vertices []
  rw [List.append_nil] at hall
  exact (hall.trans (List.append_nil _)).symm

/-- The first mention that is at fault stops the reading. -/
theorem Builder.read_eq_error {ts : TypeSystem} {fault : GraphError}
    (hfault : ts.firstFault? = some fault) : Builder.read ts = .error fault := by
  have houtcome := Builder.outcome_read ts
  generalize Builder.read ts = result at houtcome ⊢
  cases houtcome with
  | stopped hstopped =>
    cases hstopped.symm.trans hfault
    rfl
  | read hread => cases hread.symm.trans hfault

/-- If no mention is at fault all entries are read. -/
theorem Builder.exists_read {ts : TypeSystem} (hfault : ts.firstFault? = none) :
    ∃ b, Builder.read ts = .ok b ∧ b.HasRead ts ts.entries ts.entries := by
  have houtcome := Builder.outcome_read ts
  generalize Builder.read ts = result at houtcome ⊢
  cases houtcome with
  | stopped hstopped => cases hstopped.symm.trans hfault
  | @read b _ hread _ => exact ⟨b, rfl, by simpa using hread⟩

/-- The graph that is built step by step is the one that the entries of the type system describe. -/
theorem Graph.build_eq (ts : TypeSystem) : Graph.build ts = Graph.ofTypeSystem ts := by
  unfold Graph.build Graph.ofTypeSystem
  cases hfault : ts.firstFault? with
  | some fault =>
    rw [Builder.read_eq_error hfault]
    rfl
  | none =>
    obtain ⟨b, hb, hread⟩ := Builder.exists_read hfault
    have hvertices := hread.vertices_eq
    rw [hb]
    change b.draft.toGraph = ts.draft.toGraph
    cases hrepeat : firstRepeat? ts.draft.places with
    | some place =>
      have hplaces : b.draft.places = ts.draft.places := congrArg (List.map Vertex.place) hvertices
      rw [Draft.toGraph_of_repeat hrepeat, Draft.toGraph_of_repeat (hplaces ▸ hrepeat)]
    | none =>
      -- where a place has one vertex, numbers and places say the same of the ends of an edge
      obtain ⟨g, hg⟩ := TypeSystem.exists_graph hfault ((firstRepeat?_eq_none_iff _).1 hrepeat)
      have hedges := Builder.edges_eq (hvertices.trans (TypeSystem.vertices_eq hg).symm) hread.edges
      rw [TypeSystem.vertices_eq hg] at hedges
      have hdraft : b.draft = ts.draft := Draft.eq_of_vertices_of_edges hvertices hedges
      rw [hdraft]

end SchemaDelta

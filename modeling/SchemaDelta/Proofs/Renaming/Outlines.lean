import SchemaDelta.Proofs.Graph.Built
import SchemaDelta.Proofs.Renaming.Declarations

/-!
The outline of a type system beside that of the one in which an element is renamed. Entry stands
beside entry: the element that is renamed has another name, those inside it other paths, and all
others are as they were.
-/

namespace SchemaDelta

/-! ## Elements side by side -/

namespace Rename

variable (r : Rename)

/-- The places of an element before and after. -/
inductive Moves : Place → Place → Prop where
  | same (place : Place) : Moves place place
  | renamed : Moves ⟨r.kind, r.start ++ r.name⟩ ⟨r.kind, r.start ++ r.newName⟩
  | inside {kind : ElementKind} {rest : String} (hkind : r.kind.rank < kind.rank)
    (hrest : EndsName rest) :
    Moves ⟨kind, r.start ++ r.name ++ rest⟩ ⟨kind, r.start ++ r.newName ++ rest⟩

/-- An element before and after. -/
inductive MovesVertex : Vertex → Vertex → Prop where
  | same {v : Vertex} (h : ¬ r.IsAt v) : MovesVertex v v
  | renamed {v : Vertex} (h : r.IsAt v) :
    MovesVertex v { v with name := r.newName, path := r.start ++ r.newName }
  | inside {v : Vertex} {rest : String} (hkind : r.kind.rank < v.kind.rank)
    (hrest : EndsName rest) (hpath : v.path = r.start ++ r.name ++ rest) :
    MovesVertex v { v with path := r.start ++ r.newName ++ rest }

/-- An entry before and after. -/
inductive MovesEntry : Entry → Entry → Prop where
  | element (owner owner' : Place) (label : String) {v w : Vertex} (h : r.MovesVertex v w) :
    MovesEntry (.element owner label v) (.element owner' label w)
  | typeOf (source source' : Place) (t : TypeRef) :
    MovesEntry (.mention source t.name (.typeOf t.rendered))
      (.mention source' (t.renamed r).name (.typeOf (t.renamed r).rendered))
  | interface (source source' : Place) (name : String) :
    MovesEntry (.mention source name .interface) (.mention source' (r.typeName name) .interface)
  | member (source source' : Place) (name : String) :
    MovesEntry (.mention source name .member) (.mention source' (r.typeName name) .member)
  | directive (source source' : Place) (name : String) :
    MovesEntry (.mention source name .directive) (.mention source' name .directive)

variable {r} {owner owner' : Place} {v w : Vertex}

theorem MovesVertex.kind_eq (h : r.MovesVertex v w) : v.kind = w.kind := by
  cases h <;> rfl

/-- There is one place for what is renamed. -/
theorem IsAt.place_eq (hv : r.IsAt v) (hw : r.IsAt w) : v.place = w.place := by
  rw [Vertex.place, Vertex.place, hv.kind, hv.path, hw.kind, hw.path]

theorem IsAt.not_inside (hat : r.IsAt v) : ¬ r.kind.rank < v.kind.rank := by
  rw [hat.kind]
  exact Nat.lt_irrefl _

theorem MovesVertex.eq_of_isAt (h : r.MovesVertex v w) (hat : r.IsAt v) :
    w = { v with name := r.newName, path := r.start ++ r.newName } := by
  cases h with
  | same hother => exact absurd hat hother
  | renamed => rfl
  | inside hrank => exact absurd hrank hat.not_inside

theorem MovesVertex.moves (h : r.MovesVertex v w) : r.Moves v.place w.place := by
  cases h with
  | same _ => exact .same _
  | renamed h =>
    rw [Vertex.place, Vertex.place, h.kind, h.path]
    exact .renamed
  | inside hkind hrest hpath =>
    rw [Vertex.place, Vertex.place, hpath]
    exact .inside hkind hrest

theorem MovesVertex.of_inside {rest : String} (hkind : r.kind.rank < v.kind.rank)
    (hrest : EndsName rest) (hv : v.path = r.start ++ r.name ++ rest)
    (hw : w.path = r.start ++ r.newName ++ rest) (hsame : w = { v with path := w.path }) :
    r.MovesVertex v w := by
  rw [hsame, hw]
  exact .inside hkind hrest hv

/-- What is inside an element goes where that goes, unless it is renamed itself. -/
theorem Moves.inner (h : r.Moves owner owner') (hkind : owner.kind.rank < v.kind.rank)
    (hpath : v.path = innerPath owner v.name) :
    r.MovesVertex v
      { v with
        name := r.nameAt v.kind (innerStart owner) v.name
        path := innerPath owner' (r.nameAt v.kind (innerStart owner) v.name) } := by
  have hother (hrank : r.kind.rank < v.kind.rank) :
      r.nameAt v.kind (innerStart owner) v.name = v.name :=
    if_neg fun hat => by rw [hat.1] at hrank; exact Nat.lt_irrefl _ hrank
  cases h with
  | same =>
    unfold nameAt
    split
    · next hat =>
      have hv : r.IsAt v := ⟨hat.1, hat.2.2, by rw [hpath, ← hat.2.1, ← hat.2.2]; rfl⟩
      have hpath' : innerPath owner r.newName = r.start ++ r.newName := by rw [← hat.2.1]; rfl
      rw [hpath']
      exact .renamed hv
    · next hother =>
      rw [← hpath]
      refine .same fun hv => hother ⟨hv.kind, ?_, hv.name⟩
      have hpaths : innerStart owner ++ v.name = r.start ++ r.name := hpath.symm.trans hv.path
      rw [hv.name] at hpaths
      exact (String.append_left_inj r.name).1 hpaths
  | renamed =>
    rw [hother hkind]
    have hrest : EndsName ("." ++ v.name) := endsName_of_separator (.inl rfl) _
    refine .of_inside hkind hrest (hpath.trans ?_) ?_ rfl
    all_goals simp [innerPath, String.append_assoc]
  | @inside _ rest hrank hrest =>
    rw [hother (hrank.trans hkind)]
    have hrest' : EndsName (rest ++ ("." ++ v.name)) :=
      hrest.append (endsName_of_separator (.inl rfl) _)
    refine .of_inside (hrank.trans hkind) hrest' (hpath.trans ?_) ?_ rfl
    all_goals simp [innerPath, String.append_assoc]

/-- A directive that is applied to an element goes where that goes. -/
theorem Moves.applied (h : r.Moves owner owner') (hpart : r.kind ≠ .appliedDirective)
    (howner : owner.kind.rank < ElementKind.appliedDirective.rank) (d : AppliedDirective)
    (earlier : Nat) : r.MovesVertex (d.vertex owner earlier) (d.vertex owner' earlier) := by
  have hpath (place : Place) : applicationPath place d.name earlier = place.path ++
      ("@" ++ (d.name ++ if earlier = 0 then "" else "#" ++ toString earlier)) := by
    simp [applicationPath, String.append_assoc]
  have hrest : EndsName ("@" ++ (d.name ++ if earlier = 0 then "" else "#" ++ toString earlier)) :=
    endsName_of_separator (.inr rfl) _
  cases h with
  | same => exact .same fun hv => hpart hv.kind.symm
  | renamed => exact .of_inside howner hrest (hpath _) (hpath _) rfl
  | inside hrank hrest' =>
    refine .of_inside (hrank.trans howner) (hrest'.append hrest) ((hpath _).trans ?_)
      ((hpath _).trans ?_) rfl
    all_goals exact String.append_assoc ..

end Rename

/-! ## Outlines side by side -/

/-- Two lists of entries side by side. What an entry is inside of stands beside what its counterpart
is inside of, at the given roots or among the entries. -/
structure Rename.MovesEntries (r : Rename) (roots : Place → Place → Prop)
    (entries entries' : List Entry) : Prop where
  moves : List.Forall₂ r.MovesEntry entries entries'
  held : ∀ pair ∈ entries.zip entries', roots pair.1.holder pair.2.holder ∨
    ∃ other ∈ entries.zip entries', ∃ v w, other.1.vertex? = some v ∧ other.2.vertex? = some w ∧
      v.place = pair.1.holder ∧ w.place = pair.2.holder

namespace Rename.MovesEntries

variable {r : Rename} {roots : Place → Place → Prop} {entries entries' more more' : List Entry}
  {owner owner' : Place} {v w : Vertex}

theorem nil : r.MovesEntries roots [] [] :=
  ⟨.nil, by simp⟩

theorem append (h : r.MovesEntries roots entries entries')
    (hmore : r.MovesEntries roots more more') :
    r.MovesEntries roots (entries ++ more) (entries' ++ more') where
  moves := List.rel_append h.moves hmore.moves
  held pair hpair := by
    rw [List.zip_append h.moves.length_eq] at hpair ⊢
    rcases List.mem_append.1 hpair with hpair | hpair
    · refine (h.held pair hpair).imp_right ?_
      rintro ⟨other, hother, hrest⟩
      exact ⟨other, List.mem_append_left _ hother, hrest⟩
    · refine (hmore.held pair hpair).imp_right ?_
      rintro ⟨other, hother, hrest⟩
      exact ⟨other, List.mem_append_right _ hother, hrest⟩

theorem flatMap {α : Type} {f f' : α → List Entry} (as : List α)
    (h : ∀ a ∈ as, r.MovesEntries roots (f a) (f' a)) :
    r.MovesEntries roots (as.flatMap f) (as.flatMap f') := by
  induction as with
  | nil => exact nil
  | cons a as ih =>
    exact (h a List.mem_cons_self).append (ih fun b hb => h b (List.mem_cons_of_mem a hb))

/-- An element before what it has inside. -/
theorem element (label : String) (hroot : roots owner owner') (hv : r.MovesVertex v w)
    (h : r.MovesEntries (fun p q => p = v.place ∧ q = w.place) entries entries') :
    r.MovesEntries roots (.element owner label v :: entries)
      (.element owner' label w :: entries') where
  moves := .cons (.element _ _ _ hv) h.moves
  held pair hpair := by
    rw [List.zip_cons_cons] at hpair ⊢
    rcases List.mem_cons.1 hpair with rfl | hpair
    · exact .inl hroot
    -- what is directly inside the element is inside one that has an entry, the first
    · rcases h.held pair hpair with ⟨hp, hq⟩ | ⟨other, hother, hrest⟩
      · exact .inr ⟨_, List.mem_cons_self, v, w, rfl, rfl, hp.symm, hq.symm⟩
      · exact .inr ⟨other, List.mem_cons_of_mem _ hother, hrest⟩

/-- A mention before other entries. -/
theorem mention {name name' : String} {role role' : MentionRole} (hroot : roots owner owner')
    (hmention : r.MovesEntry (.mention owner name role) (.mention owner' name' role'))
    (h : r.MovesEntries roots entries entries') :
    r.MovesEntries roots (.mention owner name role :: entries)
      (.mention owner' name' role' :: entries') where
  moves := .cons hmention h.moves
  held pair hpair := by
    rw [List.zip_cons_cons] at hpair ⊢
    rcases List.mem_cons.1 hpair with rfl | hpair
    · exact .inl hroot
    · refine (h.held pair hpair).imp_right ?_
      rintro ⟨other, hother, hrest⟩
      exact ⟨other, List.mem_cons_of_mem _ hother, hrest⟩

/-! ## The outline of a definition -/

section Definitions

variable (hmoves : r.Moves owner owner') (hroot : roots owner owner')
  (happlied : r.kind ≠ .appliedDirective)

include hmoves hroot happlied

theorem applicationEntries (howner : owner.kind.rank < ElementKind.appliedDirective.rank)
    (before : List String) (directives : List AppliedDirective) :
    r.MovesEntries roots (applicationEntries owner before directives)
      (applicationEntries owner' before directives) := by
  induction directives generalizing before with
  | nil => exact nil
  | cons d directives ih =>
    have hv := hmoves.applied happlied howner d (before.count d.name)
    exact (element Label.appliedDirective hroot hv
      (mention ⟨rfl, rfl⟩ (.directive _ _ d.name) nil)).append (ih (d.name :: before))

theorem inputValue {kind : ElementKind} (label : String) (hkind : owner.kind.rank < kind.rank)
    (hpart : kind.rank < ElementKind.appliedDirective.rank) (a : InputValue) :
    r.MovesEntries roots (a.entries owner kind label)
      ((a.renamed r owner kind).entries owner' kind label) := by
  have hv : r.MovesVertex (a.vertex owner kind) ((a.renamed r owner kind).vertex owner' kind) :=
    hmoves.inner (v := a.vertex owner kind) hkind rfl
  exact element label hroot hv (mention ⟨rfl, rfl⟩ (.typeOf _ _ a.type)
    (applicationEntries hv.moves ⟨rfl, rfl⟩ happlied hpart [] a.directives))

theorem field (howner : owner.kind.rank < ElementKind.field.rank) (f : Field) :
    r.MovesEntries roots (f.entries owner) ((f.renamed r owner).entries owner') := by
  have hv : r.MovesVertex (f.vertex owner) ((f.renamed r owner).vertex owner') :=
    hmoves.inner (v := f.vertex owner) howner rfl
  refine element Label.field hroot hv (mention ⟨rfl, rfl⟩ (.typeOf _ _ f.type) (append ?_
    (applicationEntries hv.moves ⟨rfl, rfl⟩ happlied (show ElementKind.field.rank < _ by decide) []
      f.directives)))
  rw [show (f.renamed r owner).arguments = f.arguments.map
    (InputValue.renamed r (f.vertex owner).place .argument) from rfl, List.flatMap_map]
  exact flatMap _ fun a _ => inputValue hv.moves ⟨rfl, rfl⟩ happlied Label.argument
    (show ElementKind.field.rank < ElementKind.argument.rank by decide) (by decide) a

theorem enumValue (howner : owner.kind.rank < ElementKind.enumValue.rank) (value : EnumValue) :
    r.MovesEntries roots (value.entries owner) ((value.renamed r owner).entries owner') := by
  have hv : r.MovesVertex (value.vertex owner) ((value.renamed r owner).vertex owner') :=
    hmoves.inner (v := value.vertex owner) howner rfl
  exact element Label.enumValue hroot hv
    (applicationEntries hv.moves ⟨rfl, rfl⟩ happlied (show ElementKind.enumValue.rank < _ by decide)
      [] value.directives)

omit hmoves happlied in
theorem mentions {role : MentionRole} (hrole : ∀ name, r.MovesEntry (.mention owner name role)
    (.mention owner' (r.typeName name) role)) (names : List String) :
    r.MovesEntries roots (names.map fun name => .mention owner name role)
      ((names.map r.typeName).map fun name => .mention owner' name role) := by
  induction names with
  | nil => exact nil
  | cons name names ih => exact mention hroot (hrole name) ih

theorem body (howner : owner.kind.isType = true) (body : TypeBody) :
    r.MovesEntries roots (body.entries owner) ((body.renamed r owner).entries owner') := by
  have hrank {kind : ElementKind} (hkind : ElementKind.directive.rank ≤ kind.rank) :
      owner.kind.rank < kind.rank :=
    Nat.lt_of_lt_of_le (of_decide_eq_true howner) hkind
  cases body with
  | object interfaces fields | interface interfaces fields =>
    refine append (mentions hroot (.interface _ _) interfaces) ?_
    rw [List.flatMap_map]
    exact flatMap _ fun f _ => field hmoves hroot happlied (hrank (by decide)) f
  | union members => exact mentions hroot (.member _ _) members
  | inputObject fields =>
    simp only [TypeBody.renamed, TypeBody.entries, List.flatMap_map]
    exact flatMap _ fun a _ =>
      inputValue hmoves hroot happlied Label.inputField (hrank (by decide)) (by decide) a
  | enum values =>
    simp only [TypeBody.renamed, TypeBody.entries, List.flatMap_map]
    exact flatMap _ fun value _ => enumValue hmoves hroot happlied (hrank (by decide)) value
  | scalar => exact nil

end Definitions

end Rename.MovesEntries

/-! ## Definitions side by side -/

section Definitions

variable {r : Rename}

@[simp]
theorem TypeBody.kind_renamed (owner : Place) (body : TypeBody) :
    (body.renamed r owner).kind = body.kind := by
  cases body <;> rfl

theorem TypeRef.name_renamed (t : TypeRef) : (t.renamed r).name = r.typeName t.name := by
  unfold renamed Rename.typeName
  split <;> rfl

theorem TypeDefinition.movesVertex
    (hbuiltIn : r.kind.isType = true → isBuiltIn r.name = false ∧ isBuiltIn r.newName = false)
    (d : TypeDefinition) : r.MovesVertex d.vertex (d.renamed r).vertex := by
  by_cases hat : d.body.kind = r.kind ∧ "" = r.start ∧ d.name = r.name
  · have hname : r.nameAt d.body.kind "" d.name = r.newName := if_pos hat
    have hd : r.IsAt d.vertex := ⟨hat.1, hat.2.2, by
      rw [← hat.2.1, String.empty_append]
      exact hat.2.2⟩
    -- neither name marks a built-in scalar
    obtain ⟨hold, hnew⟩ := hbuiltIn (hat.1 ▸ d.body.isType_kind)
    have hvertex : (d.renamed r).vertex =
        { d.vertex with name := r.newName, path := r.start ++ r.newName } := by
      rw [← hat.2.2] at hold
      simp only [vertex, renamed, hname, TypeBody.kind_renamed, ← hat.2.1, String.empty_append,
        hold, hnew, Bool.false_eq_true, and_false]
    rw [hvertex]
    exact .renamed hd
  · have hname : r.nameAt d.body.kind "" d.name = d.name := if_neg hat
    have hvertex : (d.renamed r).vertex = d.vertex := by
      simp only [vertex, renamed, hname, TypeBody.kind_renamed]
    rw [hvertex]
    refine .same fun hd => hat ⟨hd.kind, ?_, hd.name⟩
    have hpaths : "" ++ d.name = r.start ++ r.name := String.empty_append.trans hd.path
    rw [show d.name = r.name from hd.name] at hpaths
    exact (String.append_left_inj r.name).1 hpaths

theorem TypeDefinition.movesEntries
    (hbuiltIn : r.kind.isType = true → isBuiltIn r.name = false ∧ isBuiltIn r.newName = false)
    (happlied : r.kind ≠ .appliedDirective) {roots : Place → Place → Prop} {d : TypeDefinition}
    (hroot : roots d.place (d.renamed r).place) :
    r.MovesEntries roots d.entries (d.renamed r).entries := by
  have hmoves : r.Moves d.place (d.renamed r).place := (d.movesVertex hbuiltIn).moves
  have htype : d.place.kind.isType = true := d.body.isType_kind
  have hrank : d.place.kind.rank < ElementKind.appliedDirective.rank :=
    (of_decide_eq_true htype).trans (by decide)
  exact (Rename.MovesEntries.applicationEntries hmoves hroot happlied hrank [] d.directives).append
    (.body hmoves hroot happlied htype d.body)

theorem DirectiveDefinition.movesEntries (happlied : r.kind ≠ .appliedDirective)
    {roots : Place → Place → Prop} {d : DirectiveDefinition}
    (hroot : roots (directivePlace d.name) (directivePlace d.name)) :
    r.MovesEntries roots d.entries (d.renamed r).entries := by
  unfold entries renamed
  rw [List.flatMap_map]
  exact .flatMap _ fun a _ => .inputValue (.same _) hroot happlied Label.argument
    (show ElementKind.directive.rank < ElementKind.argument.rank by decide) (by decide) a

end Definitions

/-! ## Type systems side by side -/

/-- Whether two elements stand beside each other in two lists at these places. -/
def AreBeside (vertices vertices' : List Vertex) (p q : Place) : Prop :=
  ∃ pair ∈ vertices.zip vertices', pair.1.place = p ∧ pair.2.place = q

theorem AreBeside.append_right {vertices vertices' : List Vertex} {p q : Place}
    (h : AreBeside vertices vertices' p q) (hlength : vertices.length = vertices'.length)
    (more more' : List Vertex) : AreBeside (vertices ++ more) (vertices' ++ more') p q := by
  obtain ⟨pair, hpair, hplaces⟩ := h
  exact ⟨pair, by rw [List.zip_append hlength]; exact List.mem_append_left _ hpair, hplaces⟩

theorem AreBeside.append_left {vertices vertices' more more' : List Vertex} {p q : Place}
    (h : AreBeside more more' p q) (hlength : vertices.length = vertices'.length) :
    AreBeside (vertices ++ more) (vertices' ++ more') p q := by
  obtain ⟨pair, hpair, hplaces⟩ := h
  exact ⟨pair, by rw [List.zip_append hlength]; exact List.mem_append_right _ hpair, hplaces⟩

namespace Rename.Renames

variable {r : Rename} {old new : TypeSystem} (h : r.Renames old new)

include h

theorem zip_definitionVertices :
    old.definitionVertices.zip new.definitionVertices =
      (old.types.entries.map fun d => (d.vertex, (d.renamed r).vertex)) ++
        old.directives.entries.map fun d => (d.vertex, d.vertex) := by
  rw [TypeSystem.definitionVertices, TypeSystem.definitionVertices, h.types, h.directives,
    List.map_map, List.map_map, List.zip_append (by simp), List.zip_map', List.zip_map']
  rfl

theorem beside_of_type {d : TypeDefinition} (hd : d ∈ old.types.entries) :
    AreBeside old.definitionVertices new.definitionVertices d.place (d.renamed r).place := by
  refine ⟨(d.vertex, (d.renamed r).vertex), ?_, rfl, rfl⟩
  rw [h.zip_definitionVertices]
  exact List.mem_append_left _ (List.mem_map_of_mem hd)

theorem beside_of_directive {d : DirectiveDefinition} (hd : d ∈ old.directives.entries) :
    AreBeside old.definitionVertices new.definitionVertices (directivePlace d.name)
      (directivePlace d.name) := by
  refine ⟨(d.vertex, d.vertex), ?_, rfl, rfl⟩
  rw [h.zip_definitionVertices]
  exact List.mem_append_right _ (List.mem_map_of_mem hd)

theorem definitionVertices :
    List.Forall₂ r.MovesVertex old.definitionVertices new.definitionVertices := by
  rw [List.forall₂_iff_zip]
  constructor
  · simp [TypeSystem.definitionVertices, h.types, h.directives]
  · intro v w hpair
    rw [h.zip_definitionVertices, List.mem_append, List.mem_map, List.mem_map] at hpair
    rcases hpair with ⟨d, -, heq⟩ | ⟨d, -, heq⟩
    · cases heq
      exact d.movesVertex h.builtIn
    · cases heq
      exact .same fun hd => h.kind.1 hd.kind.symm

/-- The outlines stand side by side, with the definitions as their roots. -/
theorem entries : r.MovesEntries (AreBeside old.definitionVertices new.definitionVertices)
    old.entries new.entries := by
  rw [TypeSystem.entries, TypeSystem.entries, h.types, h.directives, List.flatMap_map,
    List.flatMap_map]
  exact (Rename.MovesEntries.flatMap _ fun d hd =>
    d.movesEntries h.builtIn h.kind.2 (h.beside_of_type hd)).append
      (.flatMap _ fun d hd => d.movesEntries h.kind.2 (h.beside_of_directive hd))

end Rename.Renames

end SchemaDelta

import SchemaDelta.Proofs.Edit.Matchings
import SchemaDelta.Proofs.Graph.Entries

/-!
The graph of a type system, if it has one. Its vertices are the definitions, the elements inside
them and the built-in scalars that are mentioned and not defined. Its edges are the relations that
the entries state, and none of those is lost.
-/

namespace SchemaDelta

@[simp]
theorem TypeBody.isType_kind (body : TypeBody) : body.kind.isType = true := by
  cases body <;> rfl

/-! ## Catalogs -/

namespace Catalog

variable {α : Type} {name : α → String} {c : Catalog α name} {key : String} {a : α}

theorem find?_eq_some_iff : c.find? key = some a ↔ a ∈ c.entries ∧ name a = key := by
  unfold find?
  constructor
  · intro h
    exact ⟨List.mem_of_find?_eq_some h, by simpa using List.find?_some h⟩
  · rintro ⟨hmem, rfl⟩
    cases hfind : c.entries.find? fun b => name b == name a with
    | none => simpa using List.find?_eq_none.1 hfind a hmem
    | some b =>
      -- no other entry has its name
      have hname : name b = name a := by simpa using List.find?_some hfind
      rw [List.inj_on_of_nodup_map c.distinct (List.mem_of_find?_eq_some hfind) hmem hname]

theorem find?_eq_none_iff : c.find? key = none ↔ key ∉ c.names := by
  simp [find?, names]

end Catalog

/-! ## Labels -/

namespace Label

/-- A label that begins like no label of ownership is none. -/
theorem isOwnership_eq_false {start : String}
    (hstart : ∀ label ∈ ownership, ¬ start.toList <+: label.toList) (rest : String) :
    isOwnership (start ++ rest) = false := by
  unfold isOwnership
  rw [← Bool.not_eq_true, List.contains_iff_mem]
  intro hmem
  exact hstart _ hmem (by rw [String.toList_append]; exact List.prefix_append ..)

theorem isOwnership_mention (role : MentionRole) (name : String) :
    isOwnership (role.label name) = false := by
  cases role with
  | typeOf rendered => exact isOwnership_eq_false (by decide) rendered
  | interface => exact isOwnership_eq_false (by decide) name
  | member => rfl
  | directive => rfl

theorem isImplements_typeOf (rendered : String) : isImplements (typeOf rendered) = false := by
  simp [isImplements, typeOf, typeStart, implementsStart, String.toList_append,
    List.isPrefixOf_cons_cons]

theorem isImplements_implementing (name : String) : isImplements (implementing name) = true := by
  simp [isImplements, implementing, String.toList_append]

/-- Only the types of elements have labels that begin like theirs. -/
theorem eq_of_typeOf_eq_label {rendered name : String} {role : MentionRole}
    (h : typeOf rendered = role.label name) : role = .typeOf rendered := by
  have hlist := congrArg String.toList h
  cases role with
  | typeOf other =>
    simp only [MentionRole.label, typeOf, String.toList_append, List.append_cancel_left_eq] at hlist
    rw [String.toList_inj.1 hlist]
  | interface => simp [typeOf, typeStart, MentionRole.label, implementing, implementsStart] at hlist
  | member => simp [typeOf, typeStart, MentionRole.label, member] at hlist
  | directive => simp [typeOf, typeStart, MentionRole.label, directive] at hlist

end Label

/-! ## Ends and owners -/

namespace Graph

variable {g : Graph} {id owner : Nat}

theorem exists_ends {e : Edge} (he : g.edge? id = some e) :
    ∃ one two, g.vertex? e.one = some one ∧ g.vertex? e.two = some two := by
  have hends := g.ends_known e (List.mem_of_getElem? he)
  obtain ⟨one, hone⟩ := exists_vertex?_of_lt hends.1
  obtain ⟨two, htwo⟩ := exists_vertex?_of_lt hends.2
  exact ⟨one, two, hone, htwo⟩

theorem owner?_eq_some_iff : g.owner? id = some owner ↔
    ∃ e ∈ g.edges, e.isOwnership = true ∧ e.two = id ∧ e.one = owner := by
  unfold owner?
  constructor
  · intro h
    obtain ⟨e, hfind, hone⟩ := Option.map_eq_some_iff.1 h
    obtain ⟨howns, htwo⟩ : e.isOwnership = true ∧ e.two = id := by
      simpa using List.find?_some hfind
    exact ⟨e, List.mem_of_find?_eq_some hfind, howns, htwo, hone⟩
  · rintro ⟨e, hmem, howns, rfl, rfl⟩
    cases hfind : g.edges.find? fun e' => e'.isOwnership && e'.two == e.two with
    | none => simpa [howns] using List.find?_eq_none.1 hfind e hmem
    | some e' =>
      obtain ⟨howns', htwo⟩ : e'.isOwnership = true ∧ e'.two = e.two := by
        simpa using List.find?_some hfind
      -- a second owner of the vertex would be the first one
      have hmem' := List.mem_filter.2 ⟨List.mem_of_find?_eq_some hfind, howns'⟩
      rw [List.inj_on_of_nodup_map g.owned_once hmem' (List.mem_filter.2 ⟨hmem, howns⟩) htwo]
      rfl

end Graph

namespace TypeSystem

variable {ts : TypeSystem} {g : Graph}

/-! ## Vertices -/

/-- The type that an entry mentions, which may be a built-in scalar. -/
def mentionedType? : Entry → Option String
  | .mention _ _ .directive => none
  | .mention _ name _ => some name
  | .element .. => none

theorem mentionedType?_eq_some_iff {entry : Entry} {name : String} :
    mentionedType? entry = some name ↔
      ∃ source role, role ≠ .directive ∧ entry = .mention source name role := by
  cases entry with
  | element owner label v => simp [mentionedType?]
  | mention source other role => cases role <;> simp [mentionedType?, eq_comm]

/-- The types that entries mention and that are not among those `known`, each once. -/
def unknownTypes (known : List String) (entries : List Entry) : List String :=
  ((entries.filterMap mentionedType?).filter fun name => !known.contains name).eraseDups

theorem unknownTypes_cons {known : List String} {entry : Entry} {name : String}
    {rest : List Entry} (h : mentionedType? entry = some name) :
    unknownTypes known (entry :: rest) =
      if name ∈ known then unknownTypes known rest
      else name :: unknownTypes (name :: known) rest := by
  unfold unknownTypes
  rw [List.filterMap_cons_some h]
  split
  · next hknown => rw [List.filter_cons_of_neg (by simpa using hknown)]
  · next hunknown =>
    rw [List.filter_cons_of_pos (by simpa using hunknown), List.eraseDups_cons, List.filter_filter]
    simp only [List.contains_cons, Bool.not_or]

/-- A type has a vertex from its first mention on. -/
theorem entryVertices_cons {known : List String} {entry : Entry} {name : String}
    {rest : List Entry} (h : mentionedType? entry = some name) :
    entryVertices known (entry :: rest) =
      if name ∈ known then entryVertices known rest
      else builtInScalarVertex name :: entryVertices (name :: known) rest := by
  obtain ⟨source, role, hrole, rfl⟩ := mentionedType?_eq_some_iff.1 h
  cases role <;> first | rfl | exact absurd rfl hrole

/-- The vertices of entries, put together by what they stand for. -/
theorem entryVertices_perm (known : List String) (entries : List Entry) :
    (entryVertices known entries).Perm
      (entries.filterMap Entry.vertex? ++ (unknownTypes known entries).map builtInScalarVertex) := by
  induction entries generalizing known with
  | nil => exact .refl _
  | cons entry rest ih =>
    cases hname : mentionedType? entry with
    | some name =>
      obtain ⟨source, role, -, rfl⟩ := mentionedType?_eq_some_iff.1 hname
      rw [entryVertices_cons hname, unknownTypes_cons hname]
      split
      · exact ih known
      -- a type that is mentioned for the first time is known from here on
      · exact ((ih (name :: known)).cons _).trans List.perm_middle.symm
    | none =>
      cases entry with
      | element owner label v => exact (ih known).cons v
      | mention source name role =>
        cases role with
        | directive => exact ih known
        | _ => cases hname

/-- What makes an element part of the graph of a type system. -/
inductive Has (ts : TypeSystem) : Vertex → Prop where
  | type {d : TypeDefinition} (h : d ∈ ts.types.entries) : Has ts d.vertex
  | directive {d : DirectiveDefinition} (h : d ∈ ts.directives.entries) : Has ts d.vertex
  | element {owner : Place} {label : String} {v : Vertex}
    (h : .element owner label v ∈ ts.entries) : Has ts v
  | builtIn {source : Place} {name : String} {role : MentionRole} (hrole : role ≠ .directive)
    (h : .mention source name role ∈ ts.entries) (hunknown : ts.type? name = none) :
    Has ts (builtInScalarVertex name)

theorem mem_vertices_iff {v : Vertex} : v ∈ ts.vertices ↔ ts.Has v := by
  have hperm := (entryVertices_perm ts.types.names ts.entries).mem_iff (a := v)
  unfold vertices definitionVertices
  simp only [List.mem_append, hperm, List.mem_map, List.mem_filterMap, unknownTypes,
    List.mem_eraseDups, List.mem_filter, mentionedType?_eq_some_iff, Bool.not_eq_true',
    List.contains_eq_mem, decide_eq_false_iff_not, ← Catalog.find?_eq_none_iff]
  constructor
  · rintro ((⟨d, hd, rfl⟩ | ⟨d, hd, rfl⟩) | ⟨entry, hentry, hv⟩ |
      ⟨name, ⟨⟨entry, hentry, source, role, hrole, rfl⟩, hunknown⟩, rfl⟩)
    · exact .type hd
    · exact .directive hd
    · cases entry with
      | element owner label w => exact .element (Option.some.inj hv ▸ hentry)
      | mention => cases hv
    · exact .builtIn hrole hentry hunknown
  · intro h
    cases h with
    | type hd => exact Or.inl (Or.inl ⟨_, hd, rfl⟩)
    | directive hd => exact Or.inl (Or.inr ⟨_, hd, rfl⟩)
    | element hmem => exact Or.inr (Or.inl ⟨_, hmem, rfl⟩)
    | builtIn hrole hmem hunknown =>
      exact Or.inr (Or.inr ⟨_, ⟨⟨_, hmem, _, _, hrole, rfl⟩, hunknown⟩, rfl⟩)

theorem has_of_mem_definitionVertices {v : Vertex} (h : v ∈ ts.definitionVertices) : ts.Has v :=
  mem_vertices_iff.1 (List.mem_append_left _ h)

/-- If all vertices have places of their own, the elements have. -/
theorem nodup_places_of_vertices (h : (ts.vertices.map Vertex.place).Nodup) :
    ((ts.entries.filterMap Entry.vertex?).map Vertex.place).Nodup := by
  unfold vertices at h
  rw [List.map_append] at h
  have hentries := ((entryVertices_perm ts.types.names ts.entries).map Vertex.place).nodup_iff.1
    h.of_append_right
  rw [List.map_append] at hentries
  exact hentries.of_append_left

/-! ## The build -/

end TypeSystem

theorem Draft.toGraph_eq_ok_iff {d : Draft} {g : Graph} : d.toGraph = .ok g ↔ g.toDraft = d := by
  unfold toGraph
  constructor
  · intro h
    split at h
    · cases h
    · split at h
      · cases h
      · cases h
        rfl
  · rintro rfl
    split
    · next hplaces => simp [(firstRepeat?_eq_none_iff _).2 g.places_distinct] at hplaces
    · split
      · next howned => simp [(firstRepeat?_eq_none_iff _).2 g.owned_once] at howned
      · rfl

theorem Graph.ofTypeSystem_eq_ok_iff {ts : TypeSystem} {g : Graph} :
    Graph.ofTypeSystem ts = .ok g ↔ ts.firstFault? = none ∧ g.toDraft = ts.draft := by
  unfold Graph.ofTypeSystem
  cases ts.firstFault? with
  | some fault => simp
  | none => simp [Draft.toGraph_eq_ok_iff]

namespace TypeSystem

variable {ts : TypeSystem} {g : Graph} {id : Nat} {v w : Vertex}

theorem Link.edge?_eq_some_iff {link : Link} {e : Edge} : link.edge? g.vertices = some e ↔
    g.find? link.source = some e.one ∧ g.find? link.target = some e.two ∧ e.label = link.label := by
  unfold edge? Graph.find?
  simp only [Option.bind_eq_bind, Option.bind_eq_some_iff, Option.pure_def]
  constructor
  · rintro ⟨one, hone, two, htwo, he⟩
    cases he
    exact ⟨hone, htwo, rfl⟩
  · rintro ⟨hone, htwo, hlabel⟩
    exact ⟨e.one, hone, e.two, htwo, by rw [← hlabel]⟩

theorem link?_mention {source : Place} {name : String} {role : MentionRole}
    (hrole : role ≠ .directive) : ts.link? (.mention source name role) =
      (ts.typePlace? name).map fun target => ⟨source, target, role.label name⟩ := by
  cases role <;> first | rfl | exact absurd rfl hrole

theorem eq_of_link?_mention {source : Place} {name : String} {role : MentionRole} {link : Link}
    (h : ts.link? (.mention source name role) = some link) :
    link.source = source ∧ link.label = role.label name := by
  by_cases hrole : role = .directive
  · cases hrole
    obtain ⟨d, -, rfl⟩ := Option.map_eq_some_iff.1 h
    exact ⟨rfl, rfl⟩
  · rw [link?_mention hrole] at h
    obtain ⟨target, -, rfl⟩ := Option.map_eq_some_iff.1 h
    exact ⟨rfl, rfl⟩

theorem isBuiltIn_of_fault?_eq_none {source : Place} {name : String} {role : MentionRole}
    (hrole : role ≠ .directive) (hunknown : ts.type? name = none)
    (h : ts.fault? (.mention source name role) = none) : isBuiltIn name = true := by
  by_contra hname
  cases role <;> simp_all [fault?, mentionFault?, typePlace?]

section Built

variable (h : Graph.ofTypeSystem ts = .ok g)

include h

/-! ## Mentions without faults -/

theorem fault?_eq_none {entry : Entry} (hmem : entry ∈ ts.entries) : ts.fault? entry = none :=
  List.findSome?_eq_none_iff.1 (Graph.ofTypeSystem_eq_ok_iff.1 h).1 _ hmem

theorem isBuiltIn_of_mention {source : Place} {name : String} {role : MentionRole}
    (hmem : .mention source name role ∈ ts.entries) (hrole : role ≠ .directive)
    (hunknown : ts.type? name = none) : isBuiltIn name = true :=
  isBuiltIn_of_fault?_eq_none hrole hunknown (fault?_eq_none h hmem)

/-! ## Vertices of the graph -/

theorem vertices_eq : g.vertices = ts.vertices := by
  rw [(Graph.ofTypeSystem_eq_ok_iff.1 h).2]
  rfl

theorem edges_eq : g.edges = ts.links.filterMap (Link.edge? g.vertices) := by
  rw [(Graph.ofTypeSystem_eq_ok_iff.1 h).2]
  rfl

theorem has_of_vertex? (hv : g.vertex? id = some v) : ts.Has v := by
  rw [← mem_vertices_iff, ← vertices_eq h]
  exact List.mem_of_getElem? hv

theorem exists_vertex? (hv : ts.Has v) : ∃ id, g.vertex? id = some v := by
  rw [← mem_vertices_iff, ← vertices_eq h] at hv
  exact List.mem_iff_getElem?.1 hv

theorem mem_places_iff {place : Place} : place ∈ g.places ↔ ∃ v, ts.Has v ∧ v.place = place := by
  rw [Draft.places, List.mem_map, vertices_eq h]
  simp only [mem_vertices_iff]

theorem exists_find? (hv : ts.Has v) : ∃ id, g.find? v.place = some id := by
  obtain ⟨id, hid⟩ := exists_vertex? h hv
  exact ⟨id, Graph.find?_eq_some_iff.2 ⟨v, hid, rfl⟩⟩

theorem Has.eq_of_place (hv : ts.Has v) (hw : ts.Has w) (hplace : v.place = w.place) : v = w := by
  obtain ⟨i, hi⟩ := exists_vertex? h hv
  obtain ⟨j, hj⟩ := exists_vertex? h hw
  rw [Graph.eq_of_place hi hj hplace, hj] at hi
  exact (Option.some.inj hi).symm

/-! ## Edges of the graph -/

/-- A type that is mentioned is there. -/
theorem exists_typePlace? {source : Place} {name : String} {role : MentionRole}
    (hmem : .mention source name role ∈ ts.entries) (hrole : role ≠ .directive) :
    ∃ v, ts.Has v ∧ v.kind.isType = true ∧ v.name = name ∧
      ts.typePlace? name = some v.place := by
  cases htype : ts.type? name with
  | some d =>
    obtain ⟨hd, rfl⟩ := Catalog.find?_eq_some_iff.1 htype
    exact ⟨d.vertex, .type hd, TypeBody.isType_kind d.body, rfl, by rw [typePlace?, htype]; rfl⟩
  | none =>
    -- to mention anything else would have been a fault
    have hname := isBuiltIn_of_mention h hmem hrole htype
    exact ⟨builtInScalarVertex name, .builtIn hrole hmem htype, rfl, rfl,
      by rw [typePlace?, htype, if_pos hname]; rfl⟩

/-- Both ends of every relation are there. -/
theorem exists_edge? {entry : Entry} {link : Link} (hmem : entry ∈ ts.entries)
    (hlink : ts.link? entry = some link) : ∃ e, link.edge? g.vertices = some e := by
  have hsource : ∃ v, ts.Has v ∧ v.place = link.source := by
    -- a relation leads from the element that its entry is about
    have hholder : link.source = entry.holder := by
      cases entry with
      | element owner label v =>
        cases hlink
        rfl
      | mention source name role => exact (eq_of_link?_mention hlink).1
    rcases exists_holder hmem with ⟨v, hv, hplace⟩ | ⟨owner, label, v, hv, hplace⟩
    · exact ⟨v, has_of_mem_definitionVertices hv, hplace.trans hholder.symm⟩
    · exact ⟨v, .element hv, hplace.trans hholder.symm⟩
  have htarget : ∃ v, ts.Has v ∧ v.place = link.target := by
    cases entry with
    | element owner label v =>
      cases hlink
      exact ⟨v, .element hmem, rfl⟩
    | mention source name role =>
      by_cases hrole : role = .directive
      · cases hrole
        obtain ⟨d, hfind, rfl⟩ := Option.map_eq_some_iff.1 hlink
        obtain ⟨hd, rfl⟩ := Catalog.find?_eq_some_iff.1 hfind
        exact ⟨d.vertex, .directive hd, rfl⟩
      · obtain ⟨v, hv, -, -, hplace⟩ := exists_typePlace? h hmem hrole
        rw [link?_mention hrole, hplace] at hlink
        cases hlink
        exact ⟨v, hv, rfl⟩
  obtain ⟨v, hv, hvplace⟩ := hsource
  obtain ⟨w, hw, hwplace⟩ := htarget
  obtain ⟨one, hone⟩ := exists_find? h hv
  obtain ⟨two, htwo⟩ := exists_find? h hw
  rw [hvplace] at hone
  rw [hwplace] at htwo
  exact ⟨⟨one, two, link.label⟩, Link.edge?_eq_some_iff.2 ⟨hone, htwo, rfl⟩⟩

theorem mem_edges_iff {e : Edge} : e ∈ g.edges ↔
    ∃ entry ∈ ts.entries, ∃ link, ts.link? entry = some link ∧ link.edge? g.vertices = some e := by
  rw [edges_eq h]
  simp only [links, List.mem_filterMap]
  constructor
  · rintro ⟨link, ⟨entry, hentry, hlink⟩, he⟩
    exact ⟨entry, hentry, link, hlink, he⟩
  · rintro ⟨entry, hentry, link, hlink, he⟩
    exact ⟨link, ⟨entry, hentry, hlink⟩, he⟩

/-- What a type implements is an interface. -/
theorem kind_of_isImplements {e : Edge} (he : e ∈ g.edges)
    (hlabel : Label.isImplements e.label = true) (hv : g.vertex? e.two = some v) :
    v.kind = .interface := by
  obtain ⟨entry, hmem, link, hlink, hedge⟩ := (mem_edges_iff h).1 he
  obtain ⟨-, htwo, heq⟩ := Link.edge?_eq_some_iff.1 hedge
  obtain ⟨v', hv', htarget⟩ := Graph.find?_eq_some_iff.1 htwo
  cases hv.symm.trans hv'
  rw [heq] at hlabel
  cases entry with
  | element owner label w =>
    cases hlink
    rw [(owns_of_mem_entries hmem).isImplements] at hlabel
    cases hlabel
  | mention source name role =>
    rw [(eq_of_link?_mention hlink).2] at hlabel
    cases role with
    | typeOf rendered =>
      rw [MentionRole.label, Label.isImplements_typeOf] at hlabel
      cases hlabel
    | interface =>
      obtain ⟨place, hplace, rfl⟩ := Option.map_eq_some_iff.1 hlink
      -- anything else would have been a fault
      have hfault := fault?_eq_none h hmem
      simp only [fault?, mentionFault?, hplace] at hfault
      have hkind : place.kind = .interface := by simpa using hfault
      exact (congrArg Place.kind htarget).trans hkind
    | member => exact absurd hlabel (show ¬ Label.isImplements Label.member = true by decide)
    | directive => exact absurd hlabel (show ¬ Label.isImplements Label.directive = true by decide)

/-! ## Owners in the graph -/

/-- A vertex that has an owner is an element inside it. -/
theorem exists_element_of_owner? {owner : Nat} (howner : g.owner? id = some owner) :
    ∃ v w label, g.vertex? id = some v ∧ g.vertex? owner = some w ∧
      .element w.place label v ∈ ts.entries := by
  obtain ⟨e, he, howns, rfl, rfl⟩ := Graph.owner?_eq_some_iff.1 howner
  obtain ⟨entry, hentry, link, hlink, hedge⟩ := (mem_edges_iff h).1 he
  obtain ⟨hone, htwo, hlabel⟩ := Link.edge?_eq_some_iff.1 hedge
  cases entry with
  | element place label v =>
    cases hlink
    obtain ⟨w, hw, rfl⟩ := Graph.find?_eq_some_iff.1 hone
    obtain ⟨v', hv', hplace⟩ := Graph.find?_eq_some_iff.1 htwo
    cases Has.eq_of_place h (has_of_vertex? h hv') (.element hentry) hplace
    exact ⟨v, w, label, hv', hw, hentry⟩
  | mention source name role =>
    -- the labels of mentions are not those of owners
    rw [Edge.isOwnership, hlabel, (eq_of_link?_mention hlink).2, Label.isOwnership_mention] at howns
    cases howns

theorem exists_owner? {place : Place} {label : String}
    (hmem : .element place label v ∈ ts.entries) (hv : g.vertex? id = some v) :
    ∃ owner w, g.owner? id = some owner ∧ g.vertex? owner = some w ∧ w.place = place := by
  obtain ⟨e, he⟩ := exists_edge? h hmem rfl
  obtain ⟨hone, htwo, hlabel⟩ := Link.edge?_eq_some_iff.1 he
  obtain ⟨w, hw, hplace⟩ := Graph.find?_eq_some_iff.1 hone
  obtain ⟨v', hv', hplace'⟩ := Graph.find?_eq_some_iff.1 htwo
  have htwo : e.two = id := Graph.eq_of_place hv' hv hplace'
  have howns : e.isOwnership = true := by
    rw [Edge.isOwnership, hlabel]
    exact (owns_of_mem_entries hmem).isOwnership
  refine ⟨e.one, w, Graph.owner?_eq_some_iff.2 ⟨e, ?_, howns, htwo, rfl⟩, hw, hplace⟩
  exact (mem_edges_iff h).2 ⟨_, hmem, _, rfl, he⟩

end Built

end TypeSystem

end SchemaDelta

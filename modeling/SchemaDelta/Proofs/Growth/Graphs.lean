import SchemaDelta.Proofs.Edit.Common
import SchemaDelta.Proofs.Graph.Types
import SchemaDelta.Proofs.Growth.Declarations

/-!
The graph of a type system that has grown. It has the vertices and edges of the graph before, and
every edge that it has more has an end that was not there; one that leads to an interface of a type
begins at a type that was not there.
-/

namespace SchemaDelta

/-! ## Parts of graphs -/

/-- Whether an edge has an end at none of the places, its first one if it leads to an interface. -/
def IsOutside (places : List Place) (edge : Option Place × String × Option Place) : Prop :=
  (∃ place ∉ places, edge.1 = some place) ∨
    Label.isImplements edge.2.1 = false ∧ ∃ place ∉ places, edge.2.2 = some place

/-- Whether a graph has all of another, and more only where that one has no places. -/
structure Graph.IsPartOf (g h : Graph) : Prop where
  vertices : ∀ v ∈ g.vertices, v ∈ h.vertices
  edges : ∃ more, h.placedEdges.Perm (g.placedEdges ++ more) ∧
    ∀ edge ∈ more, IsOutside g.places edge

/-! ## More edges -/

/-- What is picked beyond what was picked before. -/
theorem exists_filterMap_perm_append {α β : Type} {f g : α → Option β} {IsMore : β → Prop}
    {as : List α} (h : ∀ a ∈ as, g a = f a ∨ f a = none ∧ ∀ b, g a = some b → IsMore b) :
    ∃ more, (as.filterMap g).Perm (as.filterMap f ++ more) ∧ ∀ b ∈ more, IsMore b := by
  induction as with
  | nil => exact ⟨[], .refl _, by simp⟩
  | cons a as ih =>
    obtain ⟨more, hperm, hmore⟩ := ih fun a' ha' => h a' (List.mem_cons_of_mem a ha')
    rw [List.filterMap_cons, List.filterMap_cons]
    rcases h a List.mem_cons_self with heq | ⟨hnone, hnew⟩
    · rw [heq]
      cases f a with
      | none => exact ⟨more, hperm, hmore⟩
      | some b => exact ⟨more, hperm.cons b, hmore⟩
    · rw [hnone]
      cases hg : g a with
      | none => exact ⟨more, hperm, hmore⟩
      | some b =>
        refine ⟨b :: more, (hperm.cons b).trans List.perm_middle.symm, fun b' hb' => ?_⟩
        rcases List.mem_cons.1 hb' with rfl | hb'
        · exact hnew _ hg
        · exact hmore b' hb'

namespace TypeSystem.Grows

variable {old new : TypeSystem} {oldGraph newGraph : Graph} {v : Vertex} (h : old.Grows new)
  (hold : Graph.ofTypeSystem old = .ok oldGraph) (hnew : Graph.ofTypeSystem new = .ok newGraph)

include h

/-! ## Vertices -/

include hold in
/-- What was there is there still. -/
theorem has (hv : old.Has v) : new.Has v := by
  cases hv with
  | type hd =>
    obtain ⟨e, he, hgrows⟩ := h.types.exists_related hd
    rw [hgrows.vertex_eq]
    exact .type he
  | directive hd =>
    obtain ⟨e, he, hgrows⟩ := h.directives.exists_related hd
    rw [hgrows.vertex_eq]
    exact .directive he
  | element hmem => exact .element (h.mem_entries hmem)
  | builtIn hrole hmem hunknown =>
    exact .builtIn hrole (h.mem_entries hmem)
      (h.type?_eq_none hunknown (isBuiltIn_of_mention hold hmem hrole hunknown))

/-! ## Edges -/

include hold in
theorem typePlace?_eq {source : Place} {name : String} {role : MentionRole}
    (hmem : .mention source name role ∈ old.entries) (hrole : role ≠ .directive) :
    new.typePlace? name = old.typePlace? name := by
  unfold typePlace?
  cases hd : old.type? name with
  | none => rw [h.type?_eq_none hd (isBuiltIn_of_mention hold hmem hrole hd)]
  | some d =>
    obtain ⟨e, he, hgrows⟩ := h.exists_type? hd
    simp only [he, hgrows.place_eq]

include hold in
/-- An added definition is at a place where nothing was. -/
theorem not_mem_places_of_isAdded {place : Place} (hadded : old.IsAdded new place) :
    place ∉ oldGraph.places := by
  rw [mem_places_iff hold]
  rintro ⟨v, hv, hplace⟩
  cases hadded with
  | @type d hd hnone =>
    have hkind : v.kind = d.body.kind := congrArg Place.kind hplace
    have hpath : v.path = d.name := congrArg Place.path hplace
    have htype : v.kind.isType = true := hkind ▸ d.body.isType_kind
    have hunknown := Catalog.find?_eq_none_iff.1 hnone
    cases hv with
    | type hd' => exact hunknown (List.mem_map.2 ⟨_, hd', hpath⟩)
    | directive => exact Bool.false_ne_true htype
    | element hmem =>
      have hpart := (owns_of_mem_entries hmem).isDefinition
      rw [ElementKind.isDefinition_iff.2 (Or.inl htype)] at hpart
      cases hpart
    | builtIn hrole hmem hunknown' =>
      have hname : isBuiltIn _ = true := isBuiltIn_of_mention hold hmem hrole hunknown'
      exact hunknown (h.builtIn d hd (hpath ▸ hname))
  | @directive d hd hnone =>
    have hkind : v.kind = .directive := congrArg Place.kind hplace
    have hpath : v.path = "@" ++ d.name := congrArg Place.path hplace
    cases hv with
    | @type d' =>
      have htype : (d'.vertex).kind.isType = true := d'.body.isType_kind
      rw [hkind] at htype
      exact Bool.false_ne_true htype
    | directive hd' =>
      exact Catalog.find?_eq_none_iff.1 hnone
        (List.mem_map.2 ⟨_, hd', (String.append_right_inj "@").1 hpath⟩)
    | element hmem =>
      have hpart := (owns_of_mem_entries hmem).isDefinition
      rw [hkind] at hpart
      cases hpart
    | builtIn => cases hkind

section Added

variable {added : List Entry} (hperm : new.entries.Perm (old.entries ++ added))

include hold hnew hperm

omit h in
/-- An added element is at a place where nothing was. -/
theorem not_mem_places_of_element {owner : Place} {label : String}
    (hmem : .element owner label v ∈ added) : v.place ∉ oldGraph.places := by
  rw [mem_places_iff hold]
  rintro ⟨u, hu, hplace⟩
  have hkind : u.kind = v.kind := congrArg Place.kind hplace
  have howns := owns_of_mem_entries (hperm.mem_iff.2 (List.mem_append_right _ hmem))
  obtain ⟨owner', label', hmem'⟩ := hu.exists_element (hkind ▸ howns.isDefinition)
  have hnodup := ((hperm.filterMap Entry.vertex?).map Vertex.place).nodup_iff.1
    (nodup_element_places hnew)
  rw [List.filterMap_append, List.map_append] at hnodup
  exact List.disjoint_of_nodup_append hnodup
    (List.mem_map.2 ⟨u, List.mem_filterMap.2 ⟨_, hmem', rfl⟩, hplace⟩)
    (List.mem_map_of_mem (List.mem_filterMap.2 ⟨_, hmem, rfl⟩))

theorem not_mem_places_of_mention (hheld : AreHeld (old.IsAdded new) added) {source : Place}
    {name : String} {role : MentionRole} (hmem : .mention source name role ∈ added) :
    source ∉ oldGraph.places := by
  rcases hheld.held source name role hmem with hadded | ⟨owner, label, v, hv, rfl⟩
  · exact h.not_mem_places_of_isAdded hold hadded
  · exact not_mem_places_of_element hold hnew hperm hv

/-- An added entry relates what was not there to something. -/
theorem isOutside_of_added (hheld : AreHeld (old.IsAdded new) added) {entry : Entry}
    (hmem : entry ∈ added) {link : Link} (hlink : new.link? entry = some link) :
    IsOutside oldGraph.places link.placed := by
  cases entry with
  | element owner label v =>
    have howns := owns_of_mem_entries (hperm.mem_iff.2 (List.mem_append_right _ hmem))
    cases hlink
    exact Or.inr ⟨howns.isImplements, _, not_mem_places_of_element hold hnew hperm hmem, rfl⟩
  | mention source name role =>
    refine Or.inl ⟨source, h.not_mem_places_of_mention hold hnew hperm hheld hmem, ?_⟩
    rw [← (eq_of_link?_mention hlink).1]
    rfl

end Added

include hold in
/-- What an entry said it says still, and if it said nothing, then at most that a directive is
applied which is defined now. -/
theorem link?_eq_or {entry : Entry} (hmem : entry ∈ old.entries) :
    new.link? entry = old.link? entry ∨ old.link? entry = none ∧
      ∀ link, new.link? entry = some link → IsOutside oldGraph.places link.placed := by
  cases entry with
  | element owner label v => exact Or.inl rfl
  | mention source name role =>
    by_cases hrole : role = .directive
    · subst hrole
      simp only [link?]
      cases hd : old.directive? name with
      | some d =>
        obtain ⟨e, he, -⟩ := h.exists_directive? hd
        exact Or.inl (by rw [he]; rfl)
      | none =>
        refine Or.inr ⟨rfl, fun link hlink => ?_⟩
        obtain ⟨e, he, rfl⟩ := Option.map_eq_some_iff.1 hlink
        obtain ⟨hdefined, rfl⟩ := Catalog.find?_eq_some_iff.1 he
        exact Or.inr ⟨show Label.isImplements Label.directive = false by decide, _,
          h.not_mem_places_of_isAdded hold (.directive hdefined hd), rfl⟩
    · rw [link?_mention hrole, link?_mention hrole, h.typePlace?_eq hold hmem hrole]
      exact Or.inl rfl

include hold hnew

/-- The graph of a type system is a part of what the type system grows into. -/
theorem isPartOf : oldGraph.IsPartOf newGraph where
  vertices v hv := by
    rw [vertices_eq hold, mem_vertices_iff] at hv
    rw [vertices_eq hnew, mem_vertices_iff]
    exact h.has hold hv
  edges := by
    obtain ⟨added, hperm, hheld⟩ := h.entriesGrow
    obtain ⟨more, hmore, houtside⟩ := exists_filterMap_perm_append fun _ hmem =>
      h.link?_eq_or hold hmem
    rw [placedEdges_eq hold, placedEdges_eq hnew]
    refine ⟨(more ++ added.filterMap new.link?).map Link.placed, ?_, fun edge hedge => ?_⟩
    · rw [← List.map_append, ← List.append_assoc]
      refine ((hperm.filterMap new.link?).trans ?_).map Link.placed
      rw [List.filterMap_append]
      exact hmore.append_right _
    · obtain ⟨link, hlink, rfl⟩ := List.mem_map.1 hedge
      rcases List.mem_append.1 hlink with hlink | hlink
      · exact houtside link hlink
      · obtain ⟨entry, hmem, hentry⟩ := List.mem_filterMap.1 hlink
        exact h.isOutside_of_added hold hnew hperm hheld hmem hentry

end TypeSystem.Grows

end SchemaDelta

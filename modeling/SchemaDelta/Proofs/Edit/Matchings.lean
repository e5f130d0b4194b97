import Mathlib.Data.List.Nodup
import SchemaDelta.Edit.Script
import SchemaDelta.Proofs.Assignment.Choices
import SchemaDelta.Proofs.Ordering

/-!
The matchings that a comparison can come to: the anchors, and the anchors with the pairs of an
assignment. All of them are one-to-one, keep kinds, and match what is at one place in both graphs.
-/

namespace SchemaDelta

variable {old new : Graph} {m : Matching} {source target : Nat}

theorem index_eq_of_nodup {α : Type} {as : List α} (hnodup : as.Nodup) {a : α} {i j : Nat}
    (hi : as[i]? = some a) (hj : as[j]? = some a) : i = j := by
  have hlt := (List.getElem?_eq_some_iff.1 hi).1
  exact (List.getElem?_inj hlt hnodup).1 (hi.trans hj.symm)

/-! ## Places -/

namespace Graph

variable {g : Graph}

theorem vertex?_isSome {id : Nat} : (g.vertex? id).isSome ↔ id < g.vertices.length := by
  simp [Draft.vertex?]

theorem exists_vertex?_of_lt {id : Nat} (h : id < g.vertices.length) :
    ∃ v, g.vertex? id = some v :=
  Option.isSome_iff_exists.1 (vertex?_isSome.2 h)

theorem lt_of_vertex? {id : Nat} {v : Vertex} (hv : g.vertex? id = some v) :
    id < g.vertices.length :=
  vertex?_isSome.1 (by rw [hv]; rfl)

/-- A place has one vertex at most. -/
theorem eq_of_place {first second : Nat} {v w : Vertex} (hfirst : g.vertex? first = some v)
    (hsecond : g.vertex? second = some w) (hplace : v.place = w.place) : first = second := by
  unfold Draft.vertex? at hfirst hsecond
  have hlt : first < g.places.length := by
    rw [Draft.places, List.length_map]
    exact (List.getElem?_eq_some_iff.1 hfirst).1
  rw [← List.getElem?_inj hlt g.places_distinct]
  simp [Draft.places, hfirst, hsecond, hplace]

theorem find?_eq_some_iff {place : Place} {id : Nat} :
    g.find? place = some id ↔ ∃ v, g.vertex? id = some v ∧ v.place = place := by
  unfold find?
  constructor
  · intro h
    obtain ⟨hlt, hplace, -⟩ := List.findIdx?_eq_some_iff_getElem.1 h
    exact ⟨_, List.getElem?_eq_getElem hlt, by simpa using hplace⟩
  · rintro ⟨v, hv, hplace⟩
    obtain ⟨hlt, hget⟩ := List.getElem?_eq_some_iff.1 hv
    refine List.findIdx?_eq_some_iff_getElem.2 ⟨hlt, by simp [hget, hplace], ?_⟩
    intro before hbefore hfound
    -- an earlier vertex at this place would be this one
    have heq := eq_of_place (List.getElem?_eq_getElem (Nat.lt_trans hbefore hlt)) hv
      (by rw [hplace]; simpa using hfound)
    omega

/-- A vertex is found at one place. -/
theorem place_eq_of_find? {place place' : Place} {id : Nat} (h : g.find? place = some id)
    (h' : g.find? place' = some id) : place = place' := by
  obtain ⟨v, hv, rfl⟩ := find?_eq_some_iff.1 h
  obtain ⟨w, hw, rfl⟩ := find?_eq_some_iff.1 h'
  rw [Option.some.inj (hv.symm.trans hw)]

end Graph

/-! ## Pairs -/

namespace Matching

/-- What is looked up under a number stands in a pair with that number. -/
theorem exists_of_find? {pairs : List (Nat × Nat)} {key value : Nat × Nat → Nat} {k v : Nat}
    (h : (pairs.find? fun pair => key pair == k).map value = some v) :
    ∃ pair ∈ pairs, key pair = k ∧ value pair = v := by
  obtain ⟨pair, hfind, hvalue⟩ := Option.map_eq_some_iff.1 h
  have hkey : key pair = k := by simpa using List.find?_some hfind
  exact ⟨pair, List.mem_of_find?_eq_some hfind, hkey, hvalue⟩

theorem find?_map_eq_none_iff {pairs : List (Nat × Nat)} {key value : Nat × Nat → Nat} {k : Nat} :
    (pairs.find? fun pair => key pair == k).map value = none ↔ ∀ pair ∈ pairs, key pair ≠ k := by
  simp [List.find?_eq_none]

theorem mem_of_image? (h : m.image? source = some target) : (source, target) ∈ m.pairs := by
  obtain ⟨pair, hmem, rfl, rfl⟩ := exists_of_find? h
  exact hmem

theorem mem_of_preimage? (h : m.preimage? target = some source) : (source, target) ∈ m.pairs := by
  obtain ⟨pair, hmem, rfl, rfl⟩ := exists_of_find? h
  exact hmem

theorem image?_eq_none_iff : m.image? source = none ↔ ∀ target, (source, target) ∉ m.pairs := by
  unfold image?
  rw [find?_map_eq_none_iff]
  constructor
  · intro h target hmem
    exact h _ hmem rfl
  · rintro h ⟨_, target⟩ hmem rfl
    exact h target hmem

theorem preimage?_eq_none_iff : m.preimage? target = none ↔ ∀ source, (source, target) ∉ m.pairs := by
  unfold preimage?
  rw [find?_map_eq_none_iff]
  constructor
  · intro h source hmem
    exact h _ hmem rfl
  · rintro h ⟨source, _⟩ hmem rfl
    exact h source hmem

theorem image?_isNone_iff : (m.image? source).isNone ↔ source ∉ m.pairs.map (·.1) := by
  rw [Option.isNone_iff_eq_none, image?_eq_none_iff]
  simp

theorem preimage?_isNone_iff : (m.preimage? target).isNone ↔ target ∉ m.pairs.map (·.2) := by
  rw [Option.isNone_iff_eq_none, preimage?_eq_none_iff]
  simp

namespace IsOneToOne

theorem eq_target (h : m.IsOneToOne) {target' : Nat} (hmem : (source, target) ∈ m.pairs)
    (hmem' : (source, target') ∈ m.pairs) : target = target' :=
  congrArg Prod.snd (List.inj_on_of_nodup_map h.sources hmem hmem' rfl)

theorem eq_source (h : m.IsOneToOne) {source' : Nat} (hmem : (source, target) ∈ m.pairs)
    (hmem' : (source', target) ∈ m.pairs) : source = source' :=
  congrArg Prod.fst (List.inj_on_of_nodup_map h.targets hmem hmem' rfl)

theorem image?_eq_some_iff (h : m.IsOneToOne) :
    m.image? source = some target ↔ (source, target) ∈ m.pairs := by
  refine ⟨mem_of_image?, fun hmem => ?_⟩
  cases himage : m.image? source with
  | none => exact absurd hmem (image?_eq_none_iff.1 himage target)
  | some target' => rw [h.eq_target hmem (mem_of_image? himage)]

theorem preimage?_eq_some_iff (h : m.IsOneToOne) :
    m.preimage? target = some source ↔ (source, target) ∈ m.pairs := by
  refine ⟨mem_of_preimage?, fun hmem => ?_⟩
  cases hpreimage : m.preimage? target with
  | none => exact absurd hmem (preimage?_eq_none_iff.1 hpreimage source)
  | some source' => rw [h.eq_source hmem (mem_of_preimage? hpreimage)]

theorem isSome_preimage? (h : m.IsOneToOne) (hmem : (source, target) ∈ m.pairs) :
    (m.preimage? target).isSome = true := by
  rw [h.preimage?_eq_some_iff.2 hmem]
  rfl

end IsOneToOne

/-- Pairs made of entries under different numbers, each with the number of its entry, have different
sources. -/
theorem nodup_sources_filterMap {α : Type} {entries : List α} (number : α → Nat)
    {pair? : α → Option (Nat × Nat)} (hnumbers : (entries.map number).Nodup)
    (hpair : ∀ entry pair, pair? entry = some pair → pair.1 = number entry) :
    ((entries.filterMap pair?).map Prod.fst).Nodup := by
  unfold List.Nodup at hnumbers ⊢
  rw [List.pairwise_map] at hnumbers ⊢
  apply hnumbers.filterMap pair?
  intro entry entry' hne pair h pair' h'
  rw [hpair entry pair h, hpair entry' pair' h']
  exact hne

theorem isOneToOne_of_sources (hsources : (m.pairs.map (·.1)).Nodup)
    (htargets : ∀ {source source' target : Nat}, (source, target) ∈ m.pairs →
      (source', target) ∈ m.pairs → source = source') : m.IsOneToOne where
  sources := hsources
  targets := by
    refine (List.Nodup.of_map _ hsources).map_on ?_
    rintro ⟨source, target⟩ h ⟨source', target'⟩ h' rfl
    rw [htargets h h']

/-- A matching of vertices of two graphs that is one-to-one, keeps kinds, and matches what is at one
place in both. -/
structure IsCorrespondence (m : Matching) (old new : Graph) : Prop where
  isOneToOne : m.IsOneToOne
  kinds : ∀ {source target : Nat}, (source, target) ∈ m.pairs → ∃ v w,
    old.vertex? source = some v ∧ new.vertex? target = some w ∧ v.kind = w.kind
  places : ∀ {source target : Nat} {v w : Vertex}, old.vertex? source = some v →
    new.vertex? target = some w → v.place = w.place → (source, target) ∈ m.pairs

theorem IsCorrespondence.kind_eq (h : m.IsCorrespondence old new) {v w : Vertex}
    (hpair : (source, target) ∈ m.pairs) (hv : old.vertex? source = some v)
    (hw : new.vertex? target = some w) : v.kind = w.kind := by
  obtain ⟨v', w', hv', hw', hkind⟩ := h.kinds hpair
  obtain rfl : v = v' := Option.some.inj (hv.symm.trans hv')
  obtain rfl : w = w' := Option.some.inj (hw.symm.trans hw')
  exact hkind

/-! ## Anchors -/

theorem mem_anchors : (source, target) ∈ (anchors old new).pairs ↔ ∃ v w,
    old.vertex? source = some v ∧ new.vertex? target = some w ∧ v.place = w.place := by
  unfold anchors
  simp only [List.mem_filterMap, Option.map_eq_some_iff, Prod.exists, Prod.mk.injEq,
    List.mem_zipIdx_iff_getElem?, Graph.find?_eq_some_iff]
  constructor
  · rintro ⟨v, _, hv, _, ⟨w, hw, hplace⟩, rfl, rfl⟩
    exact ⟨v, w, hv, hw, hplace.symm⟩
  · rintro ⟨v, w, hv, hw, hplace⟩
    exact ⟨v, source, hv, target, ⟨w, hw, hplace.symm⟩, rfl, rfl⟩

theorem anchors_isOneToOne (old new : Graph) : (anchors old new).IsOneToOne := by
  apply isOneToOne_of_sources
  · have hnumbers : (old.vertices.zipIdx.map Prod.snd).Nodup := by
      rw [List.zipIdx_map_snd]
      exact List.nodup_range'
    refine nodup_sources_filterMap Prod.snd hnumbers ?_
    rintro ⟨v, source⟩ pair h
    obtain ⟨_, -, rfl⟩ := Option.map_eq_some_iff.1 h
    rfl
  · intro source source' target h h'
    obtain ⟨v, w, hv, hw, hplace⟩ := mem_anchors.1 h
    obtain ⟨v', w', hv', hw', hplace'⟩ := mem_anchors.1 h'
    cases hw.symm.trans hw'
    exact Graph.eq_of_place hv hv' (hplace.trans hplace'.symm)

theorem anchors_isCorrespondence (old new : Graph) : (anchors old new).IsCorrespondence old new where
  isOneToOne := anchors_isOneToOne old new
  kinds h := by
    obtain ⟨v, w, hv, hw, hplace⟩ := mem_anchors.1 h
    exact ⟨v, w, hv, hw, congrArg Place.kind hplace⟩
  places hv hw hplace := mem_anchors.2 ⟨_, _, hv, hw, hplace⟩

end Matching

/-! ## Searched vertices -/

namespace Unanchored

open Assignment

theorem nodup_searched (g other : Graph) (isAnchored isAnchoredThere : Nat → Bool) :
    (searched g other isAnchored isAnchoredThere).Nodup := by
  unfold searched
  rw [(sortBy_perm _ _).nodup_iff]
  exact List.nodup_range.filter _

theorem lt_of_mem_searched {g other : Graph} {isAnchored isAnchoredThere : Nat → Bool} {id : Nat}
    (h : id ∈ searched g other isAnchored isAnchoredThere) :
    id < g.vertices.length ∧ isAnchored id = false := by
  unfold searched at h
  have hmem := (sortBy_perm _ _).mem_iff.1 h
  simp only [List.mem_filter, Graph.vertexIds, List.mem_range, Bool.and_eq_true,
    Bool.not_eq_true'] at hmem
  exact ⟨hmem.1, hmem.2.1⟩

/-- A vertex is searched if there is one of its kind on the other side, neither of them anchored. -/
theorem mem_searched_iff {g other : Graph} {isAnchored isAnchoredThere : Nat → Bool} {id : Nat} :
    id ∈ searched g other isAnchored isAnchoredThere ↔
      isAnchored id = false ∧ ∃ v, g.vertex? id = some v ∧ ∃ there w,
        other.vertex? there = some w ∧ isAnchoredThere there = false ∧ w.kind = v.kind := by
  unfold searched
  simp only [(sortBy_perm _ _).mem_iff, List.mem_filter, Graph.vertexIds, List.mem_range,
    ← Graph.vertex?_isSome, Option.isSome_iff_exists, Bool.and_eq_true, Bool.not_eq_true',
    List.contains_iff_mem, List.mem_map]
  constructor
  · rintro ⟨⟨v, hv⟩, hid, there, ⟨⟨w, hw⟩, hthere⟩, hkind⟩
    rw [hv, hw] at hkind
    exact ⟨hid, v, hv, there, w, hw, hthere, Option.some.inj hkind⟩
  · rintro ⟨hid, v, hv, there, w, hw, hthere, hkind⟩
    exact ⟨⟨v, hv⟩, hid, there, ⟨⟨w, hw⟩, hthere⟩, by rw [hv, hw, Option.map_some, hkind]; rfl⟩

theorem not_mem_anchors_of_mem_oldSearched (h : source ∈ oldSearched old new) :
    (source, target) ∉ (Matching.anchors old new).pairs := by
  have hanchored := (lt_of_mem_searched h).2
  rw [Option.isSome_eq_false_iff, Option.isNone_iff_eq_none] at hanchored
  exact Matching.image?_eq_none_iff.1 hanchored target

theorem not_mem_anchors_of_mem_newSearched (h : target ∈ newSearched old new) :
    (source, target) ∉ (Matching.anchors old new).pairs := by
  have hanchored := (lt_of_mem_searched h).2
  rw [Option.isSome_eq_false_iff, Option.isNone_iff_eq_none] at hanchored
  exact Matching.preimage?_eq_none_iff.1 hanchored source

theorem mem_pairs {assignment : List Choice} :
    (source, target) ∈ pairs old new assignment ↔ ∃ position candidate : Nat,
      (oldSearched old new)[position]? = some source ∧
      assignment[position]? = some (.candidate candidate) ∧
      (newSearched old new)[candidate]? = some target := by
  unfold pairs
  rw [List.mem_filterMap]
  constructor
  · rintro ⟨⟨source', choice⟩, hmem, hpair⟩
    obtain ⟨position, hzip⟩ := List.mem_iff_getElem?.1 hmem
    obtain ⟨hsource, hchoice⟩ := List.getElem?_zip_eq_some.1 hzip
    cases choice with
    | unmatched => cases hpair
    | candidate candidate =>
      obtain ⟨target', htarget, heq⟩ := Option.map_eq_some_iff.1 hpair
      cases heq
      exact ⟨position, candidate, hsource, hchoice, htarget⟩
  · rintro ⟨position, candidate, hsource, hchoice, htarget⟩
    refine ⟨(source, .candidate candidate), ?_, by simp [htarget]⟩
    exact List.mem_of_getElem? (List.getElem?_zip_eq_some.2 ⟨hsource, hchoice⟩)

theorem mem_searched_of_mem_pairs {assignment : List Choice}
    (h : (source, target) ∈ pairs old new assignment) :
    source ∈ oldSearched old new ∧ target ∈ newSearched old new := by
  obtain ⟨position, candidate, hsource, -, htarget⟩ := mem_pairs.1 h
  exact ⟨List.mem_of_getElem? hsource, List.mem_of_getElem? htarget⟩

theorem nodup_sources_pairs {assignment : List Choice} (old new : Graph)
    (hlength : (oldSearched old new).length ≤ assignment.length) :
    ((pairs old new assignment).map (·.1)).Nodup := by
  refine Matching.nodup_sources_filterMap Prod.fst ?_ ?_
  · rw [List.map_fst_zip hlength]
    exact nodup_searched ..
  · rintro ⟨source, choice⟩ pair h
    cases choice with
    | unmatched => cases h
    | candidate candidate =>
      obtain ⟨_, -, rfl⟩ := Option.map_eq_some_iff.1 h
      rfl

theorem length_assignment {assignment : List Choice}
    (h : (problem old new).IsAssignment assignment) :
    assignment.length = (oldSearched old new).length := by
  rw [h.length]
  simp [problem]

theorem lt_length_oldSearched {assignment : List Choice}
    (h : (problem old new).IsAssignment assignment) {position : Nat} {choice : Choice}
    (hchoice : assignment[position]? = some choice) : position < (oldSearched old new).length := by
  rw [← length_assignment h]
  exact (List.getElem?_eq_some_iff.1 hchoice).1

theorem kind_of_member {g : Graph} {ids : List Nat} {role : Nat → Role} {position id : Nat}
    {element : Member} (hid : ids[position]? = some id) (hlt : id < g.vertices.length)
    (h : (ids.map (member g role))[position]? = some element) :
    ∃ v, g.vertex? id = some v ∧ v.kind = element.kind := by
  rw [List.getElem?_map, hid] at h
  cases h
  obtain ⟨v, hv⟩ := Graph.exists_vertex?_of_lt hlt
  exact ⟨v, hv, by simp [member, hv]⟩

end Unanchored

/-! ## Assignments -/

namespace Matching

open Assignment Unanchored

theorem mem_ofAssignment {assignment : List Choice} :
    (source, target) ∈ (ofAssignment old new assignment).pairs ↔
      (source, target) ∈ (anchors old new).pairs ∨
        (source, target) ∈ Unanchored.pairs old new assignment :=
  List.mem_append

theorem ofAssignment_isOneToOne {assignment : List Choice}
    (h : (problem old new).IsAssignment assignment) :
    (ofAssignment old new assignment).IsOneToOne := by
  apply isOneToOne_of_sources
  · unfold ofAssignment extendedBy
    rw [List.map_append, List.nodup_append]
    refine ⟨(anchors_isOneToOne old new).sources,
      nodup_sources_pairs old new (Nat.le_of_eq (length_assignment h).symm), ?_⟩
    intro source hsource source' hsource' heq
    obtain ⟨⟨_, target⟩, hanchor, rfl⟩ := List.mem_map.1 hsource
    obtain ⟨⟨_, target'⟩, hpair, rfl⟩ := List.mem_map.1 hsource'
    cases heq
    exact not_mem_anchors_of_mem_oldSearched (mem_searched_of_mem_pairs hpair).1 hanchor
  · intro source source' target hmem hmem'
    rcases mem_ofAssignment.1 hmem with hanchor | hpair
    · rcases mem_ofAssignment.1 hmem' with hanchor' | hpair'
      · exact (anchors_isOneToOne old new).eq_source hanchor hanchor'
      · exact absurd hanchor
          (not_mem_anchors_of_mem_newSearched (mem_searched_of_mem_pairs hpair').2)
    · rcases mem_ofAssignment.1 hmem' with hanchor' | hpair'
      · exact absurd hanchor'
          (not_mem_anchors_of_mem_newSearched (mem_searched_of_mem_pairs hpair).2)
      · -- a new vertex is searched at one position, and the assignment uses it once
        obtain ⟨i, j, hsource, hchoice, htarget⟩ := mem_pairs.1 hpair
        obtain ⟨i', j', hsource', hchoice', htarget'⟩ := mem_pairs.1 hpair'
        rw [← index_eq_of_nodup (nodup_searched ..) htarget htarget'] at hchoice'
        rw [h.injective hchoice hchoice'] at hsource
        exact Option.some.inj (hsource.symm.trans hsource')

theorem ofAssignment_isCorrespondence {assignment : List Choice}
    (h : (problem old new).IsAssignment assignment) :
    (ofAssignment old new assignment).IsCorrespondence old new where
  isOneToOne := ofAssignment_isOneToOne h
  kinds := by
    intro source target hmem
    rcases mem_ofAssignment.1 hmem with hanchor | hpair
    · exact (anchors_isCorrespondence old new).kinds hanchor
    · have hsearched := mem_searched_of_mem_pairs hpair
      obtain ⟨position, candidate, hsource, hchoice, htarget⟩ := mem_pairs.1 hpair
      obtain ⟨a, b, ha, hb, hkind⟩ := h.kinds hchoice
      obtain ⟨v, hv, hvkind⟩ := kind_of_member hsource (lt_of_mem_searched hsearched.1).1 ha
      obtain ⟨w, hw, hwkind⟩ := kind_of_member htarget (lt_of_mem_searched hsearched.2).1 hb
      exact ⟨v, w, hv, hw, by rw [hvkind, hwkind, hkind]⟩
  places hv hw hplace := mem_ofAssignment.2 (Or.inl (mem_anchors.2 ⟨_, _, hv, hw, hplace⟩))

end Matching

end SchemaDelta

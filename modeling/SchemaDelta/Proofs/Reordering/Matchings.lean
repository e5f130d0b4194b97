import SchemaDelta.Proofs.Edit.Ordered
import SchemaDelta.Proofs.Reordering.Graphs

/-!
Matchings between graphs with other numbers. The anchors are the same vertices, and what they leave
over is searched in the same order, since that goes by kind, name and path.
-/

namespace SchemaDelta

variable {old new old' new' : Graph} {ρ : old.Renaming old'} {τ : new.Renaming new'}
  {m m' : Matching}

/-- Whether a matching has the pairs of another one, under new numbers. -/
def Matching.IsRenamed (ρ : old.Renaming old') (τ : new.Renaming new') (m m' : Matching) : Prop :=
  ∀ source target, (source, target) ∈ m'.pairs ↔
    ∃ pair ∈ m.pairs, ρ.vertexId pair.1 = source ∧ τ.vertexId pair.2 = target

namespace Matching

namespace IsRenamed

theorem image?_vertexId (h : IsRenamed ρ τ m m') (hm : m.IsOneToOne) (hm' : m'.IsOneToOne)
    (id : Nat) : m'.image? (ρ.vertexId id) = (m.image? id).map τ.vertexId := by
  ext target
  rw [Option.map_eq_some_iff, hm'.image?_eq_some_iff, h]
  simp only [hm.image?_eq_some_iff]
  constructor
  · rintro ⟨⟨source, target⟩, hmem, hsource, rfl⟩
    cases ρ.vertexId_injective hsource
    exact ⟨target, hmem, rfl⟩
  · rintro ⟨target, hmem, rfl⟩
    exact ⟨_, hmem, rfl, rfl⟩

theorem preimage?_vertexId (h : IsRenamed ρ τ m m') (hm : m.IsOneToOne) (hm' : m'.IsOneToOne)
    (id : Nat) : m'.preimage? (τ.vertexId id) = (m.preimage? id).map ρ.vertexId := by
  ext source
  rw [Option.map_eq_some_iff, hm'.preimage?_eq_some_iff, h]
  simp only [hm.preimage?_eq_some_iff]
  constructor
  · rintro ⟨⟨source, target⟩, hmem, rfl, htarget⟩
    cases τ.vertexId_injective htarget
    exact ⟨source, hmem, rfl⟩
  · rintro ⟨source, hmem, rfl⟩
    exact ⟨_, hmem, rfl, rfl⟩

end IsRenamed

/-! ## Anchors -/

theorem anchors_isRenamed (ρ : old.Renaming old') (τ : new.Renaming new') :
    IsRenamed ρ τ (anchors old new) (anchors old' new') := by
  intro source target
  rw [mem_anchors]
  constructor
  · rintro ⟨v, w, hv, hw, hplace⟩
    obtain ⟨id, rfl⟩ := ρ.exists_vertexId (List.getElem?_eq_some_iff.1 hv).1
    obtain ⟨id', rfl⟩ := τ.exists_vertexId (List.getElem?_eq_some_iff.1 hw).1
    rw [ρ.vertex?_vertexId] at hv
    rw [τ.vertex?_vertexId] at hw
    exact ⟨(id, id'), mem_anchors.2 ⟨v, w, hv, hw, hplace⟩, rfl, rfl⟩
  · rintro ⟨⟨id, id'⟩, hmem, rfl, rfl⟩
    obtain ⟨v, w, hv, hw, hplace⟩ := mem_anchors.1 hmem
    exact ⟨v, w, by rwa [ρ.vertex?_vertexId], by rwa [τ.vertex?_vertexId], hplace⟩

theorem anchors_image? (ρ : old.Renaming old') (τ : new.Renaming new') (id : Nat) :
    (anchors old' new').image? (ρ.vertexId id) = ((anchors old new).image? id).map τ.vertexId :=
  (anchors_isRenamed ρ τ).image?_vertexId (anchors_isOneToOne old new)
    (anchors_isOneToOne old' new') id

theorem anchors_preimage? (ρ : old.Renaming old') (τ : new.Renaming new') (id : Nat) :
    (anchors old' new').preimage? (τ.vertexId id) =
      ((anchors old new).preimage? id).map ρ.vertexId :=
  (anchors_isRenamed ρ τ).preimage?_vertexId (anchors_isOneToOne old new)
    (anchors_isOneToOne old' new') id

end Matching

/-! ## Searched vertices -/

namespace Unanchored

open Assignment

theorem compareVertices_vertexId {g h : Graph} (ρ : g.Renaming h) (a b : Nat) :
    compareVertices h (ρ.vertexId a) (ρ.vertexId b) = compareVertices g a b := by
  simp only [compareVertices, compareLex, compareOn, ρ.vertex?_vertexId]

variable {isAnchored isAnchoredThere isAnchored' isAnchoredThere' : Nat → Bool}

theorem searched_eq_map (ρ : old.Renaming old') (τ : new.Renaming new')
    (hanchored : ∀ id, isAnchored' (ρ.vertexId id) = isAnchored id)
    (hthere : ∀ id, isAnchoredThere' (τ.vertexId id) = isAnchoredThere id) :
    searched old' new' isAnchored' isAnchoredThere' =
      (searched old new isAnchored isAnchoredThere).map ρ.vertexId := by
  refine List.Perm.eq_of_pairwise ?_ (sortBy_pairwise (compareVertices old') _) ?_ ?_
  · -- the order is by kind, name and path, which tell all vertices apart
    intro a b ha hb hab hba
    refine eq_of_compareVertices (lt_of_mem_searched ha).1 ?_ (Std.OrientedCmp.isLE_antisymm hab hba)
    obtain ⟨id, hid, rfl⟩ := List.mem_map.1 hb
    exact ρ.vertices.position_lt_iff.2 (lt_of_mem_searched hid).1
  · rw [List.pairwise_map]
    simp only [compareVertices_vertexId]
    exact sortBy_pairwise _ _
  · refine (List.perm_ext_iff_of_nodup (nodup_searched ..)
      ((nodup_searched ..).map ρ.vertexId_injective)).2 fun id => ?_
    rw [mem_searched_iff, List.mem_map]
    simp only [mem_searched_iff]
    constructor
    · rintro ⟨hid, v, hv, there, w, hw, hfree, hkind⟩
      obtain ⟨id, rfl⟩ := ρ.exists_vertexId (List.getElem?_eq_some_iff.1 hv).1
      obtain ⟨there, rfl⟩ := τ.exists_vertexId (List.getElem?_eq_some_iff.1 hw).1
      rw [hanchored] at hid
      rw [hthere] at hfree
      rw [ρ.vertex?_vertexId] at hv
      rw [τ.vertex?_vertexId] at hw
      exact ⟨id, ⟨hid, v, hv, there, w, hw, hfree, hkind⟩, rfl⟩
    · rintro ⟨id, ⟨hid, v, hv, there, w, hw, hfree, hkind⟩, rfl⟩
      exact ⟨by rwa [hanchored], v, by rwa [ρ.vertex?_vertexId], τ.vertexId there, w,
        by rwa [τ.vertex?_vertexId], by rwa [hthere], hkind⟩

theorem oldSearched_eq_map (ρ : old.Renaming old') (τ : new.Renaming new') :
    oldSearched old' new' = (oldSearched old new).map ρ.vertexId :=
  searched_eq_map ρ τ (fun id => by rw [Matching.anchors_image? ρ τ, Option.isSome_map])
    fun id => by rw [Matching.anchors_preimage? ρ τ, Option.isSome_map]

theorem newSearched_eq_map (ρ : old.Renaming old') (τ : new.Renaming new') :
    newSearched old' new' = (newSearched old new).map τ.vertexId :=
  searched_eq_map τ ρ (fun id => by rw [Matching.anchors_preimage? ρ τ, Option.isSome_map])
    fun id => by rw [Matching.anchors_image? ρ τ, Option.isSome_map]

end Unanchored

/-! ## Assignments -/

theorem Matching.ofAssignment_isRenamed (ρ : old.Renaming old') (τ : new.Renaming new')
    (assignment : List Assignment.Choice) :
    IsRenamed ρ τ (ofAssignment old new assignment) (ofAssignment old' new' assignment) := by
  intro source target
  simp only [mem_ofAssignment, or_and_right, exists_or, Prod.exists]
  refine or_congr ?_ ?_
  · have := anchors_isRenamed ρ τ source target
    simpa using this
  · simp only [Unanchored.mem_pairs, Unanchored.oldSearched_eq_map ρ τ,
      Unanchored.newSearched_eq_map ρ τ, List.getElem?_map, Option.map_eq_some_iff]
    constructor
    · rintro ⟨position, candidate, ⟨id, hid, rfl⟩, hchoice, id', hid', rfl⟩
      exact ⟨id, id', ⟨position, candidate, hid, hchoice, hid'⟩, rfl, rfl⟩
    · rintro ⟨id, id', ⟨position, candidate, hid, hchoice, hid'⟩, rfl, rfl⟩
      exact ⟨position, candidate, ⟨id, hid, rfl⟩, hchoice, id', hid', rfl⟩

end SchemaDelta

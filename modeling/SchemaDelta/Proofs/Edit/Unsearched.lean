import SchemaDelta.Proofs.Edit.Transformation

/-!
Scripts for which nothing is searched. If one graph has all its vertices at places of the other, the
anchors are all that can be matched, and no budget is too small for that.
-/

namespace SchemaDelta

open Assignment

variable {old new : Graph}

theorem Unanchored.oldSearched_eq_nil
    (h : (∀ v ∈ old.vertices, v.place ∈ new.places) ∨ ∀ w ∈ new.vertices, w.place ∈ old.places) :
    oldSearched old new = [] := by
  refine List.eq_nil_iff_forall_not_mem.2 fun source hmem => ?_
  obtain ⟨hfree, v, hv, target, w, hw, hfree', -⟩ := mem_searched_iff.1 hmem
  -- a vertex at a place of the other graph is anchored
  rcases h with h | h
  · obtain ⟨u, hu, hplace⟩ := List.mem_map.1 (h v (List.mem_of_getElem? hv))
    obtain ⟨id, hid⟩ := List.mem_iff_getElem?.1 hu
    have hpair := Matching.mem_anchors.2 ⟨v, u, hv, hid, hplace.symm⟩
    rw [(Matching.anchors_isOneToOne old new).image?_eq_some_iff.2 hpair] at hfree
    cases hfree
  · obtain ⟨u, hu, hplace⟩ := List.mem_map.1 (h w (List.mem_of_getElem? hw))
    obtain ⟨id, hid⟩ := List.mem_iff_getElem?.1 hu
    have hpair := Matching.mem_anchors.2 ⟨u, w, hid, hw, hplace⟩
    rw [(Matching.anchors_isOneToOne old new).preimage?_eq_some_iff.2 hpair] at hfree'
    cases hfree'

theorem Matching.ofAssignment_nil (old new : Graph) :
    Matching.ofAssignment old new [] = Matching.anchors old new := by
  simp [ofAssignment, extendedBy, Unanchored.pairs]

/-- Where nothing is searched, all schedules come to the script of the anchors, and none of them is
refused a branch. -/
theorem Script.CanBe.eq_of_oldSearched_eq_nil {config : Config} {clock : Clock} {exhausted : Bool}
    {script : Script} (h : Script.CanBe old new config clock exhausted script)
    (hnone : Unanchored.oldSearched old new = []) :
    script = ⟨(Matching.anchors old new).operations old new, false⟩ := by
  have hempty : (Unanchored.problem old new).olds = [] := List.map_eq_nil_iff.2 hnone
  obtain ⟨found, houtcome, rfl⟩ := h
  cases houtcome with
  | trivial => rw [ofFound, Matching.ofAssignment_nil]
  | searched pool hne => exact absurd hempty hne

end SchemaDelta

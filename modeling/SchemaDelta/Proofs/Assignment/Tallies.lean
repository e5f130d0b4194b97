import SchemaDelta.Assignment.Tally
import SchemaDelta.Proofs.Assignment.Labels
import SchemaDelta.Proofs.Ordering

/-!
A tally counts what two lists of labels have in common. A label that is passed alone is smaller than
all that is left on the other side, so what is counted and what the rest has in common is together
the same after every step; at the end of a list the rest has nothing in common.
-/

namespace SchemaDelta.Assignment.Tally

variable {old new : List String} {tally next : Tally}

/-! ## One step -/

/-- What is counted, and what is still to be counted. -/
def commonCount (old new : List String) (tally : Tally) : Nat :=
  tally.common +
    ((old.drop tally.olds : Multiset String) ∩ (new.drop tally.news : Multiset String)).card

/-- The labels that are left, from the one that is next. -/
theorem drop_eq_cons {labels : List String} {passed : Nat} {label : String}
    (h : labels[passed]? = some label) :
    labels.drop passed = label :: labels.drop (passed + 1) := by
  obtain ⟨hlt, rfl⟩ := List.getElem?_eq_some_iff.1 h
  exact List.drop_eq_getElem_cons hlt

theorem commonCount_step (hold : old.Pairwise fun a b => (compare a b).isLE)
    (hnew : new.Pairwise fun a b => (compare a b).isLE) (h : tally.step? old new = some next) :
    next.commonCount old new = tally.commonCount old new := by
  obtain ⟨label, other, holdNext, hnewNext, hnext⟩ := step?_eq_some h
  have holdLeft := drop_eq_cons holdNext
  have hnewLeft := drop_eq_cons hnewNext
  have holdSorted := hold.sublist (List.drop_sublist tally.olds old)
  have hnewSorted := hnew.sublist (List.drop_sublist tally.news new)
  rw [holdLeft] at holdSorted
  rw [hnewLeft] at hnewSorted
  unfold commonCount
  rcases hnext with ⟨hcompare, rfl⟩ | ⟨hcompare, rfl⟩ | ⟨hcompare, rfl⟩
  · -- the smaller label is not left on the other side, and is passed without being counted
    have hnot : label ∉ new.drop tally.news := by
      rw [hnewLeft]
      exact not_mem_of_compare_first hnewSorted hcompare
    rw [holdLeft, ← Multiset.cons_coe, Multiset.cons_inter_of_neg _ (mt Multiset.mem_coe.1 hnot)]
  · have hnot : other ∉ old.drop tally.olds := by
      rw [holdLeft]
      exact not_mem_of_compare_first holdSorted (Std.OrientedCmp.gt_iff_lt.1 hcompare)
    rw [hnewLeft, ← Multiset.cons_coe, Multiset.inter_comm _ (other ::ₘ _),
      Multiset.cons_inter_of_neg _ (mt Multiset.mem_coe.1 hnot), Multiset.inter_comm]
  · obtain rfl := Std.LawfulEqOrd.eq_of_compare hcompare
    rw [holdLeft, hnewLeft, ← Multiset.cons_coe, ← Multiset.cons_coe,
      ← Multiset.cons_inter_distrib, Multiset.card_cons]
    dsimp only
    omega

/-! ## All steps -/

/-- Where a list has come to its end, there is nothing left to count. -/
theorem commonCount_of_step?_eq_none (h : tally.step? old new = none) :
    tally.commonCount old new = tally.common := by
  have hend {labels : List String} {passed : Nat} (hnone : labels[passed]? = none) :
      labels.drop passed = [] :=
    List.drop_eq_nil_iff.2 (List.getElem?_eq_none_iff.1 hnone)
  unfold commonCount
  cases hold : old[tally.olds]? with
  | none => simp [hend hold]
  | some label =>
    cases hnew : new[tally.news]? with
    | none => simp [hend hnew]
    | some other =>
      unfold step? at h
      rw [hold, hnew] at h
      cases hcompare : compare label other <;> simp [hcompare] at h

theorem common_finished (hold : old.Pairwise fun a b => (compare a b).isLE)
    (hnew : new.Pairwise fun a b => (compare a b).isLE) (tally : Tally) :
    (tally.finished old new).common = tally.commonCount old new := by
  induction tally using finished.induct old new with
  | case1 tally h =>
    rw [finished, h]
    exact (commonCount_of_step?_eq_none h).symm
  | case2 tally next h ih =>
    rw [finished, h]
    exact ih.trans (commonCount_step hold hnew h)

/-- In the end, what both lists have in common is counted. -/
theorem common_finished_start (old new : List String) :
    (finished (sortBy compare old) (sortBy compare new) start).common =
      ((old : Multiset String) ∩ (new : Multiset String)).card := by
  rw [common_finished (sortBy_pairwise compare old) (sortBy_pairwise compare new),
    ← Multiset.coe_eq_coe.2 (sortBy_perm compare old),
    ← Multiset.coe_eq_coe.2 (sortBy_perm compare new)]
  simp [commonCount, start]

theorem cost_eq_labelCost (old new : List String) : cost old new = labelCost old new := by
  rw [cost, labelCost, common_finished_start, length_commonLabels]

end SchemaDelta.Assignment.Tally

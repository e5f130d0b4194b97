import Mathlib.Data.Multiset.UnionInter
import SchemaDelta.Assignment.Cost

/-!
What it costs to turn labels into others does not depend on the order of the labels.
-/

namespace SchemaDelta.Assignment

theorem length_commonLabels (old new : List String) :
    (commonLabels old new).length = ((old : Multiset String) ∩ (new : Multiset String)).card := by
  induction old generalizing new with
  | nil => simp [commonLabels]
  | cons label labels ih =>
    unfold commonLabels
    rw [← Multiset.cons_coe]
    by_cases h : label ∈ new
    · rw [if_pos h, List.length_cons, ih, Multiset.cons_inter_of_pos _ (Multiset.mem_coe.2 h),
        Multiset.card_cons, Multiset.coe_erase]
    · rw [if_neg h, ih, Multiset.cons_inter_of_neg _ (by simpa using h)]

theorem labelCost_perm {old old' new new' : List String} (hold : old.Perm old')
    (hnew : new.Perm new') : labelCost old new = labelCost old' new' := by
  unfold labelCost
  rw [length_commonLabels, length_commonLabels, hold.length_eq, hnew.length_eq,
    Multiset.coe_eq_coe.2 hold, Multiset.coe_eq_coe.2 hnew]

theorem commonLabels_self (labels : List String) : commonLabels labels labels = labels := by
  induction labels with
  | nil => rfl
  | cons label labels ih => rw [commonLabels, if_pos List.mem_cons_self, List.erase_cons_head, ih]

theorem labelCost_self (labels : List String) : labelCost labels labels = 0 := by
  rw [labelCost, commonLabels_self, Nat.max_self, Nat.sub_self]

example : labelCost ["type=Int", "field"] ["field", "type=Int!"] = 1 := by decide

end SchemaDelta.Assignment

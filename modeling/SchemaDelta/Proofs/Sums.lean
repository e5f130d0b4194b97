import Mathlib.Algebra.BigOperators.Group.Finset.Piecewise
import Mathlib.Algebra.GroupWithZero.Nat
import Mathlib.Algebra.Order.BigOperators.Group.Finset
import SchemaDelta.Total

/-!
Sums over lists as sums over finite sets, in which terms can be regrouped.
-/

namespace SchemaDelta

variable {α : Type}

theorem total_eq_sum (ns : List Nat) : total ns = ns.sum := rfl

theorem nodup_eraseDups [BEq α] [LawfulBEq α] (as : List α) : as.eraseDups.Nodup := by
  match as with
  | [] => simp
  | a :: as =>
    have hshorter : (as.filter fun b => !b == a).length < (a :: as).length :=
      Nat.lt_succ_of_le (List.length_filter_le _ as)
    rw [List.eraseDups_cons, List.nodup_cons]
    exact ⟨by simp [List.mem_eraseDups], nodup_eraseDups _⟩
  termination_by as.length
  decreasing_by exact hshorter

/-- Each element of a list counted once, whatever its repeats. -/
theorem sum_map_eraseDups [BEq α] [LawfulBEq α] [DecidableEq α] (f : α → Nat) (as : List α) :
    (as.eraseDups.map f).sum = ∑ a ∈ as.toFinset, f a := by
  rw [← List.sum_toFinset f (nodup_eraseDups as)]
  congr 1
  ext a
  simp [List.mem_eraseDups]

theorem countP_le_add {p q r : α → Bool} {as : List α}
    (h : ∀ a ∈ as, p a = true → q a = true ∨ r a = true) :
    as.countP p ≤ as.countP q + as.countP r := by
  induction as with
  | nil => simp
  | cons a as ih =>
    have htail := ih fun b hb => h b (List.mem_cons_of_mem a hb)
    have hhead := h a List.mem_cons_self
    simp only [List.countP_cons]
    by_cases hp : p a = true
    · rcases hhead hp with hq | hr
      · simp only [hp, hq, if_true]
        omega
      · simp only [hp, hr, if_true]
        omega
    · simp only [hp, Bool.false_eq_true, if_false]
      omega

/-- What is sent into a set, counted by what it is sent to. -/
theorem countP_mem_eq_sum {β : Type} [DecidableEq β] (f : α → β) (s : Finset β) (as : List α) :
    as.countP (fun a => decide (f a ∈ s)) = ∑ b ∈ s, as.countP fun a => decide (f a = b) := by
  induction as with
  | nil => simp
  | cons a as ih =>
    simp only [List.countP_cons, ih, Finset.sum_add_distrib, decide_eq_true_eq]
    rw [Finset.sum_ite_eq]

end SchemaDelta

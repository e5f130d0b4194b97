import Mathlib.Data.List.Sort
import SchemaDelta.Ordering

/-!
Lists put in order. `sortBy` is an insertion sort (`sortBy_eq_insertionSort`): its result is a
rearrangement in which nothing comes after a larger element, and where only equal elements compare as
equal it is the same for every rearrangement.
-/

namespace SchemaDelta

variable {α β : Type}

theorem sortBy_eq_insertionSort (cmp : α → α → Ordering) (as : List α) :
    sortBy cmp as = as.insertionSort fun a b => (cmp a b).isLE = true := by
  have hinsert (a : α) (bs : List α) :
      insertBy cmp a bs = bs.orderedInsert (fun a b => (cmp a b).isLE = true) a := by
    induction bs with
    | nil => rfl
    | cons b bs ih => rw [insertBy, List.orderedInsert_cons, ih]
  induction as with
  | nil => rfl
  | cons a as ih =>
    rw [List.insertionSort_cons, ← ih, ← hinsert]
    rfl

theorem sortBy_perm (cmp : α → α → Ordering) (as : List α) : (sortBy cmp as).Perm as := by
  rw [sortBy_eq_insertionSort]
  exact List.perm_insertionSort _ as

theorem sortBy_pairwise (cmp : α → α → Ordering) [Std.TransCmp cmp] (as : List α) :
    (sortBy cmp as).Pairwise fun x y => (cmp x y).isLE := by
  have htotal : Std.Total fun a b => (cmp a b).isLE = true := by
    refine ⟨fun a b => ?_⟩
    have hswap : cmp a b = (cmp b a).swap := Std.OrientedCmp.eq_swap
    rw [hswap]
    cases cmp b a <;> simp
  have htrans : IsTrans α fun a b => (cmp a b).isLE = true := ⟨fun _ _ _ => Std.TransCmp.isLE_trans⟩
  rw [sortBy_eq_insertionSort]
  exact List.pairwise_insertionSort _ as

/-- A rearrangement is sorted into the same list if only equal elements compare as equal. -/
theorem sortBy_eq_of_perm {cmp : α → α → Ordering} [Std.TransCmp cmp] {as bs : List α}
    (hperm : as.Perm bs) (heq : ∀ a ∈ as, ∀ b ∈ as, cmp a b = .eq → a = b) :
    sortBy cmp as = sortBy cmp bs := by
  refine List.Perm.eq_of_pairwise ?_ (sortBy_pairwise cmp as) (sortBy_pairwise cmp bs)
    ((sortBy_perm cmp as).trans (hperm.trans (sortBy_perm cmp bs).symm))
  -- two sorted rearrangements can differ only in elements that compare as equal
  intro a b ha hb hab hba
  refine heq a ((sortBy_perm cmp as).mem_iff.1 ha) b
    (hperm.mem_iff.2 ((sortBy_perm cmp bs).mem_iff.1 hb)) ?_
  exact Std.OrientedCmp.isLE_antisymm hab hba

/-- What is smaller than the first element of a sorted list is not in the list. -/
theorem not_mem_of_compare_first {cmp : α → α → Ordering} [Std.TransCmp cmp] {a b : α} {bs : List α}
    (hsorted : (b :: bs).Pairwise fun x y => (cmp x y).isLE) (h : cmp a b = .lt) : a ∉ b :: bs := by
  intro ha
  rcases List.mem_cons.1 ha with rfl | ha
  · exact absurd (Std.ReflCmp.compare_self.symm.trans h) Ordering.noConfusion
  · exact Std.OrientedCmp.not_lt_of_isLE ((List.pairwise_cons.1 hsorted).1 a ha) h

/-- To rename elements and to sort them can be done in either order if the names compare alike. -/
theorem sortBy_map {cmp : α → α → Ordering} {cmp' : β → β → Ordering} {f : α → β} {as : List α}
    (h : ∀ a ∈ as, ∀ b ∈ as, cmp' (f a) (f b) = cmp a b) :
    sortBy cmp' (as.map f) = (sortBy cmp as).map f := by
  rw [sortBy_eq_insertionSort, sortBy_eq_insertionSort]
  exact (List.map_insertionSort _ _ f as fun a ha b hb => by rw [h a ha b hb]).symm

end SchemaDelta

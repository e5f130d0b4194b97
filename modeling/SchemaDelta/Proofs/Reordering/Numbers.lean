import Mathlib.Data.List.Nodup
import Mathlib.Data.List.Perm.Subperm

/-!
The numbers of the elements of a list in a rearrangement of it.
-/

namespace SchemaDelta

variable {α : Type}

/-- Where the elements of a list stand in a rearrangement of it. Positions beyond the list count
too, and equal elements stay in their order. -/
structure Renumbering (as bs : List α) where
  position : Nat → Nat
  injective : position.Injective
  getElem? (i : Nat) : bs[position i]? = as[i]?
  length_eq : bs.length = as.length
  lt_of_lt {i j : Nat} (heq : as[i]? = as[j]?) (hlt : i < j) : position i < position j

namespace Renumbering

/-- The positions after an element that stands at `at` in the rearrangement. -/
def shifted (position : Nat → Nat) (start : Nat) : Nat → Nat
  | 0 => start
  | i + 1 => if position i < start then position i else position i + 1

theorem shifted_injective {position : Nat → Nat} (h : position.Injective) (start : Nat) :
    (shifted position start).Injective := by
  intro i j hij
  cases i <;> cases j <;> simp only [shifted] at hij
  case succ.succ i j =>
    have hij : position i = position j := by split at hij <;> split at hij <;> omega
    rw [h hij]
  all_goals first | rfl | (split at hij <;> omega)

/-- The renumbering of a list with one more element in front, which stands between two parts of the
rearrangement and not in the first. -/
def cons {a : α} {as before rest : List α} (ρ : Renumbering as (before ++ rest))
    (hnew : a ∉ before) : Renumbering (a :: as) (before ++ a :: rest) where
  position := shifted ρ.position before.length
  injective := shifted_injective ρ.injective _
  length_eq := by
    have := ρ.length_eq
    simp only [List.length_append, List.length_cons] at this ⊢
    omega
  getElem? i := by
    cases i with
    | zero => simp [shifted]
    | succ i =>
      have := ρ.getElem? i
      simp only [shifted, List.getElem?_cons_succ]
      split
      · rw [List.getElem?_append_left ‹_›] at this ⊢
        exact this
      · rw [List.getElem?_append_right (by omega)] at this ⊢
        rw [show ρ.position i + 1 - before.length = ρ.position i - before.length + 1 by omega,
          List.getElem?_cons_succ]
        exact this
  lt_of_lt := by
    intro i j heq hlt
    cases j with
    | zero => omega
    | succ j =>
      cases i with
      | zero =>
        have hfound : (before ++ rest)[ρ.position j]? = some a := by
          rw [ρ.getElem? j]
          simpa using heq.symm
        -- the element is not in the first part
        have hle : before.length ≤ ρ.position j := by
          by_contra hcon
          rw [List.getElem?_append_left (by omega)] at hfound
          exact hnew (List.mem_of_getElem? hfound)
        simp only [shifted]
        split <;> omega
      | succ i =>
        have := ρ.lt_of_lt (by simpa using heq) (Nat.lt_of_succ_lt_succ hlt)
        simp only [shifted]
        split <;> split <;> omega

/-- Every rearrangement has a renumbering. -/
theorem exists_of_perm {as bs : List α} (h : as.Perm bs) : Nonempty (Renumbering as bs) := by
  induction as generalizing bs with
  | nil =>
    obtain rfl := h.nil_eq
    exact ⟨⟨id, Function.injective_id, fun _ => rfl, rfl, fun _ hlt => hlt⟩⟩
  | cons a as ih =>
    -- the first of several equal elements goes where the first of them is now
    obtain ⟨before, rest, rfl, hnew⟩ := List.eq_append_cons_of_mem (h.subset List.mem_cons_self)
    obtain ⟨ρ⟩ := ih (h.trans List.perm_middle).cons_inv
    exact ⟨ρ.cons hnew⟩

variable {as bs : List α} (ρ : Renumbering as bs)

theorem position_lt_iff {i : Nat} : ρ.position i < bs.length ↔ i < as.length := by
  have h : bs[ρ.position i]?.isSome ↔ as[i]?.isSome := by rw [ρ.getElem?]
  simpa using h

/-- Positions of equal elements compare as before. -/
theorem compare_position {i j : Nat} (h : as[i]? = as[j]?) :
    compare (ρ.position i) (ρ.position j) = compare i j := by
  rcases Nat.lt_trichotomy i j with hlt | rfl | hlt
  · rw [Nat.compare_eq_lt.2 hlt, Nat.compare_eq_lt.2 (ρ.lt_of_lt h hlt)]
  · simp
  · rw [Nat.compare_eq_gt.2 hlt, Nat.compare_eq_gt.2 (ρ.lt_of_lt h.symm hlt)]

theorem nodup_positions : ((List.range as.length).map ρ.position).Nodup :=
  List.nodup_range.map ρ.injective

/-- The positions themselves. -/
theorem range_perm : ((List.range as.length).map ρ.position).Perm (List.range bs.length) := by
  -- as many different positions as there are
  refine (List.subperm_of_subset ρ.nodup_positions fun i hi => ?_).perm_of_length_le
    (by simp [ρ.length_eq])
  obtain ⟨j, hj, rfl⟩ := List.mem_map.1 hi
  exact List.mem_range.2 (ρ.position_lt_iff.2 (List.mem_range.1 hj))

/-- Every position in the rearrangement is that of an element. -/
theorem exists_position {j : Nat} (hj : j < bs.length) : ∃ i, ρ.position i = j := by
  obtain ⟨i, -, hi⟩ := List.mem_map.1 (ρ.range_perm.mem_iff.2 (List.mem_range.2 hj))
  exact ⟨i, hi⟩

/-- What only one element fulfils is found where that element stands now. -/
theorem findIdx?_eq {p : α → Bool}
    (hunique : ∀ {i j : Nat} {a b : α}, as[i]? = some a → as[j]? = some b → p a = true →
      p b = true → i = j) :
    bs.findIdx? p = (as.findIdx? p).map ρ.position := by
  cases hfind : bs.findIdx? p with
  | none =>
    have hnone : as.findIdx? p = none := by
      rw [List.findIdx?_eq_none_iff] at hfind ⊢
      intro a ha
      obtain ⟨i, hi⟩ := List.mem_iff_getElem?.1 ha
      rw [← ρ.getElem?] at hi
      exact hfind a (List.mem_of_getElem? hi)
    rw [hnone]
    rfl
  | some j =>
    obtain ⟨hj, hp, -⟩ := List.findIdx?_eq_some_iff_getElem.1 hfind
    obtain ⟨i, rfl⟩ := ρ.exists_position hj
    have hi : as[i]? = some bs[ρ.position i] := by
      rw [← ρ.getElem?, List.getElem?_eq_getElem hj]
    -- something was found before, and it is the same
    cases hfound : as.findIdx? p with
    | none =>
      rw [List.findIdx?_eq_none_iff.1 hfound _ (List.mem_of_getElem? hi)] at hp
      cases hp
    | some k =>
      obtain ⟨hk, hpk, -⟩ := List.findIdx?_eq_some_iff_getElem.1 hfound
      rw [Option.map_some, hunique hi (List.getElem?_eq_getElem hk) hp hpk]

/-- The numbered elements, under their new numbers. -/
theorem zipIdx_perm : (as.zipIdx.map fun entry => (entry.1, ρ.position entry.2)).Perm bs.zipIdx := by
  have hnodup : (as.zipIdx.map fun entry => (entry.1, ρ.position entry.2)).Nodup := by
    refine List.Nodup.of_map (·.2) ?_
    have hpositions := ρ.nodup_positions
    rw [List.range_eq_range', ← List.zipIdx_map_snd 0 as, List.map_map] at hpositions
    rw [List.map_map]
    exact hpositions
  refine (List.subperm_of_subset hnodup fun entry hentry => ?_).perm_of_length_le
    (by simp [ρ.length_eq])
  obtain ⟨⟨a, i⟩, hmem, rfl⟩ := List.mem_map.1 hentry
  rw [List.mk_mem_zipIdx_iff_getElem?] at hmem ⊢
  rw [ρ.getElem?, hmem]

include ρ in
theorem perm : as.Perm bs := by
  have hperm := ρ.zipIdx_perm.map (·.1)
  rw [List.map_map] at hperm
  rw [← List.zipIdx_map_fst 0 as, ← List.zipIdx_map_fst 0 bs]
  exact hperm

end Renumbering

end SchemaDelta

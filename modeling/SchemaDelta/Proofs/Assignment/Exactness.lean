import SchemaDelta.Edit.Unanchored
import SchemaDelta.Config
import SchemaDelta.Proofs.Assignment.Parts
import SchemaDelta.Proofs.Assignment.Walks

/-!
The whole search comes to the best assignment or, when it would take more branches than allowed, to
nothing. It needs a fixed number of branches, which does not depend on what is allowed.
-/

namespace SchemaDelta.Assignment

open Plan

variable {p : Problem} {workers : Nat} {allows : Nat → Bool} {best : List Choice}

namespace Problem

/-- Nothing but the best assignment ever comes of the search. -/
theorem eq_of_best?_eq_some {found : List Choice} (hbest : p.IsBest best)
    (h : p.best? workers allows = some found) : found = best := by
  unfold best? at h
  split at h
  · next hempty =>
    have hnone : best.length = 0 := by
      rw [hbest.1.1, List.isEmpty_iff.1 hempty]
      rfl
    cases h
    exact (List.eq_nil_of_length_eq_zero hnone).symm
  · obtain ⟨result, hrun, rfl⟩ := Option.map_eq_some_iff.1 h
    have hstart : p.cost best ≤ p.start.cost := Standing.cost_le_of_le (hbest.le p.isStanding_start)
    have hgood := (known_and_good_of_run? (plan_upholds hbest) hstart hrun).2
    exact congrArg Standing.assignment hgood

theorem isBest_of_best?_eq_some {found : List Choice} (h : p.best? workers allows = some found) :
    p.IsBest found := by
  obtain ⟨best, hbest⟩ := p.exists_isBest
  rwa [eq_of_best?_eq_some hbest h]

/-- The search has a number of branches that it takes. It comes to the best assignment if these are
allowed and otherwise to nothing. -/
theorem exists_needed (p : Problem) (workers : Nat) :
    ∃ best needed, p.IsBest best ∧ ∀ allows : Nat → Bool,
      ((∀ n, 0 < n → n ≤ needed → allows n = true) → p.best? workers allows = some best) ∧
      ∀ n, 0 < n → n ≤ needed → allows n = false → p.best? workers allows = none := by
  obtain ⟨best, hbest⟩ := p.exists_isBest
  cases hempty : p.olds.isEmpty with
  | true =>
    refine ⟨best, 0, hbest, fun allows => ⟨fun _ => ?_, fun n hpos hle => by omega⟩⟩
    have hfound : p.best? workers allows = some [] := by
      rw [best?, if_pos hempty]
    rw [hfound, eq_of_best?_eq_some hbest hfound]
  | false =>
    obtain ⟨result, board, hrun⟩ := exists_run? (p.plan workers) ⟨0, p.start.cost⟩
    refine ⟨best, board.expansions, hbest, fun allows => ⟨fun hallows => ?_, ?_⟩⟩
    · have hfound : p.best? workers allows = some result.assignment := by
        rw [best?, hempty, if_neg Bool.false_ne_true, run?_of_allowed hrun hallows]
        rfl
      rw [hfound, eq_of_best?_eq_some hbest hfound]
    · intro n hpos hle hallows
      rw [best?, hempty, if_neg Bool.false_ne_true, run?_of_not_allowed hrun hpos hle hallows]
      rfl

end Problem

/-- A single worker with no limit of time comes to the one assignment that is the smallest of all
feasible ones, by cost and then by its choices, unless it needs more branches than it may take. Its
walk with a trail and a stack always ends, and ends with the same. -/
theorem a_single_worker_finds_the_best (old new : Graph) :
    let p := Unanchored.problem old new
    ∃ best needed, p.IsBest best ∧ (∀ other, p.IsBest other → other = best) ∧
      ∀ (maxExpansions : Nat) (clock : Clock),
        let allows := SearchBudget.allows ⟨maxExpansions, none⟩ clock
        let found := if needed ≤ maxExpansions then some best else none
        p.best? 1 allows = found ∧
          (∃ result, (Walk.root p).ComesTo p allows result) ∧
            ∀ result, (Walk.root p).ComesTo p allows result → p.olds ≠ [] →
              result.map (fun ended => ended.1.assignment) = found := by
  intro p
  obtain ⟨best, needed, hbest, hsearch⟩ := p.exists_needed 1
  refine ⟨best, needed, hbest, fun other hother => hother.eq hbest, fun maxExpansions clock => ?_⟩
  intro allows found
  have hallows : ∀ n, allows n = decide (n ≤ maxExpansions) :=
    SearchBudget.allows_of_timeLimit_eq_none rfl clock
  have hfound : p.best? 1 allows = found := by
    by_cases hle : needed ≤ maxExpansions
    · rw [(hsearch allows).1 fun n _ hn => by rw [hallows, decide_eq_true_eq]; omega]
      exact (if_pos hle).symm
    · have hrefused : allows needed = false := by
        rw [hallows, decide_eq_false_iff_not]
        exact hle
      rw [(hsearch allows).2 needed (by omega) (Nat.le_refl needed) hrefused]
      exact (if_neg hle).symm
  refine ⟨hfound, ⟨_, Walk.root_comesTo_iff.2 rfl⟩, fun result hcomes hsearched => ?_⟩
  rw [Walk.root_comesTo_iff.1 hcomes, ← hfound]
  unfold Problem.best?
  rw [if_neg (by simpa using hsearched)]

end SchemaDelta.Assignment

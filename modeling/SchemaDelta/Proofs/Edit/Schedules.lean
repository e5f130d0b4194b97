import SchemaDelta.Edit.Schedule
import SchemaDelta.Proofs.Assignment.Sequence

/-!
The order in which workers make their steps does not show in the script, only whether one of them is
refused a branch.
-/

namespace SchemaDelta

open Assignment

variable {p : Problem} {workers : Nat} {allows : Nat → Bool} {best : List Choice}

/-- A pool comes to the best assignment, or to nothing if a branch was refused. -/
theorem Assignment.Problem.Outcome.eq_ite {exhausted : Bool} {found : Option (List Choice)}
    (h : p.Outcome workers allows exhausted found) (hbest : p.IsBest best) :
    found = if exhausted then none else some best := by
  cases h with
  | trivial hempty =>
    have hnone : best = [] := by
      rw [← List.length_eq_zero_iff, hbest.1.1, hempty]
      rfl
    rw [hnone]
    rfl
  | searched pool _ hpool hover =>
    cases hexhausted : pool.desk.exhausted with
    | true => rw [Pool.best?, hexhausted, if_pos rfl, if_pos rfl]
    | false => exact Pool.best?_eq_some (hpool.invariant hbest) hbest hover hexhausted

theorem Assignment.Problem.Outcome.isBest {exhausted : Bool} (h : p.Outcome workers allows exhausted
    (some best)) : p.IsBest best := by
  obtain ⟨single, hsingle⟩ := p.exists_isBest
  have heq := h.eq_ite hsingle
  cases exhausted with
  | true => cases heq
  | false =>
    cases heq
    exact hsingle

/-- What is found stands for an assignment that the search allows. -/
theorem Matching.CanBeFound.exists_isFeasible {old new : Graph} {config : Config} {clock : Clock}
    {m : Matching} (h : Matching.CanBeFound old new config clock m) : ∃ assignment,
      (Unanchored.problem old new).IsFeasible assignment ∧ m = .ofAssignment old new assignment := by
  obtain ⟨exhausted, assignment, houtcome, rfl⟩ := h
  exact ⟨assignment, houtcome.isBest.1, rfl⟩

/-- What the search as it is carried out arrives at is found by one of the schedules. -/
theorem Matching.canBeFound_of_searched? {old new : Graph} {config : Config} {clock : Clock}
    {m : Matching} (h : Matching.searched? old new config clock = some m) :
    Matching.CanBeFound old new config clock m := by
  obtain ⟨assignment, hfound, rfl⟩ := Option.map_eq_some_iff.1 h
  obtain ⟨exhausted, houtcome⟩ := (Unanchored.problem old new).exists_outcome_best? config.workers
    (config.budget.allows clock)
  exact ⟨exhausted, assignment, hfound ▸ houtcome, rfl⟩

/-- The search as it is carried out is one of the schedules. -/
theorem Script.exists_canBe_between (old new : Graph) (config : Config) (clock : Clock) :
    ∃ exhausted, Script.CanBe old new config clock exhausted
      (Script.between old new config clock) := by
  obtain ⟨exhausted, houtcome⟩ := (Unanchored.problem old new).exists_outcome_best? config.workers
    (config.budget.allows clock)
  exact ⟨exhausted, _, houtcome, Script.between_eq_ofFound old new config clock⟩

/-- Whatever the number of workers and the order of their steps, they come to the script of a single
worker who may take all the branches it needs, or, if one of them is refused a branch, to that of
the anchors. The search as it is carried out is one of their schedules; no schedule goes on for
ever, and none is stuck before all workers are done. -/
theorem every_schedule_leads_to_one_of_two_scripts (old new : Graph) :
    ∃ single : Script, single.approximate = false ∧
      (∃ needed, ∀ (config : Config) (clock : Clock), config.workers = 1 →
        config.budget.timeLimit = none → needed ≤ config.budget.maxExpansions →
          Script.between old new config clock = single) ∧
      ∀ (config : Config) (clock : Clock),
        (∀ exhausted script, Script.CanBe old new config clock exhausted script →
          script = if exhausted then ⟨(Matching.anchors old new).operations old new, true⟩
            else single) ∧
        (∃ exhausted, Script.CanBe old new config clock exhausted
          (Script.between old new config clock)) ∧
        (WellFounded fun after before =>
          Pool.Step (Unanchored.problem old new) (config.budget.allows clock) before after) ∧
        ∀ pool : Pool, pool.isOver = false →
          ∃ pool', Pool.Step (Unanchored.problem old new) (config.budget.allows clock)
            pool pool' := by
  obtain ⟨best, needed, hbest, hsearch⟩ := (Unanchored.problem old new).exists_needed 1
  refine ⟨Script.ofFound old new (some best), rfl, ⟨needed, ?_⟩, fun config clock => ⟨?_, ?_, ?_, ?_⟩⟩
  · intro config clock hworkers hlimit hneeded
    rw [Script.between_eq_ofFound, hworkers, (hsearch _).1 fun n _ hn => ?_]
    rw [SearchBudget.allows_of_timeLimit_eq_none hlimit, decide_eq_true_eq]
    exact Nat.le_trans hn hneeded
  · rintro exhausted script ⟨found, houtcome, rfl⟩
    rw [houtcome.eq_ite hbest]
    cases exhausted <;> rfl
  · exact Script.exists_canBe_between old new config clock
  · exact Pool.wellFounded_step _ _
  · exact fun pool hover => Pool.exists_step hover

end SchemaDelta

import SchemaDelta.Time

/-!
What a caller decides about a comparison: which nested elements are reported, and how much work may
go into the search.
-/

namespace SchemaDelta

/-- The limits of the search. -/
structure SearchBudget where
  /-- How many branches the search may take. -/
  maxExpansions : Nat
  /-- How long the search may take. -/
  timeLimit : Option Duration
  deriving DecidableEq, Repr

namespace SearchBudget

/-- The clock is looked at once in so many branches. -/
def clockInterval : Nat := 256

/-- The limits of a search that are used unless others are asked for. -/
def standard : SearchBudget :=
  ⟨200000, none⟩

instance : Inhabited SearchBudget := ⟨standard⟩

/-- When the search has to be over, if its time is limited and the clock can tell that point. -/
def deadline? (budget : SearchBudget) (clock : Clock) : Option Instant :=
  budget.timeLimit.bind clock.start.after?

/-- Whether the time is limited, but the clock cannot tell when it is over. No search begins then. -/
def overflows (budget : SearchBudget) (clock : Clock) : Bool :=
  budget.timeLimit.isSome && (budget.deadline? clock).isNone

/-- Whether the time is over when the `n`th branch is taken, as far as the search looks. -/
def isOverdue (budget : SearchBudget) (clock : Clock) (n : Nat) : Bool :=
  n % clockInterval = 0 && (budget.deadline? clock).any fun deadline =>
    deadline.nanoseconds ≤ (clock.branch n).nanoseconds

/-- Whether the search may take its `n`th branch. -/
def allows (budget : SearchBudget) (clock : Clock) (n : Nat) : Bool :=
  n ≤ budget.maxExpansions && !budget.isOverdue clock n

/-- Without a limit of time, only the branches are counted. -/
theorem allows_of_timeLimit_eq_none {budget : SearchBudget} (h : budget.timeLimit = none)
    (clock : Clock) (n : Nat) : budget.allows clock n = decide (n ≤ budget.maxExpansions) := by
  simp [allows, isOverdue, deadline?, h]

theorem overflows_iff {budget : SearchBudget} {clock : Clock} :
    budget.overflows clock = true ↔ ∃ limit, budget.timeLimit = some limit ∧
      Instant.bound ≤ clock.start.nanoseconds + limit.nanoseconds := by
  unfold overflows deadline?
  cases budget.timeLimit with
  | none => simp
  | some limit =>
    simp only [Option.isSome_some, Option.bind_some, Bool.true_and, Option.isNone_iff_eq_none,
      Instant.after?_eq_none_iff, Option.some.injEq, exists_eq_left']

end SearchBudget

/-- The options of a comparison. -/
structure Config where
  /-- Report what is inside added definitions too. -/
  additions : Bool
  /-- Report what is inside removed definitions too. -/
  removals : Bool
  budget : SearchBudget
  /-- How many workers share the search. -/
  workers : Nat
  workers_pos : 0 < workers
  deriving DecidableEq

namespace Config

/-- The options that are used unless others are asked for. -/
def standard : Config where
  additions := false
  removals := false
  budget := .standard
  workers := 1
  workers_pos := Nat.one_pos

instance : Inhabited Config := ⟨standard⟩

end Config

end SchemaDelta

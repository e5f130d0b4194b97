/-!
Plans of workers. A worker that searches takes branches, looks up the best cost that any worker has
found, and announces the costs it finds itself. Its plan says what it does next, whatever it is
told, and ends with its result.

A plan says nothing of other workers. `Plan.run?` carries out a plan by itself.
-/

namespace SchemaDelta.Assignment

/-- What a worker does, up to its result. -/
inductive Plan (α : Type) where
  /-- The worker is done. -/
  | done (result : α)
  /-- The worker takes one more branch. -/
  | expand (next : Unit → Plan α)
  /-- The worker looks up the best cost found so far. -/
  | consult (next : Nat → Plan α)
  /-- The worker announces a cost that it has found. -/
  | announce (cost : Nat) (next : Unit → Plan α)

/-- What the workers share. -/
structure Board where
  /-- How many branches have been taken. -/
  expansions : Nat
  /-- The best cost announced so far. -/
  bestCost : Nat
  deriving DecidableEq, Repr, Inhabited

namespace Plan

variable {α : Type}

/-- Carries out a plan. Nothing comes of a plan that takes a branch which is not allowed. -/
def run? (allows : Nat → Bool) : Plan α → Board → Option (α × Board)
  | done result, board => some (result, board)
  | expand next, board =>
    if allows (board.expansions + 1) then
      run? allows (next ()) { board with expansions := board.expansions + 1 }
    else none
  | consult next, board => run? allows (next board.bestCost) board
  | announce cost next, board =>
    run? allows (next ()) { board with bestCost := min board.bestCost cost }

end Plan

end SchemaDelta.Assignment

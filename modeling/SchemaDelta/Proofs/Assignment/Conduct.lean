import SchemaDelta.Assignment.Plan

/-!
What a plan is sure to do whatever it is told. If the costs that it looks up have some property,
then those that it announces have it too, and its result is as promised.

A plan that is carried out by itself takes the same branches whatever is allowed, as long as all of
them are; so what is allowed decides only whether anything comes of it.
-/

namespace SchemaDelta.Assignment.Plan

variable {α : Type} {known : Nat → Prop} {good : α → Prop} {allows : Nat → Bool}

/-- Given costs that are `known`, a plan announces such costs and ends with a `good` result. -/
def Upholds (known : Nat → Prop) (good : α → Prop) : Plan α → Prop
  | done result => good result
  | expand next => Upholds known good (next ())
  | consult next => ∀ cost, known cost → Upholds known good (next cost)
  | announce cost next => known cost ∧ Upholds known good (next ())

theorem known_and_good_of_run? {plan : Plan α} {board board' : Board} {result : α}
    (h : plan.Upholds known good) (hboard : known board.bestCost)
    (hrun : plan.run? allows board = some (result, board')) :
    known board'.bestCost ∧ good result := by
  -- the invariant of a run is that the best cost on the board is known
  induction plan generalizing board with
  | done value =>
    cases hrun
    exact ⟨hboard, h⟩
  | expand next ih =>
    rw [run?] at hrun
    split at hrun
    · exact ih () h (by exact hboard) hrun
    · cases hrun
  | consult next ih => exact ih board.bestCost (h _ hboard) hboard hrun
  | announce cost next ih =>
    refine ih () h.2 ?_ hrun
    rcases Nat.le_total board.bestCost cost with hle | hle
    · simpa [Nat.min_eq_left hle] using hboard
    · simpa [Nat.min_eq_right hle] using h.1

/-! ## How many branches a plan takes -/

theorem expansions_le_of_run? {plan : Plan α} {board board' : Board} {result : α}
    (hrun : plan.run? allows board = some (result, board')) :
    board.expansions ≤ board'.expansions := by
  induction plan generalizing board with
  | done value =>
    cases hrun
    exact Nat.le_refl _
  | expand next ih =>
    rw [run?] at hrun
    split at hrun
    · have := ih () hrun
      simp only at this
      omega
    · cases hrun
  | consult next ih => exact ih board.bestCost hrun
  | announce cost next ih =>
    rw [run?] at hrun
    have := ih () hrun
    exact this

/-- Where everything is allowed, something comes of every plan. -/
theorem exists_run? (plan : Plan α) (board : Board) :
    ∃ result board', plan.run? (fun _ => true) board = some (result, board') := by
  induction plan generalizing board with
  | done value => exact ⟨value, board, rfl⟩
  | expand next ih => exact ih () _
  | consult next ih => exact ih board.bestCost board
  | announce cost next ih => exact ih () _

/-- The same comes of a plan as where everything is allowed, if all branches it takes are. -/
theorem run?_of_allowed {plan : Plan α} {board board' : Board} {result : α}
    (hrun : plan.run? (fun _ => true) board = some (result, board'))
    (hallows : ∀ n, board.expansions < n → n ≤ board'.expansions → allows n = true) :
    plan.run? allows board = some (result, board') := by
  induction plan generalizing board with
  | done value => exact hrun
  | expand next ih =>
    rw [run?, if_pos rfl] at hrun
    have hle := expansions_le_of_run? hrun
    rw [run?, if_pos (hallows _ (Nat.lt_succ_self _) hle)]
    exact ih () hrun fun n hlt => hallows n (Nat.lt_of_succ_lt hlt)
  | consult next ih => exact ih board.bestCost hrun hallows
  | announce cost next ih =>
    rw [run?] at hrun ⊢
    exact ih () hrun hallows

/-- Nothing comes of a plan one of whose branches is not allowed. -/
theorem run?_of_not_allowed {plan : Plan α} {board board' : Board} {result : α}
    (hrun : plan.run? (fun _ => true) board = some (result, board'))
    {n : Nat} (hlt : board.expansions < n) (hle : n ≤ board'.expansions)
    (hallows : allows n = false) : plan.run? allows board = none := by
  induction plan generalizing board with
  | done value =>
    cases hrun
    omega
  | expand next ih =>
    rw [run?, if_pos rfl] at hrun
    rw [run?]
    split
    · next hallowed =>
      -- the branch that is not allowed is a later one
      refine ih () hrun (Nat.lt_of_le_of_ne hlt ?_)
      rintro rfl
      rw [hallows] at hallowed
      cases hallowed
    · rfl
  | consult next ih => exact ih board.bestCost hrun hlt
  | announce cost next ih =>
    rw [run?] at hrun ⊢
    exact ih () hrun hlt

end SchemaDelta.Assignment.Plan

import SchemaDelta.Assignment.Sharing

/-!
The search of a single worker, walked step by step. A walk has one trail of decisions, which it
makes and takes back, and a stack of the moves that are still to be made after each of them.
-/

namespace SchemaDelta.Assignment

/-! ## Trails -/

/-- The decisions that a walk has made and not taken back. -/
structure Trail where
  decided : List Choice
  /-- What each of them cost. -/
  costs : List Nat
  /-- What all of them cost. -/
  spent : Nat
  deriving DecidableEq, Repr, Inhabited

namespace Trail

/-- Makes a decision. -/
def push (trail : Trail) (move : Move) : Trail where
  decided := trail.decided ++ [move.choice]
  costs := trail.costs ++ [move.cost]
  spent := trail.spent + move.cost

/-- Takes the last decision back. -/
def undo (trail : Trail) : Trail :=
  match trail.costs.getLast? with
  | none => trail
  | some cost => ⟨trail.decided.dropLast, trail.costs.dropLast, trail.spent - cost⟩

/-- The point that a trail has come to. -/
def node (trail : Trail) : Node :=
  ⟨trail.decided, trail.spent⟩

@[simp]
theorem undo_push (trail : Trail) (move : Move) : (trail.push move).undo = trail := by
  simp [push, undo]

theorem node_push (trail : Trail) (move : Move) :
    (trail.push move).node = trail.node.after move := rfl

theorem length_undo_le (trail : Trail) : trail.undo.decided.length ≤ trail.decided.length := by
  unfold undo
  split <;> simp

end Trail

/-! ## Walks -/

/-- A worker on its way through the search. -/
structure Walk where
  trail : Trail
  /-- The moves that are left after each decision, with those after the last one on top. -/
  stack : List (List Move)
  best : Standing
  board : Board
  deriving DecidableEq, Repr, Inhabited

namespace Walk

/-- Comes to a point. A complete assignment is compared with the best one and announced, and its
last decision is taken back; so it is where the point is left. Otherwise its moves are laid on the
stack. -/
def arrive (p : Problem) (walk : Walk) : Walk :=
  if walk.trail.decided.length = p.olds.length then
    let outcome := p.outcome walk.trail.node
    { walk with
      trail := walk.trail.undo
      best := walk.best.improvedBy outcome
      board := { walk.board with bestCost := min walk.board.bestCost outcome.cost } }
  else if p.isHopeless walk.trail.node walk.board.bestCost walk.best then
    { walk with trail := walk.trail.undo }
  else { walk with stack := p.moves walk.trail.node :: walk.stack }

/-- A walk before its first move. -/
def root (p : Problem) : Walk :=
  arrive p ⟨⟨[], [], 0⟩, [], p.start, ⟨0, p.start.cost⟩⟩

/-- What becomes of a walk in one step. -/
inductive Progress where
  | ended (best : Standing) (board : Board)
  /-- A branch was refused. -/
  | refused
  | walked (walk : Walk)

/-- Makes the next move on top of the stack. Where none is left, the last decision is taken back. -/
def step (p : Problem) (allows : Nat → Bool) (walk : Walk) : Progress :=
  match walk.stack with
  | [] => .ended walk.best walk.board
  | [] :: stack =>
    .walked { walk with
      trail := if stack.isEmpty then walk.trail else walk.trail.undo
      stack := stack }
  | (move :: moves) :: stack =>
    if allows (walk.board.expansions + 1) then
      .walked <| arrive p { walk with
        trail := walk.trail.push move
        stack := moves :: stack
        board := { walk.board with expansions := walk.board.expansions + 1 } }
    else .refused

/-- What a walk comes to after finitely many steps: its best standing, or nothing if it is refused a
branch. -/
inductive ComesTo (p : Problem) (allows : Nat → Bool) : Walk → Option (Standing × Board) → Prop
  | ended {walk : Walk} {best : Standing} {board : Board}
      (hstep : walk.step p allows = .ended best board) : ComesTo p allows walk (some (best, board))
  | refused {walk : Walk} (hstep : walk.step p allows = .refused) : ComesTo p allows walk none
  | walked {walk walk' : Walk} {result : Option (Standing × Board)}
      (hstep : walk.step p allows = .walked walk') (h : ComesTo p allows walk' result) :
      ComesTo p allows walk result

end Walk

end SchemaDelta.Assignment

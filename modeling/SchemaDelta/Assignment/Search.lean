import SchemaDelta.Ordering
import SchemaDelta.Assignment.Bound
import SchemaDelta.Assignment.Plan

/-!
The search for the best assignment. Moves are made cheapest first; a node is left at once when its
bound shows that nothing below it can win.

Of two assignments the cheaper wins, and of equally cheap ones the one whose choices come first.
The best assignment that a worker has seen is its standing.
-/

namespace SchemaDelta.Assignment

/-! ## Standings -/

/-- An assignment with its cost. -/
structure Standing where
  cost : Nat
  assignment : List Choice
  deriving DecidableEq, Repr, Inhabited

namespace Standing

/-- The order of standings: by cost, then by the choices. -/
def compare : Standing → Standing → Ordering :=
  compareLex (compareOn cost) (compareOn assignment)

/-- The better of two standings; the second only if it wins. -/
def improvedBy (a b : Standing) : Standing :=
  if (b.compare a).isLT then b else a

end Standing

/-! ## Nodes -/

/-- A choice with what it costs. -/
structure Move where
  cost : Nat
  choice : Choice
  deriving DecidableEq, Repr, Inhabited

/-- The order of moves: cheapest first, and equally cheap ones by their choices. -/
def Move.compare : Move → Move → Ordering :=
  compareLex (compareOn cost) (compareOn choice)

/-- A point of the search: the decisions made so far, and what they cost. -/
structure Node where
  decided : List Choice
  spent : Nat
  deriving DecidableEq, Repr, Inhabited

namespace Node

/-- The point after one more decision. -/
def after (node : Node) (move : Move) : Node :=
  ⟨node.decided ++ [move.choice], node.spent + move.cost⟩

end Node

namespace Problem

/-- The point after some decisions. -/
def nodeAt (p : Problem) (decided : List Choice) : Node :=
  ⟨decided, p.spending [] decided⟩

/-- The moves from a node: the open choices for the next old element, cheapest first. -/
def moves (p : Problem) (node : Node) : List Move :=
  let position := node.decided.length
  sortBy Move.compare
    ((p.openChoices node.decided position).map fun choice =>
      ⟨p.choiceCost node.decided position choice, choice⟩)

/-- The least that any assignment below a node can cost. -/
def bound (p : Problem) (node : Node) : Nat :=
  node.spent + p.remainder node.decided

/-- Whether a node is left, given the best cost that was looked up and the standing of the worker:
below it everything costs more than the best, or costs at least as much and comes later. -/
def isHopeless (p : Problem) (node : Node) (bestCost : Nat) (best : Standing) : Bool :=
  let bound := p.bound node
  bestCost < bound || best.cost < bound ||
    (bound == best.cost &&
      (compare node.decided (best.assignment.take node.decided.length)).isGT)

/-- The standing of a complete assignment. -/
def outcome (p : Problem) (node : Node) : Standing :=
  ⟨node.spent + p.leftoverCost node.decided, node.decided⟩

/-! ## The search -/

/-- Visits the nodes that moves lead to, one after the other, and goes on with the standing that
comes of it. -/
def follow {β : Type} (visit : Node → Standing → (Standing → Plan β) → Plan β) (node : Node) :
    List Move → Standing → (Standing → Plan β) → Plan β
  | [], best, next => next best
  | move :: rest, best, next =>
    .expand fun _ => visit (node.after move) best fun better => follow visit node rest better next

/-- Searches below a node with so many elements undecided, and goes on with the standing that comes
of it. -/
def visit {β : Type} (p : Problem) : Nat → Node → Standing → (Standing → Plan β) → Plan β
  | 0, node, best, next =>
    .announce (p.outcome node).cost fun _ => next (best.improvedBy (p.outcome node))
  | left + 1, node, best, next =>
    .consult fun bestCost =>
      if p.isHopeless node bestCost best then next best
      else follow (visit p left) node (p.moves node) best next

/-- Searches everything that begins with some decisions. -/
def searchFrom {β : Type} (p : Problem) (decided : List Choice) (best : Standing)
    (next : Standing → Plan β) : Plan β :=
  p.visit (p.olds.length - decided.length) (p.nodeAt decided) best next

/-- Searches everything that begins with one of several lists of decisions. -/
def searchAll {β : Type} (p : Problem) :
    List (List Choice) → Standing → (Standing → Plan β) → Plan β
  | [], best, next => next best
  | decided :: rest, best, next =>
    p.searchFrom decided best fun better => searchAll p rest better next

end Problem

end SchemaDelta.Assignment

import SchemaDelta.Assignment.Problem
import SchemaDelta.Total

/-!
What an assignment costs. Decisions are made for one old element after the other, and each costs
its own operation and those on its edges to elements that are decided; when all are made, the new
elements that are left cost theirs.

An edge is therefore paid for when the later of its ends is decided. Parallel edges form a bundle,
and a bundle costs as many operations as it takes to turn its old labels into its new ones.
-/

namespace SchemaDelta.Assignment

/-! ## Labels -/

/-- The labels that two lists have in common, repeats counted. -/
def commonLabels : List String → List String → List String
  | [], _ => []
  | label :: labels, others =>
    if label ∈ others then label :: commonLabels labels (others.erase label)
    else commonLabels labels others

/-- How many labels must be inserted, deleted or replaced to turn one list into the other,
whatever their order. -/
def labelCost (old new : List String) : Nat :=
  max old.length new.length - (commonLabels old new).length

/-! ## Bundles -/

/-- What parallel edges have in common: their direction and their other end. -/
def Tie.bundle (tie : Tie) : Bool × Role :=
  (tie.outgoing, tie.other)

/-- The labels of the ties in a bundle. -/
def labelsIn (bundle : Bool × Role) (ties : List Tie) : List String :=
  (ties.filter fun tie => tie.bundle == bundle).map Tie.label

/-- What it costs to turn old ties into new ones, whose other ends are given by the old elements
they are matched with. -/
def tieCost (old new : List Tie) : Nat :=
  total <| ((old ++ new).map Tie.bundle).eraseDups.map fun bundle =>
    labelCost (labelsIn bundle old) (labelsIn bundle new)

/-! ## Decisions -/

/-- Whether the other end of a tie of the old element at `position` is decided, counting that
element itself. -/
def isDecided (decided : List Choice) (position : Nat) : Role → Bool
  | .fixed => false
  | .anchored _ => true
  | .searched other => other == position || other < decided.length

/-- Whether the other end of a tie of the old element at `position` was left unmatched. -/
def isLost (decided : List Choice) (position : Nat) : Role → Bool
  | .searched other => other != position && decided[other]? == some .unmatched
  | _ => false

/-- The old element with which the other end of a tie of the new element at `target` is matched, if
the old element at `position` is matched with that one. -/
def preimage? (decided : List Choice) (position target : Nat) : Role → Option Role
  | .fixed => none
  | .anchored source => some (.anchored source)
  | .searched other =>
    if other = target then some (.searched position)
    else (decided.idxOf? (.candidate other)).map .searched

/-- A tie of a new element with its other end replaced by the old element it is matched with. -/
def Tie.pullback? (decided : List Choice) (position target : Nat) (tie : Tie) : Option Tie :=
  (preimage? decided position target tie.other).map fun other => { tie with other := other }

/-- What it costs to leave an element unmatched, given its position and its ties. -/
def unmatchedCost (decided : List Choice) (position : Nat) (old : Member) : Nat :=
  1 + old.ties.countP fun tie => isDecided decided position tie.other

/-- What it costs to match the old element at `position` with the new one at `target`. -/
def matchedCost (decided : List Choice) (position target : Nat) (old new : Member) : Nat :=
  (if old.name = new.name then 0 else 1)
    + old.ties.countP (fun tie => isLost decided position tie.other)
    + tieCost
        (old.ties.filter fun tie =>
          isDecided decided position tie.other && !isLost decided position tie.other)
        (new.ties.filterMap (Tie.pullback? decided position target))

namespace Problem

/-- What a choice for the old element at `position` costs after the decisions made so far: its
operation, and those on its ties to decided elements. -/
def choiceCost (p : Problem) (decided : List Choice) (position : Nat) (choice : Choice) : Nat :=
  match p.olds[position]? with
  | none => 0
  | some old =>
    match choice with
    | .unmatched => unmatchedCost decided position old
    | .candidate target =>
      match p.news[target]? with
      | none => 0
      | some new => matchedCost decided position target old new

/-- What the decisions `choices` cost when they are made in order after the decisions `decided`. -/
def spending (p : Problem) (decided : List Choice) : List Choice → Nat
  | [] => 0
  | choice :: choices =>
    p.choiceCost decided decided.length choice + p.spending (decided ++ [choice]) choices

/-! ## Completion -/

/-- Whether the new element at a position is assigned to. -/
def isUsed (decided : List Choice) (target : Nat) : Bool :=
  decided.contains (.candidate target)

/-- Whether a tie of a new element that is left is paid for with that element: those from another
one that is left are paid for with the other. -/
def isInserted (decided : List Choice) (tie : Tie) : Bool :=
  match tie.other with
  | .fixed => false
  | .anchored _ => true
  | .searched other => tie.outgoing || isUsed decided other

/-- What it costs to insert a new element that is left, with its ties. -/
def insertionCost (decided : List Choice) (new : Member) : Nat :=
  1 + new.ties.countP (isInserted decided)

/-- What the new elements cost that nothing is assigned to. -/
def leftoverCost (p : Problem) (decided : List Choice) : Nat :=
  total <| p.news.zipIdx.map fun (new, target) =>
    if isUsed decided target then 0 else insertionCost decided new

/-- What an assignment costs. -/
def cost (p : Problem) (assignment : List Choice) : Nat :=
  p.spending [] assignment + p.leftoverCost assignment

end Problem

end SchemaDelta.Assignment

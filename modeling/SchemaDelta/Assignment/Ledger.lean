import SchemaDelta.Assignment.Walk

/-!
Ledgers: trails of decisions with a register of the new elements, kept up with every decision that is
made or taken back. What a decision costs, which ones are open, how little the rest can cost and what
is left to be inserted are looked up in it.

A ledger also finds the parts of a search that is shared out: it makes each move from a beginning,
looks at the bound, and takes the move back.
-/

namespace SchemaDelta.Assignment

/-- A trail with a register of the new elements: for each, the position of the old element that is
assigned to it. -/
structure Ledger extends Trail where
  users : List (Option Nat)
  deriving DecidableEq, Repr, Inhabited

namespace Ledger

/-! ## Decisions -/

/-- The ledger before any decision. -/
def blank (p : Problem) : Ledger :=
  ⟨⟨[], [], 0⟩, List.replicate p.news.length none⟩

/-- A register with another entry for what a choice assigns to. -/
def noted (users : List (Option Nat)) (user : Option Nat) : Choice → List (Option Nat)
  | .candidate target => users.set target user
  | .unmatched => users

/-- Makes a decision. -/
def push (ledger : Ledger) (move : Move) : Ledger :=
  ⟨ledger.toTrail.push move, noted ledger.users (some ledger.decided.length) move.choice⟩

/-- Takes the last decision back. -/
def undo (ledger : Ledger) : Ledger :=
  ⟨ledger.toTrail.undo, match ledger.decided.getLast? with
    | none => ledger.users
    | some choice => noted ledger.users none choice⟩

/-- The position of the old element that a new one is assigned to. -/
def user? (ledger : Ledger) (target : Nat) : Option Nat :=
  ledger.users[target]?.join

/-- Whether nothing is assigned to a new element. -/
def isFree (ledger : Ledger) (target : Nat) : Bool :=
  (ledger.user? target).isNone

/-! ## Costs -/

/-- The old element with which the other end of a tie of the new element at `target` is matched, if
the old element at `position` is matched with that one. -/
def preimage? (ledger : Ledger) (position target : Nat) : Role → Option Role
  | .fixed => none
  | .anchored source => some (.anchored source)
  | .searched other =>
    if other = target then some (.searched position)
    else (ledger.user? other).map .searched

/-- What it costs to match the old element at `position` with the new one at `target`. -/
def matchedCost (ledger : Ledger) (position target : Nat) (old new : Member) : Nat :=
  (if old.name = new.name then 0 else 1)
    + old.ties.countP (fun tie => isLost ledger.decided position tie.other)
    + tieCost
        (old.ties.filter fun tie =>
          isDecided ledger.decided position tie.other && !isLost ledger.decided position tie.other)
        (new.ties.filterMap fun tie =>
          (ledger.preimage? position target tie.other).map fun other => { tie with other := other })

/-- What a choice for the old element at `position` costs after the decisions made so far. -/
def choiceCost (p : Problem) (ledger : Ledger) (position : Nat) (choice : Choice) : Nat :=
  match p.olds[position]? with
  | none => 0
  | some old =>
    match choice with
    | .unmatched => unmatchedCost ledger.decided position old
    | .candidate target =>
      match p.news[target]? with
      | none => 0
      | some new => ledger.matchedCost position target old new

/-- Whether a tie of a new element that is left is paid for with that element. -/
def isInserted (ledger : Ledger) (tie : Tie) : Bool :=
  match tie.other with
  | .fixed => false
  | .anchored _ => true
  | .searched other => tie.outgoing || !ledger.isFree other

/-- What the new elements cost that nothing is assigned to. -/
def leftoverCost (p : Problem) (ledger : Ledger) : Nat :=
  total <| p.news.zipIdx.map fun (new, target) =>
    if ledger.isFree target then 1 + new.ties.countP ledger.isInserted else 0

/-! ## Open choices and the bound -/

/-- The choices open to the old element at `position`, in their order. -/
def openChoices (p : Problem) (ledger : Ledger) (position : Nat) : List Choice :=
  match p.olds[position]? with
  | none => []
  | some old =>
    (p.news.zipIdx.filterMap fun (new, target) =>
      if new.kind == old.kind && ledger.isFree target &&
          Problem.ownersAgree ledger.decided old.owner new.owner then
        some (Choice.candidate target)
      else none)
      ++ [.unmatched]

/-- The least that a choice open to the old element at `position` costs. -/
def cheapest (p : Problem) (ledger : Ledger) (position : Nat) : Nat :=
  ((ledger.openChoices p position).map (ledger.choiceCost p position)).min?.getD 0

/-- How many new elements of a kind nothing is assigned to. -/
def freeOfKind (p : Problem) (ledger : Ledger) (kind : ElementKind) : Nat :=
  p.news.zipIdx.countP fun (new, target) => new.kind == kind && ledger.isFree target

/-- The least that any assignment can cost that goes on from a ledger: what is spent, the cheapest
open choice of each undecided element, and the new elements of each kind that must be left. -/
def bound (p : Problem) (ledger : Ledger) : Nat :=
  ledger.spent + (total ((p.undecided ledger.decided).map (ledger.cheapest p))
    + total (ElementKind.all.map fun kind =>
        ledger.freeOfKind p kind - p.undecidedOfKind ledger.decided kind))

/-! ## Replays -/

/-- The ledger after one more decision, at what it costs. -/
def after (p : Problem) (ledger : Ledger) (choice : Choice) : Ledger :=
  ledger.push ⟨ledger.choiceCost p ledger.decided.length choice, choice⟩

/-- The ledger after some decisions made in order. -/
def replay (p : Problem) (decided : List Choice) : Ledger :=
  decided.foldl (after p) (blank p)

/-- What an assignment costs. -/
def evaluate (p : Problem) (assignment : List Choice) : Nat :=
  (replay p assignment).spent + (replay p assignment).leftoverCost p

/-- The ledgers that come of open choices, made one after the other. -/
inductive Reached (p : Problem) : Ledger → Prop
  | blank : Reached p (blank p)
  | after {ledger : Ledger} {choice : Choice} (h : Reached p ledger)
      (hchoice : choice ∈ ledger.openChoices p ledger.decided.length) :
      Reached p (ledger.after p choice)

/-! ## Parts -/

/-- The moves from a ledger: the open choices for the next old element, cheapest first. -/
def moves (p : Problem) (ledger : Ledger) : List Move :=
  let position := ledger.decided.length
  sortBy Move.compare
    ((ledger.openChoices p position).map fun choice =>
      ⟨ledger.choiceCost p position choice, choice⟩)

/-- Makes a move from the end of a beginning and takes it back. The longer beginning is added to
those found if it may lead to a cost of at most `bestCost`. -/
def probe (p : Problem) (bestCost : Nat) (begun : List Choice) :
    List (List Choice) × Ledger → Move → List (List Choice) × Ledger :=
  fun (found, ledger) move =>
    let moved := ledger.push move
    (if moved.bound p ≤ bestCost then found ++ [begun ++ [move.choice]] else found, moved.undo)

/-- The beginnings with one more decision that may lead to a cost of at most `bestCost`. All moves
are made on one ledger. -/
def extensions (p : Problem) (bestCost : Nat) (begun : List Choice) : List (List Choice) :=
  (((replay p begun).moves p).foldl (probe p bestCost begun) ([], replay p begun)).1

/-- Beginnings with so many more decisions, unless fewer make enough parts. -/
def partsWithin (p : Problem) (workers bestCost : Nat) :
    Nat → List (List Choice) → List (List Choice)
  | 0, parts => parts
  | steps + 1, parts =>
    if Problem.enoughParts workers ≤ parts.length then parts
    else partsWithin p workers bestCost steps (parts.flatMap (extensions p bestCost))

/-- The parts into which a search is shared out among workers. -/
def parts (p : Problem) (workers bestCost : Nat) : List (List Choice) :=
  partsWithin p workers bestCost (min Problem.shareDepth p.olds.length) [[]]

end Ledger

end SchemaDelta.Assignment

import SchemaDelta.Assignment.Search

/-!
The whole search, by one worker or shared out among several. Shared out, it falls into parts that
begin with different decisions; the parts are found before anything is counted, and each is
searched like the whole.
-/

namespace SchemaDelta.Assignment.Problem

/-! ## Parts -/

/-- The search is shared out after at most so many decisions. -/
def shareDepth : Nat := 2

/-- The search is shared out in no more steps once there are so many parts for each worker. -/
def partsPerWorker : Nat := 4

/-- How many parts are enough for so many workers. The number has 64 bits, so that from `2 ^ 62`
workers on it starts from zero again; arithmetic that is checked for this would have no result. -/
def enoughParts (workers : Nat) : Nat :=
  workers * partsPerWorker % UInt64.size

/-- The beginnings with one more decision that may lead to a cost of at most `bestCost`. -/
def extensions (p : Problem) (bestCost : Nat) (decided : List Choice) : List (List Choice) :=
  ((p.moves (p.nodeAt decided)).map (p.nodeAt decided).after).filterMap fun node =>
    if p.bound node ≤ bestCost then some node.decided else none

/-- Beginnings with so many more decisions, unless fewer make enough parts. -/
def partsWithin (p : Problem) (workers bestCost : Nat) :
    Nat → List (List Choice) → List (List Choice)
  | 0, parts => parts
  | steps + 1, parts =>
    if enoughParts workers ≤ parts.length then parts
    else partsWithin p workers bestCost steps (parts.flatMap (p.extensions bestCost))

/-- The parts into which the search is shared out among workers: beginnings of assignments, under
which everything lies that costs at most `bestCost`. -/
def parts (p : Problem) (workers bestCost : Nat) : List (List Choice) :=
  p.partsWithin workers bestCost (min shareDepth p.olds.length) [[]]

/-! ## The whole search -/

/-- The standing before the search, with nothing matched. -/
def start (p : Problem) : Standing :=
  let assignment := List.replicate p.olds.length .unmatched
  ⟨p.cost assignment, assignment⟩

/-- The plan of the whole search. A single worker begins at the root, without parts. -/
def plan (p : Problem) (workers : Nat) : Plan Standing :=
  if workers = 1 then p.searchFrom [] p.start .done
  else p.searchAll (p.parts workers p.start.cost) p.start .done

/-- The best assignment, unless the search would take a branch that is not allowed. Where there is
nothing to decide there is nothing to search. -/
def best? (p : Problem) (workers : Nat) (allows : Nat → Bool) : Option (List Choice) :=
  if p.olds.isEmpty then some []
  else ((p.plan workers).run? allows ⟨0, p.start.cost⟩).map fun result => result.1.assignment

end SchemaDelta.Assignment.Problem

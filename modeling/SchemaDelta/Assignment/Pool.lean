import SchemaDelta.Assignment.Sharing

/-!
Pools of workers. The workers of a pool take the parts of a search one after the other, each when it
is done with the last, and their steps come in any order.

A worker that looks up the best cost may be told a value that the cost had before, and one that
takes a branch may not have heard yet that a branch was refused. What is counted is counted right.
-/

namespace SchemaDelta.Assignment

/-- What the workers of a pool share. -/
structure Desk extends Board where
  /-- The values that the best cost had before. -/
  earlier : List Nat
  /-- The parts that no worker has taken. -/
  waiting : List (List Choice)
  /-- Whether a branch was refused. -/
  exhausted : Bool
  deriving DecidableEq, Repr, Inhabited

/-- A worker of a pool. -/
inductive Worker where
  /-- It is about to take a part. -/
  | ready (best : Standing)
  /-- It searches a part. -/
  | busy (plan : Plan Standing)
  /-- It is done with its last part. -/
  | finished (best : Standing)
  /-- It has given up, because a branch was refused. -/
  | stopped

/-- What one worker does next, and what becomes of the desk. -/
inductive Worker.Step (p : Problem) (allows : Nat → Bool) : Desk → Worker → Desk → Worker → Prop
  /-- It takes a part. -/
  | take (desk : Desk) (best : Standing) (part : List Choice) (rest : List (List Choice))
      (hwaiting : desk.waiting = part :: rest) :
      Step p allows desk (.ready best) { desk with waiting := rest }
        (.busy (p.searchFrom part best .done))
  /-- It takes a part, but hears that a branch was refused. -/
  | drop (desk : Desk) (best : Standing) (part : List Choice) (rest : List (List Choice))
      (hwaiting : desk.waiting = part :: rest) (hexhausted : desk.exhausted = true) :
      Step p allows desk (.ready best) { desk with waiting := rest } (.finished best)
  /-- It finds no part left. -/
  | leave (desk : Desk) (best : Standing) (hwaiting : desk.waiting = []) :
      Step p allows desk (.ready best) desk (.finished best)
  /-- It is through with a part. -/
  | complete (desk : Desk) (best : Standing) :
      Step p allows desk (.busy (.done best)) desk (.ready best)
  /-- It takes a branch. -/
  | expand (desk : Desk) (next : Unit → Plan Standing)
      (hallows : allows (desk.expansions + 1) = true) :
      Step p allows desk (.busy (.expand next))
        { desk with expansions := desk.expansions + 1 } (.busy (next ()))
  /-- It is refused a branch. -/
  | overrun (desk : Desk) (next : Unit → Plan Standing)
      (hallows : allows (desk.expansions + 1) = false) :
      Step p allows desk (.busy (.expand next))
        { desk with expansions := desk.expansions + 1, exhausted := true } .stopped
  /-- It hears that a branch was refused, and takes none. -/
  | giveUp (desk : Desk) (next : Unit → Plan Standing) (hexhausted : desk.exhausted = true) :
      Step p allows desk (.busy (.expand next)) desk .stopped
  /-- It looks up the best cost, and is told a value that it has or had. -/
  | consult (desk : Desk) (next : Nat → Plan Standing) (cost : Nat)
      (hcost : cost ∈ desk.bestCost :: desk.earlier) :
      Step p allows desk (.busy (.consult next)) desk (.busy (next cost))
  /-- It announces a cost. -/
  | announce (desk : Desk) (cost : Nat) (next : Unit → Plan Standing) :
      Step p allows desk (.busy (.announce cost next))
        { desk with
          bestCost := min desk.bestCost cost
          earlier := desk.bestCost :: desk.earlier } (.busy (next ()))

/-- Whether a worker does no more. -/
def Worker.isOver : Worker → Bool
  | finished _ | stopped => true
  | ready _ | busy _ => false

/-- What a worker ends with. One that has given up ends with nothing that counts. -/
def Worker.result? : Worker → Option Standing
  | finished best => some best
  | ready _ | busy _ | stopped => none

/-- Workers at a desk. -/
structure Pool where
  desk : Desk
  workers : List Worker

namespace Pool

/-- One of the workers does something. -/
inductive Step (p : Problem) (allows : Nat → Bool) : Pool → Pool → Prop
  | move (desk desk' : Desk) (workers : List Worker) (i : Nat) (worker worker' : Worker)
      (hworker : workers[i]? = some worker)
      (hstep : Worker.Step p allows desk worker desk' worker') :
      Step p allows ⟨desk, workers⟩ ⟨desk', workers.set i worker'⟩

/-- The pool before the search. There are no more workers than parts, but always one. -/
def start (p : Problem) (workers : Nat) : Pool :=
  let parts := if workers = 1 then [[]] else p.parts workers p.start.cost
  ⟨⟨⟨0, p.start.cost⟩, [], parts, false⟩,
    List.replicate (max 1 (min workers parts.length)) (.ready p.start)⟩

/-- The pools that some order of steps leads to. -/
inductive Reachable (p : Problem) (workers : Nat) (allows : Nat → Bool) : Pool → Prop
  | start : Reachable p workers allows (.start p workers)
  | step {pool pool' : Pool} :
      Reachable p workers allows pool → Step p allows pool pool' →
        Reachable p workers allows pool'

/-- Whether no worker does any more. -/
def isOver (pool : Pool) : Bool :=
  pool.workers.all Worker.isOver

/-- The best assignment that a worker ended with, unless a branch was refused. -/
def best? (p : Problem) (pool : Pool) : Option (List Choice) :=
  if pool.desk.exhausted then none
  else some ((pool.workers.filterMap Worker.result?).foldl Standing.improvedBy p.start).assignment

end Pool

/-- What a search by several workers can come to, and whether it was refused a branch. -/
inductive Problem.Outcome (p : Problem) (workers : Nat) (allows : Nat → Bool) :
    Bool → Option (List Choice) → Prop
  /-- There is nothing to search. -/
  | trivial (h : p.olds = []) : Outcome p workers allows false (some [])
  /-- The workers have searched. -/
  | searched (pool : Pool) (h : p.olds ≠ []) (hpool : Pool.Reachable p workers allows pool)
      (hover : pool.isOver = true) : Outcome p workers allows pool.desk.exhausted (pool.best? p)

end SchemaDelta.Assignment

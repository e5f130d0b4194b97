import SchemaDelta.Proofs.Assignment.Exactness
import SchemaDelta.Proofs.Assignment.Progress

/-!
The search that is carried out by itself is one of the schedules of a pool: the first worker takes
all parts one after the other, and the others find none.
-/

namespace SchemaDelta.Assignment

variable {p : Problem} {workers : Nat} {allows : Nat → Bool}

/-! ## One plan after another -/

namespace Plan

variable {α β : Type}

/-- A plan, and then the plan that its result asks for. -/
def andThen (next : α → Plan β) : Plan α → Plan β
  | done result => next result
  | expand rest => .expand fun _ => (rest ()).andThen next
  | consult rest => .consult fun cost => (rest cost).andThen next
  | announce cost rest => .announce cost fun _ => (rest ()).andThen next

theorem andThen_andThen {γ : Type} (plan : Plan α) (next : α → Plan β) (last : β → Plan γ) :
    (plan.andThen next).andThen last = plan.andThen fun a => (next a).andThen last := by
  induction plan with
  | done result => rfl
  | expand rest ih => exact congrArg Plan.expand (funext fun _ => ih ())
  | consult rest ih => exact congrArg Plan.consult (funext fun cost => ih cost)
  | announce cost rest ih => exact congrArg (Plan.announce cost) (funext fun _ => ih ())

theorem run?_andThen (plan : Plan α) (next : α → Plan β) (board : Board) :
    (plan.andThen next).run? allows board =
      (plan.run? allows board).bind fun found => (next found.1).run? allows found.2 := by
  induction plan generalizing board with
  | done result => rfl
  | expand rest ih =>
    simp only [andThen, run?]
    split
    · exact ih () _
    · rfl
  | consult rest ih => exact ih board.bestCost board
  | announce cost rest ih => exact ih () _

end Plan

namespace Problem

variable {β : Type}

theorem follow_eq_andThen {left : Nat} {node : Node}
    (hvisit : ∀ {γ : Type} (node : Node) (s : Standing) (next : Standing → Plan γ),
      p.visit left node s next = (p.visit left node s .done).andThen next)
    (moves : List Move) (s : Standing) (next : Standing → Plan β) :
    follow (p.visit left) node moves s next =
      (follow (p.visit left) node moves s .done).andThen next := by
  induction moves generalizing s with
  | nil => rfl
  | cons move moves ih =>
    have hrest : (fun better => follow (p.visit left) node moves better next) =
        fun better => (follow (p.visit left) node moves better .done).andThen next :=
      funext fun better => ih better
    rw [follow, follow, hrest, hvisit, hvisit _ _ fun better => follow _ _ _ better Plan.done]
    simp only [Plan.andThen, Plan.andThen_andThen]

theorem visit_eq_andThen (p : Problem) (left : Nat) (node : Node) (s : Standing)
    (next : Standing → Plan β) :
    p.visit left node s next = (p.visit left node s .done).andThen next := by
  induction left generalizing node s β with
  | zero => rfl
  | succ left ih =>
    rw [visit, visit, Plan.andThen]
    refine congrArg Plan.consult (funext fun cost => ?_)
    cases p.isHopeless node cost s with
    | true => rfl
    | false => exact follow_eq_andThen ih _ _ _

theorem searchFrom_eq_andThen (p : Problem) (decided : List Choice) (s : Standing)
    (next : Standing → Plan β) :
    p.searchFrom decided s next = (p.searchFrom decided s .done).andThen next :=
  visit_eq_andThen _ _ _ _ _

theorem run?_searchAll_cons (p : Problem) (part : List Choice) (parts : List (List Choice))
    (s : Standing) (board : Board) :
    (p.searchAll (part :: parts) s .done).run? allows board =
      ((p.searchFrom part s .done).run? allows board).bind fun found =>
        (p.searchAll parts found.1 .done).run? allows found.2 := by
  rw [searchAll, searchFrom_eq_andThen, Plan.run?_andThen]

end Problem

/-! ## The schedule of a single worker -/

namespace Pool

variable {desk : Desk} {ws : List Worker} {i : Nat}

theorem Reachable.move {desk' : Desk} {worker worker' : Worker} (hi : i < ws.length)
    (h : Reachable p workers allows ⟨desk, ws.set i worker⟩)
    (hstep : Worker.Step p allows desk worker desk' worker') :
    Reachable p workers allows ⟨desk', ws.set i worker'⟩ := by
  have hworker : (ws.set i worker)[i]? = some worker := List.getElem?_set_self hi
  have hnext := h.step (.move desk desk' _ i worker worker' hworker hstep)
  rwa [List.set_set] at hnext

/-- A worker can carry out its plan while the others wait. -/
theorem Reachable.of_run? {plan : Plan Standing} {s : Standing} {board : Board} (hi : i < ws.length)
    (h : Reachable p workers allows ⟨desk, ws.set i (.busy plan)⟩)
    (hrun : plan.run? allows desk.toBoard = some (s, board)) :
    ∃ earlier, Reachable p workers allows
      ⟨⟨board, earlier, desk.waiting, desk.exhausted⟩, ws.set i (.busy (.done s))⟩ := by
  induction plan generalizing desk with
  | done result =>
    cases hrun
    exact ⟨desk.earlier, h⟩
  | expand next ih =>
    rw [Plan.run?] at hrun
    split at hrun
    · next hallows =>
      have hrest := ih () (h.move hi (.expand desk next hallows)) hrun
      exact hrest
    · cases hrun
  | consult next ih =>
    exact ih desk.bestCost (h.move hi (.consult desk next _ List.mem_cons_self)) hrun
  | announce cost next ih =>
    have hrest := ih () (h.move hi (.announce desk cost next)) hrun
    exact hrest

theorem Reachable.exhausted_of_run? {plan : Plan Standing} (hi : i < ws.length)
    (h : Reachable p workers allows ⟨desk, ws.set i (.busy plan)⟩)
    (hrun : plan.run? allows desk.toBoard = none) :
    ∃ pool, Reachable p workers allows pool ∧ pool.desk.exhausted = true := by
  induction plan generalizing desk with
  | done result => cases hrun
  | expand next ih =>
    rw [Plan.run?] at hrun
    split at hrun
    · next hallows => exact ih () (h.move hi (.expand desk next hallows)) hrun
    · next hallows =>
      exact ⟨_, h.move hi (.overrun desk next (Bool.eq_false_iff.2 hallows)), rfl⟩
  | consult next ih =>
    exact ih desk.bestCost (h.move hi (.consult desk next _ List.mem_cons_self)) hrun
  | announce cost next ih => exact ih () (h.move hi (.announce desk cost next)) hrun

/-- A worker can search all parts that wait, as the plan of the whole search does. -/
theorem Reachable.of_searchAll {s : Standing} (hi : i < ws.length)
    (h : Reachable p workers allows ⟨desk, ws.set i (.ready s)⟩) :
    match (p.searchAll desk.waiting s .done).run? allows desk.toBoard with
    | some (found, board) => ∃ earlier, Reachable p workers allows
        ⟨⟨board, earlier, [], desk.exhausted⟩, ws.set i (.ready found)⟩
    | none => ∃ pool, Reachable p workers allows pool ∧ pool.desk.exhausted = true := by
  obtain ⟨board, earlier, waiting, exhausted⟩ := desk
  -- between two parts the worker is ready, with what it has found so far
  induction waiting generalizing board earlier s with
  | nil => exact ⟨earlier, h⟩
  | cons part rest ih =>
    have hbusy := h.move hi (.take _ s part rest rfl)
    rw [Problem.run?_searchAll_cons]
    cases hrun : (p.searchFrom part s .done).run? allows board with
    | none => exact hbusy.exhausted_of_run? hi hrun
    | some found =>
      obtain ⟨earlier', hdone⟩ := hbusy.of_run? hi hrun
      exact ih _ _ (hdone.move hi (.complete _ _))

/-- No worker is busy and no part is left. -/
structure IsQuiet (pool : Pool) : Prop where
  waiting : pool.desk.waiting = []
  exhausted : pool.desk.exhausted = false
  workers : ∀ worker ∈ pool.workers, ∃ s, worker = .ready s ∨ worker = .finished s

theorem IsQuiet.step {before after : Pool} (h : before.IsQuiet)
    (hstep : Step p allows before after) : after.IsQuiet := by
  obtain ⟨desk, desk', ws, i, worker, worker', hworker, hmove⟩ := hstep
  obtain ⟨hwaiting, hexhausted, hworkers⟩ := h
  obtain ⟨s, rfl | rfl⟩ := hworkers worker (List.mem_of_getElem? hworker)
  · cases hmove with
    | take _ part rest hcons => simp [hcons] at hwaiting
    | drop _ part rest hcons => simp [hcons] at hwaiting
    | leave =>
      refine ⟨hwaiting, hexhausted, fun other hother => ?_⟩
      rcases List.mem_or_eq_of_mem_set hother with hother | rfl
      · exact hworkers other hother
      · exact ⟨s, Or.inr rfl⟩
  · cases hmove

theorem Step.exhausted {before after : Pool} (hstep : Step p allows before after)
    (h : before.desk.exhausted = true) : after.desk.exhausted = true := by
  obtain ⟨desk, desk', ws, i, worker, worker', -, hmove⟩ := hstep
  exact hmove.exhausted_of_exhausted h

/-! ## From the start to the end -/

theorem length_workers_start_pos (p : Problem) (workers : Nat) :
    0 < (start p workers).workers.length := by
  simp only [start, List.length_replicate]
  omega

/-- Before the search its first worker is ready. -/
theorem reachable_start (p : Problem) (workers : Nat) (allows : Nat → Bool) :
    Reachable p workers allows
      ⟨(start p workers).desk, (start p workers).workers.set 0 (.ready p.start)⟩ := by
  have hready : (start p workers).workers.set 0 (.ready p.start) = (start p workers).workers :=
    List.set_replicate_self
  rw [hready]
  exact .start

/-- The parts that wait at the start are those of the plan. -/
theorem searchAll_start (p : Problem) (workers : Nat) :
    p.searchAll (start p workers).desk.waiting p.start .done = p.plan workers := by
  simp only [start, Problem.plan]
  split <;> rfl

/-- When the first worker has taken all parts, the others only find that none is left. -/
theorem isQuiet_of_nothing_waiting (board : Board) (earlier : List Nat) (s : Standing) :
    IsQuiet ⟨⟨board, earlier, [], false⟩, (start p workers).workers.set 0 (.ready s)⟩ := by
  refine ⟨rfl, rfl, fun worker hworker => ?_⟩
  rcases List.mem_or_eq_of_mem_set hworker with hworker | rfl
  · exact ⟨_, Or.inl (List.eq_of_mem_replicate hworker)⟩
  · exact ⟨_, Or.inl rfl⟩

end Pool

/-- What the search comes to by itself is one of the outcomes of a pool. -/
theorem Problem.exists_outcome_best? (p : Problem) (workers : Nat) (allows : Nat → Bool) :
    ∃ exhausted, p.Outcome workers allows exhausted (p.best? workers allows) := by
  by_cases hempty : p.olds = []
  · refine ⟨false, ?_⟩
    rw [best?, hempty, List.isEmpty_nil, if_pos rfl]
    exact .trivial hempty
  obtain ⟨best, hbest⟩ := p.exists_isBest
  have hfound : p.best? workers allows = ((p.plan workers).run? allows
      (Pool.start p workers).desk.toBoard).map fun found => found.1.assignment := by
    rw [best?, if_neg (by simpa using hempty)]
    rfl
  have hall := (Pool.reachable_start p workers allows).of_searchAll
    (Pool.length_workers_start_pos p workers)
  rw [Pool.searchAll_start] at hall
  cases hrun : (p.plan workers).run? allows (Pool.start p workers).desk.toBoard with
  | none =>
    rw [hrun] at hall
    -- the others may go on as they like, once a branch has been refused
    obtain ⟨pool, hpool, hexhausted⟩ := hall
    obtain ⟨last, hlast, hover, hexhausted⟩ :=
      hpool.exists_isOver hexhausted fun _ _ h hstep => hstep.exhausted h
    refine ⟨true, ?_⟩
    have houtcome := Outcome.searched last hempty hlast hover
    rwa [Pool.best?, hexhausted, if_pos rfl, ← Option.map_none, ← hrun, ← hfound] at houtcome
  | some found =>
    rw [hrun] at hall
    obtain ⟨earlier, hpool⟩ := hall
    obtain ⟨last, hlast, hover, hquiet⟩ :=
      hpool.exists_isOver (Pool.isQuiet_of_nothing_waiting found.2 earlier found.1)
        fun _ _ h hstep => h.step hstep
    refine ⟨false, ?_⟩
    have houtcome := Outcome.searched last hempty hlast hover
    have hbestFound := Pool.best?_eq_some (hlast.invariant hbest) hbest hover hquiet.exhausted
    have hsame : p.best? workers allows = some best := by
      rw [hrun, Option.map_some] at hfound
      rw [hfound, eq_of_best?_eq_some hbest hfound]
    rwa [hquiet.exhausted, hbestFound, ← hsame] at houtcome

end SchemaDelta.Assignment

import SchemaDelta.Assignment.Walk
import SchemaDelta.Proofs.Assignment.Conduct

/-!
A walk carries out the plan of the search. What is left of the plan can be read off the trail and
the stack; a step of the walk changes neither what comes of it nor, in the end, how many branches it
takes. Each branch lays at most one list of moves on the stack, so every walk comes to an end.
-/

namespace SchemaDelta.Assignment.Walk

open Plan

variable {p : Problem} {allows : Nat → Bool} {walk walk' : Walk}

/-! ## What is left of a walk -/

/-- The plan for the moves on a stack. -/
def planOf (p : Problem) : List (List Move) → Trail → Standing → Plan Standing
  | [], _, best => .done best
  | moves :: stack, trail, best =>
    Problem.follow (p.visit (p.olds.length - (trail.decided.length + 1))) trail.node moves best
      fun better => planOf p stack trail.undo better

/-- The plan that is left of a walk. -/
def plan (p : Problem) (walk : Walk) : Plan Standing :=
  planOf p walk.stack walk.trail walk.best

/-- Moves are only made where something is undecided. -/
def IsOpen (p : Problem) (walk : Walk) : Prop :=
  walk.stack ≠ [] → walk.trail.decided.length < p.olds.length

theorem run?_arrive (h : walk.trail.decided.length ≤ p.olds.length) :
    ((walk.arrive p).plan p).run? allows (walk.arrive p).board =
      (p.visit (p.olds.length - walk.trail.decided.length) walk.trail.node walk.best
        (planOf p walk.stack walk.trail.undo)).run? allows walk.board := by
  cases hleft : p.olds.length - walk.trail.decided.length with
  | zero =>
    have hlength : walk.trail.decided.length = p.olds.length := by omega
    rw [arrive, if_pos hlength]
    rfl
  | succ left =>
    have hlength : walk.trail.decided.length ≠ p.olds.length := by omega
    rw [arrive, if_neg hlength, Problem.visit, run?]
    split
    · rfl
    · have hrest : p.olds.length - (walk.trail.decided.length + 1) = left := by omega
      simp only [plan, planOf, hrest]

theorem expansions_arrive (p : Problem) (walk : Walk) :
    (walk.arrive p).board.expansions = walk.board.expansions := by
  unfold arrive
  split
  · rfl
  · split <;> rfl

theorem length_stack_arrive_le (p : Problem) (walk : Walk) :
    (walk.arrive p).stack.length ≤ walk.stack.length + 1 := by
  unfold arrive
  split
  · simp
  · split <;> simp

/-- Where a point is left, the walk is again where it came from. -/
theorem isOpen_arrive (hundo : walk.stack ≠ [] → walk.trail.undo.decided.length < p.olds.length)
    (h : walk.trail.decided.length ≤ p.olds.length) : (walk.arrive p).IsOpen p := by
  unfold arrive
  split
  · exact hundo
  · next hlength =>
    split
    · exact hundo
    · exact fun _ => Nat.lt_of_le_of_ne h hlength

/-! ## One step -/

/-- What is to be shown of a step. The last two parts bound how often a walk can go on. -/
structure Step (p : Problem) (allows : Nat → Bool) (walk walk' : Walk) : Prop where
  isOpen : walk'.IsOpen p
  /-- Whatever more is allowed, the same comes of the plan. -/
  run? : ∀ permits : Nat → Bool, (∀ n, allows n = true → permits n = true) →
    (walk'.plan p).run? permits walk'.board = (walk.plan p).run? permits walk.board
  /-- The walk takes a branch, or its stack gets shorter. -/
  shrinks : walk'.board.expansions = walk.board.expansions + 1 ∧
      walk'.stack.length ≤ walk.stack.length + 1 ∨
    walk'.board.expansions = walk.board.expansions ∧ walk'.stack.length < walk.stack.length

theorem step_walked (hopen : walk.IsOpen p) (h : walk.step p allows = .walked walk') :
    Step p allows walk walk' := by
  unfold step at h
  split at h
  · cases h
  · next stack hstack =>
    cases h
    refine ⟨?_, fun permits _ => ?_, Or.inr ⟨rfl, by simp [hstack]⟩⟩
    · intro hne
      have hlt := hopen (by simp [hstack])
      have hle := walk.trail.length_undo_le
      rw [if_neg (by simpa using hne)]
      exact Nat.lt_of_le_of_lt hle hlt
    · rw [plan, plan, hstack]
      -- below the last list of moves the trail does not count any more
      cases stack <;> rfl
  · next move moves stack hstack =>
    split at h
    · next hallows =>
      cases h
      have hlt := hopen (by simp [hstack])
      have hle : (walk.trail.push move).decided.length ≤ p.olds.length := by
        simp only [Trail.push, List.length_append, List.length_singleton]
        omega
      refine ⟨isOpen_arrive (fun _ => ?_) hle, fun permits hpermits => ?_, Or.inl ⟨?_, ?_⟩⟩
      · rw [Trail.undo_push]
        exact hlt
      · have hleft : p.olds.length - (walk.trail.push move).decided.length =
            p.olds.length - (walk.trail.decided.length + 1) := by
          simp [Trail.push]
        rw [run?_arrive hle, plan, hstack, planOf, Problem.follow, run?, if_pos (hpermits _ hallows)]
        simp only [hleft, Trail.undo_push, Trail.node_push]
        rfl
      · rw [expansions_arrive]
      · refine Nat.le_trans (length_stack_arrive_le p _) ?_
        simp [hstack]
    · cases h

theorem run?_of_step_ended {best : Standing} {board : Board}
    (h : walk.step p allows = .ended best board) :
    (walk.plan p).run? allows walk.board = some (best, board) := by
  unfold step at h
  split at h
  · next hstack =>
    cases h
    rw [plan, hstack]
    rfl
  · cases h
  · split at h <;> cases h

theorem run?_of_step_refused (h : walk.step p allows = .refused) :
    (walk.plan p).run? allows walk.board = none := by
  unfold step at h
  split at h
  · cases h
  · cases h
  · next move moves stack hstack =>
    split at h
    · cases h
    · next hallows =>
      rw [plan, hstack, planOf, Problem.follow, run?, if_neg hallows]

/-! ## All steps -/

/-- A walk comes to what comes of its plan. The measure is what the walk still has before it if
nothing is refused. -/
theorem comesTo_run? (hopen : walk.IsOpen p) :
    walk.ComesTo p allows ((walk.plan p).run? allows walk.board) := by
  obtain ⟨result, board, hrun⟩ := exists_run? (walk.plan p) walk.board
  induction hn : 2 * (board.expansions - walk.board.expansions) + walk.stack.length
    using Nat.strongRecOn generalizing walk with
  | _ n ih =>
    cases hstep : walk.step p allows with
    | ended best board' =>
      rw [run?_of_step_ended hstep]
      exact .ended hstep
    | refused =>
      rw [run?_of_step_refused hstep]
      exact .refused hstep
    | walked walk' =>
      have hwalked := step_walked hopen hstep
      have hrun' := hrun
      rw [← hwalked.run? _ fun _ _ => rfl] at hrun'
      have hle := expansions_le_of_run? hrun'
      rw [← hwalked.run? allows fun _ h => h]
      refine .walked hstep (ih _ ?_ hwalked.isOpen hrun' rfl)
      rcases hwalked.shrinks with h | h <;> omega

/-- A walk comes to one end only. -/
theorem ComesTo.unique {result other : Option (Standing × Board)} (h : walk.ComesTo p allows result)
    (hother : walk.ComesTo p allows other) : result = other := by
  induction h with
  | ended hstep => cases hother <;> simp_all
  | refused hstep => cases hother <;> simp_all
  | walked hstep h ih =>
    cases hother with
    | ended hstep' => simp_all
    | refused hstep' => simp_all
    | walked hstep' h' =>
      rw [hstep] at hstep'
      cases hstep'
      exact ih h'

/-- The walk of a single worker comes to what its plan does, and to nothing else. -/
theorem root_comesTo_iff {result : Option (Standing × Board)} :
    (root p).ComesTo p allows result ↔ result = (p.plan 1).run? allows ⟨0, p.start.cost⟩ := by
  let first : Walk := ⟨⟨[], [], 0⟩, [], p.start, ⟨0, p.start.cost⟩⟩
  have hlength : first.trail.decided.length ≤ p.olds.length := Nat.zero_le _
  have hrun : ((root p).plan p).run? allows (root p).board = (p.plan 1).run? allows first.board :=
    run?_arrive hlength
  have hopen : (root p).IsOpen p := by
    apply isOpen_arrive
    · intro hstack
      exact absurd rfl hstack
    · exact hlength
  have hroot : (root p).ComesTo p allows (((root p).plan p).run? allows (root p).board) :=
    comesTo_run? hopen
  rw [hrun] at hroot
  constructor
  · intro h
    exact h.unique hroot
  · rintro rfl
    exact hroot

end SchemaDelta.Assignment.Walk

import SchemaDelta.Assignment.Pool
import SchemaDelta.Proofs.Assignment.Parts

/-!
Whatever the order of their steps, the workers of a pool come to the best assignment, unless one of
them is refused a branch. Three things are kept by every step: no cost is announced that is below
the best, every worker has a feasible standing, and the best assignment is not lost. It lies in a
part that waits, or some worker is sure to end with it.
-/

namespace SchemaDelta.Assignment

variable {p : Problem} {workers : Nat} {allows : Nat → Bool} {best : List Choice}

/-! ## Workers -/

/-- Whether a worker is sure to end with a standing of some property, if it has not given up and is
told no cost below the best. -/
def Worker.Has (p : Problem) (best : List Choice) (property : Standing → Prop) : Worker → Prop
  | ready s | finished s => property s
  | busy plan => plan.Upholds (p.cost best ≤ ·) property
  | stopped => False

/-- Nothing at a desk is better than the best. -/
structure Desk.IsSound (p : Problem) (best : List Choice) (desk : Desk) : Prop where
  cost_le : ∀ cost ∈ desk.bestCost :: desk.earlier, p.cost best ≤ cost
  follows : ∀ part ∈ desk.waiting, p.Follows [] part

namespace Worker.Step

variable {desk desk' : Desk} {worker worker' : Worker}

/-- A step announces nothing that is better than the best. -/
theorem isSound (hstep : Worker.Step p allows desk worker desk' worker')
    (hdesk : desk.IsSound p best) {property : Standing → Prop}
    (hworker : worker = .stopped ∨ worker.Has p best property) : desk'.IsSound p best := by
  cases hstep with
  | take s part rest hwaiting =>
    exact ⟨hdesk.cost_le, fun part' h => hdesk.follows part' (hwaiting ▸ List.mem_cons_of_mem _ h)⟩
  | drop s part rest hwaiting =>
    exact ⟨hdesk.cost_le, fun part' h => hdesk.follows part' (hwaiting ▸ List.mem_cons_of_mem _ h)⟩
  | leave => exact hdesk
  | complete => exact hdesk
  | expand => exact ⟨hdesk.cost_le, hdesk.follows⟩
  | overrun => exact ⟨hdesk.cost_le, hdesk.follows⟩
  | giveUp => exact hdesk
  | consult => exact hdesk
  | announce cost next =>
    refine ⟨fun cost' hcost' => ?_, hdesk.follows⟩
    have hcost : p.cost best ≤ cost := (hworker.resolve_left nofun).1
    have hbest := hdesk.cost_le desk.bestCost List.mem_cons_self
    rcases List.mem_cons.1 hcost' with rfl | hcost'
    · exact Nat.le_min.2 ⟨hbest, hcost⟩
    · exact hdesk.cost_le cost' hcost'

/-- A property of standings that searching on does not take away stays with a worker, until it gives
up. -/
theorem has (hstep : Worker.Step p allows desk worker desk' worker') (hbest : p.IsBest best)
    (hdesk : desk.IsSound p best) {property : Standing → Prop}
    (hstanding : ∀ s, property s → p.IsStanding s)
    (hkept : ∀ s better, property s → p.IsStanding better → better ≤ s → property better)
    (hworker : worker.Has p best property) :
    worker'.Has p best property ∨ desk'.exhausted = true ∧ worker' = .stopped := by
  cases hstep with
  | take s part rest hwaiting =>
    have hpart : p.Follows [] part := hdesk.follows part (hwaiting ▸ List.mem_cons_self)
    refine Or.inl (Problem.searchFrom_searches hbest hpart property s _ (hstanding s hworker) ?_)
    exact fun better h => hkept s better hworker h.isStanding h.le
  | drop => exact Or.inl hworker
  | leave => exact Or.inl hworker
  | complete => exact Or.inl hworker
  | expand => exact Or.inl hworker
  | overrun => exact Or.inr ⟨rfl, rfl⟩
  | giveUp next hexhausted => exact Or.inr ⟨hexhausted, rfl⟩
  | consult next cost hcost => exact Or.inl (hworker cost (hdesk.cost_le cost hcost))
  | announce => exact Or.inl hworker.2

/-- A part that the best assignment begins with is not lost when a worker takes it. -/
theorem notLost (hstep : Worker.Step p allows desk worker desk' worker') (hbest : p.IsBest best)
    (hdesk : desk.IsSound p best) (hworker : worker = .stopped ∨ worker.Has p best p.IsStanding)
    {part : List Choice} (hpart : part ∈ desk.waiting) (hbegins : part <+: best) :
    desk'.exhausted = true ∨ part ∈ desk'.waiting ∨ worker'.Has p best (· = p.standing best) := by
  cases hstep with
  | take s first rest hwaiting =>
    rw [hwaiting] at hpart
    rcases List.mem_cons.1 hpart with rfl | hpart
    · -- from now on the worker that has taken the part is sure to find the best in it
      have hfollows : p.Follows [] part := hdesk.follows part (hwaiting ▸ List.mem_cons_self)
      refine Or.inr (Or.inr (Problem.searchFrom_searches hbest hfollows _ s _ ?_ ?_))
      · exact hworker.resolve_left nofun
      · exact fun better h => h.eq_of_met hbegins
    · exact Or.inr (Or.inl hpart)
  | drop s first rest hwaiting hexhausted => exact Or.inl hexhausted
  | leave => exact Or.inr (Or.inl hpart)
  | complete => exact Or.inr (Or.inl hpart)
  | expand => exact Or.inr (Or.inl hpart)
  | overrun => exact Or.inl rfl
  | giveUp next hexhausted => exact Or.inl hexhausted
  | consult => exact Or.inr (Or.inl hpart)
  | announce => exact Or.inr (Or.inl hpart)

theorem exhausted_of_exhausted (hstep : Worker.Step p allows desk worker desk' worker')
    (h : desk.exhausted = true) : desk'.exhausted = true := by
  cases hstep <;> first | exact h | rfl

theorem waiting_eq_nil (hstep : Worker.Step p allows desk worker desk' worker')
    (h : desk.waiting = []) : desk'.waiting = [] := by
  cases hstep with
  | take s part rest hwaiting => simp [h] at hwaiting
  | drop s part rest hwaiting => simp [h] at hwaiting
  | _ => exact h

/-- A worker gives up only when a branch has been refused, and ends only then or when no part is
left. -/
theorem ended (hstep : Worker.Step p allows desk worker desk' worker') (h : worker'.isOver = true) :
    desk'.exhausted = true ∨ worker' ≠ .stopped ∧ desk'.waiting = [] := by
  cases hstep with
  | drop s part rest hwaiting hexhausted => exact Or.inl hexhausted
  | leave s hwaiting => exact Or.inr ⟨nofun, hwaiting⟩
  | overrun => exact Or.inl rfl
  | giveUp next hexhausted => exact Or.inl hexhausted
  | take | complete | expand | consult | announce => simp [Worker.isOver] at h

end Worker.Step

/-! ## Pools -/

namespace Pool

/-- What every step of a pool keeps. -/
structure Invariant (p : Problem) (best : List Choice) (pool : Pool) : Prop where
  isSound : pool.desk.IsSound p best
  standings : ∀ worker ∈ pool.workers, worker = .stopped ∨ worker.Has p best p.IsStanding
  /-- Who does no more has a reason. -/
  ended : ∀ worker ∈ pool.workers, worker.isOver = true →
    pool.desk.exhausted = true ∨ worker ≠ .stopped ∧ pool.desk.waiting = []
  notLost : pool.desk.exhausted = true ∨ (∃ part ∈ pool.desk.waiting, part <+: best) ∨
    ∃ worker ∈ pool.workers, worker.Has p best (· = p.standing best)
  nonempty : pool.workers ≠ []

theorem invariant_start (hbest : p.IsBest best) : (start p workers).Invariant p best := by
  have hstart : p.cost best ≤ p.start.cost := Standing.cost_le_of_le (hbest.le p.isStanding_start)
  have hready : ∀ worker ∈ (start p workers).workers, worker = .ready p.start :=
    fun worker h => List.eq_of_mem_replicate h
  constructor
  · refine ⟨fun cost hcost => ?_, fun part hpart => ?_⟩
    · rw [List.mem_singleton.1 hcost]
      exact hstart
    · simp only [start] at hpart
      split at hpart
      · rw [List.mem_singleton.1 hpart]
        exact Problem.follows_nil
      · exact Problem.follows_of_mem_parts part hpart
  · intro worker h
    rw [hready worker h]
    exact Or.inr p.isStanding_start
  · intro worker h hover
    rw [hready worker h] at hover
    cases hover
  · refine Or.inr (Or.inl ?_)
    simp only [start]
    split
    · exact ⟨[], List.mem_singleton_self [], List.nil_prefix⟩
    · exact Problem.exists_mem_parts hbest.1 hstart
  · rw [start, ne_eq, List.replicate_eq_nil_iff]
    omega

theorem mem_set_of_mem {ws : List Worker} {i : Nat} {w old : Worker} (new : Worker)
    (hold : ws[i]? = some old) (h : w ∈ ws) : w = old ∨ w ∈ ws.set i new := by
  obtain ⟨j, hj, hw⟩ := List.getElem_of_mem h
  by_cases hij : i = j
  · subst hij
    rw [List.getElem?_eq_getElem hj, hw] at hold
    exact Or.inl (Option.some.inj hold)
  · refine Or.inr (List.mem_of_getElem? (i := j) ?_)
    rw [List.getElem?_set_ne hij, List.getElem?_eq_getElem hj, hw]

/-- Each step keeps the invariant. -/
theorem Step.invariant {pool pool' : Pool} (hstep : Step p allows pool pool')
    (hbest : p.IsBest best) (h : pool.Invariant p best) : pool'.Invariant p best := by
  obtain ⟨desk, desk', ws, i, worker, worker', hworker, hmove⟩ := hstep
  obtain ⟨hsound, hstandings, hover, hnotLost, hnonempty⟩ := h
  simp only at hsound hstandings hover hnotLost hnonempty
  have hmem : worker ∈ ws := List.mem_of_getElem? hworker
  have hmem' : worker' ∈ ws.set i worker' :=
    List.mem_set (List.getElem?_eq_some_iff.1 hworker).1 worker'
  constructor
  · exact hmove.isSound hsound (hstandings worker hmem)
  · intro other hother
    rcases List.mem_or_eq_of_mem_set hother with hother | rfl
    · exact hstandings other hother
    · rcases hstandings worker hmem with rfl | hhas
      · cases hmove
      · rcases hmove.has hbest hsound (fun _ hs => hs) (fun _ _ _ hb _ => hb) hhas with hhas | hend
        · exact Or.inr hhas
        · exact Or.inl hend.2
  · intro other hother hend
    rcases List.mem_or_eq_of_mem_set hother with hother | rfl
    · rcases hover other hother hend with hexhausted | ⟨hne, hwaiting⟩
      · exact Or.inl (hmove.exhausted_of_exhausted hexhausted)
      · exact Or.inr ⟨hne, hmove.waiting_eq_nil hwaiting⟩
    · exact hmove.ended hend
  · rcases hnotLost with hexhausted | ⟨part, hpart, hbegins⟩ | ⟨holder, hholder, hhas⟩
    · exact Or.inl (hmove.exhausted_of_exhausted hexhausted)
    · rcases hmove.notLost hbest hsound (hstandings worker hmem) hpart hbegins with h | h | h
      · exact Or.inl h
      · exact Or.inr (Or.inl ⟨part, h, hbegins⟩)
      · exact Or.inr (Or.inr ⟨worker', hmem', h⟩)
    · rcases mem_set_of_mem worker' hworker hholder with rfl | hholder
      · -- the worker that makes the step is the one that was sure to find the best
        have hbestStanding : p.IsStanding (p.standing best) := ⟨hbest.1, rfl⟩
        have hkept := hmove.has hbest hsound
          (fun s (hs : s = p.standing best) => hs ▸ hbestStanding)
          (fun s better hs hb hle => Standing.le_antisymm (hs ▸ hle) (hbest.le hb)) hhas
        rcases hkept with hhas | hend
        · exact Or.inr (Or.inr ⟨worker', hmem', hhas⟩)
        · exact Or.inl hend.1
      · exact Or.inr (Or.inr ⟨holder, hholder, hhas⟩)
  · simpa using hnonempty

theorem Reachable.invariant {pool : Pool} (hpool : Reachable p workers allows pool)
    (hbest : p.IsBest best) : pool.Invariant p best := by
  induction hpool with
  | start => exact invariant_start hbest
  | step _ hstep ih => exact hstep.invariant hbest ih

/-- When all is over and no branch was refused, the best assignment has been found. -/
theorem best?_eq_some {pool : Pool} (h : pool.Invariant p best) (hbest : p.IsBest best)
    (hover : pool.isOver = true) (hexhausted : pool.desk.exhausted = false) :
    pool.best? p = some best := by
  have hend : ∀ worker ∈ pool.workers, ∃ s, worker = .finished s := by
    intro worker hworker
    have hover' := List.all_eq_true.1 hover worker hworker
    have hreason := (h.ended worker hworker hover').resolve_left (by simp [hexhausted])
    cases worker with
    | finished s => exact ⟨s, rfl⟩
    | stopped => exact absurd rfl hreason.1
    | ready s => cases hover'
    | busy plan => cases hover'
  have hresults : ∀ s ∈ p.start :: pool.workers.filterMap Worker.result?, p.IsStanding s := by
    intro s hs
    rcases List.mem_cons.1 hs with rfl | hs
    · exact p.isStanding_start
    · obtain ⟨worker, hworker, hresult⟩ := List.mem_filterMap.1 hs
      obtain ⟨s', rfl⟩ := hend worker hworker
      cases hresult
      exact (h.standings _ hworker).resolve_left nofun
  have hfound : p.standing best ∈ pool.workers.filterMap Worker.result? := by
    rcases h.notLost with hlost | ⟨part, hpart, -⟩ | ⟨worker, hworker, hhas⟩
    · rw [hexhausted] at hlost
      cases hlost
    · -- a part that waits would keep every worker from ending
      obtain ⟨worker, hworker⟩ := List.exists_mem_of_ne_nil _ h.nonempty
      have hover' := List.all_eq_true.1 hover worker hworker
      have hreason := (h.ended worker hworker hover').resolve_left (by simp [hexhausted])
      rw [hreason.2] at hpart
      cases hpart
    · obtain ⟨s, rfl⟩ := hend worker hworker
      exact List.mem_filterMap.2 ⟨_, hworker, congrArg some hhas⟩
  have hwinner := Standing.le_antisymm
    (Standing.foldl_improvedBy_le (List.mem_cons_of_mem p.start hfound))
    (hbest.le (hresults _ (Standing.foldl_improvedBy_mem _ _)))
  rw [best?, hexhausted, if_neg Bool.false_ne_true, hwinner]
  rfl

end Pool

end SchemaDelta.Assignment

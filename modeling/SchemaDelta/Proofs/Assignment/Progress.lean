import Mathlib.Logic.Hydra
import SchemaDelta.Proofs.Assignment.Schedules

/-!
No schedule of a pool goes on for ever, and none is stuck before all is over. So every schedule can
be carried to its end.
-/

namespace SchemaDelta.Assignment

variable {p : Problem} {workers : Nat} {allows : Nat → Bool}

/-! ## Schedules end -/

/-- What a worker can become without taking a part. -/
inductive Worker.Before : Worker → Worker → Prop
  | leave (s s' : Standing) : Before (.finished s) (.ready s')
  | complete (s s' : Standing) : Before (.ready s) (.busy (.done s'))
  | giveUp (plan : Plan Standing) : Before .stopped (.busy plan)
  | expand (next : Unit → Plan Standing) : Before (.busy (next ())) (.busy (.expand next))
  | consult (next : Nat → Plan Standing) (cost : Nat) :
      Before (.busy (next cost)) (.busy (.consult next))
  | announce (cost : Nat) (next : Unit → Plan Standing) :
      Before (.busy (next ())) (.busy (.announce cost next))

theorem Worker.wellFounded_before : WellFounded Worker.Before := by
  have hfinished : ∀ s, Acc Worker.Before (.finished s) := fun s => ⟨_, nofun⟩
  have hstopped : Acc Worker.Before .stopped := ⟨_, nofun⟩
  have hready : ∀ s, Acc Worker.Before (.ready s) := by
    refine fun s => ⟨_, fun worker hbefore => ?_⟩
    cases hbefore
    exact hfinished _
  have hbusy : ∀ plan, Acc Worker.Before (.busy plan) := by
    intro plan
    induction plan with
    | done s =>
      refine ⟨_, fun worker hbefore => ?_⟩
      cases hbefore with
      | complete => exact hready _
      | giveUp => exact hstopped
    | expand next ih =>
      refine ⟨_, fun worker hbefore => ?_⟩
      cases hbefore with
      | expand => exact ih ()
      | giveUp => exact hstopped
    | consult next ih =>
      refine ⟨_, fun worker hbefore => ?_⟩
      cases hbefore with
      | consult _ cost => exact ih cost
      | giveUp => exact hstopped
    | announce cost next ih =>
      refine ⟨_, fun worker hbefore => ?_⟩
      cases hbefore with
      | announce => exact ih ()
      | giveUp => exact hstopped
  refine ⟨fun worker => ?_⟩
  cases worker with
  | ready s => exact hready s
  | busy plan => exact hbusy plan
  | finished s => exact hfinished s
  | stopped => exact hstopped

/-- A worker takes a part away or comes closer to its end. -/
theorem Worker.Step.descends {desk desk' : Desk} {worker worker' : Worker}
    (hstep : Worker.Step p allows desk worker desk' worker') :
    desk'.waiting.length < desk.waiting.length ∨
      desk'.waiting = desk.waiting ∧ worker'.Before worker := by
  cases hstep with
  | take s part rest hwaiting => exact Or.inl (by simp [hwaiting])
  | drop s part rest hwaiting => exact Or.inl (by simp [hwaiting])
  | leave => exact Or.inr ⟨rfl, .leave _ _⟩
  | complete => exact Or.inr ⟨rfl, .complete _ _⟩
  | expand => exact Or.inr ⟨rfl, .expand _⟩
  | overrun => exact Or.inr ⟨rfl, .giveUp _⟩
  | giveUp => exact Or.inr ⟨rfl, .giveUp _⟩
  | consult => exact Or.inr ⟨rfl, .consult _ _⟩
  | announce => exact Or.inr ⟨rfl, .announce _ _⟩

namespace Pool

/-- No pool can make steps for ever. -/
theorem wellFounded_step (p : Problem) (allows : Nat → Bool) :
    WellFounded fun after before => Step p allows before after := by
  -- a step takes a part away, or replaces one worker by what it becomes without one
  have horder : WellFounded (Prod.Lex (· < ·) (Relation.CutExpand Worker.Before)) :=
    WellFounded.prod_lex Nat.lt_wfRel.wf Worker.wellFounded_before.cutExpand
  refine Subrelation.wf ?_ (InvImage.wf
    (fun pool : Pool => (pool.desk.waiting.length, (pool.workers : Multiset Worker))) horder)
  rintro _ _ ⟨desk, desk', ws, i, worker, worker', hworker, hmove⟩
  obtain ⟨hlt, hget⟩ := List.getElem?_eq_some_iff.1 hworker
  rcases hmove.descends with hless | ⟨hsame, hbefore⟩
  · exact Prod.Lex.left _ _ hless
  · have hafter : (ws.set i worker' : Multiset Worker) = ws.eraseIdx i + {worker'} := by
      rw [Multiset.coe_eq_coe.2 (List.set_perm_cons_eraseIdx hlt worker'), ← Multiset.cons_coe,
        Multiset.add_comm, Multiset.singleton_add]
    have hprior : (ws : Multiset Worker) = ws.eraseIdx i + {worker} := by
      rw [← Multiset.coe_eq_coe.2 (List.getElem_cons_eraseIdx_perm hlt), hget, ← Multiset.cons_coe,
        Multiset.add_comm, Multiset.singleton_add]
    simp only [InvImage, hsame]
    refine Prod.Lex.right _ ?_
    rw [hafter, hprior]
    exact Relation.cutExpand_add_single _ hbefore

/-- As long as not all is over, some worker can do something. -/
theorem exists_step {pool : Pool} (h : pool.isOver = false) :
    ∃ pool', Step p allows pool pool' := by
  obtain ⟨desk, ws⟩ := pool
  obtain ⟨worker, hmem, hnot⟩ := List.all_eq_false.1 h
  obtain ⟨i, hlt, hget⟩ := List.getElem_of_mem hmem
  have hworker : ws[i]? = some worker := by
    rw [List.getElem?_eq_getElem hlt, hget]
  suffices hstep : ∃ desk' worker', Worker.Step p allows desk worker desk' worker' by
    obtain ⟨desk', worker', hmove⟩ := hstep
    exact ⟨_, .move desk desk' ws i worker worker' hworker hmove⟩
  cases worker with
  | finished s => exact absurd rfl hnot
  | stopped => exact absurd rfl hnot
  | ready s =>
    cases hwaiting : desk.waiting with
    | nil => exact ⟨_, _, .leave desk s hwaiting⟩
    | cons part rest => exact ⟨_, _, .take desk s part rest hwaiting⟩
  | busy plan =>
    cases plan with
    | done s => exact ⟨_, _, .complete desk s⟩
    | consult next => exact ⟨_, _, .consult desk next desk.bestCost List.mem_cons_self⟩
    | announce cost next => exact ⟨_, _, .announce desk cost next⟩
    | expand next =>
      cases hallows : allows (desk.expansions + 1) with
      | true => exact ⟨_, _, .expand desk next hallows⟩
      | false => exact ⟨_, _, .overrun desk next hallows⟩

/-- Every schedule can be carried to its end, and what all steps keep holds there. -/
theorem Reachable.exists_isOver {pool : Pool} (hpool : Reachable p workers allows pool)
    {kept : Pool → Prop} (hkept : kept pool)
    (hstep : ∀ before after, kept before → Step p allows before after → kept after) :
    ∃ last, Reachable p workers allows last ∧ last.isOver = true ∧ kept last := by
  induction pool using (wellFounded_step p allows).induction with
  | _ pool ih =>
    cases hover : pool.isOver with
    | true => exact ⟨pool, hpool, hover, hkept⟩
    | false =>
      obtain ⟨after, hafter⟩ : ∃ after, Step p allows pool after := exists_step hover
      exact ih after hafter (hpool.step hafter) (hstep pool after hkept hafter)

end Pool

end SchemaDelta.Assignment

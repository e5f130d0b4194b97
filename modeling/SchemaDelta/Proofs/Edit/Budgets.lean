import SchemaDelta.Proofs.Edit.Common
import SchemaDelta.Proofs.Edit.Schedules

/-!
What the budget decides. A single worker takes a fixed number of branches; with that many allowed
the script is the same whatever the budget, and with one less it is that of the anchors.
-/

namespace SchemaDelta

/-! ## Branches of a single worker -/

namespace Assignment.Problem

open Plan

variable {p : Problem} {best : List Choice} {result : Standing} {board : Board}

theorem moves_ne_nil {node : Node} (h : node.decided.length < p.olds.length) : p.moves node ≠ [] :=
  List.ne_nil_of_mem (mem_moves.2 ⟨.unmatched, unmatched_mem_openChoices.2 h, rfl⟩)

/-- To make a move is to take a branch. -/
theorem expansions_lt_of_run?_follow {β : Type} {allows : Nat → Bool}
    {visit : Node → Standing → (Standing → Plan β) → Plan β} {node : Node} {moves : List Move}
    {s : Standing} {next : Standing → Plan β} {board board' : Board} {result : β}
    (hmoves : moves ≠ [])
    (hrun : (follow visit node moves s next).run? allows board = some (result, board')) :
    board.expansions < board'.expansions := by
  cases moves with
  | nil => exact absurd rfl hmoves
  | cons move moves =>
    rw [follow, run?] at hrun
    split at hrun
    · exact Nat.lt_of_succ_le (expansions_le_of_run? hrun)
    · cases hrun

/-- A single worker takes no branch exactly if there is nothing to decide. -/
theorem expansions_eq_zero_iff (hbest : p.IsBest best)
    (hrun : (p.plan 1).run? (fun _ => true) ⟨0, p.start.cost⟩ = some (result, board)) :
    board.expansions = 0 ↔ p.olds = [] := by
  rw [plan, if_pos rfl, searchFrom, List.length_nil, Nat.sub_zero] at hrun
  rw [← List.length_eq_zero_iff]
  cases hlength : p.olds.length with
  | zero =>
    rw [hlength] at hrun
    cases hrun
    exact iff_of_true rfl rfl
  | succ left =>
    -- the root is not left, for the best assignment lies below it
    have hcost : p.cost best ≤ p.start.cost := Standing.cost_le_of_le (hbest.le p.isStanding_start)
    have hroot : p.isHopeless (p.nodeAt []) p.start.cost p.start = false :=
      not_isHopeless_of_isBest hbest (List.nil_append best).symm hcost p.isStanding_start
    rw [hlength, visit, run?, hroot, if_neg Bool.false_ne_true] at hrun
    have hopen : (p.nodeAt []).decided.length < p.olds.length := by
      rw [hlength]
      exact Nat.succ_pos left
    have hlt := expansions_lt_of_run?_follow (moves_ne_nil hopen) hrun
    exact iff_of_false (Nat.ne_of_gt hlt) (Nat.succ_ne_zero left)

/-- Where so many branches are allowed and no more, a single worker finds the best assignment if it
needs no more, and otherwise nothing. -/
theorem best?_eq_ite (hbest : p.IsBest best)
    (hrun : (p.plan 1).run? (fun _ => true) ⟨0, p.start.cost⟩ = some (result, board))
    (maxExpansions : Nat) (clock : Clock) :
    p.best? 1 (SearchBudget.allows ⟨maxExpansions, none⟩ clock) =
      if board.expansions ≤ maxExpansions then some best else none := by
  let allows := SearchBudget.allows ⟨maxExpansions, none⟩ clock
  have hallows : ∀ n, allows n = decide (n ≤ maxExpansions) :=
    SearchBudget.allows_of_timeLimit_eq_none rfl clock
  by_cases hempty : p.olds = []
  · have hzero := (expansions_eq_zero_iff hbest hrun).2 hempty
    have hnone : best = [] := List.length_eq_zero_iff.1 (by rw [hbest.1.1, hempty]; rfl)
    rw [best?, if_pos (List.isEmpty_iff.2 hempty), if_pos (by omega), hnone]
  · split
    · next hle =>
      have hfound : (p.plan 1).run? allows ⟨0, p.start.cost⟩ = some (result, board) :=
        run?_of_allowed hrun fun n _ hn => by
          rw [hallows, decide_eq_true_eq]
          exact Nat.le_trans hn hle
      have hsome : p.best? 1 allows = some result.assignment := by
        rw [best?, if_neg (by simpa using hempty), hfound]
        rfl
      rw [hsome, eq_of_best?_eq_some hbest hsome]
    · next hgt =>
      -- the last branch of all is refused
      have hlast : allows board.expansions = false := by
        rw [hallows, decide_eq_false_iff_not]
        exact hgt
      have hpos : 0 < board.expansions := Nat.lt_of_le_of_lt (Nat.zero_le _) (Nat.not_le.1 hgt)
      have hrefused : (p.plan 1).run? allows ⟨0, p.start.cost⟩ = none :=
        run?_of_not_allowed hrun hpos (Nat.le_refl _) hlast
      rw [best?, if_neg (by simpa using hempty), hrefused]
      rfl

end Assignment.Problem

/-! ## The script of the anchors -/

/-- Whether steps from one graph to another relate nothing but what is at one place in both, and
delete or insert everything else. -/
structure RelateAnchors (operations : List Edit) (old new : Graph) : Prop where
  deleteVertex_mem_iff : ∀ source, .deleteVertex source ∈ operations ↔
    ∃ v, old.vertex? source = some v ∧ v.place ∉ new.places
  insertVertex_mem_iff : ∀ target, .insertVertex target ∈ operations ↔
    ∃ w, new.vertex? target = some w ∧ w.place ∉ old.places
  changeVertex_mem : ∀ source target, .changeVertex source target ∈ operations →
    (source, target) ∈ (Matching.anchors old new).pairs
  changeEdge_mem : ∀ source target, .changeEdge source target ∈ operations →
    ∃ e e', old.edge? source = some e ∧ new.edge? target = some e' ∧
      (e.one, e'.one) ∈ (Matching.anchors old new).pairs ∧
      (e.two, e'.two) ∈ (Matching.anchors old new).pairs

theorem relateAnchors_operations (old new : Graph) :
    RelateAnchors ((Matching.anchors old new).operations old new) old new := by
  have hanchors := Matching.anchors_isCorrespondence old new
  obtain ⟨edges, hedges, hperm⟩ := hanchors.exists_operations_perm
  have haccount := (accountFor_stepsOf hanchors hedges).of_perm hperm
  refine ⟨fun source => haccount.deleteVertex_mem_iff_of_anchors,
    fun target => haccount.insertVertex_mem_iff_of_anchors, fun source target hmem => ?_,
    fun source target hmem => ?_⟩
  · exact ((haccount.changeVertex_mem_iff source target).1 hmem).1
  · obtain ⟨e, e', he, he', hone, htwo, -⟩ := haccount.changeEdge_related source target hmem
    exact ⟨e, e', he, he', hone, htwo⟩

/-! ## Budgets -/

/-- Something is searched exactly if there are vertices of one kind on both sides, neither of them
at a place of the other side. -/
theorem Unanchored.oldSearched_eq_nil_iff {old new : Graph} : oldSearched old new = [] ↔
    ¬ ∃ source target v w, old.vertex? source = some v ∧ new.vertex? target = some w ∧
      v.kind = w.kind ∧ v.place ∉ new.places ∧ w.place ∉ old.places := by
  rw [List.eq_nil_iff_forall_not_mem, ← not_exists, not_iff_not]
  refine exists_congr fun source => ?_
  rw [oldSearched, mem_searched_iff]
  constructor
  · rintro ⟨hfree, v, hv, target, w, hw, hfree', hkind⟩
    rw [Option.isSome_eq_false_iff, Option.isNone_iff_eq_none] at hfree hfree'
    exact ⟨target, v, w, hv, hw, hkind.symm, (Matching.anchors_image?_eq_none_iff hv).1 hfree,
      (Matching.anchors_preimage?_eq_none_iff hw).1 hfree'⟩
  · rintro ⟨target, v, w, hv, hw, hkind, hout, hout'⟩
    refine ⟨?_, v, hv, target, w, hw, ?_, hkind.symm⟩
    · rw [(Matching.anchors_image?_eq_none_iff hv).2 hout]
      rfl
    · rw [(Matching.anchors_preimage?_eq_none_iff hw).2 hout']
      rfl

open Assignment in
/-- A single worker with no limit of time needs the number of branches that its walk takes when all
are allowed, which is none exactly if no kind has vertices on both sides that are not anchored. With
so many branches or more, the script is one and the same and not approximate; with fewer, it is
approximate and that of the anchors. -/
theorem a_budget_suffices_or_leaves_the_anchors (old new : Graph) :
    ∃ best needed, (Unanchored.problem old new).IsBest best ∧
      (∃ standing board, (Walk.root (Unanchored.problem old new)).ComesTo
        (Unanchored.problem old new) (fun _ => true) (some (standing, board)) ∧
          board.expansions = needed) ∧
      (needed = 0 ↔ ¬ ∃ source target v w, old.vertex? source = some v ∧
        new.vertex? target = some w ∧ v.kind = w.kind ∧ v.place ∉ new.places ∧
          w.place ∉ old.places) ∧
      (∀ (additions removals : Bool) (maxExpansions : Nat) (clock : Clock),
        Script.between old new ⟨additions, removals, ⟨maxExpansions, none⟩, 1, Nat.one_pos⟩ clock =
          if needed ≤ maxExpansions then
            ⟨(Matching.ofAssignment old new best).operations old new, false⟩
          else ⟨(Matching.anchors old new).operations old new, true⟩) ∧
      RelateAnchors ((Matching.anchors old new).operations old new) old new := by
  let p := Unanchored.problem old new
  obtain ⟨best, hbest⟩ := p.exists_isBest
  obtain ⟨result, board, hrun⟩ := Plan.exists_run? (p.plan 1) ⟨0, p.start.cost⟩
  have hwalk := Walk.root_comesTo_iff.2 hrun.symm
  refine ⟨best, board.expansions, hbest, ⟨result, board, hwalk, rfl⟩, ?_,
    fun additions removals maxExpansions clock => ?_, relateAnchors_operations old new⟩
  · rw [Problem.expansions_eq_zero_iff hbest hrun, ← Unanchored.oldSearched_eq_nil_iff]
    exact List.map_eq_nil_iff
  · rw [Script.between_eq_ofFound, Problem.best?_eq_ite hbest hrun,
      apply_ite (Script.ofFound old new)]
    rfl

end SchemaDelta

import SchemaDelta.Assignment.Ledger
import SchemaDelta.Proofs.Assignment.Parts
import SchemaDelta.Edit.Unanchored

/-!
Ledgers say what the decisions in them say. As long as only open choices are made, the register has
for each new element the one old element that is assigned to it, a decision that is taken back leaves
no trace, and all that is looked up in the register is what is read off the decisions. So the bound
of a ledger does not fall with a decision, and it is never too high.
-/

namespace SchemaDelta.Assignment

namespace Ledger

variable {p : Problem} {ledger : Ledger} {choice : Choice} {bestCost workers : Nat}

/-! ## The register -/

/-- What holds of a ledger in which only open choices were made. -/
structure IsKept (p : Problem) (ledger : Ledger) : Prop where
  follows : p.Follows [] ledger.decided
  spent : ledger.spent = p.spending [] ledger.decided
  length : ledger.users.length = p.news.length
  user? : ∀ target, ledger.user? target = ledger.decided.idxOf? (.candidate target)

theorem isKept_blank (p : Problem) : IsKept p (blank p) where
  follows := Problem.follows_nil
  spent := rfl
  length := List.length_replicate
  user? target := by
    simp only [user?, blank, List.getElem?_replicate]
    split <;> rfl

theorem IsKept.isFree_eq (h : IsKept p ledger) (target : Nat) :
    ledger.isFree target = !Problem.isUsed ledger.decided target := by
  rw [Bool.eq_iff_iff, Bool.not_eq_true', ← Bool.not_eq_true, Problem.isUsed_iff]
  simp [isFree, h.user?]

/-- What an open choice assigns to is not in the register. -/
theorem IsKept.user?_eq_none (h : IsKept p ledger) {target position : Nat}
    (hchoice : .candidate target ∈ p.openChoices ledger.decided position) :
    ledger.user? target = none ∧ target < p.news.length := by
  obtain ⟨old, new, -, hnew, hopen⟩ := Problem.candidate_mem_openChoices.1 hchoice
  simp only [Problem.isOpen, Bool.and_eq_true] at hopen
  rw [← h.isFree_eq] at hopen
  exact ⟨by simpa [isFree] using hopen.1.2, (List.getElem?_eq_some_iff.1 hnew).1⟩

theorem idxOf?_concat (decided : List Choice) (choice other : Choice) :
    (decided ++ [choice]).idxOf? other =
      (decided.idxOf? other).or (if choice = other then some decided.length else none) := by
  unfold List.idxOf?
  rw [List.findIdx?_append]
  by_cases h : choice = other <;> simp [h]

theorem user?_push_candidate {target : Nat} (cost other : Nat) (h : target < ledger.users.length) :
    (ledger.push ⟨cost, .candidate target⟩).user? other =
      if target = other then some ledger.decided.length else ledger.user? other := by
  unfold user? push noted
  rw [List.getElem?_set]
  by_cases hsame : target = other
  · subst hsame
    simp [h]
  · simp [hsame]

theorem IsKept.push {cost : Nat} (h : IsKept p ledger)
    (hchoice : choice ∈ p.openChoices ledger.decided ledger.decided.length)
    (hcost : cost = p.choiceCost ledger.decided ledger.decided.length choice) :
    IsKept p (ledger.push ⟨cost, choice⟩) where
  follows := Problem.follows_concat h.follows hchoice
  spent := by
    simp [Ledger.push, Trail.push, Problem.spending_append, Problem.spending, h.spent, hcost]
  length := by
    cases choice with
    | unmatched => exact h.length
    | candidate target => simp [Ledger.push, noted, h.length]
  user? other := by
    have hdecided : (ledger.push ⟨cost, choice⟩).decided = ledger.decided ++ [choice] := rfl
    rw [hdecided, idxOf?_concat, ← h.user?]
    cases choice with
    | unmatched => simp [Ledger.push, noted, Ledger.user?]
    | candidate target =>
      obtain ⟨hfree, hlt⟩ := h.user?_eq_none hchoice
      rw [user?_push_candidate cost other (by rwa [h.length])]
      by_cases hsame : target = other
      · simp [← hsame, hfree]
      · simp [hsame]

/-- A decision that is taken back leaves no trace. -/
theorem IsKept.undo_push (h : IsKept p ledger) {cost position : Nat}
    (hchoice : choice ∈ p.openChoices ledger.decided position) :
    (ledger.push ⟨cost, choice⟩).undo = ledger := by
  have htrail : (ledger.push ⟨cost, choice⟩).undo.toTrail = ledger.toTrail :=
    Trail.undo_push _ _
  have husers : (ledger.push ⟨cost, choice⟩).undo.users = ledger.users := by
    have hlast : (ledger.push ⟨cost, choice⟩).decided.getLast? = some choice :=
      List.getLast?_concat
    simp only [undo, hlast]
    cases choice with
    | unmatched => rfl
    | candidate target =>
      have hfree := (h.user?_eq_none hchoice).1
      simp only [Ledger.push, noted, List.set_set]
      apply List.ext_getElem?
      intro other
      rw [List.getElem?_set]
      by_cases hsame : target = other
      · subst hsame
        rcases Option.join_eq_none_iff.1 hfree with hnone | hnone
        · rw [hnone]
          simp [List.getElem?_eq_none_iff.1 hnone]
        · rw [if_pos rfl, if_pos (List.getElem?_eq_some_iff.1 hnone).1, hnone]
      · simp [hsame]
  cases ledger
  simp_all [undo]

/-! ## What is looked up -/

theorem IsKept.preimage?_eq (h : IsKept p ledger) (position target : Nat) (role : Role) :
    ledger.preimage? position target role =
      Assignment.preimage? ledger.decided position target role := by
  cases role with
  | fixed => rfl
  | anchored source => rfl
  | searched other => rw [preimage?, Assignment.preimage?, h.user?]

theorem IsKept.matchedCost_eq (h : IsKept p ledger) (position target : Nat) (old new : Member) :
    ledger.matchedCost position target old new =
      Assignment.matchedCost ledger.decided position target old new := by
  have hpull : (fun tie : Tie => (ledger.preimage? position target tie.other).map
        fun other => { tie with other := other }) =
      Tie.pullback? ledger.decided position target := by
    funext tie
    rw [h.preimage?_eq]
    rfl
  rw [matchedCost, Assignment.matchedCost, hpull]

theorem IsKept.choiceCost_eq (h : IsKept p ledger) :
    ledger.choiceCost p = p.choiceCost ledger.decided := by
  funext position choice
  unfold choiceCost Problem.choiceCost
  cases p.olds[position]? with
  | none => rfl
  | some old =>
    cases choice with
    | unmatched => rfl
    | candidate target =>
      dsimp only
      cases p.news[target]? with
      | none => rfl
      | some new => exact h.matchedCost_eq position target old new

theorem IsKept.openChoices_eq (h : IsKept p ledger) :
    ledger.openChoices p = p.openChoices ledger.decided := by
  funext position
  unfold openChoices Problem.openChoices Problem.isOpen
  cases p.olds[position]? with
  | none => rfl
  | some old => simp only [h.isFree_eq]

theorem IsKept.moves_eq (h : IsKept p ledger) :
    ledger.moves p = p.moves (p.nodeAt ledger.decided) := by
  unfold moves Problem.moves
  rw [h.openChoices_eq, h.choiceCost_eq]
  rfl

theorem IsKept.bound_eq (h : IsKept p ledger) :
    ledger.bound p = p.bound (p.nodeAt ledger.decided) := by
  unfold bound Problem.bound Problem.remainder Problem.availableOfKind freeOfKind
  have hcheapest : ledger.cheapest p = p.cheapest ledger.decided := by
    funext position
    rw [cheapest, Problem.cheapest, h.openChoices_eq, h.choiceCost_eq]
  simp only [hcheapest, h.isFree_eq, h.spent, Problem.nodeAt]

theorem IsKept.leftoverCost_eq (h : IsKept p ledger) :
    ledger.leftoverCost p = p.leftoverCost ledger.decided := by
  have hinserted : ledger.isInserted = Problem.isInserted ledger.decided := by
    funext tie
    unfold isInserted Problem.isInserted
    cases tie.other with
    | fixed => rfl
    | anchored source => rfl
    | searched other => simp only [h.isFree_eq, Bool.not_not]
  unfold leftoverCost Problem.leftoverCost Problem.insertionCost
  simp only [h.isFree_eq, hinserted]
  congr 1
  apply List.map_congr_left
  rintro ⟨new, target⟩ -
  cases Problem.isUsed ledger.decided target <;> rfl

/-! ## Replays -/

theorem IsKept.after (h : IsKept p ledger)
    (hchoice : choice ∈ p.openChoices ledger.decided ledger.decided.length) :
    IsKept p (ledger.after p choice) :=
  h.push hchoice (by rw [h.choiceCost_eq])

theorem Reached.isKept (h : Reached p ledger) : IsKept p ledger := by
  induction h with
  | blank => exact isKept_blank p
  | after _ hchoice ih =>
    rw [ih.openChoices_eq] at hchoice
    exact ih.after hchoice

theorem decided_foldl_after (choices : List Choice) (ledger : Ledger) :
    (choices.foldl (Ledger.after p) ledger).decided = ledger.decided ++ choices := by
  induction choices generalizing ledger with
  | nil => simp
  | cons choice choices ih =>
    rw [List.foldl_cons, ih]
    simp [Ledger.after, Ledger.push, Trail.push]

theorem IsKept.foldl_after {choices : List Choice} (h : IsKept p ledger)
    (hchoices : p.Follows ledger.decided choices) : IsKept p (choices.foldl (Ledger.after p) ledger) := by
  induction choices generalizing ledger with
  | nil => exact h
  | cons choice choices ih => exact ih (h.after hchoices.1) hchoices.2

theorem decided_replay (p : Problem) (decided : List Choice) :
    (replay p decided).decided = decided :=
  decided_foldl_after decided (blank p)

theorem isKept_replay {decided : List Choice} (h : p.Follows [] decided) :
    IsKept p (replay p decided) :=
  (isKept_blank p).foldl_after h

theorem evaluate_eq {assignment : List Choice} (h : p.Follows [] assignment) :
    evaluate p assignment = p.cost assignment := by
  have hkept := isKept_replay h
  unfold evaluate Problem.cost
  rw [hkept.leftoverCost_eq, hkept.spent, decided_replay]

end Ledger

/-- The bound of a ledger is at most the cost of every feasible assignment that begins with its
decisions, and one more decision does not lower it; nor does it make any choice for an element that
is still undecided cheaper. -/
theorem bounds_never_fall_and_nothing_costs_less (old new : Graph) :
    let p := Unanchored.problem old new
    ∀ ledger, Ledger.Reached p ledger →
      ledger.bound p = p.bound (p.nodeAt ledger.decided) ∧
      (∀ assignment, p.IsFeasible assignment → ledger.decided <+: assignment →
        ledger.bound p ≤ Ledger.evaluate p assignment ∧
          Ledger.evaluate p assignment = p.cost assignment) ∧
      (∀ choice ∈ ledger.openChoices p ledger.decided.length,
        ledger.bound p ≤ (ledger.after p choice).bound p) ∧
      ∀ later, Ledger.Reached p later → ledger.decided <+: later.decided →
        ∀ position choice, later.decided.length ≤ position →
          ledger.choiceCost p position choice ≤ later.choiceCost p position choice := by
  intro p ledger hreached
  have hkept := hreached.isKept
  refine ⟨hkept.bound_eq, ?_, ?_, ?_⟩
  · rintro assignment ⟨hlength, hfollows⟩ ⟨rest, rfl⟩
    have hcost := Ledger.evaluate_eq hfollows
    refine ⟨?_, hcost⟩
    rw [hcost, hkept.bound_eq]
    exact Problem.bound_le_cost (Problem.follows_append.1 hfollows).2 (by simpa using hlength)
  · intro choice hchoice
    rw [hkept.openChoices_eq] at hchoice
    have hafter : (ledger.after p choice).decided = ledger.decided ++ [choice] := rfl
    rw [(hkept.after hchoice).bound_eq, hkept.bound_eq, hafter]
    exact Problem.bound_le_bound_concat hchoice
  · rintro later hlater ⟨more, hmore⟩ position choice hposition
    rw [hkept.choiceCost_eq, hlater.isKept.choiceCost_eq, ← hmore]
    apply p.choiceCost_le_append
    rwa [← hmore, List.length_append] at hposition

/-- A type is renamed that has a field. When it is decided, to give up the field costs its edge too,
and the bound has reached the cost of the only rename. -/
theorem bounds_never_fall_and_nothing_costs_less_than_a_renamed_type_with_a_field :
    let old : Graph := ⟨⟨[⟨.object, "Q", "Q", .empty⟩, ⟨.field, "a", "Q.a", .empty⟩],
      [⟨0, 1, Label.field⟩], by decide⟩, by decide, by decide⟩
    let new : Graph := ⟨⟨[⟨.object, "P", "P", .empty⟩, ⟨.field, "a", "P.a", .empty⟩],
      [⟨0, 1, Label.field⟩], by decide⟩, by decide, by decide⟩
    let p := Unanchored.problem old new
    let first := Ledger.blank p
    let second := first.after p (.candidate 0)
    Ledger.Reached p first ∧ Ledger.Reached p second ∧
      p.IsFeasible [.candidate 0, .candidate 1] ∧ first.bound p ≤ second.bound p ∧
      second.bound p ≤ Ledger.evaluate p [.candidate 0, .candidate 1] ∧
      first.choiceCost p 1 .unmatched ≤ second.choiceCost p 1 .unmatched := by
  intro old new p first second
  have hfirst : Ledger.Reached p first := .blank
  have hopen : Choice.candidate 0 ∈ first.openChoices p first.decided.length := by decide +kernel
  have hsecond : Ledger.Reached p second := hfirst.after hopen
  have hfeasible : p.IsFeasible [.candidate 0, .candidate 1] :=
    ⟨by decide +kernel, by decide +kernel, by decide +kernel, trivial⟩
  obtain ⟨-, -, hnever, hcheaper⟩ := bounds_never_fall_and_nothing_costs_less old new first hfirst
  obtain ⟨-, hless, -, -⟩ := bounds_never_fall_and_nothing_costs_less old new second hsecond
  exact ⟨hfirst, hsecond, hfeasible, hnever _ hopen, (hless _ hfeasible ⟨[.candidate 1], rfl⟩).1,
    hcheaper second hsecond ⟨[.candidate 0], rfl⟩ 1 .unmatched (Nat.le_refl 1)⟩

end SchemaDelta.Assignment

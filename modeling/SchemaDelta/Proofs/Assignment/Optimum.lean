import SchemaDelta.Assignment.Sharing
import SchemaDelta.Proofs.Assignment.Admissible
import SchemaDelta.Proofs.Assignment.Conduct
import SchemaDelta.Proofs.Assignment.Standing
import SchemaDelta.Proofs.Ordering

/-!
The search finds the best of all feasible assignments. There is one and only one, by going through
all of them; and a worker that searches below a node where it lies ends with it, whatever best cost
it is told, as long as no feasible assignment costs less than the best.
-/

namespace SchemaDelta.Assignment.Problem

variable {p : Problem} {decided : List Choice}

/-! ## The best assignment -/

/-- An assignment with what it costs. -/
def standing (p : Problem) (assignment : List Choice) : Standing :=
  ⟨p.cost assignment, assignment⟩

/-- A feasible assignment that is the smallest by cost and, among equally cheap ones, by the order
of its choices. -/
def IsBest (p : Problem) (best : List Choice) : Prop :=
  p.IsFeasible best ∧ ∀ assignment, p.IsFeasible assignment → p.standing best ≤ p.standing assignment

/-- All assignments that begin with some decisions and make open choices for so many more elements.
-/
def completions (p : Problem) : Nat → List Choice → List (List Choice)
  | 0, decided => [decided]
  | left + 1, decided =>
    (p.openChoices decided decided.length).flatMap fun choice =>
      p.completions left (decided ++ [choice])

theorem mem_completions {left : Nat} {assignment : List Choice} :
    assignment ∈ p.completions left decided ↔
      ∃ rest, rest.length = left ∧ p.Follows decided rest ∧ assignment = decided ++ rest := by
  induction left generalizing decided with
  | zero =>
    simp only [completions, List.mem_singleton]
    constructor
    · rintro rfl
      exact ⟨[], rfl, trivial, (List.append_nil _).symm⟩
    · rintro ⟨rest, hlength, -, rfl⟩
      rw [List.eq_nil_of_length_eq_zero hlength, List.append_nil]
  | succ left ih =>
    simp only [completions, List.mem_flatMap, ih]
    constructor
    · rintro ⟨choice, hchoice, rest, rfl, hfollows, rfl⟩
      exact ⟨choice :: rest, rfl, ⟨hchoice, hfollows⟩, by simp⟩
    · rintro ⟨rest, hlength, hfollows, rfl⟩
      cases rest with
      | nil => cases hlength
      | cons choice rest =>
        exact ⟨choice, hfollows.1, rest, Nat.succ.inj hlength, hfollows.2, by simp⟩

theorem mem_completions_nil {assignment : List Choice} :
    assignment ∈ p.completions p.olds.length [] ↔ p.IsFeasible assignment := by
  rw [mem_completions]
  constructor
  · rintro ⟨rest, hlength, hfollows, rfl⟩
    exact ⟨hlength, hfollows⟩
  · rintro ⟨hlength, hfollows⟩
    exact ⟨assignment, hlength, hfollows, rfl⟩

theorem exists_isBest (p : Problem) : ∃ best, p.IsBest best := by
  let all := (p.completions p.olds.length []).map p.standing
  have hstart : p.IsFeasible p.start.assignment := isFeasible_replicate_unmatched p
  -- comparing begins with the start, which is itself one of all assignments
  have hmem : all.foldl Standing.improvedBy p.start ∈ all := by
    rcases List.mem_cons.1 (Standing.foldl_improvedBy_mem p.start all) with h | h
    · rw [h]
      exact List.mem_map.2 ⟨p.start.assignment, mem_completions_nil.2 hstart, rfl⟩
    · exact h
  obtain ⟨best, hbest, hleast⟩ := List.mem_map.1 hmem
  refine ⟨best, mem_completions_nil.1 hbest, fun assignment hassignment => ?_⟩
  rw [hleast]
  exact Standing.foldl_improvedBy_le
    (List.mem_cons_of_mem _ (List.mem_map_of_mem (mem_completions_nil.2 hassignment)))

theorem IsBest.eq {best other : List Choice} (h : p.IsBest best) (hother : p.IsBest other) :
    best = other :=
  congrArg Standing.assignment (Standing.le_antisymm (h.2 other hother.1) (hother.2 best h.1))

/-! ## The search below a node -/

/-- A standing that a worker can have: a feasible assignment with its cost. -/
def IsStanding (p : Problem) (s : Standing) : Prop :=
  p.IsFeasible s.assignment ∧ s = p.standing s.assignment

theorem isStanding_start (p : Problem) : p.IsStanding p.start :=
  ⟨isFeasible_replicate_unmatched p, rfl⟩

theorem IsStanding.improvedBy {a b : Standing} (ha : p.IsStanding a) (hb : p.IsStanding b) :
    p.IsStanding (a.improvedBy b) := by
  rcases Standing.improvedBy_eq_or a b with h | h <;> rw [h] <;> assumption

theorem IsBest.le {best : List Choice} (h : p.IsBest best) {s : Standing} (hs : p.IsStanding s) :
    p.standing best ≤ s := by
  rw [hs.2]
  exact h.2 _ hs.1

/-- What is searched for is never below a node that is left. -/
theorem not_isHopeless_of_isBest {best rest : List Choice} (hbest : p.IsBest best)
    (hsplit : best = decided ++ rest) {bestCost : Nat} (hcost : p.cost best ≤ bestCost)
    {s : Standing} (hs : p.IsStanding s) :
    p.isHopeless (p.nodeAt decided) bestCost s = false := by
  have hfollows := hbest.1.2
  rw [hsplit, follows_append] at hfollows
  have hlength : decided.length + rest.length = p.olds.length := by
    rw [← List.length_append, ← hsplit]
    exact hbest.1.1
  have hbound := bound_le_cost hfollows.2 hlength
  rw [List.nil_append, ← hsplit] at hbound
  have hle := hbest.le hs
  have hs_cost : p.cost best ≤ s.cost := Standing.cost_le_of_le hle
  have hs_length : s.assignment.length = p.olds.length := hs.1.1
  rw [Bool.eq_false_iff]
  intro hhopeless
  simp only [isHopeless, Bool.or_eq_true, Bool.and_eq_true, decide_eq_true_eq, beq_iff_eq]
    at hhopeless
  rcases hhopeless with (h | h) | ⟨heq, hlater⟩
  · omega
  · omega
  · -- both cost the same, and then the better one does not begin later
    rcases Standing.le_iff.1 hle with h | ⟨-, h⟩
    · simp only [standing] at h
      omega
    · have hbehind : ¬ (Ord.compare (decided ++ rest) s.assignment).isLE :=
        Standing.not_le_of_take_gt (by omega) hlater
      exact hbehind (by simpa only [standing, ← hsplit] using h)

/-- A standing that comes of a search: no worse than the one before, and the best there is if the
search has `met` it. -/
structure Finds (p : Problem) (best : List Choice) (met : Prop) (s better : Standing) : Prop where
  isStanding : p.IsStanding better
  le : better ≤ s
  eq_of_met : met → better = p.standing best

/-- A part of a plan that goes on with what it finds, if it is told no cost below the best. -/
def Searches {β : Type} (p : Problem) (best : List Choice) (met : Prop)
    (part : Standing → (Standing → Plan β) → Plan β) : Prop :=
  ∀ (good : β → Prop) (s : Standing) (next : Standing → Plan β), p.IsStanding s →
    (∀ better, p.Finds best met s better → (next better).Upholds (p.cost best ≤ ·) good) →
    (part s next).Upholds (p.cost best ≤ ·) good

variable {β : Type} {best : List Choice} {met met' : Prop}
  {part part' : Standing → (Standing → Plan β) → Plan β}

theorem searches_skip (hmet : ¬ met) : p.Searches best met fun s next => (next s : Plan β) :=
  fun _ s _ hs hnext => hnext s ⟨hs, Standing.le_refl s, fun h => absurd h hmet⟩

/-- What has been found is not lost by searching on. -/
theorem Searches.andThen (hbest : p.IsBest best) (h : p.Searches best met part)
    (h' : p.Searches best met' part') :
    p.Searches best (met ∨ met') fun s next => part s fun better => part' better next := by
  intro good s next hs hnext
  refine h good s _ hs fun better hbetter => h' good better next hbetter.isStanding ?_
  intro last hlast
  -- if the first part has met the best, the second can only hand it on
  refine hnext last ⟨hlast.isStanding, Standing.le_trans hlast.le hbetter.le, ?_⟩
  rintro (hmet | hmet)
  · refine Standing.le_antisymm ?_ (hbest.le hlast.isStanding)
    rw [← hbetter.eq_of_met hmet]
    exact hlast.le
  · exact hlast.eq_of_met hmet

theorem Searches.congr (h : p.Searches best met part) (hmet : met' → met) :
    p.Searches best met' part :=
  fun good s next hs hnext => h good s next hs fun better hbetter =>
    hnext better ⟨hbetter.isStanding, hbetter.le, fun hm => hbetter.eq_of_met (hmet hm)⟩

theorem mem_moves {move : Move} :
    move ∈ p.moves (p.nodeAt decided) ↔
      ∃ choice ∈ p.openChoices decided decided.length,
        move = ⟨p.choiceCost decided decided.length choice, choice⟩ := by
  unfold moves
  rw [(sortBy_perm _ _).mem_iff, List.mem_map]
  simp only [nodeAt, eq_comm]

theorem follow_searches (hbest : p.IsBest best) {left : Nat} {moves : List Move}
    (hmoves : ∀ move ∈ moves, move ∈ p.moves (p.nodeAt decided))
    (hvisit : ∀ choice ∈ p.openChoices decided decided.length,
      p.Searches best (decided ++ [choice] <+: best)
        (p.visit (β := β) left (p.nodeAt (decided ++ [choice])))) :
    p.Searches best (∃ move ∈ moves, decided ++ [move.choice] <+: best)
      (follow (p.visit (β := β) left) (p.nodeAt decided) moves) := by
  induction moves with
  | nil => exact searches_skip (by simp)
  | cons move moves ih =>
    obtain ⟨choice, hchoice, rfl⟩ := mem_moves.1 (hmoves move List.mem_cons_self)
    have hrest := ih fun other hother => hmoves other (List.mem_cons_of_mem _ hother)
    have hboth := (hvisit choice hchoice).andThen hbest hrest
    intro good s next hs hnext
    rw [follow, nodeAt_after]
    refine hboth.congr ?_ good s next hs hnext
    rintro ⟨other, hother, hbegins⟩
    rcases List.mem_cons.1 hother with rfl | hother
    · exact Or.inl hbegins
    · exact Or.inr ⟨other, hother, hbegins⟩

/-- The search below a node finds the best assignment if it lies there. -/
theorem visit_searches (hbest : p.IsBest best) {left : Nat} (hfollows : p.Follows [] decided)
    (hleft : decided.length + left = p.olds.length) :
    p.Searches best (decided <+: best) (p.visit (β := β) left (p.nodeAt decided)) := by
  induction left generalizing decided with
  | zero =>
    intro good s next hs hnext
    have hfeasible : p.IsFeasible decided := ⟨hleft, hfollows⟩
    have houtcome : p.IsStanding (p.outcome (p.nodeAt decided)) := ⟨hfeasible, rfl⟩
    -- the cost that is announced belongs to a feasible assignment
    refine ⟨Standing.cost_le_of_le (hbest.le houtcome), hnext _ ⟨hs.improvedBy houtcome,
      Standing.improvedBy_le_left _ _, fun hbegins => ?_⟩⟩
    have hdecided : decided = best := hbegins.eq_of_length (hleft.trans hbest.1.1.symm)
    refine Standing.le_antisymm ?_ (hbest.le (hs.improvedBy houtcome))
    rw [← hdecided]
    exact Standing.improvedBy_le_right _ _
  | succ left ih =>
    intro good s next hs hnext cost hcost
    dsimp only
    cases hhopeless : p.isHopeless (p.nodeAt decided) cost s with
    | true =>
      -- nothing is lost, because a node above the best assignment is never left
      rw [if_pos rfl]
      refine hnext s ⟨hs, Standing.le_refl s, ?_⟩
      rintro ⟨rest, hrest⟩
      rw [not_isHopeless_of_isBest hbest hrest.symm hcost hs] at hhopeless
      cases hhopeless
    | false =>
      rw [if_neg Bool.false_ne_true]
      have hvisit : ∀ choice ∈ p.openChoices decided decided.length,
          p.Searches best (decided ++ [choice] <+: best)
            (p.visit (β := β) left (p.nodeAt (decided ++ [choice]))) :=
        fun choice hchoice => ih (follows_concat hfollows hchoice) (by simp; omega)
      refine (follow_searches hbest (fun _ hmove => hmove) hvisit).congr ?_ good s next hs hnext
      rintro ⟨rest, rfl⟩
      -- the next choice of the best assignment is open, so one of the moves makes it
      cases rest with
      | nil =>
        have := hbest.1.1
        simp at this
        omega
      | cons choice rest =>
        have hopen := (follows_append.1 hbest.1.2).2.1
        exact ⟨_, mem_moves.2 ⟨choice, hopen, rfl⟩, rest, by simp⟩

theorem searchFrom_searches (hbest : p.IsBest best) (hfollows : p.Follows [] decided) :
    p.Searches best (decided <+: best) (p.searchFrom (β := β) decided) := by
  have hle := length_le_of_follows hfollows
  exact visit_searches hbest hfollows (by omega)

theorem searchAll_searches (hbest : p.IsBest best) {parts : List (List Choice)}
    (hparts : ∀ part ∈ parts, p.Follows [] part) :
    p.Searches best (∃ part ∈ parts, part <+: best) (p.searchAll (β := β) parts) := by
  induction parts with
  | nil => exact searches_skip (by simp)
  | cons part parts ih =>
    have hrest := ih fun other hother => hparts other (List.mem_cons_of_mem _ hother)
    have hboth := (searchFrom_searches hbest (hparts part List.mem_cons_self)).andThen hbest hrest
    refine hboth.congr ?_
    rintro ⟨other, hother, hbegins⟩
    rcases List.mem_cons.1 hother with rfl | hother
    · exact Or.inl hbegins
    · exact Or.inr ⟨other, hother, hbegins⟩

end SchemaDelta.Assignment.Problem

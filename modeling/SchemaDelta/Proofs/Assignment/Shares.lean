import SchemaDelta.Proofs.Assignment.Ledgers

/-!
What the parts of a search share out. They are beginnings of one length, no two of them alike, so a
complete assignment begins with one part at most; and if it is cheap enough it begins with one,
because no beginning of it is above the bound. A ledger that makes every move from a beginning and
takes it back finds the same parts.
-/

namespace SchemaDelta.Assignment

variable {p : Problem} {bestCost workers : Nat}

/-! ## Parts that differ -/

namespace Problem

theorem nodup_openChoices (p : Problem) (decided : List Choice) (position : Nat) :
    (p.openChoices decided position).Nodup := by
  unfold openChoices
  split
  · exact .nil
  · next old _ =>
    have hpositions : p.news.zipIdx.Pairwise fun a b => a.2 ≠ b.2 := by
      apply List.pairwise_map.1
      rw [List.zipIdx_map_snd]
      exact List.nodup_range'
    rw [List.nodup_append]
    refine ⟨?_, List.nodup_singleton _, ?_⟩
    · apply List.pairwise_filterMap.2
      apply hpositions.imp
      intro a b hne choice hchoice other hother
      simp only [Option.ite_none_right_eq_some, Option.some.injEq] at hchoice hother
      rw [← hchoice.2, ← hother.2]
      simpa using hne
    · rintro choice hchoice other hother rfl
      rw [List.mem_singleton.1 hother] at hchoice
      simp at hchoice

theorem nodup_moves (p : Problem) (node : Node) : ((p.moves node).map Move.choice).Nodup := by
  have hchoices : ((p.moves node).map Move.choice).Perm
      (p.openChoices node.decided node.decided.length) := by
    have hsorted := (sortBy_perm Move.compare ((p.openChoices node.decided node.decided.length).map
      fun choice => ⟨p.choiceCost node.decided node.decided.length choice, choice⟩)).map Move.choice
    unfold moves
    simpa [Function.comp_def] using hsorted
  exact hchoices.nodup_iff.2 (p.nodup_openChoices _ _)

theorem nodup_extensions (p : Problem) (bestCost : Nat) (decided : List Choice) :
    (p.extensions bestCost decided).Nodup := by
  unfold extensions
  apply List.pairwise_filterMap.2
  apply List.pairwise_map.2
  apply (List.pairwise_map.1 (p.nodup_moves (p.nodeAt decided))).imp
  intro a b hne part hpart other hother
  simp only [Option.ite_none_right_eq_some, Option.some.injEq] at hpart hother
  rw [← hpart.2, ← hother.2]
  simpa [Node.after] using hne

/-- What a part was extended from can be told by it. -/
theorem eq_of_mem_extensions {decided other part : List Choice}
    (h : part ∈ p.extensions bestCost decided) (hother : part ∈ p.extensions bestCost other) :
    decided = other := by
  obtain ⟨choice, -, -, rfl⟩ := mem_extensions.1 h
  obtain ⟨choice', -, -, hsame⟩ := mem_extensions.1 hother
  exact (List.append_inj' hsame rfl).1

theorem nodup_partsWithin {steps : Nat} {parts : List (List Choice)} (h : parts.Nodup) :
    (p.partsWithin workers bestCost steps parts).Nodup := by
  induction steps generalizing parts with
  | zero => exact h
  | succ steps ih =>
    rw [partsWithin]
    split
    · exact h
    · apply ih
      rw [List.nodup_flatMap]
      refine ⟨fun decided _ => p.nodup_extensions bestCost decided, h.imp ?_⟩
      intro decided other hne part hpart hpart'
      exact hne (eq_of_mem_extensions hpart hpart')

/-! ## Parts of one length -/

theorem length_of_mem_extensions {decided part : List Choice}
    (h : part ∈ p.extensions bestCost decided) : part.length = decided.length + 1 := by
  obtain ⟨choice, -, -, rfl⟩ := mem_extensions.1 h
  exact List.length_append

theorem exists_length_partsWithin {steps length : Nat} {parts : List (List Choice)}
    (h : ∀ part ∈ parts, part.length = length) :
    ∃ length, ∀ part ∈ p.partsWithin workers bestCost steps parts, part.length = length := by
  induction steps generalizing parts length with
  | zero => exact ⟨length, h⟩
  | succ steps ih =>
    rw [partsWithin]
    split
    · exact ⟨length, h⟩
    · have hlonger : ∀ part ∈ parts.flatMap (p.extensions bestCost), part.length = length + 1 := by
        intro part hpart
        obtain ⟨decided, hdecided, hext⟩ := List.mem_flatMap.1 hpart
        rw [length_of_mem_extensions hext, h decided hdecided]
      exact ih hlonger

end Problem

/-! ## Parts found on a ledger -/

namespace Ledger

variable {ledger : Ledger}

/-- Every move is taken back before the next one is made, so each is looked at from the same ledger. -/
theorem IsKept.foldl_probe (h : IsKept p ledger) (bestCost : Nat) {moves : List Move}
    (hmoves : ∀ move ∈ moves, move ∈ p.moves (p.nodeAt ledger.decided))
    (found : List (List Choice)) :
    moves.foldl (probe p bestCost ledger.decided) (found, ledger) =
      (found ++ (moves.map (p.nodeAt ledger.decided).after).filterMap fun node =>
        if p.bound node ≤ bestCost then some node.decided else none, ledger) := by
  induction moves generalizing found with
  | nil => simp
  | cons move moves ih =>
    obtain ⟨choice, hchoice, rfl⟩ := Problem.mem_moves.1 (hmoves move List.mem_cons_self)
    have hrest := ih fun other hother => hmoves other (List.mem_cons_of_mem _ hother)
    have hpushed := (h.push hchoice rfl).bound_eq
    have hdecided (cost : Nat) :
        (ledger.push ⟨cost, choice⟩).decided = ledger.decided ++ [choice] := rfl
    simp only [List.foldl_cons, probe, h.undo_push hchoice, hpushed, hdecided, hrest, List.map_cons,
      Problem.nodeAt_after, List.filterMap_cons]
    by_cases hbound : p.bound (p.nodeAt (ledger.decided ++ [choice])) ≤ bestCost
    · simp only [if_pos hbound, List.append_assoc]
      rfl
    · simp only [if_neg hbound]

theorem extensions_eq {begun : List Choice} (h : p.Follows [] begun) :
    extensions p bestCost begun = p.extensions bestCost begun := by
  have hkept := isKept_replay h
  have hdecided := decided_replay p begun
  have hprobed : (p.moves (p.nodeAt begun)).foldl (probe p bestCost begun) ([], replay p begun) =
      (p.extensions bestCost begun, replay p begun) := by
    have hall := hkept.foldl_probe bestCost (fun _ hmove => hmove) []
    rwa [hdecided] at hall
  rw [extensions, hkept.moves_eq, hdecided, hprobed]

theorem partsWithin_eq {steps : Nat} {parts : List (List Choice)}
    (h : ∀ part ∈ parts, p.Follows [] part) :
    partsWithin p workers bestCost steps parts = p.partsWithin workers bestCost steps parts := by
  induction steps generalizing parts with
  | zero => rfl
  | succ steps ih =>
    have hlevel : parts.flatMap (extensions p bestCost) =
        parts.flatMap (p.extensions bestCost) := by
      apply List.flatMap_congr
      intro part hpart
      exact extensions_eq (h part hpart)
    rw [partsWithin, Problem.partsWithin, hlevel]
    split
    · rfl
    · apply ih
      intro part hpart
      obtain ⟨decided, hdecided, hext⟩ := List.mem_flatMap.1 hpart
      exact Problem.follows_of_mem_extensions (h decided hdecided) hext

theorem parts_eq (p : Problem) (workers bestCost : Nat) :
    parts p workers bestCost = p.parts workers bestCost := by
  apply partsWithin_eq
  intro part hpart
  rw [List.mem_singleton.1 hpart]
  exact Problem.follows_nil

end Ledger

/-- However many workers there are and whatever the best cost so far, the parts into which a search
is shared out are beginnings of one length, no two of them alike, of feasible assignments, and every
feasible assignment that costs no more begins with exactly one of them. They are found on ledgers. -/
theorem every_cheap_assignment_begins_with_exactly_one_part (old new : Graph)
    (workers bestCost : Nat) :
    let p := Unanchored.problem old new
    let parts := p.parts workers bestCost
    Ledger.parts p workers bestCost = parts ∧
      (∃ length, ∀ part ∈ parts, part.length = length) ∧ parts.Nodup ∧
      (∀ part ∈ parts, ∃ rest, p.IsFeasible (part ++ rest)) ∧
      ∀ assignment, p.IsFeasible assignment → Ledger.evaluate p assignment ≤ bestCost →
        ∃! part, part ∈ parts ∧ part <+: assignment := by
  intro p parts
  have hroot : ∀ part ∈ [([] : List Choice)], part.length = 0 := by simp
  obtain ⟨length, hlength⟩ : ∃ length, ∀ part ∈ parts, part.length = length :=
    Problem.exists_length_partsWithin hroot
  refine ⟨Ledger.parts_eq p workers bestCost, ⟨length, hlength⟩, ?_, ?_, ?_⟩
  · exact Problem.nodup_partsWithin (List.nodup_singleton _)
  · intro part hpart
    exact Problem.exists_isFeasible_append (Problem.follows_of_mem_parts part hpart)
  · intro assignment hassignment hcost
    rw [Ledger.evaluate_eq hassignment.2] at hcost
    obtain ⟨part, hpart, hbegins⟩ : ∃ part ∈ parts, part <+: assignment :=
      Problem.exists_mem_parts hassignment hcost
    refine ⟨part, ⟨hpart, hbegins⟩, ?_⟩
    rintro other ⟨hother, hother'⟩
    have hsame : other.length = part.length :=
      (hlength other hother).trans (hlength part hpart).symm
    exact (List.prefix_of_prefix_length_le hother' hbegins hsame.le).eq_of_length hsame

/-- Two workers share out the search between a type with a field and a renamed one, told no more
than what it costs to match nothing. -/
theorem every_cheap_assignment_begins_with_exactly_one_part_of_a_renamed_type_with_a_field :
    let old : Graph := ⟨⟨[⟨.object, "Q", "Q", .empty⟩, ⟨.field, "a", "Q.a", .empty⟩],
      [⟨0, 1, Label.field⟩], by decide⟩, by decide, by decide⟩
    let new : Graph := ⟨⟨[⟨.object, "P", "P", .empty⟩, ⟨.field, "a", "P.a", .empty⟩],
      [⟨0, 1, Label.field⟩], by decide⟩, by decide, by decide⟩
    let p := Unanchored.problem old new
    let assignment : List Choice := [.candidate 0, .candidate 1]
    p.IsFeasible assignment ∧ Ledger.evaluate p assignment ≤ p.start.cost ∧
      ∃! part, part ∈ p.parts 2 p.start.cost ∧ part <+: assignment := by
  intro old new p assignment
  have hfeasible : p.IsFeasible assignment :=
    ⟨by decide +kernel, by decide +kernel, by decide +kernel, trivial⟩
  have hcost : Ledger.evaluate p assignment ≤ p.start.cost := by decide +kernel
  obtain ⟨-, -, -, -, hone⟩ :=
    every_cheap_assignment_begins_with_exactly_one_part old new 2 p.start.cost
  exact ⟨hfeasible, hcost, hone assignment hfeasible hcost⟩

end SchemaDelta.Assignment

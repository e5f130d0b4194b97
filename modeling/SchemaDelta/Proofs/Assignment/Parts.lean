import SchemaDelta.Proofs.Assignment.Optimum

/-!
The parts of a search that is shared out. Each begins an assignment by open choices, and none of the
assignments that cost at most the shared best cost is lost.
-/

namespace SchemaDelta.Assignment.Problem

variable {p : Problem} {workers bestCost : Nat}

theorem mem_extensions {decided part : List Choice} :
    part ∈ p.extensions bestCost decided ↔
      ∃ choice ∈ p.openChoices decided decided.length,
        p.bound (p.nodeAt (decided ++ [choice])) ≤ bestCost ∧ part = decided ++ [choice] := by
  simp only [extensions, List.mem_filterMap, List.mem_map, Option.ite_none_right_eq_some,
    Option.some.injEq]
  constructor
  · rintro ⟨_, ⟨move, hmove, rfl⟩, hbound, rfl⟩
    obtain ⟨choice, hchoice, rfl⟩ := mem_moves.1 hmove
    rw [nodeAt_after] at hbound ⊢
    exact ⟨choice, hchoice, hbound, rfl⟩
  · rintro ⟨choice, hchoice, hbound, rfl⟩
    refine ⟨p.nodeAt (decided ++ [choice]), ⟨_, mem_moves.2 ⟨choice, hchoice, rfl⟩, ?_⟩, hbound, rfl⟩
    exact nodeAt_after p decided choice

theorem follows_of_mem_extensions {decided part : List Choice} (h : p.Follows [] decided)
    (hpart : part ∈ p.extensions bestCost decided) : p.Follows [] part := by
  obtain ⟨choice, hchoice, -, rfl⟩ := mem_extensions.1 hpart
  exact follows_concat h hchoice

theorem follows_of_mem_partsWithin {steps : Nat} {parts : List (List Choice)}
    (h : ∀ part ∈ parts, p.Follows [] part) :
    ∀ part ∈ p.partsWithin workers bestCost steps parts, p.Follows [] part := by
  induction steps generalizing parts with
  | zero => exact h
  | succ steps ih =>
    rw [partsWithin]
    split
    · exact h
    · apply ih
      intro part hpart
      obtain ⟨decided, hdecided, hext⟩ := List.mem_flatMap.1 hpart
      exact follows_of_mem_extensions (h decided hdecided) hext

theorem follows_of_mem_parts : ∀ part ∈ p.parts workers bestCost, p.Follows [] part := by
  apply follows_of_mem_partsWithin
  intro part hpart
  rw [List.mem_singleton.1 hpart]
  exact follows_nil

/-- One more decision does not lose an assignment that is cheap enough. -/
theorem exists_mem_extensions {decided assignment : List Choice} (h : p.IsFeasible assignment)
    (hcost : p.cost assignment ≤ bestCost) (hbegins : decided <+: assignment)
    (hlength : decided.length < assignment.length) :
    ∃ part ∈ p.extensions bestCost decided, part <+: assignment ∧
      part.length = decided.length + 1 := by
  obtain ⟨rest, rfl⟩ := hbegins
  cases rest with
  | nil => simp at hlength
  | cons choice rest =>
    have hrest := (follows_append.1 h.2).2
    have hbound : p.bound (p.nodeAt (decided ++ [choice])) ≤ p.cost (decided ++ choice :: rest) := by
      have hbelow : p.bound (p.nodeAt (decided ++ [choice])) ≤ p.cost (decided ++ [choice] ++ rest) :=
        bound_le_cost hrest.2 (by simpa [Nat.add_assoc, Nat.add_comm 1] using h.1)
      simpa using hbelow
    exact ⟨decided ++ [choice], mem_extensions.2 ⟨choice, hrest.1, hbound.trans hcost, rfl⟩,
      ⟨rest, by simp⟩, by simp⟩

theorem exists_mem_partsWithin {steps : Nat} {parts : List (List Choice)} {assignment : List Choice}
    (h : p.IsFeasible assignment) (hcost : p.cost assignment ≤ bestCost)
    (hparts : ∃ part ∈ parts, part <+: assignment ∧ part.length + steps ≤ assignment.length) :
    ∃ part ∈ p.partsWithin workers bestCost steps parts, part <+: assignment := by
  induction steps generalizing parts with
  | zero =>
    obtain ⟨part, hpart, hbegins, -⟩ := hparts
    exact ⟨part, hpart, hbegins⟩
  | succ steps ih =>
    obtain ⟨part, hpart, hbegins, hlength⟩ := hparts
    rw [partsWithin]
    split
    · exact ⟨part, hpart, hbegins⟩
    · -- the part that the assignment begins with is extended by its next choice
      obtain ⟨longer, hlonger, hbegins', hlength'⟩ :=
        exists_mem_extensions h hcost hbegins (by omega)
      exact ih ⟨longer, List.mem_flatMap.2 ⟨part, hpart, hlonger⟩, hbegins', by omega⟩

/-- Every feasible assignment that costs at most the shared best cost begins with a part. -/
theorem exists_mem_parts {assignment : List Choice} (h : p.IsFeasible assignment)
    (hcost : p.cost assignment ≤ bestCost) :
    ∃ part ∈ p.parts workers bestCost, part <+: assignment := by
  refine exists_mem_partsWithin h hcost
    ⟨[], List.mem_singleton_self [], List.nil_prefix, ?_⟩
  have hlength := h.1
  simp only [List.length_nil]
  omega

/-- The plan of the whole search, shared out or not, ends with the best assignment. -/
theorem plan_upholds {best : List Choice} (hbest : p.IsBest best) :
    (p.plan workers).Upholds (p.cost best ≤ ·) (· = p.standing best) := by
  unfold plan
  split
  · apply searchFrom_searches hbest follows_nil _ _ _ p.isStanding_start
    intro better hbetter
    exact hbetter.eq_of_met List.nil_prefix
  · refine searchAll_searches hbest follows_of_mem_parts _ _ _ p.isStanding_start
      fun better hbetter => ?_
    exact hbetter.eq_of_met
      (exists_mem_parts hbest.1 (Standing.cost_le_of_le (hbest.le p.isStanding_start)))

end SchemaDelta.Assignment.Problem

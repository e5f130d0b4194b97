import SchemaDelta.Assignment.Bound

/-!
Open choices, and assignments that make only open choices. A choice that is open after some
decisions was open before them. A feasible assignment uses no new element twice, and each old
element is assigned to one of its kind.
-/

namespace SchemaDelta.Assignment.Problem

variable {p : Problem} {decided more : List Choice}

/-! ## Open choices -/

theorem isUsed_append (decided more : List Choice) (target : Nat) :
    isUsed (decided ++ more) target = (isUsed decided target || isUsed more target) := by
  simp [isUsed]

theorem isUsed_iff {target : Nat} :
    isUsed decided target = true ↔ .candidate target ∈ decided := by
  simp [isUsed]

theorem ownersAgree_of_append {oldOwner newOwner : Option Role}
    (h : ownersAgree (decided ++ more) oldOwner newOwner = true) :
    ownersAgree decided oldOwner newOwner = true := by
  rcases oldOwner with _ | _ | source | position
  · cases newOwner <;> exact h
  · cases newOwner <;> exact h
  · cases newOwner <;> exact h
  · cases newOwner with
    | none => exact h
    | some owner =>
      rcases Nat.lt_or_ge position decided.length with hlt | hge
      · simpa [ownersAgree, List.getElem?_append_left hlt] using h
      · simp [ownersAgree, List.getElem?_eq_none hge]

theorem isOpen_of_append {old new : Member} {target : Nat}
    (h : isOpen (decided ++ more) old new target = true) :
    isOpen decided old new target = true := by
  simp only [isOpen, isUsed_append, Bool.and_eq_true, Bool.not_eq_true', Bool.or_eq_false_iff]
    at h ⊢
  exact ⟨⟨h.1.1, h.1.2.1⟩, ownersAgree_of_append h.2⟩

theorem unmatched_mem_openChoices {position : Nat} :
    .unmatched ∈ p.openChoices decided position ↔ position < p.olds.length := by
  unfold openChoices
  split
  · next h => simp [List.getElem?_eq_none_iff.1 h]
  · next old h => simp [(List.getElem?_eq_some_iff.1 h).1]

theorem candidate_mem_openChoices {position target : Nat} :
    .candidate target ∈ p.openChoices decided position ↔
      ∃ old new, p.olds[position]? = some old ∧ p.news[target]? = some new ∧
        isOpen decided old new target = true := by
  unfold openChoices
  split
  · next h => simp [h]
  · next old h =>
    simp only [List.mem_append, List.mem_filterMap, List.mem_singleton, reduceCtorEq, or_false,
      Option.ite_none_right_eq_some, Option.some.injEq, Choice.candidate.injEq, Prod.exists, h]
    constructor
    · rintro ⟨new, target', hnew, hopen, rfl⟩
      exact ⟨old, new, rfl, List.mem_zipIdx_iff_getElem?.1 hnew, hopen⟩
    · rintro ⟨old', new, hold, hnew, hopen⟩
      cases hold
      exact ⟨new, target, List.mem_zipIdx_iff_getElem?.2 hnew, hopen, rfl⟩

theorem mem_openChoices_of_append {position : Nat} {choice : Choice}
    (h : choice ∈ p.openChoices (decided ++ more) position) :
    choice ∈ p.openChoices decided position := by
  cases choice with
  | unmatched => exact unmatched_mem_openChoices.2 (unmatched_mem_openChoices.1 h)
  | candidate target =>
    obtain ⟨old, new, hold, hnew, hopen⟩ := candidate_mem_openChoices.1 h
    exact candidate_mem_openChoices.2 ⟨old, new, hold, hnew, isOpen_of_append hopen⟩

theorem lt_of_mem_openChoices {position : Nat} {choice : Choice}
    (h : choice ∈ p.openChoices decided position) : position < p.olds.length := by
  cases choice with
  | unmatched => exact unmatched_mem_openChoices.1 h
  | candidate target =>
    obtain ⟨old, new, hold, -, -⟩ := candidate_mem_openChoices.1 h
    exact (List.getElem?_eq_some_iff.1 hold).1

/-! ## Assignments -/

theorem follows_nil : p.Follows decided [] := trivial

theorem follows_append {choices rest : List Choice} :
    p.Follows decided (choices ++ rest) ↔
      p.Follows decided choices ∧ p.Follows (decided ++ choices) rest := by
  induction choices generalizing decided with
  | nil => simp [Follows]
  | cons choice choices ih => simp [Follows, ih, and_assoc]

theorem follows_concat {choice : Choice} (h : p.Follows [] decided)
    (hchoice : choice ∈ p.openChoices decided decided.length) :
    p.Follows [] (decided ++ [choice]) := by
  rw [follows_append]
  exact ⟨h, hchoice, trivial⟩

/-- Each choice of an assignment is open after those before it. -/
theorem mem_openChoices_of_follows {assignment : List Choice} (h : p.Follows [] assignment)
    {position : Nat} {choice : Choice} (hchoice : assignment[position]? = some choice) :
    choice ∈ p.openChoices (assignment.take position) position := by
  obtain ⟨hlt, hget⟩ := List.getElem?_eq_some_iff.1 hchoice
  have hsplit : assignment.take position ++ choice :: assignment.drop (position + 1) =
      assignment := by
    rw [← hget, ← List.drop_eq_getElem_cons hlt, List.take_append_drop]
  rw [← hsplit, follows_append] at h
  have hopen := h.2.1
  rwa [List.nil_append, List.length_take, Nat.min_eq_left (Nat.le_of_lt hlt)] at hopen

theorem length_le_of_follows {assignment : List Choice} (h : p.Follows [] assignment) :
    assignment.length ≤ p.olds.length := by
  cases hlast : assignment.length with
  | zero => omega
  | succ n =>
    have hlt : n < assignment.length := by omega
    have := lt_of_mem_openChoices (mem_openChoices_of_follows h (List.getElem?_eq_getElem hlt))
    omega

/-- Elements are assigned to elements of their kind. -/
theorem kind_of_follows {assignment : List Choice} (h : p.Follows [] assignment)
    {position target : Nat} (hchoice : assignment[position]? = some (.candidate target)) :
    ∃ old new, p.olds[position]? = some old ∧ p.news[target]? = some new ∧
      new.kind = old.kind := by
  obtain ⟨old, new, hold, hnew, hopen⟩ :=
    candidate_mem_openChoices.1 (mem_openChoices_of_follows h hchoice)
  simp only [isOpen, Bool.and_eq_true, beq_iff_eq] at hopen
  exact ⟨old, new, hold, hnew, hopen.1.1⟩

/-- No new element is assigned to twice. -/
theorem eq_of_follows {assignment : List Choice} (h : p.Follows [] assignment)
    {first second target : Nat} (hfirst : assignment[first]? = some (.candidate target))
    (hsecond : assignment[second]? = some (.candidate target)) : first = second := by
  have key : ∀ {i j : Nat}, assignment[i]? = some (.candidate target) →
      assignment[j]? = some (.candidate target) → ¬ i < j := by
    intro i j hi hj hlt
    obtain ⟨old, new, -, -, hopen⟩ :=
      candidate_mem_openChoices.1 (mem_openChoices_of_follows h hj)
    simp only [isOpen, Bool.and_eq_true, Bool.not_eq_true'] at hopen
    have hused : isUsed (assignment.take j) target = true := by
      rw [isUsed_iff]
      exact List.mem_of_getElem? (i := i) (by rw [List.getElem?_take_of_lt hlt, hi])
    rw [hopen.1.2] at hused
    cases hused
  have h1 := key hfirst hsecond
  have h2 := key hsecond hfirst
  omega

/-- An assignment that keeps kinds and assigns no new element twice, whatever the owners. -/
structure IsAssignment (p : Problem) (assignment : List Choice) : Prop where
  length : assignment.length = p.olds.length
  kinds : ∀ {position target : Nat}, assignment[position]? = some (.candidate target) →
    ∃ old new, p.olds[position]? = some old ∧ p.news[target]? = some new ∧ new.kind = old.kind
  injective : ∀ {first second target : Nat}, assignment[first]? = some (.candidate target) →
    assignment[second]? = some (.candidate target) → first = second

theorem IsFeasible.isAssignment {assignment : List Choice} (h : p.IsFeasible assignment) :
    p.IsAssignment assignment :=
  ⟨h.1, kind_of_follows h.2, eq_of_follows h.2⟩

/-- To leave an element unmatched is always open. -/
theorem follows_replicate_unmatched {n : Nat} (h : decided.length + n ≤ p.olds.length) :
    p.Follows decided (List.replicate n .unmatched) := by
  induction n generalizing decided with
  | zero => exact follows_nil
  | succ n ih => exact ⟨unmatched_mem_openChoices.2 (by omega), ih (by simp; omega)⟩

theorem isFeasible_replicate_unmatched (p : Problem) :
    p.IsFeasible (List.replicate p.olds.length .unmatched) :=
  ⟨List.length_replicate, follows_replicate_unmatched (by simp)⟩

/-- Every beginning made of open choices can be completed. -/
theorem exists_isFeasible_append (h : p.Follows [] decided) :
    ∃ rest, p.IsFeasible (decided ++ rest) := by
  have hle := length_le_of_follows h
  refine ⟨List.replicate (p.olds.length - decided.length) .unmatched, ?_, ?_⟩
  · simp
    omega
  · rw [follows_append]
    exact ⟨h, follows_replicate_unmatched (by simp; omega)⟩

end SchemaDelta.Assignment.Problem

import SchemaDelta.Proofs.Edit.Owners

/-!
Matchings as assignments. A matching that keeps kinds and owners, and matches what is at one place,
makes a choice for every searched vertex, and each of these choices is open when it is made. So the
search takes all such matchings into account, and no others.
-/

namespace SchemaDelta

open Assignment Unanchored

variable {old new : Graph} {m : Matching} {source target position candidate : Nat}

/-- Choices are followed if each is open after those before it. -/
theorem Assignment.Problem.follows_of_mem_openChoices {p : Problem} {assignment : List Choice}
    (h : ∀ position choice, assignment[position]? = some choice →
      choice ∈ p.openChoices (assignment.take position) position) : p.Follows [] assignment := by
  suffices key : ∀ n ≤ assignment.length, p.Follows [] (assignment.take n) by
    simpa using key _ (Nat.le_refl _)
  intro n
  induction n with
  | zero => exact fun _ => trivial
  | succ n ih =>
    intro hn
    have hlength : (assignment.take n).length = n := by
      rw [List.length_take]
      omega
    rw [List.take_add_one, List.getElem?_eq_getElem hn]
    refine follows_concat (ih (Nat.le_of_succ_le hn)) ?_
    rw [hlength]
    exact h n _ (List.getElem?_eq_getElem hn)

namespace Matching

/-! ## What is matched apart from the anchors -/

theorem IsCorrespondence.anchors_subset (h : m.IsCorrespondence old new) :
    (anchors old new).pairs ⊆ m.pairs := by
  rintro ⟨source, target⟩ hmem
  obtain ⟨v, w, hv, hw, hplace⟩ := mem_anchors.1 hmem
  exact h.places hv hw hplace

/-- Vertices that are matched and not at one place are searched. -/
theorem IsCorrespondence.mem_searched (h : m.IsCorrespondence old new)
    (hmem : (source, target) ∈ m.pairs) (hout : (source, target) ∉ (anchors old new).pairs) :
    source ∈ oldSearched old new ∧ target ∈ newSearched old new := by
  have himage : (anchors old new).image? source = none := by
    refine image?_eq_none_iff.2 fun other hanchor => hout ?_
    rwa [← h.isOneToOne.eq_target (h.anchors_subset hanchor) hmem]
  have hpreimage : (anchors old new).preimage? target = none := by
    refine preimage?_eq_none_iff.2 fun other hanchor => hout ?_
    rwa [← h.isOneToOne.eq_source (h.anchors_subset hanchor) hmem]
  obtain ⟨v, w, hv, hw, hkind⟩ := h.kinds hmem
  constructor
  · exact mem_searched_iff.2 ⟨by rw [himage]; rfl, v, hv, target, w, hw, by rw [hpreimage]; rfl,
      hkind.symm⟩
  · exact mem_searched_iff.2 ⟨by rw [hpreimage]; rfl, w, hw, source, v, hv, by rw [himage]; rfl,
      hkind⟩

/-! ## Choices of a matching -/

/-- What a matching decides on an old vertex. -/
def choice (m : Matching) (old new : Graph) (source : Nat) : Choice :=
  match (m.image? source).map (newRole old new) with
  | some (.searched candidate) => .candidate candidate
  | _ => .unmatched

/-- What a matching decides on the searched vertices, in their order. -/
def assignment (m : Matching) (old new : Graph) : List Choice :=
  (oldSearched old new).map (m.choice old new)

theorem choice_eq_candidate_iff (h : m.IsOneToOne) : m.choice old new source = .candidate candidate ↔
    ∃ target, (source, target) ∈ m.pairs ∧ (newSearched old new)[candidate]? = some target := by
  simp only [← h.image?_eq_some_iff, ← newRole_eq_searched_iff, choice]
  cases m.image? source with
  | none => simp
  | some target => cases hrole : newRole old new target <;> simp [hrole]

theorem getElem?_assignment (hsource : (oldSearched old new)[position]? = some source) :
    (m.assignment old new)[position]? = some (m.choice old new source) := by
  rw [assignment, List.getElem?_map, hsource, Option.map_some]

/-- The pairs of the assignment are those that the matching has beside the anchors. -/
theorem IsCorrespondence.mem_ofAssignment_assignment (h : m.IsCorrespondence old new) :
    (source, target) ∈ (ofAssignment old new (m.assignment old new)).pairs ↔
      (source, target) ∈ m.pairs := by
  rw [mem_ofAssignment, mem_pairs]
  constructor
  · rintro (hanchor | ⟨position, candidate, hsource, hchoice, htarget⟩)
    · exact h.anchors_subset hanchor
    · rw [getElem?_assignment hsource, Option.some.injEq,
        choice_eq_candidate_iff h.isOneToOne] at hchoice
      obtain ⟨target', hmem, htarget'⟩ := hchoice
      cases htarget.symm.trans htarget'
      exact hmem
  · intro hmem
    by_cases hanchor : (source, target) ∈ (anchors old new).pairs
    · exact Or.inl hanchor
    · obtain ⟨hsource, htarget⟩ := h.mem_searched hmem hanchor
      obtain ⟨position, hposition⟩ := List.mem_iff_getElem?.1 hsource
      obtain ⟨candidate, hcandidate⟩ := List.mem_iff_getElem?.1 htarget
      refine Or.inr ⟨position, candidate, hposition, ?_, hcandidate⟩
      rw [getElem?_assignment hposition, (choice_eq_candidate_iff h.isOneToOne).2
        ⟨target, hmem, hcandidate⟩]

/-! ## Feasibility -/

theorem ownersAgree_of_mem (h : m.IsCorrespondence old new) {owner owner' : Nat}
    (hmem : (owner, owner') ∈ m.pairs) (position : Nat) :
    Problem.ownersAgree ((m.assignment old new).take position) (some (oldRole old new owner))
      (some (newRole old new owner')) = true := by
  by_cases hanchor : (owner, owner') ∈ (anchors old new).pairs
  · rw [oldRole_eq_anchored_iff.2 ⟨rfl, owner', hanchor⟩, newRole_eq_anchored_iff.2 hanchor]
    simp [Problem.ownersAgree]
  · obtain ⟨howner, howner'⟩ := h.mem_searched hmem hanchor
    obtain ⟨place, hplace⟩ := List.mem_iff_getElem?.1 howner
    obtain ⟨candidate, hcandidate⟩ := List.mem_iff_getElem?.1 howner'
    rw [oldRole_eq_searched_iff.2 hplace, newRole_eq_searched_iff.2 hcandidate]
    -- the owner is decided before, or it is not decided yet
    rcases Nat.lt_or_ge place position with hlt | hge
    · simp only [Problem.ownersAgree, List.getElem?_take_of_lt hlt, getElem?_assignment hplace,
        (choice_eq_candidate_iff h.isOneToOne).2 ⟨owner', hmem, hcandidate⟩, beq_self_eq_true]
    · simp only [Problem.ownersAgree, List.getElem?_take_eq_none hge]

theorem candidate_mem_openChoices_assignment (h : m.IsCorrespondence old new)
    (howners : m.KeepsOwners old new) (hsource : (oldSearched old new)[position]? = some source)
    (hmem : (source, target) ∈ m.pairs) (htarget : (newSearched old new)[candidate]? = some target) :
    .candidate candidate ∈
      (problem old new).openChoices ((m.assignment old new).take position) position := by
  rw [Problem.candidate_mem_openChoices, problem_eq]
  refine ⟨member old (oldRole old new) source, member new (newRole old new) target,
    by rw [List.getElem?_map, hsource]; rfl, by rw [List.getElem?_map, htarget]; rfl, ?_⟩
  have hkind : (member new (newRole old new) target).kind =
      (member old (oldRole old new) source).kind := by
    obtain ⟨v, w, hv, hw, hkind⟩ := h.kinds hmem
    simp [member, hv, hw, hkind]
  have hunused : Problem.isUsed ((m.assignment old new).take position) candidate = false := by
    rw [Bool.eq_false_iff, Ne, Problem.isUsed_iff, List.mem_iff_getElem?]
    rintro ⟨before, hbefore⟩
    rw [List.getElem?_take] at hbefore
    split at hbefore
    · next hlt =>
      -- who is assigned to the same vertex is the same
      obtain ⟨source', hsource', hchoice⟩ := Option.map_eq_some_iff.1
        ((List.getElem?_map ..).symm.trans hbefore)
      obtain ⟨target', hmem', htarget'⟩ := (choice_eq_candidate_iff h.isOneToOne).1 hchoice
      cases htarget.symm.trans htarget'
      cases h.isOneToOne.eq_source hmem hmem'
      exact Nat.ne_of_lt hlt (index_eq_of_nodup (nodup_searched ..) hsource' hsource)
    · cases hbefore
  have hagree : Problem.ownersAgree ((m.assignment old new).take position)
      (member old (oldRole old new) source).owner (member new (newRole old new) target).owner =
        true := by
    have hout : (source, target) ∉ (anchors old new).pairs :=
      not_mem_anchors_of_mem_oldSearched (List.mem_of_getElem? hsource)
    rcases howners source target hmem hout with ⟨hnone, hnone'⟩ | ⟨owner, owner', howner, howner', hpair⟩
    · simp [member, hnone, hnone', Problem.ownersAgree]
    · simp only [member, howner, howner', Option.map_some]
      exact ownersAgree_of_mem h hpair position
  simp [Problem.isOpen, hkind, hunused, hagree]

/-- A matching that keeps owners makes open choices only. -/
theorem isFeasible_assignment (h : m.IsCorrespondence old new) (howners : m.KeepsOwners old new) :
    (problem old new).IsFeasible (m.assignment old new) := by
  refine ⟨by simp [assignment, problem], Problem.follows_of_mem_openChoices ?_⟩
  intro position choice hposition
  obtain ⟨source, hsource, rfl⟩ := Option.map_eq_some_iff.1
    ((List.getElem?_map ..).symm.trans hposition)
  cases hchoice : m.choice old new source with
  | unmatched =>
    refine Problem.unmatched_mem_openChoices.2 ?_
    rw [problem_eq, List.length_map]
    exact (List.getElem?_eq_some_iff.1 hsource).1
  | candidate candidate =>
    obtain ⟨target, hmem, htarget⟩ := (choice_eq_candidate_iff h.isOneToOne).1 hchoice
    exact candidate_mem_openChoices_assignment h howners hsource hmem htarget

end Matching

end SchemaDelta

import SchemaDelta.Proofs.Assignment.Optimum

/-!
The assignment that leaves every element at its position. Of all assignments it comes first in the
order of choices, so that it is the best one if none is cheaper.
-/

namespace SchemaDelta.Assignment.Problem

variable {p : Problem}

/-- The assignment of each old element to the new one at its position. -/
def inPlace (p : Problem) : List Choice :=
  (List.range p.olds.length).map .candidate

theorem getElem?_inPlace {position : Nat} (h : position < p.olds.length) :
    p.inPlace[position]? = some (.candidate position) := by
  simp [inPlace, h]

/-! ## Feasibility -/

/-- Elements whose owners stand at their positions too can all stay. -/
theorem isFeasible_inPlace
    (h : List.Forall₂ (fun old new => new.kind = old.kind ∧ new.owner = old.owner ∧
      old.owner ≠ some .fixed) p.olds p.news) : p.IsFeasible p.inPlace := by
  refine ⟨by simp [inPlace], ?_⟩
  suffices key : ∀ n ≤ p.olds.length, p.Follows [] ((List.range n).map .candidate) from
    key _ (Nat.le_refl _)
  intro n
  induction n with
  | zero => exact fun _ => trivial
  | succ n ih =>
    intro hn
    rw [List.range_succ, List.map_append]
    refine follows_concat (ih (Nat.le_of_succ_le hn)) ?_
    have hold : p.olds[n]? = some p.olds[n] := List.getElem?_eq_getElem hn
    have hlt : n < p.news.length := h.length_eq ▸ hn
    have hnew : p.news[n]? = some p.news[n] := List.getElem?_eq_getElem hlt
    obtain ⟨hkind, howner, hfree⟩ := h.get hn hlt
    rw [List.length_map, List.length_range]
    refine candidate_mem_openChoices.2 ⟨_, _, hold, hnew, ?_⟩
    have hunused : isUsed ((List.range n).map .candidate) n = false := by
      simp [isUsed]
    have hagree : ownersAgree ((List.range n).map .candidate) p.olds[n].owner p.news[n].owner =
        true := by
      simp only [List.get_eq_getElem] at howner hfree
      rw [howner]
      rcases howner' : p.olds[n].owner with _ | _ | source | position
      · rfl
      · exact absurd howner' hfree
      · simp [ownersAgree]
      -- the owner was decided before, or it is still to be decided
      · rcases Nat.lt_or_ge position n with hbefore | hafter
        · simp [ownersAgree, hbefore]
        · simp [ownersAgree, Nat.not_lt.2 hafter]
    simp only [List.get_eq_getElem] at hkind
    simp [isOpen, hkind, hunused, hagree]

/-! ## Order -/

/-- Choices in their order come first among those that use none of the earlier positions and none
twice. -/
theorem compare_range'_isLE {choices : List Choice} {first : Nat}
    (hfree : ∀ position < first, .candidate position ∉ choices)
    (hinjective : ∀ {i j target : Nat}, choices[i]? = some (.candidate target) →
      choices[j]? = some (.candidate target) → i = j) :
    (Ord.compare ((List.range' first choices.length).map Choice.candidate) choices).isLE := by
  induction choices generalizing first with
  | nil => rfl
  | cons choice choices ih =>
    rw [List.length_cons, List.range'_succ, List.map_cons, List.compare_cons_cons]
    cases choice with
    | unmatched => rfl
    | candidate target =>
      rw [Choice.compare_candidate]
      rcases Nat.lt_trichotomy first target with hlt | rfl | hlt
      · rw [Nat.compare_eq_lt.2 hlt]
        rfl
      · rw [Nat.compare_eq_eq.2 rfl]
        refine ih (fun position hposition hmem => ?_) fun {i j _} hi hj => ?_
        · rcases Nat.lt_succ_iff_lt_or_eq.1 hposition with hlt | rfl
          · exact hfree position hlt (List.mem_cons_of_mem _ hmem)
          · obtain ⟨i, hi⟩ := List.mem_iff_getElem?.1 hmem
            have hzero := hinjective (i := 0) (j := i + 1) rfl (by simpa using hi)
            omega
        · have hsucc := hinjective (i := i + 1) (j := j + 1) (by simpa using hi) (by simpa using hj)
          omega
      · exact absurd List.mem_cons_self (hfree target hlt)

theorem inPlace_isLE {assignment : List Choice} (h : p.IsAssignment assignment) :
    (Ord.compare p.inPlace assignment).isLE := by
  rw [inPlace, List.range_eq_range', ← h.length]
  exact compare_range'_isLE (fun _ hlt => absurd hlt (Nat.not_lt_zero _)) h.injective

/-- That everything stays is the best assignment if none is cheaper. -/
theorem isBest_inPlace (hfeasible : p.IsFeasible p.inPlace)
    (hcost : ∀ assignment, p.IsAssignment assignment → p.cost p.inPlace ≤ p.cost assignment) :
    p.IsBest p.inPlace := by
  refine ⟨hfeasible, fun assignment h => Standing.le_iff.2 ?_⟩
  rcases Nat.lt_or_eq_of_le (hcost assignment h.isAssignment) with hlt | heq
  · exact .inl hlt
  · exact .inr ⟨heq, inPlace_isLE h.isAssignment⟩

end SchemaDelta.Assignment.Problem

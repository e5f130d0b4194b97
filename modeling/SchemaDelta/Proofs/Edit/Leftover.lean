import SchemaDelta.Proofs.Edit.Decisions

/-!
What the new vertices cost that nothing is assigned to: each its own step, and the edges between
them and other vertices once.
-/

namespace SchemaDelta.Unanchored

open Assignment

variable {old new : Graph} {position target : Nat} {assignment : List Choice}

/-- The new vertices that are anchored or searched. -/
def comparedNews (old new : Graph) : Finset Nat :=
  ((Matching.anchors old new).pairs.map (·.2) ++ newSearched old new).toFinset

theorem mem_comparedNews_iff : target ∈ comparedNews old new ↔
    (∃ source, (source, target) ∈ (Matching.anchors old new).pairs) ∨
      target ∈ newSearched old new := by
  unfold comparedNews
  rw [List.mem_toFinset, List.mem_append]
  exact or_congr_left (by simp)

theorem newRole_ne_fixed_iff : newRole old new target ≠ .fixed ↔ target ∈ comparedNews old new := by
  unfold newRole
  rw [Ne, role_eq_fixed_iff, Matching.preimage?_eq_none_iff, mem_comparedNews_iff]
  simp only [not_and, Decidable.not_not, ← not_exists]
  grind

theorem comparedNews_subset (old new : Graph) :
    comparedNews old new ⊆ Finset.range new.vertices.length := by
  intro target htarget
  rw [Finset.mem_range]
  rcases mem_comparedNews_iff.1 htarget with ⟨source, hmem⟩ | hmem
  · obtain ⟨-, w, -, hw, -⟩ := Matching.mem_anchors.1 hmem
    exact Graph.lt_of_vertex? hw
  · exact (lt_of_mem_searched hmem).1

theorem card_comparedNews (old new : Graph) : (comparedNews old new).card =
    (Matching.anchors old new).pairs.length + (newSearched old new).length := by
  have hnodup : ((Matching.anchors old new).pairs.map (·.2) ++ newSearched old new).Nodup := by
    refine List.nodup_append.2
      ⟨(Matching.anchors_isOneToOne old new).targets, nodup_searched .., ?_⟩
    rintro target hanchored target' hsearched rfl
    obtain ⟨pair, hpair, rfl⟩ := List.mem_map.1 hanchored
    exact not_mem_anchors_of_mem_newSearched hsearched hpair
  unfold comparedNews
  rw [List.toFinset_card_of_nodup hnodup, List.length_append, List.length_map]

/-- A searched new vertex is used by an assignment if it is matched. -/
theorem isUsed_iff_of_searched (h : (problem old new).IsAssignment assignment)
    (htarget : (newSearched old new)[position]? = some target) :
    Problem.isUsed assignment position = true ↔
      ((Matching.ofAssignment old new assignment).preimage? target).isSome := by
  rw [Problem.isUsed_iff, Option.isSome_iff_ne_none, Ne, Matching.preimage?_eq_none_iff]
  simp only [not_forall, Decidable.not_not]
  simp only [mem_ofAssignment_of_newSearched htarget]
  constructor
  · intro hused
    obtain ⟨index, hindex⟩ := List.mem_iff_getElem?.1 hused
    have hsource := List.getElem?_eq_getElem (lt_length_oldSearched h hindex)
    exact ⟨_, index, hsource, hindex⟩
  · rintro ⟨source, index, -, hchoice⟩
    exact List.mem_of_getElem? hchoice

/-- Whether ties that lead to a new vertex that is left are paid for with it, by what is at the
other end. -/
def isInsertedFrom (decided : List Choice) : Role → Bool
  | .fixed => false
  | .anchored _ => true
  | .searched other => Problem.isUsed decided other

theorem isInserted_eq (decided : List Choice) (tie : Tie) :
    Problem.isInserted decided tie =
      if tie.outgoing then tie.other != .fixed else isInsertedFrom decided tie.other := by
  unfold Problem.isInserted isInsertedFrom
  cases tie.other <;> cases tie.outgoing <;> simp

theorem isInsertedFrom_newRole_iff (h : (problem old new).IsAssignment assignment) :
    isInsertedFrom assignment (newRole old new target) = true ↔ target ∈ comparedNews old new ∧
      ((Matching.ofAssignment old new assignment).preimage? target).isSome := by
  cases hrole : newRole old new target with
  | fixed =>
    apply iff_of_false (by simp [isInsertedFrom])
    intro hmem
    exact newRole_ne_fixed_iff.2 hmem.1 hrole
  | anchored source =>
    have hanchor := newRole_eq_anchored_iff.1 hrole
    refine iff_of_true rfl ⟨mem_comparedNews_iff.2 (Or.inl ⟨source, hanchor⟩), ?_⟩
    rw [(Matching.ofAssignment_isOneToOne h).preimage?_eq_some_iff.2
      (Matching.mem_ofAssignment.2 (Or.inl hanchor))]
    rfl
  | searched position =>
    have htarget := newRole_eq_searched_iff.1 hrole
    rw [isInsertedFrom, isUsed_iff_of_searched h htarget]
    exact (and_iff_right (mem_comparedNews_iff.2 (Or.inr (List.mem_of_getElem? htarget)))).symm

/-! ## One vertex -/

theorem insertionCost_eq (h : (problem old new).IsAssignment assignment)
    (hnone : (Matching.ofAssignment old new assignment).preimage? target = none) :
    Problem.insertionCost assignment (member new (newRole old new) target) =
      1 + (∑ other ∈ comparedNews old new, (new.labelsBetween target other).length +
        ∑ other ∈ (comparedNews old new).filter (fun other =>
            ((Matching.ofAssignment old new assignment).preimage? other).isSome),
          (new.labelsBetween other target).length) := by
  have hinserted : Problem.isInserted assignment = fun tie =>
      if tie.outgoing then (fun role => role != .fixed) tie.other
      else isInsertedFrom assignment tie.other := funext (isInserted_eq assignment)
  have hcount := countP_ties new (newRole old new) target (fun role => role != .fixed)
    (isInsertedFrom assignment) rfl rfl
  have hcompared : (Finset.range new.vertices.length).filter (fun other =>
      (newRole old new other != .fixed) = true) = comparedNews old new :=
    filter_range_eq (comparedNews_subset old new) fun other => bne_iff_ne.trans newRole_ne_fixed_iff
  have hmatched : (Finset.range new.vertices.length).filter (fun other =>
        isInsertedFrom assignment (newRole old new other) = true) =
      (comparedNews old new).filter fun other =>
        ((Matching.ofAssignment old new assignment).preimage? other).isSome :=
    filter_range_eq ((Finset.filter_subset _ _).trans (comparedNews_subset old new)) fun other => by
      rw [isInsertedFrom_newRole_iff h, Finset.mem_filter]
  unfold Problem.insertionCost
  simp only [member]
  rw [hinserted, hcount, hcompared, hmatched]
  congr 2
  refine Finset.sum_congr rfl fun other hother => if_neg fun heq => ?_
  have hmatched := (Finset.mem_filter.1 hother).2
  rw [heq, hnone] at hmatched
  cases hmatched

/-! ## All vertices -/

theorem leftoverCost_eq_sum (h : (problem old new).IsAssignment assignment) :
    (problem old new).leftoverCost assignment =
      ∑ target ∈ (comparedNews old new).filter (fun target =>
          ¬ ((Matching.ofAssignment old new assignment).preimage? target).isSome),
        Problem.insertionCost assignment (member new (newRole old new) target) := by
  let m := Matching.ofAssignment old new assignment
  let costOf (target : Nat) : Nat :=
    Problem.insertionCost assignment (member new (newRole old new) target)
  have hlist : (problem old new).leftoverCost assignment = ((newSearched old new).map
      fun target => if (m.preimage? target).isSome then 0 else costOf target).sum := by
    rw [Problem.leftoverCost, total_eq_sum, problem_eq, List.zipIdx_map, List.map_map]
    have hfirsts : (newSearched old new).map
        (fun target => if (m.preimage? target).isSome then 0 else costOf target) =
        (newSearched old new).zipIdx.map
          ((fun target => if (m.preimage? target).isSome then 0 else costOf target) ∘ Prod.fst) := by
      rw [← List.map_map, List.zipIdx_map_fst]
    rw [hfirsts]
    congr 1
    apply List.map_congr_left
    intro entry hentry
    have hused := isUsed_iff_of_searched h (List.mem_zipIdx_iff_getElem?.1 hentry)
    simp only [Function.comp_apply, Prod.map, id, m, costOf, hused]
  have hfilter : (comparedNews old new).filter (fun target => ¬ (m.preimage? target).isSome) =
      (newSearched old new).toFinset.filter fun target => ¬ (m.preimage? target).isSome := by
    ext target
    rw [Finset.mem_filter, Finset.mem_filter, mem_comparedNews_iff, List.mem_toFinset]
    refine and_congr_left fun hnone => or_iff_right ?_
    -- anchored vertices are matched
    rintro ⟨source, hanchor⟩
    exact hnone ((Matching.ofAssignment_isOneToOne h).isSome_preimage?
      (Matching.mem_ofAssignment.2 (Or.inl hanchor)))
  have hnodup : (newSearched old new).Nodup := nodup_searched ..
  rw [hlist, ← List.sum_toFinset _ hnodup, hfilter, Finset.sum_filter]
  apply Finset.sum_congr rfl
  intro target _
  by_cases hmatched : (m.preimage? target).isSome
  · rw [if_pos hmatched, if_neg (not_not_intro hmatched)]
  · rw [if_neg hmatched, if_pos hmatched]

/-- The steps on new edges at vertices that are left, with each edge at one of its ends. -/
theorem sum_insertionCost_eq {m : Matching} (ids : Finset Nat) :
    ∑ pair ∈ ids ×ˢ ids, m.insertionCost new pair =
      ∑ target ∈ ids.filter (fun target => ¬ (m.preimage? target).isSome),
        (∑ other ∈ ids, (new.labelsBetween target other).length +
          ∑ other ∈ ids.filter (fun other => (m.preimage? other).isSome),
            (new.labelsBetween other target).length) := by
  have hleft : ∑ target ∈ ids.filter (fun target => ¬ (m.preimage? target).isSome),
        ∑ other ∈ ids, m.insertionCost new (target, other) =
      ∑ target ∈ ids.filter (fun target => ¬ (m.preimage? target).isSome),
        ∑ other ∈ ids, (new.labelsBetween target other).length := by
    refine Finset.sum_congr rfl fun target htarget => Finset.sum_congr rfl fun other _ => ?_
    have hnone := (Finset.mem_filter.1 htarget).2
    unfold Matching.insertionCost
    simp [hnone]
  have hmatched : ∑ other ∈ ids.filter (fun other => (m.preimage? other).isSome),
        ∑ target ∈ ids, m.insertionCost new (other, target) =
      ∑ other ∈ ids.filter (fun other => (m.preimage? other).isSome),
        ∑ target ∈ ids.filter (fun target => ¬ (m.preimage? target).isSome),
          (new.labelsBetween other target).length := by
    apply Finset.sum_congr rfl
    intro other hother
    have hsome := (Finset.mem_filter.1 hother).2
    rw [Finset.sum_filter]
    apply Finset.sum_congr rfl
    intro target _
    unfold Matching.insertionCost
    by_cases hmatched : (m.preimage? target).isSome
    · simp [hsome, hmatched]
    · simp [hmatched]
  -- an edge between two vertices that are left counts at the one it leads from
  have hsplit := Finset.sum_filter_add_sum_filter_not ids (fun other => (m.preimage? other).isSome)
    fun other => ∑ target ∈ ids, m.insertionCost new (other, target)
  rw [Finset.sum_product, ← hsplit, hleft, hmatched, Finset.sum_add_distrib, Nat.add_comm]
  exact congrArg _ Finset.sum_comm

theorem leftoverCost_eq (h : (problem old new).IsAssignment assignment) :
    (problem old new).leftoverCost assignment =
      ((comparedNews old new).filter fun target =>
        ¬ ((Matching.ofAssignment old new assignment).preimage? target).isSome).card +
      ∑ pair ∈ comparedNews old new ×ˢ comparedNews old new,
        (Matching.ofAssignment old new assignment).insertionCost new pair := by
  rw [leftoverCost_eq_sum h, sum_insertionCost_eq, Finset.card_eq_sum_ones,
    ← Finset.sum_add_distrib]
  apply Finset.sum_congr rfl
  intro target htarget
  have hnone := (Finset.mem_filter.1 htarget).2
  rw [Option.not_isSome_iff_eq_none] at hnone
  exact insertionCost_eq h hnone

end SchemaDelta.Unanchored

import SchemaDelta.Assignment.Search
import SchemaDelta.Proofs.Assignment.Choices
import SchemaDelta.Proofs.Assignment.Ties

/-!
The bound of a node is never too high. It does not fall from a node to the next, and at a complete
assignment it is at most what the assignment costs; so nothing below a node costs less than its
bound.
-/

namespace SchemaDelta.Assignment.Problem

variable {p : Problem} {decided : List Choice}

/-! ## The cheapest open choice -/

theorem cheapest_le {position : Nat} {choice : Choice}
    (h : choice ∈ p.openChoices decided position) :
    p.cheapest decided position ≤ p.choiceCost decided position choice :=
  List.min?_getD_le_of_mem (List.mem_map_of_mem h)

theorem exists_cheapest {position : Nat} (h : position < p.olds.length) :
    ∃ choice ∈ p.openChoices decided position,
      p.cheapest decided position = p.choiceCost decided position choice := by
  unfold cheapest
  cases hmin : ((p.openChoices decided position).map (p.choiceCost decided position)).min? with
  | none =>
    rw [List.min?_eq_none_iff, List.map_eq_nil_iff] at hmin
    have hunmatched : Choice.unmatched ∈ p.openChoices decided position :=
      unmatched_mem_openChoices.2 h
    rw [hmin] at hunmatched
    cases hunmatched
  | some least =>
    obtain ⟨choice, hchoice, hcost⟩ := List.mem_map.1 (List.min?_mem hmin)
    exact ⟨choice, hchoice, by rw [hcost]; rfl⟩

theorem cheapest_le_append {more : List Choice} {position : Nat}
    (hlength : decided.length + more.length ≤ position) (h : position < p.olds.length) :
    p.cheapest decided position ≤ p.cheapest (decided ++ more) position := by
  obtain ⟨choice, hchoice, hcost⟩ : ∃ choice ∈ p.openChoices (decided ++ more) position, _ :=
    exists_cheapest h
  rw [hcost]
  exact (cheapest_le (mem_openChoices_of_append hchoice)).trans
    (p.choiceCost_le_append choice hlength)

/-! ## New elements that must be left -/

theorem count_target_le_one (news : List Member) (target : Nat) :
    news.zipIdx.countP (fun entry => entry.2 == target) ≤ 1 := by
  have hcount : news.zipIdx.countP (fun entry => entry.2 == target) =
      (news.zipIdx.map Prod.snd).count target := by
    rw [List.count, List.countP_map]
    rfl
  rw [hcount, List.zipIdx_map_snd]
  exact List.nodup_iff_count_le_one.1 List.nodup_range' target

/-- A decision takes at most one new element away, of the kind of the decided one. -/
theorem availableOfKind_le {old : Member} {choice : Choice}
    (hold : p.olds[decided.length]? = some old)
    (hchoice : choice ∈ p.openChoices decided decided.length) (kind : ElementKind) :
    p.availableOfKind decided kind ≤
      p.availableOfKind (decided ++ [choice]) kind + if old.kind = kind then 1 else 0 := by
  unfold availableOfKind
  cases choice with
  | unmatched => simp [isUsed]
  | candidate target =>
    obtain ⟨old', new, hold', hnew, hopen⟩ := candidate_mem_openChoices.1 hchoice
    cases hold.symm.trans hold'
    simp only [isOpen, Bool.and_eq_true, beq_iff_eq] at hopen
    have hkind := hopen.1.1
    -- what is taken away is the target alone, and only from its own kind
    have htarget : p.news.zipIdx.countP (fun entry => entry.1.kind == kind && entry.2 == target) ≤
        if old.kind = kind then 1 else 0 := by
      split
      · refine (List.countP_mono_left fun entry _ h => ?_).trans (count_target_le_one p.news target)
        exact (Bool.and_eq_true_iff.1 h).2
      · next hne =>
        rw [Nat.le_zero, List.countP_eq_zero]
        rintro ⟨other, i⟩ hmem
        simp only [Bool.and_eq_true, beq_iff_eq]
        rintro ⟨rfl, rfl⟩
        cases (List.mem_zipIdx_iff_getElem?.1 hmem).symm.trans hnew
        exact hne hkind.symm
    refine (countP_le_add ?_).trans (Nat.add_le_add_left htarget _)
    rintro ⟨other, i⟩ - h
    simp only [Bool.and_eq_true, beq_iff_eq, Bool.not_eq_true'] at h
    by_cases hi : i = target
    · exact Or.inr (by simp [h.1, hi])
    · refine Or.inl ?_
      simp only [isUsed_append, h.1, h.2]
      simp [isUsed, hi]

theorem undecidedOfKind_eq {old : Member} (choice : Choice)
    (hold : p.olds[decided.length]? = some old) (kind : ElementKind) :
    p.undecidedOfKind decided kind =
      p.undecidedOfKind (decided ++ [choice]) kind + if old.kind = kind then 1 else 0 := by
  obtain ⟨hlt, hget⟩ := List.getElem?_eq_some_iff.1 hold
  unfold undecidedOfKind
  rw [List.drop_eq_getElem_cons hlt, hget, List.countP_cons, List.length_append,
    List.length_singleton]
  simp

theorem undecided_eq (choice : Choice) (h : decided.length < p.olds.length) :
    p.undecided decided = decided.length :: p.undecided (decided ++ [choice]) := by
  unfold undecided
  rw [List.drop_eq_getElem_cons (by simpa using h), List.getElem_range, List.length_append,
    List.length_singleton]

theorem remainder_le {choice : Choice} (h : choice ∈ p.openChoices decided decided.length) :
    p.remainder decided ≤
      p.choiceCost decided decided.length choice + p.remainder (decided ++ [choice]) := by
  have hlt := lt_of_mem_openChoices h
  have hold := List.getElem?_eq_getElem hlt
  have hchoices : ((p.undecided decided).map (p.cheapest decided)).sum ≤
      p.choiceCost decided decided.length choice +
        ((p.undecided (decided ++ [choice])).map (p.cheapest (decided ++ [choice]))).sum := by
    -- the decided element costs at least its cheapest choice, and the others do not get cheaper
    rw [undecided_eq choice hlt, List.map_cons, List.sum_cons]
    refine Nat.add_le_add (cheapest_le h) (List.sum_le_sum fun position hposition => ?_)
    obtain ⟨i, hi, hget⟩ := List.getElem_of_mem hposition
    simp only [undecided, List.length_append, List.length_singleton, List.getElem_drop,
      List.getElem_range, List.length_drop, List.length_range] at hget hi
    exact cheapest_le_append (by simp; omega) (by omega)
  have hleft : (ElementKind.all.map fun kind =>
        p.availableOfKind decided kind - p.undecidedOfKind decided kind).sum ≤
      (ElementKind.all.map fun kind => p.availableOfKind (decided ++ [choice]) kind -
        p.undecidedOfKind (decided ++ [choice]) kind).sum := by
    -- of its kind one element less is undecided, and at most one less is available
    apply List.sum_le_sum
    intro kind _
    have h1 := availableOfKind_le hold h kind
    have h2 := undecidedOfKind_eq choice hold kind
    omega
  simp only [remainder, total_eq_sum]
  omega

/-! ## The bound -/

theorem spending_append (p : Problem) (decided choices rest : List Choice) :
    p.spending decided (choices ++ rest) =
      p.spending decided choices + p.spending (decided ++ choices) rest := by
  induction choices generalizing decided with
  | nil => simp [spending]
  | cons choice choices ih => simp [spending, ih, Nat.add_assoc]

theorem nodeAt_after (p : Problem) (decided : List Choice) (choice : Choice) :
    (p.nodeAt decided).after ⟨p.choiceCost decided decided.length choice, choice⟩ =
      p.nodeAt (decided ++ [choice]) := by
  simp [nodeAt, Node.after, spending_append, spending]

/-- The bound does not fall from a node to the next. -/
theorem bound_le_bound_concat {choice : Choice}
    (h : choice ∈ p.openChoices decided decided.length) :
    p.bound (p.nodeAt decided) ≤ p.bound (p.nodeAt (decided ++ [choice])) := by
  have hrest := remainder_le h
  simp only [bound, nodeAt, spending_append, spending, List.nil_append]
  omega

theorem bound_le_bound_append {choices : List Choice} (h : p.Follows decided choices) :
    p.bound (p.nodeAt decided) ≤ p.bound (p.nodeAt (decided ++ choices)) := by
  induction choices generalizing decided with
  | nil => simp
  | cons choice choices ih =>
    have hstep := bound_le_bound_concat h.1
    have hrun := ih h.2
    rw [List.append_assoc, List.singleton_append] at hrun
    omega

/-- Each element is counted with its kind, once. -/
theorem sum_countP_kinds (members : List (Member × Nat)) (q : Member × Nat → Bool) :
    (ElementKind.all.map fun kind =>
      members.countP fun entry => entry.1.kind == kind && q entry).sum = members.countP q := by
  induction members with
  | nil => simp [ElementKind.all]
  | cons entry members ih =>
    have hone : (ElementKind.all.map fun kind =>
        if (entry.1.kind == kind && q entry) = true then 1 else 0).sum =
          if q entry = true then 1 else 0 := by
      cases entry.1.kind <;> cases q entry <;> rfl
    simp only [List.countP_cons, List.sum_map_add, ih, hone]

theorem countP_unused_le (decided : List Choice) (members : List (Member × Nat)) :
    members.countP (fun entry => !isUsed decided entry.2) ≤
      (members.map fun entry =>
        if isUsed decided entry.2 then 0 else insertionCost decided entry.1).sum := by
  induction members with
  | nil => simp
  | cons entry members ih =>
    rw [List.countP_cons, List.map_cons, List.sum_cons]
    cases isUsed decided entry.2 with
    | true => simpa using ih
    | false =>
      have : 1 ≤ insertionCost decided entry.1 := Nat.le_add_right 1 _
      simp
      omega

/-- At a complete assignment all that is still to be paid is for the elements that are left. -/
theorem remainder_le_leftoverCost (h : decided.length = p.olds.length) :
    p.remainder decided ≤ p.leftoverCost decided := by
  have hnone : p.undecided decided = [] := by
    simp [undecided, h]
  have hkinds : (ElementKind.all.map fun kind =>
        p.availableOfKind decided kind - p.undecidedOfKind decided kind).sum ≤
      (ElementKind.all.map fun kind => p.availableOfKind decided kind).sum :=
    List.sum_le_sum fun kind _ => Nat.sub_le _ _
  have hall : (ElementKind.all.map fun kind => p.availableOfKind decided kind).sum =
      p.news.zipIdx.countP fun entry => !isUsed decided entry.2 :=
    sum_countP_kinds p.news.zipIdx fun entry => !isUsed decided entry.2
  have hpaid := countP_unused_le decided p.news.zipIdx
  simp only [remainder, leftoverCost, total_eq_sum, hnone, List.map_nil, List.sum_nil]
  omega

/-- Nothing below a node costs less than its bound. -/
theorem bound_le_cost {rest : List Choice} (h : p.Follows decided rest)
    (hlength : decided.length + rest.length = p.olds.length) :
    p.bound (p.nodeAt decided) ≤ p.cost (decided ++ rest) := by
  have hrun := bound_le_bound_append h
  have hend : p.remainder (decided ++ rest) ≤ p.leftoverCost (decided ++ rest) :=
    remainder_le_leftoverCost (by simpa using hlength)
  unfold cost
  simp only [bound, nodeAt] at hrun hend ⊢
  omega

end SchemaDelta.Assignment.Problem

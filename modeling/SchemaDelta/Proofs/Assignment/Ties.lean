import SchemaDelta.Assignment.Cost
import SchemaDelta.Proofs.Sums

/-!
What ties cost, bundle by bundle, and how the cost of a choice grows with the decisions before it: a
decision settles the ties to the decided element, and what was settled before stays as it was.
-/

namespace SchemaDelta.Assignment

/-! ## Labels and bundles -/

@[simp]
theorem labelCost_nil_nil : labelCost [] [] = 0 := by
  simp [labelCost, commonLabels]

theorem labelsIn_eq_nil {bundle : Bool × Role} {ties : List Tie}
    (h : bundle ∉ ties.map Tie.bundle) : labelsIn bundle ties = [] := by
  simp only [labelsIn, List.map_eq_nil_iff, List.filter_eq_nil_iff, beq_iff_eq]
  exact fun tie htie heq => h (heq ▸ List.mem_map_of_mem htie)

theorem labelsIn_filter (bundle : Bool × Role) (ties : List Tie) (q : Role → Bool) :
    labelsIn bundle (ties.filter fun tie => q tie.other) =
      if q bundle.2 then labelsIn bundle ties else [] := by
  unfold labelsIn
  rw [List.filter_filter]
  split
  · next h =>
    congr 1
    apply List.filter_congr
    intro tie _
    by_cases hb : tie.bundle = bundle
    · subst hb
      simpa [Tie.bundle] using h
    · simp [hb]
  · next h =>
    simp only [List.map_eq_nil_iff, List.filter_eq_nil_iff, Bool.and_eq_true, beq_iff_eq]
    rintro tie - ⟨hb, hq⟩
    subst hb
    exact h hq

/-- The cost of ties is the sum over all bundles of any set that has those of the ties. -/
theorem tieCost_eq_sum {old new : List Tie} {bundles : Finset (Bool × Role)}
    (h : ∀ tie ∈ old ++ new, tie.bundle ∈ bundles) :
    tieCost old new =
      ∑ bundle ∈ bundles, labelCost (labelsIn bundle old) (labelsIn bundle new) := by
  unfold tieCost
  rw [total_eq_sum, sum_map_eraseDups]
  refine Finset.sum_subset (fun bundle hbundle => ?_) fun bundle _ hnot => ?_
  · obtain ⟨tie, htie, rfl⟩ := List.mem_map.1 (List.mem_toFinset.1 hbundle)
    exact h tie htie
  · simp only [List.mem_toFinset, List.map_append, List.mem_append, not_or] at hnot
    rw [labelsIn_eq_nil hnot.1, labelsIn_eq_nil hnot.2, labelCost_nil_nil]

/-- Ties that have the same labels in every bundle, and perhaps more bundles, cost no less. -/
theorem tieCost_le_tieCost {old new old' new' : List Tie}
    (hold : ∀ tie ∈ old ++ new, labelsIn tie.bundle old = labelsIn tie.bundle old')
    (hnew : ∀ tie ∈ old ++ new, labelsIn tie.bundle new = labelsIn tie.bundle new') :
    tieCost old new ≤ tieCost old' new' := by
  let bundles : List Tie → Finset (Bool × Role) := fun ties => (ties.map Tie.bundle).toFinset
  have hmem : ∀ {ties : List Tie} {tie : Tie}, tie ∈ ties → tie.bundle ∈ bundles ties :=
    fun htie => List.mem_toFinset.2 (List.mem_map_of_mem htie)
  have hall : ∀ tie ∈ old' ++ new', tie.bundle ∈ bundles (old ++ new) ∪ bundles (old' ++ new') :=
    fun tie htie => Finset.mem_union_right _ (hmem htie)
  -- the bundles on the left are among those on the right, and cost the same there
  rw [tieCost_eq_sum fun tie htie => hmem htie, tieCost_eq_sum hall]
  calc ∑ bundle ∈ bundles (old ++ new), labelCost (labelsIn bundle old) (labelsIn bundle new)
      = ∑ bundle ∈ bundles (old ++ new), labelCost (labelsIn bundle old') (labelsIn bundle new') := by
        apply Finset.sum_congr rfl
        intro bundle hbundle
        obtain ⟨tie, htie, rfl⟩ := List.mem_map.1 (List.mem_toFinset.1 hbundle)
        rw [hold tie htie, hnew tie htie]
    _ ≤ _ := Finset.sum_le_sum_of_subset Finset.subset_union_left

/-! ## What is settled -/

variable {decided more : List Choice} {position target : Nat}

theorem isDecided_append {other : Role} (h : isDecided decided position other = true) :
    isDecided (decided ++ more) position other = true := by
  cases other with
  | fixed => exact h
  | anchored source => exact h
  | searched other =>
    simp only [isDecided, Bool.or_eq_true, beq_iff_eq, decide_eq_true_eq, List.length_append] at h ⊢
    omega

theorem isLost_append {other : Role} (h : isDecided decided position other = true) :
    isLost (decided ++ more) position other = isLost decided position other := by
  cases other with
  | fixed => rfl
  | anchored source => rfl
  | searched other =>
    simp only [isDecided, Bool.or_eq_true, beq_iff_eq, decide_eq_true_eq] at h
    rcases h with h | h
    · simp [isLost, h]
    · simp [isLost, List.getElem?_append_left h]

theorem isLost_of_isLost {other : Role} (h : isLost decided position other = true) :
    isLost (decided ++ more) position other = true := by
  cases other with
  | fixed => exact h
  | anchored source => exact h
  | searched other =>
    simp only [isLost, Bool.and_eq_true, beq_iff_eq] at h ⊢
    have hlt := (List.getElem?_eq_some_iff.1 h.2).1
    exact ⟨h.1, by rw [List.getElem?_append_left hlt, h.2]⟩

theorem idxOf?_append_eq_some_iff {choice : Choice} {index : Nat} (h : index < decided.length) :
    (decided ++ more).idxOf? choice = some index ↔ decided.idxOf? choice = some index := by
  simp only [List.idxOf?_eq_some_iff]
  constructor
  · rintro ⟨_, hchoice, hfirst⟩
    rw [List.getElem_append_left h] at hchoice
    refine ⟨h, hchoice, fun j hj => ?_⟩
    have := hfirst j hj
    rwa [List.getElem_append_left (by omega)] at this
  · rintro ⟨_, hchoice, hfirst⟩
    refine ⟨by simp; omega, by rwa [List.getElem_append_left h], fun j hj => ?_⟩
    rw [List.getElem_append_left (by omega)]
    exact hfirst j hj

/-- Later decisions do not change which ties lead to the counterpart of a settled old element. -/
theorem preimage?_append_eq_some_iff {other source : Role}
    (hsource : isDecided decided position source = true)
    (hlength : decided.length + more.length ≤ position) :
    preimage? (decided ++ more) position target other = some source ↔
      preimage? decided position target other = some source := by
  cases other with
  | fixed => simp [preimage?]
  | anchored _ => simp [preimage?]
  | searched other =>
    by_cases htarget : other = target
    · simp [preimage?, htarget]
    simp only [preimage?, htarget, if_false, Option.map_eq_some_iff]
    refine exists_congr fun index => and_congr_left ?_
    rintro rfl
    simp only [isDecided, Bool.or_eq_true, beq_iff_eq, decide_eq_true_eq] at hsource
    rcases hsource with rfl | hlt
    · -- the undecided element itself is the counterpart of the target only
      have hnone : ∀ {choices : List Choice}, choices.length ≤ index →
          choices.idxOf? (.candidate other) ≠ some index := by
        intro choices hle hsome
        have := (List.idxOf?_eq_some_iff.1 hsome).1
        omega
      exact iff_of_false (hnone (by simpa using hlength)) (hnone (by omega))
    · exact idxOf?_append_eq_some_iff hlt

/-- The ties of a new element that end up in a bundle are those whose other ends have the
counterpart that the bundle leads to. -/
theorem labelsIn_pullback (decided : List Choice) (position target : Nat) (bundle : Bool × Role)
    (ties : List Tie) :
    labelsIn bundle (ties.filterMap (Tie.pullback? decided position target)) =
      (ties.filter fun tie => tie.outgoing == bundle.1 &&
        preimage? decided position target tie.other == some bundle.2).map Tie.label := by
  induction ties with
  | nil => rfl
  | cons tie ties ih =>
    unfold labelsIn at ih ⊢
    cases hpre : preimage? decided position target tie.other with
    | none => simpa [Tie.pullback?, hpre] using ih
    | some source =>
      by_cases hb : (tie.outgoing, source) = bundle
      · subst hb
        simpa [Tie.pullback?, Tie.bundle, hpre] using ih
      · have hb' : ¬ (tie.outgoing = bundle.1 ∧ source = bundle.2) := by
          rintro ⟨h1, h2⟩
          exact hb (by rw [h1, h2])
        simpa [Tie.pullback?, Tie.bundle, hpre, hb, hb'] using ih

/-! ## The cost of a choice -/

theorem unmatchedCost_le_append (old : Member) :
    unmatchedCost decided position old ≤ unmatchedCost (decided ++ more) position old := by
  unfold unmatchedCost
  have hdecided : old.ties.countP (fun tie => isDecided decided position tie.other) ≤
      old.ties.countP fun tie => isDecided (decided ++ more) position tie.other :=
    List.countP_mono_left fun _ _ => isDecided_append
  omega

theorem isDecided_of_preimage? {other source : Role}
    (h : preimage? decided position target other = some source) :
    isDecided decided position source = true := by
  cases other with
  | fixed => simp [preimage?] at h
  | anchored _ =>
    simp only [preimage?, Option.some.injEq] at h
    rw [← h]
    rfl
  | searched other =>
    simp only [preimage?] at h
    split at h
    · cases h
      simp [isDecided]
    · obtain ⟨index, hindex, rfl⟩ := Option.map_eq_some_iff.1 h
      simp [isDecided, (List.idxOf?_eq_some_iff.1 hindex).1]

/-- A choice settles ties in bundles of decided elements only. -/
theorem isDecided_of_mem_settled {old new : List Tie} {tie : Tie}
    (htie : tie ∈ (old.filter fun tie =>
        isDecided decided position tie.other && !isLost decided position tie.other) ++
      new.filterMap (Tie.pullback? decided position target)) :
    isDecided decided position tie.bundle.2 = true := by
  rcases List.mem_append.1 htie with h | h
  · have hkept := (List.mem_filter.1 h).2
    rw [Bool.and_eq_true] at hkept
    exact hkept.1
  · obtain ⟨tie', -, hpull⟩ := List.mem_filterMap.1 h
    obtain ⟨source, hsource, rfl⟩ := Option.map_eq_some_iff.1 hpull
    exact isDecided_of_preimage? hsource

theorem matchedCost_le_append (old new : Member)
    (hlength : decided.length + more.length ≤ position) :
    matchedCost decided position target old new ≤
      matchedCost (decided ++ more) position target old new := by
  have hlost : old.ties.countP (fun tie => isLost decided position tie.other) ≤
      old.ties.countP fun tie => isLost (decided ++ more) position tie.other :=
    List.countP_mono_left fun _ _ => isLost_of_isLost
  -- a settled tie stays in its bundle, and its bundle gets no more ties
  have hcost : tieCost
      (old.ties.filter fun tie =>
        isDecided decided position tie.other && !isLost decided position tie.other)
      (new.ties.filterMap (Tie.pullback? decided position target)) ≤
    tieCost
      (old.ties.filter fun tie =>
        isDecided (decided ++ more) position tie.other &&
          !isLost (decided ++ more) position tie.other)
      (new.ties.filterMap (Tie.pullback? (decided ++ more) position target)) := by
    refine tieCost_le_tieCost (fun tie htie => ?_) fun tie htie => ?_
    · have hd := isDecided_of_mem_settled htie
      rw [labelsIn_filter _ _ fun other =>
          isDecided decided position other && !isLost decided position other,
        labelsIn_filter _ _ fun other => isDecided (decided ++ more) position other &&
          !isLost (decided ++ more) position other]
      simp only [hd, isDecided_append hd, isLost_append hd]
    · have hd := isDecided_of_mem_settled htie
      rw [labelsIn_pullback, labelsIn_pullback]
      congr 1
      apply List.filter_congr
      intro tie' _
      congr 1
      rw [Bool.eq_iff_iff, beq_iff_eq, beq_iff_eq]
      exact (preimage?_append_eq_some_iff hd hlength).symm
  unfold matchedCost
  omega

/-- Deciding more elements first never makes a choice cheaper. -/
theorem Problem.choiceCost_le_append (p : Problem) (choice : Choice)
    (hlength : decided.length + more.length ≤ position) :
    p.choiceCost decided position choice ≤ p.choiceCost (decided ++ more) position choice := by
  unfold choiceCost
  split
  · exact Nat.le_refl 0
  · split
    · exact unmatchedCost_le_append _
    · split
      · exact Nat.le_refl 0
      · exact matchedCost_le_append _ _ hlength

end SchemaDelta.Assignment

import SchemaDelta.Proofs.Assignment.Admissible
import SchemaDelta.Proofs.Edit.Decisions

/-!
What a decision on a searched vertex costs: its own step, and those on its edges to the vertices
that are decided. Over all decisions, the edges between decided vertices are paid for once.
-/

namespace SchemaDelta.Unanchored

open Assignment

variable {old new : Graph} {position v target candidate : Nat} {assignment : List Choice}

/-- The steps on the edges between a vertex and another one, or from the vertex to itself. -/
def neighborCost (m : Matching) (old new : Graph) (v other : Nat) : Nat :=
  m.pairCost old new (v, other) + if other = v then 0 else m.pairCost old new (other, v)

/-! ## One decision -/

theorem neighborCost_of_image?_eq_none {m : Matching} {other : Nat}
    (h : m.image? v = none ∨ m.image? other = none) :
    neighborCost m old new v other = (old.labelsBetween v other).length +
      if other = v then 0 else (old.labelsBetween other v).length := by
  unfold neighborCost Matching.pairCost
  rcases h with h | h
  · cases hother : m.image? other <;> simp [h]
  · cases hv : m.image? v <;> simp [h]

theorem unmatchedCost_eq {decided : List Choice} (hlength : decided.length = position)
    {m : Matching} (hnone : m.image? v = none) :
    unmatchedCost decided position (member old (oldRole old new) v) =
      1 + ∑ other ∈ decidedOlds old new (position + 1), neighborCost m old new v other := by
  unfold unmatchedCost
  have hcount := countP_ties old (oldRole old new) v (isDecided decided position)
    (isDecided decided position) rfl rfl
  simp only [ite_self] at hcount
  rw [filter_range_eq (decidedOlds_subset old new _) (isDecided_oldRole hlength),
    ← Finset.sum_add_distrib] at hcount
  rw [member, hcount]
  congr 1
  exact Finset.sum_congr rfl fun other _ => (neighborCost_of_image?_eq_none (Or.inl hnone)).symm

/-- The bundles of the ties that a decision settles. -/
theorem sum_bundles {n : Nat} (f : Bool × Role → Nat) :
    ∑ bundle ∈ (decidedOlds old new n).image (fun other => (true, oldRole old new other)) ∪
        (decidedOlds old new n).image fun other => (false, oldRole old new other), f bundle =
      ∑ other ∈ decidedOlds old new n,
        (f (true, oldRole old new other) + f (false, oldRole old new other)) := by
  have hinjective (outgoing : Bool) : Set.InjOn (fun other => (outgoing, oldRole old new other))
      (decidedOlds old new n) := by
    intro other _ other' hother' heq
    exact eq_of_oldRole_eq (Prod.mk.inj heq).2 (oldRole_ne_fixed hother')
  rw [Finset.sum_union, Finset.sum_image (hinjective true), Finset.sum_image (hinjective false),
    Finset.sum_add_distrib]
  rw [Finset.disjoint_left]
  intro bundle htrue hfalse
  obtain ⟨_, -, rfl⟩ := Finset.mem_image.1 htrue
  obtain ⟨_, -, heq⟩ := Finset.mem_image.1 hfalse
  cases heq

theorem exists_role_of_mem_ties {g : Graph} {role : Nat → Role} {id : Nat} {tie : Tie}
    (h : tie ∈ ties g role id) : ∃ other, tie.other = role other := by
  unfold ties at h
  rcases List.mem_append.1 (List.mem_filter.1 h).1 with h | h
  · obtain ⟨e, -, rfl⟩ := List.mem_map.1 h
    exact ⟨e.two, rfl⟩
  · obtain ⟨e, -, rfl⟩ := List.mem_map.1 h
    exact ⟨e.one, rfl⟩

theorem length_take_of_getElem? {choice : Choice} (hchoice : assignment[position]? = some choice) :
    (assignment.take position).length = position := by
  have := (List.getElem?_eq_some_iff.1 hchoice).1
  rw [List.length_take]
  omega

section Matched

variable (h : (problem old new).IsAssignment assignment)
  (hchoice : assignment[position]? = some (.candidate candidate))

include h hchoice

theorem labelsIn_kept {other : Nat} (hother : other ∈ decidedOlds old new (position + 1))
    (outgoing : Bool) :
    labelsIn (outgoing, oldRole old new other) ((ties old (oldRole old new) v).filter fun tie =>
        isDecided (assignment.take position) position tie.other &&
          !isLost (assignment.take position) position tie.other) =
      if (Matching.ofAssignment old new assignment).image? other = none then []
      else labelsAcross old v other outgoing := by
  have hfixed := oldRole_ne_fixed hother
  -- decided vertices have roles of their own, so a bundle leads to one vertex only
  have hlabels : labelsIn (outgoing, oldRole old new other) (ties old (oldRole old new) v) =
      labelsAcross old v other outgoing := by
    rw [labelsIn_eq]
    refine labels_across (q := fun role => role == oldRole old new other)
      (beq_eq_false_iff_ne.2 hfixed.symm) (fun id => ?_) outgoing
    rw [beq_iff_eq]
    exact ⟨fun heq => eq_of_oldRole_eq heq hfixed, fun heq => by rw [heq]⟩
  have hdecided := (isDecided_oldRole (length_take_of_getElem? hchoice) other).2 hother
  have hlost := isLost_oldRole_iff h hchoice other
  rw [labelsIn_filter (outgoing, oldRole old new other) (ties old (oldRole old new) v) fun role =>
    isDecided (assignment.take position) position role &&
      !isLost (assignment.take position) position role, hlabels]
  by_cases hnone : (Matching.ofAssignment old new assignment).image? other = none
  · rw [if_pos hnone, if_neg]
    simp [hlost.2 ⟨hother, hnone⟩]
  · have hkept : isLost (assignment.take position) position (oldRole old new other) = false := by
      rw [Bool.eq_false_iff]
      exact fun heq => hnone (hlost.1 heq).2
    rw [if_neg hnone, if_pos]
    simp [hdecided, hkept]

theorem labelsIn_pulled {other : Nat} (hother : other ∈ decidedOlds old new (position + 1))
    (outgoing : Bool) :
    labelsIn (outgoing, oldRole old new other) ((ties new (newRole old new) target).filterMap
        (Tie.pullback? (assignment.take position) position candidate)) =
      match (Matching.ofAssignment old new assignment).image? other with
      | none => []
      | some image => labelsAcross new target image outgoing := by
  have hone := Matching.ofAssignment_isOneToOne h
  rw [labelsIn_pullback]
  cases himage : (Matching.ofAssignment old new assignment).image? other with
  | none =>
    refine labels_of_none (q := fun role => preimage? (assignment.take position) position candidate
      role == some (oldRole old new other)) rfl (fun id => ?_) outgoing
    rw [beq_eq_false_iff_ne]
    intro heq
    exact Matching.image?_eq_none_iff.1 himage id ((preimage?_newRole_iff h hchoice hother).1 heq)
  | some image =>
    have hmem := Matching.mem_of_image? himage
    refine labels_across (q := fun role => preimage? (assignment.take position) position candidate
      role == some (oldRole old new other)) rfl (fun id => ?_) outgoing
    rw [beq_iff_eq, preimage?_newRole_iff h hchoice hother]
    exact ⟨fun hid => hone.eq_target hid hmem, fun heq => heq ▸ hmem⟩

/-- The ties that a decision settles, on both sides, are in bundles of decided vertices. -/
theorem bundle_mem {tie : Tie}
    (htie : tie ∈ ((ties old (oldRole old new) v).filter fun tie =>
        isDecided (assignment.take position) position tie.other &&
          !isLost (assignment.take position) position tie.other) ++
      (ties new (newRole old new) target).filterMap
        (Tie.pullback? (assignment.take position) position candidate)) :
    tie.bundle ∈ (decidedOlds old new (position + 1)).image
        (fun other => (true, oldRole old new other)) ∪
      (decidedOlds old new (position + 1)).image fun other => (false, oldRole old new other) := by
  have hother : ∃ other ∈ decidedOlds old new (position + 1), oldRole old new other = tie.other := by
    rcases List.mem_append.1 htie with hold | hnew
    · obtain ⟨hmem, hkept⟩ := List.mem_filter.1 hold
      obtain ⟨other, hother⟩ := exists_role_of_mem_ties hmem
      rw [Bool.and_eq_true, hother, isDecided_oldRole (length_take_of_getElem? hchoice)] at hkept
      exact ⟨other, hkept.1, hother.symm⟩
    · obtain ⟨tie', hmem, hpull⟩ := List.mem_filterMap.1 hnew
      obtain ⟨role, hrole, rfl⟩ := Option.map_eq_some_iff.1 hpull
      obtain ⟨other, hother⟩ := exists_role_of_mem_ties hmem
      rw [hother] at hrole
      exact exists_of_preimage? h hchoice hrole
  obtain ⟨other, hmem, hrole⟩ := hother
  rw [Finset.mem_union, Finset.mem_image, Finset.mem_image]
  cases houtgoing : tie.outgoing with
  | true => exact Or.inl ⟨other, hmem, by rw [hrole, ← houtgoing]; rfl⟩
  | false => exact Or.inr ⟨other, hmem, by rw [hrole, ← houtgoing]; rfl⟩

theorem countP_isLost :
    (ties old (oldRole old new) v).countP
        (fun tie => isLost (assignment.take position) position tie.other) =
      ∑ other ∈ decidedOlds old new (position + 1),
        if (Matching.ofAssignment old new assignment).image? other = none then
          (old.labelsBetween v other).length +
            if other = v then 0 else (old.labelsBetween other v).length
        else 0 := by
  have hcount := countP_ties old (oldRole old new) v (isLost (assignment.take position) position)
    (isLost (assignment.take position) position) rfl rfl
  simp only [ite_self] at hcount
  have hlost : (Finset.range old.vertices.length).filter (fun id =>
        isLost (assignment.take position) position (oldRole old new id) = true) =
      (decidedOlds old new (position + 1)).filter fun other =>
        (Matching.ofAssignment old new assignment).image? other = none :=
    filter_range_eq ((Finset.filter_subset _ _).trans (decidedOlds_subset old new _))
      fun id => by rw [isLost_oldRole_iff h hchoice id, Finset.mem_filter]
  rw [hcount, hlost, ← Finset.sum_add_distrib, Finset.sum_filter]

theorem matchedCost_eq (hv : (oldSearched old new)[position]? = some v)
    (htarget : (newSearched old new)[candidate]? = some target) :
    matchedCost (assignment.take position) position candidate (member old (oldRole old new) v)
        (member new (newRole old new) target) =
      (if ((old.vertex? v).getD default).name = ((new.vertex? target).getD default).name then 0
        else 1) +
      ∑ other ∈ decidedOlds old new (position + 1),
        neighborCost (Matching.ofAssignment old new assignment) old new v other := by
  have hone := Matching.ofAssignment_isOneToOne h
  have hmem : (v, target) ∈ (Matching.ofAssignment old new assignment).pairs :=
    (mem_ofAssignment_of_searched hv).2 ⟨candidate, hchoice, htarget⟩
  have himage := hone.image?_eq_some_iff.2 hmem
  unfold matchedCost
  simp only [member]
  rw [countP_isLost h hchoice, tieCost_eq_sum fun tie htie => bundle_mem h hchoice htie, sum_bundles,
    Nat.add_assoc, ← Finset.sum_add_distrib]
  congr 1
  -- both sums go over the decided vertices, so it is enough to look at one of them
  apply Finset.sum_congr rfl
  intro other hother
  rw [labelsIn_kept h hchoice hother, labelsIn_kept h hchoice hother,
    labelsIn_pulled h hchoice hother, labelsIn_pulled h hchoice hother]
  cases hother_image : (Matching.ofAssignment old new assignment).image? other with
  | none => simp [neighborCost_of_image?_eq_none (Or.inr hother_image)]
  | some image =>
    -- edges from a vertex to itself are seen once, on either side
    have hsame : image = target ↔ other = v := by
      have hmem' := Matching.mem_of_image? hother_image
      constructor
      · rintro rfl
        exact hone.eq_source hmem' hmem
      · rintro rfl
        exact hone.eq_target hmem' hmem
    unfold neighborCost Matching.pairCost
    simp only [himage, hother_image, labelsAcross, reduceCtorEq, if_false, hsame]
    by_cases heq : other = v
    · simp [heq]
    · simp [heq]

end Matched

/-! ## All decisions -/

/-- What a decision on a vertex costs without the edges: the vertex is deleted, or its name changes.
-/
def ownCost (old new : Graph) (entry : Nat × Choice) : Nat :=
  match entry.2 with
  | .unmatched => 1
  | .candidate candidate =>
    match (newSearched old new)[candidate]? with
    | none => 0
    | some target =>
      if ((old.vertex? entry.1).getD default).name = ((new.vertex? target).getD default).name then 0
      else 1

theorem choiceCost_eq (h : (problem old new).IsAssignment assignment) {choice : Choice}
    (hv : (oldSearched old new)[position]? = some v) (hchoice : assignment[position]? = some choice) :
    (problem old new).choiceCost (assignment.take position) position choice =
      ownCost old new (v, choice) + ∑ other ∈ decidedOlds old new (position + 1),
        neighborCost (Matching.ofAssignment old new assignment) old new v other := by
  unfold Problem.choiceCost
  rw [problem_eq]
  simp only [List.getElem?_map, hv, Option.map_some]
  cases choice with
  | unmatched =>
    have hnone := (image?_eq_none_iff_of_searched h hv).2 hchoice
    exact unmatchedCost_eq (length_take_of_getElem? hchoice) hnone
  | candidate candidate =>
    obtain ⟨target, htarget⟩ := exists_target h hchoice
    simp only [htarget, Option.map_some, ownCost]
    exact matchedCost_eq h hchoice hv htarget

/-- One more element in both places of a pair. -/
theorem sum_product_insert {ids : Finset Nat} {v : Nat} (hv : v ∉ ids) (f : Nat × Nat → Nat) :
    ∑ pair ∈ insert v ids ×ˢ insert v ids, f pair =
      ∑ pair ∈ ids ×ˢ ids, f pair +
        ∑ other ∈ insert v ids, (f (v, other) + if other = v then 0 else f (other, v)) := by
  have hothers : ∑ other ∈ ids, (f (v, other) + if other = v then 0 else f (other, v)) =
      ∑ other ∈ ids, f (v, other) + ∑ other ∈ ids, f (other, v) := by
    rw [← Finset.sum_add_distrib]
    apply Finset.sum_congr rfl
    intro other hother
    rw [if_neg fun heq : other = v => hv (heq ▸ hother)]
  rw [Finset.sum_insert hv, hothers]
  simp only [Finset.sum_product, Finset.sum_insert hv, if_true, Finset.sum_add_distrib]
  omega

/-- The decisions made so far cost their own steps and those on the edges between decided vertices,
but for the edges between anchored ones. -/
theorem spending_take (h : (problem old new).IsAssignment assignment) {n : Nat}
    (hn : n ≤ assignment.length) :
    (problem old new).spending [] (assignment.take n) +
        ∑ pair ∈ decidedOlds old new 0 ×ˢ decidedOlds old new 0,
          (Matching.ofAssignment old new assignment).pairCost old new pair =
      ((((oldSearched old new).zip assignment).take n).map (ownCost old new)).sum +
        ∑ pair ∈ decidedOlds old new n ×ˢ decidedOlds old new n,
          (Matching.ofAssignment old new assignment).pairCost old new pair := by
  -- one more decided vertex adds the edges between it and those decided before it, and nothing else
  induction n with
  | zero => simp [Problem.spending]
  | succ n ih =>
    have hchoice := List.getElem?_eq_getElem (Nat.lt_of_succ_le hn)
    have hlt := lt_length_oldSearched h hchoice
    have hv := List.getElem?_eq_getElem hlt
    have hzip : ((oldSearched old new).zip assignment)[n]? =
        some ((oldSearched old new)[n], assignment[n]) :=
      List.getElem?_zip_eq_some.2 ⟨hv, hchoice⟩
    have hlength := length_take_of_getElem? hchoice
    rw [List.take_add_one, List.take_add_one, hchoice, hzip, Option.toList_some, Option.toList_some,
      Problem.spending_append, List.map_append, List.sum_append, decidedOlds_succ hv,
      sum_product_insert (not_mem_decidedOlds hv)]
    have hcost := choiceCost_eq h hv hchoice
    rw [decidedOlds_succ hv] at hcost
    simp only [Problem.spending, List.nil_append, hlength, hcost, List.map_cons, List.map_nil,
      List.sum_cons, List.sum_nil]
    unfold neighborCost
    have := ih (Nat.le_of_succ_le hn)
    omega

end SchemaDelta.Unanchored

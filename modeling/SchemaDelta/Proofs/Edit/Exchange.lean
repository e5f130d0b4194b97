import SchemaDelta.Proofs.Assignment.Optimum
import SchemaDelta.Proofs.Edit.Accounts
import SchemaDelta.Proofs.Edit.Agreement
import SchemaDelta.Proofs.Edit.Transformation

/-!
A search that is carried out leaves no two vertices apart that it might have matched, for the script
is shorter with one pair more. So it never deletes a vertex that has no owner and inserts another of
its kind.
-/

namespace SchemaDelta

open Assignment

/-! ## One more choice -/

namespace Assignment.Problem

variable {p : Problem} {decided rest assignment : List Choice} {position target : Nat}

/-- Nothing is open to an element whose owner is left unmatched, so no other element minds what its
owner is assigned to. -/
theorem ownersAgree_set (hposition : decided[position]? = some .unmatched)
    {oldOwner newOwner : Option Role} (h : ownersAgree decided oldOwner newOwner = true) :
    ownersAgree (decided.set position (.candidate target)) oldOwner newOwner = true := by
  rcases oldOwner with _ | _ | source | owner
  · cases newOwner <;> exact h
  · cases newOwner <;> exact h
  · cases newOwner <;> exact h
  · cases newOwner with
    | none => exact h
    | some newOwner =>
      by_cases howner : owner = position
      · simp [ownersAgree, howner, hposition] at h
      · simpa [ownersAgree, List.getElem?_set_ne (Ne.symm howner)] using h

theorem mem_openChoices_set (hposition : decided[position]? = some .unmatched) {choice : Choice}
    (hne : choice ≠ .candidate target) {other : Nat} (h : choice ∈ p.openChoices decided other) :
    choice ∈ p.openChoices (decided.set position (.candidate target)) other := by
  cases choice with
  | unmatched => exact unmatched_mem_openChoices.2 (unmatched_mem_openChoices.1 h)
  | candidate wanted =>
    obtain ⟨old, new, hold, hnew, hopen⟩ := candidate_mem_openChoices.1 h
    refine candidate_mem_openChoices.2 ⟨old, new, hold, hnew, ?_⟩
    simp only [isOpen, Bool.and_eq_true, Bool.not_eq_true', Bool.eq_false_iff, Ne, isUsed_iff]
      at hopen ⊢
    obtain ⟨⟨hkind, hunused⟩, howners⟩ := hopen
    exact ⟨⟨hkind, fun hmem => (List.mem_or_eq_of_mem_set hmem).elim hunused hne⟩,
      ownersAgree_set hposition howners⟩

theorem follows_set (h : p.Follows decided rest) (hposition : decided[position]? = some .unmatched)
    (hunused : .candidate target ∉ rest) :
    p.Follows (decided.set position (.candidate target)) rest := by
  induction rest generalizing decided with
  | nil => trivial
  | cons choice rest ih =>
    have hlt := (List.getElem?_eq_some_iff.1 hposition).1
    refine ⟨?_, ?_⟩
    · rw [List.length_set]
      exact mem_openChoices_set hposition (fun heq => hunused (heq ▸ List.mem_cons_self)) h.1
    · rw [← List.set_append_left _ _ hlt]
      exact ih h.2 (by rwa [List.getElem?_append_left hlt]) fun hmem =>
        hunused (List.mem_cons_of_mem _ hmem)

/-- An unmatched element may be assigned to a new one that is open to it and not used later. -/
theorem isFeasible_set (h : p.IsFeasible assignment)
    (hposition : assignment[position]? = some .unmatched)
    (hopen : .candidate target ∈ p.openChoices (assignment.take position) position)
    (hunused : .candidate target ∉ assignment) :
    p.IsFeasible (assignment.set position (.candidate target)) := by
  obtain ⟨hlt, hget⟩ := List.getElem?_eq_some_iff.1 hposition
  have hlength : (assignment.take position).length = position := by
    rw [List.length_take]
    omega
  have hsplit : assignment.take (position + 1) ++ assignment.drop (position + 1) = assignment :=
    List.take_append_drop _ _
  -- what is decided up to the position, with the new choice in the place of the old one
  have hset : (assignment.take (position + 1)).set position (.candidate target) =
      assignment.take position ++ [.candidate target] := by
    rw [List.take_add_one, hposition, List.set_append_right _ _ (Nat.le_of_eq hlength), hlength,
      Nat.sub_self]
    rfl
  refine ⟨by rw [List.length_set, h.1], ?_⟩
  have hfollows := h.2
  rw [← hsplit, follows_append, List.nil_append] at hfollows
  rw [← hsplit, List.set_append_left _ _ (by simp; omega), follows_append, List.nil_append, hset]
  constructor
  · refine follows_concat ?_ (by rwa [hlength])
    have hprefix := hfollows.1
    rw [List.take_add_one, follows_append] at hprefix
    exact hprefix.1
  · rw [← hset]
    refine follows_set hfollows.2 ?_ fun hmem => hunused (List.mem_of_mem_drop hmem)
    rw [List.getElem?_take_of_lt (Nat.lt_succ_self _), hposition]

end Assignment.Problem

/-! ## One more pair -/

variable {old new : Graph} {m m' : Matching}

theorem Assignment.labelCost_le_add (labels labels' : List String) :
    labelCost labels labels' ≤ labels.length + labels'.length := by
  unfold labelCost
  omega

namespace Realization

/-- The pairs of old vertices that are matched by more pairs only. -/
def newlyMatched (m m' : Matching) (pair : Nat × Nat) : Bool :=
  bothMatched m' pair && !bothMatched m pair

variable (h' : m'.IsOneToOne) (hsub : m.pairs ⊆ m'.pairs)

include h' hsub

theorem image?_of_subset {source target : Nat} (himage : m.image? source = some target) :
    m'.image? source = some target :=
  h'.image?_eq_some_iff.2 (hsub (Matching.mem_of_image? himage))

theorem isSome_image?_of_preimage? {source target : Nat} (hmem : (source, target) ∈ m'.pairs)
    (hpreimage : (m.preimage? target).isSome) : (m.image? source).isSome := by
  obtain ⟨source', hsource'⟩ := Option.isSome_iff_exists.1 hpreimage
  have hmem' := Matching.mem_of_preimage? hsource'
  cases h'.eq_source (hsub hmem') hmem
  rw [Option.isSome_iff_ne_none]
  exact fun hnone => Matching.image?_eq_none_iff.1 hnone target hmem'

/-- With more pairs, the steps on the old edges from one vertex to another are as many as before or,
if new edges are there to be paired with them, as many as before with those on the new edges. -/
theorem pairCost_le (pair : Nat × Nat) : m'.pairCost old new pair ≤ m.pairCost old new pair +
    if newlyMatched m m' pair then
      (new.labelsBetween (counterparts m' pair).1 (counterparts m' pair).2).length
    else 0 := by
  cases hboth : bothMatched m pair with
  | true =>
    obtain ⟨hone, htwo⟩ := counterparts_of_bothMatched hboth
    unfold Matching.pairCost
    rw [hone, htwo, image?_of_subset h' hsub hone, image?_of_subset h' hsub htwo]
    exact Nat.le_add_right _ _
  | false =>
    rw [pairCost_of_not_bothMatched hboth]
    cases hboth' : bothMatched m' pair with
    | false =>
      rw [pairCost_of_not_bothMatched hboth']
      exact Nat.le_add_right _ _
    | true =>
      obtain ⟨hone, htwo⟩ := counterparts_of_bothMatched hboth'
      have hnewly : newlyMatched m m' pair = true := by simp [newlyMatched, hboth, hboth']
      unfold Matching.pairCost
      rw [hone, htwo, if_pos hnewly]
      exact labelCost_le_add _ _

/-- The new edges between the counterparts of newly matched vertices are inserted no more. -/
theorem insertionCost_counterparts {pair : Nat × Nat} (hpair : newlyMatched m m' pair = true) :
    m.insertionCost new (counterparts m' pair) =
        (new.labelsBetween (counterparts m' pair).1 (counterparts m' pair).2).length ∧
      m'.insertionCost new (counterparts m' pair) = 0 := by
  obtain ⟨hboth', hnot⟩ := Bool.and_eq_true_iff.1 hpair
  obtain ⟨hone, htwo⟩ := counterparts_of_bothMatched hboth'
  have hmem := Matching.mem_of_image? hone
  have hmem' := Matching.mem_of_image? htwo
  constructor
  · refine if_neg fun hpreimages => ?_
    rw [Bool.and_eq_true] at hpreimages
    have hsource := isSome_image?_of_preimage? h' hsub hmem hpreimages.1
    have hsource' := isSome_image?_of_preimage? h' hsub hmem' hpreimages.2
    simp [bothMatched, hsource, hsource'] at hnot
  · unfold Matching.insertionCost
    rw [h'.preimage?_eq_some_iff.2 hmem, h'.preimage?_eq_some_iff.2 hmem']
    rfl

theorem insertionCost_le (pair : Nat × Nat) :
    m'.insertionCost new pair ≤ m.insertionCost new pair := by
  have hmatched {target : Nat} (hpreimage : (m.preimage? target).isSome) :
      (m'.preimage? target).isSome := by
    obtain ⟨source, hsource⟩ := Option.isSome_iff_exists.1 hpreimage
    rw [h'.preimage?_eq_some_iff.2 (hsub (Matching.mem_of_preimage? hsource))]
    rfl
  unfold Matching.insertionCost
  split
  · exact Nat.zero_le _
  · next hnot' =>
    rw [if_neg]
    intro hboth
    rw [Bool.and_eq_true] at hboth
    exact hnot' (by simp [hmatched hboth.1, hmatched hboth.2])

theorem sum_pairCost_le (old new : Graph) (olds : Finset (Nat × Nat)) :
    ∑ pair ∈ olds, m'.pairCost old new pair ≤ ∑ pair ∈ olds, m.pairCost old new pair +
      ∑ pair ∈ olds.filter fun pair => newlyMatched m m' pair = true,
        (new.labelsBetween (counterparts m' pair).1 (counterparts m' pair).2).length := by
  rw [Finset.sum_filter, ← Finset.sum_add_distrib]
  exact Finset.sum_le_sum fun pair _ => pairCost_le h' hsub pair

/-- What the newly matched vertices may cost more is what their counterparts did cost. -/
theorem sum_insertionCost_le (new : Graph) (olds : Finset (Nat × Nat)) {news : Finset Nat}
    (hnews : ∀ {source target : Nat}, (source, target) ∈ m'.pairs → target ∈ news) :
    ∑ pair ∈ olds.filter fun pair => newlyMatched m m' pair = true,
        (new.labelsBetween (counterparts m' pair).1 (counterparts m' pair).2).length +
      ∑ pair ∈ news ×ˢ news, m'.insertionCost new pair ≤
        ∑ pair ∈ news ×ˢ news, m.insertionCost new pair := by
  let newly := olds.filter fun pair => newlyMatched m m' pair = true
  have hnewly {pair : Nat × Nat} (hpair : pair ∈ newly) : newlyMatched m m' pair = true :=
    (Finset.mem_filter.1 hpair).2
  have hboth {pair : Nat × Nat} (hpair : pair ∈ newly) : bothMatched m' pair = true :=
    (Bool.and_eq_true_iff.1 (hnewly hpair)).1
  have hinjective : Set.InjOn (counterparts m') newly := fun pair hpair pair' hpair' heq =>
    counterparts_injOn h' (hboth hpair) (hboth hpair') heq
  have hsubset : newly.image (counterparts m') ⊆ news ×ˢ news := by
    intro ends hends
    obtain ⟨pair, hpair, rfl⟩ := Finset.mem_image.1 hends
    obtain ⟨hone, htwo⟩ := counterparts_of_bothMatched (hboth hpair)
    exact Finset.mem_product.2 ⟨hnews (Matching.mem_of_image? hone),
      hnews (Matching.mem_of_image? htwo)⟩
  have hlabels : ∑ pair ∈ newly,
        (new.labelsBetween (counterparts m' pair).1 (counterparts m' pair).2).length =
      ∑ ends ∈ newly.image (counterparts m'), m.insertionCost new ends := by
    rw [Finset.sum_image hinjective]
    exact Finset.sum_congr rfl fun pair hpair =>
      (insertionCost_counterparts h' hsub (hnewly hpair)).1.symm
  have hnone : ∑ ends ∈ newly.image (counterparts m'), m'.insertionCost new ends = 0 := by
    rw [Finset.sum_image hinjective]
    exact Finset.sum_eq_zero fun pair hpair =>
      (insertionCost_counterparts h' hsub (hnewly hpair)).2
  have hrest : ∑ ends ∈ (news ×ˢ news) \ newly.image (counterparts m'),
        m'.insertionCost new ends ≤
      ∑ ends ∈ (news ×ˢ news) \ newly.image (counterparts m'), m.insertionCost new ends :=
    Finset.sum_le_sum fun ends _ => insertionCost_le h' hsub ends
  rw [hlabels, ← Finset.sum_sdiff hsubset, ← Finset.sum_sdiff hsubset (f := m.insertionCost new)]
  omega

/-- More pairs take no more steps on edges. -/
theorem edgeCost_le (old new : Graph) (olds : Finset (Nat × Nat)) {news : Finset Nat}
    (hnews : ∀ {source target : Nat}, (source, target) ∈ m'.pairs → target ∈ news) :
    ∑ pair ∈ olds, m'.pairCost old new pair + ∑ pair ∈ news ×ˢ news, m'.insertionCost new pair ≤
      ∑ pair ∈ olds, m.pairCost old new pair +
        ∑ pair ∈ news ×ˢ news, m.insertionCost new pair := by
  have hpairs := sum_pairCost_le h' hsub old new olds
  have hinserted := sum_insertionCost_le h' hsub new olds hnews
  omega

end Realization

/-! ## Cheaper assignments -/

namespace Unanchored

variable {assignment : List Choice} {position candidate source target : Nat}

/-- An assignment that assigns one vertex more stands for one pair more. -/
theorem pairs_set_perm (h : (problem old new).IsAssignment assignment)
    (h' : (problem old new).IsAssignment (assignment.set position (.candidate candidate)))
    (hunmatched : assignment[position]? = some .unmatched)
    (hsource : (oldSearched old new)[position]? = some source)
    (htarget : (newSearched old new)[candidate]? = some target) :
    (pairs old new (assignment.set position (.candidate candidate))).Perm
      ((source, target) :: pairs old new assignment) := by
  have hlt := (List.getElem?_eq_some_iff.1 hunmatched).1
  have hnodup {assignment : List Choice} (h : (problem old new).IsAssignment assignment) :
      (pairs old new assignment).Nodup :=
    .of_map _ (nodup_sources_pairs old new (Nat.le_of_eq (length_assignment h).symm))
  have hfresh : (source, target) ∉ pairs old new assignment := by
    intro hmem
    obtain ⟨index, _, hindex, hchoice, -⟩ := mem_pairs.1 hmem
    rw [index_eq_of_nodup (nodup_searched ..) hindex hsource, hunmatched] at hchoice
    cases hchoice
  refine (List.perm_ext_iff_of_nodup (hnodup h') (List.nodup_cons.2 ⟨hfresh, hnodup h⟩)).2 ?_
  rintro ⟨one, two⟩
  rw [List.mem_cons, mem_pairs, mem_pairs]
  constructor
  · rintro ⟨index, wanted, hone, hchoice, htwo⟩
    -- only the choice at the position is another
    by_cases hindex : position = index
    · subst hindex
      rw [List.getElem?_set_self hlt] at hchoice
      cases hchoice
      cases hone.symm.trans hsource
      cases htwo.symm.trans htarget
      exact Or.inl rfl
    · rw [List.getElem?_set_ne hindex] at hchoice
      exact Or.inr ⟨index, wanted, hone, hchoice, htwo⟩
  · rintro (heq | ⟨index, wanted, hone, hchoice, htwo⟩)
    · cases heq
      exact ⟨position, candidate, hsource, List.getElem?_set_self hlt, htarget⟩
    · refine ⟨index, wanted, hone, ?_, htwo⟩
      rwa [List.getElem?_set_ne]
      rintro rfl
      rw [hunmatched] at hchoice
      cases hchoice

/-- What the decisions cost without the edges, by the pairs they add. -/
theorem sum_ownCost_zip (h : (problem old new).IsAssignment assignment) :
    (((oldSearched old new).zip assignment).map (ownCost old new)).sum +
        (pairs old new assignment).length =
      (oldSearched old new).length + (pairs old new assignment).countP (nameDiffers old new) := by
  have hlength : ((oldSearched old new).zip assignment).length = (oldSearched old new).length := by
    rw [List.length_zip, length_assignment h, Nat.min_self]
  rw [← hlength]
  apply sum_ownCost
  intro source candidate hmem
  obtain ⟨position, hposition⟩ := List.mem_iff_getElem?.1 hmem
  exact exists_target h (List.getElem?_zip_eq_some.1 hposition).2

/-- The cost of an assignment, as a sum over pairs of vertices. -/
theorem cost_add_anchored (h : (problem old new).IsAssignment assignment) :
    (problem old new).cost assignment +
        ∑ pair ∈ decidedOlds old new 0 ×ˢ decidedOlds old new 0,
          (Matching.anchors old new).pairCost old new pair =
      (((oldSearched old new).zip assignment).map (ownCost old new)).sum +
        ((comparedNews old new).filter fun target =>
          ¬ ((Matching.ofAssignment old new assignment).preimage? target).isSome).card +
        (∑ pair ∈ decidedOlds old new (oldSearched old new).length ×ˢ
            decidedOlds old new (oldSearched old new).length,
          (Matching.ofAssignment old new assignment).pairCost old new pair +
        ∑ pair ∈ comparedNews old new ×ˢ comparedNews old new,
          (Matching.ofAssignment old new assignment).insertionCost new pair) := by
  have hlength := length_assignment h
  have hspending := spending_take h assignment.length.le_refl
  rw [List.take_length, List.take_of_length_le (by simp [hlength]), sum_pairCost_anchored h,
    hlength] at hspending
  unfold Problem.cost
  rw [leftoverCost_eq h]
  omega

/-- It is cheaper to assign an unmatched vertex to a new one than to delete it and insert that. -/
theorem cost_set_lt (h : (problem old new).IsAssignment assignment)
    (h' : (problem old new).IsAssignment (assignment.set position (.candidate candidate)))
    (hunmatched : assignment[position]? = some .unmatched) :
    (problem old new).cost (assignment.set position (.candidate candidate)) <
      (problem old new).cost assignment := by
  have hsource := List.getElem?_eq_getElem (lt_length_oldSearched h hunmatched)
  obtain ⟨target, htarget⟩ :=
    exists_target h' (List.getElem?_set_self (List.getElem?_eq_some_iff.1 hunmatched).1)
  have hperm := pairs_set_perm h h' hunmatched hsource htarget
  have hsub : (Matching.ofAssignment old new assignment).pairs ⊆
      (Matching.ofAssignment old new (assignment.set position (.candidate candidate))).pairs := by
    intro pair hpair
    rcases Matching.mem_ofAssignment.1 hpair with hanchor | hpair
    · exact Matching.mem_ofAssignment.2 (Or.inl hanchor)
    · exact Matching.mem_ofAssignment.2 (Or.inr (hperm.mem_iff.2 (List.mem_cons_of_mem _ hpair)))
  have hedges := Realization.edgeCost_le (Matching.ofAssignment_isOneToOne h') hsub old new
    (decidedOlds old new (oldSearched old new).length ×ˢ
      decidedOlds old new (oldSearched old new).length) mem_comparedNews_of_mem_pairs
  have hcost := cost_add_anchored h
  have hcost' := cost_add_anchored h'
  -- one vertex less is inserted, and a change of name costs no more than the deletion did
  have hleft := card_left h
  have hleft' := card_left h'
  have hown := sum_ownCost_zip h
  have hown' := sum_ownCost_zip h'
  have hlength := hperm.length_eq
  have hnames := hperm.countP_eq (nameDiffers old new)
  rw [List.length_cons] at hlength
  rw [List.countP_cons] at hnames
  split at hnames <;> omega

/-- Vertices of one kind that have no owner may be matched as long as neither is. -/
theorem candidate_mem_openChoices {decided : List Choice} {v w : Vertex}
    (hsource : (oldSearched old new)[position]? = some source)
    (htarget : (newSearched old new)[candidate]? = some target)
    (hv : old.vertex? source = some v) (hw : new.vertex? target = some w) (hkind : v.kind = w.kind)
    (howner : old.owner? source = none) (howner' : new.owner? target = none)
    (hunused : .candidate candidate ∉ decided) :
    .candidate candidate ∈ (problem old new).openChoices decided position := by
  rw [Problem.candidate_mem_openChoices, problem_eq]
  refine ⟨member old (oldRole old new) source, member new (newRole old new) target,
    by rw [List.getElem?_map, hsource]; rfl, by rw [List.getElem?_map, htarget]; rfl, ?_⟩
  have hnotUsed : Problem.isUsed decided candidate = false := by
    rwa [Bool.eq_false_iff, Ne, Problem.isUsed_iff]
  simp [Problem.isOpen, Problem.ownersAgree, hnotUsed, member, hv, hw, hkind, howner, howner']

/-- The best assignment leaves no two vertices of a kind apart that have no owner. -/
theorem isSome_preimage?_of_isBest (h : (problem old new).IsBest assignment) {v w : Vertex}
    (hv : old.vertex? source = some v) (hw : new.vertex? target = some w) (hkind : v.kind = w.kind)
    (howner : old.owner? source = none) (howner' : new.owner? target = none)
    (hsource : (Matching.ofAssignment old new assignment).image? source = none) :
    ((Matching.ofAssignment old new assignment).preimage? target).isSome := by
  by_contra htarget
  have hassignment := h.1.isAssignment
  have hfree : (Matching.anchors old new).image? source = none :=
    Matching.image?_eq_none_iff.2 fun target hmem =>
      Matching.image?_eq_none_iff.1 hsource target (Matching.mem_ofAssignment.2 (Or.inl hmem))
  have hfree' : (Matching.anchors old new).preimage? target = none :=
    Matching.preimage?_eq_none_iff.2 fun source hmem =>
      Matching.preimage?_eq_none_iff.1 (Option.not_isSome_iff_eq_none.1 htarget) source
        (Matching.mem_ofAssignment.2 (Or.inl hmem))
  -- neither is anchored, so both are searched, each because of the other
  obtain ⟨position, hposition⟩ := List.mem_iff_getElem?.1 (show source ∈ oldSearched old new from
    mem_searched_iff.2 ⟨by rw [hfree]; rfl, v, hv, target, w, hw, by rw [hfree']; rfl, hkind.symm⟩)
  obtain ⟨candidate, hcandidate⟩ := List.mem_iff_getElem?.1 (show target ∈ newSearched old new from
    mem_searched_iff.2 ⟨by rw [hfree']; rfl, w, hw, source, v, hv, by rw [hfree]; rfl, hkind⟩)
  have hunmatched := (image?_eq_none_iff_of_searched hassignment hposition).1 hsource
  rw [← isUsed_iff_of_searched hassignment hcandidate, Problem.isUsed_iff] at htarget
  have hopen := candidate_mem_openChoices hposition hcandidate hv hw hkind howner howner'
    fun hmem => htarget (List.mem_of_mem_take (i := position) hmem)
  have hfeasible := Problem.isFeasible_set h.1 hunmatched hopen htarget
  have hless := cost_set_lt hassignment hfeasible.isAssignment hunmatched
  exact absurd (Standing.cost_le_of_le (h.2 _ hfeasible)) (Nat.not_le.2 hless)

end Unanchored

/-! ## Scripts -/

/-- A search that is not given up does not delete a vertex without an owner and insert another one
of its kind. -/
theorem Script.approximate_of_deleted_and_inserted {config : Config} {clock : Clock}
    {source target : Nat} {v w : Vertex} (hv : old.vertex? source = some v)
    (hw : new.vertex? target = some w) (hkind : v.kind = w.kind)
    (howner : old.owner? source = none) (howner' : new.owner? target = none)
    (hdeleted : .deleteVertex source ∈ (Script.between old new config clock).operations)
    (hinserted : .insertVertex target ∈ (Script.between old new config clock).operations) :
    (Script.between old new config clock).approximate = true := by
  unfold Script.between Matching.searched? at *
  cases hfound : (Unanchored.problem old new).best? config.workers (config.budget.allows clock) with
  | none => rfl
  | some found =>
    have hbest := Problem.isBest_of_best?_eq_some hfound
    rw [hfound] at hdeleted hinserted
    have hcorrespondence := Matching.ofAssignment_isCorrespondence hbest.1.isAssignment
    obtain ⟨edges, hedges, hperm⟩ := hcorrespondence.exists_operations_perm
    have haccount := (accountFor_stepsOf hcorrespondence hedges).of_perm hperm
    have hmatched := Unanchored.isSome_preimage?_of_isBest hbest hv hw hkind howner howner'
      (Matching.image?_eq_none_iff.2 ((haccount.deleteVertex_mem_iff source).1 hdeleted).2)
    rw [Matching.preimage?_eq_none_iff.2 ((haccount.insertVertex_mem_iff target).1 hinserted).2]
      at hmatched
    cases hmatched

end SchemaDelta

import SchemaDelta.Edit.Realization
import SchemaDelta.Proofs.Assignment.Labels
import SchemaDelta.Proofs.Ordering

/-!
The edges between two matched vertices take as many steps as it costs to turn their labels into
those of the new edges: when equal labels cancel, each side is left with the labels that the other
has not.
-/

namespace SchemaDelta.Realization

open Assignment

/-! ## What cancels -/

theorem map_label_eraseP (news : List Strand) (label : String) :
    (news.eraseP fun new => new.label == label).map Strand.label =
      (news.map Strand.label).erase label := by
  induction news with
  | nil => rfl
  | cons new news ih =>
    rw [List.map_cons, List.erase_cons, List.eraseP_cons]
    by_cases h : (new.label == label) = true
    · simp [h]
    · simp [h, ih]

theorem cancel_cons_of_not_mem {old : Strand} {olds news : List Strand}
    (h : old.label ∉ news.map Strand.label) :
    cancel (old :: olds) news = (old :: (cancel olds news).1, (cancel olds news).2) := by
  have hnone : ¬ (news.any fun new => new.label == old.label) = true := by simpa using h
  rw [cancel, if_neg hnone]

theorem cons_sub_of_mem {label : String} {labels others : Multiset String} (h : label ∈ others) :
    label ::ₘ labels - others = labels - others.erase label := by
  obtain ⟨rest, rfl⟩ := Multiset.exists_cons_of_mem h
  rw [Multiset.sub_cons, Multiset.erase_cons_head, Multiset.erase_cons_head]

theorem cons_sub_of_not_mem {label : String} {labels others : Multiset String}
    (h : label ∉ others) : label ::ₘ labels - others = label ::ₘ (labels - others) := by
  rw [← Multiset.sub_inter, Multiset.cons_inter_of_neg _ h,
    Multiset.cons_sub_of_le _ Multiset.inter_le_left, Multiset.sub_inter]

/-- What is left has the labels that are not on the other side, repeats counted. -/
theorem labels_cancel (olds news : List Strand) :
    ((cancel olds news).1.map Strand.label : Multiset String) =
        (olds.map Strand.label : Multiset String) - (news.map Strand.label : Multiset String) ∧
      ((cancel olds news).2.map Strand.label : Multiset String) =
        (news.map Strand.label : Multiset String) - (olds.map Strand.label : Multiset String) := by
  induction olds generalizing news with
  | nil => exact ⟨(Multiset.zero_sub _).symm, (Multiset.sub_zero _).symm⟩
  | cons old olds ih =>
    rw [List.map_cons, ← Multiset.cons_coe, Multiset.sub_cons]
    by_cases h : old.label ∈ news.map Strand.label
    · have hany : (news.any fun new => new.label == old.label) = true := by simpa using h
      obtain ⟨holds, hnews⟩ := ih (news.eraseP fun new => new.label == old.label)
      rw [map_label_eraseP, ← Multiset.coe_erase] at holds hnews
      rw [cancel, if_pos hany, holds, hnews, cons_sub_of_mem (Multiset.mem_coe.2 h)]
      exact ⟨rfl, rfl⟩
    · obtain ⟨holds, hnews⟩ := ih news
      have hnot : old.label ∉ (news.map Strand.label : Multiset String) := mt Multiset.mem_coe.1 h
      rw [cancel_cons_of_not_mem h, List.map_cons, ← Multiset.cons_coe, holds, hnews,
        cons_sub_of_not_mem hnot, Multiset.erase_of_notMem hnot]
      exact ⟨rfl, rfl⟩

theorem length_cancel (olds news : List Strand) :
    (cancel olds news).1.length +
        (commonLabels (olds.map Strand.label) (news.map Strand.label)).length = olds.length ∧
      (cancel olds news).2.length +
        (commonLabels (olds.map Strand.label) (news.map Strand.label)).length = news.length := by
  obtain ⟨holds, hnews⟩ := labels_cancel olds news
  have hold := congrArg Multiset.card (Multiset.sub_add_inter
    (olds.map Strand.label : Multiset String) (news.map Strand.label : Multiset String))
  have hnew := congrArg Multiset.card (Multiset.sub_add_inter
    (news.map Strand.label : Multiset String) (olds.map Strand.label : Multiset String))
  rw [Multiset.card_add, ← holds] at hold
  rw [Multiset.card_add, ← hnews, Multiset.inter_comm] at hnew
  simp only [Multiset.coe_card, List.length_map] at hold hnew
  rw [length_commonLabels]
  exact ⟨hold, hnew⟩

/-! ## Steps -/

theorem length_pairOff (olds news : List Strand) :
    (pairOff olds news).length = max olds.length news.length := by
  induction olds generalizing news with
  | nil => simp [pairOff]
  | cons old olds ih =>
    cases news with
    | nil => simp [pairOff]
    | cons new news =>
      rw [pairOff, List.length_cons, ih, List.length_cons, List.length_cons]
      omega

theorem length_bundleOperations (olds news : List Strand) :
    (bundleOperations olds news).length =
      labelCost (olds.map Strand.label) (news.map Strand.label) := by
  have holds := sortBy_perm Strand.compare olds
  have hnews := sortBy_perm Strand.compare news
  rw [labelCost_perm (holds.symm.map _) (hnews.symm.map _)]
  unfold bundleOperations labelCost
  rw [length_pairOff]
  have hlengths := length_cancel (sortBy Strand.compare olds) (sortBy Strand.compare news)
  simp only [List.length_map]
  omega

/-- Between vertices without edges there is nothing to do. -/
theorem bundleOperations_eq_nil {olds news : List Strand} {ends : Nat × Nat}
    (h : ends ∉ (olds ++ news).map Strand.ends) :
    bundleOperations (olds.filter fun strand => strand.ends == ends)
      (news.filter fun strand => strand.ends == ends) = [] := by
  have hnone {strands : List Strand} (hsub : strands ⊆ olds ++ news) :
      (strands.filter fun strand => strand.ends == ends) = [] := by
    refine List.filter_eq_nil_iff.2 fun strand hstrand heq => h ?_
    exact List.mem_map.2 ⟨strand, hsub hstrand, beq_iff_eq.1 heq⟩
  rw [hnone (List.subset_append_left _ _), hnone (List.subset_append_right _ _)]
  rfl

/-! ## Bundles without labels in common -/

theorem bundleOperations_self (strands : List Strand) : bundleOperations strands strands = [] := by
  rw [← List.length_eq_zero_iff, length_bundleOperations, labelCost_self]

theorem cancel_of_ne {olds news : List Strand} (h : ∀ a ∈ olds, ∀ b ∈ news, b.label ≠ a.label) :
    cancel olds news = (olds, news) := by
  induction olds with
  | nil => rfl
  | cons old olds ih =>
    have hnot : old.label ∉ news.map Strand.label := by simpa using h old List.mem_cons_self
    rw [cancel_cons_of_not_mem hnot, ih fun a ha => h a (List.mem_cons_of_mem _ ha)]

theorem pairOff_map (f g : Nat → Strand) (ids : List Nat) :
    pairOff (ids.map f) (ids.map g) = ids.map fun id => .changeEdge (f id).id (g id).id := by
  induction ids with
  | nil => rfl
  | cons id ids ih => rw [List.map_cons, List.map_cons, pairOff, ih, List.map_cons]

/-- If all edges in a bundle change one label for one other, each is changed into the one with its
number. -/
theorem bundleOperations_map {label label' : String} (hne : label' ≠ label) (one two : Nat)
    (ids : List Nat) :
    bundleOperations (ids.map (⟨one, two, label, ·⟩)) (ids.map (⟨one, two, label', ·⟩)) =
      (sortBy compare ids).map fun id => .changeEdge id id := by
  have hsorted (label : String) : sortBy Strand.compare (ids.map (⟨one, two, label, ·⟩)) =
      (sortBy compare ids).map (⟨one, two, label, ·⟩) :=
    sortBy_map fun a _ b _ => by simp [Strand.compare, compareLex, compareOn]
  unfold bundleOperations
  rw [hsorted, hsorted, cancel_of_ne, pairOff_map]
  intro a ha b hb
  obtain ⟨_, -, rfl⟩ := List.mem_map.1 ha
  obtain ⟨_, -, rfl⟩ := List.mem_map.1 hb
  exact hne

end SchemaDelta.Realization

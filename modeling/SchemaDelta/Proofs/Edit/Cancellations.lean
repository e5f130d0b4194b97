import SchemaDelta.Edit.Cancellation
import SchemaDelta.Proofs.Edit.Bundles
import SchemaDelta.Proofs.Edit.Ordered

/-!
To compare parallel edges in the order of their labels leaves the same edges as to look for an equal
label each time: an edge that is put aside has a smaller label than all that is left on the other
side, so nothing would cancel it.
-/

namespace SchemaDelta.Realization

variable {olds news : List Strand} {old new : Strand}

/-! ## First edges -/

theorem cancel_cons_right_of_not_mem (h : new.label ∉ olds.map Strand.label) :
    cancel olds (new :: news) = ((cancel olds news).1, new :: (cancel olds news).2) := by
  induction olds generalizing news with
  | nil => rfl
  | cons old olds ih =>
    have hhead : (new.label == old.label) = false := beq_false_of_ne (List.ne_of_not_mem_cons h)
    simp only [cancel, List.any_cons, List.eraseP_cons, hhead, Bool.false_or, cond_false,
      ih (List.not_mem_of_not_mem_cons h)]
    split <;> rfl

theorem cancel_cons_cons_of_eq (h : old.label = new.label) :
    cancel (old :: olds) (new :: news) = cancel olds news := by
  simp [cancel, h]

/-! ## In the order of labels -/

namespace Cancellation

variable {c next : Cancellation}

/-- What is put aside in the end, if the edges that are left cancel. -/
def outcome (c : Cancellation) : List Strand × List Strand :=
  (c.asideOlds ++ (cancel c.olds c.news).1, c.asideNews ++ (cancel c.olds c.news).2)

/-- Whether edges are in the order of their labels. -/
def InOrder (strands : List Strand) : Prop :=
  (strands.map Strand.label).Pairwise fun a b => (compare a b).isLE

theorem inOrder_sortBy (strands : List Strand) : InOrder (sortBy Strand.compare strands) := by
  refine List.pairwise_map.2 ((sortBy_pairwise Strand.compare strands).imp fun {a b} h => ?_)
  unfold Strand.compare compareLex compareOn at h
  cases hlabel : compare a.label b.label with
  | gt => simp [hlabel] at h
  | _ => rfl

/-- A label that is smaller than the first one is on no edge. -/
theorem not_mem_labels {label : String} {strands : List Strand} (h : InOrder strands)
    (hfirst : ∀ first ∈ strands.head?, compare label first.label = .lt) :
    label ∉ strands.map Strand.label := by
  cases strands with
  | nil => exact List.not_mem_nil
  | cons first rest => exact not_mem_of_compare_first h (hfirst first rfl)

theorem InOrder.of_cons {first : Strand} {rest : List Strand} (h : InOrder (first :: rest)) :
    InOrder rest :=
  (List.pairwise_cons.1 h).2

/-- A step neither disturbs the order nor changes what is put aside in the end. -/
theorem outcome_step (holds : InOrder c.olds) (hnews : InOrder c.news) (h : c.step? = some next) :
    InOrder next.olds ∧ InOrder next.news ∧ next.outcome = c.outcome := by
  rcases step?_eq_some h with ⟨old, olds, heq, rfl, hfirst⟩ | ⟨new, news, heq, rfl, hfirst⟩ |
    ⟨old, olds, new, news, heq, heq', hcompare, rfl⟩
  · have hnot : old.label ∉ c.news.map Strand.label := not_mem_labels hnews hfirst
    rw [heq] at holds
    refine ⟨holds.of_cons, hnews, ?_⟩
    simp [outcome, passOld, heq, cancel_cons_of_not_mem hnot]
  · have hnot : new.label ∉ c.olds.map Strand.label :=
      not_mem_labels holds fun old hold => Std.OrientedCmp.gt_iff_lt.1 (hfirst old hold)
    rw [heq] at hnews
    refine ⟨holds, hnews.of_cons, ?_⟩
    simp [outcome, passNew, heq, cancel_cons_right_of_not_mem hnot]
  · rw [heq] at holds
    rw [heq'] at hnews
    refine ⟨holds.of_cons, hnews.of_cons, ?_⟩
    rw [outcome, outcome, heq, heq',
      cancel_cons_cons_of_eq (Std.LawfulEqOrd.eq_of_compare hcompare)]

theorem outcome_of_step?_eq_none (h : c.step? = none) : c.outcome = (c.asideOlds, c.asideNews) := by
  obtain ⟨asideOlds, asideNews, olds, news⟩ := c
  cases olds <;> cases news
  · simp [outcome, cancel]
  · cases h
  · cases h
  · simp only [step?] at h
    split at h <;> cases h

theorem aside_finished (c : Cancellation) (holds : InOrder c.olds) (hnews : InOrder c.news) :
    (c.finished.asideOlds, c.finished.asideNews) = c.outcome := by
  induction c using finished.induct with
  | case1 c h =>
    rw [finished, h]
    exact (outcome_of_step?_eq_none h).symm
  | case2 c next h ih =>
    obtain ⟨holdsNext, hnewsNext, houtcome⟩ := outcome_step holds hnews h
    rw [finished, h]
    exact (ih holdsNext hnewsNext).trans houtcome

theorem uncancelled_eq_cancel (holds : InOrder olds) (hnews : InOrder news) :
    uncancelled olds news = cancel olds news :=
  aside_finished (start olds news) holds hnews

theorem bundleOperations_eq (olds news : List Strand) :
    bundleOperations olds news = Realization.bundleOperations olds news := by
  rw [bundleOperations, uncancelled_eq_cancel (inOrder_sortBy olds) (inOrder_sortBy news)]
  rfl

end Cancellation

end SchemaDelta.Realization

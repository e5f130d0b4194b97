import Mathlib.Algebra.Order.Group.Multiset
import Mathlib.Order.Bounds.Basic
import SchemaDelta.Proofs.Assignment.Labels

/-!
Labels turned into others, one step after the other. What labels cost is how many of them are on one
side only, on the side where these are more; a step changes that by one at most, and steps that
replace such labels by each other and then insert or delete the rest are no more than that.
-/

namespace SchemaDelta.Assignment

variable {labels labels' : Multiset String}

/-- What one step makes of labels: one is inserted, deleted or replaced. -/
inductive Relabels : Multiset String → Multiset String → Prop
  | insert (label : String) (labels : Multiset String) : Relabels labels (label ::ₘ labels)
  | delete (label : String) (labels : Multiset String) : Relabels (label ::ₘ labels) labels
  | replace (label label' : String) (labels : Multiset String) :
      Relabels (label ::ₘ labels) (label' ::ₘ labels)

/-- What so many steps make of labels. -/
inductive TurnsInto : Nat → Multiset String → Multiset String → Prop
  | refl (labels : Multiset String) : TurnsInto 0 labels labels
  | step {steps : Nat} {labels labels' labels'' : Multiset String} (hfirst : Relabels labels labels')
      (hrest : TurnsInto steps labels' labels'') : TurnsInto (steps + 1) labels labels''

/-! ## No fewer steps -/

/-- What labels cost are those that are on one side only, on the side where these are more. -/
theorem labelCost_eq_max (old new : List String) :
    labelCost old new = max ((old : Multiset String) - (new : Multiset String)).card
      ((new : Multiset String) - (old : Multiset String)).card := by
  have hold := congrArg Multiset.card (Multiset.sub_add_inter (old : Multiset String) new)
  have hnew := congrArg Multiset.card (Multiset.sub_add_inter (new : Multiset String) old)
  rw [Multiset.card_add, Multiset.coe_card] at hold hnew
  rw [Multiset.inter_comm] at hnew
  rw [labelCost, length_commonLabels]
  omega

theorem card_sub_le_add (s t u : Multiset String) :
    (s - u).card ≤ (s - t).card + (t - u).card := by
  rw [← Multiset.card_add]
  exact Multiset.card_le_card tsub_le_tsub_add_tsub

theorem Relabels.card_sub_le (h : Relabels labels labels') :
    (labels - labels').card ≤ 1 ∧ (labels' - labels).card ≤ 1 := by
  have hmost (label : String) {s t : Multiset String} (hle : s ≤ label ::ₘ t) :
      (s - t).card ≤ 1 := by
    rw [← Multiset.singleton_add, ← Multiset.sub_le_iff_le_add] at hle
    exact Multiset.card_le_card hle
  cases h with
  | insert label =>
    have hle : labels ≤ label ::ₘ label ::ₘ labels :=
      (Multiset.le_cons_self _ _).trans (Multiset.le_cons_self _ _)
    exact ⟨hmost label hle, hmost label le_rfl⟩
  | delete label =>
    have hle : labels' ≤ label ::ₘ label ::ₘ labels' :=
      (Multiset.le_cons_self _ _).trans (Multiset.le_cons_self _ _)
    exact ⟨hmost label le_rfl, hmost label hle⟩
  | replace label label' rest =>
    exact ⟨hmost label (Multiset.cons_le_cons label (Multiset.le_cons_self rest label')),
      hmost label' (Multiset.cons_le_cons label' (Multiset.le_cons_self rest label))⟩

theorem TurnsInto.card_sub_le {steps : Nat} (h : TurnsInto steps labels labels') :
    (labels - labels').card ≤ steps ∧ (labels' - labels).card ≤ steps := by
  induction h with
  | refl labels => simp
  | @step steps labels labels' labels'' hfirst hrest ih =>
    have hstep := hfirst.card_sub_le
    have hthere := card_sub_le_add labels labels' labels''
    have hback := card_sub_le_add labels'' labels' labels
    omega

/-! ## No more steps -/

/-- Labels are replaced one by one, and what is left of one list is inserted or deleted. -/
theorem turnsInto_add : ∀ (olds news : List String) (rest : Multiset String),
    TurnsInto (max olds.length news.length) (olds + rest) (news + rest)
  | [], [], rest => .refl _
  | old :: olds, [], rest => by
    have hlater := turnsInto_add olds [] rest
    rw [← Multiset.cons_coe, Multiset.cons_add, List.length_cons]
    exact .step (.delete old _) (by simpa using hlater)
  | [], new :: news, rest => by
    have hlater := turnsInto_add [] news (new ::ₘ rest)
    rw [Multiset.add_cons, Multiset.add_cons] at hlater
    rw [← Multiset.cons_coe, Multiset.cons_add]
    exact .step (.insert new _) (by simpa using hlater)
  | old :: olds, new :: news, rest => by
    -- the new label is with the rest before the other labels are replaced
    have hlater := turnsInto_add olds news (new ::ₘ rest)
    rw [Multiset.add_cons, Multiset.add_cons] at hlater
    rw [← Multiset.cons_coe, ← Multiset.cons_coe, Multiset.cons_add, Multiset.cons_add,
      List.length_cons, List.length_cons, Nat.add_max_add_right]
    exact .step (.replace old new _) hlater

/-- What labels cost is the least number of steps that turn them into others. -/
theorem isLeast_labelCost (old new : List String) :
    IsLeast {steps | TurnsInto steps old new} (labelCost old new) := by
  rw [labelCost_eq_max]
  constructor
  · -- what is on both sides stays
    have hsteps := turnsInto_add (old.diff new) (new.diff old) ((old : Multiset String) ∩ new)
    rw [← Multiset.coe_card, ← Multiset.coe_card, ← Multiset.coe_sub, ← Multiset.coe_sub,
      Multiset.sub_add_inter, Multiset.inter_comm, Multiset.sub_add_inter] at hsteps
    exact hsteps
  · intro steps h
    exact max_le h.card_sub_le.1 h.card_sub_le.2

end SchemaDelta.Assignment

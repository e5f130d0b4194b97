import SchemaDelta.Assignment.Search

/-!
The order of standings: one is below another if it is cheaper, or equally cheap and its choices come
first. The order is linear, so the best of some standings is the same in whatever order they are
compared.
-/

namespace SchemaDelta.Assignment.Standing

instance : Std.TransCmp compare := by
  unfold compare
  infer_instance

instance : Std.LawfulEqCmp compare where
  eq_of_compare {a b} h := by
    obtain ⟨hcost, hchoices⟩ := compareLex_eq_eq.1 h
    have hc : a.cost = b.cost := Std.LawfulEqOrd.eq_of_compare hcost
    have ha : a.assignment = b.assignment := Std.LawfulEqOrd.eq_of_compare hchoices
    cases a
    cases b
    simp_all

/-- The better standings are the smaller ones. -/
instance : LE Standing := ⟨fun a b => (a.compare b).isLE⟩

theorem le_def {a b : Standing} : a ≤ b ↔ (a.compare b).isLE := Iff.rfl

theorem le_refl (a : Standing) : a ≤ a := by
  have hself : a.compare a = .eq := Std.ReflCmp.compare_self
  rw [le_def, hself]
  rfl

theorem le_trans {a b c : Standing} (hab : a ≤ b) (hbc : b ≤ c) : a ≤ c := by
  rw [le_def] at hab hbc ⊢
  exact Std.TransCmp.isLE_trans hab hbc

theorem le_antisymm {a b : Standing} (hab : a ≤ b) (hba : b ≤ a) : a = b := by
  rw [le_def] at hab hba
  exact Std.LawfulEqCmp.eq_of_compare (Std.OrientedCmp.isLE_antisymm hab hba)

theorem le_of_not_lt {a b : Standing} (h : ¬ (b.compare a).isLT) : a ≤ b := by
  have hswap : a.compare b = (b.compare a).swap := Std.OrientedCmp.eq_swap
  rw [le_def, hswap]
  cases hcmp : b.compare a with
  | lt => simp [hcmp] at h
  | eq => rfl
  | gt => rfl

theorem le_iff {a b : Standing} :
    a ≤ b ↔ a.cost < b.cost ∨
      a.cost = b.cost ∧ (Ord.compare a.assignment b.assignment).isLE := by
  rw [le_def]
  unfold compare
  rw [compareLex, compareOn, compareOn]
  rcases Nat.lt_trichotomy a.cost b.cost with h | h | h
  · simp [Nat.compare_eq_lt.2 h, h]
  · simp [h]
  · simp [Nat.compare_eq_gt.2 h, Nat.not_lt_of_lt h, Nat.ne_of_gt h]

theorem cost_le_of_le {a b : Standing} (h : a ≤ b) : a.cost ≤ b.cost := by
  rcases le_iff.1 h with h | h <;> omega

/-! ## The better of two -/

theorem improvedBy_eq_or (a b : Standing) : a.improvedBy b = a ∨ a.improvedBy b = b := by
  unfold improvedBy
  split
  · exact Or.inr rfl
  · exact Or.inl rfl

theorem improvedBy_le_left (a b : Standing) : a.improvedBy b ≤ a := by
  unfold improvedBy
  split
  · next h =>
    rw [le_def]
    cases hcmp : b.compare a <;> simp_all
  · exact le_refl a

theorem improvedBy_le_right (a b : Standing) : a.improvedBy b ≤ b := by
  unfold improvedBy
  split
  · exact le_refl b
  · next h => exact le_of_not_lt h

theorem foldl_improvedBy_mem (a : Standing) (others : List Standing) :
    others.foldl improvedBy a ∈ a :: others := by
  induction others generalizing a with
  | nil => simp
  | cons b others ih =>
    rw [List.foldl_cons]
    rcases List.mem_cons.1 (ih (a.improvedBy b)) with h | h
    · rw [h]
      rcases improvedBy_eq_or a b with hab | hab <;> simp [hab]
    · exact List.mem_cons_of_mem a (List.mem_cons_of_mem b h)

theorem foldl_improvedBy_le {a b : Standing} {others : List Standing} (h : b ∈ a :: others) :
    others.foldl improvedBy a ≤ b := by
  induction others generalizing a b with
  | nil => exact List.mem_singleton.1 h ▸ le_refl a
  | cons c others ih =>
    have hfirst : others.foldl improvedBy (a.improvedBy c) ≤ a.improvedBy c :=
      ih List.mem_cons_self
    rcases List.mem_cons.1 h with rfl | h
    · exact le_trans hfirst (improvedBy_le_left b c)
    · rcases List.mem_cons.1 h with rfl | h
      · exact le_trans hfirst (improvedBy_le_right a b)
      · exact ih (List.mem_cons_of_mem _ h)

/-! ## Choices that come first -/

/-- Of two lists of choices, the one whose beginning comes later comes later. -/
theorem not_le_of_take_gt {begun choices rest : List Choice}
    (hlength : begun.length ≤ choices.length)
    (h : (Ord.compare begun (choices.take begun.length)).isGT) :
    ¬ (Ord.compare (begun ++ rest) choices).isLE := by
  induction begun generalizing choices with
  | nil => simp at h
  | cons choice begun ih =>
    cases choices with
    | nil => simp at hlength
    | cons other choices =>
      simp only [List.length_cons, List.take_succ_cons, List.compare_cons_cons] at h
      simp only [List.cons_append, List.compare_cons_cons]
      cases hcmp : Ord.compare choice other with
      | lt => simp [hcmp] at h
      | gt => simp
      | eq =>
        rw [hcmp] at h
        exact ih (by simpa using hlength) h

end SchemaDelta.Assignment.Standing

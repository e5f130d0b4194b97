/-!
Lists put in order, and lists without repeats.

`sortBy` is a stable sort by a comparison, element by element so that it can be evaluated in a proof.
`firstRepeat?` finds the first element that has come before, and finds none exactly in a list
without repeats (`firstRepeat?_eq_none_iff`).
-/

namespace SchemaDelta

variable {α : Type}

/-! ## Sorting -/

/-- An element put in front of the first one that is not smaller. -/
def insertBy (cmp : α → α → Ordering) (a : α) : List α → List α
  | [] => [a]
  | b :: bs => if (cmp a b).isLE then a :: b :: bs else b :: insertBy cmp a bs

/-- The elements of a list in ascending order; equal ones keep their order. -/
def sortBy (cmp : α → α → Ordering) (as : List α) : List α :=
  as.foldr (insertBy cmp) []

/-! ## Repeats -/

variable [DecidableEq α]

/-- The first element that is among those seen before it, given the ones seen at the start. -/
def firstRepeatAfter? (seen : List α) : List α → Option α
  | [] => none
  | a :: as => if a ∈ seen then some a else firstRepeatAfter? (a :: seen) as

/-- The first element of a list that has come before in it. -/
def firstRepeat? (as : List α) : Option α :=
  firstRepeatAfter? [] as

theorem firstRepeatAfter?_eq_none_iff (seen as : List α) :
    firstRepeatAfter? seen as = none ↔ as.Nodup ∧ ∀ a ∈ as, a ∉ seen := by
  induction as generalizing seen with
  | nil => simp [firstRepeatAfter?]
  | cons a as ih =>
    rw [firstRepeatAfter?]
    split
    · next h => simp [h]
    · next h => grind

theorem firstRepeat?_eq_none_iff (as : List α) : firstRepeat? as = none ↔ as.Nodup := by
  simp [firstRepeat?, firstRepeatAfter?_eq_none_iff]

theorem firstRepeatAfter?_eq_some_iff {seen as : List α} {a : α} :
    firstRepeatAfter? seen as = some a ↔ ∃ before after, as = before ++ a :: after ∧
      before.Nodup ∧ (∀ b ∈ before, b ∉ seen) ∧ (a ∈ seen ∨ a ∈ before) := by
  induction as generalizing seen with
  | nil => simp [firstRepeatAfter?]
  | cons first rest ih =>
    rw [firstRepeatAfter?]
    split
    · next hseen =>
      constructor
      · intro h
        cases h
        exact ⟨[], rest, rfl, .nil, by simp, Or.inl hseen⟩
      · rintro ⟨before, after, heq, -, hbefore, -⟩
        cases before with
        | nil => rw [(List.cons.inj heq).1]
        | cons b before =>
          -- the first element would be one that has not been seen
          cases heq
          exact absurd hseen (hbefore _ List.mem_cons_self)
    · next hunseen =>
      rw [ih]
      constructor
      · rintro ⟨before, after, rfl, hnodup, hbefore, ha⟩
        refine ⟨first :: before, after, rfl, ?_, ?_, ?_⟩
        · exact List.nodup_cons.2 ⟨fun h => hbefore first h List.mem_cons_self, hnodup⟩
        · grind
        · grind
      · rintro ⟨before, after, heq, hnodup, hbefore, ha⟩
        cases before with
        | nil =>
          cases heq
          simp [hunseen] at ha
        | cons b before =>
          cases heq
          obtain ⟨hb, hnodup⟩ := List.nodup_cons.1 hnodup
          exact ⟨before, after, rfl, hnodup, by grind, by grind⟩

/-- The first repeat is the first element of those that are repeated. -/
theorem firstRepeat?_eq_some_iff {as : List α} {a : α} : firstRepeat? as = some a ↔
    ∃ before after, as = before ++ a :: after ∧ before.Nodup ∧ a ∈ before := by
  simp [firstRepeat?, firstRepeatAfter?_eq_some_iff]

end SchemaDelta

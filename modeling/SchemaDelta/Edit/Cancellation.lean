import SchemaDelta.Edit.Realization

/-!
Parallel edges compared in the order of their labels. Of the first edge on each side, the one with
the smaller label is put aside, since no other edge can cancel it; if their labels are the same, both
are dropped. When nothing is left to compare, the edges put aside are paired off.

`SchemaDelta.Edit.Realization` says what comes of it.
-/

namespace SchemaDelta.Realization

/-- How far edges are compared. -/
structure Cancellation where
  /-- The old edges put aside. -/
  asideOlds : List Strand
  /-- The new edges put aside. -/
  asideNews : List Strand
  /-- The old edges that are left to compare. -/
  olds : List Strand
  /-- The new edges that are left to compare. -/
  news : List Strand
  deriving DecidableEq, Repr

namespace Cancellation

variable {c next : Cancellation}

/-- Before anything is compared. -/
def start (olds news : List Strand) : Cancellation :=
  ⟨[], [], olds, news⟩

/-- Puts the first old edge aside and goes on with the others. -/
def passOld (c : Cancellation) (old : Strand) (olds : List Strand) : Cancellation :=
  { c with asideOlds := c.asideOlds ++ [old], olds := olds }

/-- Puts the first new edge aside and goes on with the others. -/
def passNew (c : Cancellation) (new : Strand) (news : List Strand) : Cancellation :=
  { c with asideNews := c.asideNews ++ [new], news := news }

/-- Puts an edge aside or drops two, as long as any are left. -/
def step? (c : Cancellation) : Option Cancellation :=
  match c.olds, c.news with
  | old :: olds, new :: news =>
    match compare old.label new.label with
    | .lt => some (c.passOld old olds)
    | .gt => some (c.passNew new news)
    | .eq => some { c with olds := olds, news := news }
  | old :: olds, [] => some (c.passOld old olds)
  | [], new :: news => some (c.passNew new news)
  | [], [] => none

/-- What a step does with the first edges: one that is put aside has a smaller label than the other,
if there is another. -/
theorem step?_eq_some (h : c.step? = some next) :
    (∃ old olds, c.olds = old :: olds ∧ next = c.passOld old olds ∧
        ∀ new ∈ c.news.head?, compare old.label new.label = .lt) ∨
      (∃ new news, c.news = new :: news ∧ next = c.passNew new news ∧
        ∀ old ∈ c.olds.head?, compare old.label new.label = .gt) ∨
      ∃ old olds new news, c.olds = old :: olds ∧ c.news = new :: news ∧
        compare old.label new.label = .eq ∧ next = { c with olds := olds, news := news } := by
  obtain ⟨asideOlds, asideNews, olds, news⟩ := c
  cases olds with
  | nil =>
    cases news with
    | nil => cases h
    | cons new news =>
      cases h
      exact Or.inr (Or.inl ⟨new, news, rfl, rfl, by simp⟩)
  | cons old olds =>
    cases news with
    | nil =>
      cases h
      exact Or.inl ⟨old, olds, rfl, rfl, by simp⟩
    | cons new news =>
      simp only [step?] at h
      split at h
      · next hcompare =>
        cases h
        exact Or.inl ⟨old, olds, rfl, rfl, by simpa using hcompare⟩
      · next hcompare =>
        cases h
        exact Or.inr (Or.inl ⟨new, news, rfl, rfl, by simpa using hcompare⟩)
      · next hcompare =>
        cases h
        exact Or.inr (Or.inr ⟨old, olds, new, news, rfl, rfl, hcompare, rfl⟩)

/-- How many edges are left to compare. -/
def left (c : Cancellation) : Nat :=
  c.olds.length + c.news.length

theorem left_lt (h : c.step? = some next) : next.left < c.left := by
  unfold left
  rcases step?_eq_some h with ⟨old, olds, holds, rfl, -⟩ | ⟨new, news, hnews, rfl, -⟩ |
    ⟨old, olds, new, news, holds, hnews, -, rfl⟩
  · simp [passOld, holds]
  · simp [passNew, hnews]
  · simp only [holds, hnews, List.length_cons]
    omega

/-- Goes on until nothing is left to compare. -/
def finished (c : Cancellation) : Cancellation :=
  match _h : c.step? with
  | none => c
  | some next => next.finished
termination_by c.left
decreasing_by exact left_lt _h

/-- The edges that are put aside when two lists are compared, each in the order of its labels. -/
def uncancelled (olds news : List Strand) : List Strand × List Strand :=
  let last := (start olds news).finished
  (last.asideOlds, last.asideNews)

/-- The steps on the edges between two matched vertices. -/
def bundleOperations (olds news : List Strand) : List Edit :=
  let rest := uncancelled (sortBy Strand.compare olds) (sortBy Strand.compare news)
  pairOff rest.1 rest.2

end Cancellation

end SchemaDelta.Realization

import SchemaDelta.Assignment.Cost
import SchemaDelta.Ordering

/-!
Labels compared in order. A cursor runs along the old labels and one along the new ones, both
sorted. The cursor at the smaller label moves on; where the labels are the same, both move on and one
label more is counted as common.

`SchemaDelta.Assignment.Cost` says what comes of it.
-/

namespace SchemaDelta.Assignment

/-- How far two lists of labels are compared. -/
structure Tally where
  /-- How many old labels are passed. -/
  olds : Nat
  /-- How many new labels are passed. -/
  news : Nat
  /-- How many labels were the same. -/
  common : Nat
  deriving DecidableEq, Repr, Inhabited

namespace Tally

variable {old new : List String} {tally next : Tally}

/-- Before any label is passed. -/
def start : Tally :=
  ⟨0, 0, 0⟩

/-- Passes the smaller one of the next two labels, or both if they are the same. Nothing is passed any
more when one of the lists has come to its end. -/
def step? (old new : List String) (tally : Tally) : Option Tally :=
  match old[tally.olds]?, new[tally.news]? with
  | some label, some other =>
    match compare label other with
    | .lt => some { tally with olds := tally.olds + 1 }
    | .gt => some { tally with news := tally.news + 1 }
    | .eq => some ⟨tally.olds + 1, tally.news + 1, tally.common + 1⟩
  | _, _ => none

/-- What a step does with the labels that it finds. -/
theorem step?_eq_some (h : tally.step? old new = some next) :
    ∃ label other, old[tally.olds]? = some label ∧ new[tally.news]? = some other ∧
      (compare label other = .lt ∧ next = { tally with olds := tally.olds + 1 } ∨
        compare label other = .gt ∧ next = { tally with news := tally.news + 1 } ∨
        compare label other = .eq ∧
          next = ⟨tally.olds + 1, tally.news + 1, tally.common + 1⟩) := by
  unfold step? at h
  split at h
  · next label other hold hnew =>
    refine ⟨label, other, hold, hnew, ?_⟩
    cases hcompare : compare label other <;> simp only [hcompare, Option.some.injEq] at h <;>
      simp [← h]
  · cases h

/-- How many labels are still to be passed. -/
def left (old new : List String) (tally : Tally) : Nat :=
  (old.length - tally.olds) + (new.length - tally.news)

theorem left_lt (h : tally.step? old new = some next) : next.left old new < tally.left old new := by
  obtain ⟨label, other, hold, hnew, hnext⟩ := step?_eq_some h
  have holdLt := (List.getElem?_eq_some_iff.1 hold).1
  have hnewLt := (List.getElem?_eq_some_iff.1 hnew).1
  unfold left
  rcases hnext with ⟨-, rfl⟩ | ⟨-, rfl⟩ | ⟨-, rfl⟩ <;> dsimp only <;> omega

/-- Passes labels until one of the lists has come to its end. -/
def finished (old new : List String) (tally : Tally) : Tally :=
  match _h : tally.step? old new with
  | none => tally
  | some next => finished old new next
termination_by tally.left old new
decreasing_by exact left_lt _h

/-- What it costs to turn labels into others: as many as the longer list has, less those that are
common to both when they are compared in order. -/
def cost (old new : List String) : Nat :=
  max old.length new.length - (finished (sortBy compare old) (sortBy compare new) start).common

end Tally

end SchemaDelta.Assignment

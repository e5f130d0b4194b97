/-!
Time, to the nanosecond. A clock tells points in time up to a last one; a span of time that leads
past it leads to no point at all (`after?_eq_none_iff`).
-/

namespace SchemaDelta

/-- The nanoseconds that no span of time has: its seconds are counted in 64 bits. -/
def Duration.bound : Nat := UInt64.size * 1000000000

/-- A span of time. -/
structure Duration where
  nanoseconds : Nat
  lt : nanoseconds < Duration.bound
  deriving DecidableEq, Repr

/-- The longest span of time. -/
def Duration.longest : Duration :=
  ⟨Duration.bound - 1, by decide⟩

/-- The nanoseconds at which the clock has no point in time any more: its seconds are counted in 64
bits, of which one is the sign. -/
def Instant.bound : Nat := UInt64.size / 2 * 1000000000

/-- A point in time, counted from when the clock shows zero. -/
structure Instant where
  nanoseconds : Nat
  lt : nanoseconds < Instant.bound
  deriving DecidableEq, Repr

namespace Instant

instance : Inhabited Instant := ⟨⟨0, by decide⟩⟩

/-- The point that a span of time leads to, if the clock can tell it. -/
def after? (start : Instant) (span : Duration) : Option Instant :=
  if h : start.nanoseconds + span.nanoseconds < bound then some ⟨_, h⟩ else none

theorem after?_eq_none_iff {start : Instant} {span : Duration} :
    start.after? span = none ↔ bound ≤ start.nanoseconds + span.nanoseconds := by
  unfold after?
  split
  · next h => exact iff_of_false nofun (Nat.not_le.2 h)
  · next h => exact iff_of_true rfl (Nat.not_lt.1 h)

end Instant

/-- What the clock shows in the course of a search. -/
structure Clock where
  /-- When the search begins. -/
  start : Instant
  /-- When the search takes its `n`th branch. -/
  branch : Nat → Instant

/-- The clock that stands still. -/
def Clock.stopped : Clock :=
  ⟨default, fun _ => default⟩

end SchemaDelta

import SchemaDelta.Graph.Basic

/-!
Matchings between two graphs: which old vertex became which new one. Vertices at one place in both
graphs are always matched; they are the anchors of a comparison.
-/

namespace SchemaDelta

/-- Pairs of an old and a new vertex. -/
structure Matching where
  pairs : List (Nat × Nat)
  deriving DecidableEq, Repr, Inhabited

namespace Matching

/-- What an old vertex became. -/
def image? (m : Matching) (source : Nat) : Option Nat :=
  (m.pairs.find? fun pair => pair.1 == source).map (·.2)

/-- What a new vertex was. -/
def preimage? (m : Matching) (target : Nat) : Option Nat :=
  (m.pairs.find? fun pair => pair.2 == target).map (·.1)

/-- No vertex is in two pairs. -/
structure IsOneToOne (m : Matching) : Prop where
  sources : (m.pairs.map (·.1)).Nodup
  targets : (m.pairs.map (·.2)).Nodup

/-- A matching with more pairs. -/
def extendedBy (m : Matching) (pairs : List (Nat × Nat)) : Matching :=
  ⟨m.pairs ++ pairs⟩

/-- Vertices at one place, matched. -/
def anchors (old new : Graph) : Matching where
  pairs := old.vertices.zipIdx.filterMap fun (v, source) =>
    (new.find? v.place).map fun target => (source, target)

end Matching

end SchemaDelta

import SchemaDelta.Config
import SchemaDelta.Edit.Unanchored
import SchemaDelta.Edit.Realization

/-!
The script from one graph to another: the anchors, extended by what the search finds for the
vertices left over. If the search is given up, the anchors alone count. A search that would have to
be over at a time that the clock cannot tell does not begin, and there is no script.
-/

namespace SchemaDelta

/-- The anchors with the pairs that an assignment of the other vertices stands for. -/
def Matching.ofAssignment (old new : Graph) (assignment : List Assignment.Choice) : Matching :=
  (Matching.anchors old new).extendedBy (Unanchored.pairs old new assignment)

/-- The matching that the search arrives at, unless it is given up. -/
def Matching.searched? (old new : Graph) (config : Config) (clock : Clock) : Option Matching :=
  ((Unanchored.problem old new).best? config.workers (config.budget.allows clock)).map
    (Matching.ofAssignment old new)

/-- The script from an old graph to a new one. -/
def Script.between (old new : Graph) (config : Config) (clock : Clock) : Script :=
  match Matching.searched? old new config clock with
  | some m => ⟨m.operations old new, false⟩
  | none => ⟨(Matching.anchors old new).operations old new, true⟩

/-- Whether there is something to search, but no telling when the search has to be over. -/
def Script.overflows (old new : Graph) (config : Config) (clock : Clock) : Bool :=
  !(Unanchored.problem old new).olds.isEmpty && config.budget.overflows clock

/-- The script from an old graph to a new one, and none if the search cannot begin. -/
def Script.between? (old new : Graph) (config : Config) (clock : Clock) : Option Script :=
  if Script.overflows old new config clock then none else some (Script.between old new config clock)

end SchemaDelta

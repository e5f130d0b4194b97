import SchemaDelta.Change.Basic

/-!
What single steps come to, and how it adds up. Events of objects and interfaces that changed are
put together, one for each name, after the other events.
-/

namespace SchemaDelta

/-- What a step comes to. -/
inductive Finding where
  /-- Nothing worth reporting by itself. -/
  | nothing
  | change (event : Change)
  /-- Something about an object. -/
  | object (name : String) (details : List ObjectDetail)
  /-- Something about an interface. -/
  | interface (name : String) (details : List Revision)
  | unclassified (edge : EdgeRecord)
  deriving DecidableEq, Repr, Inhabited

namespace Finding

/-- The event that a step makes by itself. -/
def change? : Finding → Option Change
  | change event => some event
  | _ => none

/-- What a step tells of an object. -/
def object? : Finding → Option (String × List ObjectDetail)
  | object name details => some (name, details)
  | _ => none

/-- What a step tells of an interface. -/
def interface? : Finding → Option (String × List Revision)
  | interface name details => some (name, details)
  | _ => none

/-- The edge for which there is no event. -/
def unclassified? : Finding → Option EdgeRecord
  | unclassified edge => some edge
  | _ => none

end Finding

/-- Details by name: the names in the order in which they come first, each with all its details in
order. -/
def gathered {δ : Type} (entries : List (String × List δ)) : List (String × List δ) :=
  (entries.map (·.1)).eraseDups.map fun name =>
    (name, (entries.filter fun entry => entry.1 == name).flatMap (·.2))

/-- The events and the other edges that steps add up to. -/
structure Analysis where
  changes : List Change
  unclassified : List EdgeRecord
  deriving DecidableEq, Repr, Inhabited

/-- What the findings of all steps add up to. -/
def Analysis.ofFindings (findings : List Finding) : Analysis where
  changes :=
    findings.filterMap Finding.change?
      ++ (gathered (findings.filterMap Finding.object?)).map (fun (name, details) =>
          .objectChanged name details)
      ++ (gathered (findings.filterMap Finding.interface?)).map (fun (name, details) =>
          .definitionChanged .interface name details)
  unclassified := findings.filterMap Finding.unclassified?

end SchemaDelta

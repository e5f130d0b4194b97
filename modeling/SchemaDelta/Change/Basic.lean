import SchemaDelta.Edit.Operation
import SchemaDelta.Graph.Element

/-!
What a comparison of two schemas reports: elements that were added, removed or changed, and the
edges for which there is no such event.
-/

namespace SchemaDelta

/-! ## Subjects -/

/-- The kinds of definitions other than objects. -/
inductive DefinitionKind where
  | interface | union | inputObject | enum | scalar | directive
  deriving DecidableEq, Repr, Inhabited

/-- The kinds of elements inside others. -/
inductive PartKind where
  | field | inputField | argument | enumValue | appliedDirective
  deriving DecidableEq, Repr, Inhabited

/-- What an event is about. Objects stand apart because only they can gain interfaces. -/
inductive Subject where
  | object (name : String)
  | definition (kind : DefinitionKind) (name : String)
  /-- A part with the name or the path of its owner. -/
  | part (kind : PartKind) (name owner : String)
  deriving DecidableEq, Repr, Inhabited

/-- The name of a subject. -/
def Subject.name : Subject → String
  | object name => name
  | definition _ name => name
  | part _ name _ => name

/-! ## Details -/

/-- A property that is not the same on both sides. -/
structure PropertyChange where
  key : String
  old : Option String
  new : Option String
  deriving DecidableEq, Repr, Inhabited

/-- How an element was revised. -/
inductive Revision where
  | renamed (oldName : String)
  | propertyChanged (change : PropertyChange)
  deriving DecidableEq, Repr, Inhabited

/-- How an object was changed. -/
inductive ObjectDetail where
  | addedInterface (name : String)
  | revised (revision : Revision)
  deriving DecidableEq, Repr, Inhabited

/-! ## Events -/

/-- One event. -/
inductive Change where
  | added (subject : Subject)
  | removed (subject : Subject)
  | objectChanged (name : String) (details : List ObjectDetail)
  | definitionChanged (kind : DefinitionKind) (name : String) (details : List Revision)
  | partChanged (kind : PartKind) (name owner : String) (details : List Revision)
  deriving DecidableEq, Repr, Inhabited

/-- What an event is about. -/
def Change.subject : Change → Subject
  | added subject => subject
  | removed subject => subject
  | objectChanged name _ => .object name
  | definitionChanged kind name _ => .definition kind name
  | partChanged kind name owner _ => .part kind name owner

/-- The name of the element that an event is about. -/
def Change.name (change : Change) : String :=
  change.subject.name

/-! ## Edges without events -/

/-- A step on an edge that makes no event, such as the removal of an interface. -/
structure EdgeRecord where
  operation : EditKind
  /-- The label, after the step unless that deletes the edge. -/
  label : String
  /-- The label before a change. -/
  oldLabel : Option String
  one : Place
  two : Place
  deriving DecidableEq, Repr, Inhabited

/-- Everything that is reported of two schemas. -/
structure Delta where
  changes : List Change
  unclassified : List EdgeRecord
  /-- The search was given up: the report is right, but may be longer than it has to be. -/
  approximate : Bool
  deriving DecidableEq, Repr, Inhabited

/-- Whether nothing is reported. -/
def Delta.isEmpty (diff : Delta) : Bool :=
  diff.changes.isEmpty && diff.unclassified.isEmpty

end SchemaDelta

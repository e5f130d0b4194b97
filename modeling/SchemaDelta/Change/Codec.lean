import SchemaDelta.Change.Basic
import SchemaDelta.Change.Document

/-!
How reports are written as documents and read back.
-/

namespace SchemaDelta

/-! ## Details -/

namespace PropertyChange

/-- The names of the parts. -/
def members : List String := ["key", "old", "new"]

/-- Reads a property change from its parts. -/
def ofParts? (parts : Parts) : Option PropertyChange := do
  match ← parts.read? members with
  | [some key, old, new] =>
    some ⟨← key.text?, ← Document.optionalText? old, ← Document.optionalText? new⟩
  | _ => none

end PropertyChange

namespace Revision

/-- A revision as a document. -/
def encode : Revision → Document
  | renamed oldName => .record [("kind", .text "Renamed"), ("old_name", .text oldName)]
  | propertyChanged change =>
    .record [("kind", .text "PropertyChanged"), ("key", .text change.key),
      ("old", .ofOptionalText change.old), ("new", .ofOptionalText change.new)]

/-- Reads the old name of a renamed element. -/
def renamedOfParts? (parts : Parts) : Option Revision := do
  match ← parts.read? ["old_name"] with
  | [some oldName] => some (renamed (← oldName.text?))
  | _ => none

/-- Reads a revision. Its shape may be given by its number. -/
def decode? (document : Document) : Option Revision := do
  let (kind, parts) ← document.shaped?
  match kind with
  | .text "Renamed" | .natural 0 => renamedOfParts? parts
  | .text "PropertyChanged" | .natural 1 => propertyChanged <$> PropertyChange.ofParts? parts
  | _ => none

end Revision

namespace ObjectDetail

/-- A detail as a document. -/
def encode : ObjectDetail → Document
  | addedInterface name =>
    .record [("kind", .text "AddedInterfaceToObject"), ("interface_name", .text name)]
  | revised revision => revision.encode

/-- Reads the name of an added interface. -/
def addedInterfaceOfParts? (parts : Parts) : Option ObjectDetail := do
  match ← parts.read? ["interface_name"] with
  | [some name] => some (addedInterface (← name.text?))
  | _ => none

/-- Reads a detail. Its shape may be given by its number. -/
def decode? (document : Document) : Option ObjectDetail := do
  let (kind, parts) ← document.shaped?
  match kind with
  | .text "AddedInterfaceToObject" | .natural 0 => addedInterfaceOfParts? parts
  | .text "Renamed" | .natural 1 => revised <$> Revision.renamedOfParts? parts
  | .text "PropertyChanged" | .natural 2 =>
    revised <$> Revision.propertyChanged <$> PropertyChange.ofParts? parts
  | _ => none

end ObjectDetail

/-! ## Events -/

/-- What an event is about, names apart. -/
inductive SubjectKind where
  | object
  | definition (kind : DefinitionKind)
  | part (kind : PartKind)
  deriving DecidableEq, Repr

namespace SubjectKind

/-- All kinds of subjects. -/
def all : List SubjectKind :=
  [object, definition .interface, definition .union, definition .inputObject, definition .enum,
   definition .scalar, definition .directive, part .field, part .inputField, part .argument,
   part .enumValue, part .appliedDirective]

/-- The first half of the name of an event. -/
def text : SubjectKind → String
  | object => "Object"
  | definition .interface => "Interface"
  | definition .union => "Union"
  | definition .inputObject => "InputObject"
  | definition .enum => "Enum"
  | definition .scalar => "Scalar"
  | definition .directive => "Directive"
  | part .field => "Field"
  | part .inputField => "InputField"
  | part .argument => "Argument"
  | part .enumValue => "EnumValue"
  | part .appliedDirective => "AppliedDirective"

/-- The members that tell a subject of a kind. -/
def members : SubjectKind → List String
  | object => ["name"]
  | definition _ => ["name"]
  | part .field => ["name", "container"]
  | part .inputField => ["name", "container"]
  | part .argument => ["name", "parent"]
  | part .enumValue => ["name", "enum_name"]
  | part .appliedDirective => ["name", "target"]

end SubjectKind

/-- What happened. -/
inductive Occurrence where
  | added | removed | changed
  deriving DecidableEq, Repr

namespace Occurrence

/-- All that can happen. -/
def all : List Occurrence := [added, removed, changed]

/-- The second half of the name of an event. -/
def text : Occurrence → String
  | added => "Added"
  | removed => "Removed"
  | changed => "Changed"

/-- The members that tell what happened. -/
def members : Occurrence → List String
  | changed => ["details"]
  | _ => []

end Occurrence

/-- The shapes of events. -/
def eventShapes : List (SubjectKind × Occurrence) :=
  SubjectKind.all.flatMap fun kind => Occurrence.all.map fun occurrence => (kind, occurrence)

/-- The name of a shape of events. -/
def shapeName (shape : SubjectKind × Occurrence) : String :=
  shape.1.text ++ shape.2.text

/-- The shape of events of a name. -/
def shapeOfName? (name : String) : Option (SubjectKind × Occurrence) :=
  eventShapes.find? fun shape => shapeName shape == name

/-- The kind of a subject. -/
def Subject.kind : Subject → SubjectKind
  | object _ => .object
  | definition kind _ => .definition kind
  | part kind _ _ => .part kind

/-- What tells a subject of its kind. -/
def Subject.values : Subject → List Document
  | object name => [.text name]
  | definition _ name => [.text name]
  | part _ name owner => [.text name, .text owner]

namespace Change

/-- What happened. -/
def occurrence : Change → Occurrence
  | added _ => .added
  | removed _ => .removed
  | objectChanged .. => .changed
  | definitionChanged .. => .changed
  | partChanged .. => .changed

/-- What tells how the subject changed. -/
def detailValues : Change → List Document
  | added _ => []
  | removed _ => []
  | objectChanged _ details => [.list (details.map ObjectDetail.encode)]
  | definitionChanged _ _ details => [.list (details.map Revision.encode)]
  | partChanged _ _ _ details => [.list (details.map Revision.encode)]

/-- An event as a document. -/
def encode (change : Change) : Document :=
  let kind := change.subject.kind
  let name := shapeName (kind, change.occurrence)
  .record <| ("kind", .text name) ::
    (kind.members ++ change.occurrence.members).zip (change.subject.values ++ change.detailValues)

/-- Reads a subject of a kind, and gives the parts that come after it. -/
def subjectOfParts? : SubjectKind → List (Option Document) →
    Option (Subject × List (Option Document))
  | .object, some name :: rest => do some (.object (← name.text?), rest)
  | .definition kind, some name :: rest => do some (.definition kind (← name.text?), rest)
  | .part kind, some name :: some owner :: rest => do
    some (.part kind (← name.text?) (← owner.text?), rest)
  | _, _ => none

/-- The change of a subject. -/
def changedOf? (details : Document) : Subject → Option Change
  | .object name => objectChanged name <$> details.list? ObjectDetail.decode?
  | .definition kind name => definitionChanged kind name <$> details.list? Revision.decode?
  | .part kind name owner => partChanged kind name owner <$> details.list? Revision.decode?

/-- Reads an event. -/
def decode? (document : Document) : Option Change := do
  let (name, parts) ← document.shaped?
  let (kind, occurrence) ← shapeOfName? (← name.text?)
  let values ← parts.read? (kind.members ++ occurrence.members)
  let (subject, rest) ← subjectOfParts? kind values
  match occurrence, rest with
  | .added, [] => some (added subject)
  | .removed, [] => some (removed subject)
  | .changed, [some details] => changedOf? details subject
  | _, _ => none

end Change

/-! ## Edges -/

namespace Place

/-- A place as a document. -/
def encode (place : Place) : Document :=
  .record [("kind", .text place.kind.text), ("path", .text place.path)]

/-- Reads a place. -/
def decode? (document : Document) : Option Place := do
  match ← (← document.parts?).read? ["kind", "path"] with
  | [some kind, some path] => some ⟨← ElementKind.ofText? (← kind.word?), ← path.text?⟩
  | _ => none

end Place

namespace EdgeRecord

/-- The names of the parts. -/
def members : List String := ["operation", "label", "old_label", "one", "two"]

/-- An edge as a document. -/
def encode (edge : EdgeRecord) : Document :=
  .record <| members.zip
    [.text edge.operation.text, .text edge.label, .ofOptionalText edge.oldLabel, edge.one.encode,
     edge.two.encode]

/-- Reads an edge. -/
def decode? (document : Document) : Option EdgeRecord := do
  match ← (← document.parts?).read? members with
  | [some operation, some label, oldLabel, some one, some two] =>
    some ⟨← EditKind.ofText? (← operation.word?), ← label.text?,
      ← Document.optionalText? oldLabel, ← Place.decode? one, ← Place.decode? two⟩
  | _ => none

end EdgeRecord

/-! ## Reports -/

namespace Delta

/-- The names of the parts. -/
def members : List String := ["changes", "unclassified", "approximate"]

/-- A report as a document. -/
def encode (diff : Delta) : Document :=
  .record <| members.zip
    [.list (diff.changes.map Change.encode),
     .list (diff.unclassified.map EdgeRecord.encode), .bool diff.approximate]

/-- Reads a report. -/
def decode? (document : Document) : Option Delta := do
  match ← (← document.parts?).read? members with
  | [some changes, some unclassified, some approximate] =>
    some ⟨← changes.list? Change.decode?, ← unclassified.list? EdgeRecord.decode?,
      ← approximate.bool?⟩
  | _ => none

end Delta

end SchemaDelta

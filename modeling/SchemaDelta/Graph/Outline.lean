import SchemaDelta.Schema.TypeSystem
import SchemaDelta.Graph.Element
import SchemaDelta.Graph.Relation

/-!
The outline of a type system: what one meets when reading it from the first definition to the
last, as a list of entries. An entry is an element with its owner, or a mention of a definition.

The path of an element is the path of its owner with a separator and its own name: a dot, or an at
sign for an applied directive. Repeated applications of one directive to one element are numbered
from the second on.
-/

namespace SchemaDelta

/-- In what role an element mentions a definition. -/
inductive MentionRole where
  /-- As the type of the element, written as given. -/
  | typeOf (rendered : String)
  | interface
  | member
  /-- As the definition of an applied directive, which may be missing. -/
  | directive
  deriving DecidableEq, Repr

/-- The label from an element to a definition that it mentions. -/
def MentionRole.label (name : String) : MentionRole → String
  | typeOf rendered => Label.typeOf rendered
  | interface => Label.implementing name
  | member => Label.member
  | directive => Label.directive

/-- What one meets when reading a type system. -/
inductive Entry where
  /-- An element inside another. -/
  | element (owner : Place) (label : String) (vertex : Vertex)
  /-- A definition mentioned by an element. -/
  | mention (source : Place) (name : String) (role : MentionRole)
  deriving DecidableEq

/-! ## Definitions -/

/-- The kind of a type by its contents. -/
def TypeBody.kind : TypeBody → ElementKind
  | object .. => .object
  | interface .. => .interface
  | union .. => .union
  | inputObject .. => .inputObject
  | enum .. => .enum
  | scalar => .scalar

/-- The place of a type. -/
def TypeDefinition.place (d : TypeDefinition) : Place :=
  ⟨d.body.kind, d.name⟩

/-- The properties that an element has from its description. -/
def descriptionProperties (description : Option String) : Properties :=
  Properties.empty.insert? descriptionKey description

/-- The vertex of a type. A scalar with the name of a built-in one is marked as built in. -/
def TypeDefinition.vertex (d : TypeDefinition) : Vertex where
  kind := d.body.kind
  name := d.name
  path := d.name
  properties :=
    (descriptionProperties d.description).insert? builtInScalarKey
      (if d.body.kind = .scalar ∧ isBuiltIn d.name then some markValue else none)

/-- The place of the definition of a directive. -/
def directivePlace (name : String) : Place :=
  ⟨.directive, "@" ++ name⟩

/-- The vertex of the definition of a directive. -/
def DirectiveDefinition.vertex (d : DirectiveDefinition) : Vertex where
  kind := .directive
  name := d.name
  path := (directivePlace d.name).path
  properties :=
    ((descriptionProperties d.description).insert? repeatableKey
      (if d.repeatable then some markValue else none)).insert? locationsKey
      (if d.locations.isEmpty then none else some (String.intercalate " | " d.locations))

/-- The vertex of a built-in scalar that is mentioned and not defined. -/
def builtInScalarVertex (name : String) : Vertex where
  kind := .scalar
  name := name
  path := name
  properties := Properties.empty.insert builtInScalarKey markValue

/-! ## Elements inside definitions -/

/-- The path of an element inside another, applied directives apart. -/
def innerPath (owner : Place) (name : String) : String :=
  owner.path ++ "." ++ name

/-- The path of an application of a directive that `earlier` applications of it to the same
element come before. -/
def applicationPath (owner : Place) (name : String) (earlier : Nat) : String :=
  owner.path ++ "@" ++ name ++ (if earlier = 0 then "" else "#" ++ toString earlier)

/-- The vertex of an applied directive. -/
def AppliedDirective.vertex (owner : Place) (earlier : Nat) (d : AppliedDirective) : Vertex where
  kind := .appliedDirective
  name := d.name
  path := applicationPath owner d.name earlier
  properties := Properties.empty.insert? argumentsKey
    (if d.arguments.isEmpty then none else some d.argumentText)

/-- The vertex of an argument or input field. -/
def InputValue.vertex (owner : Place) (kind : ElementKind) (v : InputValue) : Vertex where
  kind := kind
  name := v.name
  path := innerPath owner v.name
  properties := (descriptionProperties v.description).insert? defaultValueKey v.default?

/-- The vertex of a field. -/
def Field.vertex (owner : Place) (f : Field) : Vertex where
  kind := .field
  name := f.name
  path := innerPath owner f.name
  properties := descriptionProperties f.description

/-- The vertex of an enum value. -/
def EnumValue.vertex (owner : Place) (v : EnumValue) : Vertex where
  kind := .enumValue
  name := v.name
  path := innerPath owner v.name
  properties := descriptionProperties v.description

/-! ## Entries -/

/-- The entries of the directives applied to an element, after those with the names `before`. -/
def applicationEntries (owner : Place) (before : List String) :
    List AppliedDirective → List Entry
  | [] => []
  | d :: ds =>
    let vertex := d.vertex owner (before.count d.name)
    .element owner Label.appliedDirective vertex :: .mention vertex.place d.name .directive ::
      applicationEntries owner (d.name :: before) ds

/-- The entries of an argument or input field: itself, its type, the directives applied to it. -/
def InputValue.entries (owner : Place) (kind : ElementKind) (label : String) (v : InputValue) :
    List Entry :=
  let vertex := v.vertex owner kind
  .element owner label vertex :: .mention vertex.place v.type.name (.typeOf v.type.rendered) ::
    applicationEntries vertex.place [] v.directives

/-- The entries of a field: itself, its type, its arguments, the directives applied to it. -/
def Field.entries (owner : Place) (f : Field) : List Entry :=
  let vertex := f.vertex owner
  .element owner Label.field vertex ::
    .mention vertex.place f.type.name (.typeOf f.type.rendered) ::
    (f.arguments.flatMap (InputValue.entries vertex.place .argument Label.argument) ++
      applicationEntries vertex.place [] f.directives)

/-- The entries of an enum value: itself and the directives applied to it. -/
def EnumValue.entries (owner : Place) (v : EnumValue) : List Entry :=
  let vertex := v.vertex owner
  .element owner Label.enumValue vertex :: applicationEntries vertex.place [] v.directives

/-- The entries of the contents of a type. -/
def TypeBody.entries (owner : Place) : TypeBody → List Entry
  | object interfaces fields | interface interfaces fields =>
    (interfaces.map fun name => .mention owner name .interface) ++
      fields.flatMap (Field.entries owner)
  | union members => members.map fun name => .mention owner name .member
  | inputObject fields => fields.flatMap (InputValue.entries owner .inputField Label.inputField)
  | enum values => values.flatMap (EnumValue.entries owner)
  | scalar => []

/-- The entries inside a type: the directives applied to it, then its contents. -/
def TypeDefinition.entries (d : TypeDefinition) : List Entry :=
  applicationEntries d.place [] d.directives ++ d.body.entries d.place

/-- The entries inside the definition of a directive: its arguments. -/
def DirectiveDefinition.entries (d : DirectiveDefinition) : List Entry :=
  d.arguments.flatMap (InputValue.entries (directivePlace d.name) .argument Label.argument)

namespace TypeSystem

/-- Everything inside the definitions, in the order of reading. -/
def entries (ts : TypeSystem) : List Entry :=
  ts.types.entries.flatMap TypeDefinition.entries ++
    ts.directives.entries.flatMap DirectiveDefinition.entries

/-- The vertices of the definitions: types first, then directives. -/
def definitionVertices (ts : TypeSystem) : List Vertex :=
  ts.types.entries.map TypeDefinition.vertex ++
    ts.directives.entries.map DirectiveDefinition.vertex

end TypeSystem

end SchemaDelta

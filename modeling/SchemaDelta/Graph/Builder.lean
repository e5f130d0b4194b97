import SchemaDelta.Graph.Build

/-!
The building of a graph, one vertex and one edge at a time. The definitions are added first; then
everything inside them is read in order, and each mention of a type is resolved when it is met. The
building stops at the first thing that is wrong with a mention, and what is wrong with the places
and the owners of the vertices shows when all is read.

`SchemaDelta.Graph.Build` says what graph comes of it.
-/

namespace SchemaDelta

/-- A graph that is being built. -/
structure Builder where
  draft : Draft
  /-- The numbers of the types that are known by name, the latest first. -/
  types : List (String × Nat)
  /-- The numbers of the directives that are known by name, the latest first. -/
  directives : List (String × Nat)

namespace Builder

/-- The builder that has read nothing. -/
def empty : Builder :=
  ⟨.empty, [], []⟩

/-! ## Vertices and edges -/

/-- Adds a vertex, and gives its number. -/
def pushVertex (b : Builder) (v : Vertex) : Nat × Builder :=
  (b.draft.vertices.length, { b with draft := b.draft.addVertex v })

/-- Adds an edge. -/
def pushEdge (b : Builder) (one two : Nat) (label : String) : Except GraphError Builder :=
  (b.draft.addEdge ⟨one, two, label⟩).map fun draft => { b with draft := draft }

/-- Adds an element inside another, and gives its number. -/
def pushElement (b : Builder) (owner : Nat) (label : String) (v : Vertex) :
    Except GraphError (Nat × Builder) :=
  let (id, b) := b.pushVertex v
  (b.pushEdge owner id label).map fun b => (id, b)

/-! ## Names -/

/-- Makes a type known by its name. -/
def learnType (b : Builder) (name : String) (id : Nat) : Builder :=
  { b with types := (name, id) :: b.types }

/-- Makes a directive known by its name. -/
def learnDirective (b : Builder) (name : String) (id : Nat) : Builder :=
  { b with directives := (name, id) :: b.directives }

/-- Adds the vertex of a built-in scalar and makes it known, and gives its number. -/
def pushBuiltIn (b : Builder) (name : String) : Nat × Builder :=
  let (id, b) := b.pushVertex (builtInScalarVertex name)
  (id, b.learnType name id)

/-- The number of the type of a name, which the element at `location` mentions. Built-in scalars
that are not defined are added at their first mention. -/
def resolveType (b : Builder) (location name : String) : Except GraphError (Nat × Builder) :=
  match b.types.lookup name with
  | some id => .ok (id, b)
  | none =>
    if isBuiltIn name then .ok (b.pushBuiltIn name)
    else .error (.danglingTypeReference location name)

/-! ## Elements -/

/-- Reads the type of an element. -/
def readTypeOf (b : Builder) (id : Nat) (location : String) (type : TypeRef) :
    Except GraphError Builder := do
  let (target, b) ← b.resolveType location type.name
  b.pushEdge id target (Label.typeOf type.rendered)

/-- Reads the mention of a type that must be of a certain kind. -/
def readOfKind (id : Nat) (location : String) (kind : ElementKind) (fault : GraphError)
    (label : String) (b : Builder) (name : String) : Except GraphError Builder := do
  let (target, b) ← b.resolveType location name
  if (b.draft.vertex? target).any fun v => v.kind == kind then b.pushEdge id target label
  else .error fault

/-- Reads the mention of a directive, which need not be defined. -/
def readDefinition (b : Builder) (id : Nat) (name : String) : Except GraphError Builder :=
  match b.directives.lookup name with
  | some definition => b.pushEdge id definition Label.directive
  | none => .ok b

/-- Reads the directives applied to an element, after those with the names `before`. -/
def readApplications (owner : Nat) (place : Place) :
    List String → List AppliedDirective → Builder → Except GraphError Builder
  | _, [], b => .ok b
  | before, d :: ds, b => do
    let (id, b) ← b.pushElement owner Label.appliedDirective (d.vertex place (before.count d.name))
    let b ← b.readDefinition id d.name
    readApplications owner place (d.name :: before) ds b

/-- Reads an argument or input field. -/
def readInputValue (owner : Nat) (place : Place) (kind : ElementKind) (label : String)
    (b : Builder) (v : InputValue) : Except GraphError Builder := do
  let vertex := v.vertex place kind
  let (id, b) ← b.pushElement owner label vertex
  let b ← b.readTypeOf id vertex.path v.type
  b.readApplications id vertex.place [] v.directives

/-- Reads a field. -/
def readField (owner : Nat) (place : Place) (b : Builder) (f : Field) :
    Except GraphError Builder := do
  let vertex := f.vertex place
  let (id, b) ← b.pushElement owner Label.field vertex
  let b ← b.readTypeOf id vertex.path f.type
  let b ← f.arguments.foldlM (readInputValue id vertex.place .argument Label.argument) b
  b.readApplications id vertex.place [] f.directives

/-- Reads an enum value. -/
def readEnumValue (owner : Nat) (place : Place) (b : Builder) (v : EnumValue) :
    Except GraphError Builder := do
  let vertex := v.vertex place
  let (id, b) ← b.pushElement owner Label.enumValue vertex
  b.readApplications id vertex.place [] v.directives

/-! ## Definitions -/

/-- Reads the interface of a type. -/
def readInterface (id : Nat) (place : Place) (b : Builder) (name : String) :
    Except GraphError Builder :=
  readOfKind id place.path .interface (.notAnInterface place.path name) (Label.implementing name) b
    name

/-- Reads the member of a union. -/
def readMember (id : Nat) (place : Place) (b : Builder) (name : String) :
    Except GraphError Builder :=
  readOfKind id place.path .object (.invalidUnionMember place.path name) Label.member b name

/-- Reads what a type consists of. -/
def readBody (id : Nat) (place : Place) (b : Builder) : TypeBody → Except GraphError Builder
  | .object interfaces fields | .interface interfaces fields => do
    let b ← interfaces.foldlM (readInterface id place) b
    fields.foldlM (readField id place) b
  | .union members => members.foldlM (readMember id place) b
  | .inputObject fields =>
    fields.foldlM (readInputValue id place .inputField Label.inputField) b
  | .enum values => values.foldlM (readEnumValue id place) b
  | .scalar => .ok b

/-- Reads what is inside a type. -/
def readType (b : Builder) (defined : Nat × TypeDefinition) : Except GraphError Builder := do
  let (id, d) := defined
  let b ← b.readApplications id d.place [] d.directives
  b.readBody id d.place d.body

/-- Reads what is inside the definition of a directive. -/
def readDirective (b : Builder) (defined : Nat × DirectiveDefinition) :
    Except GraphError Builder :=
  let (id, d) := defined
  d.arguments.foldlM (readInputValue id (directivePlace d.name) .argument Label.argument) b

/-- Adds definitions and makes them known, and gives each with its number. -/
def define {α : Type} (vertex : α → Vertex) (learn : Builder → α → Nat → Builder) :
    List α → Builder → List (Nat × α) × Builder
  | [], b => ([], b)
  | d :: ds, b =>
    let (id, b) := b.pushVertex (vertex d)
    let (defined, b) := define vertex learn ds (learn b d id)
    ((id, d) :: defined, b)

/-- Reads a type system: all definitions, then what is inside the types, then what is inside the
directives. -/
def read (ts : TypeSystem) : Except GraphError Builder := do
  let (types, b) :=
    define TypeDefinition.vertex (fun b d => b.learnType d.name) ts.types.entries empty
  let (directives, b) :=
    define DirectiveDefinition.vertex (fun b d => b.learnDirective d.name) ts.directives.entries b
  let b ← types.foldlM readType b
  directives.foldlM readDirective b

end Builder

/-- The graph of a type system, built step by step. -/
def Graph.build (ts : TypeSystem) : Except GraphError Graph := do
  let b ← Builder.read ts
  b.draft.toGraph

end SchemaDelta

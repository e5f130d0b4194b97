import SchemaDelta.Graph.Outline
import SchemaDelta.Proofs.Renaming.Names

/-!
Type systems in which one element is given another name. Everything else is as it was, except that a
type that is renamed is mentioned by its other name, in references with the lists and marks that
they had.
-/

namespace SchemaDelta

/-- Another name for one element. -/
structure Rename where
  kind : ElementKind
  /-- What comes before the name in the path of the element. -/
  start : String
  name : String
  newName : String
  deriving DecidableEq, Repr, Inhabited

/-- What comes before the name in the path of an element inside another. -/
def innerStart (owner : Place) : String :=
  owner.path ++ "."

/-! ## Renaming -/

namespace Rename

/-- The name that an element has afterwards. -/
def nameAt (r : Rename) (kind : ElementKind) (start name : String) : String :=
  if kind = r.kind ∧ start = r.start ∧ name = r.name then r.newName else name

/-- The name by which a type is mentioned afterwards. -/
def typeName (r : Rename) (name : String) : String :=
  if r.kind.isType = true ∧ name = r.name then r.newName else name

/-- Whether an element is the one that is renamed. -/
structure IsAt (r : Rename) (v : Vertex) : Prop where
  kind : v.kind = r.kind
  name : v.name = r.name
  path : v.path = r.start ++ r.name

end Rename

variable (r : Rename)

/-- A reference to a type, which may be the one that is renamed. -/
def TypeRef.renamed (t : TypeRef) : TypeRef :=
  if r.kind.isType = true ∧ t.name = r.name then
    ⟨r.newName, t.opening ++ r.newName ++ t.closing⟩
  else t

/-- An argument or input field that may be the one that is renamed. -/
def InputValue.renamed (owner : Place) (kind : ElementKind) (v : InputValue) : InputValue :=
  { v with name := r.nameAt kind (innerStart owner) v.name, type := v.type.renamed r }

/-- A field that may be the one that is renamed, or have it inside. -/
def Field.renamed (owner : Place) (f : Field) : Field :=
  { f with
    name := r.nameAt .field (innerStart owner) f.name
    type := f.type.renamed r
    arguments := f.arguments.map (InputValue.renamed r ⟨.field, innerPath owner f.name⟩ .argument) }

/-- An enum value that may be the one that is renamed. -/
def EnumValue.renamed (owner : Place) (v : EnumValue) : EnumValue :=
  { v with name := r.nameAt .enumValue (innerStart owner) v.name }

/-- The contents of a type that may have inside what is renamed, or mention it. -/
def TypeBody.renamed (owner : Place) : TypeBody → TypeBody
  | object interfaces fields =>
    object (interfaces.map r.typeName) (fields.map (Field.renamed r owner))
  | interface interfaces fields =>
    interface (interfaces.map r.typeName) (fields.map (Field.renamed r owner))
  | union members => union (members.map r.typeName)
  | inputObject fields => inputObject (fields.map (InputValue.renamed r owner .inputField))
  | enum values => enum (values.map (EnumValue.renamed r owner))
  | scalar => scalar

/-- A type that may be the one that is renamed, or have it inside, or mention it. -/
def TypeDefinition.renamed (d : TypeDefinition) : TypeDefinition :=
  { d with
    name := r.nameAt d.body.kind "" d.name
    body := d.body.renamed r d.place }

/-- The definition of a directive that may have inside what is renamed, or mention it. -/
def DirectiveDefinition.renamed (d : DirectiveDefinition) : DirectiveDefinition :=
  { d with
    arguments := d.arguments.map (InputValue.renamed r (directivePlace d.name) .argument) }

/-- Whether an entry that says what type something has is written as a reference. -/
def Entry.IsWritten : Entry → Prop
  | .mention _ name (.typeOf rendered) => TypeRef.IsWritten ⟨name, rendered⟩
  | _ => True

instance : DecidablePred Entry.IsWritten
  | .mention _ name (.typeOf rendered) =>
    inferInstanceAs (Decidable (TypeRef.IsWritten ⟨name, rendered⟩))
  | .mention _ _ .interface | .mention _ _ .member | .mention _ _ .directive | .element .. =>
    inferInstanceAs (Decidable True)

/-- Whether one type system becomes another when an element is renamed, which is a type that is not
a built-in scalar, or a field, input field, argument or enum value. -/
structure Rename.Renames (r : Rename) (old new : TypeSystem) : Prop where
  types : new.types.entries = old.types.entries.map (TypeDefinition.renamed r)
  directives : new.directives.entries = old.directives.entries.map (DirectiveDefinition.renamed r)
  kind : r.kind ≠ .directive ∧ r.kind ≠ .appliedDirective
  name : IsName r.name
  newName : IsName r.newName
  ne : r.newName ≠ r.name
  builtIn : r.kind.isType = true → isBuiltIn r.name = false ∧ isBuiltIn r.newName = false
  /-- References to types are written as such, with names in them. -/
  written : r.kind.isType = true → ∀ entry ∈ old.entries, entry.IsWritten

end SchemaDelta

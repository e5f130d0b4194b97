import SchemaDelta.Catalog
import SchemaDelta.Schema.Definition

/-!
Type systems: the types and the directives of one schema, each in the order of definition.
-/

namespace SchemaDelta

/-- The scalars that every schema has, whether it defines them or not. -/
def builtInScalars : List String :=
  ["String", "Int", "Float", "Boolean", "ID"]

/-- Whether a name is that of a built-in scalar. -/
def isBuiltIn (name : String) : Bool :=
  builtInScalars.contains name

/-- The types and directives that a schema defines. -/
structure TypeSystem where
  types : Catalog TypeDefinition TypeDefinition.name
  directives : Catalog DirectiveDefinition DirectiveDefinition.name
  deriving DecidableEq, Inhabited

namespace TypeSystem

/-- The type system without definitions. -/
def empty : TypeSystem :=
  ⟨.empty, .empty⟩

/-- Defines a type; it takes the place of an earlier one of its name. -/
def defineType (ts : TypeSystem) (d : TypeDefinition) : TypeSystem :=
  { ts with types := ts.types.put d }

/-- Defines a directive; it takes the place of an earlier one of its name. -/
def defineDirective (ts : TypeSystem) (d : DirectiveDefinition) : TypeSystem :=
  { ts with directives := ts.directives.put d }

/-- The type of a name. -/
def type? (ts : TypeSystem) (name : String) : Option TypeDefinition :=
  ts.types.find? name

/-- The directive of a name. -/
def directive? (ts : TypeSystem) (name : String) : Option DirectiveDefinition :=
  ts.directives.find? name

end TypeSystem

end SchemaDelta

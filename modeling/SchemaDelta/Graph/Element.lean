import SchemaDelta.Graph.Kind
import SchemaDelta.Graph.Properties

/-!
Elements of a schema as the vertices of its graph. An element is known by its place, which is its
kind with its path, such as the field `Query.user`.
-/

namespace SchemaDelta

/-- What an element is known by. -/
structure Place where
  kind : ElementKind
  path : String
  deriving DecidableEq, Repr, Inhabited

/-- One element of a schema. -/
structure Vertex where
  kind : ElementKind
  name : String
  path : String
  properties : Properties
  deriving DecidableEq, Inhabited

/-! ## Keys of properties -/

/-- The key under which built-in scalars are marked. -/
def builtInScalarKey : String := "isBuiltInScalar"

/-- The key of the description of an element. -/
def descriptionKey : String := "description"

/-- The key of the default value of an argument or input field. -/
def defaultValueKey : String := "defaultValue"

/-- The key of the arguments that a directive is applied with. -/
def argumentsKey : String := "arguments"

/-- The key under which repeatable directives are marked. -/
def repeatableKey : String := "repeatable"

/-- The key of the locations of a directive. -/
def locationsKey : String := "locations"

/-- The value of a mark. -/
def markValue : String := "true"

namespace Vertex

/-- The place of an element. -/
def place (v : Vertex) : Place :=
  ⟨v.kind, v.path⟩

/-- The property of an element under a key. -/
def property? (v : Vertex) (key : String) : Option String :=
  v.properties.get? key

/-- Whether an element is a scalar that is marked as built in. -/
def isBuiltIn (v : Vertex) : Bool :=
  v.kind == .scalar && v.property? builtInScalarKey == some markValue

end Vertex

end SchemaDelta

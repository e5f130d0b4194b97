import SchemaDelta.Schema.TypeRef

/-!
The definitions of a schema: named types with their fields, members and values, and directives.
-/

namespace SchemaDelta

/-- A directive applied to a part of a schema, such as `@deprecated(reason: "no")`. -/
structure AppliedDirective where
  name : String
  /-- The names of the arguments with their values, as written. -/
  arguments : List (String × String)
  deriving DecidableEq, Repr, Inhabited

/-- The arguments of an applied directive as one text. -/
def AppliedDirective.argumentText (d : AppliedDirective) : String :=
  String.intercalate ", " (d.arguments.map fun (name, value) => name ++ ": " ++ value)

/-- A field of an input object, or an argument of a field or of a directive. -/
structure InputValue where
  name : String
  type : TypeRef
  /-- The default value, as written. -/
  default? : Option String
  description : Option String
  directives : List AppliedDirective
  deriving DecidableEq, Repr, Inhabited

/-- A field of an object or of an interface. -/
structure Field where
  name : String
  type : TypeRef
  arguments : List InputValue
  description : Option String
  directives : List AppliedDirective
  deriving DecidableEq, Repr, Inhabited

/-- A value of an enum. -/
structure EnumValue where
  name : String
  description : Option String
  directives : List AppliedDirective
  deriving DecidableEq, Repr, Inhabited

/-- What a type consists of, by its kind. -/
inductive TypeBody where
  | object (interfaces : List String) (fields : List Field)
  | interface (interfaces : List String) (fields : List Field)
  | union (members : List String)
  | inputObject (fields : List InputValue)
  | enum (values : List EnumValue)
  | scalar
  deriving DecidableEq, Repr, Inhabited

/-- A named type. -/
structure TypeDefinition where
  name : String
  description : Option String
  directives : List AppliedDirective
  body : TypeBody
  deriving DecidableEq, Repr, Inhabited

/-- The definition of a directive. -/
structure DirectiveDefinition where
  name : String
  arguments : List InputValue
  /-- Where the directive may be applied. -/
  locations : List String
  repeatable : Bool
  description : Option String
  deriving DecidableEq, Repr, Inhabited

end SchemaDelta

import SchemaDelta.Schema.Block
import SchemaDelta.Sdl.Reader

/-!
Schema documents, and the type systems they define. A document is a list of blocks, each with or
without a description in front.

Values are not looked into: a default value or an argument is the text in which it stands.
-/

namespace SchemaDelta.Sdl

open Reader

/-! ## Values and types -/

/-- Reads a value that has no parts. Any name is one, of an enum value at the least. -/
def plainValue : Reader Unit :=
  one fun
    | .mark _ => none
    | _ => some ()

/-- Reads a value in which parts are nested less than `limit` deep. -/
def valueWithin : Nat → Reader Unit
  | 0 => failure
  | limit + 1 =>
    plainValue
      <|> between '[' ']' (do discard (valueWithin limit).many)
      <|> between '\x7b' '\x7d' (do
        discard (many do
          discard name
          mark ':'
          valueWithin limit))

/-- Reads a value. Parts cannot be nested deeper than there are tokens. -/
def value : Reader Unit := fun tokens =>
  valueWithin tokens.length tokens

/-- A text in which no two marks for non-null follow each other. -/
def withSingleMarks : List Char → List Char
  | '!' :: rest =>
    match withSingleMarks rest with
    | '!' :: others => '!' :: others
    | others => '!' :: others
  | c :: rest => c :: withSingleMarks rest
  | [] => []

/-- The reference to a type with the marks that follow its name. Lists are opened as often as they
are closed. -/
def typeRefOf (name : String) (marks : List Char) : TypeRef :=
  let opened := String.ofList (List.replicate (marks.count ']') '[')
  TypeRef.parse (opened ++ name ++ String.ofList (withSingleMarks marks))

/-- Reads a reference to a type. The brackets in front of the name mean nothing. -/
def typeRef : Reader TypeRef := do
  discard (mark '[').many
  let name ← name
  let marks ← many ((do mark '!'; return '!') <|> (do mark ']'; return ']'))
  return typeRefOf name marks

/-! ## Parts of definitions -/

/-- Reads an argument of an applied directive. -/
def directiveArgument : Reader (String × String) := do
  let name ← name
  mark ':'
  return (name, ← value.source)

/-- Reads an applied directive. -/
def appliedDirective : Reader AppliedDirective := do
  mark '@'
  let name ← name
  let arguments ← optionalGroup '(' ')' directiveArgument.many
  return ⟨name, arguments⟩

/-- Reads an argument or an input field. -/
def inputValue : Reader InputValue := do
  let description ← optional text
  let name ← name
  mark ':'
  let type ← typeRef
  let default? ← optional do mark '='; value.source
  let directives ← appliedDirective.many
  return ⟨name, type, default?, description, directives⟩

/-- Reads arguments in parentheses, if there are any. -/
def argumentDefinitions : Reader (List InputValue) :=
  optionalGroup '(' ')' inputValue.many1

/-- Reads a field. -/
def field : Reader Field := do
  let description ← optional text
  let name ← name
  let arguments ← argumentDefinitions
  mark ':'
  let type ← typeRef
  let directives ← appliedDirective.many
  return ⟨name, type, arguments, description, directives⟩

/-- Reads the name of an enum value, which is not one of the other plain values. -/
def enumValueName : Reader String :=
  one fun
    | .name text => if text ∈ ["true", "false", "null"] then none else some text
    | _ => none

/-- Reads an enum value. -/
def enumValue : Reader EnumValue := do
  let description ← optional text
  let name ← enumValueName
  let directives ← appliedDirective.many
  return ⟨name, description, directives⟩

/-- Reads the interfaces of a type. -/
def interfaces : Reader (List String) := do
  return (← optional do word "implements"; separatedBy '&' name).getD []

/-- Reads fields in braces, if there are any. -/
def fields : Reader (List Field) :=
  optionalGroup '\x7b' '\x7d' field.many1

/-! ## Definitions -/

/-- Reads a block of an object or interface, after the word for it. -/
def fieldsBlock (body : List String → List Field → TypeBody) (description : Option String) :
    Reader TypeDefinition := do
  let name ← name
  let interfaces ← interfaces
  let directives ← appliedDirective.many
  let fields ← fields
  return ⟨name, description, directives, body interfaces fields⟩

/-- Reads a block of any other type, after the word for it. -/
def plainBlock (body : Reader TypeBody) (description : Option String) :
    Reader TypeDefinition := do
  let name ← name
  let directives ← appliedDirective.many
  let body ← body
  return ⟨name, description, directives, body⟩

/-- Reads the members of a union, if there are any. -/
def unionBody : Reader TypeBody := do
  let members ← optional do mark '='; separatedBy '|' name
  return .union (members.getD [])

/-- Reads the values of an enum, if there are any. -/
def enumBody : Reader TypeBody := do
  return .enum (← optionalGroup '\x7b' '\x7d' enumValue.many1)

/-- Reads the fields of an input object, if there are any. -/
def inputBody : Reader TypeBody := do
  return .inputObject (← optionalGroup '\x7b' '\x7d' inputValue.many1)

/-- Reads a block of a type. -/
def typeBlock (description : Option String) : Reader TypeDefinition :=
  (do word "type"; fieldsBlock .object description)
    <|> (do word "interface"; fieldsBlock .interface description)
    <|> (do word "union"; plainBlock unionBody description)
    <|> (do word "enum"; plainBlock enumBody description)
    <|> (do word "input"; plainBlock inputBody description)
    <|> (do word "scalar"; plainBlock (pure .scalar) description)

/-- Reads the root operations of a schema in braces. -/
def roots : Reader Unit :=
  between '\x7b' '\x7d' do
    discard (many do
      discard (nameAmong ["query", "mutation", "subscription"])
      mark ':'
      discard name)

/-- Where directives can be applied. -/
def directiveLocations : List String :=
  ["QUERY", "MUTATION", "SUBSCRIPTION", "FIELD", "FRAGMENT_DEFINITION", "FRAGMENT_SPREAD",
   "INLINE_FRAGMENT", "VARIABLE_DEFINITION", "SCHEMA", "SCALAR", "OBJECT", "FIELD_DEFINITION",
   "ARGUMENT_DEFINITION", "INTERFACE", "UNION", "ENUM", "ENUM_VALUE", "INPUT_OBJECT",
   "INPUT_FIELD_DEFINITION"]

/-- Reads the definition of a directive. -/
def directiveBlock (description : Option String) : Reader DirectiveDefinition := do
  word "directive"
  mark '@'
  let name ← name
  let arguments ← argumentDefinitions
  let repeatable ← (word "repeatable").present
  word "on"
  let locations ← separatedBy '|' (nameAmong directiveLocations)
  return ⟨name, arguments, locations, repeatable, description⟩

/-- Reads a block that extends something. -/
def extension (description : Option String) : Reader Block := do
  word "extend"
  (do return .type (← typeBlock description))
    <|> (do
      word "schema"
      discard appliedDirective.many
      discard (optional roots)
      return .roots)

/-- Reads a block that defines something. -/
def definition (description : Option String) : Reader Block :=
  (do return .type (← typeBlock description))
    <|> (do return .directive (← directiveBlock description))
    <|> (do
      word "schema"
      discard appliedDirective.many
      roots
      return .roots)

/-- Reads a block with its description. -/
def block : Reader Block := do
  let description ← optional text
  extension description <|> definition description

/-! ## Documents -/

/-- The blocks of a document. -/
def blocks? (document : String) : Option (List Block) := do
  let tokens ← tokens? document
  match ← block.many1 tokens with
  | (blocks, []) => some blocks
  | (_, _ :: _) => none

end SchemaDelta.Sdl

namespace SchemaDelta

/-- The type system that a document defines, unless it is not a schema document. -/
def TypeSystem.ofSdl? (document : String) : Option TypeSystem :=
  (Sdl.blocks? document).map TypeSystem.ofBlocks

end SchemaDelta

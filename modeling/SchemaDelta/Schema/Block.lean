import SchemaDelta.Schema.TypeSystem

/-!
Schema documents give a type in blocks: a definition and any number of extensions. A block adds to
what the blocks before it gave; one of another kind replaces the contents they gave.
-/

namespace SchemaDelta

/-- One block of a schema document. Extensions are blocks like the definitions they extend. -/
inductive Block where
  | type (definition : TypeDefinition)
  | directive (definition : DirectiveDefinition)
  /-- The root operations of a schema, which name types and define none. -/
  | roots
  deriving DecidableEq, Repr, Inhabited

/-- Contents followed by those of a later block. Contents of one kind add up, and those of a later
block of another kind stand alone. -/
def TypeBody.extendedBy : TypeBody → TypeBody → TypeBody
  | .object interfaces fields, .object moreInterfaces moreFields =>
    .object (interfaces ++ moreInterfaces) (fields ++ moreFields)
  | .interface interfaces fields, .interface moreInterfaces moreFields =>
    .interface (interfaces ++ moreInterfaces) (fields ++ moreFields)
  | .union members, .union more => .union (members ++ more)
  | .inputObject fields, .inputObject more => .inputObject (fields ++ more)
  | .enum values, .enum more => .enum (values ++ more)
  | _, later => later

/-- A type with one more block: the first description stays, and directives add up. -/
def TypeDefinition.extendedBy (d block : TypeDefinition) : TypeDefinition where
  name := d.name
  description := d.description <|> block.description
  directives := d.directives ++ block.directives
  body := d.body.extendedBy block.body

namespace TypeSystem

/-- A type system with one more block of a type. -/
def extendType (ts : TypeSystem) (block : TypeDefinition) : TypeSystem :=
  match ts.type? block.name with
  | none => ts.defineType block
  | some d => ts.defineType (d.extendedBy block)

/-- A type system with one more block. -/
def extend (ts : TypeSystem) : Block → TypeSystem
  | .type block => ts.extendType block
  | .directive d => ts.defineDirective d
  | .roots => ts

/-- The type system that the blocks of a document give. -/
def ofBlocks (blocks : List Block) : TypeSystem :=
  blocks.foldl extend .empty

end TypeSystem

end SchemaDelta

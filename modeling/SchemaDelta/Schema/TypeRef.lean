import SchemaDelta.Text.Blank
import SchemaDelta.Text.Bytes

/-!
References to types, such as `[Int!]!`: the named type, and the text with its list and non-null
marks. The name is told by the marks at the end of the text alone.
-/

namespace SchemaDelta

/-- A reference to a named type. -/
structure TypeRef where
  /-- The type inside all list and non-null marks. -/
  name : String
  /-- The reference as it is written. -/
  rendered : String
  deriving DecidableEq, Repr, Inhabited

namespace TypeRef

/-- The reference without any marks. -/
def named (name : String) : TypeRef :=
  ⟨name, name⟩

/-- Whether a character closes a list or marks non-null. -/
def isMark (c : Char) : Bool :=
  c == '!' || c == ']'

/-- The marks at the end of a text, last one first. -/
def marks (cs : List Char) : List Char :=
  cs.reverse.takeWhile isMark

/-- A text without the marks at its end. -/
def beforeMarks (cs : List Char) : List Char :=
  (cs.reverse.dropWhile isMark).reverse

/-- The name inside a reference without white space: as many bytes are dropped in front of it as
lists are closed behind it. -/
def nameIn (cs : List Char) : List Char :=
  (Text.dropBytes? ((marks cs).count ']') (beforeMarks cs)).getD []

/-- Reads a reference. White space does not matter, and every text is a reference of some kind:
one whose brackets leave no name refers to the empty name. -/
def parse (text : String) : TypeRef :=
  let cs := Text.withoutBlanks text.toList
  ⟨String.ofList (nameIn cs), String.ofList cs⟩

/-! ## Bytes -/

/-- A part of a text, by the positions in bytes where it begins and ends. -/
structure Span where
  start : Nat
  stop : Nat
  deriving DecidableEq, Repr, Inhabited

/-- A span with its ends moved over the marks that a text ends with, which is given from its end:
each mark takes a byte from the end of the span, and one that closes a list also one from its start.
Nothing comes of it where no byte is left to be taken. -/
def Span.narrowed? : List Char → Span → Option Span
  | [], span => some span
  | c :: cs, span =>
    if isMark c then
      if span.stop = 0 then none
      else narrowed? cs ⟨if c = ']' then span.start + 1 else span.start, span.stop - 1⟩
    else some span

/-- Reads a reference as `parse` does, but by positions in its bytes. Where these are not those of a
part of the text, the name is empty. -/
def scan? (text : String) : Option TypeRef :=
  let cs := Text.withoutBlanks text.toList
  (Span.narrowed? cs.reverse ⟨0, Text.byteLength cs⟩).map fun span =>
    ⟨String.ofList ((Text.slice? span.start span.stop cs).getD []), String.ofList cs⟩

end TypeRef

/-! ## Expressions -/

/-- A type as an expression: a name inside any nesting of lists and non-null marks. -/
inductive TypeExpr where
  | named (name : String)
  | list (item : TypeExpr)
  | nonNull (nullable : TypeExpr)
  deriving DecidableEq, Repr, Inhabited

namespace TypeExpr

/-- The name inside an expression. -/
def name : TypeExpr → String
  | named name => name
  | list item => item.name
  | nonNull nullable => nullable.name

/-- An expression as it is written. -/
def text : TypeExpr → String
  | named name => name
  | list item => "[" ++ item.text ++ "]"
  | nonNull nullable => nullable.text ++ "!"

/-- Whether a character is none that is written around a name. -/
def isPlain (c : Char) : Bool :=
  !Text.isBlank c && c != '!' && c != '[' && c != ']'

/-- Whether the name inside an expression can be told from what is written around it: it is there,
and has no white space, bracket or mark in it. -/
def HasPlainName (e : TypeExpr) : Prop :=
  e.name ≠ "" ∧ e.name.toList.all isPlain = true

instance (e : TypeExpr) : Decidable e.HasPlainName :=
  inferInstanceAs (Decidable (_ ∧ _))

end TypeExpr

end SchemaDelta

/-!
Documents, the written form of reports: JSON values, in which the members of a record have an
order that does not matter.

A value with several parts is written as a record, and can also be read from a list that gives all
its parts in order. A value of one of several shapes has its shape as the member `kind`, or first
in the list.
-/

namespace SchemaDelta

/-- A JSON value. -/
inductive Document where
  | null
  | bool (value : Bool)
  | natural (value : Nat)
  /-- A number that is not a natural one, as it is written. -/
  | number (text : String)
  | text (value : String)
  | list (items : List Document)
  | record (members : List (String × Document))
  deriving Repr, Inhabited

/-- Where the parts of a value are found. -/
inductive Parts where
  /-- By their names, among any others. -/
  | named (members : List (String × Document))
  /-- By their order, without any others. -/
  | ordered (items : List Document)
  deriving Repr, Inhabited

/-- The parts of the given names. A named part may be missing. -/
def Parts.read? (names : List String) : Parts → Option (List (Option Document))
  | named members => some (names.map fun name => members.lookup name)
  | ordered items => if items.length = names.length then some (items.map some) else none

namespace Document

/-- The member that tells the shape of a value. -/
def kindMember : String := "kind"

/-- The parts of a value with several. -/
def parts? : Document → Option Parts
  | record members => some (.named members)
  | list items => some (.ordered items)
  | _ => none

/-- The shape of a value with the parts that it then has. -/
def shaped? : Document → Option (Document × Parts)
  | record members => (members.lookup kindMember).map fun kind => (kind, .named members)
  | list (kind :: items) => some (kind, .ordered items)
  | _ => none

/-- A text. -/
def text? : Document → Option String
  | text value => some value
  | _ => none

/-- A truth value. -/
def bool? : Document → Option Bool
  | bool value => some value
  | _ => none

/-- A list of values. -/
def list? {α : Type} (item? : Document → Option α) : Document → Option (List α)
  | list items => items.mapM item?
  | _ => none

/-- One of several names. It may also be written as a record with nothing under the name. -/
def word? : Document → Option String
  | text value => some value
  | record [(name, null)] => some name
  | _ => none

/-- A text or nothing, written as null or left out. -/
def optionalText? : Option Document → Option (Option String)
  | none => some none
  | some null => some none
  | some (text value) => some (some value)
  | _ => none

/-- A text, or null in place of it. -/
def ofOptionalText : Option String → Document
  | none => null
  | some value => text value

end Document

end SchemaDelta

/-!
How elements relate. Relations are told apart by labels: five of them say that one element owns
another, the others say which definitions an element mentions.
-/

namespace SchemaDelta

namespace Label

def field : String := "field"

def inputField : String := "input-field"

def argument : String := "argument"

def enumValue : String := "enum-value"

def appliedDirective : String := "applied-directive"

/-- From a union to one of its members. -/
def member : String := "member"

/-- From an applied directive to its definition. -/
def directive : String := "directive"

/-- How the label from a type to an interface of it begins. -/
def implementsStart : String := "implements "

/-- How the label from an element to its type begins. -/
def typeStart : String := "type="

/-- From a type to an interface of it. -/
def implementing (name : String) : String :=
  implementsStart ++ name

/-- From an element to its type, with the type as it is written. -/
def typeOf (rendered : String) : String :=
  typeStart ++ rendered

/-- The labels from an owner to what it owns. -/
def ownership : List String :=
  [field, inputField, argument, enumValue, appliedDirective]

/-- Whether a label says that one element owns another. -/
def isOwnership (label : String) : Bool :=
  ownership.contains label

/-- Whether a label leads from a type to an interface of it. -/
def isImplements (label : String) : Bool :=
  implementsStart.toList.isPrefixOf label.toList

end Label

/-- A relation from one element to another, which are given by the numbers of their vertices. -/
structure Edge where
  one : Nat
  two : Nat
  label : String
  deriving DecidableEq, Repr, Inhabited

/-- Whether an edge leads from an owner to what it owns. -/
def Edge.isOwnership (e : Edge) : Bool :=
  Label.isOwnership e.label

end SchemaDelta

/-!
The kinds of the elements of a schema, and their order: definitions of types and directives come
first, and what is owned comes after everything that can own it.
-/

namespace SchemaDelta

/-- The kinds of elements. -/
inductive ElementKind where
  | object | interface | union | inputObject | enum | scalar | directive
  | field | inputField | argument | enumValue | appliedDirective
  deriving DecidableEq, Repr, Inhabited

namespace ElementKind

/-- All kinds, in their order. -/
def all : List ElementKind :=
  [object, interface, union, inputObject, enum, scalar, directive, field, inputField, argument,
   enumValue, appliedDirective]

/-- The place of a kind in the order. -/
def rank : ElementKind → Nat
  | object => 0
  | interface => 1
  | union => 2
  | inputObject => 3
  | enum => 4
  | scalar => 5
  | directive => 6
  | field => 7
  | inputField => 8
  | argument => 9
  | enumValue => 10
  | appliedDirective => 11

instance : Ord ElementKind := ⟨compareOn rank⟩

/-- The name of a kind in messages and documents. -/
def text : ElementKind → String
  | object => "OBJECT"
  | interface => "INTERFACE"
  | union => "UNION"
  | inputObject => "INPUT_OBJECT"
  | enum => "ENUM"
  | scalar => "SCALAR"
  | directive => "DIRECTIVE"
  | field => "FIELD"
  | inputField => "INPUT_FIELD"
  | argument => "ARGUMENT"
  | enumValue => "ENUM_VALUE"
  | appliedDirective => "APPLIED_DIRECTIVE"

/-- The kind of a name. -/
def ofText? (name : String) : Option ElementKind :=
  all.find? fun kind => kind.text == name

/-- Whether elements of a kind have fields. -/
def hasFields : ElementKind → Bool
  | object | interface | inputObject => true
  | _ => false

/-- Whether elements of a kind are named types. -/
def isType (kind : ElementKind) : Bool :=
  kind.rank < directive.rank

theorem all_getElem?_rank (kind : ElementKind) : all[kind.rank]? = some kind := by
  cases kind <;> rfl

theorem mem_all (kind : ElementKind) : kind ∈ all :=
  List.mem_of_getElem? (all_getElem?_rank kind)

theorem rank_injective {a b : ElementKind} (h : a.rank = b.rank) : a = b := by
  have := all_getElem?_rank a
  rw [h, all_getElem?_rank b] at this
  exact (Option.some.inj this).symm

theorem ofText?_text (kind : ElementKind) : ofText? kind.text = some kind := by
  cases kind <;> decide

instance : Std.TransOrd ElementKind :=
  inferInstanceAs (Std.TransCmp (compareOn rank))

instance : Std.LawfulEqOrd ElementKind where
  eq_of_compare {a b} h :=
    rank_injective (Std.LawfulEqOrd.eq_of_compare (show compare a.rank b.rank = .eq from h))

end ElementKind

end SchemaDelta

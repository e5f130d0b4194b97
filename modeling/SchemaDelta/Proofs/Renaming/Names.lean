import SchemaDelta.Schema.TypeRef
import SchemaDelta.Sdl.Token
import Mathlib.Data.List.TakeWhile
import Mathlib.Data.String.Basic

/-!
Names inside longer texts. A name ends where something follows that cannot go on with it, so the
name at the beginning of a path and the name inside a reference are told by the whole text; and
texts that begin alike are ordered by what follows.
-/

namespace SchemaDelta

open Sdl

/-! ## Names -/

/-- Whether a text is a name. -/
def IsName (text : String) : Prop :=
  text ≠ "" ∧ ∀ c ∈ text.toList, isNamePart c = true

instance (text : String) : Decidable (IsName text) :=
  decidable_of_iff (text ≠ "" ∧ text.toList.all isNamePart = true)
    (and_congr_right fun _ => List.all_eq_true)

/-- Whether a text does not go on with a name that it follows. -/
def EndsName (rest : String) : Prop :=
  ∀ c ∈ rest.toList.head?, isNamePart c = false

theorem EndsName.append {rest more : String} (h : EndsName rest) (hmore : EndsName more) :
    EndsName (rest ++ more) := by
  intro c hc
  rw [String.toList_append, List.head?_append, Option.mem_def, Option.or_eq_some_iff] at hc
  rcases hc with hc | ⟨-, hc⟩
  · exact h c hc
  · exact hmore c hc

/-- What a path goes on with after the name of an element. -/
theorem endsName_of_separator {separator : String} (h : separator = "." ∨ separator = "@")
    (more : String) : EndsName (separator ++ more) := by
  rcases h with rfl | rfl <;> simp [EndsName, isNamePart, isNameStart]

/-- A text of characters of one sort is found again in front of what is of another. -/
theorem takeWhile_append_eq {p : Char → Bool} {as bs : List Char} (has : ∀ c ∈ as, p c = true)
    (hbs : ∀ c ∈ bs.head?, p c = false) : (as ++ bs).takeWhile p = as := by
  have hnone : bs.takeWhile p = [] := by
    cases bs with
    | nil => rfl
    | cons c cs => exact List.takeWhile_cons_of_neg (Bool.eq_false_iff.1 (hbs c rfl))
  rw [List.takeWhile_append_of_pos has, hnone, List.append_nil]

theorem dropWhile_append_eq {p : Char → Bool} {as bs : List Char} (has : ∀ c ∈ as, p c = true)
    (hbs : ∀ c ∈ bs.head?, p c = false) : (as ++ bs).dropWhile p = bs := by
  have hsplit := List.takeWhile_append_dropWhile (p := p) (l := as ++ bs)
  rw [takeWhile_append_eq has hbs] at hsplit
  exact List.append_cancel_left hsplit

theorem takeWhile_isNamePart {name rest : String} (hname : IsName name) (hrest : EndsName rest) :
    (name ++ rest).toList.takeWhile isNamePart = name.toList := by
  rw [String.toList_append, takeWhile_append_eq hname.2 hrest]

/-- A text is split in one way only into a name and what does not go on with it. -/
theorem eq_of_append_eq {name name' rest rest' : String} (hname : IsName name)
    (hname' : IsName name') (hrest : EndsName rest) (hrest' : EndsName rest')
    (h : name ++ rest = name' ++ rest') : name = name' ∧ rest = rest' := by
  have heq : name = name' := by
    rw [← String.toList_inj, ← takeWhile_isNamePart hname hrest, h,
      takeWhile_isNamePart hname' hrest']
  subst heq
  exact ⟨rfl, (String.append_right_inj name).1 h⟩

/-- Whether a name that follows a text begins where the text ends. -/
def LeadsToName (start : String) : Prop :=
  ∀ c ∈ start.toList.getLast?, isNamePart c = false

/-- What a path has before the name of an element. -/
theorem leadsToName_append {separator : String}
    (h : separator = "." ∨ separator = "@" ∨ separator = "#") (start : String) :
    LeadsToName (start ++ separator) := by
  rcases h with rfl | rfl | rfl <;> simp [LeadsToName, isNamePart, isNameStart]

/-- Read from its end, a text is split in one way only into a name and what leads to it. -/
theorem eq_of_append_name_eq {start start' name name' : String} (hstart : LeadsToName start)
    (hstart' : LeadsToName start') (hname : IsName name) (hname' : IsName name')
    (h : start ++ name = start' ++ name') : start = start' ∧ name = name' := by
  have hend {start name : String} (hstart : LeadsToName start) (hname : IsName name) :
      (start ++ name).toList.reverse.takeWhile isNamePart = name.toList.reverse := by
    rw [String.toList_append, List.reverse_append]
    refine takeWhile_append_eq (fun c hc => hname.2 c (List.mem_reverse.1 hc)) ?_
    rwa [List.head?_reverse]
  have heq : name = name' := by
    rw [← String.toList_inj, ← List.reverse_inj, ← hend hstart hname, h, hend hstart' hname']
  subst heq
  exact ⟨(String.append_left_inj name).1 h, rfl⟩

/-! ## Order -/

theorem append_lt_append_left (start as bs : List Char) : start ++ as < start ++ bs ↔ as < bs := by
  induction start with
  | nil => rfl
  | cons c start ih => simp [ih]

theorem compare_append (start a b : String) : compare (start ++ a) (start ++ b) = compare a b := by
  change compareOfLessAndEq _ _ = compareOfLessAndEq _ _
  simp only [compareOfLessAndEq, String.lt_iff_toList_lt, String.toList_append,
    append_lt_append_left, String.append_right_inj]

/-! ## References -/

namespace TypeRef

/-- The lists that a reference opens. -/
def opening (t : TypeRef) : String :=
  String.ofList (t.rendered.toList.takeWhile (· == '['))

/-- The marks that a reference closes with. -/
def closing (t : TypeRef) : String :=
  String.ofList (marks t.rendered.toList).reverse

/-- Whether a reference is written as a name with lists and marks around it. -/
def IsWritten (t : TypeRef) : Prop :=
  IsName t.name ∧ t.rendered = t.opening ++ t.name ++ t.closing

instance (t : TypeRef) : Decidable t.IsWritten :=
  inferInstanceAs (Decidable (_ ∧ _))

/-- Around a name there is nothing that could be part of it. -/
theorem filter_rendered {name : String} (t : TypeRef) (hname : IsName name) :
    (t.opening ++ name ++ t.closing).toList.filter isNamePart = name.toList := by
  have hopening : t.opening.toList.filter isNamePart = [] := by
    refine List.filter_eq_nil_iff.2 fun c hc => ?_
    rw [opening, String.toList_ofList] at hc
    have hbracket := List.mem_takeWhile_imp hc
    rw [beq_iff_eq] at hbracket
    rw [hbracket]
    decide
  have hclosing : t.closing.toList.filter isNamePart = [] := by
    refine List.filter_eq_nil_iff.2 fun c hc => ?_
    rw [closing, String.toList_ofList, List.mem_reverse] at hc
    have hmark := List.mem_takeWhile_imp hc
    rw [TypeRef.isMark, Bool.or_eq_true, beq_iff_eq, beq_iff_eq] at hmark
    rcases hmark with rfl | rfl <;> decide
  rw [String.toList_append, String.toList_append, List.filter_append, List.filter_append, hopening,
    hclosing, List.nil_append, List.append_nil, List.filter_eq_self]
  exact hname.2

end TypeRef

end SchemaDelta

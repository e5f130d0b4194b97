/-!
White space, as the Unicode property White_Space has it. Type references and the lines of block
strings are read with this class; the grammar of schema documents has a smaller one of its own.
-/

namespace SchemaDelta.Text

/-- The ranges of code points with the property White_Space, ends included. -/
def blankRanges : List (Nat × Nat) :=
  [(0x09, 0x0D), (0x20, 0x20), (0x85, 0x85), (0xA0, 0xA0), (0x1680, 0x1680), (0x2000, 0x200A),
   (0x2028, 0x2029), (0x202F, 0x202F), (0x205F, 0x205F), (0x3000, 0x3000)]

/-- Whether a character is white space. -/
def isBlank (c : Char) : Bool :=
  blankRanges.any fun range => range.1 ≤ c.toNat && c.toNat ≤ range.2

/-- What is left of a text without its white space. -/
def withoutBlanks (cs : List Char) : List Char :=
  cs.filter fun c => !isBlank c

/-- Whether a text is another one with white space put in anywhere. -/
inductive IsSpreadFrom : List Char → List Char → Prop
  | nil : IsSpreadFrom [] []
  | blank {c : Char} {cs text : List Char} (hblank : isBlank c = true) (h : IsSpreadFrom cs text) :
      IsSpreadFrom (c :: cs) text
  | keep (c : Char) {cs text : List Char} (h : IsSpreadFrom cs text) :
      IsSpreadFrom (c :: cs) (c :: text)

theorem withoutBlanks_idem (cs : List Char) :
    withoutBlanks (withoutBlanks cs) = withoutBlanks cs := by
  simp [withoutBlanks]

theorem withoutBlanks_eq_self {cs : List Char} (h : ∀ c ∈ cs, isBlank c = false) :
    withoutBlanks cs = cs := by
  rw [withoutBlanks, List.filter_eq_self]
  intro c hc
  rw [h c hc, Bool.not_false]

theorem isSpreadFrom_withoutBlanks (cs : List Char) : IsSpreadFrom cs (withoutBlanks cs) := by
  induction cs with
  | nil => exact .nil
  | cons c cs ih =>
    cases hblank : isBlank c with
    | true =>
      rw [withoutBlanks, List.filter_cons_of_neg (by simp [hblank])]
      exact .blank hblank ih
    | false =>
      rw [withoutBlanks, List.filter_cons_of_pos (by simp [hblank])]
      exact .keep c ih

/-- White space that is put in goes away again with all the other. -/
theorem IsSpreadFrom.withoutBlanks_eq {cs text : List Char} (h : IsSpreadFrom cs text) :
    withoutBlanks cs = withoutBlanks text := by
  induction h with
  | nil => rfl
  | blank hblank _ ih =>
    rw [withoutBlanks, List.filter_cons_of_neg (by simp [hblank]), ← ih, withoutBlanks]
  | keep c _ ih =>
    unfold withoutBlanks at ih ⊢
    rw [List.filter_cons, List.filter_cons, ih]

end SchemaDelta.Text

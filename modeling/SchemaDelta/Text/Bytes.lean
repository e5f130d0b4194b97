import SchemaDelta.Total

/-!
Texts measured and cut in bytes of UTF-8.
-/

namespace SchemaDelta.Text

/-- How many bytes a text takes in UTF-8. -/
def byteLength (cs : List Char) : Nat :=
  total (cs.map Char.utf8Size)

/-- What is left after the first `n` bytes of a text. Nothing is left of a text that is shorter, or
in which the cut would go through a character. -/
def dropBytes? : Nat → List Char → Option (List Char)
  | 0, cs => some cs
  | _ + 1, [] => none
  | n + 1, c :: cs => if c.utf8Size ≤ n + 1 then dropBytes? (n + 1 - c.utf8Size) cs else none

/-- The first `n` bytes of a text. A text that is shorter, or in which the cut would go through a
character, does not have them. -/
def takeBytes? : Nat → List Char → Option (List Char)
  | 0, _ => some []
  | _ + 1, [] => none
  | n + 1, c :: cs =>
    if c.utf8Size ≤ n + 1 then (takeBytes? (n + 1 - c.utf8Size) cs).map (c :: ·) else none

/-- The bytes of a text from one position to another. -/
def slice? (start stop : Nat) (cs : List Char) : Option (List Char) :=
  (takeBytes? stop cs).bind (dropBytes? start)

theorem byteLength_append (as bs : List Char) :
    byteLength (as ++ bs) = byteLength as + byteLength bs := by
  simp only [byteLength, total, List.map_append, List.sum_append]

/-- A character takes at least one byte, so a cut behind it is none at the beginning. -/
theorem exists_byteLength_cons (c : Char) (cs : List Char) :
    ∃ n, byteLength (c :: cs) = n + 1 ∧ c.utf8Size ≤ n + 1 ∧
      n + 1 - c.utf8Size = byteLength cs := by
  have hpos := c.utf8Size_pos
  refine ⟨byteLength (c :: cs) - 1, ?_⟩
  simp only [byteLength, total, List.map_cons, List.sum_cons]
  omega

@[simp]
theorem dropBytes?_byteLength (cs rest : List Char) :
    dropBytes? (byteLength cs) (cs ++ rest) = some rest := by
  induction cs with
  | nil => simp [byteLength, total, dropBytes?]
  | cons c cs ih =>
    obtain ⟨n, hn, hle, hrest⟩ := exists_byteLength_cons c cs
    rw [hn, List.cons_append, dropBytes?, if_pos hle, hrest, ih]

@[simp]
theorem takeBytes?_byteLength (cs rest : List Char) :
    takeBytes? (byteLength cs) (cs ++ rest) = some cs := by
  induction cs with
  | nil => simp [byteLength, total, takeBytes?]
  | cons c cs ih =>
    obtain ⟨n, hn, hle, hrest⟩ := exists_byteLength_cons c cs
    rw [hn, List.cons_append, takeBytes?, if_pos hle, hrest, ih, Option.map_some]

end SchemaDelta.Text

import SchemaDelta.Proofs.Renaming.Names
import SchemaDelta.Proofs.Sums

/-!
References to types are read back from how they are written, with white space or without. A name is
found behind as many brackets as are closed at the end of the text, because a bracket takes one byte
as a mark does; and no text is so ill-formed that reading it by positions in its bytes would leave
the text.
-/

namespace SchemaDelta

/-! ## Expressions -/

namespace TypeExpr

/-- How many lists there are in an expression. -/
def depth : TypeExpr → Nat
  | named _ => 0
  | list item => item.depth + 1
  | nonNull nullable => nullable.depth

/-- What is written after the name. -/
def closings : TypeExpr → List Char
  | named _ => []
  | list item => item.closings ++ [']']
  | nonNull nullable => nullable.closings ++ ['!']

theorem toList_text (e : TypeExpr) :
    e.text.toList = List.replicate e.depth '[' ++ e.name.toList ++ e.closings := by
  induction e with
  | named name => simp [text, TypeExpr.name, depth, closings]
  | list item ih => simp [text, name, depth, closings, ih, List.replicate_succ]
  | nonNull nullable ih => simp [text, name, depth, closings, ih]

theorem count_closings (e : TypeExpr) : e.closings.count ']' = e.depth := by
  induction e with
  | named name => rfl
  | list item ih => simp [closings, depth, ih]
  | nonNull nullable ih => simp [closings, depth, ih]

theorem isMark_of_mem_closings (e : TypeExpr) : ∀ c ∈ e.closings, TypeRef.isMark c = true := by
  induction e with
  | named name => simp [closings]
  | list item ih =>
    intro c hc
    rcases List.mem_append.1 hc with hc | hc
    · exact ih c hc
    · rw [List.mem_singleton.1 hc]
      rfl
  | nonNull nullable ih =>
    intro c hc
    rcases List.mem_append.1 hc with hc | hc
    · exact ih c hc
    · rw [List.mem_singleton.1 hc]
      rfl

theorem isPlain_of_mem_name {e : TypeExpr} (h : e.HasPlainName) {c : Char}
    (hc : c ∈ e.name.toList) : Text.isBlank c = false ∧ TypeRef.isMark c = false := by
  have hplain := List.all_eq_true.1 h.2 c hc
  simp only [isPlain, Bool.and_eq_true, Bool.not_eq_true', bne_iff_ne] at hplain
  simp [TypeRef.isMark, hplain]

/-- What stands around a plain name is not white space either. -/
theorem withoutBlanks_text {e : TypeExpr} (h : e.HasPlainName) :
    Text.withoutBlanks e.text.toList = e.text.toList := by
  apply Text.withoutBlanks_eq_self
  intro c hc
  rw [toList_text, List.mem_append, List.mem_append] at hc
  rcases hc with (hc | hc) | hc
  · rw [List.eq_of_mem_replicate hc]
    decide
  · exact (isPlain_of_mem_name h hc).1
  · have hmark := isMark_of_mem_closings e c hc
    simp only [TypeRef.isMark, Bool.or_eq_true, beq_iff_eq] at hmark
    rcases hmark with rfl | rfl <;> decide

end TypeExpr

/-! ## Reading -/

namespace TypeRef

theorem byteLength_replicate_bracket (n : Nat) : Text.byteLength (List.replicate n '[') = n := by
  rw [Text.byteLength, total_eq_sum, List.map_replicate, List.sum_replicate]
  exact Nat.mul_one n

section Marks

variable {front closings : List Char} (hmarks : ∀ c ∈ closings, isMark c = true)
  (hfront : ∀ c ∈ front.getLast?, isMark c = false)

include hmarks hfront

theorem marks_append : marks (front ++ closings) = closings.reverse := by
  rw [marks, List.reverse_append]
  exact takeWhile_append_eq (fun c hc => hmarks c (List.mem_reverse.1 hc))
    (by rwa [List.head?_reverse])

theorem beforeMarks_append : beforeMarks (front ++ closings) = front := by
  rw [beforeMarks, List.reverse_append, dropWhile_append_eq
    (fun c hc => hmarks c (List.mem_reverse.1 hc)) (by rwa [List.head?_reverse]),
    List.reverse_reverse]

end Marks

/-- The name between as many lists opened before it as are closed after it is found. -/
theorem nameIn_between {name closings : List Char} (hmarks : ∀ c ∈ closings, isMark c = true)
    (hname : ∀ c ∈ name.getLast?, isMark c = false) :
    nameIn (List.replicate (closings.count ']') '[' ++ name ++ closings) = name := by
  have hfront : ∀ c ∈ (List.replicate (closings.count ']') '[' ++ name).getLast?,
      isMark c = false := by
    intro c hc
    rw [List.getLast?_append, Option.mem_def, Option.or_eq_some_iff] at hc
    rcases hc with hc | ⟨-, hc⟩
    · exact hname c hc
    · rw [List.eq_of_mem_replicate (List.mem_of_getLast? hc)]
      decide
  rw [nameIn, marks_append hmarks hfront, beforeMarks_append hmarks hfront, List.count_reverse]
  nth_rewrite 1 [← byteLength_replicate_bracket (closings.count ']')]
  rw [Text.dropBytes?_byteLength]
  rfl

theorem parse_of_isSpreadFrom {e : TypeExpr} {text : String} (he : e.HasPlainName)
    (h : Text.IsSpreadFrom text.toList e.text.toList) : parse text = ⟨e.name, e.text⟩ := by
  have hname : nameIn e.text.toList = e.name.toList := by
    rw [e.toList_text, ← e.count_closings]
    apply nameIn_between e.isMark_of_mem_closings
    intro c hc
    exact (TypeExpr.isPlain_of_mem_name he (List.mem_of_getLast? hc)).2
  simp [parse, h.withoutBlanks_eq, TypeExpr.withoutBlanks_text he, hname]

theorem parse_rendered (text : String) : parse (parse text).rendered = parse text := by
  simp [parse, Text.withoutBlanks_idem]

/-! ## Bytes -/

theorem beforeMarks_append_marks (cs : List Char) : beforeMarks cs ++ (marks cs).reverse = cs := by
  unfold beforeMarks marks
  rw [← List.reverse_append, List.takeWhile_append_dropWhile, List.reverse_reverse]

/-- Every mark takes one byte. -/
theorem byteLength_marks {cs : List Char} (h : ∀ c ∈ cs, isMark c = true) :
    Text.byteLength cs = cs.length := by
  induction cs with
  | nil => rfl
  | cons c cs ih =>
    have hsize : c.utf8Size = 1 := by
      have hmark := h c List.mem_cons_self
      simp only [isMark, Bool.or_eq_true, beq_iff_eq] at hmark
      rcases hmark with rfl | rfl <;> rfl
    have hrest := ih fun d hd => h d (List.mem_cons_of_mem c hd)
    simp only [Text.byteLength, total_eq_sum, List.map_cons, List.sum_cons, List.length_cons] at hrest ⊢
    omega

/-- With enough bytes to be taken, a span is narrowed by all marks and no further. -/
theorem Span.narrowed?_eq (cs : List Char) (start stop : Nat) :
    narrowed? cs ⟨start, stop + (cs.takeWhile isMark).length⟩ =
      some ⟨start + (cs.takeWhile isMark).count ']', stop⟩ := by
  induction cs generalizing start with
  | nil => rfl
  | cons c cs ih =>
    unfold narrowed?
    by_cases hmark : isMark c = true
    · simp only [List.takeWhile_cons_of_pos hmark, List.length_cons, if_pos hmark]
      rw [if_neg (by omega), ← Nat.add_assoc, Nat.add_sub_cancel, ih]
      by_cases hclose : c = ']'
      · simp [hclose, Nat.add_assoc, Nat.add_comm 1]
      · simp [hclose]
    · simp [hmark]

/-- Reading by positions in the bytes of a text always comes to what `parse` does. -/
theorem scan?_eq (text : String) : scan? text = some (parse text) := by
  unfold scan? parse
  generalize Text.withoutBlanks text.toList = cs
  have hmarks : ∀ c ∈ (marks cs).reverse, isMark c = true := by
    intro c hc
    exact List.mem_takeWhile_imp (List.mem_reverse.1 hc)
  have hlength : Text.byteLength cs =
      Text.byteLength (beforeMarks cs) + (marks cs).length := by
    nth_rewrite 1 [← beforeMarks_append_marks cs]
    rw [Text.byteLength_append, byteLength_marks hmarks, List.length_reverse]
  have hspan : Span.narrowed? cs.reverse ⟨0, Text.byteLength cs⟩ =
      some ⟨(marks cs).count ']', Text.byteLength (beforeMarks cs)⟩ := by
    rw [hlength, marks, Span.narrowed?_eq, Nat.zero_add]
  have hslice : Text.slice? ((marks cs).count ']') (Text.byteLength (beforeMarks cs)) cs =
      Text.dropBytes? ((marks cs).count ']') (beforeMarks cs) := by
    have hfront := Text.takeBytes?_byteLength (beforeMarks cs) (marks cs).reverse
    rw [beforeMarks_append_marks] at hfront
    rw [Text.slice?, hfront, Option.bind_some]
  simp only [hspan, Option.map_some, hslice]
  rfl

end TypeRef

/-- A type expression is read for its name and for its text without white space, wherever white
space is put into it. Reading fails for no text, and what is read is written so that the same is
read again. -/
theorem type_expressions_are_read_wherever_blanks_stand :
    (∀ (e : TypeExpr) (text : String), e.HasPlainName →
      Text.IsSpreadFrom text.toList e.text.toList → TypeRef.parse text = ⟨e.name, e.text⟩) ∧
    ∀ text, TypeRef.scan? text = some (TypeRef.parse text) ∧
      TypeRef.parse (TypeRef.parse text).rendered = TypeRef.parse text := by
  constructor
  · intro e text he htext
    exact TypeRef.parse_of_isSpreadFrom he htext
  · intro text
    exact ⟨TypeRef.scan?_eq text, TypeRef.parse_rendered text⟩

/-- A name of three bytes a character, in two lists with marks on the outer list and the name, and
a wide blank in front of each mark. -/
theorem type_expressions_are_read_wherever_blanks_stand_of_a_wide_name :
    let e := TypeExpr.nonNull (.list (.list (.nonNull (.named "名前"))))
    let text := "[ [\t名\u3000前\u2003! ]\u0085 ]\u00A0!"
    e.HasPlainName ∧ Text.IsSpreadFrom text.toList e.text.toList ∧
      TypeRef.parse text = ⟨"名前", "[[名前!]]!"⟩ := by
  intro e text
  have hname : e.HasPlainName := by decide
  have htext : Text.IsSpreadFrom text.toList e.text.toList := by
    have hsame : e.text.toList = Text.withoutBlanks text.toList := by decide
    rw [hsame]
    exact Text.isSpreadFrom_withoutBlanks text.toList
  exact ⟨hname, htext, type_expressions_are_read_wherever_blanks_stand.1 e text hname htext⟩

end SchemaDelta

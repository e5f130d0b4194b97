import SchemaDelta.Graph.Drawing.Reader
import SchemaDelta.Proofs.Graph.Indices
import SchemaDelta.Proofs.Graph.Paths

/-!
Drawings are read back, but for texts that end in a backslash. Before the quote that is written for
a quote a backslash of the text does no harm, because the one that is written with the quote comes
between them; only before the quote that ends the text it is taken for a part of it.
-/

namespace SchemaDelta

namespace Drawing

/-! ## Quoted texts -/

/-- Whether the last character of a text is a backslash. -/
def EndsInBackslash (text : String) : Prop :=
  text.toList.getLast? = some '\\'

instance : DecidablePred EndsInBackslash :=
  fun text => inferInstanceAs (Decidable (text.toList.getLast? = some '\\'))

theorem escape_cons (c : Char) (cs : List Char) :
    (escape (String.ofList (c :: cs))).toList =
      (if c = '"' then ['\\', '"'] else [c]) ++ (escape (String.ofList cs)).toList := by
  simp [escape]

/-- An escaped text does not begin with a quote. -/
theorem head?_escape_ne (cs : List Char) : (escape (String.ofList cs)).toList.head? ≠ some '"' := by
  cases cs with
  | nil => simp [escape]
  | cons c cs =>
    rw [escape_cons]
    by_cases hquote : c = '"' <;> simp [hquote]

theorem readQuoted?_of_ne {c : Char} (cs : List Char) (hquote : c ≠ '"')
    (hescape : c = '\\' → cs.head? ≠ some '"') :
    readQuoted? (c :: cs) = (readQuoted? cs).map fun (text, rest) => (c :: text, rest) := by
  rw [readQuoted?]
  · rintro cs' rfl rfl
    exact hescape rfl rfl
  · exact hquote

/-- An escaped text is read as it was, unless it ends in a backslash and a quote follows. -/
theorem readQuoted?_escape_append (cs rest : List Char)
    (h : cs.getLast? = some '\\' → rest.head? ≠ some '"') :
    readQuoted? ((escape (String.ofList cs)).toList ++ rest) =
      (readQuoted? rest).map fun (text, rest) => (cs ++ text, rest) := by
  induction cs with
  | nil => simp [escape]
  | cons c cs ih =>
    have hrest : cs.getLast? = some '\\' → rest.head? ≠ some '"' := by
      intro hlast
      apply h
      rw [List.getLast?_cons, hlast]
      rfl
    rw [escape_cons]
    by_cases hquote : c = '"'
    · simp only [hquote, if_true, List.cons_append, List.nil_append, readQuoted?, ih hrest,
        Option.map_map]
      rfl
    · have hnext : c = '\\' → ((escape (String.ofList cs)).toList ++ rest).head? ≠ some '"' := by
        intro hbackslash
        rw [List.head?_append]
        cases cs with
        | nil =>
          rw [hbackslash] at h
          simpa [escape] using h rfl
        | cons d ds =>
          have hhead := head?_escape_ne (d :: ds)
          rw [escape_cons] at hhead ⊢
          by_cases hd : d = '"' <;> simp_all
      simp only [hquote, if_false, List.cons_append, List.nil_append]
      rw [readQuoted?_of_ne _ hquote hnext, ih hrest, Option.map_map]
      rfl

theorem readQuoted?_escape {text : String} (h : ¬ EndsInBackslash text) (rest : List Char) :
    readQuoted? ((escape text).toList ++ '"' :: rest) = some (text.toList, rest) := by
  have hread := readQuoted?_escape_append text.toList ('"' :: rest) fun hlast => absurd hlast h
  rw [String.ofList_toList] at hread
  rw [hread]
  simp [readQuoted?]

/-- A text that ends in a backslash is read with a quote in its place, and whatever follows. -/
theorem ne_of_readQuoted?_escape {text : String} (h : EndsInBackslash text) {rest : List Char}
    {found : List Char × List Char}
    (hread : readQuoted? ((escape text).toList ++ '"' :: rest) = some found) :
    found.1 ≠ text.toList := by
  obtain ⟨front, hfront⟩ : ∃ front, text.toList = front ++ ['\\'] :=
    List.getLast?_eq_some_iff.1 h
  have hescape : (escape text).toList ++ '"' :: rest =
      (escape (String.ofList front)).toList ++ '\\' :: '"' :: rest := by
    simp [escape, hfront]
  rw [hescape, readQuoted?_escape_append _ _ (by simp), readQuoted?] at hread
  obtain ⟨_, hinner, rfl⟩ := Option.map_eq_some_iff.1 hread
  obtain ⟨_, -, rfl⟩ := Option.map_eq_some_iff.1 hinner
  simp [hfront]

/-! ## Statements -/

theorem readOver?_append (expected : String) (rest : List Char) :
    readOver? expected (expected.toList ++ rest) = some rest := by
  unfold readOver?
  rw [if_pos (by simp), List.drop_left]

theorem readNumber?_append (n : Nat) {rest : List Char}
    (hrest : ∀ c ∈ rest.head?, c.isDigit = false) :
    readNumber? ((toString n).toList ++ rest) = some (n, rest) := by
  have hdigits : ∀ c ∈ Nat.toDigits 10 n, c.isDigit = true :=
    fun c hc => Nat.isDigit_of_mem_toDigits (by decide) (by decide) hc
  unfold readNumber?
  rw [toList_toString, takeWhile_append_eq hdigits hrest, dropWhile_append_eq hdigits hrest]
  simp [Nat.toDigits_ne_nil, Nat.ofDigitChars_toDigits]

namespace Statement

/-- The text on what a statement is about. -/
def text : Statement → String
  | vertex _ caption => caption
  | edge _ _ label => label

/-- A statement with another text. -/
def withText : Statement → String → Statement
  | vertex id _, text => vertex id text
  | edge one two _, text => edge one two text

/-- The numbers of what a statement is about, as they are written. -/
def numbers : Statement → String
  | vertex id _ => toString id
  | edge one two _ => toString one ++ " -> " ++ toString two

/-- The line of a statement, with attributes behind the label. -/
def line (statement : Statement) (attributes : String) : String :=
  "    " ++ statement.numbers ++ " [ label = \"" ++ escape statement.text ++ "\"" ++ attributes ++
    "]\n"

theorem withText_text (statement : Statement) : statement.withText statement.text = statement := by
  cases statement <;> rfl

theorem text_withText (statement : Statement) (text : String) :
    (statement.withText text).text = text := by
  cases statement <;> rfl

end Statement

/-- What comes after a quoted text in its line, and in the lines below. -/
def afterQuoted (attributes : String) (rest : List Char) : List Char :=
  attributes.toList ++ "]\n".toList ++ rest

theorem nextLine_afterQuoted {attributes : String} (h : '\n' ∉ attributes.toList)
    (rest : List Char) : nextLine (afterQuoted attributes rest) = rest := by
  unfold nextLine afterQuoted
  rw [List.append_assoc, List.dropWhile_append_of_pos]
  · rfl
  · intro c hc
    rw [bne_iff_ne]
    rintro rfl
    exact h hc

theorem readLabel?_append (cs : List Char) :
    readLabel? (" [ label = \"".toList ++ cs) =
      (readQuoted? cs).map fun (label, rest) => (String.ofList label, nextLine rest) := by
  unfold readLabel?
  rw [readOver?_append, Option.bind_eq_bind, Option.bind_some]
  cases readQuoted? cs <;> rfl

/-- All of a statement is read but its text, which is read as it can be. -/
theorem readStatement?_line (statement : Statement) (attributes : String) (rest : List Char) :
    readStatement? ((statement.line attributes).toList ++ rest) =
      (readQuoted? ((escape statement.text).toList ++ '"' :: afterQuoted attributes rest)).map
        fun (text, rest) => (statement.withText (String.ofList text), nextLine rest) := by
  generalize hquoted : (escape statement.text).toList ++ '"' :: afterQuoted attributes rest = quoted
  have hline : (statement.line attributes).toList ++ rest =
      "    ".toList ++ (statement.numbers.toList ++ (" [ label = \"".toList ++ quoted)) := by
    rw [← hquoted]
    simp [Statement.line, afterQuoted]
  unfold readStatement?
  rw [hline, readOver?_append]
  cases statement with
  | vertex id caption =>
    have hnumber : readNumber? ((toString id).toList ++ (" [ label = \"".toList ++ quoted)) =
        some (id, " [ label = \"".toList ++ quoted) := readNumber?_append id (by simp)
    have hnone : readOver? " -> " (" [ label = \"".toList ++ quoted) = none := by
      simp [readOver?]
    simp only [Statement.numbers, Option.bind_eq_bind, Option.bind_some, hnumber, hnone,
      readLabel?_append]
    cases readQuoted? quoted <;> rfl
  | edge one two label =>
    have hone : readNumber? ((toString one).toList ++
          (" -> ".toList ++ ((toString two).toList ++ (" [ label = \"".toList ++ quoted)))) =
        some (one, " -> ".toList ++ ((toString two).toList ++ (" [ label = \"".toList ++ quoted))) :=
      readNumber?_append one (by simp)
    have htwo : readNumber? ((toString two).toList ++ (" [ label = \"".toList ++ quoted)) =
        some (two, " [ label = \"".toList ++ quoted) := readNumber?_append two (by simp)
    simp only [Statement.numbers, String.toList_append, List.append_assoc, Option.bind_eq_bind,
      Option.bind_some, hone, htwo, readOver?_append, readLabel?_append]
    cases readQuoted? quoted <;> rfl

theorem readStatement?_of_not_endsInBackslash {statement : Statement} {attributes : String}
    (htext : ¬ EndsInBackslash statement.text) (hline : '\n' ∉ attributes.toList)
    (rest : List Char) :
    readStatement? ((statement.line attributes).toList ++ rest) = some (statement, rest) := by
  rw [readStatement?_line, readQuoted?_escape htext]
  simp [Statement.withText_text, nextLine_afterQuoted hline]

theorem ne_of_readStatement?_of_endsInBackslash {statement : Statement} {attributes : String}
    (htext : EndsInBackslash statement.text) {rest : List Char} {found : Statement × List Char}
    (hread : readStatement? ((statement.line attributes).toList ++ rest) = some found) :
    found.1 ≠ statement := by
  rw [readStatement?_line] at hread
  obtain ⟨quoted, hquoted, rfl⟩ := Option.map_eq_some_iff.1 hread
  intro hsame
  apply ne_of_readQuoted?_escape htext hquoted
  rw [← hsame, Statement.text_withText, String.toList_ofList]

/-! ## Drawings -/

/-- The lines of statements with their attributes, up to the closing brace. -/
def linesOf (lines : List (Statement × String)) : List Char :=
  lines.flatMap (fun (statement, attributes) => (statement.line attributes).toList) ++ "\x7d\n".toList

/-- Every line has more than one character. -/
theorem length_lt_length_linesOf (lines : List (Statement × String)) :
    lines.length < (linesOf lines).length := by
  induction lines with
  | nil => decide
  | cons line lines ih =>
    simp only [linesOf, List.flatMap_cons, List.append_assoc, List.length_append, List.length_cons]
      at ih ⊢
    have hline : 0 < (line.1.line line.2).toList.length := by
      simp [Statement.line]
    omega

/-- Statements are read up to the first whose text ends in a backslash, and no further. -/
theorem readStatements?_linesOf {lines : List (Statement × String)} {most : Nat}
    (hlines : ∀ line ∈ lines, '\n' ∉ line.2.toList) (hmost : lines.length < most) :
    readStatements? most (linesOf lines) = some (lines.map Prod.fst) ↔
      ∀ line ∈ lines, ¬ EndsInBackslash line.1.text := by
  induction lines generalizing most with
  | nil =>
    obtain ⟨most, rfl⟩ := Nat.exists_eq_add_of_lt hmost
    simp [linesOf, readStatements?]
  | cons line lines ih =>
    obtain ⟨statement, attributes⟩ := line
    obtain ⟨most, rfl⟩ : ∃ fewer, most = fewer + 1 := ⟨most - 1, by omega⟩
    have hsplit : linesOf ((statement, attributes) :: lines) =
        (statement.line attributes).toList ++ linesOf lines := by
      simp [linesOf]
    have hopen : linesOf ((statement, attributes) :: lines) ≠ "\x7d\n".toList := by
      simp [hsplit, Statement.line]
    have hattributes : '\n' ∉ attributes.toList := hlines _ List.mem_cons_self
    have hrest := ih (fun line hline => hlines line (List.mem_cons_of_mem _ hline))
      (Nat.lt_of_succ_lt_succ hmost)
    rw [readStatements?, if_neg hopen, hsplit, List.forall_mem_cons, ← hrest]
    by_cases htext : EndsInBackslash statement.text
    · refine iff_of_false (fun hread => ?_) fun h => h.1 htext
      obtain ⟨found, hfound, hothers⟩ := Option.bind_eq_some_iff.1 hread
      obtain ⟨others, -, hsame⟩ := Option.bind_eq_some_iff.1 hothers
      exact ne_of_readStatement?_of_endsInBackslash htext hfound
        (List.cons.inj (Option.some.inj hsame)).1
    · rw [readStatement?_of_not_endsInBackslash htext hattributes]
      simp [htext, Option.bind_eq_some_iff]

/-- The lines of a graph: a statement for each vertex and each edge, and how a vertex looks. -/
def linesOfGraph (g : Graph) : List (Statement × String) :=
  (g.vertices.zipIdx.map fun (v, id) => (.vertex id (caption v), "," ++ style v)) ++
    g.edges.map fun e => (.edge e.one e.two e.label, "")

theorem toList_drawing (g : Graph) :
    g.drawing.toList = "digraph \x7b\n".toList ++ linesOf (linesOfGraph g) := by
  have hvertex : vertexLine = fun (entry : Vertex × Nat) =>
      (Statement.vertex entry.2 (caption entry.1)).line ("," ++ style entry.1) := by
    funext entry
    rw [← String.toList_inj]
    simp [vertexLine, Statement.line, Statement.numbers, Statement.text]
  have hedge : edgeLine = fun (e : Edge) => (Statement.edge e.one e.two e.label).line "" := by
    funext e
    rw [← String.toList_inj]
    simp [edgeLine, Statement.line, Statement.numbers, Statement.text]
  unfold Graph.drawing linesOf linesOfGraph
  rw [hvertex, hedge]
  simp [List.flatMap_map, String.toList_join]

theorem newline_not_mem_style (v : Vertex) : '\n' ∉ (style v).toList := by
  unfold style
  split <;> try split
  all_goals simp

/-- A caption ends as the path of the vertex does. -/
theorem endsInBackslash_caption (v : Vertex) :
    EndsInBackslash (caption v) ↔ EndsInBackslash v.path := by
  unfold EndsInBackslash caption
  rw [String.toList_append, List.getLast?_append]
  cases v.path.toList.getLast? with
  | none => simp
  | some c => simp

end Drawing

/-- The drawing of a graph is read back as what it says of each vertex and each edge, in order, if
and only if no path and no label ends in a backslash. -/
theorem drawings_are_read_back_unless_a_text_ends_in_a_backslash (g : Graph) :
    Drawing.read? g.drawing = some g.statements ↔
      (∀ v ∈ g.vertices, ¬ Drawing.EndsInBackslash v.path) ∧
        ∀ e ∈ g.edges, ¬ Drawing.EndsInBackslash e.label := by
  have hstatements : g.statements = (Drawing.linesOfGraph g).map Prod.fst := by
    simp [Graph.statements, Drawing.linesOfGraph, Function.comp_def]
  have hattributes : ∀ line ∈ Drawing.linesOfGraph g, '\n' ∉ line.2.toList := by
    intro line hline
    rcases List.mem_append.1 hline with hline | hline
    · obtain ⟨entry, -, rfl⟩ := List.mem_map.1 hline
      simp [Drawing.newline_not_mem_style]
    · obtain ⟨e, -, rfl⟩ := List.mem_map.1 hline
      simp
  have hmost : (Drawing.linesOfGraph g).length < (Drawing.linesOf (Drawing.linesOfGraph g)).length :=
    Drawing.length_lt_length_linesOf _
  have htexts : (∀ line ∈ Drawing.linesOfGraph g, ¬ Drawing.EndsInBackslash line.1.text) ↔
      (∀ v ∈ g.vertices, ¬ Drawing.EndsInBackslash v.path) ∧
        ∀ e ∈ g.edges, ¬ Drawing.EndsInBackslash e.label := by
    unfold Drawing.linesOfGraph
    rw [List.forall_mem_append, List.forall_mem_map, List.forall_mem_map]
    refine and_congr ?_ Iff.rfl
    simp only [Drawing.Statement.text, Drawing.endsInBackslash_caption]
    constructor
    · intro h v hv
      rw [← List.zipIdx_map_fst 0 g.vertices] at hv
      obtain ⟨entry, hentry, rfl⟩ := List.mem_map.1 hv
      exact h entry hentry
    · intro h entry hentry
      exact h entry.1 (List.fst_mem_of_mem_zipIdx hentry)
  rw [← htexts, ← Drawing.readStatements?_linesOf hattributes hmost, hstatements, Drawing.read?,
    Drawing.toList_drawing, Drawing.readOver?_append]
  rfl

/-- In a path that ends in a backslash the quote that ends its text is read as a part of it, and no
other quote follows that could end it. -/
theorem a_path_that_ends_in_a_backslash_is_not_read_back :
    let calls : List Draft.Call := [.vertex ⟨.field, "a", "a\\", .empty⟩]
    ∃ g, (Draft.assembled calls).toGraph = .ok g ∧
      g.drawing = "digraph \x7b\n    0 [ label = \"FIELD a\\\",shape=ellipse]\n\x7d\n" ∧
      g.statements = [.vertex 0 "FIELD a\\"] ∧ Drawing.read? g.drawing = none := by
  intro calls
  obtain ⟨g, hg⟩ := Draft.exists_toGraph_iff.2
    (show (Draft.assembled calls).places.Nodup ∧ (Draft.assembled calls).owned.Nodup by decide)
  have hdraft := Draft.toGraph_eq_ok_iff.1 hg
  refine ⟨g, hg, ?_, ?_, ?_⟩
  · rw [Graph.drawing, hdraft]
    decide
  · rw [Graph.statements, hdraft]
    decide
  · rw [Graph.drawing, hdraft]
    decide

end SchemaDelta

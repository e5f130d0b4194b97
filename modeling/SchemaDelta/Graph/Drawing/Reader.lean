import SchemaDelta.Graph.Drawing

/-!
Drawings are read back statement by statement, one for each vertex and each edge. In a quoted text a
backslash before a quote stands for that quote, any other quote ends the text, and all else stands
for itself, line ends too.
-/

namespace SchemaDelta.Drawing

/-- What a drawing says of one vertex or edge. -/
inductive Statement where
  | vertex (id : Nat) (caption : String)
  | edge (one two : Nat) (label : String)
  deriving DecidableEq, Repr, Inhabited

/-! ## Parts of a statement -/

/-- Reads over a text that must be there. -/
def readOver? (expected : String) (cs : List Char) : Option (List Char) :=
  if expected.toList.isPrefixOf cs then some (cs.drop expected.toList.length) else none

/-- Reads a number, which has at least one digit. -/
def readNumber? (cs : List Char) : Option (Nat × List Char) :=
  let digits := cs.takeWhile Char.isDigit
  if digits.isEmpty then none
  else some (Nat.ofDigitChars 10 digits 0, cs.dropWhile Char.isDigit)

/-- Reads a text up to the quote that ends it, and over that quote. -/
def readQuoted? : List Char → Option (List Char × List Char)
  | [] => none
  | '\\' :: '"' :: cs => (readQuoted? cs).map fun (text, rest) => ('"' :: text, rest)
  | '"' :: cs => some ([], cs)
  | c :: cs => (readQuoted? cs).map fun (text, rest) => (c :: text, rest)

/-- What comes after the end of a line. -/
def nextLine (cs : List Char) : List Char :=
  (cs.dropWhile fun c => c != '\n').tail

/-- Reads a label, and over all that is behind it in its line. -/
def readLabel? (cs : List Char) : Option (String × List Char) := do
  let cs ← readOver? " [ label = \"" cs
  let (label, cs) ← readQuoted? cs
  some (String.ofList label, nextLine cs)

/-! ## Statements -/

/-- Reads a statement, which is one of an edge if it has an arrow in it. -/
def readStatement? (cs : List Char) : Option (Statement × List Char) := do
  let cs ← readOver? "    " cs
  let (one, cs) ← readNumber? cs
  match readOver? " -> " cs with
  | none =>
    let (caption, cs) ← readLabel? cs
    some (.vertex one caption, cs)
  | some cs =>
    let (two, cs) ← readNumber? cs
    let (label, cs) ← readLabel? cs
    some (.edge one two label, cs)

/-- Reads so many statements at most, up to the closing brace. -/
def readStatements? : Nat → List Char → Option (List Statement)
  | 0, _ => none
  | most + 1, cs =>
    if cs = "\x7d\n".toList then some []
    else do
      let (statement, cs) ← readStatement? cs
      let statements ← readStatements? most cs
      some (statement :: statements)

/-- Reads a drawing. It has fewer statements than characters. -/
def read? (text : String) : Option (List Statement) := do
  let cs ← readOver? "digraph \x7b\n" text.toList
  readStatements? cs.length cs

end SchemaDelta.Drawing

namespace SchemaDelta

/-- What the drawing of a graph says: first all vertices and then all edges, in order. -/
def Graph.statements (g : Graph) : List Drawing.Statement :=
  (g.vertices.zipIdx.map fun (v, id) => .vertex id (Drawing.caption v)) ++
    g.edges.map fun e => .edge e.one e.two e.label

end SchemaDelta

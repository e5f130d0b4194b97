import SchemaDelta.Sdl.Token

/-!
Readers of tokens. A reader takes tokens from the front of a list, or fails.
-/

namespace SchemaDelta.Sdl

/-- Reads something from the front of a list of tokens. -/
abbrev Reader (α : Type) := StateT (List Token) Option α

namespace Reader

variable {α : Type}

/-- Reads one token. -/
def one (accept : Lexeme → Option α) : Reader α
  | [] => none
  | token :: rest => (accept token.lexeme).map fun a => (a, rest)

/-- Reads a character of punctuation. -/
def mark (c : Char) : Reader Unit :=
  one fun lexeme => if lexeme = .mark c then some () else none

/-- Reads a name. -/
def name : Reader String :=
  one fun
    | .name text => some text
    | _ => none

/-- Reads a name that is one of several. -/
def nameAmong (names : List String) : Reader String :=
  one fun
    | .name text => if text ∈ names then some text else none
    | _ => none

/-- Reads a certain word. -/
def word (text : String) : Reader Unit :=
  one fun lexeme => if lexeme = .name text then some () else none

/-- Reads a quoted text. -/
def text : Reader String :=
  one fun
    | .text content => some content
    | _ => none

/-- Whether something is there to be read. -/
def present (r : Reader Unit) : Reader Bool := do
  return (← optional r).isSome

/-- Reads something again and again, at most `limit` times. -/
def manyWithin (r : Reader α) : Nat → Reader (List α)
  | 0 => pure []
  | limit + 1 => do
    match ← optional r with
    | none => return []
    | some a => return a :: (← manyWithin r limit)

/-- Reads something as often as it is there. Whatever takes a token at least cannot be there more
often than there are tokens. -/
def many (r : Reader α) : Reader (List α) := fun tokens =>
  manyWithin r tokens.length tokens

/-- Reads something as often as it is there, which is at least once. -/
def many1 (r : Reader α) : Reader (List α) := do
  return (← r) :: (← r.many)

/-- Reads things with a mark between them, and perhaps one in front. -/
def separatedBy (c : Char) (r : Reader α) : Reader (List α) := do
  discard (optional (mark c))
  return (← r) :: (← many do mark c; r)

/-- Reads something between two marks. -/
def between (opening closing : Char) (r : Reader α) : Reader α := do
  mark opening
  let a ← r
  mark closing
  return a

/-- Reads several things between two marks, if the first mark is there. -/
def optionalGroup (opening closing : Char) (r : Reader (List α)) : Reader (List α) := do
  return (← optional (between opening closing r)).getD []

/-- Reads something and gives the text of the document that it stands in. -/
def source (r : Reader Unit) : Reader String := fun tokens => do
  let ((), rest) ← r tokens
  let read := tokens.take (tokens.length - rest.length)
  let first ← read.head?
  let last ← read.getLast?
  some (sourceText first last, rest)

end Reader

end SchemaDelta.Sdl

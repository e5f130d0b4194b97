import SchemaDelta.Sdl.Quoted

/-!
The tokens of schema documents. Between tokens stand white space, commas and comments, which mean
nothing.
-/

namespace SchemaDelta.Sdl

/-- What a token is. -/
inductive Lexeme where
  /-- A single character of punctuation. -/
  | mark (c : Char)
  | name (text : String)
  | number
  /-- A quoted text, as it is meant. -/
  | text (content : String)
  deriving DecidableEq, Repr, Inhabited

/-- A token, with the document from its first character on and from the character after it. -/
structure Token where
  lexeme : Lexeme
  source : List Char
  rest : List Char
  deriving Repr, Inhabited

/-- The text of a document from one token to another, both included. -/
def sourceText (first last : Token) : String :=
  String.ofList (first.source.take (first.source.length - last.rest.length))

/-! ## Characters -/

/-- The punctuation of schema documents. -/
def isMark (c : Char) : Bool :=
  "!&():=@[]|\x7b\x7d".toList.contains c

/-- Whether a character means nothing between tokens. -/
def isIgnored (c : Char) : Bool :=
  " \t\r\n\x0c,\ufeff".toList.contains c

/-- Whether a character ends a line, and a comment with it. -/
def isLineEnd (c : Char) : Bool :=
  c == '\n' || c == '\r'

/-- Whether a character can begin a name. -/
def isNameStart (c : Char) : Bool :=
  c.isAlpha || c == '_'

/-- Whether a character can go on with a name. -/
def isNamePart (c : Char) : Bool :=
  isNameStart c || c.isDigit

/-! ## Numbers -/

/-- What comes after one or more digits. -/
def afterDigits? : List Char → Option (List Char)
  | c :: rest => if c.isDigit then some (rest.dropWhile Char.isDigit) else none
  | [] => none

/-- What comes after the digits of an integer. -/
def afterInteger? : List Char → Option (List Char)
  | '0' :: rest => some rest
  | cs => afterDigits? cs

/-- What comes after a fraction, if there is one. -/
def afterFraction? : List Char → Option (List Char)
  | '.' :: rest => afterDigits? rest
  | cs => some cs

/-- A text without a sign. -/
def afterSign : List Char → List Char
  | '+' :: rest => rest
  | '-' :: rest => rest
  | cs => cs

/-- What comes after an exponent, if there is one. -/
def afterExponent? : List Char → Option (List Char)
  | 'e' :: rest => afterDigits? (afterSign rest)
  | 'E' :: rest => afterDigits? (afterSign rest)
  | cs => some cs

/-- Whether what comes after a number may come there. -/
def endsNumber : List Char → Bool
  | [] => true
  | c :: _ => !(isNamePart c || c == '.')

/-- What comes after a number. -/
def afterNumber? (cs : List Char) : Option (List Char) := do
  let unsigned := match cs with
    | '-' :: rest => rest
    | cs => cs
  let rest ← afterInteger? unsigned
  let rest ← afterFraction? rest
  let rest ← afterExponent? rest
  if endsNumber rest then some rest else none

/-! ## Tokens -/

/-- Reads one token: what it is, and what comes after it. -/
def readLexeme? : List Char → Option (Lexeme × List Char)
  | [] => none
  | '"' :: '"' :: '"' :: rest => do
    let (raw, rest) ← readBlock? rest
    some (.text (String.ofList (blockText raw)), rest)
  | '"' :: rest => do
    let (content, rest) ← readLine? rest
    some (.text (String.ofList content), rest)
  | c :: rest =>
    if isMark c then some (.mark c, rest)
    else if isNameStart c then
      some (.name (String.ofList (c :: rest.takeWhile isNamePart)), rest.dropWhile isNamePart)
    else do
      let rest ← afterNumber? (c :: rest)
      some (.number, rest)

/-- The tokens of a text, if there are fewer of them and of what stands between them than
`limit`. -/
def tokensWithin? : Nat → List Char → Option (List Token)
  | 0, _ => none
  | _ + 1, [] => some []
  | limit + 1, c :: rest =>
    if isIgnored c then tokensWithin? limit rest
    else if c == '#' then tokensWithin? limit (rest.dropWhile fun c => !isLineEnd c)
    else do
      let (lexeme, after) ← readLexeme? (c :: rest)
      let tokens ← tokensWithin? limit after
      some (⟨lexeme, c :: rest, after⟩ :: tokens)

/-- The tokens of a document. -/
def tokens? (document : String) : Option (List Token) :=
  let cs := document.toList
  tokensWithin? (cs.length + 1) cs

end SchemaDelta.Sdl

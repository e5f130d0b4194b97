import SchemaDelta.Text.Blank
import SchemaDelta.Text.Bytes

/-!
Quoted texts of schema documents. Between single quotes stands one line with escapes. Between
triple quotes stands a block of lines, whose common indentation does not belong to the text.
-/

namespace SchemaDelta.Sdl

/-! ## Lines -/

/-- Whether a character may stand in a quoted line. -/
def isLineChar (c : Char) : Bool :=
  c == '\t' || (0x20 ≤ c.toNat && c.toNat ≤ 0xFFFF)

/-- What a letter stands for after a backslash. -/
def escaped? : Char → Option Char
  | '"' => some '"'
  | '\\' => some '\\'
  | '/' => some '/'
  | 'b' => some '\x10'
  | 'f' => some '\x0c'
  | 'n' => some '\n'
  | 'r' => some '\r'
  | 't' => some '\t'
  | _ => none

/-- The value of a hexadecimal digit. -/
def hexValue? (c : Char) : Option Nat :=
  if '0' ≤ c ∧ c ≤ '9' then some (c.toNat - '0'.toNat)
  else if 'a' ≤ c ∧ c ≤ 'f' then some (c.toNat - 'a'.toNat + 10)
  else if 'A' ≤ c ∧ c ≤ 'F' then some (c.toNat - 'A'.toNat + 10)
  else none

/-- The character of a number; half of a surrogate pair is none. -/
def char? (n : Nat) : Option Char :=
  if n.isValidChar then some (Char.ofNat n) else none

/-- The character that four hexadecimal digits stand for. -/
def codePoint? (a b c d : Char) : Option Char := do
  let a ← hexValue? a
  let b ← hexValue? b
  let c ← hexValue? c
  let d ← hexValue? d
  char? (((a * 16 + b) * 16 + c) * 16 + d)

/-- Reads a line up to the closing quote: the text it stands for, and what comes after. -/
def readLine? : List Char → Option (List Char × List Char)
  | [] => none
  | '"' :: rest => some ([], rest)
  | '\\' :: 'u' :: a :: b :: c :: d :: rest => do
    let first ← codePoint? a b c d
    let (text, rest) ← readLine? rest
    some (first :: text, rest)
  | '\\' :: letter :: rest => do
    let first ← escaped? letter
    let (text, rest) ← readLine? rest
    some (first :: text, rest)
  | c :: rest =>
    if isLineChar c then do
      let (text, rest) ← readLine? rest
      some (c :: text, rest)
    else none

/-! ## Blocks -/

/-- Whether a character may stand in a block. -/
def isBlockChar (c : Char) : Bool :=
  c == '\n' || c == '\r' || isLineChar c

/-- Reads a block up to the closing quotes: what stands before them as it is, and what comes after
them. Quotes after a backslash do not close a block. -/
def readBlock? : List Char → Option (List Char × List Char)
  | [] => none
  | '"' :: '"' :: '"' :: rest => some ([], rest)
  | '\\' :: '"' :: '"' :: '"' :: rest => do
    let (text, rest) ← readBlock? rest
    some ('\\' :: '"' :: '"' :: '"' :: text, rest)
  | c :: rest =>
    if isBlockChar c then do
      let (text, rest) ← readBlock? rest
      some (c :: text, rest)
    else none

/-- The lines of a block. A carriage return in front of a line feed belongs to neither line. -/
def blockLines : List Char → List (List Char)
  | [] => [[]]
  | '\r' :: '\n' :: rest => [] :: blockLines rest
  | '\n' :: rest => [] :: blockLines rest
  | c :: rest =>
    match blockLines rest with
    | [] => [[c]]
    | line :: lines => (c :: line) :: lines

/-- Whether there is nothing but white space on a line. -/
def isBlankLine (line : List Char) : Bool :=
  line.all Text.isBlank

/-- How many bytes of white space a line begins with. -/
def indentation (line : List Char) : Nat :=
  Text.byteLength (line.takeWhile Text.isBlank)

/-- A line without its first `n` bytes. -/
def withoutIndentation (n : Nat) (line : List Char) : List Char :=
  (Text.dropBytes? n line).getD []

/-- Lines without the indentation that those after the first have in common. -/
def dedented : List (List Char) → List (List Char)
  | [] => []
  | first :: lines =>
    let common := ((lines.filter fun line => !isBlankLine line).map indentation).min?.getD 0
    first :: lines.map (withoutIndentation common)

/-- Lines without the blank ones at both ends. -/
def trimmed (lines : List (List Char)) : List (List Char) :=
  ((lines.dropWhile isBlankLine).reverse.dropWhile isBlankLine).reverse

/-- A text with triple quotes instead of those that stand after a backslash. -/
def unescapedQuotes : List Char → List Char
  | [] => []
  | '\\' :: '"' :: '"' :: '"' :: rest => '"' :: '"' :: '"' :: unescapedQuotes rest
  | c :: rest => c :: unescapedQuotes rest

/-- The text that a block stands for. -/
def blockText (raw : List Char) : List Char :=
  unescapedQuotes (List.intercalate ['\n'] (trimmed (dedented (blockLines raw))))

end SchemaDelta.Sdl

import OnePass.Text.Uppercase
import OnePass.Token

namespace OnePass

/-- A named text and the number of its first line. -/
structure Source where
  text : List Char
  name : String := "<input>"
  firstLine : Int := 1

/-- The line with the given number, or nothing where the text has no such line.
Lines are divided at every line end of a text, also at those that are no line
feeds. -/
def Source.line (s : Source) (number : Int) : String :=
  if number < s.firstLine then ""
  else String.ofList ((Text.lines s.text).getD (number - s.firstLine).toNat [])

structure Cursor where
  rest : List Char
  position : Position

def Source.start (s : Source) : Cursor :=
  ⟨s.text, ⟨s.firstLine, 1⟩⟩

/-- The blanks that may stand between tokens. -/
def isSeparator (c : Char) : Bool :=
  c ∈ [' ', '\t', '\r', '\n']

def isWordStart (c : Char) : Bool :=
  'a' ≤ c && c ≤ 'z'

/-- What may follow the first letter of a word. -/
def isWordPart (c : Char) : Bool :=
  isWordStart c || c = '_'

/-- Why no token could be read. -/
inductive LexCause where
  | invalidCharacter (c : Char)
  | unknownWord (word : List Char)
deriving DecidableEq

structure LexError where
  cause : LexCause
  position : Position
deriving DecidableEq

namespace LexCause

def message : LexCause → String
  | .invalidCharacter c => s!"invalid character '{c}'"
  | .unknownWord word => s!"unknown identifier '{String.ofList word}'"

/-- Signs of operators that the language does not have. -/
def isForeignOperator (c : Char) : Bool :=
  c ∈ ['*', '/', '%', '>', '!', '&', '|']

def hint? : LexCause → Option String
  | .invalidCharacter c =>
      if Text.isUppercase c then some "variable names are lowercase"
      else if isForeignOperator c then
        some "only '+', '-' and '<' operators are supported"
      else none
  | .unknownWord _ => some "variables are the single letters a to z"

end LexCause

namespace Cursor

/-- The cursor behind the first `n` characters. -/
def drop (c : Cursor) (n : Nat) : Cursor :=
  ⟨c.rest.drop n, c.position.after (c.rest.take n)⟩

/-- The cursor behind the longest run of characters that satisfy `p`. -/
def skipWhile (c : Cursor) (p : Char → Bool) : Cursor :=
  ⟨c.rest.dropWhile p, c.position.after (c.rest.takeWhile p)⟩

/-- The token that a word is. -/
def wordToken (word : List Char) : Except LexCause Token :=
  match Token.keyword? word, word with
  | some keyword, _ => .ok keyword
  | none, [c] =>
      match Variable.ofLetter? c with
      | some v => .ok (.variable v)
      | none => .error (.unknownWord word)
  | none, _ => .error (.unknownWord word)

/-- Reads the token that starts exactly here. -/
def scan (c : Cursor) : Except LexCause Token × Cursor :=
  match c.rest with
  | [] => (.ok .endOfInput, c)
  | first :: _ =>
      if first.isDigit then
        (.ok (.number (Nat.ofDigitChars 10 (c.rest.takeWhile Char.isDigit) 0)),
          c.skipWhile Char.isDigit)
      else if isWordStart first then
        (wordToken (c.rest.takeWhile isWordPart), c.skipWhile isWordPart)
      else
        match Token.sign? first with
        | some sign => (.ok sign, c.drop 1)
        | none => (.error (.invalidCharacter first), c)

/-- Reads the next token behind blanks, and tells where to go on. -/
def next (c : Cursor) : Except LexError Lexeme × Cursor :=
  let start := c.skipWhile isSeparator
  match start.scan with
  | (.ok token, behind) => (.ok ⟨token, start.position⟩, behind)
  | (.error cause, behind) => (.error ⟨cause, start.position⟩, behind)

/-- At most `count` tokens, up to the end of the input or the first error. -/
def takeTokens : Nat → Cursor → List Lexeme × Option LexError
  | 0, _ => ([], none)
  | count + 1, c =>
      match c.next with
      | (.error e, _) => ([], some e)
      | (.ok lexeme, behind) =>
          if lexeme.token = .endOfInput then ([lexeme], none)
          else
            let (lexemes, error) := behind.takeTokens count
            (lexeme :: lexemes, error)

/-- All tokens with the end of the input as the last, or those before the first
error. Every other token takes at least one character, so the length of the text
bounds their number. -/
def tokens (c : Cursor) : List Lexeme × Option LexError :=
  c.takeTokens (c.rest.length + 1)

end Cursor

/-- The report of a text that has no next token. -/
def LexError.diagnostic (e : LexError) (s : Source) : Diagnostic where
  message := e.cause.message
  location := some ⟨s.name, e.position⟩
  sourceLine := some (s.line e.position.line)
  hint := e.cause.hint?

end OnePass

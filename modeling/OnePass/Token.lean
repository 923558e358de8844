import OnePass.Diagnostic
import OnePass.Variable

namespace OnePass

inductive Token where
  | endOfInput
  | variable (v : Variable)
  | number (n : Nat)
  | ifWord
  | elseWord
  | whileWord
  | doWord
  | leftBrace
  | rightBrace
  | leftParen
  | rightParen
  | plus
  | minus
  | less
  | semicolon
  | assign
deriving DecidableEq

namespace Token

/-- The name of the class that a token belongs to. -/
def className : Token → String
  | .endOfInput => "EOF"
  | .variable _ => "IDENTIFIER"
  | .number _ => "NUMBER"
  | .ifWord => "IF"
  | .elseWord => "ELSE"
  | .whileWord => "WHILE"
  | .doWord => "DO"
  | .leftBrace => "LBRACE"
  | .rightBrace => "RBRACE"
  | .leftParen => "LPAREN"
  | .rightParen => "RPAREN"
  | .plus => "PLUS"
  | .minus => "MINUS"
  | .less => "LESS"
  | .semicolon => "SEMICOLON"
  | .assign => "ASSIGN"

/-- The text of a token in a program; the end of the input has none. -/
def spelling : Token → List Char
  | .endOfInput => []
  | .variable v => [v.letter]
  | .number n => Nat.toDigits 10 n
  | .ifWord => ['i', 'f']
  | .elseWord => ['e', 'l', 's', 'e']
  | .whileWord => ['w', 'h', 'i', 'l', 'e']
  | .doWord => ['d', 'o']
  | .leftBrace => ['{']
  | .rightBrace => ['}']
  | .leftParen => ['(']
  | .rightParen => [')']
  | .plus => ['+']
  | .minus => ['-']
  | .less => ['<']
  | .semicolon => [';']
  | .assign => ['=']

/-- The text of a token in single quotes. -/
def inQuotes (t : Token) : String :=
  s!"'{String.ofList t.spelling}'"

/-- A token as error messages name it. -/
def describe (t : Token) : Except Text.TooLong String :=
  match t with
  | .endOfInput => .ok "end of input"
  | .variable _ => .ok s!"variable {t.inQuotes}"
  | .number n => (Text.decimal n).map fun digits => s!"integer {digits}"
  | _ => .ok t.inQuotes

/-- The keyword with the given text. -/
def keyword? (word : List Char) : Option Token :=
  [ifWord, elseWord, whileWord, doWord].find? fun t => t.spelling = word

/-- The sign with the given character. -/
def sign? (c : Char) : Option Token :=
  [leftBrace, rightBrace, leftParen, rightParen, plus, minus, less, semicolon,
    assign].find? fun t => t.spelling = [c]

end Token

/-- A token and the place where it starts. -/
structure Lexeme where
  token : Token
  position : Position
deriving DecidableEq

/-- A lexeme for inspection: class, value if it has one, and place. -/
def Lexeme.summary (l : Lexeme) : Except Text.TooLong String := do
  let value ←
    match l.token with
    | .variable v => pure s!" {Text.quoted (String.singleton v.letter)},"
    | .number n => (Text.decimal n).map fun digits => s!" {digits},"
    | _ => pure ""
  let line ← Text.decimal l.position.line
  let column ← Text.decimal l.position.column
  return s!"Token({l.token.className},{value} {line}:{column})"

end OnePass

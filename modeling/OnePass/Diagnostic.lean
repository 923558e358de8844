import OnePass.Text.Decimal
import OnePass.Text.Field
import OnePass.Text.Lines

namespace OnePass

/-- A place in a text, by line and column. -/
structure Position where
  line : Int
  column : Int
deriving DecidableEq

namespace Position

/-- The place after a character that stands here. Only a line feed ends a line.
-/
def next (p : Position) (c : Char) : Position :=
  if c = '\n' then ⟨p.line + 1, 1⟩ else ⟨p.line, p.column + 1⟩

/-- The place after a text that starts here. -/
def after (p : Position) (text : List Char) : Position :=
  text.foldl next p

end Position

/-- A place in a named text. -/
structure Location where
  file : String
  position : Position

def Location.text (l : Location) : Except Text.TooLong String := do
  let line ← Text.decimal l.position.line
  let column ← Text.decimal l.position.column
  return s!"{l.file}:{line}:{column}"

/-- An error as it is reported. -/
structure Diagnostic where
  message : String
  location : Option Location := none
  sourceLine : Option String := none
  hint : Option String := none

namespace Diagnostic

def heading (d : Diagnostic) : Except Text.TooLong String :=
  match d.location with
  | none => .ok s!"error: {d.message}"
  | some location =>
      location.text.map fun place => s!"{place}: error: {d.message}"

/-- The caret stands under the given column of a line that is shown behind four
spaces. -/
def caretLine (column : Int) : String :=
  Text.spaces (4 + column - 1).toNat ++ "^"

/-- The source line and its caret; a column that is not positive has no caret.
-/
def excerpt (d : Diagnostic) : List String :=
  match d.location, d.sourceLine with
  | some location, some line =>
      ("    " ++ line) ::
        (if 0 < location.position.column then
          [caretLine location.position.column] else [])
  | _, _ => []

def advice (d : Diagnostic) : List String :=
  match d.hint with
  | some hint => if hint = "" then [] else [s!"hint: {hint}"]
  | none => []

def render (d : Diagnostic) : Except Text.TooLong String :=
  d.heading.map fun heading => Text.joinLines (heading :: d.excerpt ++ d.advice)

end Diagnostic

end OnePass

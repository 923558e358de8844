import OnePass.CodeFault
import OnePass.Cursor

namespace OnePass

/-- What the grammar admits at the place of an unexpected token. -/
inductive Expectation where
  | token (t : Token)
  /-- The keyword that closes the body of a `do` statement. -/
  | loopCondition
  /-- The start of a term. -/
  | operand
  | endOfInput
deriving DecidableEq

namespace Expectation

def text : Expectation → String
  | .token t => t.inQuotes
  | .loopCondition => Token.whileWord.inQuotes
  | .operand => "a variable, integer or '('"
  | .endOfInput => "end of input"

def hint? : Expectation → Option String
  | .loopCondition => some "a do statement ends with while (...);"
  | _ => none

/-- The message for something expected and something else found. -/
def mismatch (expected found : String) : String :=
  s!"expected {expected}, found {found}"

end Expectation

inductive CompileError where
  | lexical (e : LexError)
  | unexpected (expected : Expectation) (found : Lexeme)
  | tooDeep (found : Lexeme)
  | malformed (fault : CodeFault)
deriving DecidableEq

namespace CompileError

/-- The report of a token of a text that is in the way. -/
def atLexeme (s : Source) (found : Lexeme) (message : String)
    (hint : Option String) :
    Diagnostic where
  message := message
  location := some ⟨s.name, found.position⟩
  sourceLine := some (s.line found.position.line)
  hint := hint

/-- An error that shows an integer which is too long is not reported as what it
is. -/
def diagnostic (s : Source) : CompileError → Except Text.TooLong Diagnostic
  | .lexical e => .ok (e.diagnostic s)
  | .unexpected expected found =>
      found.token.describe.map fun description =>
        atLexeme s found (Expectation.mismatch expected.text description)
          expected.hint?
  | .tooDeep found =>
      .ok (atLexeme s found "nesting too deep"
        (some "split the program into flatter statements"))
  | .malformed fault => fault.diagnostic

def render (s : Source) (e : CompileError) : Except Text.TooLong String := do
  (← e.diagnostic s).render

end CompileError

end OnePass

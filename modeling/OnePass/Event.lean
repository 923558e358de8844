import OnePass.Opcode
import OnePass.Text.Decimal
import OnePass.Text.Field

namespace OnePass

inductive Level where
  | debug
  | warning
deriving DecidableEq

def Level.name : Level → String
  | .debug => "DEBUG"
  | .warning => "WARNING"

inductive Event where
  | patched (jump : Nat) (target : Int)
  | compiled (name : String) (size : Nat)
  /-- An instruction about to be executed, with the text of its operand, and the
  stack with its top first. -/
  | executing (pc : Nat) (op : Opcode) (operandText : String) (stack : List Int)
  | leftOver (count : Nat)

namespace Event

def level : Event → Level
  | .leftOver _ => .warning
  | _ => .debug

/-- The values of a stack with its top last. -/
def stackText (stack : List Int) : Except Text.TooLong String :=
  (stack.reverse.mapM Text.decimal).map fun values =>
    "[" ++ ", ".intercalate values ++ "]"

/-- The text of an event. An event with an integer that is too long leaves no
line in the log. -/
def message : Event → Except Text.TooLong String
  | .patched jump target =>
      (Text.decimal target).map fun digits =>
        s!"Patched jump at {jump} to {digits}"
  | .compiled name size => .ok s!"Compiled {name}: {size} words"
  | .executing pc op operandText stack =>
      let counter := Text.alignRight 4 s!"{pc}"
      (stackText stack).map fun values =>
        s!"{counter}: {Text.alignLeft 5 op.mnemonic}{operandText}  stack={values}"
  | .leftOver count => .ok s!"Halted with {count} value(s) left on the stack"

/-- An event as a log line that names its level. -/
def line (e : Event) : Except Text.TooLong String :=
  e.message.map fun message => s!"{e.level.name}: {message}"

end Event

end OnePass

import OnePass.Diagnostic
import OnePass.Opcode

namespace OnePass

inductive Flaw where
  | superfluousOperand (op : Opcode)
  | absentOperand (op : Opcode)
  | notAJump (op : Opcode)
  | notPending
  | unpatched
  | strayTarget (op : Opcode) (target : Int)
  | invalidOpcode (word : Int)
  | truncated (op : Opcode)
  | incompleteWord (size : Nat)
  | nothingLoaded
  | alreadyHalted
  | counterOutOfRange
  | missingOperand
  | stackUnderflow
  | slotOutOfRange (slot : Int)
  | targetOutOfRange (target : Int)
  /-- An instruction was to be logged whose operand is too long for that. -/
  | operandTooLong
deriving DecidableEq

def Flaw.message : Flaw → Except Text.TooLong String
  | .superfluousOperand op => .ok s!"{op.mnemonic} takes no operand"
  | .absentOperand op =>
      .ok s!"{op.mnemonic} requires a {op.operandKind.text} operand"
  | .notAJump op => .ok s!"{op.mnemonic} is not a jump"
  | .notPending => .ok "patch of a jump that is not pending"
  | .unpatched => .ok "unpatched jump"
  | .strayTarget op target =>
      (Text.decimal target).map fun digits =>
        s!"{op.mnemonic} target {digits} is not an instruction"
  | .invalidOpcode word =>
      (Text.decimal word).map fun digits => s!"invalid opcode {digits}"
  | .truncated op => .ok s!"truncated {op.mnemonic} instruction"
  | .incompleteWord size =>
      .ok s!"bytecode length {size} is not a multiple of 8"
  | .nothingLoaded => .ok "no program loaded"
  | .alreadyHalted => .ok "machine has halted"
  | .counterOutOfRange => .ok "program counter out of range"
  | .missingOperand => .ok "missing operand"
  | .stackUnderflow => .ok "operand stack underflow"
  | .slotOutOfRange slot =>
      (Text.decimal slot).map fun digits =>
        s!"variable slot {digits} out of range"
  | .targetOutOfRange target =>
      (Text.decimal target).map fun digits =>
        s!"jump target {digits} out of range"
  | .operandTooLong => .error ⟨⟩

/-- A flaw with the offset where it was found, if there is one. -/
structure CodeFault where
  flaw : Flaw
  offset : Option Int
deriving DecidableEq

namespace CodeFault

/-- The report of some trouble with code, and of the offset where it was found.
-/
def report (message : String) (offset : Option Int) :
    Except Text.TooLong Diagnostic :=
  match offset with
  | none => .ok { message := message }
  | some offset =>
      (Text.decimal offset).map fun digits =>
        { message := s!"{message} (at offset {digits})" }

/-- A fault that shows an integer which is too long is not reported as a fault.
-/
def diagnostic (f : CodeFault) : Except Text.TooLong Diagnostic := do
  report (← f.flaw.message) f.offset

def render (f : CodeFault) : Except Text.TooLong String := do
  (← f.diagnostic).render

end CodeFault

end OnePass

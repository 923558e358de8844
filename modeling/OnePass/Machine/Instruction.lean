import OnePass.CodeFault
import OnePass.Variable

namespace OnePass

inductive Instruction where
  | fetch (v : Variable)
  | store (v : Variable)
  | push (n : Int)
  | pop
  | add
  | sub
  | lt
  | jz (target : Nat)
  | jnz (target : Nat)
  | jmp (target : Nat)
  | halt
deriving DecidableEq

namespace Instruction

def opcode : Instruction → Opcode
  | .fetch _ => .fetch
  | .store _ => .store
  | .push _ => .push
  | .pop => .pop
  | .add => .add
  | .sub => .sub
  | .lt => .lt
  | .jz _ => .jz
  | .jnz _ => .jnz
  | .jmp _ => .jmp
  | .halt => .halt

/-- The opcode at an offset of some code. -/
def opcodeAt (code : Array Int) (pc : Nat) : Except Flaw Opcode :=
  match code[pc]? with
  | none => .error .counterOutOfRange
  | some word =>
      match Opcode.ofWord? word with
      | none => .error (.invalidOpcode word)
      | some op => .ok op

/-- The operand of the instruction at an offset, of whatever meaning. -/
def operandAt (code : Array Int) (pc : Nat) : Except Flaw Int :=
  match code[pc + 1]? with
  | none => .error .missingOperand
  | some operand => .ok operand

/-- The operand as a variable. -/
def variableAt (code : Array Int) (pc : Nat) : Except Flaw Variable := do
  let operand ← operandAt code pc
  match Variable.ofSlot? operand with
  | none => .error (.slotOutOfRange operand)
  | some v => .ok v

/-- The operand as an address. -/
def targetAt (code : Array Int) (pc : Nat) : Except Flaw Nat := do
  let operand ← operandAt code pc
  if 0 ≤ operand ∧ operand < code.size then .ok operand.toNat
  else .error (.targetOutOfRange operand)

/-- The instruction at an offset. -/
def decodeAt (code : Array Int) (pc : Nat) : Except Flaw Instruction := do
  match ← opcodeAt code pc with
  | .fetch => return .fetch (← variableAt code pc)
  | .store => return .store (← variableAt code pc)
  | .push => return .push (← operandAt code pc)
  | .pop => return .pop
  | .add => return .add
  | .sub => return .sub
  | .lt => return .lt
  | .jz => return .jz (← targetAt code pc)
  | .jnz => return .jnz (← targetAt code pc)
  | .jmp => return .jmp (← targetAt code pc)
  | .halt => return .halt

end Instruction

end OnePass

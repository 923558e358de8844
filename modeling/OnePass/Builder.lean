import OnePass.Event
import OnePass.Program

namespace OnePass

/-- The words so far and the offsets of the pending jumps, the latest first. -/
structure Builder where
  words : Array Int := #[]
  pending : List Nat := []

/-- An operation on a buffer. -/
abbrev Build := EStateM CodeFault Builder

namespace Builder

/-- The operand of a jump whose target is not known yet. -/
def placeholder : Int := -1

/-- The offset of the next instruction. -/
def here (b : Builder) : Nat :=
  b.words.size

/-- The operand as it is written: a constant is taken into the range of words.
-/
def operandWord (op : Opcode) (operand : Int) : Int :=
  if op.operandKind = .constant then Word.wrap operand else operand

/-- Appends an instruction and returns its offset. The operand has to be there
exactly if the opcode takes one. -/
def emit (op : Opcode) (operand : Option Int := none) : Build Nat := do
  let offset := (← get).here
  match op.operandKind, operand with
  | .none, some _ => throw ⟨.superfluousOperand op, some offset⟩
  | .none, none => modify fun b => { b with words := b.words.push op.word }
  | _, none => throw ⟨.absentOperand op, some offset⟩
  | _, some operand =>
      modify fun b =>
        { b with words := (b.words.push op.word).push (operandWord op operand) }
  return offset

/-- Appends a jump and returns its offset. A jump without a target is pending
from then on. -/
def emitJump (op : Opcode) (target : Option Int := none) : Build Nat := do
  let b ← get
  if op.isJump then
    match target with
    | some target => emit op (some target)
    | none =>
        let offset ← emit op (some placeholder)
        modify fun b => { b with pending := offset :: b.pending }
        return offset
  else throw ⟨.notAJump op, some b.here⟩

/-- Gives a pending jump its target, and returns the entry for the log. -/
def patch (jump : Int) (target : Int) : Build Event := do
  let b ← get
  match jump.toNat? with
  | some offset =>
      if offset ∈ b.pending then
        set { b with
          words := b.words.setIfInBounds (offset + 1) target
          pending := b.pending.erase offset }
        return .patched offset target
      else throw ⟨.notPending, some jump⟩
  | none => throw ⟨.notPending, some jump⟩

/-- The fault of a jump that leads to none of the given offsets. -/
def strayJump? (offsets : List Nat) (entry : Entry) : Option CodeFault :=
  match entry.operand with
  | some target =>
      if entry.opcode.isJump && !offsets.any fun offset =>
        (offset : Int) = target then
        some ⟨.strayTarget entry.opcode target, some entry.offset⟩
      else none
  | none => none

/-- The fault that keeps code from being finished: that of its reading, or else
that of the first jump that leads to no instruction. -/
def fault? (p : Program) : Option CodeFault :=
  match p.instructionOffsets with
  | .error fault => some fault
  | .ok offsets => p.instructions.1.findSome? (strayJump? offsets)

/-- The finished program. -/
def build (name : String) : Build Program := do
  let b ← get
  match b.pending.min? with
  | some offset => throw ⟨.unpatched, some offset⟩
  | none =>
      match fault? ⟨b.words, name⟩ with
      | some fault => throw fault
      | none => return ⟨b.words, name⟩

end Builder

end OnePass

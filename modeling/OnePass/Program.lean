import OnePass.CodeFault
import OnePass.Word

namespace OnePass

structure Program where
  code : Array Int
  name : String := "<input>"
deriving DecidableEq

def Program.size (p : Program) : Nat :=
  p.code.size

/-- Whether a word can be written out that belongs to code of the given size. An
offset of the code always can: no code is so long that its size has too many
digits. -/
def isShown (size : Nat) (word : Int) : Bool :=
  Text.isShort word || (0 ≤ word && word < size)

/-- An instruction of a program, by its offset, opcode and operand. -/
structure Entry where
  offset : Nat
  opcode : Opcode
  operand : Option Int
deriving DecidableEq

/-- The instructions of a sequence of words that starts at the given offset, up
to the first fault. -/
def readInstructions (offset : Nat) : List Int → List Entry × Option CodeFault
  | [] => ([], none)
  | word :: rest =>
      match Opcode.ofWord? word with
      | none => ([], some ⟨.invalidOpcode word, some offset⟩)
      | some op =>
          if op.size = 1 then
            let (entries, fault) := readInstructions (offset + 1) rest
            (⟨offset, op, none⟩ :: entries, fault)
          else
            match rest with
            | [] => ([], some ⟨.truncated op, some offset⟩)
            | operand :: rest =>
                let (entries, fault) := readInstructions (offset + 2) rest
                (⟨offset, op, some operand⟩ :: entries, fault)

namespace Program

/-- The instructions of a program in order, up to the first fault. -/
def instructions (p : Program) : List Entry × Option CodeFault :=
  readInstructions 0 p.code.toList

/-- The offsets of all instructions of a program that is well formed. -/
def instructionOffsets (p : Program) : Except CodeFault (List Nat) :=
  match p.instructions with
  | (_, some fault) => .error fault
  | (entries, none) => .ok (entries.map Entry.offset)

end Program

end OnePass

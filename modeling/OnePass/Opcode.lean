namespace OnePass

inductive Opcode where
  | fetch
  | store
  | push
  | pop
  | add
  | sub
  | lt
  | jz
  | jnz
  | jmp
  | halt
deriving DecidableEq, Repr

/-- What the operand word of an instruction means. -/
inductive OperandKind where
  | none
  | variable
  | constant
  | address
deriving DecidableEq

def OperandKind.text : OperandKind → String
  | .none => "none"
  | .variable => "variable"
  | .constant => "constant"
  | .address => "address"

namespace Opcode

/-- All opcodes, each at the place that is its word. -/
def all : List Opcode :=
  [fetch, store, push, pop, add, sub, lt, jz, jnz, jmp, halt]

/-- The word of an opcode. -/
def word : Opcode → Int
  | .fetch => 0
  | .store => 1
  | .push => 2
  | .pop => 3
  | .add => 4
  | .sub => 5
  | .lt => 6
  | .jz => 7
  | .jnz => 8
  | .jmp => 9
  | .halt => 10

def ofWord? (w : Int) : Option Opcode :=
  all.find? fun op => op.word = w

def mnemonic : Opcode → String
  | .fetch => "FETCH"
  | .store => "STORE"
  | .push => "PUSH"
  | .pop => "POP"
  | .add => "ADD"
  | .sub => "SUB"
  | .lt => "LT"
  | .jz => "JZ"
  | .jnz => "JNZ"
  | .jmp => "JMP"
  | .halt => "HALT"

def operandKind : Opcode → OperandKind
  | .fetch | .store => .variable
  | .push => .constant
  | .jz | .jnz | .jmp => .address
  | .pop | .add | .sub | .lt | .halt => .none

/-- The number of values that an instruction takes from the stack. -/
def pops : Opcode → Nat
  | .add | .sub | .lt => 2
  | .store | .pop | .jz | .jnz => 1
  | .fetch | .push | .jmp | .halt => 0

/-- The number of values that an instruction puts on the stack. -/
def pushes : Opcode → Nat
  | .fetch | .store | .push | .add | .sub | .lt => 1
  | .pop | .jz | .jnz | .jmp | .halt => 0

def description : Opcode → String
  | .fetch => "Push the value of a variable"
  | .store => "Write top of stack to a variable"
  | .push => "Push a constant"
  | .pop => "Discard top of stack"
  | .add => "Add (left + right)"
  | .sub => "Subtract (left - right)"
  | .lt => "Less than (1 if left < right else 0)"
  | .jz => "Jump if top of stack is zero"
  | .jnz => "Jump if top of stack is non-zero"
  | .jmp => "Jump unconditionally"
  | .halt => "Stop execution"

/-- The number of words of an instruction. -/
def size (op : Opcode) : Nat :=
  if op.operandKind = .none then 1 else 2

/-- Jumps are the instructions whose operand is an address. -/
def isJump (op : Opcode) : Bool :=
  op.operandKind = .address

/-- An opcode for inspection, by mnemonic and size. -/
def summary (op : Opcode) : String :=
  s!"OpcodeInfo({op.mnemonic}, size={op.size})"

theorem ofWord?_word (op : Opcode) : ofWord? op.word = some op := by
  cases op <;> rfl

theorem eq_of_word_eq {op op' : Opcode} (h : op.word = op'.word) :
    op = op' := by
  have hfound := ofWord?_word op
  rw [h, ofWord?_word] at hfound
  exact (Option.some.inj hfound).symm

end Opcode

end OnePass

import OnePass.Machine.Instruction

namespace OnePass

structure State where
  table : Table := Table.zero
  /-- The values on the stack, the top first. -/
  stack : List Int := []
  /-- The offset of the next instruction. -/
  pc : Nat := 0
  halted : Bool := false
  /-- The number of instructions executed since the program was loaded. -/
  steps : Nat := 0
deriving DecidableEq

/-- A part of the execution of an instruction. -/
abbrev Execution := EStateM CodeFault State

namespace State

/-- Fails at the instruction that is being executed. -/
def fail {α : Type} (flaw : Flaw) : Execution α := do
  throw ⟨flaw, some (← get).pc⟩

def pop : Execution Int := do
  let s ← get
  match s.stack with
  | [] => fail .stackUnderflow
  | top :: rest =>
      set { s with stack := rest }
      return top

def push (value : Int) : Execution Unit :=
  modify fun s => { s with stack := value :: s.stack }

/-- Goes on at the given offset. -/
def goTo (target : Nat) : Execution Unit :=
  modify fun s => { s with pc := target }

/-- Goes on behind an instruction of the given opcode. -/
def goOn (op : Opcode) : Execution Unit :=
  modify fun s => { s with pc := s.pc + op.size }

/-- Replaces the two values on top by a result; the upper one is the right
operand. -/
def combine (result : Int → Int → Int) : Execution Unit := do
  let right ← pop
  let left ← pop
  push (result left right)

/-- The effect of an instruction. -/
def perform (instruction : Instruction) : Execution Unit := do
  match instruction with
  | .fetch v =>
      push ((← get).table.value v)
      goOn .fetch
  | .store v =>
      -- The value stays on the stack as the result of the assignment.
      let s ← get
      match s.stack with
      | [] => fail .stackUnderflow
      | top :: _ => set { s with table := s.table.assign v top }
      goOn .store
  | .push n =>
      push (Word.wrap n)
      goOn .push
  | .pop =>
      discard pop
      goOn .pop
  | .add =>
      combine fun left right => Word.wrap (left + right)
      goOn .add
  | .sub =>
      combine fun left right => Word.wrap (left - right)
      goOn .sub
  | .lt =>
      combine fun left right => if left < right then 1 else 0
      goOn .lt
  | .jz target =>
      if (← pop) = 0 then goTo target else goOn .jz
  | .jnz target =>
      if (← pop) = 0 then goOn .jnz else goTo target
  | .jmp target => goTo target
  | .halt => modify fun s => { s with halted := true }

/-- Executes the instruction at the program counter and returns its opcode. -/
def execute (code : Array Int) : Execution Opcode := do
  match Instruction.decodeAt code (← get).pc with
  | .error flaw => fail flaw
  | .ok instruction =>
      perform instruction
      modify fun s => { s with steps := s.steps + 1 }
      return instruction.opcode

end State

end OnePass

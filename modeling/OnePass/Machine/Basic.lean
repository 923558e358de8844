import OnePass.Event
import OnePass.Machine.State
import OnePass.Program

/-!
The machine. It keeps its variables from one program to the next. A program that
is loaded can be executed step by step, or run until it halts. During a run a
watcher may be asked before every instruction whether to go on; a run that it
stops can be continued. A machine that traces logs every instruction before its
effect.
-/

namespace OnePass

/-- The question to a watcher: an opcode that is about to be executed, and
where. -/
structure Call where
  pc : Nat
  opcode : Opcode
deriving DecidableEq

/-- A watcher answers by the call and all the calls it got before. -/
structure Watcher where
  permits : Array Call → Call → Bool
  calls : Array Call := #[]

namespace Watcher

/-- Permits so many instructions in all. -/
def limit (count : Nat) : Watcher where
  permits earlier _ := earlier.size < count

/-- Stops at an offset. -/
def stopAt (pc : Int) : Watcher where
  permits _ call := (call.pc : Int) ≠ pc

/-- Stops at an opcode. -/
def stopBefore (op : Opcode) : Watcher where
  permits _ call := call.opcode ≠ op

end Watcher

structure Machine where
  state : State := {}
  program : Option Program := none
  traces : Bool := false
  watcher : Option Watcher := none
  /-- What was logged, in order. -/
  log : Array Event := #[]

/-- How a run ends. -/
inductive Ending where
  | halted
  /-- The watcher did not permit the next instruction. -/
  | stopped
  | failed (fault : CodeFault)
  /-- The number of instructions was limited and the limit is reached. -/
  | exhausted

namespace Machine

/-- A machine with the given variables, or with all of them zero. -/
def new (values : Option (List Int)) (traces : Bool) :
    Except Table.WrongSize Machine :=
  match values with
  | none => .ok { traces := traces }
  | some values => do
      let table ← Table.ofValues values
      return { state := { table := table }, traces := traces }

/-- Gives all variables new values. -/
def setVariables (m : Machine) (values : List Int) :
    Except Table.WrongSize Machine := do
  let table ← Table.ofValues values
  return { m with state := { m.state with table := table } }

/-- Loads a program. The variables stay. -/
def load (m : Machine) (program : Program) : Machine :=
  { m with program := some program, state := { table := m.state.table } }

/-- The log entry of the instruction at the program counter, if its opcode is
known and its operand is there. The operand is written out for it. -/
def traceEvent? (code : Array Int) (s : State) :
    Except Text.TooLong (Option Event) :=
  match Instruction.opcodeAt code s.pc with
  | .error _ => .ok none
  | .ok op =>
      if op.size = 1 then .ok (some (.executing s.pc op "" s.stack))
      else
        match Instruction.operandAt code s.pc with
        | .error _ => .ok none
        | .ok operand =>
            if isShown code.size operand then
              .ok (some (.executing s.pc op s!" {operand}" s.stack))
            else .error ⟨⟩

/-- The machine after logging the instruction at the program counter, if it
traces. -/
def trace (m : Machine) (code : Array Int) : Except CodeFault Machine :=
  if m.traces then
    match traceEvent? code m.state with
    | .ok none => .ok m
    | .ok (some event) => .ok { m with log := m.log.push event }
    | .error _ =>
        -- A slot or an address that is too long is also out of range, and fails
        -- for that.
        match Instruction.decodeAt code m.state.pc with
        | .error flaw => .error ⟨flaw, some m.state.pc⟩
        | .ok _ => .error ⟨.operandTooLong, some m.state.pc⟩
  else .ok m

/-- Executes one instruction of some code. -/
def execute (m : Machine) (code : Array Int) :
    Except CodeFault Opcode × Machine :=
  match m.trace code with
  | .error fault => (.error fault, m)
  | .ok m =>
      match (State.execute code).run m.state with
      | .ok op state => (.ok op, { m with state := state })
      | .error fault state => (.error fault, { m with state := state })

/-- Executes one instruction of the loaded program. The watcher is not asked. -/
def step (m : Machine) : Except CodeFault Opcode × Machine :=
  match m.program with
  | none => (.error ⟨.nothingLoaded, none⟩, m)
  | some program =>
      if m.state.halted then (.error ⟨.alreadyHalted, some m.state.pc⟩, m)
      else m.execute program.code

/-- Asks the watcher, if there is one, whether to execute the next instruction.
The opcode has to be known for that. -/
def consult (m : Machine) (code : Array Int) :
    Except CodeFault Bool × Machine :=
  match m.watcher with
  | none => (.ok true, m)
  | some watcher =>
      match Instruction.opcodeAt code m.state.pc with
      | .error flaw => (.error ⟨flaw, some m.state.pc⟩, m)
      | .ok op =>
          let call : Call := ⟨m.state.pc, op⟩
          (.ok (watcher.permits watcher.calls call),
            { m with
              watcher := some { watcher with calls := watcher.calls.push call } })

/-- Executes at most `fuel` instructions of some code. -/
def runCode (code : Array Int) : Nat → Machine → Ending × Machine
  | 0, m => (if m.state.halted then .halted else .exhausted, m)
  | fuel + 1, m =>
      if m.state.halted then (.halted, m)
      else
        match m.consult code with
        | (.error fault, m) => (.failed fault, m)
        | (.ok false, m) => (.stopped, m)
        | (.ok true, m) =>
            match m.execute code with
            | (.error fault, m) => (.failed fault, m)
            | (.ok _, m) => runCode code fuel m

/-- The machine after a warning, if values are left on the stack. -/
def warnLeftOver (m : Machine) : Machine :=
  if m.state.stack = [] then m
  else { m with log := m.log.push (.leftOver m.state.stack.length) }

/-- Runs the loaded program for at most `fuel` instructions. -/
def run (m : Machine) (fuel : Nat) : Ending × Machine :=
  match m.program with
  | none => (.failed ⟨.nothingLoaded, none⟩, m)
  | some program =>
      match m.runCode program.code fuel with
      | (.halted, m) => (.halted, m.warnLeftOver)
      | other => other

/-- Loads a program and runs it for at most `fuel` instructions. -/
def runProgram (m : Machine) (program : Program) (fuel : Nat) :
    Ending × Machine :=
  (m.load program).run fuel

end Machine

end OnePass

import OnePass.Builder
import OnePass.Compile.Error

/-!
The state of a compilation: one token of lookahead, the text behind it, the code
so far, and the log. Its operations either look at the token, take it and read
the next one, or append to the code.
-/

namespace OnePass

structure Emitter where
  lookahead : Lexeme
  cursor : Cursor
  builder : Builder := {}
  /-- What happened so far, the latest first. -/
  events : List Event := []

/-- A part of a compilation. -/
abbrev Emit := EStateM CompileError Emitter

namespace Emitter

/-- The token of lookahead. -/
def look : Emit Token := do
  return (← get).lookahead.token

/-- Takes the token of lookahead and reads the next one. -/
def advance : Emit Unit := do
  let e ← get
  match e.cursor.next with
  | (.ok lexeme, behind) => set { e with lookahead := lexeme, cursor := behind }
  | (.error error, behind) =>
      set { e with cursor := behind }
      throw (.lexical error)

/-- Fails because the token of lookahead is not what is expected. -/
def refuse {α : Type} (expected : Expectation) : Emit α := do
  throw (.unexpected expected (← get).lookahead)

/-- Fails because the text nests too deeply. -/
def tooDeep {α : Type} : Emit α := do
  throw (.tooDeep (← get).lookahead)

/-- An operation on the code. Meanwhile the state holds no code, so that there
is only one copy of it and it grows in place. -/
def onCode {α : Type} (operation : Build α) : Emit α := fun e =>
  let code := e.builder
  let e := { e with builder := {} }
  match operation code with
  | .ok result code => .ok result { e with builder := code }
  | .error fault code => .error (.malformed fault) { e with builder := code }

/-- The offset of the next instruction. -/
def here : Emit Nat := do
  return (← get).builder.here

/-- Appends an instruction without an operand. -/
def emit (op : Opcode) : Emit Unit := do
  discard (onCode (Builder.emit op none))

/-- Appends an instruction with an operand. -/
def emitWith (op : Opcode) (operand : Int) : Emit Unit := do
  discard (onCode (Builder.emit op (some operand)))

/-- Appends a jump back to an offset that is known. -/
def jumpBack (op : Opcode) (target : Nat) : Emit Unit := do
  discard (onCode (Builder.emitJump op (some target)))

/-- Appends a jump forward and returns its offset, for `land`. -/
def jumpForward (op : Opcode) : Emit Nat :=
  onCode (Builder.emitJump op none)

/-- Lets a pending jump lead to the next instruction. -/
def land (jump : Nat) : Emit Unit := do
  let target ← here
  let event ← onCode (Builder.patch jump target)
  modify fun e => { e with events := event :: e.events }

end Emitter

/-- A way to go over a text in some monad: how an operation is performed, how a
token is taken, and what becomes of a list with more members than allowed. -/
structure Pass (m : Type → Type) where
  perform : {α : Type} → Emit α → m α
  advance : m Unit
  overrun : m Unit

namespace Pass

variable {m : Type → Type} (pass : Pass m)

@[inline] def look : m Token :=
  pass.perform Emitter.look

@[inline] def refuse {α : Type} (expected : Expectation) : m α :=
  pass.perform (Emitter.refuse expected)

/-- Takes a token, which has to be the given one. -/
@[inline] def expect [Monad m] (t : Token) : m Unit := do
  if (← pass.look) = t then pass.advance else pass.refuse (.token t)

@[inline] def here : m Nat :=
  pass.perform Emitter.here

@[inline] def emit (op : Opcode) : m Unit :=
  pass.perform (Emitter.emit op)

@[inline] def emitWith (op : Opcode) (operand : Int) : m Unit :=
  pass.perform (Emitter.emitWith op operand)

@[inline] def jumpBack (op : Opcode) (target : Nat) : m Unit :=
  pass.perform (Emitter.jumpBack op target)

@[inline] def jumpForward (op : Opcode) : m Nat :=
  pass.perform (Emitter.jumpForward op)

@[inline] def land (jump : Nat) : m Unit :=
  pass.perform (Emitter.land jump)

end Pass

/-- The pass that only compiles. -/
@[inline] def Emitter.pass : Pass Emit where
  perform operation := operation
  advance := Emitter.advance
  overrun := pure ()

end OnePass

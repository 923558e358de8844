import OnePass.Compile.Compiler

namespace OnePass

/-- A compilation in progress, and what it has done so far. -/
structure Ledger where
  emitter : Emitter
  /-- How many phrases were started. -/
  calls : Nat := 0
  /-- The lexemes that were taken, in order. -/
  taken : List Lexeme := []

/-- A part of a compilation, as far as it is followed. -/
abbrev Ledgered := ExceptT CompileError (StateT Ledger Option)

namespace Ledgered

variable {α β : Type}

/-- An operation that does not call for a phrase. -/
def perform (x : Emit α) : Ledgered α := fun ledger =>
  match x ledger.emitter with
  | .ok a e => some (.ok a, { ledger with emitter := e })
  | .error error e => some (.error error, { ledger with emitter := e })

/-- Takes the token of lookahead, and enters it in the ledger. -/
def advance : Ledgered Unit := do
  modify fun ledger =>
    { ledger with taken := ledger.taken ++ [ledger.emitter.lookahead] }
  perform Emitter.advance

/-- Enters the start of a phrase in the ledger. -/
def start : Ledgered Unit :=
  modify fun ledger => { ledger with calls := ledger.calls + 1 }

/-- The fuel is used up, and the end is not in sight. -/
def unfinished : Ledgered α :=
  fun _ => none

/-- The pass that keeps a ledger. A list is followed for as long as there is
fuel. -/
def pass : Pass Ledgered where
  perform := perform
  advance := advance
  overrun := unfinished

theorem bind_of_ok {x : Ledgered α} {ledger ledger' : Ledger} {a : α}
    (h : x ledger = some (.ok a, ledger')) (f : α → Ledgered β) :
    (x >>= f) ledger = f a ledger' := by
  change Option.bind (x ledger) _ = _
  rw [h]
  rfl

theorem bind_of_error {x : Ledgered α} {ledger ledger' : Ledger}
    {error : CompileError} (h : x ledger = some (.error error, ledger'))
    (f : α → Ledgered β) :
    (x >>= f) ledger = some (.error error, ledger') := by
  change Option.bind (x ledger) _ = _
  rw [h]
  rfl

end Ledgered

namespace Phrase

/-- The compilation of a phrase, as far as the fuel lasts. -/
def compileFueled : Nat → Phrase → Ledgered Unit
  | 0, _ => Ledgered.unfinished
  | fuel + 1, phrase => do
      Ledgered.start
      phrase.body Ledgered.pass fuel (compileFueled fuel)

end Phrase

/-- A whole program, as far as the fuel lasts. -/
def compileProgramFueled (fuel : Nat) (name : String) : Ledgered Program :=
  Phrase.program Ledgered.pass (Phrase.compileFueled fuel .statement) name

/-- What compiling a text comes to without limits, if the fuel lasts so long,
with the number of phrases that were started and the lexemes that were taken. -/
def Source.compileFueled (fuel : Nat) (s : Source) :
    Option (Except CompileError Program × Nat × List Lexeme) :=
  match s.start.next with
  | (.error error, _) => some (.error (.lexical error), 0, [])
  | (.ok first, behind) => do
      let (outcome, ledger) ←
        compileProgramFueled fuel s.name
          { emitter := { lookahead := first, cursor := behind } }
      return (outcome, ledger.calls, ledger.taken)

end OnePass

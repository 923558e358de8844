import OnePass.Compile.Compiler
import OnePass.Machine.Basic

namespace OnePass

/-- Why a text has no final table. -/
inductive RunError where
  | rejected (e : CompileError)
  | wrongSize (e : Table.WrongSize)
  | failed (fault : CodeFault)
  /-- The program needs more instructions than were allowed. -/
  | exhausted

/-- Runs a compiled program on a new machine with the given variables, for at
most `fuel` instructions. -/
def Program.run (p : Program) (values : Option (List Int)) (traces : Bool)
    (fuel : Nat) :
    Except RunError Table × List Event :=
  match Machine.new values traces with
  | .error e => (.error (.wrongSize e), [])
  | .ok machine =>
      match machine.runProgram p fuel with
      | (.failed fault, m) => (.error (.failed fault), m.log.toList)
      | (.exhausted, m) => (.error .exhausted, m.log.toList)
      | (_, m) => (.ok m.state.table, m.log.toList)

namespace Source

/-- The variables after compiling a text with a limit on the levels of nesting
and running it, and the log of both. -/
def runWithin (limit : Nat) (s : Source) (values : Option (List Int))
    (traces : Bool) (fuel : Nat) :
    Except RunError Table × List Event :=
  let compilation := s.compileWithin limit
  match compilation.outcome with
  | .error e => (.error (.rejected e), compilation.events)
  | .ok program =>
      let (result, events) := program.run values traces fuel
      (result, compilation.events ++ events)

def run (s : Source) (values : Option (List Int)) (traces : Bool) (fuel : Nat) :
    Except RunError Table × List Event :=
  s.runWithin nestingLimit values traces fuel

end Source

end OnePass

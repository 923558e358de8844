import OnePass.Command.Host

namespace OnePass.Command

/-- What the command leaves behind: its exit code and what it printed. -/
structure Response where
  exitCode : Nat
  stdout : String
  stderr : String
deriving DecidableEq

inductive Failure where
  | rejected (text : String)
  | malformedCode (text : String)
  | unavailable (text : String)
  | unforeseen (text : String)

namespace Failure

def exitCode : Failure → Nat
  | .rejected _ => 1
  | .unavailable _ => 2
  | .malformedCode _ => 3
  | .unforeseen _ => 3

def message : Failure → String
  | .rejected text => text
  | .unavailable text => s!"Error: {text}"
  | .malformedCode text => s!"Internal error: {text}"
  | .unforeseen text => s!"Internal error: {text}"

/-- What is printed for a mistake of the tool where there is no trace of its
calls to show. -/
def noTrace : String :=
  "NoneType: None"

/-- The lines of a failure; a mistake of the tool comes with a trace if more
output is wanted. -/
def lines (f : Failure) (verbose : Bool) : List String :=
  if verbose && f.exitCode = 3 then [f.message, noTrace] else [f.message]

/-- The response to a failure before which nothing was printed. -/
def response (host : Host) (f : Failure) (verbose : Bool) : Response :=
  ⟨f.exitCode, "", Text.terminateLines ((f.lines verbose).map host.err.shown)⟩

/-- The failure of a text that does not compile. What cannot be written out was
not foreseen. -/
def ofCompileError (source : Source) (e : CompileError) : Failure :=
  match e.render source, e with
  | .error tooLong, _ => .unforeseen tooLong.message
  | .ok text, .malformed _ => .malformedCode text
  | .ok text, _ => .rejected text

def ofCodeFault (fault : CodeFault) : Failure :=
  match fault.render with
  | .error tooLong => .unforeseen tooLong.message
  | .ok text => .malformedCode text

end Failure

end OnePass.Command

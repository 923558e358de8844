import OnePass.Command.Failure
import OnePass.Command.Usage
import OnePass.Compile.Compiler
import OnePass.Listing
import OnePass.Machine.Basic
import OnePass.Text.Utf8

/-!
The command: it compiles a text and runs it, or every line of it on its own, and
shows the variables that are not zero. Instead of running a program it can show
its listing.
-/

namespace OnePass.Command

structure Options where
  lines : Bool := false
  disasm : Bool := false
  trace : Bool := false
  verbose : Bool := false

def Options.ofSwitches (switches : List Switch) : Options where
  lines := .lines ∈ switches
  disasm := .disasm ∈ switches
  trace := .trace ∈ switches
  verbose := .verbose ∈ switches

/-- The lines printed so far on each channel. -/
structure Transcript where
  out : List String := []
  err : List String := []

/-- Events are logged, and not only warnings. -/
def Options.logs (o : Options) : Bool :=
  o.verbose || o.trace

namespace Transcript

variable (host : Host)

def print (t : Transcript) (lines : List String) : Transcript :=
  { t with out := t.out ++ lines.map host.out.shown }

def report (t : Transcript) (lines : List String) : Transcript :=
  { t with err := t.err ++ lines.map host.err.shown }

/-- Reports the events that the options let through, each as it is, if it can be
written. Their level is named only with more output. -/
def log (t : Transcript) (o : Options) (events : List Event) : Transcript :=
  let shown := events.filter fun e => o.logs || e.level = .warning
  let text (e : Event) := if o.verbose then e.line else e.message
  { t with err := t.err ++ shown.filterMap fun e => (text e).toOption }

def response (t : Transcript) (exitCode : Nat) : Response :=
  ⟨exitCode, Text.terminateLines t.out, Text.terminateLines t.err⟩

/-- The response where the command ends with a failure. -/
def fail (t : Transcript) (o : Options) (f : Failure) : Response :=
  (t.report host (f.lines o.verbose)).response f.exitCode

end Transcript

/-- The response to arguments that cannot be used. -/
def UsageError.response (host : Host) (e : UsageError) : Response :=
  (Transcript.report host {} e.lines).response 2

def Host.compile (host : Host) (o : Options) (source : Source) : Compilation :=
  source.compileWithin (host.levels o.logs source)

section Process

variable (host : Host) (fuel : Nat) (o : Options)

/-- Runs a program and prints the variables. A program that needs more than
`fuel` instructions has no answer. -/
def runProgram (t : Transcript) (m : Machine) (program : Program) :
    Option (Except Response (Transcript × Machine)) :=
  match { m with log := #[] }.runProgram program fuel with
  | (.exhausted, _) => none
  | (.failed fault, m) =>
      some (.error ((t.log o m.log.toList).fail host o (.ofCodeFault fault)))
  | (_, m) =>
      some (.ok ((t.log o m.log.toList).print host m.state.table.lines, m))

/-- Prints the listing of a program. -/
def list (t : Transcript) (program : Program) : Except Response Transcript :=
  match program.listing with
  | .error tooLong => .error (t.fail host o (.unforeseen tooLong.message))
  | .ok listing => .ok (t.print host [listing])

/-- Compiles a whole text and runs it or shows its listing. -/
def processText (source : Source) : Option Response :=
  let compilation := host.compile o source
  let t := Transcript.log {} o compilation.events
  match compilation.outcome with
  | .error e => some (t.fail host o (.ofCompileError source e))
  | .ok program =>
      let t :=
        if o.verbose then t.report host
          [s!"Compiled {source.name}: {program.size} words"] else t
      if o.disasm then
        match list host o t program with
        | .error response => some response
        | .ok t => some (t.response 0)
      else
        match runProgram host fuel o t { traces := o.trace } program with
        | none => none
        | some (.error response) => some response
        | some (.ok (t, _)) => some (t.response 0)

/-- Compiles every line that is not blank and runs it or shows its listing. All
lines are run on one machine. -/
def processLines (name : String) :
    Transcript → Machine → Int → List (List Char) → Option Response
  | t, _, _, [] => some (t.response 0)
  | t, m, number, line :: rest =>
      if line.all Text.isBlank then processLines name t m (number + 1) rest
      else
        let source : Source := ⟨line, name, number⟩
        let compilation := host.compile o source
        let t := t.log o compilation.events
        match compilation.outcome with
        | .error e => some (t.fail host o (.ofCompileError source e))
        | .ok program =>
            if o.disasm then
              match list host o t program with
              | .error response => some response
              | .ok t => processLines name t m (number + 1) rest
            else
              match runProgram host fuel o t m program with
              | none => none
              | some (.error response) => some response
              | some (.ok (t, m)) => processLines name t m (number + 1) rest

/-- Processes a text of the given name. -/
def process (name : String) (text : List Char) : Option Response :=
  if o.lines then
    processLines host fuel o name {} { traces := o.trace } 1 (Text.lines text)
  else processText host fuel o ⟨text, name, 1⟩

end Process

/-- What the arguments ask for once they are read. -/
structure Request where
  options : Options
  /-- The file to read; without one, standard input is read. -/
  file : Option String
  extra : List String

/-- The name of the source in messages. -/
def Request.sourceName (r : Request) : String :=
  r.file.getD "<stdin>"

/-- What came of reading the source: its bytes, or why it cannot be read. -/
inductive Reading where
  | contents (bytes : List UInt8)
  | unreadable (reason : String)

/-- What the arguments come to: a response at once, or a request that needs its
source. -/
inductive Interpretation where
  | answered (response : Response)
  | requested (request : Request)

/-- Whether a file can have this name. -/
def isFileName (name : String) : Bool :=
  '\x00' ∉ name.toList

/-- Reads the arguments. Of the options for help and version the first one
counts. The command ends without a word if no file can have the name of the
source. -/
def interpret (host : Host) (arguments : List String) : Interpretation :=
  match readArguments arguments with
  | .error e => .answered (e.response host)
  | .ok arguments =>
      match arguments.switches.find? fun s => s = .help || s = .version with
      | some .version => .answered ⟨0, versionText, ""⟩
      | some _ => .answered ⟨0, helpText, ""⟩
      | none =>
          let file :=
            match arguments.operands.head? with
            | some "-" => none
            | other => other
          if file.all isFileName then
            .requested ⟨Options.ofSwitches arguments.switches, file,
              arguments.operands.drop 1⟩
          else .answered ⟨1, "", ""⟩

/-- The response to a request whose source was read. A program that needs more
than `fuel` instructions has no response. -/
def Request.respond (host : Host) (r : Request) (fuel : Nat)
    (reading : Reading) : Option Response :=
  match reading with
  | .unreadable reason =>
      some ((UsageError.unreadableSource r.sourceName reason).response host)
  | .contents bytes =>
      if r.extra ≠ [] then
        some ((UsageError.extraArguments r.extra).response host)
      else
        match Text.Utf8.decode bytes with
        | .error e =>
            some (Transcript.fail host {} r.options (.unforeseen e.message))
        | .ok text =>
            process host fuel r.options r.sourceName (Text.unifyLineEnds text)

end OnePass.Command

import OnePass.Text.Lines
import OnePass.Text.Quoted
import OnePass.Text.Similarity

namespace OnePass.Command

inductive Switch where
  | lines
  | disasm
  | trace
  | verbose
  | version
  | help
deriving DecidableEq

namespace Switch

def all : List Switch :=
  [lines, disasm, trace, verbose, version, help]

/-- The option by its long name. -/
def longName : Switch → String
  | .lines => "--lines"
  | .disasm => "--disasm"
  | .trace => "--trace"
  | .verbose => "--verbose"
  | .version => "--version"
  | .help => "--help"

def ofLongName? (name : String) : Option Switch :=
  all.find? fun s => s.longName = name

/-- The option by its letter. -/
def ofLetter? (c : Char) : Option Switch :=
  if c = 'v' then some .verbose else none

end Switch

/-- Why the arguments cannot be used. -/
inductive UsageError where
  | unknownOption (name : String) (suggestions : List String)
  | unwantedValue (name : String)
  | unreadableSource (name reason : String)
  | extraArguments (arguments : List String)

namespace UsageError

def message : UsageError → String
  | .unknownOption name [] => s!"No such option: {name}"
  | .unknownOption name [suggestion] =>
      s!"No such option: {name} Did you mean {suggestion}?"
  | .unknownOption name suggestions =>
      let names := ", ".intercalate suggestions
      s!"No such option: {name} (Possible options: {names})"
  | .unwantedValue name => s!"Option {Text.quoted name} does not take a value."
  | .unreadableSource name reason =>
      s!"Invalid value for '[SOURCE]': '{name}': {reason}"
  | .extraArguments arguments =>
      let noun := if arguments.length = 1 then "argument" else "arguments"
      let names := " ".intercalate arguments
      s!"Got unexpected extra {noun} ({names})"

end UsageError

/-- The arguments sorted out: the options as they came, and what is no option.
-/
structure Arguments where
  switches : List Switch := []
  operands : List String := []

/-- The options of a group of letters. -/
def readLetters : List Char → Except UsageError (List Switch)
  | [] => .ok []
  | c :: rest =>
      match Switch.ofLetter? c with
      | none => .error (.unknownOption (String.ofList ['-', c]) [])
      | some switch => (readLetters rest).map (switch :: ·)

/-- The options of an argument that starts with a dash. What stands behind an
equals sign is a value. -/
def readSwitches (argument : List Char) : Except UsageError (List Switch) :=
  let name := String.ofList (argument.takeWhile (· ≠ '='))
  match Switch.ofLongName? name with
  | some switch =>
      if '=' ∈ argument then .error (.unwantedValue name) else .ok [switch]
  | none =>
      match argument with
      | '-' :: '-' :: _ =>
          .error (.unknownOption name
            (Text.closeMatches name (Switch.all.map Switch.longName)))
      | _ => readLetters (argument.drop 1)

def readArguments : List String → Except UsageError Arguments
  | [] => .ok {}
  | argument :: rest =>
      if argument = "--" then .ok { operands := rest }
      else
        match argument.toList with
        | '-' :: _ :: _ => do
            let switches ← readSwitches argument.toList
            let arguments ← readArguments rest
            return { arguments with switches := switches ++ arguments.switches }
        | _ => do
            let arguments ← readArguments rest
            return { arguments with operands := argument :: arguments.operands }

def usageLine : String :=
  "Usage: tinyc [OPTIONS] [SOURCE]"

def helpText : String := Text.terminateLines [
  usageLine,
  "",
  "  Compile and run a Tiny-C program.",
  "",
  "  SOURCE is the program file; omit it or pass - to read standard input.",
  "",
  "  Examples:",
  "      tinyc prog.tc               # Run, print non-zero variables",
  "      tinyc --disasm prog.tc      # Show bytecode",
  "      tinyc --lines session.tc    # One program per line",
  "",
  "Options:",
  "  --lines        Treat each input line as a separate program; variables persist",
  "                 between lines",
  "  --disasm       Print the bytecode listing instead of running the program",
  "  --trace        Log each executed instruction to stderr",
  "  -v, --verbose  Verbose output",
  "  --version      Show the version and exit.",
  "  --help         Show this message and exit."
]

def versionText : String := Text.terminateLines [
  "tinyc, version 1.0.0"
]

def UsageError.lines (e : UsageError) : List String := [
  usageLine,
  "Try 'tinyc --help' for help.",
  "",
  s!"Error: {e.message}"
]

end OnePass.Command

import OnePass.Compile.Phrase

namespace OnePass

/-- The result of a compilation and its log in order. -/
structure Compilation where
  outcome : Except CompileError Program
  events : List Event

/-- The number of levels that a text may nest where nothing else is said. -/
def nestingLimit : Nat := 985

def compileProgram (bound limit : Nat) (name : String) : Emit Program :=
  Phrase.program Emitter.pass (Phrase.compileWithin bound limit .statement) name

/-- The compilation that starts with a first token and the text behind it. Every
statement and every term takes a token, so the length of the text bounds their
number. -/
def compileFrom (limit : Nat) (name : String) (first : Lexeme)
    (behind : Cursor) : Compilation :=
  match (compileProgram (behind.rest.length + 2) limit name).run
      { lookahead := first, cursor := behind } with
  | .ok program e => ⟨.ok program, e.events.reverse⟩
  | .error error e => ⟨.error error, e.events.reverse⟩

/-- Compiles from a place in a text. As long as no token can be read, there is a
place to go on. -/
def compileAt (limit : Nat) (name : String) (start : Cursor) :
    Compilation × Option Cursor :=
  match start.next with
  | (.error error, behind) => (⟨.error (.lexical error), []⟩, some behind)
  | (.ok first, behind) => (compileFrom limit name first behind, none)

namespace Source

/-- Compiles a text with a limit on the levels of nesting. -/
def compileWithin (limit : Nat) (s : Source) : Compilation :=
  (compileAt limit s.name s.start).1

def compile (s : Source) : Compilation :=
  s.compileWithin nestingLimit

end Source

/-- A text to be compiled, and where reading starts; nowhere once a token has
been read. -/
structure Compiler where
  source : Source
  start : Option Cursor

namespace Compiler

def new (source : Source) : Compiler :=
  ⟨source, some source.start⟩

/-- A compiler was used that is spent. -/
structure Spent where

def Spent.message (_ : Spent) : String :=
  "Compiler instances are single use"

def compile (c : Compiler) : Except Spent Compilation × Compiler :=
  match c.start with
  | none => (.error ⟨⟩, c)
  | some start =>
      let (compilation, next) := compileAt nestingLimit c.source.name start
      (.ok compilation, { c with start := next })

end Compiler

end OnePass

import OnePass.Compile.Emitter

/-!
The phrases of the language and their compilation in one pass.

statement ::= "if" parenthesized statement [ "else" statement ] | "while"
parenthesized statement | "do" statement "while" parenthesized ";" | "{" {
statement } "}" | expression ";" | ";" parenthesized ::= "(" expression ")"
expression ::= test | variable "=" expression test ::= sum [ "<" sum ] sum ::=
term { ( "+" | "-" ) term } term ::= variable | number | parenthesized

A phrase is recognised from its first token and its code is appended as it is
read; no tree is built. The code of the statements, with `L` for the offset
where a jump leads:

if (c) s c JZ L1 s L1: if (c) s1 else s2 c JZ L1 s1 JMP L2 L1: s2 L2: while (c)
s L0: c JZ L1 s JMP L0 L1: do s while (c); L0: s c JNZ L0 e; e POP

A phrase is compiled in terms of the phrases it is made of. Every step from a
phrase to a part of it goes one level deeper, and the depth is limited.
-/

namespace OnePass

/-- The parts of the grammar that are compiled on their own. The tail of a test
or of a sum is what may follow its first sum or term. -/
inductive Phrase where
  | statement
  | ifStatement
  | whileStatement
  | doStatement
  | block
  | parenthesized
  | expression
  | test
  | testTail
  | sum
  | sumTail
  | term
deriving DecidableEq

namespace Phrase

variable {m : Type → Type} [Monad m] (pass : Pass m)

/-- Statements up to a closing brace, at most `count` of them. -/
@[specialize] def statementsWithin (statement : m Unit) : Nat → m Unit
  | 0 => pass.overrun
  | count + 1 => do
      match ← pass.look with
      | .rightBrace => pure ()
      | .endOfInput => pass.refuse (.token .rightBrace)
      | _ =>
          statement
          statementsWithin statement count

/-- Further terms of a sum, at most `count` of them. -/
@[specialize] def termsWithin (term : m Unit) : Nat → m Unit
  | 0 => pass.overrun
  | count + 1 => do
      match ← pass.look with
      | .plus =>
          pass.advance
          term
          pass.emit .add
          termsWithin term count
      | .minus =>
          pass.advance
          term
          pass.emit .sub
          termsWithin term count
      | _ => pure ()

/-- The compilation of a phrase, given that of its parts. A list of statements
or terms has no more members than `bound`. -/
@[specialize] def body (bound : Nat) (compile : Phrase → m Unit) :
    Phrase → m Unit
  | .statement => do
      match ← pass.look with
      | .ifWord => compile .ifStatement
      | .whileWord => compile .whileStatement
      | .doWord => compile .doStatement
      | .leftBrace => compile .block
      | .semicolon => pass.advance
      | _ =>
          compile .expression
          pass.expect .semicolon
          pass.emit .pop
  | .ifStatement => do
      pass.advance
      compile .parenthesized
      let skipThen ← pass.jumpForward .jz
      compile .statement
      -- The innermost statement sees the keyword first, so it belongs to the
      -- nearest condition.
      if (← pass.look) = .elseWord then
        pass.advance
        let skipElse ← pass.jumpForward .jmp
        pass.land skipThen
        compile .statement
        pass.land skipElse
      else
        pass.land skipThen
  | .whileStatement => do
      pass.advance
      let top ← pass.here
      compile .parenthesized
      let exit ← pass.jumpForward .jz
      compile .statement
      pass.jumpBack .jmp top
      pass.land exit
  | .doStatement => do
      pass.advance
      let top ← pass.here
      compile .statement
      if (← pass.look) = .whileWord then pass.advance
        else pass.refuse .loopCondition
      compile .parenthesized
      pass.expect .semicolon
      pass.jumpBack .jnz top
  | .block => do
      pass.advance
      statementsWithin pass (compile .statement) bound
      pass.expect .rightBrace
  | .parenthesized => do
      pass.expect .leftParen
      compile .expression
      pass.expect .rightParen
  | .expression => do
      match ← pass.look with
      | .variable v =>
          pass.advance
          if (← pass.look) = .assign then
            pass.advance
            compile .expression
            pass.emitWith .store v.val
          else
            pass.emitWith .fetch v.val
            compile .sumTail
            compile .testTail
      | _ => compile .test
  | .test => do
      compile .sum
      compile .testTail
  | .testTail => do
      if (← pass.look) = .less then
        pass.advance
        compile .sum
        pass.emit .lt
  | .sum => do
      compile .term
      compile .sumTail
  | .sumTail => termsWithin pass (compile .term) bound
  | .term => do
      match ← pass.look with
      | .variable v =>
          pass.advance
          pass.emitWith .fetch v.val
      | .number n =>
          pass.advance
          pass.emitWith .push n
      | .leftParen => compile .parenthesized
      | _ => pass.refuse .operand

/-- A whole program of the given name: its only statement is followed by nothing
but a halt. -/
@[specialize] def program (statement : m Unit) (name : String) : m Program := do
  statement
  if (← pass.look) = .endOfInput then
    pass.perform do
      Emitter.emit .halt
      let program ← Emitter.onCode (Builder.build name)
      modify fun e =>
        { e with events := .compiled name program.size :: e.events }
      return program
  else
    pass.refuse .endOfInput

/-- The compilation of a phrase that nests at most `depth` levels deep, itself
included. -/
def compileWithin (bound : Nat) : Nat → Phrase → Emit Unit
  | 0, _ => Emitter.tooDeep
  | depth + 1, phrase =>
      phrase.body Emitter.pass bound (compileWithin bound depth)

end Phrase

end OnePass

import OnePass.Compile.Phrase
import OnePass.Tree.Basic

namespace OnePass.Tree

/-- Why a tree cannot be read. -/
inductive Obstacle where
  | unexpected (expected : Expectation)
  /-- The list of tokens ends although one more is needed. -/
  | missing
  | tooDeep
deriving DecidableEq

/-- A part of the reading of a tree, from the tokens that are left, the
lookahead first. -/
abbrev Read := EStateM Obstacle (List Token)

namespace Read

def look : Read Token := do
  return (← get).headD .endOfInput

def advance : Read Unit := do
  match ← get with
  | _ :: next :: later => set (next :: later)
  | _ => throw .missing

def refuse {α : Type} (expected : Expectation) : Read α :=
  throw (.unexpected expected)

def expect (t : Token) : Read Unit := do
  if (← look) = t then advance else refuse (.token t)

def tooDeep {α : Type} : Read α :=
  throw .tooDeep

/-- Further terms of a sum, at most `count` of them. -/
def termsWithin (term : Read Term) : Nat → Sum → Read Sum
  | 0, left => pure left
  | count + 1, left => do
      match ← look with
      | .plus =>
          advance
          let right ← term
          termsWithin term count (.add left right)
      | .minus =>
          advance
          let right ← term
          termsWithin term count (.sub left right)
      | _ => pure left

/-- Statements up to a closing brace, at most `count` of them. -/
def statementsWithin (statement : Read Statement) : Nat → Read Block
  | 0 => pure .nil
  | count + 1 => do
      match ← look with
      | .rightBrace => pure .nil
      | .endOfInput => refuse (.token .rightBrace)
      | _ =>
          let first ← statement
          let rest ← statementsWithin statement count
          return .cons first rest

mutual

def term (bound : Nat) : Nat → Read Term
  | 0 => tooDeep
  | depth + 1 => do
      match ← look with
      | .variable v =>
          advance
          return .variable v
      | .number n =>
          advance
          return .number n
      | .leftParen => return .group (← parenthesized bound depth)
      | _ => refuse .operand

/-- A sum whose first terms are read already. -/
def sumTail (bound : Nat) : Nat → Sum → Read Sum
  | 0, _ => tooDeep
  | depth + 1, left => termsWithin (term bound depth) bound left

def sum (bound : Nat) : Nat → Read Sum
  | 0 => tooDeep
  | depth + 1 => do
      let first ← term bound depth
      sumTail bound depth (.term first)

/-- A test whose first sum is read already. -/
def testTail (bound : Nat) : Nat → Sum → Read Test
  | 0, _ => tooDeep
  | depth + 1, left => do
      if (← look) = .less then
        advance
        return .less left (← sum bound depth)
      else
        return .sum left

def test (bound : Nat) : Nat → Read Test
  | 0 => tooDeep
  | depth + 1 => do
      let left ← sum bound depth
      testTail bound depth left

def expression (bound : Nat) : Nat → Read Expression
  | 0 => tooDeep
  | depth + 1 => do
      match ← look with
      | .variable v =>
          advance
          if (← look) = .assign then
            advance
            return .assign v (← expression bound depth)
          else
            let left ← sumTail bound depth (.term (.variable v))
            return .test (← testTail bound depth left)
      | _ => return .test (← test bound depth)

def parenthesized (bound : Nat) : Nat → Read Expression
  | 0 => tooDeep
  | depth + 1 => do
      expect .leftParen
      let e ← expression bound depth
      expect .rightParen
      return e

end

mutual

def statement (bound : Nat) : Nat → Read Statement
  | 0 => tooDeep
  | depth + 1 => do
      match ← look with
      | .ifWord => ifStatement bound depth
      | .whileWord => whileStatement bound depth
      | .doWord => doStatement bound depth
      | .leftBrace => block bound depth
      | .semicolon =>
          advance
          return .empty
      | _ =>
          let e ← expression bound depth
          expect .semicolon
          return .expression e

def ifStatement (bound : Nat) : Nat → Read Statement
  | 0 => tooDeep
  | depth + 1 => do
      advance
      let condition ← parenthesized bound depth
      let first ← statement bound depth
      if (← look) = .elseWord then
        advance
        return .ifElse condition first (← statement bound depth)
      else
        return .ifThen condition first

def whileStatement (bound : Nat) : Nat → Read Statement
  | 0 => tooDeep
  | depth + 1 => do
      advance
      let condition ← parenthesized bound depth
      return .whileDo condition (← statement bound depth)

def doStatement (bound : Nat) : Nat → Read Statement
  | 0 => tooDeep
  | depth + 1 => do
      advance
      let body ← statement bound depth
      if (← look) = .whileWord then advance else refuse .loopCondition
      let condition ← parenthesized bound depth
      expect .semicolon
      return .doWhile body condition

def block (bound : Nat) : Nat → Read Statement
  | 0 => tooDeep
  | depth + 1 => do
      advance
      let statements ← statementsWithin (statement bound depth) bound
      expect .rightBrace
      return .block statements

end

/-- One statement and nothing behind it. -/
def program (bound depth : Nat) : Read Statement := do
  let s ← statement bound depth
  if (← look) = .endOfInput then return s else refuse .endOfInput

end Read

end OnePass.Tree

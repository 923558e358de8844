import OnePass.Token

namespace OnePass.Tree

mutual

inductive Term where
  | variable (v : Variable)
  | number (n : Nat)
  | group (e : Expression)

inductive Sum where
  | term (t : Term)
  | add (left : Sum) (right : Term)
  | sub (left : Sum) (right : Term)

inductive Test where
  | sum (s : Sum)
  | less (left right : Sum)

inductive Expression where
  | test (t : Test)
  | assign (v : Variable) (e : Expression)

end

mutual

inductive Statement where
  | ifThen (condition : Expression) (body : Statement)
  | ifElse (condition : Expression) (first second : Statement)
  | whileDo (condition : Expression) (body : Statement)
  | doWhile (body : Statement) (condition : Expression)
  | block (statements : Block)
  | expression (e : Expression)
  | empty

/-- The statements between two braces. -/
inductive Block where
  | nil
  | cons (first : Statement) (rest : Block)

end

mutual

def Term.tokens : Term → List Token
  | .variable v => [.variable v]
  | .number n => [.number n]
  | .group e => .leftParen :: e.tokens ++ [.rightParen]

def Sum.tokens : Sum → List Token
  | .term t => t.tokens
  | .add left right => left.tokens ++ .plus :: right.tokens
  | .sub left right => left.tokens ++ .minus :: right.tokens

def Test.tokens : Test → List Token
  | .sum s => s.tokens
  | .less left right => left.tokens ++ .less :: right.tokens

def Expression.tokens : Expression → List Token
  | .test t => t.tokens
  | .assign v e => .variable v :: .assign :: e.tokens

end

/-- The tokens of an expression between parentheses. -/
def Expression.parenthesized (e : Expression) : List Token :=
  .leftParen :: e.tokens ++ [.rightParen]

mutual

def Statement.tokens : Statement → List Token
  | .ifThen c s => .ifWord :: c.parenthesized ++ s.tokens
  | .ifElse c s t =>
      .ifWord :: c.parenthesized ++ s.tokens ++ .elseWord :: t.tokens
  | .whileDo c s => .whileWord :: c.parenthesized ++ s.tokens
  | .doWhile s c =>
      .doWord :: s.tokens ++ .whileWord :: c.parenthesized ++ [.semicolon]
  | .block b => .leftBrace :: b.tokens ++ [.rightBrace]
  | .expression e => e.tokens ++ [.semicolon]
  | .empty => [.semicolon]

def Block.tokens : Block → List Token
  | .nil => []
  | .cons s rest => s.tokens ++ rest.tokens

end

/-- Whether an `else` behind a statement could belong to a condition inside it.
-/
def Statement.isOpen : Statement → Bool
  | .ifThen _ _ => true
  | .ifElse _ _ t => t.isOpen
  | .whileDo _ s => s.isOpen
  | .doWhile _ _ => false
  | .block _ => false
  | .expression _ => false
  | .empty => false

mutual

/-- Every `else` belongs to the nearest condition without one. -/
def Statement.ElseNearest : Statement → Prop
  | .ifThen _ s => s.ElseNearest
  | .ifElse _ s t => s.isOpen = false ∧ s.ElseNearest ∧ t.ElseNearest
  | .whileDo _ s => s.ElseNearest
  | .doWhile s _ => s.ElseNearest
  | .block b => b.ElseNearest
  | .expression _ => True
  | .empty => True

def Block.ElseNearest : Block → Prop
  | .nil => True
  | .cons s rest => s.ElseNearest ∧ rest.ElseNearest

end

end OnePass.Tree

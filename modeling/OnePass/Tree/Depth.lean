import OnePass.Tree.Basic

namespace OnePass.Tree

/-- The first term of a sum. -/
def Sum.head : Sum → Term
  | .term t => t
  | .add left _ => left.head
  | .sub left _ => left.head

mutual

def Term.depth : Term → Nat
  | .variable _ => 1
  | .number _ => 1
  | .group e => 2 + e.depth

/-- The depth of the first term of a sum. -/
def Sum.headDepth : Sum → Nat
  | .term t => t.depth
  | .add left _ => left.headDepth
  | .sub left _ => left.headDepth

/-- The greatest depth of the further terms of a sum, zero if there are none. -/
def Sum.tailDepth : Sum → Nat
  | .term _ => 0
  | .add left right => max left.tailDepth right.depth
  | .sub left right => max left.tailDepth right.depth

/-- The depth of a test as an expression. -/
def Test.depth : Test → Nat
  | .sum s =>
      match s.head with
      | .variable _ => 2 + s.tailDepth
      | _ => 2 + max (1 + max s.headDepth (1 + s.tailDepth)) 1
  | .less left right =>
      match left.head with
      | .variable _ =>
          2 + max left.tailDepth (1 + max right.headDepth (1 + right.tailDepth))
      | _ =>
          2 + max (1 + max left.headDepth (1 + left.tailDepth))
            (2 + max right.headDepth (1 + right.tailDepth))

def Expression.depth : Expression → Nat
  | .test t => t.depth
  | .assign _ e => 1 + e.depth

end

/-- The depth of a sum. -/
def Sum.depth (s : Sum) : Nat :=
  1 + max s.headDepth (1 + s.tailDepth)

mutual

def Statement.depth : Statement → Nat
  | .ifThen c s => 2 + max (1 + c.depth) s.depth
  | .ifElse c s t => 2 + max (1 + c.depth) (max s.depth t.depth)
  | .whileDo c s => 2 + max (1 + c.depth) s.depth
  | .doWhile s c => 2 + max s.depth (1 + c.depth)
  | .block b => 2 + b.depth
  | .expression e => 1 + e.depth
  | .empty => 1

/-- The greatest depth of the statements of a block, zero if there are none. -/
def Block.depth : Block → Nat
  | .nil => 0
  | .cons s rest => max s.depth rest.depth

end

end OnePass.Tree

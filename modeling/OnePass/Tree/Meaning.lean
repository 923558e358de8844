import OnePass.Tree.Basic

/-!
The meaning of programs, by their trees. An expression has a value and may
assign to variables on the way; operands are evaluated from left to right. A
statement takes a table of variables to another one, or to none if it does not
end.

Results of arithmetic are passed through `round`: with `Word.wrap` the meaning
is that of the machine, with the identity it is that over all integers.
-/

namespace OnePass.Tree

mutual

def Term.eval (round : Int → Int) : Term → Table → Int × Table
  | .variable v, table => (table.value v, table)
  | .number n, table => (round n, table)
  | .group e, table => e.eval round table

def Sum.eval (round : Int → Int) : Sum → Table → Int × Table
  | .term t, table => t.eval round table
  | .add left right, table =>
      let (m, table) := left.eval round table
      let (n, table) := right.eval round table
      (round (m + n), table)
  | .sub left right, table =>
      let (m, table) := left.eval round table
      let (n, table) := right.eval round table
      (round (m - n), table)

def Test.eval (round : Int → Int) : Test → Table → Int × Table
  | .sum s, table => s.eval round table
  | .less left right, table =>
      let (m, table) := left.eval round table
      let (n, table) := right.eval round table
      (if m < n then 1 else 0, table)

def Expression.eval (round : Int → Int) : Expression → Table → Int × Table
  | .test t, table => t.eval round table
  | .assign v e, table =>
      let (n, table) := e.eval round table
      (n, table.assign v n)

end

mutual

/-- A statement ends and takes one table to another. -/
inductive Statement.Runs (round : Int → Int) :
    Statement → Table → Table → Prop where
  | ifThenTaken {c : Expression} {s : Statement} {v w : Table}
      (condition : (c.eval round v).1 ≠ 0)
      (body : Statement.Runs round s (c.eval round v).2 w) :
      Statement.Runs round (.ifThen c s) v w
  | ifThenSkipped {c : Expression} {s : Statement} {v : Table}
      (condition : (c.eval round v).1 = 0) :
      Statement.Runs round (.ifThen c s) v (c.eval round v).2
  | ifElseFirst {c : Expression} {s t : Statement} {v w : Table}
      (condition : (c.eval round v).1 ≠ 0)
      (body : Statement.Runs round s (c.eval round v).2 w) :
      Statement.Runs round (.ifElse c s t) v w
  | ifElseSecond {c : Expression} {s t : Statement} {v w : Table}
      (condition : (c.eval round v).1 = 0)
      (body : Statement.Runs round t (c.eval round v).2 w) :
      Statement.Runs round (.ifElse c s t) v w
  | whileAgain {c : Expression} {s : Statement} {v u w : Table}
      (condition : (c.eval round v).1 ≠ 0)
      (body : Statement.Runs round s (c.eval round v).2 u)
      (again : Statement.Runs round (.whileDo c s) u w) :
      Statement.Runs round (.whileDo c s) v w
  | whileDone {c : Expression} {s : Statement} {v : Table}
      (condition : (c.eval round v).1 = 0) :
      Statement.Runs round (.whileDo c s) v (c.eval round v).2
  | doAgain {c : Expression} {s : Statement} {v u w : Table}
      (body : Statement.Runs round s v u) (condition : (c.eval round u).1 ≠ 0)
      (again : Statement.Runs round (.doWhile s c) (c.eval round u).2 w) :
      Statement.Runs round (.doWhile s c) v w
  | doDone {c : Expression} {s : Statement} {v u : Table}
      (body : Statement.Runs round s v u) (condition : (c.eval round u).1 = 0) :
      Statement.Runs round (.doWhile s c) v (c.eval round u).2
  | block {b : Block} {v w : Table} (statements : Block.Runs round b v w) :
      Statement.Runs round (.block b) v w
  | expression {e : Expression} {v : Table} :
      Statement.Runs round (.expression e) v (e.eval round v).2
  | empty {v : Table} : Statement.Runs round .empty v v

/-- The statements of a block end one after the other. -/
inductive Block.Runs (round : Int → Int) : Block → Table → Table → Prop where
  | nil {v : Table} : Block.Runs round .nil v v
  | cons {s : Statement} {rest : Block} {v u w : Table}
      (first : Statement.Runs round s v u)
      (others : Block.Runs round rest u w) :
      Block.Runs round (.cons s rest) v w

end

end OnePass.Tree

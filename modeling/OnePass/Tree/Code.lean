import OnePass.Opcode
import OnePass.Tree.Basic

namespace OnePass.Tree

mutual

def Term.code : Term → List Int
  | .variable v => [Opcode.fetch.word, v.val]
  | .number n => [Opcode.push.word, Word.wrap n]
  | .group e => e.code

def Sum.code : Sum → List Int
  | .term t => t.code
  | .add left right => left.code ++ right.code ++ [Opcode.add.word]
  | .sub left right => left.code ++ right.code ++ [Opcode.sub.word]

def Test.code : Test → List Int
  | .sum s => s.code
  | .less left right => left.code ++ right.code ++ [Opcode.lt.word]

def Expression.code : Expression → List Int
  | .test t => t.code
  | .assign v e => e.code ++ [Opcode.store.word, v.val]

end

mutual

/-- The code of a statement that starts at offset `base`. -/
def Statement.code : Statement → Nat → List Int
  | .ifThen c s, base =>
      let start := base + c.code.length + 2
      let body := s.code start
      c.code ++ [Opcode.jz.word, ↑(start + body.length)] ++ body
  | .ifElse c s t, base =>
      let firstStart := base + c.code.length + 2
      let first := s.code firstStart
      let secondStart := firstStart + first.length + 2
      let second := t.code secondStart
      c.code ++ [Opcode.jz.word, ↑secondStart] ++ first ++
        [Opcode.jmp.word, ↑(secondStart + second.length)] ++ second
  | .whileDo c s, base =>
      let start := base + c.code.length + 2
      let body := s.code start
      c.code ++ [Opcode.jz.word,
        ↑(start + body.length + 2)] ++ body ++ [Opcode.jmp.word, ↑base]
  | .doWhile s c, base => s.code base ++ c.code ++ [Opcode.jnz.word, ↑base]
  | .block b, base => b.code base
  | .expression e, _ => e.code ++ [Opcode.pop.word]
  | .empty, _ => []

def Block.code : Block → Nat → List Int
  | .nil, _ => []
  | .cons s rest, base =>
      let first := s.code base
      first ++ rest.code (base + first.length)

end

/-- The code of a whole program. -/
def Statement.program (s : Statement) : List Int :=
  s.code 0 ++ [Opcode.halt.word]

end OnePass.Tree

import OnePass.Proofs.InstructionCode
import OnePass.Tree.Code

namespace OnePass

namespace Tree

open Instruction (encode words opcode operand)

mutual

def Term.instructions : Term → List Instruction
  | .variable v => [.fetch v]
  | .number n => [.push (Word.wrap n)]
  | .group e => e.instructions

def Sum.instructions : Sum → List Instruction
  | .term t => t.instructions
  | .add left right => left.instructions ++ right.instructions ++ [.add]
  | .sub left right => left.instructions ++ right.instructions ++ [.sub]

def Test.instructions : Test → List Instruction
  | .sum s => s.instructions
  | .less left right => left.instructions ++ right.instructions ++ [.lt]

def Expression.instructions : Expression → List Instruction
  | .test t => t.instructions
  | .assign v e => e.instructions ++ [.store v]

end

mutual

def Statement.instructions : Statement → Nat → List Instruction
  | .ifThen c s, base =>
      let start := base + (encode c.instructions).length + 2
      let body := s.instructions start
      c.instructions ++ [.jz (start + (encode body).length)] ++ body
  | .ifElse c s t, base =>
      let firstStart := base + (encode c.instructions).length + 2
      let first := s.instructions firstStart
      let secondStart := firstStart + (encode first).length + 2
      let second := t.instructions secondStart
      c.instructions ++ [.jz secondStart] ++ first ++
        [.jmp (secondStart + (encode second).length)] ++ second
  | .whileDo c s, base =>
      let start := base + (encode c.instructions).length + 2
      let body := s.instructions start
      c.instructions ++ [.jz
        (start + (encode body).length + 2)] ++ body ++ [.jmp base]
  | .doWhile s c, base => s.instructions base ++ c.instructions ++ [.jnz base]
  | .block b, base => b.instructions base
  | .expression e, _ => e.instructions ++ [.pop]
  | .empty, _ => []

def Block.instructions : Block → Nat → List Instruction
  | .nil, _ => []
  | .cons s rest, base =>
      let first := s.instructions base
      first ++ rest.instructions (base + (encode first).length)

end

mutual

theorem Term.code_eq_encode : ∀ t : Term, t.code = encode t.instructions
  | .variable v => rfl
  | .number n => by simp [Term.code, Term.instructions, words, opcode, operand]
  | .group e => by rw [Term.code, Term.instructions, e.code_eq_encode]

theorem Sum.code_eq_encode : ∀ s : Sum, s.code = encode s.instructions
  | .term t => by rw [Sum.code, Sum.instructions, t.code_eq_encode]
  | .add left right => by
      simp [Sum.code, Sum.instructions, left.code_eq_encode,
        right.code_eq_encode, words, opcode, operand]
  | .sub left right => by
      simp [Sum.code, Sum.instructions, left.code_eq_encode,
        right.code_eq_encode, words, opcode, operand]

theorem Test.code_eq_encode : ∀ t : Test, t.code = encode t.instructions
  | .sum s => by rw [Test.code, Test.instructions, s.code_eq_encode]
  | .less left right => by
      simp [Test.code, Test.instructions, left.code_eq_encode,
        right.code_eq_encode, words, opcode, operand]

theorem Expression.code_eq_encode :
    ∀ e : Expression, e.code = encode e.instructions
  | .test t => by
      rw [Expression.code, Expression.instructions, t.code_eq_encode]
  | .assign v e => by
      simp [Expression.code, Expression.instructions, e.code_eq_encode, words,
        opcode, operand]

end

mutual

theorem Statement.code_eq_encode : ∀ (s : Statement) (base : Nat),
    s.code base = encode (s.instructions base)
  | .ifThen c s, base => by
      simp [Statement.code, Statement.instructions, c.code_eq_encode,
        s.code_eq_encode, words, opcode, operand]
  | .ifElse c s t, base => by
      simp [Statement.code, Statement.instructions, c.code_eq_encode,
        s.code_eq_encode, t.code_eq_encode, words, opcode, operand]
  | .whileDo c s, base => by
      simp [Statement.code, Statement.instructions, c.code_eq_encode,
        s.code_eq_encode, words, opcode, operand]
  | .doWhile s c, base => by
      simp [Statement.code, Statement.instructions, c.code_eq_encode,
        s.code_eq_encode, words, opcode, operand]
  | .block b, base => by
      rw [Statement.code, Statement.instructions, b.code_eq_encode]
  | .expression e, base => by
      simp [Statement.code, Statement.instructions, e.code_eq_encode, words,
        opcode, operand]
  | .empty, base => by simp [Statement.code, Statement.instructions]

theorem Block.code_eq_encode :
    ∀ (b : Block) (base : Nat), b.code base = encode (b.instructions base)
  | .nil, base => by simp [Block.code, Block.instructions]
  | .cons s rest, base => by
      simp [Block.code, Block.instructions, s.code_eq_encode,
        rest.code_eq_encode]

end

end Tree

end OnePass

import OnePass.Tree.Depth

namespace OnePass

/-- The tokens that a reader takes as a part of the expression before them. -/
def Token.extendsExpression : Token → Bool
  | .plus | .minus | .less | .assign => true
  | _ => false

/-- The tokens that an expression starts with. -/
def Token.startsExpression : Token → Bool
  | .variable _ | .number _ | .leftParen => true
  | _ => false

/-- The tokens that a statement starts with. -/
def Token.startsStatement : Token → Bool
  | .ifWord | .whileWord | .doWord | .leftBrace | .semicolon => true
  | t => t.startsExpression

theorem Token.startsStatement_of_startsExpression {t : Token}
    (h : t.startsExpression = true) :
    t.startsStatement = true := by
  cases t <;> simp_all [startsStatement, startsExpression]

namespace Tree

theorem Term.exists_tokens (x : Term) :
    ∃ first later, x.tokens = first :: later ∧
      first.startsExpression = true := by
  rcases x with v | n | e
  · exact ⟨.variable v, [], by simp [tokens], rfl⟩
  · exact ⟨.number n, [], by simp [tokens], rfl⟩
  · exact ⟨.leftParen, e.tokens ++ [.rightParen], by simp [tokens], rfl⟩

namespace Sum

/-- The tokens behind the first term of a sum. -/
def tailTokens : Sum → List Token
  | .term _ => []
  | .add left right => left.tailTokens ++ .plus :: right.tokens
  | .sub left right => left.tailTokens ++ .minus :: right.tokens

theorem tokens_eq_head_append (s : Sum) :
    s.tokens = s.head.tokens ++ s.tailTokens := by
  cases s with
  | term t => simp [tokens, head, tailTokens]
  | add left right =>
      simp [tokens, head, tailTokens, tokens_eq_head_append left]
  | sub left right =>
      simp [tokens, head, tailTokens, tokens_eq_head_append left]

/-- Behind its first term a sum goes on with a sign of its own, if it goes on.
-/
theorem headD_tailTokens_append : ∀ (s : Sum) {rest : List Token},
    (s.tailTokens ++ rest).headD .endOfInput = .assign →
    rest.headD .endOfInput = .assign
  | .term _, _, h => h
  | .add left right, rest, h => by
      rw [tailTokens, List.append_assoc] at h
      simpa using headD_tailTokens_append left h
  | .sub left right, rest, h => by
      rw [tailTokens, List.append_assoc] at h
      simpa using headD_tailTokens_append left h

theorem headDepth_eq (s : Sum) : s.headDepth = s.head.depth := by
  cases s with
  | term t => simp [headDepth, head]
  | add left _ => simpa [headDepth, head] using headDepth_eq left
  | sub left _ => simpa [headDepth, head] using headDepth_eq left

/-- A sum that goes on where another one ends: with `used` as its further
tokens, and with no further term deeper than `depth`. -/
structure Extends (left s : Sum) (used : List Token) (depth : Nat) : Prop where
  tokens : s.tokens = left.tokens ++ used
  head : s.head = left.head
  tailDepth : s.tailDepth ≤ max left.tailDepth depth

theorem Extends.refl (left : Sum) (depth : Nat) : left.Extends left [] depth :=
  ⟨by simp, rfl, by omega⟩

theorem Extends.trans {left middle s : Sum} {used later : List Token}
    {depth : Nat} (h : left.Extends middle used depth)
    (h' : middle.Extends s later depth) :
    left.Extends s (used ++ later) depth := by
  refine ⟨by rw [h'.tokens, h.tokens, List.append_assoc],
    h'.head.trans h.head, ?_⟩
  have hfirst := h.tailDepth
  have hsecond := h'.tailDepth
  omega

theorem Extends.add (left : Sum) {right : Term} {depth : Nat}
    (h : right.depth ≤ depth) :
    left.Extends (.add left right) (.plus :: right.tokens) depth := by
  refine ⟨by simp [Sum.tokens], by simp [Sum.head], ?_⟩
  simp only [Sum.tailDepth]
  omega

theorem Extends.sub (left : Sum) {right : Term} {depth : Nat}
    (h : right.depth ≤ depth) :
    left.Extends (.sub left right) (.minus :: right.tokens) depth := by
  refine ⟨by simp [Sum.tokens], by simp [Sum.head], ?_⟩
  simp only [Sum.tailDepth]
  omega

end Sum

namespace Test

def left : Test → Sum
  | .sum s => s
  | .less left _ => left

/-- The tokens behind the first sum of a test. -/
def tailTokens : Test → List Token
  | .sum _ => []
  | .less _ right => .less :: right.tokens

/-- How deep a test is behind its first sum. -/
def tailDepth : Test → Nat
  | .sum _ => 1
  | .less _ right => 1 + right.depth

theorem tokens_eq_left_append (t : Test) :
    t.tokens = t.left.tokens ++ t.tailTokens := by
  cases t <;> simp [tokens, left, tailTokens]

theorem depth_of_variable {t : Test} {v : Variable}
    (hhead : t.left.head = .variable v) :
    t.depth = 1 + max (1 + t.left.tailDepth) t.tailDepth := by
  cases t with
  | sum s =>
      simp only [left] at hhead
      simp only [depth, hhead, left, tailDepth]
      omega
  | less l right =>
      simp only [left] at hhead
      simp only [depth, hhead, left, tailDepth, Sum.depth]
      omega

theorem depth_of_ne_variable {t : Test}
    (hhead : ∀ v, t.left.head ≠ .variable v) :
    t.depth = 2 + max t.left.depth t.tailDepth := by
  cases t with
  | sum s =>
      rw [depth]
      split
      · rename_i v hv
        exact absurd hv (hhead v)
      · simp only [left, tailDepth, Sum.depth]
  | less l right =>
      rw [depth]
      split
      · rename_i v hv
        exact absurd hv (hhead v)
      · simp only [left, tailDepth, Sum.depth]
        omega

end Test

theorem Expression.exists_tokens (e : Expression) :
    ∃ first later, e.tokens = first :: later ∧
      first.startsExpression = true := by
  cases e with
  | test t =>
      obtain ⟨first, later, hhead, hfirst⟩ := t.left.head.exists_tokens
      refine ⟨first, later ++ (t.left.tailTokens ++ t.tailTokens), ?_, hfirst⟩
      rw [tokens, t.tokens_eq_left_append, t.left.tokens_eq_head_append, hhead]
      simp
  | assign v e =>
      exact ⟨.variable v, .assign :: e.tokens, by simp [tokens], rfl⟩

theorem Statement.exists_tokens (s : Statement) :
    ∃ first later, s.tokens = first :: later ∧
      first.startsStatement = true := by
  cases s with
  | ifThen c s =>
      exact ⟨.ifWord, c.parenthesized ++ s.tokens, by simp [tokens], rfl⟩
  | ifElse c s t =>
      exact ⟨.ifWord, c.parenthesized ++ (s.tokens ++ .elseWord ::
        t.tokens), by simp [tokens], rfl⟩
  | whileDo c s =>
      exact ⟨.whileWord, c.parenthesized ++ s.tokens, by simp [tokens], rfl⟩
  | doWhile s c =>
      exact ⟨.doWord, s.tokens ++ (.whileWord ::
        (c.parenthesized ++ [.semicolon])), by simp [tokens], rfl⟩
  | block b =>
      exact ⟨.leftBrace, b.tokens ++ [.rightBrace], by simp [tokens], rfl⟩
  | expression e =>
      obtain ⟨first, later, he, hfirst⟩ := e.exists_tokens
      exact ⟨first, later ++ [.semicolon], by simp [tokens, he],
        Token.startsStatement_of_startsExpression hfirst⟩
  | empty => exact ⟨.semicolon, [], by simp [tokens], rfl⟩

end Tree

end OnePass

import OnePass.Compile.Compiler
import OnePass.Proofs.TreeReader

namespace OnePass

namespace Emitter

/-- Wherever `x` does not find the text too deep, `y` does the same. -/
def ExtendsTo {α : Type} (x y : Emit α) : Prop :=
  ∀ e : Emitter, x e = y e ∨ ∃ found e', x e = .error (.tooDeep found) e'

namespace ExtendsTo

variable {α β : Type}

theorem refl (x : Emit α) : ExtendsTo x x :=
  fun _ => .inl rfl

theorem tooDeep (y : Emit α) : ExtendsTo tooDeep y :=
  fun e => .inr ⟨e.lookahead, e, rfl⟩

theorem bind {x y : Emit α} {f g : α → Emit β} (hx : ExtendsTo x y)
    (hf : ∀ a, ExtendsTo (f a) (g a)) : ExtendsTo (x >>= f) (y >>= g) := by
  intro e
  change EStateM.bind x f e = EStateM.bind y g e ∨
    ∃ found e', EStateM.bind x f e = _
  unfold EStateM.bind
  rcases hx e with hsame | ⟨found, e', hdeep⟩
  · rw [← hsame]
    cases x e with
    | ok a e' => exact hf a e'
    | error error e' => exact .inl rfl
  · rw [hdeep]
    exact .inr ⟨found, e', rfl⟩

theorem after {f g : α → Emit β} (x : Emit α)
    (hf : ∀ a, ExtendsTo (f a) (g a)) :
    ExtendsTo (x >>= f) (x >>= g) :=
  bind (refl x) hf

theorem ite {p : Prop} [Decidable p] {x y x' y' : Emit α} (hx : ExtendsTo x y)
    (hx' : ExtendsTo x' y') :
    ExtendsTo (if p then x else x') (if p then y else y') := by
  split
  · exact hx
  · exact hx'

end ExtendsTo

end Emitter

namespace Phrase

open Emitter

theorem statementsWithin_extendsTo {x y : Emit Unit} (h : ExtendsTo x y)
    (count : Nat) :
    ExtendsTo (statementsWithin pass x count)
      (statementsWithin pass y count) := by
  induction count with
  | zero => exact .refl _
  | succ count ih =>
      apply ExtendsTo.after
      intro t
      cases t
      case rightBrace => exact .refl _
      case endOfInput => exact .refl _
      all_goals
        apply ExtendsTo.bind h
        intro _
        exact ih

theorem termsWithin_extendsTo {x y : Emit Unit} (h : ExtendsTo x y)
    (count : Nat) :
    ExtendsTo (termsWithin pass x count) (termsWithin pass y count) := by
  induction count with
  | zero => exact .refl _
  | succ count ih =>
      have hround : ∀ op, ExtendsTo
          (do Emitter.advance; x; Emitter.emit op; termsWithin pass x count)
          (do Emitter.advance; y; Emitter.emit op; termsWithin pass y count) := by
        intro op
        apply ExtendsTo.after
        intro _
        apply ExtendsTo.bind h
        intro _
        apply ExtendsTo.after
        intro _
        exact ih
      apply ExtendsTo.after
      intro t
      cases t
      case plus => exact hround .add
      case minus => exact hround .sub
      all_goals exact .refl _

section Body

variable {compile compile' : Phrase → Emit Unit} (bound : Nat)
  (h : ∀ phrase, ExtendsTo (compile phrase) (compile' phrase))
include h

theorem statement_extendsTo :
    ExtendsTo (body pass bound compile .statement)
      (body pass bound compile' .statement) := by
  apply ExtendsTo.after
  intro t
  cases t
  case ifWord => exact h .ifStatement
  case whileWord => exact h .whileStatement
  case doWord => exact h .doStatement
  case leftBrace => exact h .block
  case semicolon => exact .refl _
  all_goals
    apply ExtendsTo.bind (h .expression)
    intro _
    exact .refl _

theorem ifStatement_extendsTo :
    ExtendsTo (body pass bound compile .ifStatement)
      (body pass bound compile' .ifStatement) := by
  apply ExtendsTo.after
  intro _
  apply ExtendsTo.bind (h .parenthesized)
  intro _
  apply ExtendsTo.after
  intro skipThen
  apply ExtendsTo.bind (h .statement)
  intro _
  apply ExtendsTo.after
  intro t
  apply ExtendsTo.ite
  · apply ExtendsTo.after
    intro _
    apply ExtendsTo.after
    intro skipElse
    apply ExtendsTo.after
    intro _
    apply ExtendsTo.bind (h .statement)
    intro _
    exact .refl _
  · exact .refl _

theorem whileStatement_extendsTo :
    ExtendsTo (body pass bound compile .whileStatement)
      (body pass bound compile' .whileStatement) := by
  apply ExtendsTo.after
  intro _
  apply ExtendsTo.after
  intro top
  apply ExtendsTo.bind (h .parenthesized)
  intro _
  apply ExtendsTo.after
  intro exit
  apply ExtendsTo.bind (h .statement)
  intro _
  exact .refl _

theorem doStatement_extendsTo :
    ExtendsTo (body pass bound compile .doStatement)
      (body pass bound compile' .doStatement) := by
  apply ExtendsTo.after
  intro _
  apply ExtendsTo.after
  intro top
  apply ExtendsTo.bind (h .statement)
  intro _
  apply ExtendsTo.after
  intro t
  have hrest : ∀ x : Emit Unit, ExtendsTo
      (do
        x
        compile .parenthesized
        pass.expect .semicolon
        Emitter.jumpBack .jnz top)
      (do
        x
        compile' .parenthesized
        pass.expect .semicolon
        Emitter.jumpBack .jnz top) := by
    intro x
    apply ExtendsTo.after
    intro _
    apply ExtendsTo.bind (h .parenthesized)
    intro _
    exact .refl _
  apply ExtendsTo.ite
  · exact hrest _
  · exact hrest _

theorem expression_extendsTo :
    ExtendsTo (body pass bound compile .expression)
      (body pass bound compile' .expression) := by
  apply ExtendsTo.after
  intro t
  cases t
  case «variable» v =>
    apply ExtendsTo.after
    intro _
    apply ExtendsTo.after
    intro next
    apply ExtendsTo.ite
    · apply ExtendsTo.after
      intro _
      apply ExtendsTo.bind (h .expression)
      intro _
      exact .refl _
    · apply ExtendsTo.after
      intro _
      apply ExtendsTo.bind (h .sumTail)
      intro _
      exact h .testTail
  all_goals exact h .test

/-- The compilation of a phrase depends on its parts in the way that its limit
does. -/
theorem body_extendsTo (phrase : Phrase) :
    ExtendsTo (body pass bound compile phrase)
      (body pass bound compile' phrase) := by
  cases phrase with
  | statement => exact statement_extendsTo bound h
  | ifStatement => exact ifStatement_extendsTo bound h
  | whileStatement => exact whileStatement_extendsTo bound h
  | doStatement => exact doStatement_extendsTo bound h
  | block =>
      apply ExtendsTo.after
      intro _
      apply ExtendsTo.bind (statementsWithin_extendsTo (h .statement) bound)
      intro _
      exact .refl _
  | parenthesized =>
      apply ExtendsTo.after
      intro _
      apply ExtendsTo.bind (h .expression)
      intro _
      exact .refl _
  | expression => exact expression_extendsTo bound h
  | test =>
      apply ExtendsTo.bind (h .sum)
      intro _
      exact h .testTail
  | testTail =>
      apply ExtendsTo.after
      intro t
      apply ExtendsTo.ite
      · apply ExtendsTo.after
        intro _
        apply ExtendsTo.bind (h .sum)
        intro _
        exact .refl _
      · exact .refl _
  | sum =>
      apply ExtendsTo.bind (h .term)
      intro _
      exact h .sumTail
  | sumTail => exact termsWithin_extendsTo (h .term) bound
  | term =>
      apply ExtendsTo.after
      intro t
      cases t
      case leftParen => exact h .parenthesized
      all_goals exact .refl _

end Body

theorem compileWithin_extendsTo (bound : Nat) {depth depth' : Nat}
    (hle : depth ≤ depth') (phrase : Phrase) :
    ExtendsTo (compileWithin bound depth phrase)
      (compileWithin bound depth' phrase) := by
  induction depth generalizing depth' phrase with
  | zero => exact .tooDeep _
  | succ depth ih =>
      obtain ⟨depth', rfl⟩ := Nat.exists_eq_add_of_lt hle
      exact body_extendsTo bound (fun part => ih (by omega) part) phrase

end Phrase

open Emitter in
theorem compileProgram_extendsTo (bound : Nat) {limit limit' : Nat}
    (hle : limit ≤ limit') (name : String) :
    ExtendsTo (compileProgram bound limit name)
      (compileProgram bound limit' name) := by
  apply ExtendsTo.bind (Phrase.compileWithin_extendsTo bound hle .statement)
  intro _
  exact .refl _

namespace Tree.Read

/-- From at most `n` tokens a reader does not go too deep, and it leaves at most
`m` of them. -/
def Settles {α : Type} (r : Read α) (n m : Nat) : Prop :=
  ∀ ts : List Token, ts.length ≤ n →
    match r ts with
    | .ok _ rest => rest.length ≤ m
    | .error obstacle _ => obstacle ≠ .tooDeep

namespace Settles

variable {α β : Type} {n m k : Nat}

theorem bind {x : Read α} {f : α → Read β} (hx : Settles x n k)
    (hf : ∀ a, Settles (f a) k m) :
    Settles (x >>= f) n m := by
  intro ts hts
  have hresult := hx ts hts
  change match EStateM.bind x f ts with | .ok _ rest => _ | .error obstacle _ => _
  unfold EStateM.bind
  cases hok : x ts with
  | ok a rest =>
      rw [hok] at hresult
      exact hf a rest hresult
  | error obstacle rest =>
      rw [hok] at hresult
      exact hresult

theorem weaken {r : Read α} (hr : Settles r n k) (h : k ≤ m) :
    Settles r n m := by
  intro ts hts
  have hresult := hr ts hts
  cases hok : r ts with
  | ok a rest =>
      rw [hok] at hresult
      exact Nat.le_trans hresult h
  | error obstacle rest =>
      rw [hok] at hresult
      exact hresult

theorem pure {a : α} (h : n ≤ m) : Settles (pure a) n m :=
  fun _ hts => Nat.le_trans hts h

theorem refuse (expected : Expectation) :
    Settles (refuse expected : Read α) n m :=
  fun _ _ => nofun

theorem refuse_bind (expected : Expectation) (f : α → Read β) :
    Settles (Read.refuse expected >>= f) n m :=
  fun _ _ => nofun

theorem look {f : Token → Read α} (h : ∀ t, Settles (f t) n m) :
    Settles (look >>= f) n m :=
  fun ts hts => h (ts.headD .endOfInput) ts hts

theorem advance_bind {f : Unit → Read α}
    (h : ∀ k, n = k + 1 → Settles (f ()) k m) :
    Settles (advance >>= f) n m := by
  intro ts hts
  match ts with
  | [] => nofun
  | [_] => nofun
  | _ :: next :: later =>
      cases n with
      | zero => simp at hts
      | succ k => exact h k rfl (next :: later) (Nat.le_of_succ_le_succ hts)

theorem expect_bind {t : Token} {f : Unit → Read α}
    (h : ∀ k, n = k + 1 → Settles (f ()) k m) :
    Settles (expect t >>= f) n m := by
  rw [expect, bind_assoc]
  apply look
  intro next
  split
  · exact advance_bind h
  · exact refuse_bind _ f

end Settles

-- In the bounds below a token is worth six levels. That is as many as lie
-- between a statement and the parenthesis that its expression may start with,
-- and the constants count the levels still to go.

theorem termsWithin_settles {term : Read Term} (count : Nat) {n : Nat}
    (hterm : ∀ k, k < n → Settles term k k) (left : Sum) :
    Settles (termsWithin term count left) n n := by
  induction count generalizing n left with
  | zero => exact .pure (Nat.le_refl n)
  | succ count ih =>
      apply Settles.look
      intro t
      have hright : ∀ combine : Term → Sum, Settles
          (do advance; let right ← term; termsWithin term count (combine right))
            n n := by
        intro combine
        apply Settles.advance_bind
        intro k hk
        apply Settles.bind (hterm k (by omega))
        intro right
        exact (ih (fun j hj => hterm j (by omega)) (combine right)).weaken
          (by omega)
      cases t
      case plus => exact hright fun right => .add left right
      case minus => exact hright fun right => .sub left right
      all_goals exact .pure (Nat.le_refl n)

mutual

theorem term_settles (bound : Nat) :
    ∀ (depth : Nat) {n : Nat}, 6 * n + 2 ≤ depth →
      Settles (term bound depth) n n
  | 0, _, h => by omega
  | depth + 1, n, h => by
      rw [term]
      apply Settles.look
      intro t
      cases t
      case «variable» v =>
        apply Settles.advance_bind
        intro k hk
        exact .pure (by omega)
      case number i =>
        apply Settles.advance_bind
        intro k hk
        exact .pure (by omega)
      case leftParen =>
        apply Settles.bind (parenthesized_settles bound depth (by omega))
        intro e
        exact .pure (Nat.le_refl n)
      all_goals exact .refuse _

theorem sumTail_settles (bound : Nat) :
    ∀ (depth : Nat) {n : Nat}, 6 * n + 1 ≤ depth →
      ∀ left, Settles (sumTail bound depth left) n n
  | 0, _, h, _ => by omega
  | depth + 1, n, h, left => by
      rw [sumTail]
      exact termsWithin_settles bound
        (fun k hk => term_settles bound depth (by omega)) left

theorem sum_settles (bound : Nat) :
    ∀ (depth : Nat) {n : Nat}, 6 * n + 3 ≤ depth →
      Settles (sum bound depth) n n
  | 0, _, h => by omega
  | depth + 1, n, h => by
      rw [sum]
      apply Settles.bind (term_settles bound depth (by omega))
      intro first
      exact sumTail_settles bound depth (by omega) (.term first)

theorem testTail_settles (bound : Nat) :
    ∀ (depth : Nat) {n : Nat}, 6 * n + 1 ≤ depth →
      ∀ left, Settles (testTail bound depth left) n n
  | 0, _, h, _ => by omega
  | depth + 1, n, h, left => by
      rw [testTail]
      apply Settles.look
      intro t
      split
      · apply Settles.advance_bind
        intro k hk
        apply Settles.bind (sum_settles bound depth (by omega))
        intro right
        exact .pure (by omega)
      · exact .pure (Nat.le_refl n)

theorem test_settles (bound : Nat) :
    ∀ (depth : Nat) {n : Nat}, 6 * n + 4 ≤ depth →
      Settles (test bound depth) n n
  | 0, _, h => by omega
  | depth + 1, n, h => by
      rw [test]
      apply Settles.bind (sum_settles bound depth (by omega))
      intro left
      exact testTail_settles bound depth (by omega) left

theorem expression_settles (bound : Nat) :
    ∀ (depth : Nat) {n : Nat}, 6 * n + 5 ≤ depth →
      Settles (expression bound depth) n n
  | 0, _, h => by omega
  | depth + 1, n, h => by
      rw [expression]
      apply Settles.look
      intro t
      cases t
      case «variable» v =>
        apply Settles.advance_bind
        intro k hk
        apply Settles.look
        intro next
        split
        · apply Settles.advance_bind
          intro j hj
          apply Settles.bind (expression_settles bound depth (by omega))
          intro e
          exact .pure (by omega)
        · apply Settles.bind (sumTail_settles bound depth (by omega) _)
          intro left
          apply Settles.bind (testTail_settles bound depth (by omega) left)
          intro x
          exact .pure (by omega)
      all_goals
        apply Settles.bind (test_settles bound depth (by omega))
        intro x
        exact .pure (Nat.le_refl n)

theorem parenthesized_settles (bound : Nat) :
    ∀ (depth : Nat) {n : Nat}, 6 * n + 1 ≤ depth →
      Settles (parenthesized bound depth) n n
  | 0, _, h => by omega
  | depth + 1, n, h => by
      rw [parenthesized]
      apply Settles.expect_bind
      intro k hk
      apply Settles.bind (expression_settles bound depth (by omega))
      intro e
      apply Settles.expect_bind
      intro j hj
      exact .pure (by omega)

end

theorem statementsWithin_settles {statement : Read Statement} {n : Nat}
    (hstatement : Settles statement n n) (count : Nat) :
    Settles (statementsWithin statement count) n n := by
  induction count with
  | zero => exact .pure (Nat.le_refl n)
  | succ count ih =>
      apply Settles.look
      intro t
      cases t
      case rightBrace => exact .pure (Nat.le_refl n)
      case endOfInput => exact .refuse _
      all_goals
        apply Settles.bind hstatement
        intro first
        apply Settles.bind ih
        intro rest
        exact .pure (Nat.le_refl n)

mutual

theorem statement_settles (bound : Nat) :
    ∀ (depth : Nat) {n : Nat}, 6 * n + 6 ≤ depth →
      Settles (statement bound depth) n n
  | 0, _, h => by omega
  | depth + 1, n, h => by
      rw [statement]
      apply Settles.look
      intro t
      cases t
      case ifWord => exact ifStatement_settles bound depth (by omega)
      case whileWord => exact whileStatement_settles bound depth (by omega)
      case doWord => exact doStatement_settles bound depth (by omega)
      case leftBrace => exact block_settles bound depth (by omega)
      case semicolon =>
        apply Settles.advance_bind
        intro k hk
        exact .pure (by omega)
      all_goals
        apply Settles.bind (expression_settles bound depth (by omega))
        intro e
        apply Settles.expect_bind
        intro k hk
        exact .pure (by omega)

theorem ifStatement_settles (bound : Nat) :
    ∀ (depth : Nat) {n : Nat}, 6 * n + 1 ≤ depth →
      Settles (ifStatement bound depth) n n
  | 0, _, h => by omega
  | depth + 1, n, h => by
      rw [ifStatement]
      apply Settles.advance_bind
      intro k hk
      apply Settles.bind (parenthesized_settles bound depth (by omega))
      intro c
      apply Settles.bind (statement_settles bound depth (by omega))
      intro first
      apply Settles.look
      intro t
      split
      · apply Settles.advance_bind
        intro j hj
        apply Settles.bind (statement_settles bound depth (by omega))
        intro second
        exact .pure (by omega)
      · exact .pure (by omega)

theorem whileStatement_settles (bound : Nat) :
    ∀ (depth : Nat) {n : Nat}, 6 * n + 1 ≤ depth →
      Settles (whileStatement bound depth) n n
  | 0, _, h => by omega
  | depth + 1, n, h => by
      rw [whileStatement]
      apply Settles.advance_bind
      intro k hk
      apply Settles.bind (parenthesized_settles bound depth (by omega))
      intro c
      apply Settles.bind (statement_settles bound depth (by omega))
      intro body
      exact .pure (by omega)

theorem doStatement_settles (bound : Nat) :
    ∀ (depth : Nat) {n : Nat}, 6 * n + 1 ≤ depth →
      Settles (doStatement bound depth) n n
  | 0, _, h => by omega
  | depth + 1, n, h => by
      rw [doStatement]
      apply Settles.advance_bind
      intro k hk
      apply Settles.bind (statement_settles bound depth (by omega))
      intro body
      apply Settles.look
      intro t
      split
      · apply Settles.advance_bind
        intro j hj
        apply Settles.bind (parenthesized_settles bound depth (by omega))
        intro c
        apply Settles.expect_bind
        intro i hi
        exact .pure (by omega)
      · exact .refuse_bind _ _

theorem block_settles (bound : Nat) :
    ∀ (depth : Nat) {n : Nat}, 6 * n + 1 ≤ depth →
      Settles (block bound depth) n n
  | 0, _, h => by omega
  | depth + 1, n, h => by
      rw [block]
      apply Settles.advance_bind
      intro k hk
      have hstatement := statement_settles bound depth (n := k) (by omega)
      apply Settles.bind (statementsWithin_settles hstatement bound)
      intro statements
      apply Settles.expect_bind
      intro j hj
      exact .pure (by omega)

end

theorem program_settles (bound : Nat) {depth n : Nat} (h : 6 * n + 6 ≤ depth) :
    Settles (program bound depth) n n := by
  rw [program]
  apply Settles.bind (statement_settles bound depth h)
  intro s
  apply Settles.look
  intro t
  split
  · exact .pure (Nat.le_refl n)
  · exact .refuse _

end Tree.Read

end OnePass

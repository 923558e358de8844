import OnePass.Proofs.ReaderSound

/-!
What a reader has taken is the start of a tree. Wherever it finds a token that
it does not expect, any token that it does expect would have gone on with some
tree; and where the tokens end too soon, all of them start a tree. So reading
never goes past the place where the tokens cannot be completed.
-/

namespace OnePass

/-- The tokens that an expectation names; none where nothing should follow. -/
def Expectation.Admits : Expectation → Token → Prop
  | .token t, u => u = t
  | .loopCondition, u => u = .whileWord
  | .operand, u => u.startsExpression = true
  | .endOfInput, _ => False

namespace Tree

/-- Some tree of a kind starts with these tokens. -/
def Starts {α : Type} (tokens : α → List Token) (p : List Token) : Prop :=
  ∃ x, p <+: tokens x

theorem Starts.within {α β : Type} {tokens : α → List Token}
    {tokens' : β → List Token} {p : List Token} (h : Starts tokens p)
    (before after : List Token) (build : α → β)
    (hbuild : ∀ x, tokens' (build x) = before ++ (tokens x ++ after)) :
    Starts tokens' (before ++ p) := by
  obtain ⟨x, rest, hx⟩ := h
  refine ⟨build x, rest ++ after, ?_⟩
  rw [hbuild, ← hx]
  simp only [List.append_assoc]

theorem starts_term_of_startsExpression {t : Token}
    (h : t.startsExpression = true) :
    Starts Term.tokens [t] := by
  cases t with
  | «variable» v => exact ⟨.variable v, by simp [Term.tokens]⟩
  | number n => exact ⟨.number n, by simp [Term.tokens]⟩
  | leftParen =>
      exact ⟨.group (.test (.sum (.term (.number 0)))), by simp [Term.tokens]⟩
  | _ => cases h

namespace Starts

variable {p : List Token}

theorem group (h : Starts Expression.parenthesized p) : Starts Term.tokens p :=
  h.within [] [] .group fun e => by simp [Term.tokens, Expression.parenthesized]

theorem sum (h : Starts Term.tokens p) : Starts Sum.tokens p :=
  h.within [] [] .term fun x => by simp [Sum.tokens]

theorem test (h : Starts Sum.tokens p) : Starts Test.tokens p :=
  h.within [] [] .sum fun s => by simp [Test.tokens]

theorem expression (h : Starts Test.tokens p) : Starts Expression.tokens p :=
  h.within [] [] .test fun t => by simp [Expression.tokens]

end Starts

/-- An expression to complete others with. -/
def Expression.simplest : Expression :=
  .test (.sum (.term (.number 0)))

namespace Read

variable {α β : Type}

/-- The result of a reader on `ts`. If it is a failure, then `P` holds of the
tokens taken followed by any token that would have been expected, or of all
tokens where one is missing. -/
inductive FailsIn (P : List Token → Prop) (ts : List Token) :
    EStateM.Result Obstacle (List Token) α → Prop where
  | done {a : α} {rest : List Token} : FailsIn P ts (.ok a rest)
  | unexpected {expected : Expectation} (used : List Token) {rest : List Token}
      (split : ts = used ++ rest) (inside : expected ≠ .endOfInput)
      (fits : ∀ t, expected.Admits t → P (used ++ [t])) :
      FailsIn P ts (.error (.unexpected expected) rest)
  | missing {rest : List Token} (all : P ts) :
      FailsIn P ts (.error .missing rest)
  | tooDeep {rest : List Token} : FailsIn P ts (.error .tooDeep rest)

/-- Started in front of a token that satisfies `A`, the reader fails only within
`P`. -/
def Keeps (A : Token → Prop) (P : List Token → Prop) (r : Read α) : Prop :=
  ∀ ts : List Token, A (ts.headD .endOfInput) → FailsIn P ts (r ts)

namespace Keeps

variable {A : Token → Prop} {P P' : List Token → Prop}

theorem imp {r : Read α} (h : Keeps (fun _ => True) P r)
    (hP : ∀ p, P p → P' p) : Keeps A P' r := by
  intro ts _
  have hresult := h ts trivial
  generalize r ts = result at hresult
  cases hresult with
  | done => exact .done
  | unexpected used split inside fits =>
      exact .unexpected used split inside fun t ht => hP _ (fits t ht)
  | missing all => exact .missing (hP _ all)
  | tooDeep => exact .tooDeep

theorem pure (a : α) : Keeps A P (pure a) :=
  fun _ _ => .done

theorem tooDeep : Keeps A P (Read.tooDeep : Read α) :=
  fun _ _ => .tooDeep

theorem refuse {expected : Expectation} (inside : expected ≠ .endOfInput)
    (fits : ∀ t, expected.Admits t → P [t]) :
    Keeps A P (Read.refuse expected : Read α) :=
  fun _ _ => .unexpected [] rfl inside fits

theorem refuse_bind {expected : Expectation} (inside : expected ≠ .endOfInput)
    {f : α → Read β} (fits : ∀ t, expected.Admits t → P [t]) :
    Keeps A P (Read.refuse expected >>= f) :=
  fun _ _ => .unexpected [] rfl inside fits

theorem map {x : Read α} {g : α → β} (h : Keeps A P x) :
    Keeps A P (x >>= fun a => Pure.pure (g a)) := by
  intro ts hlook
  have hresult := h ts hlook
  change FailsIn P ts (EStateM.bind x _ ts)
  unfold EStateM.bind
  generalize x ts = result at hresult
  cases hresult with
  | done => exact .done
  | unexpected used split inside fits =>
      exact .unexpected used split inside fits
  | missing all => exact .missing all
  | tooDeep => exact .tooDeep

theorem look {f : Token → Read α} (h : ∀ t, A t → Keeps (· = t) P (f t)) :
    Keeps A P (Read.look >>= f) :=
  fun ts hlook => h _ hlook ts rfl

theorem advance {t : Token} (ht : t ≠ .endOfInput) (hP : P [t]) :
    Keeps (· = t) P Read.advance := by
  intro ts hlook
  cases ts with
  | nil => exact absurd hlook.symm ht
  | cons first later =>
      cases later with
      | nil =>
          rw [List.headD_cons] at hlook
          exact .missing (hlook ▸ hP)
      | cons next later => exact .done

/-- Two readers one after the other. The second starts behind the tokens that
the first one took, and `S` relates these to what it gave back. -/
theorem bind {x : Read α} {f : α → Read β} {S : α → List Token → Prop}
    (hx : Keeps A P x)
    (hsound : ∀ {ts rest : List Token} {a : α}, A (ts.headD .endOfInput) →
      x ts = .ok a rest → ∃ used, ts = used ++ rest ∧ S a used)
    (hf : ∀ a used, S a used →
      Keeps (fun _ => True) (fun p => P (used ++ p)) (f a)) :
    Keeps A P (x >>= f) := by
  intro ts hlook
  have hfirst := hx ts hlook
  change FailsIn P ts (EStateM.bind x f ts)
  unfold EStateM.bind
  generalize hresult : x ts = result at hfirst
  cases hfirst with
  | @done a rest =>
      obtain ⟨used, rfl, hS⟩ := hsound hlook hresult
      have hsecond := hf a used hS rest trivial
      change FailsIn P _ (f a rest)
      generalize f a rest = result at hsecond
      cases hsecond with
      | done => exact .done
      | @unexpected expected used' rest' split inside fits =>
          refine .unexpected (used ++ used')
            (by rw [split, List.append_assoc]) inside ?_
          intro t ht
          rw [List.append_assoc]
          exact fits t ht
      | missing all => exact .missing all
      | tooDeep => exact .tooDeep
  | unexpected used split inside fits =>
      exact .unexpected used split inside fits
  | missing all => exact .missing all
  | tooDeep => exact .tooDeep

theorem bind_tokens {x : Read α} {f : α → Read β} {tokens : α → List Token}
    (hx : Keeps A P x)
    (hsound : ∀ {ts rest : List Token} {a : α}, x ts = .ok a rest →
      ts = tokens a ++ rest)
    (hf : ∀ a, Keeps (fun _ => True) (fun p => P (tokens a ++ p)) (f a)) :
    Keeps A P (x >>= f) := by
  refine bind (S :=
    fun a used => used = tokens a) hx (fun _ h => ⟨_, hsound h, rfl⟩) ?_
  rintro a _ rfl
  exact hf a

theorem advance_bind {t : Token} {f : Unit → Read α} (ht : t ≠ .endOfInput)
    (hP : P [t]) (hf : Keeps (fun _ => True) (fun p => P (t :: p)) (f ())) :
    Keeps (· = t) P (Read.advance >>= f) := by
  refine bind (S := fun _ used => used = [t]) (advance ht hP) ?_ ?_
  · intro ts rest _ hlook hadvance
    refine ⟨[t], ?_, rfl⟩
    rw [← hlook]
    exact eq_cons_of_advance hadvance
  · rintro _ _ rfl
    exact hf

theorem expect_bind {t : Token} {f : Unit → Read α} (ht : t ≠ .endOfInput)
    (hP : P [t]) (hf : Keeps (fun _ => True) (fun p => P (t :: p)) (f ())) :
    Keeps A P (Read.expect t >>= f) := by
  rw [Read.expect, bind_assoc]
  refine look fun next _ => ?_
  split
  · rename_i hnext
    subst hnext
    exact advance_bind ht hP hf
  · intro ts _
    refine .unexpected [] rfl nofun ?_
    rintro _ rfl
    exact hP

end Keeps

theorem termsWithin_keeps {term : Read Term}
    (hterm : Keeps (fun _ => True) (Starts Term.tokens) term)
    (hsound : ∀ {ts rest : List Token} {x : Term}, term ts = .ok x rest →
      ts = x.tokens ++ rest)
    (count : Nat) (left : Sum) :
    Keeps (fun _ => True) (fun p => Starts Sum.tokens (left.tokens ++ p))
      (termsWithin term count left) := by
  induction count generalizing left with
  | zero => exact .pure left
  | succ count ih =>
      have hright : ∀ (sign : Token) (combine : Term → Sum),
          sign ≠ .endOfInput →
          (∀ x, (combine x).tokens = left.tokens ++ sign :: x.tokens) →
          Keeps (· = sign) (fun p => Starts Sum.tokens (left.tokens ++ p))
            (do
              Read.advance
              let right ← term
              termsWithin term count (combine right)) := by
        intro sign combine hsign htokens
        refine .advance_bind hsign ?_ (.bind_tokens (hterm.imp ?_) hsound ?_)
        · exact ⟨combine (.number 0), by simp [htokens, Term.tokens]⟩
        · intro p hp
          have hsum : Starts Sum.tokens (left.tokens ++ [sign] ++ p) :=
            hp.within _ [] combine fun x => by simp [htokens]
          simpa using hsum
        · intro right
          refine (ih (combine right)).imp ?_
          intro p hp
          simpa [htokens] using hp
      refine .look fun t _ => ?_
      cases t
      case plus =>
        exact hright .plus (.add left) nofun fun x => by simp [Sum.tokens]
      case minus =>
        exact hright .minus (.sub left) nofun fun x => by simp [Sum.tokens]
      all_goals exact .pure left

mutual

theorem term_keeps (bound : Nat) : ∀ depth : Nat,
    Keeps (fun _ => True) (Starts Term.tokens) (term bound depth)
  | 0 => .tooDeep
  | depth + 1 => by
      rw [term]
      refine .look fun t _ => ?_
      cases t
      case «variable» v =>
        exact .advance_bind nofun ⟨.variable v, by simp [Term.tokens]⟩ (.pure _)
      case number n =>
        exact .advance_bind nofun ⟨.number n, by simp [Term.tokens]⟩ (.pure _)
      case leftParen =>
        exact .map ((parenthesized_keeps bound depth).imp fun _ => Starts.group)
      all_goals
        exact .refuse nofun fun u hu => starts_term_of_startsExpression hu

theorem sumTail_keeps (bound : Nat) : ∀ (depth : Nat) (left : Sum),
    Keeps (fun _ => True) (fun p => Starts Sum.tokens (left.tokens ++ p))
      (sumTail bound depth left)
  | 0, _ => .tooDeep
  | depth + 1, left => by
      rw [sumTail]
      exact termsWithin_keeps (term_keeps bound depth)
        (fun h => (term_sound bound depth h).1) bound left

theorem sum_keeps (bound : Nat) : ∀ depth : Nat,
    Keeps (fun _ => True) (Starts Sum.tokens) (sum bound depth)
  | 0 => .tooDeep
  | depth + 1 => by
      rw [sum]
      refine .bind_tokens ((term_keeps bound depth).imp fun _ => .sum)
        (fun h => (term_sound bound depth h).1) fun first => ?_
      refine (sumTail_keeps bound depth (.term first)).imp fun p hp => ?_
      simpa [Sum.tokens] using hp

theorem testTail_keeps (bound : Nat) : ∀ (depth : Nat) (left : Sum),
    Keeps (fun _ => True) (fun p => Starts Test.tokens (left.tokens ++ p))
      (testTail bound depth left)
  | 0, _ => .tooDeep
  | depth + 1, left => by
      rw [testTail]
      refine .look fun t _ => ?_
      split
      · rename_i hless
        subst hless
        refine .advance_bind nofun ?_ (.map ((sum_keeps bound depth).imp ?_))
        · exact ⟨.less left
            (.term (.number 0)), by simp [Test.tokens, Sum.tokens]⟩
        · intro p hp
          have htest : Starts Test.tokens (left.tokens ++ [.less] ++ p) :=
            hp.within _ [] (Test.less left) fun s => by simp [Test.tokens]
          simpa using htest
      · exact .pure _

theorem test_keeps (bound : Nat) : ∀ depth : Nat,
    Keeps (fun _ => True) (Starts Test.tokens) (test bound depth)
  | 0 => .tooDeep
  | depth + 1 => by
      rw [test]
      exact .bind_tokens ((sum_keeps bound depth).imp fun _ => .test)
        (fun h => (sum_sound bound depth h).1) fun left =>
          testTail_keeps bound depth left

theorem expression_keeps (bound : Nat) : ∀ depth : Nat,
    Keeps (fun _ => True) (Starts Expression.tokens) (expression bound depth)
  | 0 => .tooDeep
  | depth + 1 => by
      rw [expression]
      refine .look fun t _ => ?_
      cases t
      case «variable» v =>
        refine .advance_bind nofun ⟨.test (.sum (.term (.variable v))), by
          simp [Expression.tokens, Test.tokens, Sum.tokens, Term.tokens]⟩ ?_
        refine .look fun next _ => ?_
        split
        · rename_i hassign
          subst hassign
          refine .advance_bind nofun ?_
            (.map ((expression_keeps bound depth).imp ?_))
          · exact ⟨.assign v .simplest, by simp [Expression.tokens]⟩
          · intro p hp
            exact hp.within [.variable v, .assign] [] (Expression.assign v)
              fun e => by
              simp [Expression.tokens]
        · -- What the sum took stands behind the variable, which the sum starts with.
          have hsum :
              ∀ p, Starts Sum.tokens ((Sum.term (.variable v)).tokens ++ p) →
              Starts Expression.tokens (.variable v :: p) := by
            intro p hp
            rw [Sum.tokens, Term.tokens] at hp
            exact hp.test.expression
          have htail := sumTail_keeps bound depth (.term (.variable v))
          refine .bind (htail.imp hsum)
            (S := fun s used => s.tokens = .variable v :: used) ?_ ?_
          · intro ts rest s _ h
            obtain ⟨used, hts, hextends, -⟩ := sumTail_sound bound depth h
            exact ⟨used, hts, by simp [hextends.tokens, Sum.tokens, Term.tokens]⟩
          · intro s used hs
            refine .map ((testTail_keeps bound depth s).imp fun p hp => ?_)
            rw [hs] at hp
            exact hp.expression
      all_goals
        exact .map ((test_keeps bound depth).imp fun _ => Starts.expression)

theorem parenthesized_keeps (bound : Nat) : ∀ depth : Nat,
    Keeps (fun _ => True) (Starts Expression.parenthesized)
      (parenthesized bound depth)
  | 0 => .tooDeep
  | depth + 1 => by
      rw [parenthesized]
      refine .expect_bind nofun
        ⟨.simplest, by simp [Expression.parenthesized]⟩ ?_
      refine .bind_tokens ((expression_keeps bound depth).imp ?_)
        (fun h => (expression_sound bound depth h).1) fun e =>
          .expect_bind nofun ?_ (.pure _)
      · intro p hp
        exact hp.within [.leftParen] [.rightParen] id fun e => by
          simp [Expression.parenthesized]
      · exact ⟨e, by simp [Expression.parenthesized]⟩

end

theorem statementsWithin_keeps {statement : Read Statement}
    (hstatement : Keeps (fun _ => True) (Starts Statement.tokens) statement)
    (hsound : ∀ {ts rest : List Token} {s : Statement},
      statement ts = .ok s rest → ts = s.tokens ++ rest)
    (count : Nat) :
    Keeps (fun _ => True) (Starts fun b : Block => b.tokens ++ [.rightBrace])
      (statementsWithin statement count) := by
  induction count with
  | zero => exact .pure _
  | succ count ih =>
      have hmore :
          ∀ t, Keeps (· = t) (Starts fun b : Block => b.tokens ++ [.rightBrace])
          (do
            let first ← statement
            let rest ← statementsWithin statement count
            return Block.cons first rest) := by
        intro t
        refine .bind_tokens (hstatement.imp ?_) hsound fun first =>
          .map (ih.imp ?_)
        · intro p hp
          exact hp.within [] [.rightBrace] (.cons · .nil) fun s => by
            simp [Block.tokens]
        · intro p hp
          exact hp.within first.tokens [] (.cons first) fun b => by
            simp [Block.tokens]
      refine .look fun t _ => ?_
      cases t
      case rightBrace => exact .pure _
      case endOfInput =>
        refine .refuse nofun ?_
        rintro _ rfl
        exact ⟨.nil, by simp [Block.tokens]⟩
      all_goals exact hmore _

mutual

theorem statement_keeps (bound : Nat) : ∀ depth : Nat,
    Keeps (fun _ => True) (Starts Statement.tokens) (statement bound depth)
  | 0 => .tooDeep
  | depth + 1 => by
      rw [statement]
      have hexpression : ∀ t, Keeps (· = t) (Starts Statement.tokens)
          (do
            let e ← expression bound depth
            expect .semicolon
            return Statement.expression e) := by
        intro t
        refine .bind_tokens ((expression_keeps bound depth).imp ?_)
          (fun h => (expression_sound bound depth h).1) fun e =>
            .expect_bind nofun ?_ (.pure _)
        · intro p hp
          exact hp.within [] [.semicolon] .expression fun e => by
            simp [Statement.tokens]
        · exact ⟨.expression e, by simp [Statement.tokens]⟩
      refine .look fun t _ => ?_
      cases t
      case ifWord => exact ifStatement_keeps bound depth
      case whileWord => exact whileStatement_keeps bound depth
      case doWord => exact doStatement_keeps bound depth
      case leftBrace => exact block_keeps bound depth
      case semicolon =>
        exact .advance_bind nofun ⟨.empty, by simp [Statement.tokens]⟩ (.pure _)
      all_goals exact hexpression _

theorem ifStatement_keeps (bound : Nat) : ∀ depth : Nat,
    Keeps (· = .ifWord) (Starts Statement.tokens) (ifStatement bound depth)
  | 0 => .tooDeep
  | depth + 1 => by
      rw [ifStatement]
      refine .advance_bind nofun
        ⟨.ifThen .simplest .empty, by simp [Statement.tokens]⟩ ?_
      refine .bind_tokens ((parenthesized_keeps bound depth).imp ?_)
        (fun h => (parenthesized_sound bound depth h).1) fun c => ?_
      · intro p hp
        exact hp.within [.ifWord] [.semicolon] (.ifThen · .empty) fun c => by
          simp [Statement.tokens]
      refine .bind_tokens ((statement_keeps bound depth).imp ?_)
        (fun h => (statement_sound bound depth h).tokens) fun first =>
          .look fun t _ => ?_
      · intro p hp
        exact hp.within (.ifWord :: c.parenthesized) [] (.ifThen c) fun s => by
          simp [Statement.tokens]
      split
      · rename_i helse
        subst helse
        refine .advance_bind nofun ?_
          (.map ((statement_keeps bound depth).imp ?_))
        · exact ⟨.ifElse c first .empty, by simp [Statement.tokens]⟩
        · intro p hp
          have hif : Starts Statement.tokens
              (.ifWord :: c.parenthesized ++ first.tokens ++ [.elseWord] ++ p) :=
            hp.within _ [] (.ifElse c first) fun s => by simp [Statement.tokens]
          simpa using hif
      · exact .pure _

theorem whileStatement_keeps (bound : Nat) : ∀ depth : Nat,
    Keeps (· = .whileWord) (Starts Statement.tokens)
      (whileStatement bound depth)
  | 0 => .tooDeep
  | depth + 1 => by
      rw [whileStatement]
      refine .advance_bind nofun
        ⟨.whileDo .simplest .empty, by simp [Statement.tokens]⟩ ?_
      refine .bind_tokens ((parenthesized_keeps bound depth).imp ?_)
        (fun h => (parenthesized_sound bound depth h).1) fun c => ?_
      · intro p hp
        exact hp.within [.whileWord] [.semicolon] (.whileDo · .empty)
          fun c => by simp [Statement.tokens]
      refine .map ((statement_keeps bound depth).imp ?_)
      intro p hp
      exact hp.within (.whileWord :: c.parenthesized) [] (.whileDo c)
        fun s => by simp [Statement.tokens]

theorem doStatement_keeps (bound : Nat) : ∀ depth : Nat,
    Keeps (· = .doWord) (Starts Statement.tokens) (doStatement bound depth)
  | 0 => .tooDeep
  | depth + 1 => by
      rw [doStatement]
      refine .advance_bind nofun
        ⟨.doWhile .empty .simplest, by simp [Statement.tokens]⟩ ?_
      refine .bind_tokens ((statement_keeps bound depth).imp ?_)
        (fun h => (statement_sound bound depth h).tokens) fun body =>
          .look fun t _ => ?_
      · intro p hp
        exact hp.within [.doWord]
          (.whileWord :: Expression.simplest.parenthesized ++ [.semicolon])
          (.doWhile · .simplest) fun s => by simp [Statement.tokens]
      have hwhile :
          Starts Statement.tokens (.doWord :: (body.tokens ++ [.whileWord])) :=
        ⟨.doWhile body .simplest, by simp [Statement.tokens]⟩
      split
      · rename_i hword
        subst hword
        refine .advance_bind nofun hwhile
          (.bind_tokens ((parenthesized_keeps bound depth).imp ?_) (fun h =>
          (parenthesized_sound bound depth h).1) fun c =>
            .expect_bind nofun ?_ (.pure _))
        · intro p hp
          have hdo :
              Starts Statement.tokens
              (.doWord :: body.tokens ++ [.whileWord] ++ p) :=
            hp.within _ [.semicolon] (.doWhile body) fun c => by
              simp [Statement.tokens]
          simpa using hdo
        · exact ⟨.doWhile body c, by simp [Statement.tokens]⟩
      · refine .refuse_bind (by simp) ?_
        rintro _ rfl
        exact hwhile

theorem block_keeps (bound : Nat) : ∀ depth : Nat,
    Keeps (· = .leftBrace) (Starts Statement.tokens) (block bound depth)
  | 0 => .tooDeep
  | depth + 1 => by
      rw [block]
      refine .advance_bind nofun ⟨.block .nil, by simp [Statement.tokens]⟩ ?_
      have hstatements := statementsWithin_keeps (statement_keeps bound depth)
        (fun h => (statement_sound bound depth h).tokens) bound
      refine .bind_tokens (hstatements.imp ?_)
        (fun h => (statementsWithin_sound (statement_sound bound depth) h).1)
        fun b => .expect_bind nofun ?_ (.pure _)
      · intro p hp
        exact hp.within [.leftBrace] [] .block fun b => by
          simp [Statement.tokens]
      · exact ⟨.block b, by simp [Statement.tokens]⟩

end

end Read

end Tree

end OnePass

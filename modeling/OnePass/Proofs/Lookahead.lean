import OnePass.Proofs.NearestElse
import OnePass.Proofs.ReaderComplete

/-!
How far a reader looks. What it does is decided by the tokens that it takes and
the one behind them: on any other list that starts with these it comes to the
same result at the same place. Nor do the limits matter that it did not reach.
So a token at which a program is refused is refused there in every list with the
same tokens before it.
-/

namespace OnePass.Tree.Read

variable {α β : Type}

/-- The result of a reader on `ts`, and what `r'` makes of every list that goes
on differently behind the token at which the reader stopped. -/
inductive Foretold (r' : Read α) (ts : List Token) :
    EStateM.Result Obstacle (List Token) α → Prop where
  | done {a : α} (used : List Token) {t : Token} {later : List Token}
      (split : ts = used ++ t :: later)
      (same : ∀ later', r' (used ++ t :: later') = .ok a (t :: later')) :
      Foretold r' ts (.ok a (t :: later))
  | unexpected {expected : Expectation} (used : List Token) {t : Token}
      {later : List Token}
      (split : ts = used ++ t :: later)
      (same : ∀ later', r' (used ++ t :: later') =
        .error (.unexpected expected) (t :: later')) :
      Foretold r' ts (.error (.unexpected expected) (t :: later))
  | missing {rest : List Token} : Foretold r' ts (.error .missing rest)
  | tooDeep {rest : List Token} : Foretold r' ts (.error .tooDeep rest)

/-- On at most `n` tokens the reader `r` foretells what `r'` does. -/
def Foretells (n : Nat) (r r' : Read α) : Prop :=
  ∀ ts : List Token, ts ≠ [] → ts.length ≤ n → Foretold r' ts (r ts)

theorem exists_append_eq_cons {t t' : Token} {used later rest : List Token}
    (h : t :: later = used ++ t' :: rest) (rest' : List Token) :
    ∃ later', used ++ t' :: rest' = t :: later' := by
  cases used with
  | nil =>
      obtain ⟨rfl, -⟩ := List.cons.inj h
      exact ⟨rest', rfl⟩
  | cons first used =>
      obtain ⟨rfl, -⟩ := List.cons.inj h
      exact ⟨used ++ t' :: rest', rfl⟩

namespace Foretells

variable {n m : Nat}

theorem mono {r r' : Read α} (h : Foretells n r r') (hle : m ≤ n) :
    Foretells m r r' :=
  fun ts hne hlength => h ts hne (Nat.le_trans hlength hle)

theorem pure (a : α) : Foretells n (pure a) (pure a) := by
  intro ts hne _
  obtain ⟨t, later, rfl⟩ := List.exists_cons_of_ne_nil hne
  exact .done [] rfl fun _ => rfl

theorem refuse (expected : Expectation) :
    Foretells n (Read.refuse expected : Read α) (Read.refuse expected) := by
  intro ts hne _
  obtain ⟨t, later, rfl⟩ := List.exists_cons_of_ne_nil hne
  exact .unexpected [] rfl fun _ => rfl

theorem tooDeep (r' : Read α) : Foretells n Read.tooDeep r' :=
  fun _ _ _ => .tooDeep

theorem advance : Foretells n Read.advance Read.advance := by
  intro ts hne _
  obtain ⟨t, later, rfl⟩ := List.exists_cons_of_ne_nil hne
  cases later with
  | nil => exact .missing
  | cons next later => exact .done [t] rfl fun _ => rfl

/-- Two readers one after the other. What the first one leaves may be known to
be less. -/
theorem bind_of_le {x x' : Read α} {f f' : α → Read β} (hx : Foretells n x x')
    (hle : ∀ {used rest : List Token} {a : α}, (used ++ rest).length ≤ n →
      x (used ++ rest) = .ok a rest → rest.length ≤ m)
    (hf : ∀ a, Foretells m (f a) (f' a)) :
    Foretells n (x >>= f) (x' >>= f') := by
  intro ts hne hlength
  have hfirst := hx ts hne hlength
  change Foretold _ ts (EStateM.bind x f ts)
  unfold EStateM.bind
  generalize hresult : x ts = result at hfirst
  cases hfirst with
  | @done a used t later hsplit hsame =>
      subst hsplit
      have hsecond := hf a (t :: later) (by simp) (hle hlength hresult)
      change Foretold _ _ (f a (t :: later))
      generalize f a (t :: later) = result at hsecond
      cases hsecond with
      | @done b used' t' later' hsplit hsame' =>
          refine .done (used ++ used') (by rw [hsplit, List.append_assoc])
            fun rest => ?_
          obtain ⟨middle, hmiddle⟩ := exists_append_eq_cons hsplit rest
          rw [List.append_assoc, hmiddle, bind_of_ok (hsame middle), ← hmiddle]
          exact hsame' rest
      | @unexpected expected used' t' later' hsplit hsame' =>
          refine .unexpected (used ++ used') (by rw [hsplit, List.append_assoc])
            fun rest => ?_
          obtain ⟨middle, hmiddle⟩ := exists_append_eq_cons hsplit rest
          rw [List.append_assoc, hmiddle, bind_of_ok (hsame middle), ← hmiddle]
          exact hsame' rest
      | missing => exact .missing
      | tooDeep => exact .tooDeep
  | unexpected used hsplit hsame =>
      refine .unexpected used hsplit fun rest => ?_
      change EStateM.bind x' f' _ = _
      simp only [EStateM.bind, hsame rest]
  | missing => exact .missing
  | tooDeep => exact .tooDeep

theorem bind {x x' : Read α} {f f' : α → Read β} (hx : Foretells n x x')
    (hf : ∀ a, Foretells n (f a) (f' a)) :
    Foretells n (x >>= f) (x' >>= f') := by
  refine bind_of_le hx ?_ hf
  intro used rest a hlength _
  rw [List.length_append] at hlength
  omega

theorem look {f f' : Token → Read α} (h : ∀ t, Foretells n (f t) (f' t)) :
    Foretells n (Read.look >>= f) (Read.look >>= f') := by
  intro ts hne hlength
  obtain ⟨first, later, rfl⟩ := List.exists_cons_of_ne_nil hne
  have hfirst := h first (first :: later) hne hlength
  rw [look_bind, List.headD_cons]
  generalize f first (first :: later) = result at hfirst
  cases hfirst with
  | done used hsplit hsame =>
      refine .done used hsplit fun rest => ?_
      obtain ⟨middle, hmiddle⟩ := exists_append_eq_cons hsplit rest
      have hrest := hsame rest
      rw [hmiddle] at hrest ⊢
      exact hrest
  | unexpected used hsplit hsame =>
      refine .unexpected used hsplit fun rest => ?_
      obtain ⟨middle, hmiddle⟩ := exists_append_eq_cons hsplit rest
      have hrest := hsame rest
      rw [hmiddle] at hrest ⊢
      exact hrest
  | missing => exact .missing
  | tooDeep => exact .tooDeep

theorem advance_bind {f f' : Unit → Read α}
    (h : ∀ k, n = k + 1 → Foretells k (f ()) (f' ())) :
    Foretells n (Read.advance >>= f) (Read.advance >>= f') := by
  cases n with
  | zero =>
      intro ts hne hlength
      exact absurd (List.length_eq_zero_iff.mp (Nat.le_zero.mp hlength)) hne
  | succ k =>
      refine bind_of_le .advance ?_ fun _ => h k rfl
      intro used rest _ hlength hadvance
      rw [eq_cons_of_advance hadvance, List.length_cons] at hlength
      omega

theorem ite {p : Prop} [Decidable p] {x x' y y' : Read α}
    (hx : Foretells n x x') (hy : Foretells n y y') :
    Foretells n (if p then x else y) (if p then x' else y') := by
  split
  · exact hx
  · exact hy

theorem expect (t : Token) : Foretells n (Read.expect t) (Read.expect t) := by
  apply look
  intro u
  exact ite advance (refuse _)

end Foretells

theorem termsWithin_foretells {term term' : Read Term} {n count count' : Nat}
    (hterm : Foretells n term term') (hn : n ≤ count)
    (hcount : count ≤ count') (left : Sum) :
    Foretells n (termsWithin term count left)
      (termsWithin term' count' left) := by
  induction count generalizing n count' left with
  | zero =>
      intro ts hne hlength
      exact absurd (List.length_eq_zero_iff.mp (by omega)) hne
  | succ count ih =>
      obtain ⟨count', rfl⟩ :=
        Nat.exists_eq_add_one_of_ne_zero (n := count') (by omega)
      have hright : ∀ combine : Term → Sum, Foretells n
          (do
            Read.advance
            let right ← term
            termsWithin term count (combine right))
          (do
            Read.advance
            let right ← term'
            termsWithin term' count' (combine right)) := by
        intro combine
        apply Foretells.advance_bind
        intro k hk
        apply Foretells.bind (hterm.mono (by omega))
        intro right
        exact ih (hterm.mono (by omega)) (by omega) (by omega) (combine right)
      apply Foretells.look
      intro t
      cases t
      case plus => exact hright fun right => .add left right
      case minus => exact hright fun right => .sub left right
      all_goals exact .pure left

/-- Every statement takes a token, so that the count is not used up before the
tokens are. -/
theorem statementsWithin_foretells {statement statement' : Read Statement}
    {n count count' : Nat} (hstatement : Foretells n statement statement')
    (htakes : ∀ {ts rest : List Token} {s : Statement},
      statement ts = .ok s rest → rest.length < ts.length)
    (hn : n ≤ count) (hcount : count ≤ count') :
    Foretells n (statementsWithin statement count)
      (statementsWithin statement' count') := by
  induction count generalizing n count' with
  | zero =>
      intro ts hne hlength
      exact absurd (List.length_eq_zero_iff.mp (by omega)) hne
  | succ count ih =>
      obtain ⟨count', rfl⟩ :=
        Nat.exists_eq_add_one_of_ne_zero (n := count') (by omega)
      have hmore : Foretells n
          (do
            let first ← statement
            let rest ← statementsWithin statement count
            return Block.cons first rest)
          (do
            let first ← statement'
            let rest ← statementsWithin statement' count'
            return Block.cons first rest) := by
        have hrest : Foretells (n - 1) (statementsWithin statement count)
            (statementsWithin statement' count') :=
          ih (hstatement.mono (by omega)) (by omega) (by omega)
        apply Foretells.bind_of_le hstatement
        · intro used rest s hlength hread
          have hshorter := htakes hread
          exact (by omega : rest.length ≤ n - 1)
        · intro first
          apply Foretells.bind hrest
          intro rest
          exact .pure _
      apply Foretells.look
      intro t
      cases t
      case rightBrace => exact .pure _
      case endOfInput => exact .refuse _
      all_goals exact hmore

theorem length_lt_of_statement {bound depth : Nat} {ts rest : List Token}
    {s : Statement} (h : statement bound depth ts = .ok s rest) :
    rest.length < ts.length := by
  obtain ⟨first, later, hs, -⟩ := s.exists_tokens
  rw [(statement_sound bound depth h).tokens, hs, List.length_append,
    List.length_cons]
  omega

section Readers

variable {n bound bound' : Nat}

mutual

theorem term_foretells (hn : n ≤ bound) (hbound : bound ≤ bound') :
    ∀ {depth depth' : Nat}, depth ≤ depth' →
    Foretells n (term bound depth) (term bound' depth')
  | 0, _, _ => .tooDeep _
  | depth + 1, depth', h => by
      obtain ⟨depth', rfl⟩ :=
        Nat.exists_eq_add_one_of_ne_zero (n := depth') (by omega)
      rw [term, term]
      apply Foretells.look
      intro t
      cases t
      case «variable» v =>
        apply Foretells.bind .advance
        intro _
        exact .pure _
      case number i =>
        apply Foretells.bind .advance
        intro _
        exact .pure _
      case leftParen =>
        apply Foretells.bind (parenthesized_foretells hn hbound (by omega))
        intro e
        exact .pure _
      all_goals exact .refuse _

theorem sumTail_foretells (hn : n ≤ bound) (hbound : bound ≤ bound') :
    ∀ {depth depth' : Nat}, depth ≤ depth' → ∀ left,
    Foretells n (sumTail bound depth left) (sumTail bound' depth' left)
  | 0, _, _, _ => .tooDeep _
  | depth + 1, depth', h, left => by
      obtain ⟨depth', rfl⟩ :=
        Nat.exists_eq_add_one_of_ne_zero (n := depth') (by omega)
      rw [sumTail, sumTail]
      exact termsWithin_foretells
        (term_foretells hn hbound (by omega)) hn hbound left

theorem sum_foretells (hn : n ≤ bound) (hbound : bound ≤ bound') :
    ∀ {depth depth' : Nat}, depth ≤ depth' →
    Foretells n (sum bound depth) (sum bound' depth')
  | 0, _, _ => .tooDeep _
  | depth + 1, depth', h => by
      obtain ⟨depth', rfl⟩ :=
        Nat.exists_eq_add_one_of_ne_zero (n := depth') (by omega)
      rw [sum, sum]
      apply Foretells.bind (term_foretells hn hbound (by omega))
      intro first
      exact sumTail_foretells hn hbound (by omega) _

theorem testTail_foretells (hn : n ≤ bound) (hbound : bound ≤ bound') :
    ∀ {depth depth' : Nat}, depth ≤ depth' → ∀ left,
    Foretells n (testTail bound depth left) (testTail bound' depth' left)
  | 0, _, _, _ => .tooDeep _
  | depth + 1, depth', h, left => by
      obtain ⟨depth', rfl⟩ :=
        Nat.exists_eq_add_one_of_ne_zero (n := depth') (by omega)
      rw [testTail, testTail]
      apply Foretells.look
      intro t
      apply Foretells.ite
      · apply Foretells.bind .advance
        intro _
        apply Foretells.bind (sum_foretells hn hbound (by omega))
        intro right
        exact .pure _
      · exact .pure _

theorem test_foretells (hn : n ≤ bound) (hbound : bound ≤ bound') :
    ∀ {depth depth' : Nat}, depth ≤ depth' →
    Foretells n (test bound depth) (test bound' depth')
  | 0, _, _ => .tooDeep _
  | depth + 1, depth', h => by
      obtain ⟨depth', rfl⟩ :=
        Nat.exists_eq_add_one_of_ne_zero (n := depth') (by omega)
      rw [test, test]
      apply Foretells.bind (sum_foretells hn hbound (by omega))
      intro left
      exact testTail_foretells hn hbound (by omega) left

theorem expression_foretells (hn : n ≤ bound) (hbound : bound ≤ bound') :
    ∀ {depth depth' : Nat}, depth ≤ depth' →
    Foretells n (expression bound depth) (expression bound' depth')
  | 0, _, _ => .tooDeep _
  | depth + 1, depth', h => by
      obtain ⟨depth', rfl⟩ :=
        Nat.exists_eq_add_one_of_ne_zero (n := depth') (by omega)
      rw [expression, expression]
      apply Foretells.look
      intro t
      cases t
      case «variable» v =>
        apply Foretells.bind .advance
        intro _
        apply Foretells.look
        intro next
        apply Foretells.ite
        · apply Foretells.bind .advance
          intro _
          apply Foretells.bind (expression_foretells hn hbound (by omega))
          intro value
          exact .pure _
        · apply Foretells.bind (sumTail_foretells hn hbound (by omega) _)
          intro left
          apply Foretells.bind (testTail_foretells hn hbound (by omega) left)
          intro x
          exact .pure _
      all_goals
        apply Foretells.bind (test_foretells hn hbound (by omega))
        intro x
        exact .pure _

theorem parenthesized_foretells (hn : n ≤ bound) (hbound : bound ≤ bound') :
    ∀ {depth depth' : Nat}, depth ≤ depth' →
    Foretells n (parenthesized bound depth) (parenthesized bound' depth')
  | 0, _, _ => .tooDeep _
  | depth + 1, depth', h => by
      obtain ⟨depth', rfl⟩ :=
        Nat.exists_eq_add_one_of_ne_zero (n := depth') (by omega)
      rw [parenthesized, parenthesized]
      apply Foretells.bind (.expect _)
      intro _
      apply Foretells.bind (expression_foretells hn hbound (by omega))
      intro e
      apply Foretells.bind (.expect _)
      intro _
      exact .pure _

end

mutual

theorem statement_foretells (hn : n ≤ bound) (hbound : bound ≤ bound') :
    ∀ {depth depth' : Nat}, depth ≤ depth' →
    Foretells n (statement bound depth) (statement bound' depth')
  | 0, _, _ => .tooDeep _
  | depth + 1, depth', h => by
      obtain ⟨depth', rfl⟩ :=
        Nat.exists_eq_add_one_of_ne_zero (n := depth') (by omega)
      rw [statement, statement]
      apply Foretells.look
      intro t
      cases t
      case ifWord => exact ifStatement_foretells hn hbound (by omega)
      case whileWord => exact whileStatement_foretells hn hbound (by omega)
      case doWord => exact doStatement_foretells hn hbound (by omega)
      case leftBrace => exact block_foretells hn hbound (by omega)
      case semicolon =>
        apply Foretells.bind .advance
        intro _
        exact .pure _
      all_goals
        apply Foretells.bind (expression_foretells hn hbound (by omega))
        intro e
        apply Foretells.bind (.expect _)
        intro _
        exact .pure _

theorem ifStatement_foretells (hn : n ≤ bound) (hbound : bound ≤ bound') :
    ∀ {depth depth' : Nat}, depth ≤ depth' →
    Foretells n (ifStatement bound depth) (ifStatement bound' depth')
  | 0, _, _ => .tooDeep _
  | depth + 1, depth', h => by
      obtain ⟨depth', rfl⟩ :=
        Nat.exists_eq_add_one_of_ne_zero (n := depth') (by omega)
      rw [ifStatement, ifStatement]
      have hbranch :
          Foretells n (statement bound depth) (statement bound' depth') :=
        statement_foretells hn hbound (by omega)
      apply Foretells.bind .advance
      intro _
      apply Foretells.bind (parenthesized_foretells hn hbound (by omega))
      intro c
      apply Foretells.bind hbranch
      intro s
      apply Foretells.look
      intro t
      apply Foretells.ite
      · apply Foretells.bind .advance
        intro _
        apply Foretells.bind hbranch
        intro other
        exact .pure _
      · exact .pure _

theorem whileStatement_foretells (hn : n ≤ bound) (hbound : bound ≤ bound') :
    ∀ {depth depth' : Nat}, depth ≤ depth' →
    Foretells n (whileStatement bound depth) (whileStatement bound' depth')
  | 0, _, _ => .tooDeep _
  | depth + 1, depth', h => by
      obtain ⟨depth', rfl⟩ :=
        Nat.exists_eq_add_one_of_ne_zero (n := depth') (by omega)
      rw [whileStatement, whileStatement]
      apply Foretells.bind .advance
      intro _
      apply Foretells.bind (parenthesized_foretells hn hbound (by omega))
      intro c
      apply Foretells.bind (statement_foretells hn hbound (by omega))
      intro s
      exact .pure _

theorem doStatement_foretells (hn : n ≤ bound) (hbound : bound ≤ bound') :
    ∀ {depth depth' : Nat}, depth ≤ depth' →
    Foretells n (doStatement bound depth) (doStatement bound' depth')
  | 0, _, _ => .tooDeep _
  | depth + 1, depth', h => by
      obtain ⟨depth', rfl⟩ :=
        Nat.exists_eq_add_one_of_ne_zero (n := depth') (by omega)
      rw [doStatement, doStatement]
      have hcondition :
          Foretells n (parenthesized bound depth)
          (parenthesized bound' depth') :=
        parenthesized_foretells hn hbound (by omega)
      apply Foretells.bind .advance
      intro _
      apply Foretells.bind (statement_foretells hn hbound (by omega))
      intro s
      apply Foretells.look
      intro t
      apply Foretells.ite
      · apply Foretells.bind .advance
        intro _
        apply Foretells.bind hcondition
        intro c
        apply Foretells.bind (.expect _)
        intro _
        exact .pure _
      · apply Foretells.bind (.refuse _)
        intro _
        apply Foretells.bind hcondition
        intro c
        apply Foretells.bind (.expect _)
        intro _
        exact .pure _

theorem block_foretells (hn : n ≤ bound) (hbound : bound ≤ bound') :
    ∀ {depth depth' : Nat}, depth ≤ depth' →
    Foretells n (block bound depth) (block bound' depth')
  | 0, _, _ => .tooDeep _
  | depth + 1, depth', h => by
      obtain ⟨depth', rfl⟩ :=
        Nat.exists_eq_add_one_of_ne_zero (n := depth') (by omega)
      rw [block, block]
      have hstatement :
          Foretells n (statement bound depth) (statement bound' depth') :=
        statement_foretells hn hbound (by omega)
      apply Foretells.bind .advance
      intro _
      apply Foretells.bind
      · exact statementsWithin_foretells hstatement length_lt_of_statement
          hn hbound
      · intro b
        apply Foretells.bind (.expect _)
        intro _
        exact .pure _

end

theorem program_foretells (hn : n ≤ bound) (hbound : bound ≤ bound')
    {depth depth' : Nat} (h : depth ≤ depth') :
    Foretells n (program bound depth) (program bound' depth') := by
  rw [program, program]
  apply Foretells.bind (statement_foretells hn hbound h)
  intro s
  apply Foretells.look
  intro t
  exact .ite (.pure _) (.refuse _)

end Readers

/-- A token at which a program is refused does not go on with any program: not
even with one that nests more deeply, for the limit was not reached before that
token. -/
theorem not_prefix_of_program_unexpected {bound depth : Nat}
    {used later : List Token} {t : Token} {expected : Expectation}
    (hbound : (used ++ t :: later).length ≤ bound)
    (hrefused : program bound depth (used ++ t :: later) =
      .error (.unexpected expected) (t :: later))
    (s : Statement) :
    ¬ used ++ [t] <+: s.tokens ++ [.endOfInput] := by
  rintro ⟨rest, hrest⟩
  have hforetold :=
    program_foretells hbound (Nat.le_max_left bound s.tokens.length)
    (Nat.le_max_left depth s.bindElse.depth) (used ++ t :: later) (by simp)
      (Nat.le_refl _)
  rw [hrefused] at hforetold
  cases hforetold with
  | unexpected used hsplit hsame =>
      obtain rfl := List.append_cancel_right hsplit
      have hlength : s.bindElse.tokens.length ≤ max bound s.tokens.length := by
        rw [s.tokens_bindElse]
        exact Nat.le_max_right bound s.tokens.length
      have hread :=
        program_complete s.bindElse
        (Nat.le_max_right depth s.bindElse.depth) hlength
        s.elseNearest_bindElse
      have htokens :
          s.bindElse.tokens ++ [.endOfInput] = used ++ t :: rest := by
        rw [s.tokens_bindElse, ← hrest, List.append_assoc,
          List.singleton_append]
      rw [htokens, hsame rest] at hread
      cases hread

end OnePass.Tree.Read

import OnePass.Proofs.Lookahead
import OnePass.Proofs.WholeText

namespace OnePass

open OnePass.Tree (Read Obstacle)

namespace Tree.Read

/-- On at most `n` tokens two readers come to the same result and leave at most
`m` tokens. -/
def Coincide {α : Type} (n m : Nat) (r r' : Read α) : Prop :=
  ∀ ts : List Token, ts.length ≤ n →
    r ts = r' ts ∧ ∀ a rest, r ts = .ok a rest → rest.length ≤ m

namespace Coincide

variable {α β : Type} {n m k : Nat}

theorem bind_of_rest {x x' : Read α} {f f' : α → Read β}
    (hx : Coincide n n x x')
    (hf : ∀ ts a rest, ts.length ≤ n → x ts = .ok a rest →
      ∃ k, rest.length ≤ k ∧ Coincide k m (f a) (f' a)) :
    Coincide n m (x >>= f) (x' >>= f') := by
  intro ts hts
  obtain ⟨hsame, -⟩ := hx ts hts
  change EStateM.bind x f ts = EStateM.bind x' f' ts ∧
    ∀ a rest, EStateM.bind x f ts = .ok a rest → _
  unfold EStateM.bind
  rw [← hsame]
  cases hresult : x ts with
  | ok a rest =>
      obtain ⟨k, hrest, hk⟩ := hf ts a rest hts hresult
      exact hk rest hrest
  | error obstacle rest => exact ⟨rfl, fun _ _ h => by cases h⟩

theorem bind {x x' : Read α} {f f' : α → Read β} (hx : Coincide n n x x')
    (hf : ∀ a, Coincide n m (f a) (f' a)) :
    Coincide n m (x >>= f) (x' >>= f') := by
  apply bind_of_rest hx
  intro ts a rest hts hok
  exact ⟨n, (hx ts hts).2 a rest hok, hf a⟩

theorem bind_of_takes {x x' : Read α} {f f' : α → Read β}
    (hx : Coincide n n x x')
    (htakes : ∀ {ts rest : List Token} {a : α}, x ts = .ok a rest →
      rest.length < ts.length)
    (hf : ∀ k, n = k + 1 → ∀ a, Coincide k m (f a) (f' a)) :
    Coincide n m (x >>= f) (x' >>= f') := by
  apply bind_of_rest hx
  intro ts a rest hts hok
  have hshorter := htakes hok
  exact ⟨n - 1, by omega, hf (n - 1) (by omega) a⟩

theorem mono {r r' : Read α} (h : Coincide n m r r') (hle : m ≤ k) :
    Coincide n k r r' :=
  fun ts hts =>
    ⟨(h ts hts).1, fun a rest hok => Nat.le_trans ((h ts hts).2 a rest hok) hle⟩

theorem pure (a : α) : Coincide n n (pure a) (pure a) := by
  intro ts hts
  refine ⟨rfl, ?_⟩
  intro b rest h
  obtain ⟨-, rfl⟩ := pure_eq_ok.mp h
  exact hts

theorem refuse (expected : Expectation) :
    Coincide n m (Read.refuse expected : Read α) (Read.refuse expected) :=
  fun _ _ => ⟨rfl, fun _ _ h => absurd h refuse_ne_ok⟩

theorem tooDeep : Coincide n m (Read.tooDeep : Read α) Read.tooDeep :=
  fun _ _ => ⟨rfl, fun _ _ h => absurd h tooDeep_ne_ok⟩

theorem look {f f' : Token → Read α} (h : ∀ t, Coincide n m (f t) (f' t)) :
    Coincide n m (Read.look >>= f) (Read.look >>= f') :=
  fun ts hts => h (ts.headD .endOfInput) ts hts

theorem ite {p : Prop} [Decidable p] {x x' y y' : Read α}
    (hx : Coincide n m x x') (hy : Coincide n m y y') :
    Coincide n m (if p then x else y) (if p then x' else y') := by
  split
  · exact hx
  · exact hy

theorem advance : Coincide n n Read.advance Read.advance := by
  intro ts hts
  refine ⟨rfl, ?_⟩
  intro u rest h
  rw [eq_cons_of_advance h, List.length_cons] at hts
  omega

theorem advance_bind {f f' : Unit → Read α}
    (hf : ∀ k, n = k + 1 → Coincide k k (f ()) (f' ())) :
    Coincide n n (Read.advance >>= f) (Read.advance >>= f') := by
  apply bind_of_takes advance
  · intro ts rest u h
    rw [eq_cons_of_advance h, List.length_cons]
    exact Nat.lt_succ_self _
  · intro k hk u
    exact (hf k hk).mono (by omega)

theorem expect (t : Token) : Coincide n n (Read.expect t) (Read.expect t) := by
  apply look
  intro u
  exact ite advance (refuse _)

end Coincide

theorem termsWithin_coincide {term term' : Read Term} {n : Nat}
    (hterm : ∀ k ≤ n, Coincide k k term term') {count count' : Nat}
    (hcount : n ≤ count) (hcount' : n ≤ count') (left : Sum) :
    Coincide n n (termsWithin term count left)
      (termsWithin term' count' left) := by
  induction n generalizing count count' left with
  | zero =>
      -- There is no token, so there is no sign that more terms could follow.
      intro ts hts
      obtain rfl := List.length_eq_zero_iff.mp (Nat.le_zero.mp hts)
      cases count <;> cases count' <;> exact Coincide.pure left [] hts
  | succ n ih =>
      obtain ⟨count, rfl⟩ := Nat.exists_eq_add_of_le' hcount
      obtain ⟨count', rfl⟩ := Nat.exists_eq_add_of_le' hcount'
      have hright : ∀ combine : Term → Sum, Coincide (n + 1) (n + 1)
          (do
            Read.advance
            let right ← term
            termsWithin term (count + n) (combine right))
          (do
            Read.advance
            let right ← term'
            termsWithin term' (count' + n) (combine right)) := by
        intro combine
        apply Coincide.advance_bind
        intro k hk
        apply Coincide.bind (hterm k (by omega))
        intro right
        obtain rfl : n = k := by omega
        exact ih (fun j hj => hterm j (by omega)) (by omega) (by omega)
          (combine right)
      apply Coincide.look
      intro t
      cases t
      case plus => exact hright fun right => .add left right
      case minus => exact hright fun right => .sub left right
      all_goals exact .pure left

theorem statementsWithin_coincide {statement statement' : Read Statement}
    {n count count' : Nat}
    (hstatement : ∀ k ≤ n, Coincide k k statement statement')
    (htakes : ∀ {ts rest : List Token} {s : Statement},
      statement ts = .ok s rest → rest.length < ts.length)
    (hcount : n < count) (hcount' : n < count') :
    Coincide n n (statementsWithin statement count)
      (statementsWithin statement' count') := by
  induction count generalizing n count' with
  | zero => omega
  | succ count ih =>
      obtain ⟨count', rfl⟩ :=
        Nat.exists_eq_add_one_of_ne_zero (n := count') (by omega)
      have hmore : Coincide n n
          (do
            let first ← statement
            let rest ← statementsWithin statement count
            return Block.cons first rest)
          (do
            let first ← statement'
            let rest ← statementsWithin statement' count'
            return Block.cons first rest) := by
        apply Coincide.bind_of_takes (hstatement n (Nat.le_refl n)) htakes
        intro k hk first
        have hrest :=
          ih (fun j hj => hstatement j (by omega)) (by omega : k < count)
          (by omega : k < count')
        apply Coincide.mono _ (by omega : k ≤ n)
        apply Coincide.bind hrest
        intro rest
        exact .pure _
      apply Coincide.look
      intro t
      cases t
      case rightBrace => exact .pure _
      case endOfInput => exact .refuse _
      all_goals exact hmore

section Bounds

variable {bound bound' : Nat}

mutual

theorem term_coincide : ∀ (depth : Nat) {n : Nat}, n ≤ bound → n ≤ bound' →
    Coincide n n (term bound depth) (term bound' depth)
  | 0, _, _, _ => .tooDeep
  | depth + 1, n, h, h' => by
      rw [term, term]
      apply Coincide.look
      intro t
      cases t
      case «variable» v =>
        apply Coincide.bind .advance
        intro _
        exact .pure _
      case number i =>
        apply Coincide.bind .advance
        intro _
        exact .pure _
      case leftParen =>
        have hgroup := parenthesized_coincide depth h h'
        apply Coincide.bind hgroup
        intro e
        exact .pure _
      all_goals exact .refuse _

theorem sumTail_coincide :
    ∀ (depth : Nat) {n : Nat}, n ≤ bound → n ≤ bound' → ∀ left,
      Coincide n n (sumTail bound depth left) (sumTail bound' depth left)
  | 0, _, _, _, _ => .tooDeep
  | depth + 1, n, h, h', left => by
      rw [sumTail, sumTail]
      apply termsWithin_coincide _ h h'
      intro k hk
      exact term_coincide depth (by omega) (by omega)

theorem sum_coincide : ∀ (depth : Nat) {n : Nat}, n ≤ bound → n ≤ bound' →
    Coincide n n (sum bound depth) (sum bound' depth)
  | 0, _, _, _ => .tooDeep
  | depth + 1, n, h, h' => by
      rw [sum, sum]
      have hfirst := term_coincide depth h h'
      apply Coincide.bind hfirst
      intro first
      exact sumTail_coincide depth h h' _

theorem testTail_coincide :
    ∀ (depth : Nat) {n : Nat}, n ≤ bound → n ≤ bound' → ∀ left,
      Coincide n n (testTail bound depth left) (testTail bound' depth left)
  | 0, _, _, _, _ => .tooDeep
  | depth + 1, n, h, h', left => by
      rw [testTail, testTail]
      have hright := sum_coincide depth h h'
      apply Coincide.look
      intro t
      apply Coincide.ite
      · apply Coincide.bind .advance
        intro _
        apply Coincide.bind hright
        intro right
        exact .pure _
      · exact .pure _

theorem test_coincide : ∀ (depth : Nat) {n : Nat}, n ≤ bound → n ≤ bound' →
    Coincide n n (test bound depth) (test bound' depth)
  | 0, _, _, _ => .tooDeep
  | depth + 1, n, h, h' => by
      rw [test, test]
      have hleft := sum_coincide depth h h'
      apply Coincide.bind hleft
      intro left
      exact testTail_coincide depth h h' left

theorem expression_coincide :
    ∀ (depth : Nat) {n : Nat}, n ≤ bound → n ≤ bound' →
      Coincide n n (expression bound depth) (expression bound' depth)
  | 0, _, _, _ => .tooDeep
  | depth + 1, n, h, h' => by
      rw [expression, expression]
      apply Coincide.look
      intro t
      cases t
      case «variable» v =>
        apply Coincide.bind .advance
        intro _
        apply Coincide.look
        intro next
        apply Coincide.ite
        · have hvalue := expression_coincide depth h h'
          apply Coincide.bind .advance
          intro _
          apply Coincide.bind hvalue
          intro value
          exact .pure _
        · have hsum := sumTail_coincide depth h h' (.term (.variable v))
          apply Coincide.bind hsum
          intro left
          apply Coincide.bind (testTail_coincide depth h h' left)
          intro x
          exact .pure _
      all_goals
        have htest := test_coincide depth h h'
        apply Coincide.bind htest
        intro x
        exact .pure _

theorem parenthesized_coincide :
    ∀ (depth : Nat) {n : Nat}, n ≤ bound → n ≤ bound' →
      Coincide n n (parenthesized bound depth) (parenthesized bound' depth)
  | 0, _, _, _ => .tooDeep
  | depth + 1, n, h, h' => by
      rw [parenthesized, parenthesized]
      have hinner := expression_coincide depth h h'
      apply Coincide.bind (.expect _)
      intro _
      apply Coincide.bind hinner
      intro e
      apply Coincide.bind (.expect _)
      intro _
      exact .pure _

end

mutual

theorem statement_coincide : ∀ (depth : Nat) {n : Nat}, n ≤ bound → n ≤ bound' →
    Coincide n n (statement bound depth) (statement bound' depth)
  | 0, _, _, _ => .tooDeep
  | depth + 1, n, h, h' => by
      rw [statement, statement]
      apply Coincide.look
      intro t
      cases t
      case ifWord => exact ifStatement_coincide depth h h'
      case whileWord => exact whileStatement_coincide depth h h'
      case doWord => exact doStatement_coincide depth h h'
      case leftBrace => exact block_coincide depth h h'
      case semicolon =>
        apply Coincide.bind .advance
        intro _
        exact .pure _
      all_goals
        have hvalue := expression_coincide depth h h'
        apply Coincide.bind hvalue
        intro e
        apply Coincide.bind (.expect _)
        intro _
        exact .pure _

theorem ifStatement_coincide :
    ∀ (depth : Nat) {n : Nat}, n ≤ bound → n ≤ bound' →
      Coincide n n (ifStatement bound depth) (ifStatement bound' depth)
  | 0, _, _, _ => .tooDeep
  | depth + 1, n, h, h' => by
      rw [ifStatement, ifStatement]
      have hcondition := parenthesized_coincide depth h h'
      have hbranch := statement_coincide depth h h'
      apply Coincide.bind .advance
      intro _
      apply Coincide.bind hcondition
      intro c
      apply Coincide.bind hbranch
      intro s
      apply Coincide.look
      intro t
      apply Coincide.ite
      · apply Coincide.bind .advance
        intro _
        apply Coincide.bind hbranch
        intro other
        exact .pure _
      · exact .pure _

theorem whileStatement_coincide :
    ∀ (depth : Nat) {n : Nat}, n ≤ bound → n ≤ bound' →
      Coincide n n (whileStatement bound depth) (whileStatement bound' depth)
  | 0, _, _, _ => .tooDeep
  | depth + 1, n, h, h' => by
      rw [whileStatement, whileStatement]
      have hcondition := parenthesized_coincide depth h h'
      have hbody := statement_coincide depth h h'
      apply Coincide.bind .advance
      intro _
      apply Coincide.bind hcondition
      intro c
      apply Coincide.bind hbody
      intro s
      exact .pure _

theorem doStatement_coincide :
    ∀ (depth : Nat) {n : Nat}, n ≤ bound → n ≤ bound' →
      Coincide n n (doStatement bound depth) (doStatement bound' depth)
  | 0, _, _, _ => .tooDeep
  | depth + 1, n, h, h' => by
      rw [doStatement, doStatement]
      have hbody := statement_coincide depth h h'
      have hcondition := parenthesized_coincide depth h h'
      apply Coincide.bind .advance
      intro _
      apply Coincide.bind hbody
      intro s
      apply Coincide.look
      intro t
      apply Coincide.ite
      · apply Coincide.bind .advance
        intro _
        apply Coincide.bind hcondition
        intro c
        apply Coincide.bind (.expect _)
        intro _
        exact .pure _
      · apply Coincide.bind (.refuse _)
        intro _
        apply Coincide.bind hcondition
        intro c
        apply Coincide.bind (.expect _)
        intro _
        exact .pure _

theorem block_coincide : ∀ (depth : Nat) {n : Nat}, n ≤ bound → n ≤ bound' →
    Coincide n n (block bound depth) (block bound' depth)
  | 0, _, _, _ => .tooDeep
  | depth + 1, n, h, h' => by
      rw [block, block]
      -- Behind the brace there are fewer tokens than the bound counts
      -- statements.
      apply Coincide.advance_bind
      intro k hk
      apply Coincide.bind
      · apply statementsWithin_coincide _ length_lt_of_statement (by omega)
          (by omega)
        intro j hj
        exact statement_coincide depth (by omega) (by omega)
      · intro b
        apply Coincide.bind (.expect _)
        intro _
        exact .pure _

end

theorem program_eq_of_length_le {ts : List Token} (h : ts.length ≤ bound)
    (h' : ts.length ≤ bound') (depth : Nat) :
    program bound depth ts = program bound' depth ts := by
  have hcoincide : Coincide ts.length ts.length (program bound depth)
      (program bound' depth) := by
    rw [program, program]
    apply Coincide.bind (statement_coincide depth h h')
    intro s
    apply Coincide.look
    intro t
    exact .ite (.pure _) (.refuse _)
  exact (hcoincide ts (Nat.le_refl _)).1

end Bounds

end Tree.Read

namespace Emitter

variable {e e' : Emitter}

theorem lookahead_eq_of_later {start start' : Emitter}
    (hstart : start.stream = start'.stream) (hlater : start.Later e)
    (hlater' : start'.Later e') (hupcoming : e.upcoming = e'.upcoming) :
    e.lookahead = e'.lookahead := by
  have hlength : e.stream.1.length = e'.stream.1.length := by
    simpa [upcoming] using congrArg List.length hupcoming
  have hsuffix := hlater.suffix
  rw [hstart] at hsuffix
  have hsame : e.stream.1 = e'.stream.1 :=
    (List.suffix_of_suffix_length_le hsuffix hlater'.suffix
      (Nat.le_of_eq hlength)).eq_of_length
      hlength
  obtain ⟨later, hfirst⟩ := e.exists_stream
  obtain ⟨later', hfirst'⟩ := e'.exists_stream
  rw [hfirst, hfirst'] at hsame
  exact (List.cons.inj hsame).1

/-- What a part of a compilation comes to, without the state it ends in. -/
def verdict {β : Type} :
    EStateM.Result CompileError Emitter β → Except CompileError β
  | .ok a _ => .ok a
  | .error error _ => .error error

theorem verdict_eq_of_agrees {α β : Type} {start start' : Emitter}
    {Q : α → β → Builder → Prop}
    {result result' : EStateM.Result CompileError Emitter β}
    {reading reading' : EStateM.Result Obstacle (List Token) α}
    (hstart : start.stream = start'.stream) (hreading : reading = reading')
    (hQ : ∀ {a c c' b b'}, Q a c b → Q a c' b' → c = c')
    (h : Agrees start Q result reading)
    (h' : Agrees start' Q result' reading') :
    verdict result = verdict result' := by
  cases h with
  | done _ hdone =>
      cases h' with
      | done _ hdone' =>
          obtain ⟨rfl, -⟩ := EStateM.Result.ok.inj hreading
          exact congrArg Except.ok (hQ hdone hdone')
      | unexpected | missing | tooDeep => cases hreading
  | unexpected hlater =>
      cases h' with
      | unexpected hlater' =>
          obtain ⟨hexpected, hupcoming⟩ := EStateM.Result.error.inj hreading
          obtain rfl := Obstacle.unexpected.inj hexpected
          simp only [verdict,
            lookahead_eq_of_later hstart hlater hlater' hupcoming]
      | done | missing | tooDeep => cases hreading
  | missing herror =>
      cases h' with
      | missing herror' =>
          rw [hstart, herror'] at herror
          rw [verdict, verdict, Option.some.inj herror]
      | done | unexpected | tooDeep => cases hreading
  | tooDeep hlater =>
      cases h' with
      | tooDeep hlater' =>
          obtain ⟨-, hupcoming⟩ := EStateM.Result.error.inj hreading
          simp only [verdict,
            lookahead_eq_of_later hstart hlater hlater' hupcoming]
      | done | unexpected | missing => cases hreading

theorem verdict_compileProgram {start start' : Emitter} {bound bound' : Nat}
    (hcode : start.builder = {}) (hcode' : start'.builder = {})
    (hstart : start.stream = start'.stream)
    (hbound : start.upcoming.length ≤ bound)
    (hbound' : start'.upcoming.length ≤ bound') (limit : Nat) (name : String) :
    verdict (compileProgram bound limit name start) =
      verdict (compileProgram bound' limit name start') := by
  have hagrees := compileProgram_tracks bound limit name start hcode trivial
  have hagrees' := compileProgram_tracks bound' limit name start' hcode' trivial
  have hupcoming : start.upcoming = start'.upcoming := by
    rw [upcoming, hstart, upcoming]
  rw [← hupcoming] at hbound' hagrees'
  have hread := Read.program_eq_of_length_le hbound hbound' limit
  refine verdict_eq_of_agrees hstart hread ?_ hagrees hagrees'
  rintro t program program' _ _ rfl rfl
  rfl

end Emitter

namespace Source

variable {s s' : Source}

theorem outcome_eq_verdict {first : Lexeme} {behind : Cursor}
    (hnext : s.start.next = (.ok first, behind)) (limit : Nat) :
    (s.compileWithin limit).outcome =
      Emitter.verdict (compileProgram (behind.rest.length + 2) limit s.name
        { lookahead := first, cursor := behind }) := by
  rw [outcome_of_next hnext]
  generalize compileProgram _ limit s.name _ = result
  cases result <;> rfl

theorem exists_tokens_of_next {first : Lexeme} {behind : Cursor}
    (hnext : s.start.next = (.ok first, behind)) :
    ∃ later, s.start.tokens.1 = first :: later := by
  rw [← Emitter.stream_start hnext]
  exact Emitter.exists_stream _

/-- Texts with the same tokens at the same places come to the same, under every
limit. -/
theorem outcome_eq_of_tokens_eq (htokens : s.start.tokens = s'.start.tokens)
    (hname : s.name = s'.name) (limit : Nat) :
    (s.compileWithin limit).outcome = (s'.compileWithin limit).outcome := by
  rcases hnext : s.start.next with ⟨error | first, behind⟩ <;>
    rcases hnext' : s'.start.next with ⟨error' | first', behind'⟩
  · rw [Cursor.tokens_of_error hnext, Cursor.tokens_of_error hnext'] at htokens
    rw [outcome_of_next_error hnext, outcome_of_next_error hnext',
      Option.some.inj (Prod.mk.inj htokens).2]
  · obtain ⟨later, hlater⟩ := exists_tokens_of_next hnext'
    rw [← htokens, Cursor.tokens_of_error hnext] at hlater
    cases hlater
  · obtain ⟨later, hlater⟩ := exists_tokens_of_next hnext
    rw [htokens, Cursor.tokens_of_error hnext'] at hlater
    cases hlater
  · rw [outcome_eq_verdict hnext, outcome_eq_verdict hnext', ← hname]
    apply Emitter.verdict_compileProgram rfl rfl
    · rw [Emitter.stream_start hnext, Emitter.stream_start hnext', htokens]
    · exact Emitter.length_upcoming_le first behind
    · exact Emitter.length_upcoming_le first' behind'

end Source

end OnePass

import OnePass.Proofs.CallLedger
import OnePass.Proofs.TokenStream

/-!
A budget for the calls of a compilation. Every lexeme that is still to be read
pays for seven calls, for no phrase goes down further than six levels before it
takes a token. A part of a compilation is started with some credit beside that
and hands on what is left of it. Since nothing is ever owed, fuel for the budget
is enough, and a compilation with limits that the budget does not exceed does
the same.
-/

namespace OnePass

namespace Emitter

variable {α β : Type}

theorem length_stream_pos (e : Emitter) : 0 < e.stream.1.length := by
  obtain ⟨later, hlater⟩ := e.exists_stream
  rw [hlater]
  exact Nat.succ_pos later.length

/-- An operation that leaves what is to be read as it is, and fails only because
of the code. -/
def Quiet (x : Emit α) : Prop :=
  ∀ e : Emitter, (∃ a e', x e = .ok a e' ∧ e'.stream = e.stream) ∨
    ∃ fault e', x e = .error (.malformed fault) e'

theorem quiet_onCode (operation : Build α) : Quiet (onCode operation) := by
  intro e
  cases hresult : operation e.builder with
  | ok a b =>
      exact .inl ⟨a, { e with builder := b }, by simp only [onCode, hresult],
        stream_congr rfl rfl⟩
  | error fault b =>
      exact .inr ⟨fault,
        { e with builder := b }, by simp only [onCode, hresult]⟩

theorem quiet_here : Quiet here :=
  fun e => .inl ⟨e.builder.here, e, rfl, rfl⟩

theorem quiet_report (report : Emitter → List Event) (a : α) :
    Quiet (do modify fun e => { e with events := report e }; return a) :=
  fun e => .inl ⟨a, { e with events := report e }, rfl, stream_congr rfl rfl⟩

theorem Quiet.bind {x : Emit α} {f : α → Emit β} (hx : Quiet x)
    (hf : ∀ a, Quiet (f a)) :
    Quiet (x >>= f) := by
  intro e
  change (∃ a e', EStateM.bind x f e = .ok a e' ∧ _) ∨
    ∃ fault e', EStateM.bind x f e = _
  unfold EStateM.bind
  rcases hx e with ⟨a, e', hresult, hstream⟩ | ⟨fault, e', hresult⟩
  · rw [hresult, ← hstream]
    exact hf a e'
  · rw [hresult]
    exact .inr ⟨fault, e', rfl⟩

theorem Quiet.discard {x : Emit α} (hx : Quiet x) : Quiet (discard x) := by
  intro e
  change (∃ a e', EStateM.map (fun _ => ()) x e = .ok a e' ∧ _) ∨
    ∃ fault e', EStateM.map (fun _ => ()) x e = _
  unfold EStateM.map
  rcases hx e with ⟨a, e', hresult, hstream⟩ | ⟨fault, e', hresult⟩
  · rw [hresult]
    exact .inl ⟨(), e', rfl, hstream⟩
  · rw [hresult]
    exact .inr ⟨fault, e', rfl⟩

theorem quiet_emit (op : Opcode) : Quiet (emit op) :=
  (quiet_onCode _).discard

theorem quiet_emitWith (op : Opcode) (operand : Int) :
    Quiet (emitWith op operand) :=
  (quiet_onCode _).discard

theorem quiet_jumpBack (op : Opcode) (target : Nat) :
    Quiet (jumpBack op target) :=
  (quiet_onCode _).discard

theorem quiet_jumpForward (op : Opcode) : Quiet (jumpForward op) :=
  quiet_onCode _

theorem quiet_land (jump : Nat) : Quiet (land jump) :=
  quiet_here.bind fun _ => (quiet_onCode _).bind fun _ => quiet_report _ ()

end Emitter

namespace Ledgered

variable {α β : Type}

/-- How a part of a compilation ends that is started at `e` with the credit `p`:
with the given result, and after success with the credit `q`. It is given for
every amount of spare fuel, which makes no difference, and no limit is the
reason for a failure. -/
inductive Ends (e : Emitter) (x : Nat → Ledgered α) (p q : Nat) :
    EStateM.Result CompileError Emitter α → Prop where
  | done {a : α} {e' : Emitter} {calls : Nat} {taken : List Lexeme}
      (ends : ∀ spare earlier before, x spare ⟨e, earlier, before⟩ =
        some (.ok a, ⟨e', earlier + calls, before ++ taken⟩))
      (takes : e.stream.1 = taken ++ e'.stream.1) (unended : ∀ l ∈ taken,
        l.token ≠ .endOfInput)
      (pays : calls + (7 * e'.stream.1.length + q) ≤
        7 * e.stream.1.length + p) :
      Ends e x p q (.ok a e')
  | failed {error : CompileError} {e' : Emitter} {calls : Nat}
      {taken : List Lexeme}
      (ends : ∀ spare earlier before, x spare ⟨e, earlier, before⟩ =
        some (.error error, ⟨e', earlier + calls, before ++ taken⟩))
      (takes : taken <+: e.stream.1) (unended : ∀ l ∈ taken,
        l.token ≠ .endOfInput)
      (pays : calls ≤ 7 * e.stream.1.length + p)
      (limit : ∀ found, error ≠ .tooDeep found) :
      Ends e x p q (.error error e')

theorem Ends.of_le {e : Emitter} {x : Nat → Ledgered α} {p q p' q' : Nat}
    {result : EStateM.Result CompileError Emitter α} (h : Ends e x p q result)
    (hp : p ≤ p') (hq : q' + p ≤ q + p') : Ends e x p' q' result := by
  cases h with
  | done ends takes unended pays => exact .done ends takes unended (by omega)
  | failed ends takes unended pays limit =>
      exact .failed ends takes unended (by omega) limit

theorem Ends.idle {e e' : Emitter} {x : Ledgered α} {p : Nat} {a : α}
    (hx : ∀ earlier before,
      x ⟨e, earlier, before⟩ = some (.ok a, ⟨e', earlier, before⟩))
    (hstream : e'.stream = e.stream) : Ends e (fun _ => x) p p (.ok a e') := by
  have hends : ∀ earlier before, x ⟨e, earlier, before⟩ =
      some (.ok a, ⟨e', earlier + 0, before ++ []⟩) := by
    intro earlier before
    rw [hx, Nat.add_zero, List.append_nil]
  refine .done (fun _ => hends) ?_ (List.forall_mem_nil _) ?_
  · rw [hstream, List.nil_append]
  · exact Nat.le_of_eq (by rw [hstream, Nat.zero_add])

theorem Ends.refused {e e' : Emitter} {x : Nat → Ledgered α} {p q : Nat}
    {error : CompileError}
    (hx : ∀ spare earlier before,
      x spare ⟨e, earlier, before⟩ = some (.error error, ⟨e', earlier, before⟩))
    (hlimit : ∀ found, error ≠ .tooDeep found) :
    Ends e x p q (.error error e') := by
  have hends : ∀ spare earlier before, x spare ⟨e, earlier, before⟩ =
      some (.error error, ⟨e', earlier + 0, before ++ []⟩) := by
    intro spare earlier before
    rw [hx, Nat.add_zero, List.append_nil]
  exact .failed hends List.nil_prefix (List.forall_mem_nil _)
    (Nat.zero_le _) hlimit

theorem Ends.after {e : Emitter} {x x' : Nat → Ledgered α} {p q n : Nat}
    {result : EStateM.Result CompileError Emitter α} (h : Ends e x p q result)
    (hx : ∀ spare earlier before,
      x' spare ⟨e, earlier, before⟩ = x spare ⟨e, earlier + n, before⟩) :
    Ends e x' (p + n) q result := by
  cases h with
  | @done a e' calls taken ends takes unended pays =>
      have hends : ∀ spare earlier before, x' spare ⟨e, earlier, before⟩ =
          some (.ok a, ⟨e', earlier + (n + calls), before ++ taken⟩) := by
        intro spare earlier before
        rw [hx, ends, Nat.add_assoc]
      exact .done hends takes unended (by omega)
  | @failed error e' calls taken ends takes unended pays limit =>
      have hends : ∀ spare earlier before, x' spare ⟨e, earlier, before⟩ =
          some (.error error,
            ⟨e', earlier + (n + calls), before ++ taken⟩) := by
        intro spare earlier before
        rw [hx, ends, Nat.add_assoc]
      exact .failed hends takes unended (by omega) limit

theorem Ends.bind {e : Emitter} {x : Nat → Ledgered α} {y : Emit α}
    {f : Nat → α → Ledgered β} {g : α → Emit β} {p q r : Nat}
    (hx : Ends e x p q (y e))
    (hf : ∀ a e', 7 * e'.stream.1.length + q ≤ 7 * e.stream.1.length + p →
      Ends e' (fun spare => f spare a) q r (g a e')) :
    Ends e (fun spare => x spare >>= f spare) p r ((y >>= g) e) := by
  change Ends e _ p r (EStateM.bind y g e)
  unfold EStateM.bind
  generalize y e = result at hx ⊢
  cases hx with
  | @done a e' calls taken ends takes unended pays =>
      have hfirst := fun spare earlier before =>
        bind_of_ok (ends spare earlier before) (f spare)
      have hsecond := hf a e' (by omega)
      change Ends e _ p r (g a e')
      generalize g a e' = result at hsecond ⊢
      cases hsecond with
      | @done b e'' calls' taken' ends' takes' unended' pays' =>
          have hends : ∀ spare earlier before,
              (x spare >>= f spare) ⟨e, earlier, before⟩ =
              some (.ok b, ⟨e'', earlier + (calls + calls'),
                before ++ (taken ++ taken')⟩) := by
            intro spare earlier before
            rw [hfirst, ends', Nat.add_assoc, List.append_assoc]
          refine .done hends ?_ (List.forall_mem_append.mpr ⟨unended, unended'⟩)
            (by omega)
          rw [takes, takes', List.append_assoc]
      | @failed error e'' calls' taken' ends' takes' unended' pays' limit =>
          have hends : ∀ spare earlier before,
              (x spare >>= f spare) ⟨e, earlier, before⟩ =
              some (.error error,
                ⟨e'', earlier + (calls + calls'),
                before ++ (taken ++ taken')⟩) := by
            intro spare earlier before
            rw [hfirst, ends', Nat.add_assoc, List.append_assoc]
          refine .failed hends ?_
            (List.forall_mem_append.mpr ⟨unended, unended'⟩) (by omega) limit
          rw [takes]
          exact (List.prefix_append_right_inj taken).mpr takes'
  | failed ends takes unended pays limit =>
      have hends := fun spare earlier before =>
        bind_of_error (ends spare earlier before) (f spare)
      exact .failed hends takes unended pays limit

/-- Wherever `A` holds and the budget does not exceed `limit`, the part `x` of a
compilation ends as its counterpart `y` does, which has limits. -/
def Pays (limit p q : Nat) (A : Emitter → Prop) (x : Nat → Ledgered α)
    (y : Emit α) : Prop :=
  ∀ e : Emitter, A e → 7 * e.stream.1.length + p ≤ limit → Ends e x p q (y e)

namespace Pays

variable {limit p q r : Nat} {A : Emitter → Prop} {x : Nat → Ledgered α}
  {y : Emit α}
  {f : Nat → α → Ledgered β} {g : α → Emit β}

theorem weaken {B : Emitter → Prop} (h : Pays limit p q B x y)
    (hA : ∀ e, A e → B e) :
    Pays limit p q A x y :=
  fun e he => h e (hA e he)

theorem of_le {p' q' : Nat} (h : Pays limit p q A x y) (hp : p ≤ p')
    (hq : q' + p ≤ q + p') :
    Pays limit p' q' A x y := by
  intro e hA hbudget
  exact (h e hA (by omega)).of_le hp hq

theorem keep {q' : Nat} (h : Pays limit p q A x y) (hq : q' ≤ q) :
    Pays limit p q' A x y :=
  h.of_le (Nat.le_refl p) (Nat.add_le_add_right hq p)

theorem of_length (n : Nat)
    (h : Pays limit p q (fun e => e.stream.1.length ≤ n) x y)
    (hn : limit < 7 * (n + 1) + p) : Pays limit p q A x y := by
  intro e _ hbudget
  exact h e (by omega) hbudget

/-- One part behind another. Where the second one starts, at most `n` lexemes
are left. -/
theorem bind_of_length {m : Nat} (n : Nat) (hx : Pays limit p q A x y)
    (hA : ∀ e, A e → e.stream.1.length ≤ m) (hn : 7 * m + p < 7 * (n + 1) + q)
    (hf : ∀ a, Pays limit q r (fun e => e.stream.1.length ≤ n)
      (fun spare => f spare a) (g a)) :
    Pays limit p r A (fun spare => x spare >>= f spare) (y >>= g) := by
  intro e he hbudget
  have hlength := hA e he
  refine (hx e he hbudget).bind fun a e' hle =>
    hf a e' ?_ (Nat.le_trans hle hbudget)
  omega

theorem bind (hx : Pays limit p q A x y)
    (hf : ∀ a, Pays limit q r (fun _ => True) (fun spare => f spare a) (g a)) :
    Pays limit p r A (fun spare => x spare >>= f spare) (y >>= g) := by
  intro e he hbudget
  exact (hx e he hbudget).bind fun a e' hle =>
    hf a e' trivial (Nat.le_trans hle hbudget)

theorem ite {c : Prop} [Decidable c] {x' : Nat → Ledgered α} {y' : Emit α}
    (hpos : c → Pays limit p q A x y) (hneg : ¬c → Pays limit p q A x' y') :
    Pays limit p q A (fun spare => if c then x spare else x' spare) (if c then y
      else y') := by
  by_cases hc : c
  · simp only [if_pos hc]
    exact hpos hc
  · simp only [if_neg hc]
    exact hneg hc

theorem pure (a : α) : Pays limit p p A (fun _ => pure a) (pure a) :=
  fun _ _ _ => .idle (fun _ _ => rfl) rfl

theorem perform (hy : Emitter.Quiet y) :
    Pays limit p p A (fun _ => Ledgered.pass.perform y)
      (Emitter.pass.perform y) := by
  intro e _ _
  show Ends e (fun _ => Ledgered.perform y) p p (y e)
  rcases hy e with ⟨a, e', hresult, hstream⟩ | ⟨fault, e', hresult⟩
  · rw [hresult]
    refine .idle (fun earlier before => ?_) hstream
    rw [Ledgered.perform, hresult]
  · rw [hresult]
    refine .refused (fun spare earlier before => ?_) (fun _ h => by cases h)
    rw [Ledgered.perform, hresult]

theorem refuse (expected : Expectation) :
    Pays limit p q A (fun _ => (Ledgered.pass.refuse expected : Ledgered α))
      (Emitter.pass.refuse expected) :=
  fun _ _ _ => .refused (fun _ _ _ => rfl) (fun _ h => by cases h)

theorem refuse_bind (expected : Expectation) :
    Pays limit p r A (fun spare => Ledgered.pass.refuse expected >>= f spare)
      (Emitter.pass.refuse expected >>= g) :=
  fun _ _ _ => .refused (fun _ _ _ => rfl) (fun _ h => by cases h)

theorem look {f : Nat → Token → Ledgered β} {g : Token → Emit β}
    (hf : ∀ t, Pays limit p q (fun e => A e ∧ e.lookahead.token = t)
      (fun spare => f spare t) (g t)) :
    Pays limit p q A (fun spare => Ledgered.pass.look >>= f spare)
      (Emitter.pass.look >>= g) := by
  intro e he hbudget
  have hends := hf e.lookahead.token e ⟨he, rfl⟩ hbudget
  exact hends.after (n := 0) fun _ _ _ => rfl

theorem advance (hA : ∀ e, A e → e.lookahead.token ≠ .endOfInput) :
    Pays limit p (p + 7) A (fun _ => Ledgered.advance) Emitter.advance := by
  intro e he _
  have hlookahead := hA e he
  have hstart : ∀ earlier before, Ledgered.advance ⟨e, earlier, before⟩ =
      Ledgered.perform Emitter.advance ⟨e, earlier, before ++ [e.lookahead]⟩ :=
        fun _ _ => rfl
  have hunended : ∀ l ∈ [e.lookahead], l.token ≠ .endOfInput := by
    simpa using hlookahead
  rcases hnext : e.cursor.next with ⟨error | l, behind⟩
  · have hends : ∀ earlier before, Ledgered.advance ⟨e, earlier, before⟩ =
        some (.error (.lexical error),
          ⟨{ e with cursor := behind }, earlier + 0,
          before ++ [e.lookahead]⟩) := by
      intro earlier before
      rw [hstart, Ledgered.perform, Emitter.advance_of_next_error hnext]
      rfl
    rw [Emitter.advance_of_next_error hnext]
    have hstream := Emitter.stream_of_next_error hlookahead hnext
    refine .failed (fun _ => hends) ⟨[], ?_⟩ hunended (Nat.zero_le _)
      fun _ h => by cases h
    rw [hstream]
    rfl
  · have hends : ∀ earlier before, Ledgered.advance ⟨e, earlier, before⟩ =
        some (.ok (), ⟨{ e with lookahead := l, cursor := behind }, earlier + 0,
          before ++ [e.lookahead]⟩) := by
      intro earlier before
      rw [hstart, Ledgered.perform, Emitter.advance_of_next hnext]
      rfl
    have hstream := Emitter.stream_of_next hlookahead hnext
    rw [Emitter.advance_of_next hnext]
    refine .done (fun _ => hends) (by rw [hstream]; rfl) hunended ?_
    rw [hstream, List.length_cons]
    omega

theorem expect {t : Token} (ht : t ≠ .endOfInput) :
    Pays limit p (p + 7) A (fun _ => Ledgered.pass.expect t)
      (Emitter.pass.expect t) := by
  refine look fun next => .ite (fun hnext => ?_) fun _ => refuse _
  exact advance fun e he => he.2 ▸ hnext ▸ ht

theorem start (h : Pays limit p q A x y) :
    Pays (limit + 1) (p + 1) q A
      (fun spare => do Ledgered.start; x spare) y := by
  intro e he hbudget
  have hends := h e he (by omega)
  exact hends.after fun _ _ _ => rfl

section Sequence

variable {x : Nat → Ledgered Unit} {y : Emit Unit} {f : Nat → Unit → Ledgered β}
  {g : Unit → Emit β}

/-- A phrase and what follows it. The phrase costs a part of the credit and
gives something back. -/
theorem call_bind {cost change : Nat} (hx : Pays limit cost change A x y)
    (hcost : cost ≤ p)
    (hf : Pays limit (p - cost + change) r (fun _ => True)
      (fun spare => f spare ()) (g ())) :
    Pays limit p r A (fun spare => x spare >>= f spare) (y >>= g) :=
  .bind (hx.of_le hcost (by omega)) fun _ => hf

theorem advance_bind (hA : ∀ e, A e → e.lookahead.token ≠ .endOfInput)
    (hf : Pays limit (p + 7) r (fun _ => True) (fun spare => f spare ()) (g ())) :
    Pays limit p r A (fun spare => Ledgered.advance >>= f spare)
      (Emitter.advance >>= g) :=
  .bind (.advance hA) fun _ => hf

theorem take_bind {t : Token} (ht : t ≠ .endOfInput)
    (hf : Pays limit (p + 7) r (fun _ => True) (fun spare => f spare ()) (g ())) :
    Pays limit p r (fun e => A e ∧ e.lookahead.token = t)
      (fun spare => Ledgered.advance >>= f spare)
      (Emitter.advance >>= g) :=
  advance_bind (fun _ he => he.2 ▸ ht) hf

theorem expect_bind {t : Token} (ht : t ≠ .endOfInput)
    (hf : Pays limit (p + 7) r (fun _ => True) (fun spare => f spare ()) (g ())) :
    Pays limit p r A (fun spare => Ledgered.pass.expect t >>= f spare)
      (Emitter.pass.expect t >>= g) :=
  .bind (.expect ht) fun _ => hf

end Sequence

theorem perform_bind (hy : Emitter.Quiet y)
    (hf : ∀ a, Pays limit p r (fun _ => True) (fun spare => f spare a) (g a)) :
    Pays limit p r A (fun spare => Ledgered.pass.perform y >>= f spare)
      (Emitter.pass.perform y >>= g) :=
  .bind (.perform hy) hf

end Pays

end Ledgered

namespace Phrase

open Emitter Ledgered

/-- The credit that a phrase is started with, one call for every level down to
its first token. -/
def credit : Phrase → Nat
  | .statement => 6
  | .expression => 5
  | .test => 4
  | .sum => 3
  | .term => 2
  | _ => 1

/-- The credit that a phrase hands on. It is more than before, unless the phrase
may be empty. -/
def change : Phrase → Nat
  | .statement => 7
  | .expression => 6
  | .test => 6
  | .sum => 7
  | .sumTail => 0
  | .testTail => 0
  | _ => 8

/-- Where a phrase may be called for. Some take their first token without
looking at it. -/
def Admits : Phrase → Emitter → Prop
  | .ifStatement, e | .whileStatement, e | .doStatement, e | .block, e =>
      e.lookahead.token ≠ .endOfInput
  | _, _ => True

/-- A list of statements ends while there are lexemes left, so neither the fuel
nor the bound cuts it off. -/
theorem statementsWithin_pays {limit : Nat} {run : Nat → Ledgered Unit}
    {statement : Emit Unit} (h : Pays limit 6 7 (fun _ => True) run statement)
    (count : Nat) {fuel bound : Nat} (hfuel : count ≤ fuel)
    (hbound : count ≤ bound) :
    Pays limit 6 6 (fun e => e.stream.1.length ≤ count)
      (fun spare => statementsWithin Ledgered.pass (run spare) (fuel + spare))
      (statementsWithin Emitter.pass statement bound) := by
  induction count generalizing fuel bound with
  | zero =>
      intro e he
      exact absurd e.length_stream_pos (Nat.not_lt.mpr he)
  | succ count ih =>
      obtain ⟨fuel, rfl⟩ :=
        Nat.exists_eq_add_one_of_ne_zero (Nat.ne_zero_of_lt hfuel)
      obtain ⟨bound, rfl⟩ :=
        Nat.exists_eq_add_one_of_ne_zero (Nat.ne_zero_of_lt hbound)
      simp only [Nat.add_right_comm fuel 1, statementsWithin]
      refine .look fun t => ?_
      cases t
      case rightBrace => exact .pure ()
      case endOfInput => exact .refuse _
      all_goals
        refine .bind_of_length count (h.weaken fun _ _ => trivial)
          (fun e he => he.1) (by omega) fun _ => ?_
        exact (ih (by omega) (by omega)).of_le (by decide) (by decide)

theorem termsWithin_pays {limit : Nat} {run : Nat → Ledgered Unit}
    {term : Emit Unit} (h : Pays limit 2 8 (fun _ => True) run term)
    (count : Nat) {fuel bound : Nat} (hfuel : count ≤ fuel)
    (hbound : count ≤ bound) :
    Pays limit 0 0 (fun e => e.stream.1.length ≤ count)
      (fun spare => termsWithin Ledgered.pass (run spare) (fuel + spare))
      (termsWithin Emitter.pass term bound) := by
  induction count generalizing fuel bound with
  | zero =>
      intro e he
      exact absurd e.length_stream_pos (Nat.not_lt.mpr he)
  | succ count ih =>
      obtain ⟨fuel, rfl⟩ :=
        Nat.exists_eq_add_one_of_ne_zero (Nat.ne_zero_of_lt hfuel)
      obtain ⟨bound, rfl⟩ :=
        Nat.exists_eq_add_one_of_ne_zero (Nat.ne_zero_of_lt hbound)
      simp only [Nat.add_right_comm fuel 1, termsWithin]
      refine .look fun t => ?_
      have hround : ∀ (op : Opcode) (sign : Token), sign ≠ .endOfInput →
          Pays limit 0 0
          (fun e => e.stream.1.length ≤ count + 1 ∧ e.lookahead.token = sign)
          (fun spare => do
            Ledgered.pass.advance
            run spare
            Ledgered.pass.emit op
            termsWithin Ledgered.pass (run spare) (fuel + spare))
          (do
            Emitter.pass.advance
            term
            Emitter.pass.emit op
            termsWithin Emitter.pass term bound) := by
        intro op sign hsign
        refine .bind_of_length count (.advance fun e he => he.2 ▸ hsign)
          (fun e he => he.1) (by omega)
          fun _ => ?_
        have hterm :
            Pays limit 7 13 (fun e => e.stream.1.length ≤ count) run term :=
          (h.of_le (by decide) (by decide)).weaken fun _ _ => trivial
        refine .bind_of_length count hterm (fun e he => he) (by omega)
          fun _ => ?_
        refine .bind_of_length count (.perform (quiet_emit op)) (fun e he => he)
          (by omega) fun _ => ?_
        exact (ih (by omega) (by omega)).of_le (by decide) (by decide)
      cases t
      case plus => exact hround .add .plus (by decide)
      case minus => exact hround .sub .minus (by decide)
      all_goals exact .pure ()

section Body

variable {limit fuel bound : Nat} {run : Nat → Phrase → Ledgered Unit}
  {compile : Phrase → Emit Unit}
  (h : ∀ part : Phrase, Pays limit part.credit part.change part.Admits
    (fun spare => run spare part) (compile part))
include h

theorem statement_pays :
    Pays (limit + 1) (credit .statement) (change .statement) (Admits .statement)
      (fun spare => do
        start
        body Ledgered.pass (fuel + spare) (run spare) .statement)
      (body Emitter.pass bound compile .statement) := by
  simp only [body]
  refine .start (.look fun t => ?_)
  have hfound : ∀ keyword : Token, keyword ≠ .endOfInput → ∀ e : Emitter,
      Admits .statement e ∧ e.lookahead.token = keyword →
      e.lookahead.token ≠ .endOfInput :=
    fun keyword hkeyword e he => he.2 ▸ hkeyword
  cases t
  case ifWord =>
    exact .weaken ((h .ifStatement).of_le (by decide) (by decide))
      (hfound _ (by decide))
  case whileWord =>
    exact .weaken ((h .whileStatement).of_le (by decide) (by decide))
      (hfound _ (by decide))
  case doWord =>
    exact .weaken ((h .doStatement).of_le (by decide) (by decide))
      (hfound _ (by decide))
  case leftBrace =>
    exact .weaken ((h .block).of_le (by decide) (by decide))
      (hfound _ (by decide))
  case semicolon =>
    exact .keep (.advance (hfound _ (by decide))) (by decide)
  all_goals
    refine .call_bind ((h .expression).weaken fun _ _ => trivial)
      (by decide) ?_
    refine .expect_bind (by decide) ?_
    exact .keep (.perform (quiet_emit _)) (by decide)

theorem ifStatement_pays :
    Pays (limit + 1) (credit .ifStatement) (change .ifStatement) (Admits .ifStatement)
      (fun spare => do
        start
        body Ledgered.pass (fuel + spare) (run spare) .ifStatement)
      (body Emitter.pass bound compile .ifStatement) := by
  simp only [body]
  refine .start (.advance_bind (fun _ he => he) ?_)
  refine .call_bind (h .parenthesized) (by decide) ?_
  refine .perform_bind (quiet_jumpForward _) fun skipThen => ?_
  refine .call_bind (h .statement) (by decide) ?_
  refine .look fun t => ?_
  refine .ite ?_ fun _ => ?_
  · rintro rfl
    refine .take_bind (by decide) ?_
    refine .perform_bind (quiet_jumpForward _) fun skipElse => ?_
    refine .perform_bind (quiet_land _) fun _ => ?_
    refine .call_bind (h .statement) (by decide) ?_
    exact .keep (.perform (quiet_land _)) (by decide)
  · exact .keep (.perform (quiet_land _)) (by decide)

theorem whileStatement_pays :
    Pays (limit + 1) (credit .whileStatement) (change .whileStatement) (Admits .whileStatement)
      (fun spare => do
        start
        body Ledgered.pass (fuel + spare) (run spare) .whileStatement)
      (body Emitter.pass bound compile .whileStatement) := by
  simp only [body]
  refine .start (.advance_bind (fun _ he => he) ?_)
  refine .perform_bind quiet_here fun top => ?_
  refine .call_bind (h .parenthesized) (by decide) ?_
  refine .perform_bind (quiet_jumpForward _) fun exit => ?_
  refine .call_bind (h .statement) (by decide) ?_
  refine .perform_bind (quiet_jumpBack _ _) fun _ => ?_
  exact .keep (.perform (quiet_land _)) (by decide)

theorem doStatement_pays :
    Pays (limit + 1) (credit .doStatement) (change .doStatement) (Admits .doStatement)
      (fun spare => do
        start
        body Ledgered.pass (fuel + spare) (run spare) .doStatement)
      (body Emitter.pass bound compile .doStatement) := by
  simp only [body]
  refine .start (.advance_bind (fun _ he => he) ?_)
  refine .perform_bind quiet_here fun top => ?_
  refine .call_bind (h .statement) (by decide) ?_
  refine .look fun t => ?_
  refine .ite ?_ fun _ => ?_
  · rintro rfl
    refine .take_bind (by decide) ?_
    refine .call_bind (h .parenthesized) (by decide) ?_
    refine .expect_bind (by decide) ?_
    exact .keep (.perform (quiet_jumpBack _ _)) (by decide)
  · exact .refuse_bind _

theorem expression_pays :
    Pays (limit + 1) (credit .expression) (change .expression) (Admits .expression)
      (fun spare => do
        start
        body Ledgered.pass (fuel + spare) (run spare) .expression)
      (body Emitter.pass bound compile .expression) := by
  simp only [body]
  refine .start (.look fun t => ?_)
  cases t
  case «variable» v =>
    refine .take_bind (fun h => by cases h) ?_
    refine .look fun t => ?_
    refine .ite ?_ fun _ => ?_
    · rintro rfl
      refine .take_bind (by decide) ?_
      refine .call_bind (h .expression) (by decide) ?_
      exact .keep (.perform (quiet_emitWith _ _)) (by decide)
    · refine .perform_bind (quiet_emitWith _ _) fun _ => ?_
      refine .call_bind (h .sumTail) (by decide) ?_
      exact (h .testTail).of_le (by decide) (by decide)
  all_goals
    exact ((h .test).weaken fun _ _ => trivial).of_le (by decide)
      (by decide)

theorem term_pays :
    Pays (limit + 1) (credit .term) (change .term) (Admits .term)
      (fun spare => do
        start
        body Ledgered.pass (fuel + spare) (run spare) .term)
      (body Emitter.pass bound compile .term) := by
  simp only [body]
  refine .start (.look fun t => ?_)
  cases t
  case «variable» v =>
    refine .take_bind (fun h => by cases h) ?_
    exact .perform (quiet_emitWith _ _)
  case number n =>
    refine .take_bind (fun h => by cases h) ?_
    exact .perform (quiet_emitWith _ _)
  case leftParen =>
    exact ((h .parenthesized).weaken fun _ _ => trivial).of_le (by decide)
      (by decide)
  all_goals exact .refuse _

theorem body_pays (hfuel : limit ≤ fuel) (hbound : limit < 7 * (bound + 1)) :
    ∀ phrase : Phrase,
      Pays (limit + 1) phrase.credit phrase.change phrase.Admits
        (fun spare => do
          start
          phrase.body Ledgered.pass (fuel + spare) (run spare))
        (phrase.body Emitter.pass bound compile)
  | .statement => statement_pays h
  | .ifStatement => ifStatement_pays h
  | .whileStatement => whileStatement_pays h
  | .doStatement => doStatement_pays h
  | .block => by
      simp only [body]
      refine .start (.advance_bind (fun _ he => he) ?_)
      -- The budget is not enough for more lexemes than this, and every round of
      -- the list takes one.
      have hstatements := statementsWithin_pays (h .statement) (limit / 7)
        (by omega : limit / 7 ≤ fuel) (by omega : limit / 7 ≤ bound)
      refine .call_bind (.of_length _ hstatements (by omega)) (by decide) ?_
      exact .keep (.expect (by decide)) (by decide)
  | .parenthesized => by
      simp only [body]
      refine .start (.expect_bind (by decide) ?_)
      refine .call_bind (h .expression) (by decide) ?_
      exact .keep (.expect (by decide)) (by decide)
  | .expression => expression_pays h
  | .test => by
      simp only [body]
      refine .start (.call_bind (h .sum) (by decide) ?_)
      exact (h .testTail).of_le (by decide) (by decide)
  | .testTail => by
      simp only [body]
      refine .start (.look fun t => ?_)
      refine .ite ?_ fun _ => ?_
      · rintro rfl
        refine .take_bind (by decide) ?_
        refine .call_bind (h .sum) (by decide) ?_
        exact .keep (.perform (quiet_emit _)) (by decide)
      · exact .pure ()
  | .sum => by
      simp only [body]
      refine .start (.call_bind (h .term) (by decide) ?_)
      exact (h .sumTail).of_le (by decide) (by decide)
  | .sumTail => by
      simp only [body]
      have hterms := termsWithin_pays (h .term) (limit / 7)
        (by omega : limit / 7 ≤ fuel) (by omega : limit / 7 ≤ bound)
      exact .start (.of_length _ hterms (by omega))
  | .term => term_pays h

end Body

/-- Where the fuel and the limits are enough for the budget, they make no
difference. -/
theorem compileWithin_pays {bound : Nat} :
    ∀ {limit fuel depth : Nat} (phrase : Phrase), limit ≤ fuel →
      limit ≤ depth → limit ≤ 7 * (bound + 1) →
      Pays limit phrase.credit phrase.change phrase.Admits
      (fun spare => compileFueled (fuel + spare) phrase)
        (compileWithin bound depth phrase)
  | 0, _, _, _, _, _, _ => by
      intro e _ hbudget
      have hlength := e.length_stream_pos
      omega
  | limit + 1, fuel + 1, depth + 1, phrase, hfuel, hdepth, hbound => by
      simp only [Nat.add_right_comm fuel 1, compileFueled, compileWithin]
      refine body_pays (fun part => ?_) (Nat.le_of_succ_le_succ hfuel)
        (by omega) phrase
      exact compileWithin_pays part (by omega) (by omega) (by omega)

end Phrase

theorem compileProgram_pays {bound limit fuel depth : Nat}
    (hfuel : limit ≤ fuel) (hdepth : limit ≤ depth)
    (hbound : limit ≤ 7 * (bound + 1)) (name : String) :
    Ledgered.Pays limit 6 7 (fun _ => True)
      (fun spare => compileProgramFueled (fuel + spare) name)
      (compileProgram bound depth name) := by
  refine .call_bind (Phrase.compileWithin_pays .statement hfuel hdepth hbound)
    (by decide) ?_
  refine .look fun t => .ite (fun _ => ?_) fun _ => .refuse _
  refine .keep (.perform ?_) (by decide)
  refine (Emitter.quiet_emit .halt).bind fun _ =>
    (Emitter.quiet_onCode _).bind fun program => ?_
  exact Emitter.quiet_report
    (fun e => .compiled name program.size :: e.events) program

end OnePass

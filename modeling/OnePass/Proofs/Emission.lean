import OnePass.Proofs.Backpatching
import OnePass.Proofs.TokenStream
import OnePass.Proofs.TreeReader
import OnePass.Tree.Code

namespace OnePass

open OnePass.Tree (Read Obstacle)

/-- A token that is a keyword or a sign, so that a message can name it by its
text. -/
def Token.HasText (t : Token) : Prop :=
  Token.keyword? t.spelling = some t ∨ ∃ c, t.spelling = [c] ∧
    Token.sign? c = some t

theorem Token.HasText.ne_endOfInput {t : Token} (h : t.HasText) :
    t ≠ .endOfInput := by
  rintro rfl
  rcases h with hkeyword | ⟨c, hspelling, -⟩
  · exact absurd hkeyword (by decide)
  · simp [Token.spelling] at hspelling

/-- If a certain token is expected, it has a text. -/
def Expectation.HasText (expected : Expectation) : Prop :=
  ∀ t, expected = .token t → t.HasText

namespace Emitter

/-- A state from which there is less of the same text to read. -/
structure Later (e e' : Emitter) : Prop where
  suffix : e'.stream.1 <:+ e.stream.1
  error : e'.stream.2 = e.stream.2

theorem Later.of_stream_eq {e e' : Emitter} (h : e'.stream = e.stream) :
    e.Later e' :=
  ⟨h ▸ List.suffix_refl _, h ▸ rfl⟩

theorem Later.refl (e : Emitter) : e.Later e :=
  .of_stream_eq rfl

theorem Later.trans {e e' e'' : Emitter} (h : e.Later e') (h' : e'.Later e'') :
    e.Later e'' :=
  ⟨h'.suffix.trans h.suffix, h'.error.trans h.error⟩

/-- The result of a part of a compilation that was started at `e`, and the
result of a reader. -/
inductive Agrees {α β : Type} (e : Emitter) (Q : α → β → Builder → Prop) :
    EStateM.Result CompileError Emitter β →
    EStateM.Result Obstacle (List Token) α → Prop where
  | done {a : α} {c : β} {e' : Emitter} (hlater : e.Later e')
      (hQ : Q a c e'.builder) :
      Agrees e Q (.ok c e') (.ok a e'.upcoming)
  | unexpected {expected : Expectation} {e' : Emitter} (hlater : e.Later e')
      (htext : expected.HasText) :
      Agrees e Q (.error (.unexpected expected e'.lookahead) e')
        (.error (.unexpected expected) e'.upcoming)
  | missing {error : LexError} {e' : Emitter} {rest : List Token}
      (herror : e.stream.2 = some error) :
      Agrees e Q (.error (.lexical error) e') (.error .missing rest)
  | tooDeep {e' : Emitter} (hlater : e.Later e') :
      Agrees e Q (.error (.tooDeep e'.lookahead) e')
        (.error .tooDeep e'.upcoming)

theorem Agrees.of_later {α β : Type} {e e' : Emitter}
    {Q : α → β → Builder → Prop}
    {result : EStateM.Result CompileError Emitter β}
    {reading : EStateM.Result Obstacle (List Token) α} (hlater : e.Later e')
    (h : Agrees e' Q result reading) : Agrees e Q result reading := by
  cases h with
  | done hlater' hQ => exact .done (hlater.trans hlater') hQ
  | unexpected hlater' htext => exact .unexpected (hlater.trans hlater') htext
  | missing herror => exact .missing (hlater.error ▸ herror)
  | tooDeep hlater' => exact .tooDeep (hlater.trans hlater')

theorem Agrees.conseq {α β : Type} {e : Emitter}
    {Q Q' : α → β → Builder → Prop}
    {result : EStateM.Result CompileError Emitter β}
    {reading : EStateM.Result Obstacle (List Token) α}
    (h : Agrees e Q result reading) (hQ : ∀ a c b, Q a c b → Q' a c b) :
    Agrees e Q' result reading := by
  cases h with
  | done hlater hdone => exact .done hlater (hQ _ _ _ hdone)
  | unexpected hlater htext => exact .unexpected hlater htext
  | missing herror => exact .missing herror
  | tooDeep hlater => exact .tooDeep hlater

theorem Agrees.exists_ok {α β : Type} {e : Emitter}
    {Q : α → β → Builder → Prop}
    {result : EStateM.Result CompileError Emitter β} {a : α}
    {rest : List Token} (h : Agrees e Q result (.ok a rest)) :
    ∃ c e', result = .ok c e' ∧ Q a c e'.builder := by
  generalize hreading : EStateM.Result.ok a rest = reading at h
  cases h with
  | @done _ c e' _ hQ =>
      cases hreading
      exact ⟨c, e', rfl, hQ⟩
  | unexpected | missing | tooDeep => cases hreading

/-- Whenever the code so far is `b` and the lookahead satisfies `A`, the
compilation `x` and the reader `r` agree, and `Q` relates what they give back
and the code afterwards. -/
def Tracks {α β : Type} (A : Token → Prop) (b : Builder) (x : Emit β)
    (r : Read α) (Q : α → β → Builder → Prop) : Prop :=
  ∀ e : Emitter, e.builder = b → A e.lookahead.token →
    Agrees e Q (x e) (r e.upcoming)

/-- An operation on the code `b` alone, with `b'` as the code afterwards. -/
def Appends {β : Type} (b : Builder) (x : Emit β) (c : β) (b' : Builder) :
    Prop :=
  ∀ e : Emitter, e.builder = b →
    ∃ events, x e = .ok c { e with builder := b', events := events }

section Appends

variable {β : Type} {b b' : Builder} {c : β}

theorem appends_onCode {operation : Build β} (h : operation b = .ok c b') :
    Appends b (onCode operation) c b' := by
  rintro e rfl
  refine ⟨e.events, ?_⟩
  simp only [onCode, h]

theorem Appends.discard {x : Emit β} (h : Appends b x c b') :
    Appends b (discard x) () b' := by
  intro e hb
  obtain ⟨events, hx⟩ := h e hb
  refine ⟨events, ?_⟩
  change EStateM.map (fun _ => ()) x e = _
  rw [EStateM.map, hx]

theorem appends_here (b : Builder) : Appends b here b.here b := by
  rintro e rfl
  exact ⟨e.events, rfl⟩

theorem appends_emit {op : Opcode} (hop : op.operandKind = .none)
    (b : Builder) :
    Appends b (emit op) () (b.append [op.word]) :=
  (appends_onCode (b.emit_plain hop)).discard

theorem appends_emitWith {op : Opcode} (hop : op.operandKind ≠ .none)
    (b : Builder) (operand : Int) :
    Appends b (emitWith op operand) ()
      (b.append [op.word, Builder.operandWord op operand]) :=
  (appends_onCode (b.emit_operand hop operand)).discard

theorem appends_jumpBack {op : Opcode} (hop : op.isJump = true) (b : Builder)
    (target : Nat) :
    Appends b (jumpBack op target) () (b.append [op.word, ↑target]) :=
  (appends_onCode (b.emitJump_back hop target)).discard

theorem appends_jumpForward {op : Opcode} (hop : op.isJump = true)
    (b : Builder) :
    Appends b (pass.jumpForward op) b.here (b.leap op) :=
  appends_onCode (b.emitJump_forward hop)

theorem appends_land {jump : Nat} {event : Event}
    (h : Builder.patch jump b.here b = .ok event b') :
    Appends b (land jump) () b' := by
  intro e hb
  obtain ⟨events, hcode⟩ := appends_onCode h e hb
  subst hb
  refine ⟨event :: events, ?_⟩
  change EStateM.bind (onCode (Builder.patch jump e.builder.here)) _ e = _
  rw [EStateM.bind, hcode]
  rfl

theorem appends_land_leap (b : Builder) (op : Opcode) (words : List Int) :
    Appends ((b.leap op).append words) (land b.here) ()
      (b.append (op.word :: ↑(b.here + 2 + words.length) :: words)) := by
  have hpatch := b.patch_leap op words ((b.leap op).append words).here
  have hland := appends_land hpatch
  rwa [Builder.here_append, Builder.here_leap] at hland

theorem appends_land_leap_leap (b : Builder) (op op' : Opcode)
    (words : List Int) :
    Appends (((b.leap op).append words).leap op') (land b.here) ()
      ((b.append (op.word :: ↑(b.here + 2 + words.length + 2) :: words)).leap
        op') := by
  have hpatch :=
    b.patch_leap_leap op op' words (((b.leap op).append words).leap op').here
  have hland := appends_land hpatch
  rwa [Builder.here_leap, Builder.here_append, Builder.here_leap] at hland

end Appends

namespace Tracks

variable {α α' β β' : Type} {A : Token → Prop} {b b' : Builder}
  {Q : α → β → Builder → Prop}
  {Q' : α' → β' → Builder → Prop}

theorem bind {x : Emit β} {r : Read α} {f : β → Emit β'} {g : α → Read α'}
    (hx : Tracks A b x r Q)
    (hf : ∀ a c b', Q a c b' → Tracks (fun _ => True) b' (f c) (g a) Q') :
    Tracks A b (x >>= f) (r >>= g) Q' := by
  intro e hb hA
  have hagrees := hx e hb hA
  change Agrees e Q' (EStateM.bind x f e) (EStateM.bind r g e.upcoming)
  unfold EStateM.bind
  generalize x e = result at hagrees ⊢
  generalize r e.upcoming = reading at hagrees ⊢
  cases hagrees with
  | done hlater hQ => exact .of_later hlater (hf _ _ _ hQ _ rfl trivial)
  | unexpected hlater htext => exact .unexpected hlater htext
  | missing herror => exact .missing herror
  | tooDeep hlater => exact .tooDeep hlater

theorem map {x : Emit β} {r : Read α} {h : α → α'}
    {Q' : α' → β → Builder → Prop} (hx : Tracks A b x r Q)
    (hQ : ∀ a c b', Q a c b' → Q' (h a) c b') :
    Tracks A b x (r >>= fun a => pure (h a)) Q' := by
  intro e hb hA
  have hagrees := hx e hb hA
  change Agrees e Q' (x e) (EStateM.bind r (fun a => pure (h a)) e.upcoming)
  unfold EStateM.bind
  generalize x e = result at hagrees ⊢
  generalize r e.upcoming = reading at hagrees ⊢
  cases hagrees with
  | done hlater hdone => exact .done hlater (hQ _ _ _ hdone)
  | unexpected hlater htext => exact .unexpected hlater htext
  | missing herror => exact .missing herror
  | tooDeep hlater => exact .tooDeep hlater

theorem conseq {x : Emit β} {r : Read α} {Q' : α → β → Builder → Prop}
    (hx : Tracks A b x r Q) (hQ : ∀ a c b', Q a c b' → Q' a c b') :
    Tracks A b x r Q' :=
  fun e hb hA => (hx e hb hA).conseq hQ

theorem weaken {A' : Token → Prop} {x : Emit β} {r : Read α}
    (h : Tracks A b x r Q) (hA : ∀ t, A' t → A t) : Tracks A' b x r Q :=
  fun e hb hA' => h e hb (hA _ hA')

theorem look {f : Token → Emit β} {g : Token → Read α}
    (hf : ∀ t, A t → Tracks (· = t) b (f t) (g t) Q) :
    Tracks A b (Emitter.look >>= f) (Read.look >>= g) Q := by
  intro e hb hA
  obtain ⟨later, hupcoming⟩ := e.exists_upcoming
  have hagrees := hf _ hA e hb rfl
  rw [hupcoming] at hagrees ⊢
  exact hagrees

theorem advance (hA : ∀ t, A t → t ≠ .endOfInput) :
    Tracks A b Emitter.advance Read.advance fun _ _ b' => b' = b := by
  intro e hb he
  have hlookahead := hA _ he
  cases hnext : e.cursor.next with
  | mk next behind =>
      cases next with
      | ok l =>
          have hstream := stream_of_next hlookahead hnext
          let e' : Emitter := { e with lookahead := l, cursor := behind }
          have hread : Read.advance e.upcoming = .ok () e'.upcoming := by
            obtain ⟨later, hlater⟩ := e'.exists_upcoming
            have hupcoming : e.upcoming = e.lookahead.token :: e'.upcoming := by
              rw [upcoming, hstream]
              rfl
            rw [hupcoming, hlater]
            rfl
          rw [advance_of_next hnext, hread]
          exact .done ⟨by rw [hstream]; exact List.suffix_cons _ _, by rw [hstream]⟩ hb
      | error error =>
          have hstream := stream_of_next_error hlookahead hnext
          have hread :
              Read.advance e.upcoming = .error .missing e.upcoming := by
            rw [upcoming, hstream]
            rfl
          rw [advance_of_next_error hnext, hread]
          exact .missing (by rw [hstream])

theorem refuse {expected : Expectation} (htext : expected.HasText) :
    Tracks A b (Emitter.refuse expected) (Read.refuse expected) Q :=
  fun e _ _ => .unexpected (.refl e) htext

theorem refuse_bind {expected : Expectation} (htext : expected.HasText)
    (f : β' → Emit β) (g : α' → Read α) :
    Tracks A b (Emitter.refuse expected >>= f) (Read.refuse expected >>= g) Q :=
  fun e _ _ => .unexpected (.refl e) htext

theorem tooDeep : Tracks A b Emitter.tooDeep Read.tooDeep Q :=
  fun e _ _ => .tooDeep (.refl e)

theorem expect {t : Token} (ht : t.HasText) :
    Tracks A b (Emitter.pass.expect t) (Read.expect t) fun _ _ b' =>
      b' = b := by
  refine look fun next _ => ?_
  by_cases hnext : next = t
  · rw [if_pos hnext, if_pos hnext]
    refine advance fun t' ht' => ?_
    rw [ht', hnext]
    exact ht.ne_endOfInput
  · rw [if_neg hnext, if_neg hnext]
    exact refuse (by rintro _ ⟨⟩; exact ht)

theorem advance_bind {f : Unit → Emit β} {g : Unit → Read α}
    (hA : ∀ t, A t → t ≠ .endOfInput)
    (hf : Tracks (fun _ => True) b (f ()) (g ()) Q) :
    Tracks A b (Emitter.advance >>= f) (Read.advance >>= g) Q := by
  refine .bind (.advance hA) ?_
  rintro _ _ _ rfl
  exact hf

theorem expect_bind {t : Token} {f : Unit → Emit β} {g : Unit → Read α}
    (ht : t.HasText) (hf : Tracks (fun _ => True) b (f ()) (g ()) Q) :
    Tracks A b (Emitter.pass.expect t >>= f) (Read.expect t >>= g) Q := by
  refine .bind (.expect ht) ?_
  rintro _ _ _ rfl
  exact hf

theorem pure {a : α} {c : β} (hQ : Q a c b) :
    Tracks A b (pure c) (pure a) Q := by
  rintro e rfl _
  exact .done (.refl e) hQ

theorem appends {x : Emit β} {a : α} {c : β} (hx : Appends b x c b')
    (hQ : Q a c b') :
    Tracks A b x (Pure.pure a) Q := by
  intro e hb _
  obtain ⟨events, hresult⟩ := hx e hb
  have hstream : ({ e with builder := b', events := events } : Emitter).stream =
      e.stream :=
    stream_congr rfl rfl
  rw [hresult]
  have hupcoming :
      ({ e with builder := b', events := events } : Emitter).upcoming =
      e.upcoming := by
    rw [upcoming, hstream, upcoming]
  rw [← hupcoming]
  exact .done (.of_stream_eq hstream) hQ

theorem appends_bind {γ : Type} {x : Emit γ} {c : γ} {f : γ → Emit β}
    {r : Read α} (hx : Appends b x c b') (hf : Tracks A b' (f c) r Q) :
    Tracks A b (x >>= f) r Q := by
  intro e hb hA
  obtain ⟨events, hresult⟩ := hx e hb
  have hstream : ({ e with builder := b', events := events } : Emitter).stream =
      e.stream :=
    stream_congr rfl rfl
  have hupcoming :
      ({ e with builder := b', events := events } : Emitter).upcoming =
      e.upcoming := by
    rw [upcoming, hstream, upcoming]
  change Agrees e Q (EStateM.bind x f e) _
  rw [EStateM.bind, hresult, ← hupcoming]
  exact .of_later (.of_stream_eq hstream) (hf _ rfl hA)

end Tracks

end Emitter

end OnePass

import OnePass.Compile.Compiler

namespace OnePass

namespace Cursor

theorem length_skipWhile_le (c : Cursor) (p : Char → Bool) :
    (c.skipWhile p).rest.length ≤ c.rest.length :=
  (List.dropWhile_sublist p).length_le

theorem length_skipWhile_lt {c : Cursor} {p : Char → Bool} {first : Char}
    {rest : List Char} (hrest : c.rest = first :: rest)
    (hfirst : p first = true) :
    (c.skipWhile p).rest.length < c.rest.length := by
  have hle := (List.dropWhile_sublist p (l := rest)).length_le
  simp only [skipWhile, hrest, List.dropWhile_cons_of_pos hfirst,
    List.length_cons]
  omega

theorem scan_shortens {c behind : Cursor} {t : Token}
    (hscan : c.scan = (.ok t, behind)) (ht : t ≠ .endOfInput) :
    behind.rest.length < c.rest.length := by
  unfold scan at hscan
  split at hscan
  · simp only [Prod.mk.injEq, Except.ok.injEq] at hscan
    exact absurd hscan.1.symm ht
  · rename_i first rest hrest
    split at hscan
    · rename_i hdigit
      simp only [Prod.mk.injEq] at hscan
      rw [← hscan.2]
      exact length_skipWhile_lt hrest hdigit
    · split at hscan
      · rename_i hword
        simp only [Prod.mk.injEq] at hscan
        rw [← hscan.2]
        exact length_skipWhile_lt hrest (by simp [isWordPart, hword])
      · split at hscan
        · simp only [Prod.mk.injEq] at hscan
          rw [← hscan.2, drop, hrest]
          simp
        · simp at hscan

theorem next_shortens {c behind : Cursor} {l : Lexeme}
    (hnext : c.next = (.ok l, behind)) (hl : l.token ≠ .endOfInput) :
    behind.rest.length < c.rest.length := by
  simp only [next] at hnext
  split at hnext
  · rename_i token after hscan
    simp only [Prod.mk.injEq, Except.ok.injEq] at hnext
    obtain ⟨rfl, rfl⟩ := hnext
    exact Nat.lt_of_lt_of_le (scan_shortens hscan hl)
      (length_skipWhile_le c isSeparator)
  · simp at hnext

/-- What holds of the next token and of the next error, and is kept when a token
is put in front, holds of all tokens and of the error behind them. -/
theorem forall_takeTokens {P : Cursor → Lexeme → Prop}
    {Q : Cursor → LexError → Prop}
    (htoken : ∀ c l behind, c.next = (.ok l, behind) →
      P c l ∧ (∀ l', P behind l' → P c l') ∧ ∀ e, Q behind e → Q c e)
    (herror : ∀ c e behind, c.next = (.error e, behind) → Q c e) (count : Nat)
    (c : Cursor) :
    (∀ l ∈ (c.takeTokens count).1, P c l) ∧
    ∀ e, (c.takeTokens count).2 = some e → Q c e := by
  induction count generalizing c with
  | zero => exact ⟨fun l hl => (by cases hl), fun e he => (by cases he)⟩
  | succ count ih =>
      rw [takeTokens]
      rcases hnext : c.next with ⟨error | lexeme, behind⟩
      · refine ⟨fun l hl => (by cases hl), fun e he => ?_⟩
        cases he
        exact herror c error behind hnext
      · obtain ⟨hfirst, hothers, hlast⟩ := htoken c lexeme behind hnext
        obtain ⟨hlexemes, hunread⟩ := ih behind
        by_cases hend : lexeme.token = .endOfInput
        · simp only [hend, if_true]
          refine ⟨fun l hl => ?_, fun e he => (by cases he)⟩
          rw [List.mem_singleton.mp hl]
          exact hfirst
        · simp only [hend, if_false]
          refine ⟨fun l hl => ?_, fun e he => hlast e (hunread e he)⟩
          rcases List.mem_cons.mp hl with rfl | hl
          · exact hfirst
          · exact hothers l (hlexemes l hl)

theorem takeTokens_eq_tokens {c : Cursor} {count : Nat}
    (hcount : c.rest.length < count) :
    c.takeTokens count = c.tokens := by
  -- The induction is over two counts at once, since `tokens` has a count of its
  -- own.
  have hboth : ∀ (first second : Nat) (c : Cursor), c.rest.length < first →
      c.rest.length < second → c.takeTokens first = c.takeTokens second := by
    intro first
    induction first with
    | zero =>
        intro second c hfirst
        omega
    | succ first ih =>
        intro second c hfirst hsecond
        obtain ⟨second, rfl⟩ :=
          Nat.exists_eq_add_one_of_ne_zero
          (Nat.ne_of_gt (by omega : 0 < second))
        simp only [takeTokens]
        split
        · rfl
        · rename_i l behind hnext
          split
          · rfl
          · rename_i hl
            have hshorter := next_shortens hnext hl
            rw [ih second behind (by omega) (by omega)]
  exact hboth count _ c hcount (Nat.lt_succ_self _)

theorem tokens_of_error {c behind : Cursor} {error : LexError}
    (hnext : c.next = (.error error, behind)) :
    c.tokens = ([], some error) := by
  simp [tokens, takeTokens, hnext]

theorem tokens_of_end {c behind : Cursor} {l : Lexeme}
    (hnext : c.next = (.ok l, behind)) (hl : l.token = .endOfInput) :
    c.tokens = ([l], none) := by
  simp [tokens, takeTokens, hnext, hl]

theorem tokens_of_lexeme {c behind : Cursor} {l : Lexeme}
    (hnext : c.next = (.ok l, behind)) (hl : l.token ≠ .endOfInput) :
    c.tokens = (l :: behind.tokens.1, behind.tokens.2) := by
  simp only [tokens, takeTokens, hnext, if_neg hl]
  rw [takeTokens_eq_tokens (next_shortens hnext hl)]
  rfl

end Cursor

namespace Emitter

/-- The lexemes from the lookahead on, and the error behind them if they do not
reach the end. -/
def stream (e : Emitter) : List Lexeme × Option LexError :=
  if e.lookahead.token = .endOfInput then ([e.lookahead], none)
  else (e.lookahead :: e.cursor.tokens.1, e.cursor.tokens.2)

/-- The tokens from the lookahead on. -/
def upcoming (e : Emitter) : List Token :=
  e.stream.1.map Lexeme.token

theorem stream_congr {e e' : Emitter} (hlookahead : e.lookahead = e'.lookahead)
    (hcursor : e.cursor = e'.cursor) : e.stream = e'.stream := by
  simp only [stream, hlookahead, hcursor]

theorem exists_stream (e : Emitter) :
    ∃ later, e.stream.1 = e.lookahead :: later := by
  unfold stream
  split
  · exact ⟨[], rfl⟩
  · exact ⟨_, rfl⟩

theorem exists_upcoming (e : Emitter) :
    ∃ later, e.upcoming = e.lookahead.token :: later := by
  obtain ⟨later, hlater⟩ := e.exists_stream
  exact ⟨later.map Lexeme.token, by simp [upcoming, hlater]⟩

theorem stream_start {c behind : Cursor} {first : Lexeme}
    (hnext : c.next = (.ok first, behind)) :
    ({ lookahead := first, cursor := behind } : Emitter).stream = c.tokens := by
  by_cases hfirst : first.token = .endOfInput
  · rw [Cursor.tokens_of_end hnext hfirst]
    simp [stream, hfirst]
  · rw [Cursor.tokens_of_lexeme hnext hfirst]
    simp [stream, hfirst]

theorem advance_of_next {e : Emitter} {l : Lexeme} {behind : Cursor}
    (hnext : e.cursor.next = (.ok l, behind)) :
    advance e = .ok () { e with lookahead := l, cursor := behind } := by
  change advance.run e = _
  rw [advance, EStateM.run_bind, EStateM.run_get]
  simp only [hnext]
  rfl

theorem advance_of_next_error {e : Emitter} {error : LexError} {behind : Cursor}
    (hnext : e.cursor.next = (.error error, behind)) :
    advance e = .error (.lexical error) { e with cursor := behind } := by
  change advance.run e = _
  rw [advance, EStateM.run_bind, EStateM.run_get]
  simp only [hnext]
  rfl

theorem stream_of_next {e : Emitter} {l : Lexeme} {behind : Cursor}
    (hlookahead : e.lookahead.token ≠ .endOfInput)
    (hnext : e.cursor.next = (.ok l, behind)) :
    e.stream = (e.lookahead :: ({ e with lookahead := l, cursor := behind } :
      Emitter).stream.1,
      ({ e with lookahead := l, cursor := behind } : Emitter).stream.2) := by
  have hbehind :
      ({ e with lookahead := l, cursor := behind } : Emitter).stream =
      e.cursor.tokens := by
    rw [← stream_start hnext]
    exact stream_congr rfl rfl
  rw [hbehind]
  simp [stream, hlookahead]

theorem stream_of_next_error {e : Emitter} {error : LexError} {behind : Cursor}
    (hlookahead : e.lookahead.token ≠ .endOfInput)
    (hnext : e.cursor.next = (.error error, behind)) :
    e.stream = ([e.lookahead], some error) := by
  simp [stream, hlookahead, Cursor.tokens_of_error hnext]

end Emitter

end OnePass

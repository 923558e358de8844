import OnePass.Proofs.Lookahead
import OnePass.Proofs.ViablePrefix
import OnePass.Proofs.WholeText

/-!
Where a text is refused. An error is found at the first token at which it can be
found: the tokens before it start some program, and no program goes on with the
token. What is named as expected would have gone on with a program. A token that
cannot be read is met only behind tokens that start a program, so it never hides
an error to its left.
-/

namespace OnePass

open OnePass.Tree (Read Statement Starts)

theorem Expectation.exists_admits {expected : Expectation}
    (h : expected ≠ .endOfInput) :
    ∃ t, expected.Admits t := by
  cases expected with
  | token t => exact ⟨t, rfl⟩
  | loopCondition => exact ⟨.whileWord, rfl⟩
  | operand => exact ⟨.leftParen, rfl⟩
  | endOfInput => exact absurd rfl h

theorem Token.toList_inQuotes (t : Token) :
    t.inQuotes.toList = "'".toList ++ (t.spelling ++ "'".toList) := by
  simp [inQuotes, toString]

theorem Token.HasText.eq_of_inQuotes {t u : Token} (ht : t.HasText)
    (hu : u.HasText) (h : t.inQuotes = u.inQuotes) : t = u := by
  have hspelling : t.spelling = u.spelling := by
    have hlists := congrArg String.toList h
    rw [toList_inQuotes, toList_inQuotes] at hlists
    exact List.append_cancel_right (List.append_cancel_left hlists)
  have hword : ∀ c, Token.keyword? [c] = none := fun c => by
    simp [Token.keyword?, Token.spelling]
  rcases ht with ht | ⟨c, htc, ht⟩ <;> rcases hu with hu | ⟨d, hud, hu⟩
  · rw [hspelling, hu] at ht
    exact (Option.some.inj ht).symm
  · rw [hspelling, hud, hword] at ht
    cases ht
  · rw [← hspelling, htc, hword] at hu
    cases hu
  · rw [hspelling, hud] at htc
    obtain rfl := (List.cons.inj htc).1
    rw [ht] at hu
    exact Option.some.inj hu

theorem Token.inQuotes_ne {t : Token} {text : String}
    (h : text.toList.head? ≠ "'".toList.head?) :
    t.inQuotes ≠ text := by
  rintro rfl
  rw [toList_inQuotes] at h
  exact h rfl

/-- The message of an error names a token: by its text in quotes, or as one that
starts a term. -/
def Expectation.Names (expected : Expectation) (t : Token) : Prop :=
  t.HasText ∧ expected.text = t.inQuotes ∨
    t.startsExpression = true ∧ expected.text = "a variable, integer or '('"

theorem Expectation.admits_of_names {expected : Expectation} {t : Token}
    (htext : expected.HasText) (h : expected.Names t) : expected.Admits t := by
  cases expected with
  | token u =>
      rcases h with ⟨ht, hnamed⟩ | ⟨-, hnamed⟩
      · exact ht.eq_of_inQuotes (htext u rfl) hnamed.symm
      · exact absurd hnamed (Token.inQuotes_ne (by decide))
  | loopCondition =>
      rcases h with ⟨ht, hnamed⟩ | ⟨-, hnamed⟩
      · exact ht.eq_of_inQuotes (.inl rfl) hnamed.symm
      · exact absurd hnamed (Token.inQuotes_ne (by decide))
  | operand =>
      rcases h with ⟨ht, hnamed⟩ | ⟨ht, -⟩
      · exact absurd hnamed.symm (Token.inQuotes_ne (by decide))
      · exact ht
  | endOfInput =>
      rcases h with ⟨ht, hnamed⟩ | ⟨-, hnamed⟩
      · exact absurd hnamed.symm (Token.inQuotes_ne (by decide))
      · exact absurd hnamed (by decide)

theorem Expectation.eq_endOfInput_of_text {expected : Expectation}
    (h : expected.text = "end of input") :
    expected = .endOfInput := by
  cases expected with
  | token u => exact absurd h (Token.inQuotes_ne (by decide))
  | loopCondition => exact absurd h (Token.inQuotes_ne (by decide))
  | operand => exact absurd h (by decide)
  | endOfInput => rfl

namespace Tree.Read

variable {bound depth : Nat} {ts rest : List Token}

theorem bind_eq_error {α β : Type} {x : Read α} {f : α → Read β}
    {obstacle : Obstacle} (h : (x >>= f) ts = .error obstacle rest) :
    x ts = .error obstacle rest ∨
      ∃ a middle, x ts = .ok a middle ∧ f a middle = .error obstacle rest := by
  change EStateM.bind x f ts = .error obstacle rest at h
  unfold EStateM.bind at h
  cases hx : x ts with
  | ok a middle =>
      rw [hx] at h
      exact .inr ⟨a, middle, rfl, h⟩
  | error obstacle' middle =>
      rw [hx] at h
      cases h
      exact .inl rfl

theorem program_eq_error {obstacle : Obstacle}
    (h : program bound depth ts = .error obstacle rest) :
    statement bound depth ts = .error obstacle rest ∨
      obstacle = .unexpected .endOfInput ∧ ∃ s : Statement,
        ts = s.tokens ++ rest := by
  rcases bind_eq_error h with hstatement | ⟨s, middle, hs, h⟩
  · exact .inl hstatement
  · rw [look_bind] at h
    split at h
    · cases h
    · cases h
      exact .inr ⟨rfl, s, (statement_sound bound depth hs).tokens⟩

theorem program_unexpected {expected : Expectation}
    (h : program bound depth ts = .error (.unexpected expected) rest) :
    ∃ used, ts = used ++ rest ∧ Starts Statement.tokens used ∧
      (∀ t, expected.Admits t → Starts Statement.tokens (used ++ [t])) ∧
      (expected = .endOfInput → ∃ s : Statement, used = s.tokens) := by
  rcases program_eq_error h with hstatement | ⟨hend, s, hs⟩
  · have hfails := statement_keeps bound depth ts trivial
    rw [hstatement] at hfails
    cases hfails with
    | unexpected used split inside fits =>
        obtain ⟨t, ht⟩ := Expectation.exists_admits inside
        obtain ⟨s, hs⟩ := fits t ht
        refine ⟨used, split, ⟨s, (List.prefix_append used [t]).trans hs⟩,
          fits, ?_⟩
        intro hend
        exact absurd hend inside
  · obtain rfl := Obstacle.unexpected.inj hend
    exact ⟨s.tokens, hs, ⟨s, List.prefix_rfl⟩, fun t ht => ht.elim,
      fun _ => ⟨s, rfl⟩⟩

theorem program_missing (h : program bound depth ts = .error .missing rest) :
    Starts Statement.tokens ts := by
  rcases program_eq_error h with hstatement | ⟨hend, -⟩
  · have hfails := statement_keeps bound depth ts trivial
    rw [hstatement] at hfails
    cases hfails with
    | missing all => exact all
  · cases hend

end Tree.Read

namespace Source

/-- A text is refused at the token `found`, with `before` as the tokens before
it. -/
structure RefusedAt (s : Source) (expected : Expectation) (found : Lexeme)
    (before : List Lexeme) : Prop where
  place : before ++ [found] <+: s.start.tokens.1
  viable : Starts Statement.tokens (before.map Lexeme.token)
  notViable : ∀ t : Statement,
    ¬ (before ++ [found]).map Lexeme.token <+: t.tokens ++ [.endOfInput]
  /-- What is named as expected goes on with a program. -/
  fits : ∀ t, expected.Names t →
    Starts Statement.tokens (before.map Lexeme.token ++ [t])
  /-- If the end of the input is expected, there is a complete program before
  the token. -/
  complete : expected.text = "end of input" →
    ∃ t : Statement, before.map Lexeme.token = t.tokens

variable {s : Source} {limit : Nat}

/-- A reader that refuses a token is at that token of the text. -/
theorem refusedAt_of_read {start e : Emitter} {expected : Expectation}
    {bound : Nat} (hstream : start.stream = s.start.tokens)
    (hbound : start.upcoming.length ≤ bound) (hlater : start.Later e)
    (htext : expected.HasText)
    (hread : Read.program bound limit start.upcoming =
      .error (.unexpected expected) e.upcoming) :
    ∃ before, s.RefusedAt expected e.lookahead before := by
  obtain ⟨before, hbefore⟩ := hlater.suffix
  obtain ⟨after, hafter⟩ := e.exists_stream
  have htokens : start.upcoming =
      before.map Lexeme.token ++ e.lookahead.token :: after.map
        Lexeme.token := by
    rw [Emitter.upcoming, ← hbefore, hafter, List.map_append, List.map_cons]
  have hrest : e.upcoming = e.lookahead.token :: after.map Lexeme.token := by
    rw [Emitter.upcoming, hafter, List.map_cons]
  rw [htokens] at hbound
  rw [htokens, hrest] at hread
  obtain ⟨used, hused, hviable, hfits, hcomplete⟩ :=
    Read.program_unexpected hread
  obtain rfl := List.append_cancel_right hused
  refine ⟨before, ⟨after, ?_⟩, hviable, fun t => ?_, fun t ht => ?_,
    fun hend => ?_⟩
  · rw [← hstream, ← hbefore, hafter, List.append_assoc, List.singleton_append]
  · rw [List.map_append]
    exact Read.not_prefix_of_program_unexpected hbound hread t
  · exact hfits t (Expectation.admits_of_names htext ht)
  · exact hcomplete (Expectation.eq_endOfInput_of_text hend)

/-- What the place of an error says about the tokens before it. -/
inductive Placed (s : Source) : CompileError → Prop where
  | unexpected {expected : Expectation} {found : Lexeme} {before : List Lexeme}
      (refused : s.RefusedAt expected found before) :
        Placed s (.unexpected expected found)
  | lexical {error : LexError} (unread : s.start.tokens.2 = some error)
      (viable : Starts Statement.tokens (s.start.tokens.1.map Lexeme.token)) :
      Placed s (.lexical error)
  | tooDeep (found : Lexeme) : Placed s (.tooDeep found)

theorem placed_of_error {error : CompileError}
    (h : (s.compileWithin limit).outcome = .error error) : s.Placed error := by
  rcases hnext : s.start.next with ⟨lexError | first, behind⟩
  · rw [outcome_of_next_error hnext] at h
    cases h
    have htokens := Cursor.tokens_of_error hnext
    exact .lexical (by rw [htokens])
      (by rw [htokens]; exact ⟨.empty, List.nil_prefix⟩)
  · rw [outcome_of_next hnext] at h
    have hstream := Emitter.stream_start hnext
    have hlength := Emitter.length_upcoming_le first behind
    have hagrees :=
      Emitter.compileProgram_tracks (behind.rest.length + 2) limit s.name
      { lookahead := first, cursor := behind } rfl trivial
    generalize compileProgram _ limit s.name _ = result at hagrees h
    generalize hread : Read.program _ limit _ = reading at hagrees
    cases hagrees with
    | done => cases h
    | unexpected hlater htext =>
        cases h
        obtain ⟨before, hrefused⟩ :=
          refusedAt_of_read hstream hlength hlater htext hread
        exact .unexpected hrefused
    | missing herror =>
        cases h
        rw [hstream] at herror
        rw [Emitter.upcoming, hstream] at hread
        exact .lexical herror (Read.program_missing hread)
    | tooDeep =>
        cases h
        exact .tooDeep _

end Source

end OnePass

import OnePass.Proofs.NearestElse
import OnePass.Proofs.ShortNumbers
import OnePass.Proofs.Spelling

namespace OnePass

open OnePass.Tree (Read Statement)

namespace Variable

theorem ofLetter?_of_isWordStart {c : Char} (h : isWordStart c = true) :
    ∃ v, ofLetter? c = some v := by
  simp only [isWordStart, Bool.and_eq_true, decide_eq_true_eq] at h
  have hlow : 'a'.toNat ≤ c.toNat := h.1
  have hhigh : c.toNat ≤ 'z'.toNat := h.2
  have hrange : 'a'.toNat ≤ c.toNat ∧ c.toNat - 'a'.toNat < 26 := by
    have ha : 'a'.toNat = 97 := rfl
    have hz : 'z'.toNat = 122 := rfl
    omega
  exact ⟨_, dif_pos hrange⟩

end Variable

namespace Cursor

theorem wordToken_eq_error {word : List Char} {cause : LexCause}
    (h : wordToken word = .error cause) :
    cause = .unknownWord word := by
  unfold wordToken at h
  split at h
  · cases h
  · split at h
    · cases h
    · cases h
      rfl
  · cases h
    rfl

theorem wordToken_of_isWordStart {c : Char} (h : isWordStart c = true) :
    ∃ v, wordToken [c] = .ok (.variable v) := by
  obtain ⟨v, hv⟩ := Variable.ofLetter?_of_isWordStart h
  have hkeyword : Token.keyword? [c] = none := by
    simp [Token.keyword?, Token.spelling]
  exact ⟨v, by simp [wordToken, hkeyword, hv]⟩

theorem scan_ne_unknownWord {c behind : Cursor} {cause : LexCause}
    (hscan : c.scan = (.error cause, behind)) (letter : Char) :
    cause ≠ .unknownWord [letter] := by
  rintro rfl
  unfold scan at hscan
  split at hscan
  · simp at hscan
  · rename_i first rest hrest
    split at hscan
    · simp at hscan
    · split at hscan
      · rename_i hfirst
        have herror := (Prod.mk.inj hscan).1
        have hword : [letter] = c.rest.takeWhile isWordPart :=
          LexCause.unknownWord.inj (wordToken_eq_error herror)
        rw [← hword] at herror
        rw [hrest, List.takeWhile_cons_of_pos (by simp [isWordPart, hfirst])]
          at hword
        obtain ⟨v, hv⟩ := wordToken_of_isWordStart hfirst
        rw [(List.cons.inj hword).1, hv] at herror
        cases herror
      · split at hscan <;> simp at hscan

theorem next_ne_unknownWord {c behind : Cursor} {error : LexError}
    (hnext : c.next = (.error error, behind)) (letter : Char) :
    error.cause ≠ .unknownWord [letter] := by
  simp only [next] at hnext
  split at hnext
  · simp at hnext
  · rename_i cause after hscan
    obtain ⟨herror, -⟩ := Prod.mk.inj hnext
    cases herror
    exact scan_ne_unknownWord hscan letter

theorem takeTokens_ne_unknownWord {count : Nat} {c : Cursor} {error : LexError}
    (h : (c.takeTokens count).2 = some error) (letter : Char) :
    error.cause ≠ .unknownWord [letter] := by
  refine (forall_takeTokens (P := fun _ _ => True) (Q :=
    fun _ e => e.cause ≠ .unknownWord [letter])
    ?_ ?_ count c).2 error h
  · intro c l behind hnext
    exact ⟨trivial, fun _ h => h, fun _ h => h⟩
  · intro c e behind hnext
    exact next_ne_unknownWord hnext letter

end Cursor

namespace Source

/-- The tokens of the text can be derived from the grammar. -/
def Grammatical (s : Source) : Prop :=
  ∃ t : Statement, s.Spells t.tokens

theorem Grammatical.exists_readsAs {s : Source} (h : s.Grammatical) :
    ∃ t, s.ReadsAs t := by
  obtain ⟨t, ht⟩ := h
  refine ⟨t.bindElse, t.elseNearest_bindElse, ?_⟩
  rw [t.tokens_bindElse]
  exact ht

theorem Grammatical.accepted_or_tooDeep {s : Source} (h : s.Grammatical)
    (limit : Nat) :
    (∃ program, (s.compileWithin limit).outcome = .ok program) ∨
      ∃ found, (s.compileWithin limit).outcome = .error (.tooDeep found) := by
  obtain ⟨t, htree⟩ := h.exists_readsAs
  rcases s.outcome_of_le (Nat.le_max_left limit t.depth) with hsame | hdeep
  · left
    rw [← hsame]
    exact ⟨_, outcome_of_readsAs htree (Nat.le_max_right limit t.depth)⟩
  · exact .inr hdeep

/-- Apart from the limit on nesting, and no text of `n` tokens exceeds a limit
of `6 * (n + 1)`, exactly the texts of the language are accepted. Any other text
is refused for a token that cannot be read, which is never a word of one letter,
or for one that is not expected; no code is ever malformed. The refusal is
reported as what it is exactly if the integers in the report are short: the
place, and the token that was not expected if that is a number. -/
theorem accepts_exactly_grammatical (s : Source) (limit : Nat) :
    ((∃ found, (s.compileWithin limit).outcome = .error (.tooDeep found)) ∧
        limit < 6 * (s.start.tokens.1.length + 1)) ∨
      ((∃ program, (s.compileWithin limit).outcome = .ok program) ↔
        s.Grammatical) ∧
        (¬ s.Grammatical →
          (∃ error, (s.compileWithin limit).outcome = .error (.lexical error) ∧
            (∀ letter, error.cause ≠ .unknownWord [letter]) ∧
            ((∃ text, (CompileError.lexical error).render s = .ok text) ↔
              Text.isShort error.position.line = true ∧
                Text.isShort error.position.column = true)) ∨
          ∃ expected found, (s.compileWithin limit).outcome =
            .error (.unexpected expected found) ∧
            expected.HasText ∧
            ((∃ text, (CompileError.unexpected expected found).render s =
              .ok text) ↔
              Text.isShort found.position.line = true ∧
                Text.isShort found.position.column = true ∧
                ∀ n, found.token = .number n → Text.isShort n = true)) := by
  have houtcome := s.outcome_compileWithin limit
  generalize hresult : (s.compileWithin limit).outcome = outcome at houtcome
  cases houtcome with
  | program htree hdepth =>
      have hgrammatical : s.Grammatical := ⟨_, htree.2⟩
      exact .inr ⟨⟨fun _ => hgrammatical, fun _ => ⟨_, rfl⟩⟩,
        fun h => absurd hgrammatical h⟩
  | lexical herror =>
      have hnot : ¬ s.Grammatical := by
        rintro ⟨t, hnone, -⟩
        rw [hnone] at herror
        cases herror
      refine .inr ⟨⟨nofun, fun h => absurd h hnot⟩,
        fun _ => .inl ⟨_, rfl, ?_, ?_⟩⟩
      · exact Cursor.takeTokens_ne_unknownWord herror
      · exact CompileError.exists_render_lexical s _
  | unexpected htext =>
      -- A text of the language would be accepted under some limit, and up to
      -- there nothing changes.
      have hnot : ¬ s.Grammatical := by
        intro h
        rcases h.accepted_or_tooDeep limit with ⟨program, hok⟩ | ⟨found, hdeep⟩
        · rw [hresult] at hok
          cases hok
        · rw [hresult] at hdeep
          cases hdeep
      refine .inr ⟨⟨nofun, fun h => absurd h hnot⟩,
        fun _ => .inr ⟨_, _, rfl, htext, ?_⟩⟩
      exact CompileError.exists_render_unexpected s _ _
  | tooDeep hlimit => exact .inl ⟨⟨_, rfl⟩, hlimit⟩

theorem outcome_of_unexpected {s : Source} {ts rest : List Token} {limit : Nat}
    {expected : Expectation} {t : Token} (hspells : s.Spells ts)
    (hread : ∀ bound, Read.program (bound + 2) limit (ts ++ [.endOfInput]) =
      .error (.unexpected expected) (t :: rest)) :
    ∃ found, (s.compileWithin limit).outcome =
      .error (.unexpected expected found) ∧ found.token = t := by
  rcases hnext : s.start.next with ⟨error | first, behind⟩
  · have hnone := hspells.1
    rw [Cursor.tokens_of_error hnext] at hnone
    cases hnone
  · have hagrees := Emitter.compileProgram_tracks (behind.rest.length + 2) limit
      s.name { lookahead := first, cursor := behind } rfl trivial
    rw [Emitter.upcoming, Emitter.stream_start hnext, hspells.2, hread]
      at hagrees
    rw [outcome_of_next hnext]
    generalize compileProgram _ limit _ _ = result at hagrees ⊢
    generalize hrest : t :: rest = upcoming at hagrees
    cases hagrees with
    | @unexpected _ e hlater =>
        obtain ⟨later, hupcoming⟩ := e.exists_upcoming
        rw [hupcoming] at hrest
        exact ⟨_, rfl, (List.cons.inj hrest).1.symm⟩

/-- A number where a statement has to end. -/
def misplaced (n : Nat) : Source where
  text := 'a' :: ' ' :: (Nat.toDigits 10 n ++ [';'])

theorem scans_toDigits (n : Nat) :
    Scans ((Nat.toDigits 10 n ++ [';']).dropWhile isSeparator) (.number n)
      [';'] := by
  have hall : ∀ c ∈ Nat.toDigits 10 n, c.isDigit = true :=
    fun c hc => Nat.isDigit_of_mem_toDigits (by decide) (by decide) hc
  have htake : (Nat.toDigits 10 n ++ [';']).takeWhile Char.isDigit =
      Nat.toDigits 10 n := by
    rw [List.takeWhile_append_of_pos hall]
    exact List.append_nil _
  have hdrop : (Nat.toDigits 10 n ++ [';']).dropWhile Char.isDigit = [';'] :=
    List.dropWhile_append_of_pos hall
  have hvalue : Nat.ofDigitChars 10 (Nat.toDigits 10 n) 0 = n :=
    Nat.ofDigitChars_toDigits (by decide) (by decide)
  obtain ⟨first, more, hdigits⟩ :=
    List.exists_cons_of_ne_nil (Nat.toDigits_ne_nil (b := 10) (n := n))
  rw [hdigits] at hall htake hdrop hvalue ⊢
  have hfirst := hall first List.mem_cons_self
  have hblank : ¬ isSeparator first = true := by
    intro h
    simp only [isSeparator, List.mem_cons, List.not_mem_nil, or_false,
      decide_eq_true_eq] at h
    rcases h with rfl | rfl | rfl | rfl <;> cases hfirst
  have hscans := @Scans.number first (more ++ [';']) hfirst
  rw [← List.cons_append, htake, hdrop, hvalue] at hscans
  rw [List.cons_append, List.dropWhile_cons_of_neg hblank]
  exact hscans

theorem spells_misplaced (n : Nat) :
    (misplaced n).Spells [.variable 0, .number n, .semicolon] := by
  have hsemicolon : Spelled [';'] [.semicolon] :=
    @Spelled.token [';'] [] _ _ (.sign rfl rfl rfl) (.done rfl)
  have hnumber : Spelled (' ' :: (Nat.toDigits 10 n ++ [';']))
      [.number n, .semicolon] :=
    .token (scans_toDigits n) hsemicolon
  rw [spells_iff_spelled]
  exact .token (.word rfl rfl rfl) hnumber

theorem outcome_misplaced (n : Nat) :
    ∃ found, (misplaced n).compile.outcome =
      .error (.unexpected (.token .semicolon) found) ∧
        found.token = .number n := by
  have hread : ∀ bound, Read.program (bound + 2) nestingLimit
      [.variable 0, .number n, .semicolon, .endOfInput] =
        .error (.unexpected (.token .semicolon))
          [.number n, .semicolon, .endOfInput] :=
    fun bound => rfl
  exact outcome_of_unexpected (spells_misplaced n) hread

/-- A token that is not expected can be too long for the report. -/
theorem long_number_not_reported :
    ∃ found, (misplaced Text.leastLong).compile.outcome =
        .error (.unexpected (.token .semicolon) found) ∧
      found.token = .number Text.leastLong ∧
      ∀ text, CompileError.render (misplaced Text.leastLong)
        (.unexpected (.token .semicolon) found) ≠ .ok text := by
  obtain ⟨found, houtcome, hfound⟩ := outcome_misplaced Text.leastLong
  refine ⟨found, houtcome, hfound, fun text htext => ?_⟩
  have hshort :=
    ((CompileError.exists_render_unexpected _ _ _).mp ⟨text, htext⟩).2.2
  have hlong := hshort _ hfound
  rw [Text.isShort_leastLong] at hlong
  cases hlong

end Source

end OnePass

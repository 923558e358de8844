import OnePass.Proofs.WholeText

namespace OnePass

section Runs

variable {p : Char → Bool} (hline : p '\n' = false) (text more : List Char)
include hline

theorem takeWhile_append_line :
    (text ++ '\n' :: more).takeWhile p = text.takeWhile p := by
  rw [List.takeWhile_append, List.takeWhile_cons_of_neg (by simp [hline]),
    List.append_nil]
  split
  · rename_i hlength
    exact ((List.takeWhile_prefix p).eq_of_length hlength).symm
  · rfl

theorem dropWhile_append_line :
    (text ++ '\n' :: more).dropWhile p = text.dropWhile p ++ '\n' :: more := by
  rw [List.dropWhile_append, List.dropWhile_cons_of_neg (by simp [hline])]
  split
  · rename_i hempty
    rw [List.isEmpty_iff.mp hempty, List.nil_append]
  · rfl

end Runs

/-- A token stands at the front of a text, and what is left behind it. -/
inductive Scans : List Char → Token → List Char → Prop where
  | number {first : Char} {more : List Char} (hdigit : first.isDigit = true) :
      Scans (first :: more)
        (.number (Nat.ofDigitChars 10
        ((first :: more).takeWhile Char.isDigit) 0))
        ((first :: more).dropWhile Char.isDigit)
  | word {first : Char} {more : List Char} {t : Token}
      (hdigit : first.isDigit = false)
      (hword : isWordStart first = true)
      (ht : Cursor.wordToken ((first :: more).takeWhile isWordPart) = .ok t) :
      Scans (first :: more) t ((first :: more).dropWhile isWordPart)
  | sign {first : Char} {more : List Char} {t : Token}
      (hdigit : first.isDigit = false)
      (hword : isWordStart first = false) (ht : Token.sign? first = some t) :
      Scans (first :: more) t more

theorem ne_endOfInput_of_wordToken {word : List Char} {t : Token}
    (h : Cursor.wordToken word = .ok t) : t ≠ .endOfInput := by
  unfold Cursor.wordToken at h
  split at h
  · rename_i hkeyword
    cases h
    have hmem := List.mem_of_find?_eq_some hkeyword
    rintro rfl
    simp at hmem
  · split at h
    · cases h
      intro heq
      cases heq
    · cases h
  · cases h

namespace Scans

variable {text behind : List Char} {t : Token}

theorem of_scan {c c' : Cursor} (hscan : c.scan = (.ok t, c')) :
    c.rest = [] ∧ t = .endOfInput ∨ Scans c.rest t c'.rest := by
  unfold Cursor.scan at hscan
  split at hscan
  · rename_i hrest
    cases hscan
    exact .inl ⟨hrest, rfl⟩
  · rename_i first more hrest
    right
    rw [hrest]
    split at hscan
    · rename_i hdigit
      cases hscan
      simp only [Cursor.skipWhile, hrest]
      exact .number hdigit
    · rename_i hdigit
      split at hscan
      · rename_i hword
        obtain ⟨htoken, rfl⟩ := Prod.mk.inj hscan
        simp only [Cursor.skipWhile, hrest] at htoken ⊢
        exact .word (by simpa using hdigit) hword htoken
      · rename_i hword
        split at hscan
        · rename_i sign hsign
          cases hscan
          simp only [Cursor.drop, hrest]
          exact .sign (by simpa using hdigit) (by simpa using hword) hsign
        · cases hscan

theorem scan_eq (h : Scans text t behind) (position : Position) :
    ∃ position', Cursor.scan ⟨text, position⟩ =
      (.ok t, ⟨behind, position'⟩) := by
  cases h with
  | number hdigit =>
      simp only [Cursor.scan, hdigit, if_true]
      exact ⟨_, rfl⟩
  | word hdigit hword ht =>
      simp only [Cursor.scan, hdigit, hword, ht, if_true, Bool.false_eq_true,
        if_false]
      exact ⟨_, rfl⟩
  | sign hdigit hword ht =>
      simp only [Cursor.scan, hdigit, hword, ht, Bool.false_eq_true, if_false]
      exact ⟨_, rfl⟩

theorem ne_endOfInput (h : Scans text t behind) : t ≠ .endOfInput := by
  cases h with
  | number =>
      intro heq
      cases heq
  | word hdigit hword ht => exact ne_endOfInput_of_wordToken ht
  | sign hdigit hword ht =>
      have hmem := List.mem_of_find?_eq_some ht
      rintro rfl
      simp at hmem

theorem append_line (h : Scans text t behind) (more : List Char) :
    Scans (text ++ '\n' :: more) t (behind ++ '\n' :: more) := by
  cases h with
  | @number first rest hdigit =>
      have htake :=
        takeWhile_append_line (p := Char.isDigit) rfl (first :: rest) more
      have hdrop :=
        dropWhile_append_line (p := Char.isDigit) rfl (first :: rest) more
      rw [← htake, ← hdrop]
      exact .number hdigit
  | @word first rest _ hdigit hword ht =>
      have htake :=
        takeWhile_append_line (p := isWordPart) rfl (first :: rest) more
      have hdrop :=
        dropWhile_append_line (p := isWordPart) rfl (first :: rest) more
      rw [← htake] at ht
      rw [← hdrop]
      exact .word hdigit hword ht
  | sign hdigit hword ht => exact .sign hdigit hword ht

end Scans

/-- A text consists of these tokens, with blanks between them, up to its end. -/
inductive Spelled : List Char → List Token → Prop where
  | done {text : List Char} (hblank : text.dropWhile isSeparator = []) :
      Spelled text []
  | token {text behind : List Char} {t : Token} {ts : List Token}
      (first : Scans (text.dropWhile isSeparator) t behind)
      (others : Spelled behind ts) :
      Spelled text (t :: ts)

namespace Spelled

variable {text more : List Char} {ts ts' : List Token}

theorem blank_append (hblank : text.dropWhile isSeparator = [])
    (h : Spelled more ts) :
    Spelled (text ++ '\n' :: more) ts := by
  have hdrop : (text ++ '\n' :: more).dropWhile isSeparator =
      more.dropWhile isSeparator := by
    rw [List.dropWhile_append, hblank]
    rfl
  cases h with
  | done hmore => exact .done (hdrop.trans hmore)
  | token first others => exact .token (hdrop ▸ first) others

theorem append (h : Spelled text ts) (h' : Spelled more ts') :
    Spelled (text ++ '\n' :: more) (ts ++ ts') := by
  induction h with
  | done hblank => exact h'.blank_append hblank
  | @token text behind t ts first others ih =>
      have hdrop : (text ++ '\n' :: more).dropWhile isSeparator =
          text.dropWhile isSeparator ++ '\n' :: more := by
        rw [List.dropWhile_append]
        cases hrest : text.dropWhile isSeparator with
        | nil =>
            rw [hrest] at first
            cases first
        | cons c rest => rfl
      refine .token ?_ ih
      rw [hdrop]
      exact first.append_line more

theorem tokens_cases (c : Cursor) :
    (∃ error, c.tokens.2 = some error) ∨
      c.rest.dropWhile isSeparator = [] ∧
      c.tokens.1.map Lexeme.token = [.endOfInput] ∨
      ∃ (t : Token) (behind : Cursor),
        Scans (c.rest.dropWhile isSeparator) t behind.rest ∧
        c.tokens.1.map Lexeme.token = t :: behind.tokens.1.map Lexeme.token ∧
        c.tokens.2 = behind.tokens.2 := by
  rcases hnext : c.next with ⟨error | l, behind⟩
  · exact .inl ⟨error, by rw [Cursor.tokens_of_error hnext]⟩
  · right
    have hnext' := hnext
    simp only [Cursor.next] at hnext
    split at hnext
    · rename_i t after hscan
      cases hnext
      rcases Scans.of_scan hscan with ⟨hblank, hend⟩ | hscans
      · exact .inl ⟨hblank, by rw [Cursor.tokens_of_end hnext' hend]; simp [hend]⟩
      · right
        rw [Cursor.tokens_of_lexeme hnext' hscans.ne_endOfInput]
        exact ⟨t, behind, hscans, rfl, rfl⟩
    · cases hnext

theorem of_tokens {c : Cursor} (herror : c.tokens.2 = none)
    (htokens : c.tokens.1.map Lexeme.token = ts ++ [.endOfInput]) :
    Spelled c.rest ts := by
  induction ts generalizing c with
  | nil =>
      rcases tokens_cases c with ⟨error, hsome⟩ | ⟨hblank, -⟩ | ⟨t, behind,
        hscans, hlater, -⟩
      · rw [herror] at hsome
        cases hsome
      · exact .done hblank
      · rw [hlater] at htokens
        exact absurd (List.cons.inj htokens).1 hscans.ne_endOfInput
  | cons t ts ih =>
      rcases tokens_cases c with ⟨error, hsome⟩ | ⟨-, hend⟩ | ⟨t', behind,
        hscans, hlater, hsame⟩
      · rw [herror] at hsome
        cases hsome
      · rw [hend] at htokens
        simp at htokens
      · rw [hlater] at htokens
        obtain ⟨rfl, hothers⟩ := List.cons.inj htokens
        exact .token hscans (ih (hsame ▸ herror) hothers)

theorem tokens_eq (h : Spelled text ts) (position : Position) :
    (Cursor.tokens ⟨text, position⟩).2 = none ∧
      (Cursor.tokens ⟨text, position⟩).1.map Lexeme.token =
        ts ++ [.endOfInput] := by
  induction h generalizing position with
  | @done text hblank =>
      have hnext : ∃ l c, Cursor.next ⟨text, position⟩ = (.ok l, c) ∧
          l.token = .endOfInput := by
        simp only [Cursor.next, Cursor.skipWhile, hblank, Cursor.scan]
        exact ⟨_, _, rfl, rfl⟩
      obtain ⟨l, c, hnext, hl⟩ := hnext
      rw [Cursor.tokens_of_end hnext hl]
      exact ⟨rfl, by simp [hl]⟩
  | @token text behind t ts first others ih =>
      obtain ⟨position', hscan⟩ :=
        first.scan_eq (position.after (text.takeWhile isSeparator))
      have hnext : Cursor.next ⟨text, position⟩ =
          (.ok ⟨t, position.after (text.takeWhile isSeparator)⟩,
            ⟨behind, position'⟩) := by
        simp only [Cursor.next, Cursor.skipWhile, hscan]
      obtain ⟨herror, htokens⟩ := ih position'
      rw [Cursor.tokens_of_lexeme hnext first.ne_endOfInput]
      exact ⟨herror, by simp [htokens]⟩

end Spelled

theorem Source.spells_iff_spelled {s : Source} {ts : List Token} :
    s.Spells ts ↔ Spelled s.text ts :=
  ⟨fun h => .of_tokens h.1 h.2, fun h => h.tokens_eq ⟨s.firstLine, 1⟩⟩

end OnePass

import OnePass.Proofs.Lexemes
import OnePass.Proofs.TokenOutcome

/-!
Texts whose lines end with a carriage return and a line feed. For a reader of
tokens the carriage return is a blank that comes last in its line, so no token
moves; for error reports both characters are one line end. Main statement: such
a text comes to the same as the one with line feeds only, down to the report of
an error.
-/

namespace OnePass

namespace Text

/-- The text with a carriage return in front of every line feed. -/
def withReturns : List Char → List Char
  | [] => []
  | c :: text =>
      if c = '\n' then '\r' :: '\n' :: withReturns text
        else c :: withReturns text

theorem withReturns_lineFeed (text : List Char) :
    withReturns ('\n' :: text) = '\r' :: '\n' :: withReturns text :=
  rfl

theorem withReturns_cons {c : Char} (hc : c ≠ '\n') (text : List Char) :
    withReturns (c :: text) = c :: withReturns text := by
  rw [withReturns, if_neg hc]

theorem withReturns_append (front text : List Char) :
    withReturns (front ++ text) = withReturns front ++ withReturns text := by
  induction front with
  | nil => rfl
  | cons c front ih =>
      by_cases hfeed : c = '\n'
      · subst hfeed
        rw [List.cons_append, withReturns_lineFeed, withReturns_lineFeed, ih]
        rfl
      · rw [List.cons_append, withReturns_cons hfeed,
          withReturns_cons hfeed, ih]
        rfl

theorem withReturns_of_not_mem {text : List Char} (h : '\n' ∉ text) :
    withReturns text = text := by
  induction text with
  | nil => rfl
  | cons c text ih =>
      obtain ⟨hc, htext⟩ := not_or.mp (mt List.mem_cons.mpr h)
      rw [withReturns_cons (Ne.symm hc), ih htext]

theorem lines_withReturns {text : List Char} (h : '\r' ∉ text) :
    lines (withReturns text) = lines text := by
  induction text with
  | nil => rfl
  | cons c text ih =>
      obtain ⟨hc, htext⟩ := not_or.mp (mt List.mem_cons.mpr h)
      by_cases hfeed : c = '\n'
      · subst hfeed
        rw [withReturns_lineFeed, lines, ih htext, lines]
        · rfl
        · rintro rest ⟨⟩
      · rw [withReturns_cons hfeed, lines, ih htext, lines]
        · rintro rest rfl
          exact absurd rfl hc
        · rintro rest rfl
          exact absurd rfl hc

end Text

/-- Runs are kept apart by the same characters in both texts, if they do not
tell a carriage return from a line feed. -/
theorem LongestRun.withReturns {p : Char → Bool} {run behind : List Char}
    (h : LongestRun p run behind) (hp : p '\r' = p '\n') :
    LongestRun p (Text.withReturns run) (Text.withReturns behind) := by
  constructor
  · have hrun := h.all
    clear h
    induction run with
    | nil => exact hrun
    | cons c run ih =>
        obtain ⟨hc, hothers⟩ := List.forall_mem_cons.mp hrun
        by_cases hfeed : c = '\n'
        · subst hfeed
          rw [Text.withReturns_lineFeed, List.forall_mem_cons,
            List.forall_mem_cons]
          exact ⟨hp.trans hc, hc, ih hothers⟩
        · rw [Text.withReturns_cons hfeed, List.forall_mem_cons]
          exact ⟨hc, ih hothers⟩
  · intro first hfirst
    cases behind with
    | nil => cases hfirst
    | cons c behind =>
        have hc := h.ends c rfl
        by_cases hfeed : c = '\n'
        · subst hfeed
          cases hfirst
          exact hp.trans hc
        · rw [Text.withReturns_cons hfeed] at hfirst
          cases hfirst
          exact hc

theorem Position.after_withReturns (p : Position) (text : List Char) :
    p.after (Text.withReturns text) = p.after text := by
  induction text generalizing p with
  | nil => rfl
  | cons c text ih =>
      by_cases hfeed : c = '\n'
      · subst hfeed
        exact ih _
      · rw [Text.withReturns_cons hfeed]
        exact ih _

namespace Cursor

def withReturns (c : Cursor) : Cursor :=
  ⟨Text.withReturns c.rest, c.position⟩

section Runs

variable {p : Char → Bool} (hp : p '\r' = p '\n') (c : Cursor)
include hp

theorem takeWhile_withReturns :
    c.withReturns.rest.takeWhile p = Text.withReturns (c.rest.takeWhile p) ∧
      c.withReturns.rest.dropWhile p =
        Text.withReturns (c.rest.dropWhile p) := by
  have hrun := (LongestRun.of_takeWhile p c.rest).withReturns hp
  have hrest : c.withReturns.rest =
      Text.withReturns (c.rest.takeWhile p) ++ Text.withReturns
        (c.rest.dropWhile p) := by
    rw [← Text.withReturns_append, List.takeWhile_append_dropWhile]
    rfl
  rw [hrest]
  exact ⟨hrun.takeWhile_eq, hrun.dropWhile_eq⟩

theorem skipWhile_withReturns :
    c.withReturns.skipWhile p = (c.skipWhile p).withReturns := by
  obtain ⟨htake, hdrop⟩ := c.takeWhile_withReturns hp
  rw [skipWhile, htake, hdrop, Position.after_withReturns]
  rfl

end Runs

theorem takeWhile_withReturns_of_not {p : Char → Bool}
    (hreturn : p '\r' = false) (hfeed : p '\n' = false) (c : Cursor) :
    c.withReturns.rest.takeWhile p = c.rest.takeWhile p := by
  rw [(c.takeWhile_withReturns (hreturn.trans hfeed.symm)).1]
  apply Text.withReturns_of_not_mem
  intro hmem
  have htrue := (LongestRun.of_takeWhile p c.rest).all '\n' hmem
  rw [hfeed] at htrue
  cases htrue

theorem scan_withReturns {c : Cursor}
    (hfirst : ∀ first ∈ c.rest.head?, first ≠ '\n') :
    c.withReturns.scan = (c.scan.1, c.scan.2.withReturns) := by
  have hdigits := c.takeWhile_withReturns_of_not (p := Char.isDigit) rfl rfl
  have hword := c.takeWhile_withReturns_of_not (p := isWordPart) rfl rfl
  have hskipDigits := c.skipWhile_withReturns (p := Char.isDigit) rfl
  have hskipWord := c.skipWhile_withReturns (p := isWordPart) rfl
  cases hrest : c.rest with
  | nil =>
      have hrest' : c.withReturns.rest = [] := by
        rw [withReturns, hrest]
        rfl
      simp only [scan, hrest, hrest']
  | cons first rest =>
      have hfeed : first ≠ '\n' := hfirst first (by rw [hrest]; rfl)
      have hrest' : c.withReturns.rest = first :: Text.withReturns rest := by
        rw [withReturns, hrest, Text.withReturns_cons hfeed]
      have hdrop : c.withReturns.drop 1 = (c.drop 1).withReturns := by
        rw [drop, drop, hrest', hrest]
        rfl
      rw [hrest', hrest] at hdigits hword
      simp only [scan, hrest, hrest', hdigits, hword, hskipDigits,
        hskipWord, hdrop]
      split
      · rfl
      · split
        · rfl
        · split <;> rfl

theorem next_withReturns (c : Cursor) :
    c.withReturns.next = (c.next.1, c.next.2.withReturns) := by
  have hstart : ∀ first ∈ (c.skipWhile isSeparator).rest.head?,
      first ≠ '\n' := by
    rintro first hfirst rfl
    have hblank := (LongestRun.of_takeWhile isSeparator c.rest).ends '\n' hfirst
    cases hblank
  simp only [next, c.skipWhile_withReturns (p := isSeparator) rfl,
    scan_withReturns hstart]
  rcases (c.skipWhile isSeparator).scan with ⟨cause | token, behind⟩
  · rfl
  · rfl

theorem takeTokens_withReturns (count : Nat) (c : Cursor) :
    c.withReturns.takeTokens count = c.takeTokens count := by
  induction count generalizing c with
  | zero => rfl
  | succ count ih =>
      rw [takeTokens, takeTokens, next_withReturns]
      rcases c.next with ⟨error | lexeme, behind⟩
      · rfl
      · simp only [ih]

theorem tokens_withReturns (c : Cursor) : c.withReturns.tokens = c.tokens := by
  have hcount :
      c.rest.length < max c.rest.length c.withReturns.rest.length + 1 :=
    Nat.lt_succ_of_le (Nat.le_max_left _ _)
  have hcount' :
      c.withReturns.rest.length <
      max c.rest.length c.withReturns.rest.length + 1 :=
    Nat.lt_succ_of_le (Nat.le_max_right _ _)
  rw [← takeTokens_eq_tokens hcount, ← takeTokens_eq_tokens hcount',
    takeTokens_withReturns]

end Cursor

namespace Source

/-- The source with a carriage return in front of every line feed of its text.
-/
def withReturns (s : Source) : Source :=
  { s with text := Text.withReturns s.text }

theorem line_withReturns {s : Source} (h : '\r' ∉ s.text) (number : Int) :
    s.withReturns.line number = s.line number := by
  simp only [line, withReturns, Text.lines_withReturns h]

theorem diagnostic_withReturns {s : Source} (h : '\r' ∉ s.text)
    (error : CompileError) :
    error.diagnostic s.withReturns = error.diagnostic s := by
  have hline := line_withReturns h
  have hname : s.withReturns.name = s.name := rfl
  cases error with
  | lexical e =>
      simp only [CompileError.diagnostic, LexError.diagnostic, hline, hname]
  | unexpected | tooDeep =>
      simp only [CompileError.diagnostic, CompileError.atLexeme, hline, hname]
  | malformed fault => rfl

/-- It does not matter how lines end. A text without carriage returns and the
one with a carriage return in front of every line feed come to the same under
every limit on nesting: to the same program, or to the same error at the same
place; and errors are reported with the same line, caret and hint. -/
theorem line_endings_immaterial {s : Source} (h : '\r' ∉ s.text) (limit : Nat) :
    (s.withReturns.compileWithin limit).outcome =
      (s.compileWithin limit).outcome ∧
      ∀ error : CompileError,
        error.diagnostic s.withReturns = error.diagnostic s := by
  constructor
  · have htokens : s.withReturns.start.tokens = s.start.tokens :=
      s.start.tokens_withReturns
    exact outcome_eq_of_tokens_eq htokens rfl limit
  · exact diagnostic_withReturns h

def strayAmount : Source where
  text := "if (a <\n  $ 1)\n\n".toList
  firstLine := 7

theorem line_endings_immaterial_stray :
    '\r' ∉ strayAmount.text ∧
      strayAmount.withReturns.compile.outcome =
        .error (.lexical ⟨.invalidCharacter '$', ⟨8, 3⟩⟩) ∧
      (CompileError.lexical ⟨.invalidCharacter '$', ⟨8, 3⟩⟩).render
        strayAmount.withReturns =
        .ok "<input>:8:3: error: invalid character '$'\n      $ 1)\n      ^" := by
  have hplain : '\r' ∉ strayAmount.text := by decide
  have houtcome : strayAmount.compile.outcome =
      .error (.lexical ⟨.invalidCharacter '$', ⟨8, 3⟩⟩) := by decide +kernel
  obtain ⟨hsame, hreports⟩ := line_endings_immaterial hplain nestingLimit
  refine ⟨hplain, hsame.trans houtcome, ?_⟩
  rw [CompileError.render, hreports]
  decide +kernel

end Source

end OnePass

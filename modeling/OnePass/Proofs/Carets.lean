import OnePass.Proofs.ErrorPlace
import OnePass.Proofs.Positions

namespace OnePass

namespace Text

def OnlyLineFeeds (text : List Char) : Prop :=
  ∀ c ∈ text, isLineEnd c = true → c = '\n'

instance (text : List Char) : Decidable (OnlyLineFeeds text) :=
  List.decidableBAll _ text

theorem OnlyLineFeeds.not_isLineEnd {text part : List Char}
    (h : OnlyLineFeeds text) (hpart : part ⊆ text) (hnot : '\n' ∉ part) :
    ∀ c ∈ part, isLineEnd c = false := by
  intro c hc
  refine Bool.eq_false_iff.mpr fun hend => hnot ?_
  rw [← h c (hpart hc) hend]
  exact hc

theorem lines_lineFeed (text : List Char) :
    lines ('\n' :: text) = [] :: lines text := by
  rw [lines]
  · rfl
  · intro rest h
    cases h

theorem lines_cons {c : Char} (hc : isLineEnd c = false) (text : List Char) :
    lines (c :: text) = (c :: (lines text).headD []) :: (lines text).tail := by
  rw [lines]
  · rw [hc]
    cases lines text with
    | nil => rfl
    | cons => rfl
  · rintro rest rfl
    cases hc

theorem drop_lines {front : List Char} (h : OnlyLineFeeds front)
    (rest : List Char) :
    (lines (front ++ '\n' :: rest)).drop (front.count '\n' + 1) =
      lines rest := by
  induction front with
  | nil =>
      rw [List.nil_append, lines_lineFeed, List.count_nil, List.drop_one,
        List.tail_cons]
  | cons c front ih =>
      have hothers := ih fun d hd => h d (List.mem_cons_of_mem c hd)
      rw [List.cons_append]
      by_cases hc : c = '\n'
      · rw [hc, lines_lineFeed, List.count_cons_self, List.drop_succ_cons]
        exact hothers
      · -- The character changes the first line only, and that one is dropped.
        have hend : isLineEnd c = false :=
          Bool.eq_false_iff.mpr fun hend => hc (h c List.mem_cons_self hend)
        rw [lines_cons hend, List.count_cons_of_ne hc, List.drop_succ_cons,
          List.drop_tail]
        exact hothers

theorem headD_lines {line : List Char} (h : ∀ c ∈ line, isLineEnd c = false)
    {behind : List Char}
    (hbehind : behind = [] ∨ ∃ back, behind = '\n' :: back) :
    (lines (line ++ behind)).headD [] = line := by
  induction line with
  | nil =>
      rcases hbehind with rfl | ⟨back, rfl⟩
      · rfl
      · rw [List.nil_append, lines_lineFeed, List.headD_cons]
  | cons c line ih =>
      obtain ⟨hc, hline⟩ := List.forall_mem_cons.mp h
      rw [List.cons_append, lines_cons hc, List.headD_cons, ih hline]

end Text

/-- The text on both sides of an offset, up to the line feeds around it. -/
structure LineAround (text : List Char) (offset : Nat)
    (left right : List Char) : Prop where
  before : text.take offset = left ∨
    ∃ front, text.take offset = front ++ '\n' :: left
  behind : text.drop offset = right ∨
    ∃ back, text.drop offset = right ++ '\n' :: back
  inside : '\n' ∉ left ++ right

theorem exists_before_lineFeed (text : List Char) :
    ∃ line, '\n' ∉ line ∧
      (text = line ∨ ∃ back, text = line ++ '\n' :: back) := by
  by_cases hmem : '\n' ∈ text
  · obtain ⟨line, back, htext, hline⟩ := List.eq_append_cons_of_mem hmem
    exact ⟨line, hline, .inr ⟨back, htext⟩⟩
  · exact ⟨text, hmem, .inl rfl⟩

theorem exists_lineAround (text : List Char) (offset : Nat) :
    ∃ left right, LineAround text offset left right := by
  obtain ⟨left, hleft, hbefore⟩ :=
    exists_before_lineFeed (text.take offset).reverse
  obtain ⟨right, hright, hbehind⟩ := exists_before_lineFeed (text.drop offset)
  refine ⟨left.reverse, right, ?_, hbehind, ?_⟩
  · rcases hbefore with htext | ⟨front, htext⟩
    · left
      rw [← htext, List.reverse_reverse]
    · right
      exact ⟨front.reverse, by simpa using congrArg List.reverse htext⟩
  · simp [hleft, hright]

namespace LineAround

theorem subset {text left right : List Char} {offset : Nat}
    (h : LineAround text offset left right) :
    left ++ right ⊆ text := by
  have hleft : left ⊆ text.take offset := by
    rcases h.before with htake | ⟨front, htake⟩ <;> simp [htake]
  have hright : right ⊆ text.drop offset := by
    rcases h.behind with hdrop | ⟨back, hdrop⟩ <;> simp [hdrop]
  intro c hc
  rcases List.mem_append.mp hc with hc | hc
  · exact List.mem_of_mem_take (hleft hc)
  · exact List.mem_of_mem_drop (hright hc)

variable {s : Source} {offset : Nat} {left right : List Char}

theorem column_placeAt (h : LineAround s.text offset left right) :
    (s.placeAt offset).column = 1 + left.length := by
  have hleft : ∀ c ∈ left.reverse, (c != '\n') = true := by
    intro c hc
    have hmem : c ∈ left ++ right :=
      List.mem_append_left right (List.mem_reverse.mp hc)
    exact bne_iff_ne.mpr fun heq => h.inside (heq ▸ hmem)
  have hrun : (s.text.take offset).reverse.takeWhile (· != '\n') =
      left.reverse := by
    rcases h.before with htext | ⟨front, htext⟩
    · have hwhole : LongestRun (· != '\n') left.reverse [] := ⟨hleft, by simp⟩
      have heq := hwhole.takeWhile_eq
      rw [List.append_nil] at heq
      rw [htext, heq]
    · have hpart :
          LongestRun (· != '\n') left.reverse ('\n' :: front.reverse) :=
          ⟨hleft, by simp⟩
      have hreverse :
          (s.text.take offset).reverse =
          left.reverse ++ '\n' :: front.reverse := by
        simp [htext]
      rw [hreverse]
      exact hpart.takeWhile_eq
  rw [Source.placeAt, hrun, List.length_reverse]

theorem drop_lines (h : LineAround s.text offset left right)
    (hlines : Text.OnlyLineFeeds s.text) :
    (Text.lines s.text).drop ((s.text.take offset).count '\n') =
      Text.lines (left ++ s.text.drop offset) := by
  have hleft : '\n' ∉ left := fun hmem =>
    h.inside (List.mem_append_left right hmem)
  have htext := (List.take_append_drop offset s.text).symm
  rcases h.before with htake | ⟨front, htake⟩
  · rw [htake] at htext ⊢
    rw [List.count_eq_zero.mpr hleft, List.drop_zero, ← htext]
  · rw [htake, List.append_assoc, List.cons_append] at htext
    have hfront : Text.OnlyLineFeeds front := by
      intro c hc
      exact hlines c (htext ▸ List.mem_append_left _ hc)
    have hcount : (s.text.take offset).count '\n' = front.count '\n' + 1 := by
      rw [htake, List.count_append, List.count_cons_self,
        List.count_eq_zero.mpr hleft]
    rw [hcount]
    conv => lhs; rw [htext]
    exact Text.drop_lines hfront _

theorem line_placeAt (h : LineAround s.text offset left right)
    (hlines : Text.OnlyLineFeeds s.text) :
    s.line (s.placeAt offset).line = String.ofList (left ++ right) := by
  have hcount : ((s.placeAt offset).line - s.firstLine).toNat =
      (s.text.take offset).count '\n' := by
    simp only [Source.placeAt]
    omega
  have hnumber : ¬ (s.placeAt offset).line < s.firstLine := by
    simp only [Source.placeAt]
    omega
  have hfirst : (Text.lines (left ++ s.text.drop offset)).headD [] =
      left ++ right := by
    have hends := hlines.not_isLineEnd h.subset h.inside
    rcases h.behind with hdrop | ⟨back, hdrop⟩
    · have hwhole := Text.headD_lines hends (.inl rfl)
      rw [List.append_nil] at hwhole
      rw [hdrop]
      exact hwhole
    · have hpart := Text.headD_lines hends (.inr ⟨back, rfl⟩)
      rw [List.append_assoc] at hpart
      rw [hdrop]
      exact hpart
  rw [Source.line, if_neg hnumber, hcount, List.getD_eq_getElem?_getD,
    ← List.head?_drop, h.drop_lines hlines, ← List.headD_eq_head?_getD, hfirst]

theorem getElem?_shown (h : LineAround s.text offset left right)
    (hfirst : s.text[offset]? ≠ some '\n') :
    ("    " ++ String.ofList (left ++ right)).toList[4 + left.length]? =
      s.text[offset]? := by
  have hshown :
      ("    " ++ String.ofList (left ++ right)).toList[4 + left.length]? =
      right.head? := by
    have hlist : ("    " ++ String.ofList (left ++ right)).toList =
        [' ', ' ', ' ', ' '] ++ left ++ right := by simp
    have hlength : ([' ', ' ', ' ', ' '] ++ left).length = 4 + left.length :=
      List.length_append
    rw [hlist, ← hlength, List.getElem?_append_right (Nat.le_refl _),
      Nat.sub_self, List.head?_eq_getElem?]
  rw [hshown]
  rw [← List.head?_drop] at hfirst ⊢
  rcases h.behind with hdrop | ⟨back, hdrop⟩
  · rw [hdrop]
  · rw [hdrop] at hfirst ⊢
    cases right with
    | nil => exact absurd rfl hfirst  -- The line would end right at the offset.
    | cons c right => rfl

end LineAround

namespace Cursor

theorem afterCalls_next (c : Cursor) (count : Nat) :
    c.next.2.afterCalls count = c.afterCalls (count + 1) := by
  induction count with
  | zero => rfl
  | succ count ih => exact congrArg (fun later : Cursor => later.next.2) ih

theorem exists_call (c : Cursor) :
    (∀ l ∈ c.tokens.1, ∃ calls, (c.afterCalls calls).next.1 = .ok l) ∧
      ∀ e, c.tokens.2 = some e →
        ∃ calls, (c.afterCalls calls).next.1 = .error e := by
  apply forall_takeTokens
  · intro c l behind hnext
    have hlater : ∀ calls,
        behind.afterCalls calls = c.afterCalls (calls + 1) := by
      intro calls
      rw [← afterCalls_next, hnext]
    simp only [hlater]
    refine ⟨⟨0, congrArg Prod.fst hnext⟩, ?_, ?_⟩
    · rintro l' ⟨calls, hcalls⟩
      exact ⟨calls + 1, hcalls⟩
    · rintro e ⟨calls, hcalls⟩
      exact ⟨calls + 1, hcalls⟩
  · intro c e behind hnext
    exact ⟨0, congrArg Prod.fst hnext⟩

end Cursor

namespace Source

/-- An error that is about the token, or the lack of one, at an offset of the
text. -/
inductive ErrorAt (s : Source) : CompileError → Nat → Prop where
  | token {expected : Expectation} {t : Token} {offset : Nat}
      {lexeme behind : List Char}
      (text : s.text.drop offset = lexeme ++ behind)
      (reads : t.HasLexeme lexeme behind) :
      ErrorAt s (.unexpected expected ⟨t, s.placeAt offset⟩) offset
  | endOfInput {expected : Expectation} :
      ErrorAt s (.unexpected expected ⟨.endOfInput, s.placeAt s.text.length⟩)
        s.text.length
  | lexical {cause : LexCause} {offset : Nat}
      (obstructs : cause.Obstructs (s.text.drop offset)) :
      ErrorAt s (.lexical ⟨cause, s.placeAt offset⟩) offset

variable {s : Source}

theorem Reports.errorAt_of_ok {start place behind : Nat} {found : Lexeme}
    (h : s.Reports start (.ok found) place behind) (expected : Expectation) :
    s.ErrorAt (.unexpected expected found) place := by
  cases h with
  | token text _ reads => exact .token (drop_add text) reads
  | endOfInput => exact .endOfInput

theorem Reports.errorAt_of_error {start place behind : Nat} {error : LexError}
    (h : s.Reports start (.error error) place behind) :
    s.ErrorAt (.lexical error) place := by
  cases h with
  | unknownWord text _ obstructs | invalidCharacter text _ obstructs =>
      rw [← drop_add text] at obstructs
      exact .lexical obstructs

theorem errorAt_of_placed {error : CompileError} (h : s.Placed error)
    (hdeep : ∀ found, error ≠ .tooDeep found) :
    ∃ offset, s.ErrorAt error offset := by
  obtain ⟨htokens, hunread⟩ := s.start.exists_call
  cases h with
  | @unexpected expected found before refused =>
      have hmem : found ∈ s.start.tokens.1 := refused.place.subset (by simp)
      obtain ⟨calls, hcalls⟩ := htokens found hmem
      obtain ⟨place, hreports⟩ := s.exists_reports calls
      rw [answer, hcalls] at hreports
      exact ⟨place, hreports.errorAt_of_ok expected⟩
  | @lexical error unread =>
      obtain ⟨calls, hcalls⟩ := hunread error unread
      obtain ⟨place, hreports⟩ := s.exists_reports calls
      rw [answer, hcalls] at hreports
      exact ⟨place, hreports.errorAt_of_error⟩
  | tooDeep found => exact absurd rfl (hdeep found)

theorem ErrorAt.getElem?_ne {error : CompileError} {offset : Nat}
    (h : s.ErrorAt error offset) :
    s.text[offset]? ≠ some '\n' := by
  rw [← List.head?_drop]
  cases h with
  | token text reads =>
      obtain ⟨first, more, rfl, hfirst⟩ := reads.exists_first
      rw [text]
      rintro ⟨⟩
      cases hfirst
  | endOfInput => simp
  | lexical obstructs =>
      generalize s.text.drop offset = rest at obstructs
      cases obstructs with
      | invalidCharacter separator =>
          rintro ⟨⟩
          cases separator
      | @unknownWord word behind first =>
          obtain ⟨c, hc, hstart⟩ := first
          rw [List.head?_append, Option.mem_def.mp hc]
          rintro ⟨⟩
          cases hstart

theorem ErrorAt.excerpt_eq {error : CompileError} {offset : Nat}
    (h : s.ErrorAt error offset) {d : Diagnostic}
    (hd : error.diagnostic s = .ok d) :
    d.excerpt =
      ["    " ++ s.line (s.placeAt offset).line,
        Diagnostic.caretLine (s.placeAt offset).column] := by
  have hcolumn : 0 < (s.placeAt offset).column := by
    simp only [placeAt]
    omega
  cases h with
  | token | endOfInput =>
      obtain ⟨description, -, rfl⟩ := CompileError.exists_description_of_ok hd
      simp only [CompileError.atLexeme, Diagnostic.excerpt, if_pos hcolumn]
  | lexical =>
      cases hd
      simp only [LexError.diagnostic, Diagnostic.excerpt, if_pos hcolumn]

theorem ErrorAt.exists_heading {error : CompileError} {offset : Nat}
    (h : s.ErrorAt error offset) {text : String}
    (hrender : error.render s = .ok text) :
    ∃ d heading, error.diagnostic s = .ok d ∧ d.heading = .ok heading ∧
      text = Text.joinLines ([heading, "    " ++ s.line (s.placeAt offset).line,
        Diagnostic.caretLine (s.placeAt offset).column] ++ d.advice) := by
  unfold CompileError.render at hrender
  cases hd : error.diagnostic s with
  | error e =>
      rw [hd] at hrender
      cases hrender
  | ok d =>
      rw [hd] at hrender
      change d.render = .ok text at hrender
      unfold Diagnostic.render at hrender
      cases hheading : d.heading with
      | error e =>
          rw [hheading] at hrender
          cases hrender
      | ok heading =>
          rw [hheading, h.excerpt_eq hd] at hrender
          exact ⟨d, heading, rfl, hheading, (Except.ok.inj hrender).symm⟩

/-- A report shows the text between the line feeds around what is in the way,
with the caret under its first character. At the end of the input the caret
stands behind the line. There is a report unless it shows an integer that is too
long. -/
theorem caret_under_error {limit : Nat} {error : CompileError}
    (hlines : Text.OnlyLineFeeds s.text)
    (h : (s.compileWithin limit).outcome = .error error)
    (hdeep : ∀ found, error ≠ .tooDeep found) :
    ∃ offset left right, s.ErrorAt error offset ∧
      LineAround s.text offset left right ∧
      ((∃ text, error.render s = .ok text) ↔
        ∀ n ∈ error.shown, Text.isShort n = true) ∧
      (∀ text, error.render s = .ok text →
        ∃ d heading, error.diagnostic s = .ok d ∧ d.heading = .ok heading ∧
          text = Text.joinLines
            ([heading, "    " ++ String.ofList (left ++ right),
            Text.spaces (4 + left.length) ++ "^"] ++ d.advice)) ∧
      ("    " ++ String.ofList (left ++ right)).toList[4 + left.length]? =
        s.text[offset]? ∧
      (offset = s.text.length → right = []) := by
  obtain ⟨offset, herror⟩ := errorAt_of_placed (placed_of_error h) hdeep
  obtain ⟨left, right, haround⟩ := exists_lineAround s.text offset
  have hcaret : Diagnostic.caretLine (s.placeAt offset).column =
      Text.spaces (4 + left.length) ++ "^" := by
    have hwidth : (4 + (1 + (left.length : Int)) - 1).toNat =
        4 + left.length := by omega
    rw [Diagnostic.caretLine, haround.column_placeAt, hwidth]
  refine ⟨offset, left, right, herror, haround, ?_, ?_,
    haround.getElem?_shown herror.getElem?_ne, ?_⟩
  · exact CompileError.exists_render_iff s (ne_malformed_of_error h)
  · intro text hrender
    rw [← haround.line_placeAt hlines, ← hcaret]
    exact herror.exists_heading hrender
  · rintro rfl
    rcases haround.behind with hdrop | ⟨back, hdrop⟩
    · rw [← hdrop, List.drop_length]
    · simp at hdrop

def openCondition : Source where
  text := "if (a)\n".toList
  firstLine := 7

def openConditionReport : String :=
  "<input>:8:1: error: expected a variable, integer or '(', " ++
    "found end of input\n    \n    ^"

theorem caret_under_error_behind_lineFeed :
    Text.OnlyLineFeeds openCondition.text ∧
      openCondition.compile.outcome =
        .error (.unexpected .operand ⟨.endOfInput, ⟨8, 1⟩⟩) ∧
      ∃ offset left right,
        openCondition.ErrorAt (.unexpected .operand ⟨.endOfInput, ⟨8, 1⟩⟩)
          offset ∧
        LineAround openCondition.text offset left right ∧
        (∃ d heading, CompileError.diagnostic openCondition
            (.unexpected .operand ⟨.endOfInput, ⟨8, 1⟩⟩) = .ok d ∧
          d.heading = .ok heading ∧
          openConditionReport =
            Text.joinLines ([heading, "    " ++ String.ofList (left ++ right),
              Text.spaces (4 + left.length) ++ "^"] ++ d.advice)) ∧
        ("    " ++ String.ofList (left ++ right)).toList[4 + left.length]? =
          openCondition.text[offset]? ∧
        (offset = openCondition.text.length → right = []) := by
  have hlines : Text.OnlyLineFeeds openCondition.text := by decide
  have houtcome : openCondition.compile.outcome =
      .error (.unexpected .operand ⟨.endOfInput, ⟨8, 1⟩⟩) := by decide +kernel
  have hrender : CompileError.render openCondition
      (.unexpected .operand ⟨.endOfInput, ⟨8, 1⟩⟩) = .ok openConditionReport := by
    decide +kernel
  obtain ⟨offset, left, right, herror, haround, -, htext, hunder, hend⟩ :=
    caret_under_error hlines houtcome (fun found h => by cases h)
  exact ⟨hlines, houtcome, offset, left, right, herror, haround,
    htext _ hrender, hunder, hend⟩

end Source

end OnePass

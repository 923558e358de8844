import OnePass.Proofs.Acceptance
import OnePass.Text.Control

namespace OnePass

namespace Position

theorem after_append (p : Position) (front text : List Char) :
    p.after (front ++ text) = (p.after front).after text :=
  List.foldl_append

theorem line_after {text : List Char} (h : '\n' ∉ text) (p : Position) :
    (p.after text).line = p.line := by
  induction text generalizing p with
  | nil => rfl
  | cons c text ih =>
      rw [List.mem_cons, not_or] at h
      have hnext : p.next c = ⟨p.line, p.column + 1⟩ := if_neg (Ne.symm h.1)
      exact (ih h.2 (p.next c)).trans (by rw [hnext])

end Position

namespace Cursor

/-- Between the two cursors stands a front of the text at the first. -/
def LeadsTo (c place : Cursor) : Prop :=
  ∃ front, c.rest = front ++ place.rest ∧
    place.position = c.position.after front

variable {c place : Cursor}

theorem LeadsTo.refl (c : Cursor) : c.LeadsTo c :=
  ⟨[], rfl, rfl⟩

theorem LeadsTo.trans {middle : Cursor} (h : c.LeadsTo middle)
    (h' : middle.LeadsTo place) :
    c.LeadsTo place := by
  obtain ⟨front, hrest, hposition⟩ := h
  obtain ⟨front', hrest', hposition'⟩ := h'
  refine ⟨front ++ front', ?_, ?_⟩
  · rw [hrest, hrest', List.append_assoc]
  · rw [hposition', hposition, Position.after_append]

theorem LeadsTo.subset (h : c.LeadsTo place) : place.rest ⊆ c.rest := by
  obtain ⟨front, hrest, -⟩ := h
  rw [hrest]
  exact List.subset_append_right front place.rest

theorem LeadsTo.line (h : c.LeadsTo place) (hline : '\n' ∉ c.rest) :
    place.position.line = c.position.line := by
  obtain ⟨front, hrest, hposition⟩ := h
  rw [hposition]
  exact Position.line_after
    (fun hmem => hline (hrest ▸ List.mem_append_left _ hmem)) c.position

theorem leadsTo_skipWhile (c : Cursor) (p : Char → Bool) :
    c.LeadsTo (c.skipWhile p) :=
  ⟨c.rest.takeWhile p, List.takeWhile_append_dropWhile.symm, rfl⟩

theorem leadsTo_drop (c : Cursor) (n : Nat) : c.LeadsTo (c.drop n) :=
  ⟨c.rest.take n, (List.take_append_drop n c.rest).symm, rfl⟩

theorem leadsTo_scan (c : Cursor) : c.LeadsTo c.scan.2 := by
  unfold scan
  split
  · exact .refl c
  · split
    · exact c.leadsTo_skipWhile _
    · split
      · exact c.leadsTo_skipWhile _
      · split
        · exact c.leadsTo_drop 1
        · exact .refl c

end Cursor

def Lexeme.StandsIn (l : Lexeme) (c : Cursor) : Prop :=
  ∃ place, c.LeadsTo place ∧ l.position = place.position

def LexError.StandsIn (e : LexError) (c : Cursor) : Prop :=
  ∃ place, c.LeadsTo place ∧ e.position = place.position ∧
    place.scan.1 = .error e.cause

theorem Lexeme.StandsIn.of_leadsTo {l : Lexeme} {c behind : Cursor}
    (h : l.StandsIn behind) (hleads : c.LeadsTo behind) : l.StandsIn c := by
  obtain ⟨place, hplace, hposition⟩ := h
  exact ⟨place, hleads.trans hplace, hposition⟩

theorem LexError.StandsIn.of_leadsTo {e : LexError} {c behind : Cursor}
    (h : e.StandsIn behind) (hleads : c.LeadsTo behind) : e.StandsIn c := by
  obtain ⟨place, hplace, hposition⟩ := h
  exact ⟨place, hleads.trans hplace, hposition⟩

/-- The part of the text that is quoted. -/
def LexCause.excerpt : LexCause → List Char
  | .invalidCharacter c => [c]
  | .unknownWord word => word

namespace Cursor

theorem excerpt_subset_of_scan {c : Cursor} {cause : LexCause}
    (h : c.scan.1 = .error cause) :
    cause.excerpt ⊆ c.rest := by
  unfold scan at h
  split at h
  · cases h
  · rename_i first rest hrest
    split at h
    · cases h
    · split at h
      · rw [wordToken_eq_error h]
        exact (List.takeWhile_prefix isWordPart).subset
      · split at h
        · cases h
        · cases h
          simp [LexCause.excerpt, hrest]

theorem standsIn_of_next {c behind : Cursor} {l : Lexeme}
    (h : c.next = (.ok l, behind)) :
    l.StandsIn c ∧ c.LeadsTo behind := by
  have hstart := c.leadsTo_skipWhile isSeparator
  have hbehind := hstart.trans (c.skipWhile isSeparator).leadsTo_scan
  simp only [next] at h
  generalize (c.skipWhile isSeparator).scan = scanned at hbehind h
  rcases scanned with ⟨cause | token, behind⟩
  · cases h
  · cases h
    exact ⟨⟨_, hstart, rfl⟩, hbehind⟩

theorem standsIn_of_next_error {c behind : Cursor} {e : LexError}
    (h : c.next = (.error e, behind)) :
    e.StandsIn c := by
  refine ⟨c.skipWhile isSeparator, c.leadsTo_skipWhile isSeparator, ?_⟩
  simp only [next] at h
  generalize (c.skipWhile isSeparator).scan = scanned at h ⊢
  rcases scanned with ⟨cause | token, behind⟩
  · cases h
    exact ⟨rfl, rfl⟩
  · cases h

theorem standsIn_of_tokens (c : Cursor) :
    (∀ l ∈ c.tokens.1, l.StandsIn c) ∧ ∀ e, c.tokens.2 = some e →
      e.StandsIn c := by
  apply forall_takeTokens
  · intro c l behind hnext
    obtain ⟨hstands, hleads⟩ := standsIn_of_next hnext
    exact ⟨hstands, fun l' h => h.of_leadsTo hleads, fun e h =>
      h.of_leadsTo hleads⟩
  · intro c e behind hnext
    exact standsIn_of_next_error hnext

end Cursor

theorem Emitter.lookahead_mem_of_later {e e' : Emitter} (h : e.Later e') :
    e'.lookahead ∈ e.stream.1 := by
  obtain ⟨later, hlater⟩ := e'.exists_stream
  exact h.suffix.subset (hlater ▸ List.mem_cons_self)

theorem CompileError.exists_description_of_ok {s : Source}
    {expected : Expectation} {found : Lexeme} {d : Diagnostic}
    (h : (unexpected expected found).diagnostic s = .ok d) :
    ∃ description, found.token.describe = .ok description ∧
      d = atLexeme s found (Expectation.mismatch expected.text description)
        expected.hint? := by
  rw [diagnostic] at h
  cases hdescribe : found.token.describe with
  | error e =>
      rw [hdescribe] at h
      cases h
  | ok description =>
      rw [hdescribe] at h
      cases h
      exact ⟨description, rfl, rfl⟩

namespace Source

/-- An error is about a token of the text, or about a place where no token can
be read. -/
inductive Meets (s : Source) : CompileError → Prop where
  | lexical {error : LexError} (h : error.StandsIn s.start) :
      Meets s (.lexical error)
  | unexpected {expected : Expectation} {found : Lexeme}
      (h : found.StandsIn s.start) :
      Meets s (.unexpected expected found)
  | tooDeep {found : Lexeme} (h : found.StandsIn s.start) :
      Meets s (.tooDeep found)

theorem meets_of_error {s : Source} {limit : Nat} {error : CompileError}
    (h : (s.compileWithin limit).outcome = .error error) : s.Meets error := by
  rcases hnext : s.start.next with ⟨lexError | first, behind⟩
  · rw [outcome_of_next_error hnext] at h
    cases h
    exact .lexical (Cursor.standsIn_of_next_error hnext)
  · obtain ⟨hlexemes, hmissing⟩ := s.start.standsIn_of_tokens
    rw [← Emitter.stream_start hnext] at hlexemes hmissing
    rw [outcome_of_next hnext] at h
    have hagrees :=
      Emitter.compileProgram_tracks (behind.rest.length + 2) limit s.name
      { lookahead := first, cursor := behind } rfl trivial
    generalize compileProgram _ limit s.name _ = result at hagrees h
    generalize Tree.Read.program _ limit _ = reading at hagrees
    cases hagrees with
    | done => cases h
    | missing herror =>
        cases h
        exact .lexical (hmissing _ herror)
    | unexpected hlater =>
        cases h
        exact .unexpected (hlexemes _ (Emitter.lookahead_mem_of_later hlater))
    | tooDeep hlater =>
        cases h
        exact .tooDeep (hlexemes _ (Emitter.lookahead_mem_of_later hlater))

theorem ne_malformed_of_error {s : Source} {limit : Nat} {error : CompileError}
    (h : (s.compileWithin limit).outcome = .error error) (fault : CodeFault) :
    error ≠ .malformed fault := by
  rintro rfl
  cases meets_of_error h

theorem location_of_error {s : Source} {limit : Nat} {error : CompileError}
    (hline : '\n' ∉ s.text)
    (h : (s.compileWithin limit).outcome = .error error) :
    ∃ column, ∀ d, error.diagnostic s = .ok d →
      d.location = some ⟨s.name, ⟨s.firstLine, column⟩⟩ := by
  have hfirst : ∀ {place : Cursor}, s.start.LeadsTo place →
      place.position.line = s.firstLine :=
    fun hleads => hleads.line hline
  cases meets_of_error h with
  | @lexical error hstands =>
      obtain ⟨place, hleads, hposition, -⟩ := hstands
      refine ⟨error.position.column, fun d hd => ?_⟩
      cases hd
      rw [← hfirst hleads, ← hposition]
      rfl
  | @unexpected expected found hstands =>
      obtain ⟨place, hleads, hposition⟩ := hstands
      refine ⟨found.position.column, fun d hd => ?_⟩
      obtain ⟨description, -, rfl⟩ := CompileError.exists_description_of_ok hd
      rw [← hfirst hleads, ← hposition]
      rfl
  | @tooDeep found hstands =>
      obtain ⟨place, hleads, hposition⟩ := hstands
      refine ⟨found.position.column, fun d hd => ?_⟩
      cases hd
      rw [← hfirst hleads, ← hposition]
      rfl

end Source

namespace Text

/-- A text without an escape character is shown as it is. -/
def Plain (text : String) : Prop :=
  '\x1b' ∉ text.toList

instance (text : String) : Decidable (Plain text) :=
  inferInstanceAs (Decidable (_ ∉ _))

theorem Plain.of_subset {text part : String} (h : Plain text)
    (hpart : part.toList ⊆ text.toList) :
    Plain part :=
  fun hmem => h (hpart hmem)

theorem Plain.append {front text : String} (hfront : Plain front)
    (htext : Plain text) :
    Plain (front ++ text) := by
  simp only [Plain, String.toList_append, List.mem_append, not_or]
  exact ⟨hfront, htext⟩

theorem plain_spaces (n : Nat) : Plain (spaces n) := by
  have hspace : Plain " " := by decide
  refine hspace.of_subset fun c hc => ?_
  rw [spaces, String.toList_ofList] at hc
  rw [(List.mem_replicate.mp hc).2]
  exact List.mem_cons_self

theorem plain_repr (n : Nat) : Plain n.repr := by
  intro hmem
  rw [Nat.toList_repr] at hmem
  have hdigit := Nat.isDigit_of_mem_toDigits (by decide) (by decide) hmem
  exact absurd hdigit (by decide)

theorem plain_toString (n : Int) : Plain (toString n) := by
  cases n with
  | ofNat n => exact plain_repr n
  | negSucc n => exact Plain.append (by decide) (plain_repr (n + 1))

theorem plain_decimal {n : Int} {text : String} (h : decimal n = .ok text) :
    Plain text := by
  unfold decimal at h
  split at h
  · cases h
    exact plain_toString n
  · cases h

theorem plain_joinLines {lines : List String} (h : ∀ line ∈ lines, Plain line) :
    Plain (joinLines lines) := by
  unfold joinLines
  induction lines with
  | nil => decide
  | cons line lines ih =>
      obtain ⟨hline, hlines⟩ := List.forall_mem_cons.mp h
      cases lines with
      | nil => simpa using hline
      | cons second lines =>
          rw [String.intercalate_cons_cons]
          exact (hline.append (by decide)).append (ih hlines)

theorem mem_of_mem_lines {text line : List Char} (h : line ∈ lines text)
    {c : Char} (hc : c ∈ line) :
    c ∈ text ∧ isLineEnd c = false := by
  fun_induction lines text generalizing line with
  | case1 => cases h
  | case2 rest ih =>
      rcases List.mem_cons.mp h with rfl | h
      · cases hc
      · obtain ⟨hmem, hend⟩ := ih h hc
        exact ⟨List.mem_cons_of_mem _ (List.mem_cons_of_mem _ hmem), hend⟩
  | case3 first rest _ _ ih =>
      rcases List.mem_cons.mp h with rfl | h
      · cases hc
      · obtain ⟨hmem, hend⟩ := ih h hc
        exact ⟨List.mem_cons_of_mem first hmem, hend⟩
  | case4 first rest _ hend hrest ih =>
      cases List.mem_singleton.mp h
      cases List.mem_singleton.mp hc
      exact ⟨List.mem_cons_self, Bool.eq_false_iff.mpr hend⟩
  | case5 first rest _ hend front others hrest ih =>
      rw [hrest] at ih
      have hother : ∀ line ∈ front :: others, c ∈ line →
          c ∈ first :: rest ∧ isLineEnd c = false := by
        intro line hline hc
        obtain ⟨hmem, hend⟩ := ih hline hc
        exact ⟨List.mem_cons_of_mem first hmem, hend⟩
      rcases List.mem_cons.mp h with rfl | h
      · rcases List.mem_cons.mp hc with rfl | hc
        · exact ⟨List.mem_cons_self, Bool.eq_false_iff.mpr hend⟩
        · exact hother front List.mem_cons_self hc
      · exact hother line (List.mem_cons_of_mem front h) hc

end Text

theorem Source.plain_line {s : Source} (h : Text.Plain (String.ofList s.text))
    (number : Int) :
    Text.Plain (s.line number) := by
  unfold line
  split
  · decide
  · refine h.of_subset fun c hc => ?_
    rw [String.toList_ofList] at hc ⊢
    rw [List.getD_eq_getElem?_getD] at hc
    cases hline : (Text.lines s.text)[(number - s.firstLine).toNat]? with
    | none =>
        rw [hline] at hc
        cases hc
    | some line =>
        rw [hline] at hc
        exact (Text.mem_of_mem_lines (List.mem_of_getElem? hline) hc).1

theorem LexCause.plain_message {cause : LexCause}
    (h : Text.Plain (String.ofList cause.excerpt)) :
    Text.Plain cause.message := by
  have hquote : Text.Plain "'" := by simp [Text.Plain]
  cases cause with
  | invalidCharacter c =>
      have hfront : Text.Plain "invalid character '" := by simp [Text.Plain]
      exact (hfront.append h).append hquote
  | unknownWord word =>
      have hfront : Text.Plain "unknown identifier '" := by simp [Text.Plain]
      exact (hfront.append h).append hquote

theorem LexCause.plain_hint {cause : LexCause} {hint : String}
    (h : cause.hint? = some hint) :
    Text.Plain hint := by
  cases cause with
  | invalidCharacter c =>
      simp only [hint?] at h
      split at h
      · cases h
        simp [Text.Plain]
      · split at h
        · cases h
          simp [Text.Plain]
        · cases h
  | unknownWord word =>
      cases h
      simp [Text.Plain]

namespace Token

theorem plain_spelling (t : Token) : Text.Plain (String.ofList t.spelling) := by
  rcases t with _ | v | n
  · simp [Text.Plain, spelling]
  · simp only [Text.Plain, spelling, String.toList_ofList]
    revert v
    decide
  · rw [spelling, ← Nat.repr_eq_ofList_toDigits]
    exact Text.plain_repr n
  all_goals simp [Text.Plain, spelling]

theorem plain_inQuotes (t : Token) : Text.Plain t.inQuotes := by
  have hquote : Text.Plain "'" := by simp [Text.Plain]
  exact (hquote.append t.plain_spelling).append hquote

theorem plain_describe {t : Token} {text : String} (h : t.describe = .ok text) :
    Text.Plain text := by
  unfold describe at h
  split at h
  · cases h
    simp [Text.Plain]
  · cases h
    have hfront : Text.Plain "variable " := by simp [Text.Plain]
    exact hfront.append (plain_inQuotes _)
  · rename_i n
    cases hdigits : Text.decimal n with
    | error e =>
        rw [hdigits] at h
        cases h
    | ok digits =>
        rw [hdigits] at h
        cases h
        have hfront : Text.Plain "integer " := by simp [Text.Plain]
        exact hfront.append (Text.plain_decimal hdigits)
  · cases h
    exact t.plain_inQuotes

end Token

theorem Expectation.plain_text (expected : Expectation) :
    Text.Plain expected.text := by
  cases expected with
  | token t => exact t.plain_inQuotes
  | loopCondition => exact Token.plain_inQuotes _
  | operand => simp [Text.Plain, text]
  | endOfInput => simp [Text.Plain, text]

theorem Expectation.plain_hint {expected : Expectation} {hint : String}
    (h : expected.hint? = some hint) : Text.Plain hint := by
  cases expected with
  | loopCondition =>
      cases h
      simp [Text.Plain]
  | token | operand | endOfInput => cases h

theorem Location.plain_text {l : Location} {text : String}
    (hfile : Text.Plain l.file) (h : l.text = .ok text) : Text.Plain text := by
  unfold Location.text at h
  cases hline : Text.decimal l.position.line with
  | error e =>
      rw [hline] at h
      cases h
  | ok line =>
      cases hcolumn : Text.decimal l.position.column with
      | error e =>
          rw [hline, hcolumn] at h
          cases h
      | ok column =>
          rw [hline, hcolumn] at h
          cases h
          have hcolon : Text.Plain ":" := by simp [Text.Plain]
          have hfront := (hfile.append hcolon).append (Text.plain_decimal hline)
          exact (hfront.append hcolon).append (Text.plain_decimal hcolumn)

namespace Diagnostic

variable {d : Diagnostic}

theorem plain_heading (hmessage : Text.Plain d.message)
    (hfile : ∀ l, d.location = some l → Text.Plain l.file) {heading : String}
    (h : d.heading = .ok heading) : Text.Plain heading := by
  have herror : Text.Plain "error: " := by simp [Text.Plain]
  unfold Diagnostic.heading at h
  split at h
  · cases h
    exact herror.append hmessage
  · rename_i l hlocation
    cases hplace : l.text with
    | error e =>
        rw [hplace] at h
        cases h
    | ok place =>
        rw [hplace] at h
        cases h
        have hmiddle : Text.Plain ": error: " := by simp [Text.Plain]
        exact ((Location.plain_text (hfile l hlocation) hplace).append
          hmiddle).append hmessage

theorem plain_excerpt
    (hline : ∀ line, d.sourceLine = some line → Text.Plain line)
    {line : String} (h : line ∈ d.excerpt) : Text.Plain line := by
  unfold excerpt at h
  split at h
  · rename_i hsource
    have hspaces : Text.Plain "    " := by simp [Text.Plain]
    rcases List.mem_cons.mp h with rfl | h
    · exact hspaces.append (hline _ hsource)
    · split at h
      · rw [List.mem_singleton.mp h]
        exact (Text.plain_spaces _).append (by simp [Text.Plain])
      · cases h
  · cases h

theorem plain_advice (hhint : ∀ hint, d.hint = some hint → Text.Plain hint)
    {line : String} (h : line ∈ d.advice) : Text.Plain line := by
  unfold advice at h
  split at h
  · rename_i hint hsome
    have hfront : Text.Plain "hint: " := by simp [Text.Plain]
    split at h
    · cases h
    · rw [List.mem_singleton.mp h]
      exact hfront.append (hhint hint hsome)
  · cases h

theorem plain_render (hmessage : Text.Plain d.message)
    (hfile : ∀ l, d.location = some l → Text.Plain l.file)
    (hline : ∀ line, d.sourceLine = some line → Text.Plain line)
    (hhint : ∀ hint, d.hint = some hint → Text.Plain hint) {text : String}
    (h : d.render = .ok text) : Text.Plain text := by
  unfold render at h
  cases hheading : d.heading with
  | error e =>
      rw [hheading] at h
      cases h
  | ok heading =>
      rw [hheading] at h
      cases h
      refine Text.plain_joinLines fun line hmem => ?_
      rcases List.mem_append.mp hmem with hmem | hmem
      · rcases List.mem_cons.mp hmem with rfl | hmem
        · exact plain_heading hmessage hfile hheading
        · exact plain_excerpt hline hmem
      · exact plain_advice hhint hmem

end Diagnostic

namespace Source

theorem plain_render_at {s : Source} (hname : Text.Plain s.name)
    (htext : Text.Plain (String.ofList s.text)) (position : Position)
    {message : String} {hint : Option String} (hmessage : Text.Plain message)
    (hhint : ∀ text, hint = some text → Text.Plain text) {text : String}
    (h : Diagnostic.render ⟨message, some ⟨s.name, position⟩,
      some (s.line position.line), hint⟩ = .ok text) : Text.Plain text := by
  refine Diagnostic.plain_render hmessage ?_ ?_ hhint h
  · rintro _ ⟨⟩
    exact hname
  · rintro _ ⟨⟩
    exact s.plain_line htext position.line

theorem plain_render_of_error {s : Source} {limit : Nat} {error : CompileError}
    (hname : Text.Plain s.name) (htext : Text.Plain (String.ofList s.text))
    (h : (s.compileWithin limit).outcome = .error error) {text : String}
    (hrender : error.render s = .ok text) : Text.Plain text := by
  cases meets_of_error h with
  | @lexical error hstands =>
      obtain ⟨place, hleads, -, hscan⟩ := hstands
      have hexcerpt : Text.Plain (String.ofList error.cause.excerpt) := by
        refine htext.of_subset ?_
        rw [String.toList_ofList, String.toList_ofList]
        exact List.Subset.trans
          (Cursor.excerpt_subset_of_scan hscan) hleads.subset
      exact plain_render_at hname htext error.position
        (LexCause.plain_message hexcerpt)
        (fun _ => LexCause.plain_hint) hrender
  | @unexpected expected found =>
      rw [CompileError.render, CompileError.diagnostic] at hrender
      cases hdescribe : found.token.describe with
      | error e =>
          rw [hdescribe] at hrender
          cases hrender
      | ok description =>
          rw [hdescribe] at hrender
          have hfront : Text.Plain "expected " := by simp [Text.Plain]
          have hmiddle : Text.Plain ", found " := by simp [Text.Plain]
          have hexpected := (hfront.append expected.plain_text).append hmiddle
          exact plain_render_at hname htext found.position
            (hexpected.append (Token.plain_describe hdescribe))
              (fun _ => Expectation.plain_hint)
            hrender
  | @tooDeep found =>
      refine plain_render_at hname htext found.position (by simp [Text.Plain])
        ?_ hrender
      rintro _ ⟨⟩
      simp [Text.Plain]

end Source

end OnePass

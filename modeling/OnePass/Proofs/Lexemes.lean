import OnePass.Proofs.ErrorReports
import OnePass.Proofs.Spelling

namespace OnePass

/-- A run of characters that satisfy `p`, with a text behind it that does not go
on with one. -/
structure LongestRun (p : Char → Bool) (run behind : List Char) : Prop where
  all : ∀ c ∈ run, p c = true
  ends : ∀ c ∈ behind.head?, p c = false

namespace LongestRun

variable {p : Char → Bool} {run behind : List Char}

theorem takeWhile_behind (h : LongestRun p run behind) :
    behind.takeWhile p = [] := by
  cases behind with
  | nil => rfl
  | cons c rest => exact List.takeWhile_cons_of_neg (by simp [h.ends c rfl])

theorem takeWhile_eq (h : LongestRun p run behind) :
    (run ++ behind).takeWhile p = run := by
  rw [List.takeWhile_append_of_pos h.all, h.takeWhile_behind, List.append_nil]

theorem dropWhile_eq (h : LongestRun p run behind) :
    (run ++ behind).dropWhile p = behind := by
  have hsplit := List.takeWhile_append_dropWhile (p := p) (l := run ++ behind)
  rw [h.takeWhile_eq] at hsplit
  exact List.append_cancel_left hsplit

theorem of_takeWhile (p : Char → Bool) (text : List Char) :
    LongestRun p (text.takeWhile p) (text.dropWhile p) := by
  constructor
  · intro c hc
    exact List.all_eq_true.mp List.all_takeWhile c hc
  · intro c hc
    have hhead := List.head?_dropWhile_not p text
    rw [Option.mem_def.mp hc] at hhead
    exact hhead

end LongestRun

theorem Variable.letter_of_ofLetter? {c : Char} {v : Variable}
    (h : ofLetter? c = some v) :
    v.letter = c := by
  unfold ofLetter? at h
  split at h
  · rename_i hrange
    cases h
    rw [letter, Nat.add_sub_cancel' hrange.1, Char.ofNat_toNat]
  · cases h

namespace Token

def isWord : Token → Bool
  | .variable _ | .ifWord | .elseWord | .whileWord | .doWord => true
  | _ => false

def isSign : Token → Bool
  | .leftBrace | .rightBrace | .leftParen | .rightParen => true
  | .plus | .minus | .less | .semicolon | .assign => true
  | _ => false

/-- The text of a token in front of another text. -/
inductive HasLexeme : Token → List Char → List Char → Prop where
  | number {digits behind : List Char} (nonempty : digits ≠ [])
      (run : LongestRun Char.isDigit digits behind) :
      HasLexeme (.number (Nat.ofDigitChars 10 digits 0)) digits behind
  | word {t : Token} {behind : List Char} (word : t.isWord = true)
      (ends : ∀ c ∈ behind.head?, isWordPart c = false) :
        HasLexeme t t.spelling behind
  | sign {t : Token} {behind : List Char} (sign : t.isSign = true) :
      HasLexeme t t.spelling behind

theorem wordToken_spelling {t : Token} (h : t.isWord = true) :
    Cursor.wordToken t.spelling = .ok t := by
  cases t with
  | «variable» v =>
      have hkeyword : Token.keyword? [v.letter] = none := by
        simp [keyword?, spelling]
      have hletter : Variable.ofLetter? v.letter = some v := by
        revert v
        decide
      simp only [spelling, Cursor.wordToken, hkeyword, hletter]
  | ifWord | elseWord | whileWord | doWord => rfl
  | _ => cases h

theorem sign?_spelling {t : Token} (h : t.isSign = true) :
    ∃ c, t.spelling = [c] ∧ c.isDigit = false ∧ isWordStart c = false ∧
    sign? c = some t := by
  cases t with
  | leftBrace | rightBrace | leftParen | rightParen =>
      exact ⟨_, rfl, rfl, rfl, rfl⟩
  | plus | minus | less | semicolon | assign => exact ⟨_, rfl, rfl, rfl, rfl⟩
  | _ => cases h

theorem exists_spelling_of_isWord {t : Token} (h : t.isWord = true) :
    ∃ first more, t.spelling = first :: more ∧ first.isDigit = false ∧
    isWordStart first = true ∧
      ∀ c ∈ t.spelling, isWordPart c = true := by
  cases t with
  | «variable» v =>
      have hletter : v.letter.isDigit = false ∧
          isWordStart v.letter = true := by
        revert v
        decide
      refine ⟨v.letter, [], rfl, hletter.1, hletter.2, ?_⟩
      intro c hc
      rw [List.mem_singleton.mp hc, isWordPart, hletter.2]
      rfl
  | ifWord | elseWord | whileWord | doWord =>
      exact ⟨_, _, rfl, rfl, rfl, List.all_eq_true.mp rfl⟩
  | _ => cases h

theorem isWord_of_wordToken {word : List Char} {t : Token}
    (h : Cursor.wordToken word = .ok t) :
    t.isWord = true ∧ t.spelling = word := by
  unfold Cursor.wordToken at h
  split at h
  · cases h
    rename_i hkeyword
    have hspelling := List.find?_some hkeyword
    have hmem := List.mem_of_find?_eq_some hkeyword
    simp only [List.mem_cons, List.not_mem_nil, or_false] at hmem
    refine ⟨?_, of_decide_eq_true hspelling⟩
    rcases hmem with rfl | rfl | rfl | rfl <;> rfl
  · split at h
    · rename_i c hletter v hv
      cases h
      exact ⟨rfl, by rw [spelling, Variable.letter_of_ofLetter? hv]⟩
    · cases h
  · cases h

theorem isSign_of_sign? {c : Char} {t : Token} (h : sign? c = some t) :
    t.isSign = true ∧ t.spelling = [c] := by
  have hspelling : t.spelling = [c] := by simpa using List.find?_some h
  have hmem := List.mem_of_find?_eq_some h
  simp only [List.mem_cons, List.not_mem_nil, or_false] at hmem
  refine ⟨?_, hspelling⟩
  rcases hmem with rfl | rfl | rfl | rfl | rfl | rfl | rfl | rfl | rfl <;> rfl

theorem HasLexeme.scans {t : Token} {lexeme behind : List Char}
    (h : t.HasLexeme lexeme behind) :
    Scans (lexeme ++ behind) t behind := by
  cases h with
  | number nonempty run =>
      obtain ⟨first, more, rfl⟩ := List.exists_cons_of_ne_nil nonempty
      have hdigit := run.all first List.mem_cons_self
      have hscans := @Scans.number first (more ++ behind) hdigit
      rw [← List.cons_append, run.takeWhile_eq, run.dropWhile_eq] at hscans
      exact hscans
  | word word ends =>
      obtain ⟨first, more, hspelling, hdigit, hstart, hall⟩ :=
        exists_spelling_of_isWord word
      have hrun : LongestRun isWordPart t.spelling behind := ⟨hall, ends⟩
      have htoken := wordToken_spelling word
      have htake := hrun.takeWhile_eq
      have hdrop := hrun.dropWhile_eq
      rw [← htake] at htoken
      rw [hspelling, List.cons_append] at htoken hdrop ⊢
      have hscans := Scans.word hdigit hstart htoken
      rw [hdrop] at hscans
      exact hscans
  | sign sign =>
      obtain ⟨c, hspelling, hdigit, hstart, hsign⟩ := sign?_spelling sign
      rw [hspelling]
      exact .sign hdigit hstart hsign

end Token

theorem Scans.exists_lexeme {text behind : List Char} {t : Token}
    (h : Scans text t behind) :
    ∃ lexeme, text = lexeme ++ behind ∧ t.HasLexeme lexeme behind := by
  cases h with
  | @number first more hdigit =>
      refine ⟨_, List.takeWhile_append_dropWhile.symm,
        .number ?_ (.of_takeWhile _ _)⟩
      rw [List.takeWhile_cons_of_pos hdigit]
      exact List.cons_ne_nil _ _
  | word hdigit hstart htoken =>
      obtain ⟨hword, hspelling⟩ := Token.isWord_of_wordToken htoken
      refine ⟨_, List.takeWhile_append_dropWhile.symm, ?_⟩
      rw [← hspelling]
      exact .word hword (LongestRun.of_takeWhile _ _).ends
  | @sign first more _ hdigit hstart hsign =>
      obtain ⟨hsign', hspelling⟩ := Token.isSign_of_sign? hsign
      refine ⟨[first], rfl, ?_⟩
      rw [← hspelling]
      exact .sign hsign'

/-- The first token of a text and what is left behind it are determined. -/
theorem Scans.unique {text behind behind' : List Char} {t t' : Token}
    (h : Scans text t behind) (h' : Scans text t' behind') :
    t = t' ∧ behind = behind' := by
  obtain ⟨position, hscan⟩ := h.scan_eq ⟨0, 0⟩
  obtain ⟨position', hscan'⟩ := h'.scan_eq ⟨0, 0⟩
  rw [hscan] at hscan'
  cases hscan'
  exact ⟨rfl, rfl⟩

theorem not_starts_of_isSeparator {c : Char} (h : isSeparator c = true) :
    c.isDigit = false ∧ isWordStart c = false ∧ Token.sign? c = none := by
  simp only [isSeparator, decide_eq_true_eq, List.mem_cons, List.not_mem_nil,
    or_false] at h
  rcases h with rfl | rfl | rfl | rfl <;> exact ⟨rfl, rfl, rfl⟩

theorem Token.HasLexeme.starts {t : Token} {lexeme behind : List Char}
    (h : t.HasLexeme lexeme behind) :
    ∃ first more, lexeme = first :: more ∧
      (first.isDigit = true ∨ isWordStart first = true ∨
        Token.sign? first = some t) := by
  cases h with
  | number nonempty run =>
      obtain ⟨first, more, rfl⟩ := List.exists_cons_of_ne_nil nonempty
      exact ⟨first, more, rfl, .inl (run.all first List.mem_cons_self)⟩
  | word word =>
      obtain ⟨first, more, hspelling, -, hstart, -⟩ :=
        exists_spelling_of_isWord word
      exact ⟨first, more, hspelling, .inr (.inl hstart)⟩
  | sign sign =>
      obtain ⟨c, hspelling, -, -, hsign⟩ := sign?_spelling sign
      exact ⟨c, [], hspelling, .inr (.inr hsign)⟩

theorem Token.HasLexeme.exists_first {t : Token} {lexeme behind : List Char}
    (h : t.HasLexeme lexeme behind) :
    ∃ first more, lexeme = first :: more ∧ isSeparator first = false := by
  obtain ⟨first, more, rfl, hstarts⟩ := h.starts
  refine ⟨first, more, rfl, Bool.eq_false_iff.mpr fun hblank => ?_⟩
  obtain ⟨hdigit, hstart, hsign⟩ := not_starts_of_isSeparator hblank
  simp [hdigit, hstart, hsign] at hstarts

/-- A text that starts with no token, for the given reason. -/
inductive LexCause.Obstructs : LexCause → List Char → Prop where
  | invalidCharacter {c : Char} {behind : List Char}
      (separator : isSeparator c = false)
      (starts : ∀ (t : Token) (lexeme after : List Char),
        t.HasLexeme lexeme after → lexeme.head? ≠ some c) :
      Obstructs (.invalidCharacter c) (c :: behind)
  | unknownWord {word behind : List Char} (first : ∃ c ∈ word.head?,
      isWordStart c = true)
      (run : LongestRun isWordPart word behind)
      (unknown : ∀ t : Token, t.isWord = true → t.spelling ≠ word) :
      Obstructs (.unknownWord word) (word ++ behind)

theorem LexCause.obstructs_invalidCharacter {first : Char}
    (hblank : isSeparator first = false) (hdigit : first.isDigit = false)
    (hstart : isWordStart first = false) (hsign : Token.sign? first = none)
    (behind : List Char) :
    Obstructs (.invalidCharacter first) (first :: behind) := by
  refine .invalidCharacter hblank ?_
  intro t lexeme after hlexeme hfirst
  obtain ⟨first', more, rfl, hstarts⟩ := hlexeme.starts
  obtain rfl := Option.some.inj hfirst
  simp [hdigit, hstart, hsign] at hstarts

theorem LexCause.obstructs_unknownWord {first : Char} {more : List Char}
    {cause : LexCause} (hstart : isWordStart first = true)
    (hword : Cursor.wordToken ((first :: more).takeWhile isWordPart) =
      .error cause) :
    ∃ word, cause = .unknownWord word ∧
    first :: more = word ++ (first :: more).dropWhile isWordPart ∧
      Obstructs (.unknownWord word)
        (word ++ (first :: more).dropWhile isWordPart) := by
  refine ⟨_, Cursor.wordToken_eq_error hword,
    List.takeWhile_append_dropWhile.symm, ?_⟩
  have hpart : isWordPart first = true := by
    rw [isWordPart, hstart, Bool.true_or]
  refine .unknownWord ?_ (.of_takeWhile _ _) ?_
  · rw [List.takeWhile_cons_of_pos hpart]
    exact ⟨first, rfl, hstart⟩
  · intro t ht hspelling
    rw [← hspelling, Token.wordToken_spelling ht] at hword
    cases hword

namespace Cursor

/-- What reading the next token comes to, and where it goes on. -/
inductive Reads (c : Cursor) : Except LexError Lexeme × Cursor → Prop where
  | token {t : Token} {blanks lexeme behind : List Char}
      (rest : c.rest = blanks ++ (lexeme ++ behind)) (blank : ∀ d ∈ blanks,
        isSeparator d = true)
      (reads : t.HasLexeme lexeme behind) :
      Reads c (.ok ⟨t, c.position.after blanks⟩,
        ⟨behind, c.position.after (blanks ++ lexeme)⟩)
  | endOfInput (blank : ∀ d ∈ c.rest, isSeparator d = true) :
      Reads c (.ok ⟨.endOfInput, c.position.after c.rest⟩,
        ⟨[], c.position.after c.rest⟩)
  | unknownWord {blanks word behind : List Char}
      (rest : c.rest = blanks ++ (word ++ behind))
      (blank : ∀ d ∈ blanks, isSeparator d = true)
      (obstructs : LexCause.Obstructs (.unknownWord word) (word ++ behind)) :
      Reads c (.error ⟨.unknownWord word, c.position.after blanks⟩,
        ⟨behind, c.position.after (blanks ++ word)⟩)
  | invalidCharacter {blanks behind : List Char} {first : Char}
      (rest : c.rest = blanks ++ first :: behind) (blank : ∀ d ∈ blanks,
        isSeparator d = true)
      (obstructs :
        LexCause.Obstructs (.invalidCharacter first) (first :: behind)) :
      Reads c (.error ⟨.invalidCharacter first, c.position.after blanks⟩,
        ⟨first :: behind, c.position.after blanks⟩)

theorem LeadsTo.position_eq {c : Cursor} {front behind : List Char}
    {position : Position} (h : c.LeadsTo ⟨behind, position⟩)
    (hrest : c.rest = front ++ behind) :
    position = c.position.after front := by
  obtain ⟨front', hrest', hposition⟩ := h
  rw [hrest] at hrest'
  rw [List.append_cancel_right hrest']
  exact hposition

theorem obstructs_of_scan {c after : Cursor} {cause : LexCause}
    (hblank : ∀ d ∈ c.rest.head?, isSeparator d = false)
    (h : c.scan = (.error cause, after)) :
    cause.Obstructs c.rest ∧
      ((∃ first, cause = .invalidCharacter first ∧ c.rest = after.rest) ∨
        ∃ word, cause = .unknownWord word ∧ c.rest = word ++ after.rest) := by
  unfold scan at h
  split at h
  · cases h
  · rename_i first more hrest
    rw [hrest] at hblank
    split at h
    · cases h
    · rename_i hdigit
      split at h
      · rename_i hstart
        obtain ⟨hword, rfl⟩ := Prod.mk.inj h
        rw [hrest] at hword
        obtain ⟨word, rfl, hsplit, hobstructs⟩ :=
          LexCause.obstructs_unknownWord hstart hword
        rw [← hsplit] at hobstructs
        simp only [skipWhile, hrest]
        exact ⟨hobstructs, .inr ⟨word, rfl, hsplit⟩⟩
      · rename_i hstart
        split at h
        · cases h
        · rename_i hsign
          cases h
          refine ⟨?_, .inl ⟨first, rfl, rfl⟩⟩
          rw [hrest]
          exact LexCause.obstructs_invalidCharacter (hblank first rfl)
            (Bool.eq_false_iff.mpr hdigit)
            (Bool.eq_false_iff.mpr hstart) hsign more

theorem reads_next (c : Cursor) : c.Reads c.next := by
  have hrun := LongestRun.of_takeWhile isSeparator c.rest
  have hrest :
      c.rest = c.rest.takeWhile isSeparator ++ (c.skipWhile isSeparator).rest :=
    List.takeWhile_append_dropWhile.symm
  have hposition : (c.skipWhile isSeparator).position =
      c.position.after (c.rest.takeWhile isSeparator) := rfl
  have hleads := (c.skipWhile isSeparator).leadsTo_scan
  simp only [next]
  generalize c.rest.takeWhile isSeparator = blanks at hrun hrest hposition
  rcases hscan :
    (c.skipWhile isSeparator).scan with ⟨cause | t, behind, position⟩
  · rw [hscan] at hleads
    obtain ⟨hobstructs, ⟨first, rfl, hsame⟩ | ⟨word, rfl, hword⟩⟩ :=
      obstructs_of_scan hrun.ends hscan
    · obtain rfl :=
        hleads.position_eq (hsame.trans (List.nil_append behind).symm)
      rw [hsame] at hrest hobstructs
      rw [hposition]
      cases hobstructs with
      | invalidCharacter separator starts =>
          exact .invalidCharacter hrest hrun.all
            (.invalidCharacter separator starts)
    · obtain rfl := hleads.position_eq hword
      rw [hword] at hrest hobstructs
      rw [hposition, ← Position.after_append]
      exact .unknownWord hrest hrun.all hobstructs
  · rw [hscan] at hleads
    rcases Scans.of_scan hscan with ⟨hempty, rfl⟩ | hscans
    · obtain ⟨front, hfront, rfl⟩ := hleads
      rw [hempty] at hfront
      obtain ⟨rfl, rfl⟩ := List.append_eq_nil_iff.mp hfront.symm
      rw [hempty, List.append_nil] at hrest
      rw [hposition, ← hrest]
      exact .endOfInput (hrest ▸ hrun.all)
    · obtain ⟨lexeme, hlexeme, hhas⟩ := hscans.exists_lexeme
      obtain rfl := hleads.position_eq hlexeme
      rw [hlexeme] at hrest
      rw [hposition, ← Position.after_append]
      exact .token hrest hrun.all hhas

end Cursor

end OnePass

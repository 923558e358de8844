import OnePass.Proofs.Positions

namespace OnePass

/-- A token with its characters and the blanks before them. -/
structure Piece where
  blanks : List Char
  lexeme : List Char
  token : Token

/-- A text that consists of these pieces and a rest behind them. -/
inductive MadeOf : List Char → List Piece → List Char → Prop where
  | nil (rest : List Char) : MadeOf rest [] rest
  | cons {piece : Piece} {pieces : List Piece} {behind rest : List Char}
      (blank : ∀ c ∈ piece.blanks, isSeparator c = true)
      (lexeme : piece.token.HasLexeme piece.lexeme behind)
      (others : MadeOf behind pieces rest) :
      MadeOf (piece.blanks ++ (piece.lexeme ++ behind)) (piece :: pieces) rest

theorem Token.HasLexeme.longestRun {t : Token}
    {blanks lexeme behind : List Char} (h : t.HasLexeme lexeme behind)
    (hblanks : ∀ c ∈ blanks, isSeparator c = true) :
    LongestRun isSeparator blanks (lexeme ++ behind) := by
  obtain ⟨first, more, rfl, hfirst⟩ := h.exists_first
  refine ⟨hblanks, ?_⟩
  intro c hc
  cases hc
  exact hfirst

theorem Piece.unique {piece piece' : Piece} {behind behind' : List Char}
    (hblank : ∀ c ∈ piece.blanks, isSeparator c = true)
    (hblank' : ∀ c ∈ piece'.blanks, isSeparator c = true)
    (hlexeme : piece.token.HasLexeme piece.lexeme behind)
    (hlexeme' : piece'.token.HasLexeme piece'.lexeme behind')
    (h : piece.blanks ++ (piece.lexeme ++ behind) =
      piece'.blanks ++ (piece'.lexeme ++ behind')) :
    piece = piece' ∧ behind = behind' := by
  have hrun := hlexeme.longestRun hblank
  have hrun' := hlexeme'.longestRun hblank'
  have hblanks : piece.blanks = piece'.blanks := by
    rw [← hrun.takeWhile_eq, h, hrun'.takeWhile_eq]
  rw [hblanks] at h
  have htext := List.append_cancel_left h
  have hscans := hlexeme.scans
  rw [htext] at hscans
  obtain ⟨htoken, hbehind⟩ := hscans.unique hlexeme'.scans
  rw [hbehind] at htext
  rcases piece with ⟨blanks, lexeme, token⟩
  cases hblanks
  cases htoken
  cases List.append_cancel_right htext
  exact ⟨rfl, hbehind⟩

namespace MadeOf

variable {text last last' : List Char} {pieces pieces' : List Piece}

theorem not_blank {piece : Piece} (h : MadeOf text (piece :: pieces) last) :
    ¬ ∀ c ∈ text, isSeparator c = true := by
  intro hblank
  cases h with
  | cons _ lexeme =>
      obtain ⟨first, more, hfirst, hnot⟩ := lexeme.exists_first
      have hmem := hblank first (by simp [hfirst])
      rw [hnot] at hmem
      cases hmem

theorem unique (h : MadeOf text pieces last)
    (hlast : ∀ c ∈ last, isSeparator c = true)
    (h' : MadeOf text pieces' last')
    (hlast' : ∀ c ∈ last', isSeparator c = true) :
    pieces' = pieces ∧ last' = last := by
  induction h generalizing pieces' with
  | nil rest =>
      cases pieces' with
      | nil =>
          cases h'
          exact ⟨rfl, rfl⟩
      | cons piece pieces' => exact absurd hlast h'.not_blank
  | @cons piece pieces behind last blank lexeme others ih =>
      generalize htext : piece.blanks ++ (piece.lexeme ++ behind) = text at h'
      cases h' with
      | nil =>
          have hmade := MadeOf.cons blank lexeme others
          rw [htext] at hmade
          exact absurd hlast' hmade.not_blank
      | cons blank' lexeme' others' =>
          obtain ⟨rfl, rfl⟩ := Piece.unique blank blank' lexeme lexeme' htext
          obtain ⟨rfl, rfl⟩ := ih hlast others'
          exact ⟨rfl, rfl⟩

end MadeOf

namespace Cursor

/-- The tokens of a text, and the error behind them if there is one, beside the
pieces of the text. -/
inductive Tokenizes (c : Cursor) : List Lexeme × Option LexError → Prop where
  | whole {pieces : List Piece} {last : List Char} {lexemes : List Lexeme}
      (made : MadeOf c.rest pieces last)
      (blank : ∀ d ∈ last, isSeparator d = true)
      (tokens :
        lexemes.map Lexeme.token = pieces.map Piece.token ++ [.endOfInput]) :
      Tokenizes c (lexemes, none)
  | part {pieces : List Piece} {front blanks rest : List Char}
      {lexemes : List Lexeme}
      {cause : LexCause} (made : MadeOf c.rest pieces (blanks ++ rest))
      (blank : ∀ d ∈ blanks, isSeparator d = true)
      (tokens : lexemes.map Lexeme.token = pieces.map Piece.token)
      (split : c.rest = front ++ rest) (obstructs : cause.Obstructs rest) :
      Tokenizes c (lexemes, some ⟨cause, c.position.after front⟩)

theorem Tokenizes.cons {c : Cursor} {t : Token}
    {blanks lexeme behind : List Char} {position : Position}
    {result : List Lexeme × Option LexError}
    (rest : c.rest = blanks ++ (lexeme ++ behind))
    (blank : ∀ d ∈ blanks, isSeparator d = true)
    (reads : t.HasLexeme lexeme behind)
    (h : Tokenizes ⟨behind, c.position.after (blanks ++ lexeme)⟩ result) :
    Tokenizes c (⟨t, position⟩ :: result.1, result.2) := by
  have hcons : ∀ {pieces : List Piece} {last : List Char},
      MadeOf behind pieces last →
      MadeOf c.rest (⟨blanks, lexeme, t⟩ :: pieces) last := by
    intro pieces last hmade
    rw [rest]
    exact @MadeOf.cons ⟨blanks, lexeme, t⟩ _ _ _ blank reads hmade
  cases h with
  | whole made hlast tokens =>
      exact .whole (hcons made) hlast (by simp [tokens])
  | @part pieces front blanks' rest' _ cause made hblank tokens
      split obstructs =>
      rw [← Position.after_append]
      refine .part (hcons made) hblank (by simp [tokens]) ?_ obstructs
      have hbehind : behind = front ++ rest' := split
      rw [rest, hbehind]
      simp

theorem Tokenizes.obstructed {c : Cursor} {blanks rest : List Char}
    {cause : LexCause} (hrest : c.rest = blanks ++ rest)
    (blank : ∀ d ∈ blanks, isSeparator d = true)
    (obstructs : cause.Obstructs rest) :
    Tokenizes c ([], some ⟨cause, c.position.after blanks⟩) := by
  have hmade : MadeOf c.rest [] (blanks ++ rest) := by
    rw [hrest]
    exact .nil _
  exact .part hmade blank rfl hrest obstructs

theorem tokenizes (c : Cursor) : c.Tokenizes c.tokens := by
  -- Not by the count that `tokens` recurses on: every token leaves a shorter
  -- text.
  induction hlength : c.rest.length using Nat.strongRecOn generalizing c with
  | ind length ih =>
      have hreads := c.reads_next
      generalize hnext : c.next = result at hreads
      cases hreads with
      | token rest blank reads =>
          have hshorter := next_shortens hnext reads.scans.ne_endOfInput
          rw [tokens_of_lexeme hnext reads.scans.ne_endOfInput]
          exact .cons rest blank reads (ih _ (hlength ▸ hshorter) _ rfl)
      | endOfInput blank =>
          rw [tokens_of_end hnext rfl]
          exact .whole (.nil _) blank rfl
      | unknownWord rest blank obstructs =>
          rw [tokens_of_error hnext]
          exact .obstructed rest blank obstructs
      | invalidCharacter rest blank obstructs =>
          rw [tokens_of_error hnext]
          exact .obstructed rest blank obstructs

end Cursor

namespace Token

/-- The texts of some tokens with one space between neighbours. -/
def spaced (ts : List Token) : List Char :=
  [' '].intercalate (ts.map spelling)

theorem hasLexeme_spelling {t : Token} (ht : t ≠ .endOfInput)
    {behind : List Char} (hbehind : ∀ c ∈ behind.head?, c = ' ') :
    t.HasLexeme t.spelling behind := by
  have hends : ∀ p : Char → Bool, p ' ' = false →
      ∀ c ∈ behind.head?, p c = false := by
    intro p hp c hc
    rw [hbehind c hc]
    exact hp
  cases t with
  | endOfInput => exact absurd rfl ht
  | number n =>
      have hrun : LongestRun Char.isDigit (Nat.toDigits 10 n) behind :=
        ⟨fun c hc => Nat.isDigit_of_mem_toDigits (by decide) (by decide) hc,
          hends _ rfl⟩
      have hlexeme := HasLexeme.number Nat.toDigits_ne_nil hrun
      rw [Nat.ofDigitChars_toDigits (by decide) (by decide)] at hlexeme
      exact hlexeme
  | «variable» | ifWord | elseWord | whileWord | doWord =>
      exact .word rfl (hends _ rfl)
  | leftBrace | rightBrace | leftParen | rightParen => exact .sign rfl
  | plus | minus | less | semicolon | assign => exact .sign rfl

end Token

namespace Spelled

theorem of_hasLexeme {t : Token} {ts : List Token} {lexeme behind : List Char}
    (h : t.HasLexeme lexeme behind) (others : Spelled behind ts) :
    Spelled (lexeme ++ behind) (t :: ts) := by
  have hrun : LongestRun isSeparator [] (lexeme ++ behind) :=
    h.longestRun (by simp)
  refine .token ?_ others
  rw [← List.nil_append (lexeme ++ behind), hrun.dropWhile_eq]
  exact h.scans

theorem space_cons {text : List Char} {ts : List Token} (h : Spelled text ts) :
    Spelled (' ' :: text) ts := by
  have hdrop :
      (' ' :: text).dropWhile isSeparator = text.dropWhile isSeparator := rfl
  cases h with
  | done hblank => exact .done (hdrop.trans hblank)
  | token first others => exact .token (hdrop ▸ first) others

theorem spaced {ts : List Token} (h : .endOfInput ∉ ts) :
    Spelled (Token.spaced ts) ts := by
  induction ts with
  | nil => exact .done rfl
  | cons t ts ih =>
      rw [List.mem_cons, not_or] at h
      have hothers := ih h.2
      have ht : t ≠ .endOfInput := Ne.symm h.1
      cases ts with
      | nil =>
          have hlexeme : t.HasLexeme t.spelling [] :=
            Token.hasLexeme_spelling ht (by simp)
          have hspelled := of_hasLexeme hlexeme hothers
          rw [List.append_nil] at hspelled
          simpa [Token.spaced] using hspelled
      | cons u us =>
          have hlexeme :
              t.HasLexeme t.spelling (' ' :: Token.spaced (u :: us)) :=
            Token.hasLexeme_spelling ht (by simp)
          have hspelled := of_hasLexeme hlexeme hothers.space_cons
          have htext : Token.spaced (t :: u :: us) =
              t.spelling ++ ' ' :: Token.spaced (u :: us) := by
            simp [Token.spaced, List.intercalate_cons_cons]
          rw [htext]
          exact hspelled

end Spelled

namespace Source

/-- A text that is read to its end is made of the lexemes of its tokens and of
blanks, in one way only. If it is not, that holds of its front, and at the place
of the error there starts no token. And tokens that are written with spaces
between them are read again. -/
theorem tokens_decompose_text (s : Source) :
    (s.start.tokens.2 = none →
      ∃ pieces last, MadeOf s.text pieces last ∧
      (∀ c ∈ last, isSeparator c = true) ∧
        s.start.tokens.1.map Lexeme.token =
          pieces.map Piece.token ++ [.endOfInput] ∧
        ∀ pieces' last', MadeOf s.text pieces' last' →
        (∀ c ∈ last', isSeparator c = true) →
          pieces' = pieces ∧ last' = last) ∧
    (∀ e, s.start.tokens.2 = some e →
      ∃ pieces blanks offset,
        MadeOf s.text pieces (blanks ++ s.text.drop offset) ∧
        (∀ c ∈ blanks, isSeparator c = true) ∧
        s.start.tokens.1.map Lexeme.token = pieces.map Piece.token ∧
        e.position = s.placeAt offset ∧
        e.cause.Obstructs (s.text.drop offset)) ∧
    (∀ ts : List Token, .endOfInput ∉ ts → s.text = Token.spaced ts →
      s.start.tokens.2 = none ∧
      s.start.tokens.1.map Lexeme.token = ts ++ [.endOfInput]) := by
  have htokenizes := s.start.tokenizes
  refine ⟨?_, ?_, ?_⟩
  · intro hnone
    generalize s.start.tokens = result at htokenizes hnone ⊢
    cases htokenizes with
    | whole made blank tokens =>
        exact ⟨_, _, made, blank, tokens, fun pieces' last' =>
          made.unique blank⟩
    | part => cases hnone
  · intro e hsome
    generalize s.start.tokens = result at htokenizes hsome ⊢
    cases htokenizes with
    | whole => cases hsome
    | @part pieces front blanks rest _ cause made blank tokens
        split obstructs =>
        cases hsome
        have htext : s.text = front ++ rest := split
        have hplace :
            s.start.position.after front = s.placeAt front.length := by
          rw [placeAt_eq_after, htext, List.take_left]
        have hrest : s.text.drop front.length = rest := by
          rw [htext, List.drop_left]
        refine ⟨pieces, blanks, front.length, ?_, blank, tokens, hplace, ?_⟩
        · rw [hrest]
          exact made
        · rw [hrest]
          exact obstructs
  · intro ts hts htext
    have hspelled := Spelled.spaced hts
    rw [← htext] at hspelled
    exact hspelled.tokens_eq s.start.position

def adjacentTokens : Source where
  text := "12if\n<007 ".toList

def longWord : Source where
  text := "do\n\tifx;".toList

def spacedTokens : Source where
  text := "while ( 10 <".toList

theorem tokens_decompose_text_adjacent :
    (adjacentTokens.start.tokens.2 = none ∧
      ∃ pieces last, MadeOf adjacentTokens.text pieces last ∧
        (∀ c ∈ last, isSeparator c = true) ∧
        [Token.number 12, .ifWord, .less, .number 7, .endOfInput] =
          pieces.map Piece.token ++ [.endOfInput] ∧
        ∀ pieces' last', MadeOf adjacentTokens.text pieces' last' →
          (∀ c ∈ last', isSeparator c = true) →
          pieces' = pieces ∧ last' = last) ∧
    (longWord.start.tokens.2 = some ⟨.unknownWord ['i', 'f', 'x'], ⟨2, 2⟩⟩ ∧
      ∃ pieces blanks offset,
        MadeOf longWord.text pieces (blanks ++ longWord.text.drop offset) ∧
        (∀ c ∈ blanks, isSeparator c = true) ∧
        [Token.doWord] = pieces.map Piece.token ∧
        ⟨2, 2⟩ = longWord.placeAt offset ∧
        LexCause.Obstructs (.unknownWord ['i', 'f', 'x'])
          (longWord.text.drop offset)) ∧
    (spacedTokens.text =
      Token.spaced [.whileWord, .leftParen, .number 10, .less] ∧
      spacedTokens.start.tokens.2 = none ∧
        spacedTokens.start.tokens.1.map Lexeme.token =
          [.whileWord, .leftParen, .number 10, .less] ++ [.endOfInput]) := by
  have hread : adjacentTokens.start.tokens.2 = none := by decide +kernel
  have hunread :
      longWord.start.tokens.2 =
      some ⟨.unknownWord ['i', 'f', 'x'], ⟨2, 2⟩⟩ := by
    decide +kernel
  have htext :
      spacedTokens.text =
      Token.spaced [.whileWord, .leftParen, .number 10, .less] := by
    decide +kernel
  have htokens : adjacentTokens.start.tokens.1.map Lexeme.token =
      [Token.number 12, .ifWord, .less, .number 7, .endOfInput] := by
        decide +kernel
  have hword : longWord.start.tokens.1.map Lexeme.token = [Token.doWord] := by
    decide +kernel
  have hadjacent := (tokens_decompose_text adjacentTokens).1 hread
  have hlong := (tokens_decompose_text longWord).2.1 _ hunread
  rw [htokens] at hadjacent
  rw [hword] at hlong
  exact ⟨⟨hread, hadjacent⟩, ⟨hunread, hlong⟩, htext,
    (tokens_decompose_text spacedTokens).2.2 _ (by decide) htext⟩

end Source

end OnePass

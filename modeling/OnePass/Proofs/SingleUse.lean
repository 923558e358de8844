import OnePass.Proofs.Positions
import OnePass.Proofs.WholeText

namespace OnePass

namespace Text

/-- A blank that takes the place of a character. A line that ended there still
does. -/
def blankFor (c : Char) : Char :=
  if c = '\n' then '\n' else ' '

theorem isSeparator_blankFor (c : Char) : isSeparator (blankFor c) = true := by
  unfold blankFor
  split <;> rfl

end Text

namespace Position

theorem next_blankFor (p : Position) (c : Char) :
    p.next (Text.blankFor c) = p.next c := by
  by_cases hc : c = '\n'
  · rw [hc]
    rfl
  · rw [Text.blankFor, if_neg hc, next, next, if_neg hc, if_neg (by decide)]

theorem after_map_blankFor (p : Position) (text : List Char) :
    p.after (text.map Text.blankFor) = p.after text := by
  induction text generalizing p with
  | nil => rfl
  | cons c text ih =>
      rw [List.map_cons, after, List.foldl_cons, next_blankFor]
      exact ih (p.next c)

end Position

namespace Source

/-- The text with blanks in place of its first characters. -/
def blanked (s : Source) (offset : Nat) : Source :=
  { s with text := (s.text.take offset).map Text.blankFor ++ s.text.drop offset }

theorem next_blanked (s : Source) (offset : Nat) :
    (s.blanked offset).start.next = (s.cursorAt offset).next := by
  have hblanks : ∀ c ∈ (s.text.take offset).map Text.blankFor,
      isSeparator c = true := by
    intro c hc
    obtain ⟨d, -, rfl⟩ := List.mem_map.mp hc
    exact Text.isSeparator_blankFor d
  have hskip : (s.blanked offset).start.skipWhile isSeparator =
      (s.cursorAt offset).skipWhile isSeparator := by
    simp only [Cursor.skipWhile, start, blanked, cursorAt, Cursor.mk.injEq]
    constructor
    · rw [List.dropWhile_append_of_pos hblanks]
    · rw [List.takeWhile_append_of_pos hblanks, Position.after_append,
        Position.after_map_blankFor, placeAt_eq_after]
      rfl
  simp only [Cursor.next, hskip]

theorem compileAt_cursorAt (s : Source) (limit offset : Nat) :
    (compileAt limit s.name (s.cursorAt offset)).1 =
      (s.blanked offset).compileWithin limit := by
  rw [compileWithin, compileAt, compileAt, next_blanked]
  rfl

/-- The first so many calls cannot read a token. -/
def Unread (s : Source) (count : Nat) : Prop :=
  ∀ earlier, earlier < count → ∃ error, s.answer earlier = .error error

end Source

namespace Compiler

/-- The compiler after so many calls, whatever they came to. -/
def afterCalls (c : Compiler) : Nat → Compiler
  | 0 => c
  | count + 1 => (c.afterCalls count).compile.2

/-- The answer to the call that follows on so many others. -/
def answer (c : Compiler) (count : Nat) : Except Spent Compilation :=
  (c.afterCalls count).compile.1

theorem compile_of_error {s : Source} {start behind : Cursor}
    {error : LexError} (h : start.next = (.error error, behind)) :
    (compile ⟨s, some start⟩).2 = ⟨s, some behind⟩ := by
  simp only [compile, compileAt, h]

theorem compile_of_ok {s : Source} {start behind : Cursor} {first : Lexeme}
    (h : start.next = (.ok first, behind)) :
    (compile ⟨s, some start⟩).2 = ⟨s, none⟩ := by
  simp only [compile, compileAt, h]

/-- A compiler goes on where the last call stopped, until a token has been read.
-/
theorem afterCalls_new (s : Source) (count : Nat) :
    s.Unread count ∧ (new s).afterCalls count =
      ⟨s, some (s.start.afterCalls count)⟩ ∨
      ¬ s.Unread count ∧ (new s).afterCalls count = ⟨s, none⟩ := by
  induction count with
  | zero =>
      exact .inl ⟨fun earlier h => absurd h (Nat.not_lt_zero earlier), rfl⟩
  | succ count ih =>
      rcases ih with ⟨hunread, hcompiler⟩ | ⟨hread, hcompiler⟩
      · rw [afterCalls, hcompiler]
        rcases hnext :
          (s.start.afterCalls count).next with ⟨error | first, behind⟩
        · have hanswer : s.answer count = .error error := by
            rw [Source.answer, hnext]
          left
          refine ⟨fun earlier hearlier => ?_, ?_⟩
          · rcases Nat.lt_succ_iff_lt_or_eq.mp hearlier with hlt | rfl
            · exact hunread earlier hlt
            · exact ⟨error, hanswer⟩
          · rw [compile_of_error hnext, Cursor.afterCalls, hnext]
        · have hanswer : s.answer count = .ok first := by
            rw [Source.answer, hnext]
          right
          refine ⟨fun h => ?_, compile_of_ok hnext⟩
          obtain ⟨error, herror⟩ := h count (Nat.lt_succ_self count)
          rw [hanswer] at herror
          cases herror
      · right
        refine ⟨fun h => hread fun earlier hearlier =>
          h earlier (Nat.lt_succ_of_lt hearlier), ?_⟩
        rw [afterCalls, hcompiler]
        rfl

theorem answer_of_unread {s : Source} {count : Nat} (h : s.Unread count) :
    (new s).answer count = .ok (s.blanked (s.offsetAfter count)).compile := by
  rcases afterCalls_new s count with ⟨-, hcompiler⟩ | ⟨hread, -⟩
  · rw [(s.afterCalls_eq count).1] at hcompiler
    rw [answer, hcompiler, Source.compile, ← Source.compileAt_cursorAt]
    rfl
  · exact absurd h hread

theorem answer_of_read {s : Source} {count : Nat} (h : ¬ s.Unread count) :
    (new s).answer count = .error ⟨⟩ := by
  rcases afterCalls_new s count with ⟨hunread, -⟩ | ⟨-, hcompiler⟩
  · exact absurd hunread h
  · rw [answer, hcompiler]
    rfl

theorem exists_first_of_answer {s : Source} {count : Nat} {program : Program}
    {log : List Event} (h : (new s).answer count = .ok ⟨.ok program, log⟩) :
    ∃ first, s.answer count = .ok first := by
  rcases afterCalls_new s count with ⟨-, hcompiler⟩ | ⟨-, hcompiler⟩
  · rcases hnext : (s.start.afterCalls count).next with ⟨error | first, behind⟩
    · rw [answer, hcompiler] at h
      simp only [compile, compileAt, hnext] at h
      cases h
    · exact ⟨first, by rw [Source.answer, hnext]⟩
  · rw [answer, hcompiler] at h
    cases h

/-- A later call returns a program only if reading has passed a word in every
call before it. -/
theorem exists_unknownWord_of_answer {s : Source} {count earlier : Nat}
    {program : Program} {log : List Event}
    (h : (new s).answer count = .ok ⟨.ok program, log⟩)
    (hearlier : earlier < count) :
    ∃ word position, s.answer earlier =
      .error ⟨.unknownWord word, position⟩ := by
  obtain ⟨first, hfirst⟩ := exists_first_of_answer h
  have hunread : s.Unread count := by
    refine Classical.not_not.mp fun hread => ?_
    rw [answer_of_read hread] at h
    cases h
  obtain ⟨⟨cause, position⟩, herror⟩ := hunread earlier hearlier
  cases cause with
  | unknownWord word => exact ⟨word, position, herror⟩
  | invalidCharacter c =>
      -- Such a character is never passed, so the later call would meet it
      -- again.
      have hfinal : Cursor.IsFinal (s.start.afterCalls earlier).next.1 := by
        rw [← Source.answer, herror]
        exact ⟨c, rfl⟩
      rw [Source.answer,
        Cursor.next_afterCalls_of_isFinal hfinal (Nat.le_of_lt hearlier),
        ← Source.answer, herror] at hfirst
      cases hfirst

/-- Only the first call is answered if and only if the text starts with a token
or has none. As long as no token can be read, a call compiles the text with
blanks for what was passed, and a program that comes of a later call stands
behind words that are no tokens. -/
theorem single_use_iff_token_read (s : Source) :
    ((∀ count, 0 < count → (new s).answer count = .error ⟨⟩) ↔
      ∃ first, s.answer 0 = .ok first) ∧
      (new s).answer 0 = .ok s.compile ∧
      (∀ count, ¬ s.Unread count → (new s).answer count = .error ⟨⟩) ∧
      (∀ count, s.Unread count →
        (new s).answer count = .ok (s.blanked (s.offsetAfter count)).compile) ∧
      ∀ count program log, (new s).answer count = .ok ⟨.ok program, log⟩ →
        ∀ earlier, earlier < count →
          ∃ word position, s.answer earlier =
            .error ⟨.unknownWord word, position⟩ := by
  refine ⟨⟨fun hspent => ?_, ?_⟩, rfl, fun _ => answer_of_read, fun _ =>
    answer_of_unread,
    fun _ _ _ hanswer _ => exists_unknownWord_of_answer hanswer⟩
  · rcases hfirst : s.answer 0 with error | first
    · have hunread : s.Unread 1 := by
        intro earlier hearlier
        obtain rfl := Nat.lt_one_iff.mp hearlier
        exact ⟨error, hfirst⟩
      have hanswer := answer_of_unread hunread
      rw [hspent 1 Nat.one_pos] at hanswer
      cases hanswer
    · exact ⟨first, rfl⟩
  · rintro ⟨first, hfirst⟩ count hcount
    refine answer_of_read fun hunread => ?_
    obtain ⟨error, herror⟩ := hunread 0 hcount
    rw [hfirst] at herror
    cases herror

/-- A program behind a word that is no token. -/
def strayStart : Source where
  text := "foo b=1;".toList

theorem second_call_compiles_rest :
    (∃ compilation error, (new strayStart).answer 0 = .ok compilation ∧
      compilation.outcome = .error (.lexical error)) ∧
    ∃ compilation, (new strayStart).answer 1 = .ok compilation ∧
      compilation.outcome = .ok ⟨#[2, 1, 1, 1, 3, 10], "<input>"⟩ := by
  refine ⟨⟨_, _, rfl, rfl⟩, _, rfl, ?_⟩
  decide +kernel

end Compiler

end OnePass

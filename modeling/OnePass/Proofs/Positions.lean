import OnePass.Proofs.Lexemes

namespace OnePass

namespace Source

/-- The place behind so many characters: the line counts the line feeds among
them, the column goes on from the last of these. -/
def placeAt (s : Source) (offset : Nat) : Position where
  line := s.firstLine + (s.text.take offset).count '\n'
  column := 1 + ((s.text.take offset).reverse.takeWhile (· != '\n')).length

def cursorAt (s : Source) (offset : Nat) : Cursor :=
  ⟨s.text.drop offset, s.placeAt offset⟩

end Source

theorem Position.after_reverse (line : Int) (text : List Char) :
    (⟨line, 1⟩ : Position).after text.reverse =
      ⟨line + text.count '\n', 1 + (text.takeWhile (· != '\n')).length⟩ := by
  induction text with
  | nil => simp [after]
  | cons c text ih =>
      rw [List.reverse_cons, after_append, ih]
      by_cases hc : c = '\n'
      · simp [after, next, hc, Int.add_assoc]
      · simp [after, next, hc, List.count_cons_of_ne, Int.add_assoc]

namespace Source

theorem placeAt_eq_after (s : Source) (offset : Nat) :
    s.placeAt offset = s.start.position.after (s.text.take offset) := by
  have hafter := Position.after_reverse s.firstLine (s.text.take offset).reverse
  rw [List.reverse_reverse, List.count_reverse] at hafter
  exact hafter.symm

theorem start_eq_cursorAt (s : Source) : s.start = s.cursorAt 0 := by
  rw [cursorAt, placeAt_eq_after]
  rfl

theorem after_placeAt {s : Source} {offset : Nat} {front rest : List Char}
    (h : s.text.drop offset = front ++ rest) :
    (s.placeAt offset).after front = s.placeAt (offset + front.length) := by
  rw [placeAt_eq_after, placeAt_eq_after, List.take_add, Position.after_append,
    h, List.take_left]

theorem drop_add {s : Source} {offset : Nat} {front rest : List Char}
    (h : s.text.drop offset = front ++ rest) :
    s.text.drop (offset + front.length) = rest := by
  rw [← List.drop_drop, h, List.drop_left]

theorem cursorAt_add {s : Source} {offset : Nat} {front rest : List Char}
    (h : s.text.drop offset = front ++ rest) :
    s.cursorAt (offset + front.length) =
      ⟨rest, (s.placeAt offset).after front⟩ := by
  rw [cursorAt, after_placeAt h, drop_add h]

/-- What a call reports that goes on at the offset `start`: the offset of the
first character that the report is about, and the offset at which the next call
goes on. -/
inductive Reports (s : Source) (start : Nat) :
    Except LexError Lexeme → Nat → Nat → Prop where
  | token {t : Token} {blanks lexeme rest : List Char}
      (text : s.text.drop start = blanks ++ (lexeme ++ rest))
      (blank : ∀ c ∈ blanks, isSeparator c = true)
      (reads : t.HasLexeme lexeme rest) :
      Reports s start (.ok ⟨t, s.placeAt (start + blanks.length)⟩)
        (start + blanks.length)
        (start + blanks.length + lexeme.length)
  | endOfInput (blank : ∀ c ∈ s.text.drop start, isSeparator c = true) :
      Reports s start (.ok ⟨.endOfInput, s.placeAt s.text.length⟩) s.text.length
        s.text.length
  | unknownWord {blanks word rest : List Char}
      (text : s.text.drop start = blanks ++ (word ++ rest))
      (blank : ∀ c ∈ blanks, isSeparator c = true)
      (obstructs : LexCause.Obstructs (.unknownWord word) (word ++ rest)) :
      Reports s start (.error ⟨.unknownWord word,
        s.placeAt (start + blanks.length)⟩)
        (start + blanks.length) (start + blanks.length + word.length)
  | invalidCharacter {blanks rest : List Char} {first : Char}
      (text : s.text.drop start = blanks ++ first :: rest)
      (blank : ∀ c ∈ blanks, isSeparator c = true)
      (obstructs :
        LexCause.Obstructs (.invalidCharacter first) (first :: rest)) :
      Reports s start (.error ⟨.invalidCharacter first,
        s.placeAt (start + blanks.length)⟩)
        (start + blanks.length) (start + blanks.length)

theorem Reports.bounds {s : Source} {start place behind : Nat}
    {answer : Except LexError Lexeme}
    (h : s.Reports start answer place behind) (hstart : start ≤ s.text.length) :
    start ≤ place ∧ place ≤ behind ∧ behind ≤ s.text.length := by
  have hlength : ∀ {front : List Char}, s.text.drop start = front →
      start + front.length = s.text.length := by
    rintro _ rfl
    rw [List.length_drop]
    omega
  cases h with
  | token text | unknownWord text | invalidCharacter text =>
      have hsum := hlength text
      simp only [List.length_append] at hsum
      omega
  | endOfInput => exact ⟨hstart, Nat.le_refl _, Nat.le_refl _⟩

theorem reports_next {s : Source} {start : Nat}
    (hstart : start ≤ s.text.length) :
    ∃ place behind, s.Reports start (s.cursorAt start).next.1 place behind ∧
      (s.cursorAt start).next.2 = s.cursorAt behind := by
  have hreads := (s.cursorAt start).reads_next
  generalize (s.cursorAt start).next = result at hreads ⊢
  cases hreads with
  | @token t blanks lexeme behind rest blank reads =>
      have hbehind := cursorAt_add (rest.trans (List.append_assoc _ _ _).symm)
      have hreport := Reports.token rest blank reads
      rw [← after_placeAt rest] at hreport
      rw [List.length_append, ← Nat.add_assoc] at hbehind
      exact ⟨_, _, hreport, hbehind.symm⟩
  | endOfInput blank =>
      have hlength : start + (s.text.drop start).length = s.text.length := by
        rw [List.length_drop]
        omega
      have hend := cursorAt_add (s.text.drop start).append_nil.symm
      have hplace := after_placeAt (s.text.drop start).append_nil.symm
      have hreport := Reports.endOfInput blank
      rw [hlength] at hend hplace
      rw [← hplace] at hreport
      exact ⟨_, _, hreport, hend.symm⟩
  | @unknownWord blanks word behind rest blank obstructs =>
      have hbehind := cursorAt_add (rest.trans (List.append_assoc _ _ _).symm)
      have hreport := Reports.unknownWord rest blank obstructs
      rw [← after_placeAt rest] at hreport
      rw [List.length_append, ← Nat.add_assoc] at hbehind
      exact ⟨_, _, hreport, hbehind.symm⟩
  | invalidCharacter rest blank obstructs =>
      have hreport := Reports.invalidCharacter rest blank obstructs
      rw [← after_placeAt rest] at hreport
      exact ⟨_, _, hreport, (cursorAt_add rest).symm⟩

end Source

namespace Cursor

/-- The cursor after so many calls, whatever they came to. -/
def afterCalls (c : Cursor) : Nat → Cursor
  | 0 => c
  | count + 1 => (c.afterCalls count).next.2

/-- The answers behind which there is nothing else to come. -/
def IsFinal : Except LexError Lexeme → Prop
  | .ok l => l.token = .endOfInput
  | .error e => ∃ first, e.cause = .invalidCharacter first

theorem skipWhile_skipWhile (c : Cursor) (p : Char → Bool) :
    (c.skipWhile p).skipWhile p = c.skipWhile p := by
  have hrun := LongestRun.of_takeWhile p c.rest
  have hnone : LongestRun p [] (c.rest.dropWhile p) := ⟨by simp, hrun.ends⟩
  have hdrop := hnone.dropWhile_eq
  rw [List.nil_append] at hdrop
  rw [skipWhile, skipWhile, hrun.takeWhile_behind, hdrop]
  rfl

theorem scan_stays {c behind : Cursor} {result : Except LexCause Token}
    (h : c.scan = (result, behind))
    (hresult : result = .ok .endOfInput ∨
      ∃ first, result = .error (.invalidCharacter first)) :
    behind = c := by
  rcases hresult with rfl | ⟨first, rfl⟩
  · rcases Scans.of_scan h with ⟨hempty, -⟩ | hscans
    · simp only [scan, hempty] at h
      cases h
      rfl
    · exact absurd rfl hscans.ne_endOfInput
  · unfold scan at h
    split at h
    · cases h
    · split at h
      · cases h
      · split at h
        · cases wordToken_eq_error (Prod.mk.inj h).1
        · split at h
          · cases h
          · cases h
            rfl

theorem next_of_isFinal {c : Cursor} (h : IsFinal c.next.1) :
    c.next.2.next = c.next := by
  -- The blanks before the answer are all that was passed, and there are no more
  -- of them.
  have hstays : c.next.2 = c.skipWhile isSeparator := by
    simp only [next] at h ⊢
    rcases hscan : (c.skipWhile isSeparator).scan with ⟨cause | t, behind⟩
    · rw [hscan] at h
      obtain ⟨first, hfirst⟩ := h
      exact scan_stays hscan (.inr ⟨first, congrArg _ hfirst⟩)
    · rw [hscan] at h
      exact scan_stays hscan (.inl (congrArg _ h))
  rw [hstays]
  simp only [next, skipWhile_skipWhile]

theorem next_afterCalls_of_isFinal {c : Cursor} {count : Nat}
    (h : IsFinal (c.afterCalls count).next.1) {later : Nat}
    (hle : count ≤ later) :
    (c.afterCalls later).next = (c.afterCalls count).next := by
  induction hle with
  | refl => rfl
  | step _ ih =>
      rw [afterCalls, ih]
      exact next_of_isFinal h

end Cursor

namespace Source

/-- The number of characters that so many calls have passed. -/
def offsetAfter (s : Source) (count : Nat) : Nat :=
  s.text.length - (s.start.afterCalls count).rest.length

/-- The answer to the call that follows on so many others. -/
def answer (s : Source) (count : Nat) : Except LexError Lexeme :=
  (s.start.afterCalls count).next.1

theorem offsetAfter_zero (s : Source) : s.offsetAfter 0 = 0 :=
  Nat.sub_self _

theorem offsetAfter_eq {s : Source} {offset : Nat}
    (hoffset : offset ≤ s.text.length) (count : Nat)
    (h : s.start.afterCalls count = s.cursorAt offset) :
    s.offsetAfter count = offset := by
  rw [offsetAfter, h, cursorAt, List.length_drop]
  omega

theorem afterCalls_eq (s : Source) (count : Nat) :
    s.start.afterCalls count = s.cursorAt (s.offsetAfter count) ∧
      s.offsetAfter count ≤ s.text.length := by
  induction count with
  | zero =>
      rw [offsetAfter_zero]
      exact ⟨s.start_eq_cursorAt, Nat.zero_le _⟩
  | succ count ih =>
      obtain ⟨hcursor, hle⟩ := ih
      obtain ⟨place, behind, hreports, hbehind⟩ := reports_next hle
      have hend := (hreports.bounds hle).2.2
      rw [← hcursor] at hbehind
      rw [offsetAfter_eq hend (count + 1) hbehind]
      exact ⟨hbehind, hend⟩

theorem exists_reports (s : Source) (count : Nat) :
    ∃ place, s.Reports (s.offsetAfter count) (s.answer count) place
      (s.offsetAfter (count + 1)) := by
  obtain ⟨hcursor, hle⟩ := s.afterCalls_eq count
  obtain ⟨place, behind, hreports, hbehind⟩ := reports_next hle
  rw [← hcursor] at hreports hbehind
  rw [← offsetAfter_eq (hreports.bounds hle).2.2 (count + 1) hbehind]
    at hreports
  exact ⟨place, hreports⟩

theorem offsetAfter_le_of_le (s : Source) {count later : Nat}
    (hle : count ≤ later) :
    s.offsetAfter count ≤ s.offsetAfter later := by
  induction hle with
  | refl => exact Nat.le_refl _
  | @step later _ ih =>
      obtain ⟨place, hreports⟩ := s.exists_reports later
      obtain ⟨hplace, hbehind, -⟩ := hreports.bounds (s.afterCalls_eq later).2
      exact Nat.le_trans ih (Nat.le_trans hplace hbehind)

/-- Every call reports a place that is exact: its line and column are those of
the first character that the report is about. No call goes back before another,
and a final answer is given again and again. -/
theorem positions_exact (s : Source) :
    s.offsetAfter 0 = 0 ∧
      ∃ place : Nat → Nat,
        (∀ count, s.Reports (s.offsetAfter count) (s.answer count) (place count)
          (s.offsetAfter (count + 1))) ∧
        (∀ count later, count ≤ later →
          place count ≤ place later ∧
          s.offsetAfter count ≤ s.offsetAfter later) ∧
        (∀ count, Cursor.IsFinal (s.answer count) →
          ∀ later, count ≤ later → s.answer later = s.answer count) := by
  obtain ⟨place, hplace⟩ := Classical.axiomOfChoice s.exists_reports
  have hbounds := fun count => (hplace count).bounds (s.afterCalls_eq count).2
  refine ⟨s.offsetAfter_zero, place, hplace, ?_, ?_⟩
  · intro count later hle
    refine ⟨?_, s.offsetAfter_le_of_le hle⟩
    rcases Nat.eq_or_lt_of_le hle with rfl | hlt
    · exact Nat.le_refl _
    · calc
        place count ≤ s.offsetAfter (count + 1) := (hbounds count).2.1
        _ ≤ s.offsetAfter later := s.offsetAfter_le_of_le hlt
        _ ≤ place later := (hbounds later).1
  · intro count hfinal later hle
    rw [answer, Cursor.next_afterCalls_of_isFinal hfinal hle]
    rfl

def strayWord : Source where
  text := "ab\n $".toList
  firstLine := -3

theorem positions_exact_behind_error :
    strayWord.answer 0 = .error ⟨.unknownWord ['a', 'b'], ⟨-3, 1⟩⟩ ∧
      ∀ later, 1 ≤ later →
      strayWord.answer later = .error ⟨.invalidCharacter '$', ⟨-2, 2⟩⟩ := by
  have hsecond :
      strayWord.answer 1 = .error ⟨.invalidCharacter '$', ⟨-2, 2⟩⟩ := by rfl
  refine ⟨rfl, ?_⟩
  intro later hle
  obtain ⟨-, place, -, -, hfinal⟩ := positions_exact strayWord
  rw [hfinal 1 ⟨'$', rfl⟩ later hle]
  exact hsecond

end Source

end OnePass

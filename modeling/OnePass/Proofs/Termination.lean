import OnePass.Proofs.CallBudget
import OnePass.Proofs.WholeText

namespace OnePass

open OnePass.Tree (Read)

namespace Tree

theorem Term.tokens_ne_nil (t : Term) : t.tokens ≠ [] := by
  obtain ⟨first, later, ht, -⟩ := t.exists_tokens
  rw [ht]
  exact List.cons_ne_nil first later

theorem Sum.tokens_ne_nil (s : Sum) : s.tokens ≠ [] := by
  rw [s.tokens_eq_head_append]
  exact List.append_ne_nil_of_left_ne_nil s.head.tokens_ne_nil _

theorem Test.tokens_ne_nil (t : Test) : t.tokens ≠ [] := by
  rw [t.tokens_eq_left_append]
  exact List.append_ne_nil_of_left_ne_nil t.left.tokens_ne_nil _

theorem Expression.tokens_ne_nil (e : Expression) : e.tokens ≠ [] := by
  obtain ⟨first, later, he, -⟩ := e.exists_tokens
  rw [he]
  exact List.cons_ne_nil first later

theorem Statement.tokens_ne_nil (s : Statement) : s.tokens ≠ [] := by
  obtain ⟨first, later, hs, -⟩ := s.exists_tokens
  rw [hs]
  exact List.cons_ne_nil first later

end Tree

theorem Cursor.pairwise_takeTokens (count : Nat) (c : Cursor) :
    (c.takeTokens count).1.Pairwise fun l _ => l.token ≠ .endOfInput := by
  induction count generalizing c with
  | zero => exact .nil
  | succ count ih =>
      rw [takeTokens]
      split
      · exact .nil
      · split
        · exact List.pairwise_singleton _ _
        · rename_i hl
          exact .cons (fun _ _ => hl) (ih _)

namespace Emitter

theorem pairwise_stream (e : Emitter) :
    e.stream.1.Pairwise fun l _ => l.token ≠ .endOfInput := by
  unfold stream
  split
  · exact List.pairwise_singleton _ _
  · rename_i hlookahead
    exact .cons (fun _ _ => hlookahead) (Cursor.pairwise_takeTokens _ _)

/-- Between `e` and `e'` the lexemes `used` are taken, at least one and never
the end of the input. -/
structure Takes (e e' : Emitter) (used : List Lexeme) : Prop where
  nonempty : used ≠ []
  stream : e.stream.1 = used ++ e'.stream.1
  unended : ∀ l ∈ used, l.token ≠ .endOfInput

/-- What is read as a tree with tokens is taken, and there is something else
behind it. -/
theorem Tracks.exists_takes {α : Type} {b : Builder} {x : Emit Unit}
    {r : Read α} {Q : α → Unit → Builder → Prop}
    (h : Tracks (fun _ => True) b x r Q) {tokens : α → List Token}
    (hsound : ∀ {ts rest : List Token} {a : α}, r ts = .ok a rest →
      ts = tokens a ++ rest)
    (hnonempty : ∀ a, tokens a ≠ []) {e e' : Emitter} (hb : e.builder = b)
    (hok : x e = .ok () e') :
    ∃ used, e.Takes e' used := by
  have hagrees := h e hb trivial
  rw [hok] at hagrees
  generalize hread : r e.upcoming = reading at hagrees
  cases hagrees with
  | @done a _ _ hlater _ =>
      obtain ⟨used, hused⟩ := hlater.suffix
      refine ⟨used, ?_, hused.symm, ?_⟩
      · rintro rfl
        have htokens := hsound hread
        rw [upcoming, ← hused, List.nil_append, ← upcoming] at htokens
        exact hnonempty a (List.self_eq_append_left.mp htokens)
      · -- The lookahead of `e'` still follows, and nothing follows the end.
        obtain ⟨later, hlater'⟩ := e'.exists_stream
        have hpairwise := e.pairwise_stream
        rw [← hused, hlater', List.pairwise_append] at hpairwise
        exact fun l hl => hpairwise.2.2 l hl e'.lookahead List.mem_cons_self

end Emitter

namespace Phrase

open Emitter Ledgered

/-- Whether a phrase has a token of its own wherever it is called for. -/
def takesToken : Phrase → Bool
  | .statement | .expression | .test | .sum | .term | .parenthesized => true
  | _ => false

theorem compileWithin_takes (bound depth : Nat) {phrase : Phrase}
    (h : phrase.takesToken = true) {e e' : Emitter}
    (hok : compileWithin bound depth phrase e = .ok () e') :
    ∃ used, e.Takes e' used := by
  cases phrase with
  | statement =>
      exact (statement_tracks bound depth _).exists_takes
        (fun hread => (Read.statement_sound bound depth hread).tokens)
          (fun s => s.tokens_ne_nil) rfl hok
  | expression =>
      exact (expression_tracks bound depth _).exists_takes
        (fun hread => (Read.expression_sound bound depth hread).1)
          (fun c => c.tokens_ne_nil) rfl hok
  | test =>
      exact (test_tracks bound depth _).exists_takes
        (fun hread => (Read.test_sound bound depth hread).1)
          (fun t => t.tokens_ne_nil) rfl hok
  | sum =>
      exact (sum_tracks bound depth _).exists_takes
        (fun hread => (Read.sum_sound bound depth hread).1)
          (fun s => s.tokens_ne_nil) rfl hok
  | term =>
      exact (term_tracks bound depth _).exists_takes
        (fun hread => (Read.term_sound bound depth hread).1)
          (fun t => t.tokens_ne_nil) rfl hok
  | parenthesized =>
      exact (parenthesized_tracks bound depth _).exists_takes
        (fun hread => (Read.parenthesized_sound bound depth hread).1)
          (fun _ => List.cons_ne_nil _ _) rfl hok
  | ifStatement | whileStatement | doStatement | block | testTail | sumTail =>
      cases h

theorem credit_lt_change {phrase : Phrase} (h : phrase.takesToken = true) :
    phrase.credit < phrase.change := by
  cases phrase with
  | statement | expression | test | sum | term | parenthesized => decide
  | ifStatement | whileStatement | doStatement | block | testTail | sumTail =>
      cases h

theorem admits_of_takesToken {phrase : Phrase} (h : phrase.takesToken = true)
    (e : Emitter) :
    phrase.Admits e := by
  cases phrase with
  | statement | expression | test | sum | term | parenthesized => trivial
  | ifStatement | whileStatement | doStatement | block | testTail | sumTail =>
      cases h

theorem credit_le (phrase : Phrase) : phrase.credit ≤ 7 := by
  cases phrase <;> decide

/-- How a phrase ends if nothing but the text puts an end to it: with some
outcome, after so many calls that the lexemes in front of it pay for them, and
after success with a lexeme taken. -/
structure Concludes (phrase : Phrase) (before after : Ledger)
    (outcome : Except CompileError Unit) : Prop where
  ends : ∀ fuel, 7 * (before.emitter.stream.1.length + 1) ≤ fuel →
    phrase.compileFueled fuel before = some (outcome, after)
  bounded :
    after.calls ≤ before.calls + 7 * (before.emitter.stream.1.length + 1)
  takes : outcome = .ok () → ∃ used, before.emitter.Takes after.emitter used ∧
    after.taken = before.taken ++ used

theorem exists_concludes {phrase : Phrase} (h : phrase.takesToken = true)
    (before : Ledger) :
    ∃ outcome after, phrase.Concludes before after outcome := by
  let limit := 7 * (before.emitter.stream.1.length + 1)
  have hcredit := phrase.credit_le
  have hpays : Pays limit phrase.credit phrase.change phrase.Admits
      (fun spare => phrase.compileFueled (limit + spare))
        (compileWithin limit limit phrase) :=
    compileWithin_pays phrase (Nat.le_refl limit) (Nat.le_refl limit) (by omega)
  have hends :=
    hpays before.emitter (admits_of_takesToken h before.emitter) (by omega)
  generalize compileWithin limit limit phrase before.emitter = result at hends
  cases hends with
  | @done _ e' calls taken ends takes unended pays =>
      refine ⟨.ok (), ⟨e', before.calls + calls, before.taken ++ taken⟩,
        fun fuel hle => ?_, ?_, fun _ => ?_⟩
      · obtain ⟨spare, rfl⟩ := Nat.exists_eq_add_of_le hle
        exact ends spare before.calls before.taken
      · exact Nat.add_le_add_left (by omega) before.calls
      · refine ⟨taken, ⟨?_, takes, unended⟩, rfl⟩
        -- With nothing taken the phrase would hand on more credit than it was
        -- given.
        rintro rfl
        have hchange := credit_lt_change h
        rw [takes, List.nil_append] at pays
        omega
  | @failed error e' calls taken ends takes unended pays =>
      refine ⟨.error error, ⟨e', before.calls + calls, before.taken ++ taken⟩,
        fun fuel hle => ?_, ?_, ?_⟩
      · obtain ⟨spare, rfl⟩ := Nat.exists_eq_add_of_le hle
        exact ends spare before.calls before.taken
      · exact Nat.add_le_add_left (by omega) before.calls
      · exact fun hok => by cases hok

end Phrase

namespace Source

/-- Compiling the text comes to an end without limits. Its length bounds the
number of phrases, and a limit on the levels of nesting makes no difference
unless it is the reason for a failure. -/
structure Terminates (s : Source) (outcome : Except CompileError Program)
    (calls : Nat) (taken : List Lexeme) : Prop where
  ends : ∀ fuel, 7 * (s.text.length + 2) ≤ fuel →
    s.compileFueled fuel = some (outcome, calls, taken)
  bounded : calls ≤ 7 * (s.text.length + 2)
  takes : taken <+: s.start.tokens.1
  unended : ∀ l ∈ taken, l.token ≠ .endOfInput
  unlimited : ∀ found, outcome ≠ .error (.tooDeep found)
  limited : ∀ limit, (s.compileWithin limit).outcome = outcome ∨
    limit < 7 * (s.text.length + 2) ∧ ∃ found,
      (s.compileWithin limit).outcome = .error (.tooDeep found)

theorem compileFueled_of_next {s : Source} {first : Lexeme} {behind : Cursor}
    (hnext : s.start.next = (.ok first, behind)) {fuel : Nat}
    {outcome : Except CompileError Program} {ledger : Ledger}
    (h : compileProgramFueled fuel s.name
      ⟨{ lookahead := first, cursor := behind }, 0, []⟩ =
      some (outcome, ledger)) :
    s.compileFueled fuel = some (outcome, ledger.calls, ledger.taken) := by
  rw [compileFueled, hnext]
  change Option.bind (compileProgramFueled fuel s.name ⟨_, 0, []⟩) _ = _
  rw [h]
  rfl

/-- A limit that no text of this length can reach changes nothing, and is not
reached either. -/
theorem Terminates.of_outcome {s : Source}
    {outcome : Except CompileError Program} {calls : Nat}
    {taken : List Lexeme}
    (houtcome : (s.compileWithin (7 * (s.text.length + 2))).outcome = outcome)
    (ends : ∀ spare, s.compileFueled (7 * (s.text.length + 2) + spare) =
      some (outcome, calls, taken))
    (bounded : calls ≤ 7 * (s.text.length + 2))
    (takes : taken <+: s.start.tokens.1)
    (unended : ∀ l ∈ taken, l.token ≠ .endOfInput)
    (unlimited : ∀ found, outcome ≠ .error (.tooDeep found)) :
    s.Terminates outcome calls taken := by
  refine ⟨fun fuel hle => ?_, bounded, takes, unended, unlimited,
    fun limit => ?_⟩
  · obtain ⟨spare, rfl⟩ := Nat.exists_eq_add_of_le hle
    exact ends spare
  · rcases Nat.lt_or_ge limit (7 * (s.text.length + 2)) with hlt | hge
    · rcases s.outcome_of_le (Nat.le_of_lt hlt) with hsame | hdeep
      · exact .inl (hsame.symm.trans houtcome)
      · exact .inr ⟨hlt, hdeep⟩
    · rcases s.outcome_of_le hge with hsame | ⟨found, hdeep⟩
      · exact .inl (hsame.trans houtcome)
      · exact absurd (houtcome.symm.trans hdeep) (unlimited found)

theorem length_tokens_le (s : Source) :
    s.start.tokens.1.length ≤ s.text.length + 1 :=
  Cursor.length_takeTokens_le _ s.start

theorem ends_of_next {s : Source} {first : Lexeme} {behind : Cursor}
    (hnext : s.start.next = (.ok first, behind)) :
    Ledgered.Ends { lookahead := first, cursor := behind }
      (fun spare => compileProgramFueled
        (7 * (s.text.length + 2) + spare) s.name) 6 7
      (compileProgram (behind.rest.length + 2) (7 * (s.text.length + 2)) s.name
        { lookahead := first, cursor := behind }) := by
  have hlength := s.length_tokens_le
  have hupcoming := Emitter.length_upcoming_le first behind
  rw [Emitter.upcoming, List.length_map] at hupcoming
  rw [← Emitter.stream_start hnext] at hlength
  exact compileProgram_pays (by omega) (by omega) (by omega) s.name _ trivial
    (Nat.le_refl _)

theorem exists_terminates (s : Source) :
    ∃ outcome calls taken, s.Terminates outcome calls taken := by
  rcases hnext : s.start.next with ⟨error | first, behind⟩
  · have hend : ∀ fuel,
        s.compileFueled fuel = some (.error (.lexical error), 0, []) := by
      intro fuel
      rw [compileFueled, hnext]
    have houtcome := outcome_of_next_error hnext (7 * (s.text.length + 2))
    refine ⟨_, 0, [], .of_outcome houtcome (fun _ => hend _)
      (Nat.zero_le _) List.nil_prefix
      (List.forall_mem_nil _) ?_⟩
    exact fun _ h => by cases h
  · have houtcome := outcome_of_next hnext (7 * (s.text.length + 2))
    have hlength := s.length_tokens_le
    have hends := ends_of_next hnext
    generalize compileProgram _ _ s.name _ = result at houtcome hends
    have hstream := Emitter.stream_start hnext
    cases hends with
    | @done program e' calls taken ends takes unended pays =>
        have hend := fun spare => compileFueled_of_next hnext (ends spare 0 [])
        simp only [Nat.zero_add, List.nil_append] at hend
        rw [hstream] at takes pays
        refine ⟨.ok program, calls, taken,
          .of_outcome houtcome hend (by omega) ⟨_, takes.symm⟩ unended ?_⟩
        exact fun _ h => by cases h
    | @failed error e' calls taken ends takes unended pays limit =>
        have hend := fun spare => compileFueled_of_next hnext (ends spare 0 [])
        simp only [Nat.zero_add, List.nil_append] at hend
        rw [hstream] at takes pays
        refine ⟨.error error, calls, taken,
          .of_outcome houtcome hend (by omega) takes unended ?_⟩
        exact fun found h => limit found (Except.error.inj h)

/-- A compilation ends whatever the text is, and not because of a limit: a token
takes a character, a phrase takes a token, and the end of the input is never
taken. -/
theorem compilation_terminates (s : Source) :
    (∀ (c behind : Cursor) (l : Lexeme), c.next = (.ok l, behind) →
      l.token ≠ .endOfInput →
      behind.rest.length < c.rest.length) ∧
    (∀ (bound depth : Nat) (phrase : Phrase) (e e' : Emitter),
      phrase.takesToken = true →
      phrase.compileWithin bound depth e = .ok () e' →
      ∃ used, e.Takes e' used) ∧
    (∀ (phrase : Phrase) (before : Ledger), phrase.takesToken = true →
      ∃ outcome after, phrase.Concludes before after outcome) ∧
    ∃ outcome calls taken, s.Terminates outcome calls taken :=
  ⟨fun _ _ _ => Cursor.next_shortens, fun bound depth _ _ _ h =>
    Phrase.compileWithin_takes bound depth h,
    fun _ before h => Phrase.exists_concludes h before, s.exists_terminates⟩

end Source

end OnePass

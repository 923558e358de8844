import OnePass.Proofs.NestingLimit
import OnePass.Proofs.PhraseCode
import OnePass.Proofs.ProgramLayout
import OnePass.Proofs.ReaderComplete

namespace OnePass

open OnePass.Tree (Read Statement)

namespace Cursor

theorem length_takeTokens_le (count : Nat) (c : Cursor) :
    (c.takeTokens count).1.length ≤ count := by
  induction count generalizing c with
  | zero => exact Nat.le_refl 0
  | succ count ih =>
      rw [takeTokens]
      split
      · exact Nat.zero_le _
      · split
        · exact Nat.succ_le_succ (Nat.zero_le count)
        · exact Nat.succ_le_succ (ih _)

end Cursor

theorem Builder.build_program (s : Statement) (name : String) :
    build name (append {} s.program) =
      .ok ⟨s.program.toArray, name⟩ (append {} s.program) := by
  have hwords : (append {} s.program).words = s.program.toArray := by
    simp [append]
  have hpending : (append {} s.program).pending = [] := rfl
  change (build name).run _ = _
  rw [build, EStateM.run_bind, EStateM.run_get]
  simp only [hpending, List.min?_nil, hwords, s.fault?_program name]
  rfl

namespace Emitter

theorem length_upcoming_le (first : Lexeme) (behind : Cursor) :
    (upcoming { lookahead := first, cursor := behind }).length ≤
      behind.rest.length + 2 := by
  have htokens := Cursor.length_takeTokens_le (behind.rest.length + 1) behind
  rw [upcoming, List.length_map, stream]
  split
  · exact Nat.succ_le_succ (Nat.zero_le _)
  · exact Nat.succ_le_succ htokens

theorem appends_compiled (name : String) (program : Program) (b : Builder) :
    Appends b (do
      modify fun e =>
        { e with events := .compiled name program.size :: e.events }
      return program) program b := by
  rintro e rfl
  exact ⟨_, rfl⟩

theorem stream_of_end {e : Emitter}
    (h : e.upcoming.headD .endOfInput = .endOfInput) :
    e.upcoming = [.endOfInput] ∧ e.stream.2 = none := by
  obtain ⟨later, hlater⟩ := e.exists_upcoming
  rw [hlater, List.headD_cons] at h
  have hstream : e.stream = ([e.lookahead], none) := if_pos h
  rw [upcoming, hstream]
  exact ⟨by simp [h], rfl⟩

theorem compileProgram_tracks (bound limit : Nat) (name : String) :
    Tracks (fun _ => True) {} (compileProgram bound limit name)
      (Read.program bound limit)
      fun s program _ => program = ⟨s.program.toArray, name⟩ := by
  rw [compileProgram, Read.program]
  refine .bind (Phrase.statement_tracks bound limit {}) ?_
  rintro s _ _ rfl
  refine .look fun t _ => ?_
  by_cases hend : t = .endOfInput
  · rw [if_pos hend, if_pos hend]
    refine .appends_bind (appends_emit rfl _) ?_
    rw [Builder.append_append]
    refine .appends_bind (appends_onCode (Builder.build_program s name)) ?_
    exact .appends (appends_compiled name _ _) rfl
  · rw [if_neg hend, if_neg hend]
    exact .refuse (by rintro _ ⟨⟩)

end Emitter

namespace Source

/-- The text can be read as these tokens up to its end. -/
def Spells (s : Source) (ts : List Token) : Prop :=
  s.start.tokens.2 = none ∧
    s.start.tokens.1.map Lexeme.token = ts ++ [.endOfInput]

/-- The tree of a text, with every `else` at the nearest condition. -/
def ReadsAs (s : Source) (t : Statement) : Prop :=
  t.ElseNearest ∧ s.Spells t.tokens

theorem ReadsAs.unique {s : Source} {t u : Statement} (ht : s.ReadsAs t)
    (hu : s.ReadsAs u) : t = u := by
  refine Statement.eq_of_tokens_eq ht.1 hu.1 ?_
  exact List.append_cancel_right (ht.2.2.symm.trans hu.2.2)

theorem outcome_of_next_error {s : Source} {error : LexError} {behind : Cursor}
    (hnext : s.start.next = (.error error, behind)) (limit : Nat) :
    (s.compileWithin limit).outcome = .error (.lexical error) := by
  rw [compileWithin, compileAt, hnext]

theorem outcome_of_next {s : Source} {first : Lexeme} {behind : Cursor}
    (hnext : s.start.next = (.ok first, behind)) (limit : Nat) :
    (s.compileWithin limit).outcome =
      match compileProgram (behind.rest.length + 2) limit s.name
          { lookahead := first, cursor := behind } with
      | .ok program _ => .ok program
      | .error error _ => .error error := by
  rw [compileWithin, compileAt, hnext]
  change (compileFrom limit s.name first behind).outcome = _
  rw [compileFrom, EStateM.run]
  generalize compileProgram _ limit s.name _ = result
  cases result with
  | ok program e => rfl
  | error error e => rfl

instance {ε α : Type} [DecidableEq ε] [DecidableEq α] : DecidableEq (Except ε α)
  | .ok a, .ok b => decidable_of_iff (a = b) (by simp)
  | .error e, .error f => decidable_of_iff (e = f) (by simp)
  | .ok _, .error _ => isFalse nofun
  | .error _, .ok _ => isFalse nofun

/-- The outcome of compiling a text. It is the program of the tree of the text,
or else it names the place where the text cannot be read on. -/
inductive Outcome (s : Source) (limit : Nat) :
    Except CompileError Program → Prop where
  | program {t : Statement} (htree : s.ReadsAs t) (hdepth : t.depth ≤ limit) :
      Outcome s limit (.ok ⟨t.program.toArray, s.name⟩)
  | lexical {error : LexError} (herror : s.start.tokens.2 = some error) :
      Outcome s limit (.error (.lexical error))
  | unexpected {expected : Expectation} {found : Lexeme}
      (htext : expected.HasText) :
      Outcome s limit (.error (.unexpected expected found))
  | tooDeep {found : Lexeme}
      (hlimit : limit < 6 * (s.start.tokens.1.length + 1)) :
      Outcome s limit (.error (.tooDeep found))

theorem outcome_compileWithin (s : Source) (limit : Nat) :
    Outcome s limit (s.compileWithin limit).outcome := by
  rcases hnext : s.start.next with ⟨error | first, behind⟩
  · rw [outcome_of_next_error hnext]
    exact .lexical (by rw [Cursor.tokens_of_error hnext])
  · rw [outcome_of_next hnext]
    have hstream := Emitter.stream_start hnext
    have hagrees :=
      Emitter.compileProgram_tracks (behind.rest.length + 2) limit s.name
      { lookahead := first, cursor := behind } rfl trivial
    generalize compileProgram _ limit s.name _ = result at hagrees ⊢
    generalize hread : Read.program _ limit _ = reading at hagrees
    cases hagrees with
    | @done t program e' hlater hprogram =>
        obtain ⟨hisRead, hend⟩ := Read.program_sound hread
        obtain ⟨hupcoming, herror⟩ := Emitter.stream_of_end hend
        have htokens := hisRead.tokens
        rw [hupcoming, Emitter.upcoming, hstream] at htokens
        rw [hlater.error, hstream] at herror
        rw [hprogram]
        exact .program ⟨hisRead.nearest, herror, htokens⟩ hisRead.depth
    | unexpected hlater htext => exact .unexpected htext
    | missing herror => exact .lexical (hstream ▸ herror)
    | tooDeep hlater =>
        refine .tooDeep (Nat.lt_of_not_le fun hle => ?_)
        have hlength :
            (Emitter.upcoming { lookahead := first, cursor := behind }).length =
            s.start.tokens.1.length := by
          rw [Emitter.upcoming, List.length_map, hstream]
        have hsettles :=
          Read.program_settles (behind.rest.length + 2) hle _
          (Nat.le_of_eq hlength)
        rw [hread] at hsettles
        exact hsettles rfl

theorem exists_tree_of_ok {s : Source} {limit : Nat} {program : Program}
    (hok : (s.compileWithin limit).outcome = .ok program) :
    ∃ t : Statement, s.ReadsAs t ∧ t.depth ≤ limit ∧
    program = ⟨t.program.toArray, s.name⟩ := by
  have houtcome := s.outcome_compileWithin limit
  rw [hok] at houtcome
  cases houtcome with
  | program htree hdepth => exact ⟨_, htree, hdepth, rfl⟩

theorem outcome_of_readsAs {s : Source} {t : Statement} (htree : s.ReadsAs t)
    {limit : Nat} (hdepth : t.depth ≤ limit) :
    (s.compileWithin limit).outcome = .ok ⟨t.program.toArray, s.name⟩ := by
  obtain ⟨hnearest, herror, htokens⟩ := htree
  rcases hnext : s.start.next with ⟨error | first, behind⟩
  · rw [Cursor.tokens_of_error hnext] at herror
    cases herror
  · rw [outcome_of_next hnext]
    have hstream := Emitter.stream_start hnext
    have hlength := Emitter.length_upcoming_le first behind
    have hagrees :=
      Emitter.compileProgram_tracks (behind.rest.length + 2) limit s.name
      { lookahead := first, cursor := behind } rfl trivial
    -- The bound on lists is no bound here, since the text has no more tokens
    -- than that.
    rw [Emitter.upcoming, hstream, htokens, List.length_append] at hlength
    rw [Emitter.upcoming, hstream, htokens,
      Read.program_complete t hdepth (by omega) hnearest] at hagrees
    obtain ⟨program, e', hresult, hprogram⟩ := hagrees.exists_ok
    rw [hresult, hprogram]

/-- A higher limit changes the outcome only where a text nests too deeply. -/
theorem outcome_of_le (s : Source) {limit limit' : Nat} (hle : limit ≤ limit') :
    (s.compileWithin limit').outcome = (s.compileWithin limit).outcome ∨
      ∃ found, (s.compileWithin limit).outcome = .error (.tooDeep found) := by
  rcases hnext : s.start.next with ⟨error | first, behind⟩
  · left
    rw [outcome_of_next_error hnext, outcome_of_next_error hnext]
  · rw [outcome_of_next hnext, outcome_of_next hnext]
    rcases compileProgram_extendsTo (behind.rest.length + 2) hle s.name
        { lookahead := first, cursor := behind } with hsame | ⟨found, e', hdeep⟩
    · left
      rw [hsame]
    · right
      exact ⟨found, by rw [hdeep]⟩

/-- Emitting code in one pass, with placeholders that are patched later, gives
word for word the code that is generated from the tree by the sizes of its
parts, and a halt. -/
theorem outcome_eq_ok_iff (s : Source) (limit : Nat) (program : Program) :
    (s.compileWithin limit).outcome = .ok program ↔
      ∃ t : Statement, s.ReadsAs t ∧ (∀ u, s.ReadsAs u → u = t) ∧
      t.depth ≤ limit ∧
        program.name = s.name ∧
        program.code.toList = t.code 0 ++ [Opcode.halt.word] := by
  constructor
  · intro hok
    obtain ⟨t, htree, hdepth, rfl⟩ := exists_tree_of_ok hok
    exact ⟨t, htree, fun u hu => hu.unique htree, hdepth, rfl,
      List.toList_toArray⟩
  · rintro ⟨t, htree, -, hdepth, hname, hcode⟩
    have hprogram : program = ⟨t.program.toArray, s.name⟩ := by
      rcases program with ⟨code, name⟩
      cases hname
      rw [Statement.program, ← hcode]
    rw [outcome_of_readsAs htree hdepth, hprogram]

/-- A loop over a condition with an `else`. -/
def alternating : Source where
  text := "while (a < 3) if (b) a = a + 1; else b = 1;".toList

def alternatingTree : Statement :=
  .whileDo (.test (.less (.term (.variable 0)) (.term (.number 3))))
    (.ifElse (.test (.sum (.term (.variable 1))))
      (.expression (.assign 0
      (.test (.sum (.add (.term (.variable 0)) (.number 1))))))
      (.expression (.assign 1 (.test (.sum (.term (.number 1)))))))

theorem outcome_alternating :
    alternating.compile.outcome =
      .ok ⟨alternatingTree.program.toArray, alternating.name⟩ := by
  have hnearest : alternatingTree.ElseNearest := by
    simp [alternatingTree, Statement.ElseNearest, Statement.isOpen]
  have hspells : alternating.Spells alternatingTree.tokens :=
    ⟨by decide, by decide⟩
  exact outcome_of_readsAs ⟨hnearest, hspells⟩ (by decide)

end Source

end OnePass

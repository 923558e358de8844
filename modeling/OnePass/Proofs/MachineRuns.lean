import OnePass.Proofs.StepResults

namespace OnePass

/-- All constants that the code pushes can be written out. -/
def Loggable (code : Array Int) : Prop :=
  ∀ pc n, Instruction.decodeAt code pc = .ok (.push n) →
    isShown code.size n = true

theorem loggable_of_words {code : Array Int}
    (h : ∀ word ∈ code.toList, isShown code.size word = true) :
    Loggable code := by
  intro pc n hdecode
  have hoperand := (Instruction.standsAt_of_decodeAt hdecode).operand n rfl
  unfold Instruction.operandAt at hoperand
  split at hoperand
  · cases hoperand
  · rename_i operand hword
    cases hoperand
    exact h n (Array.mem_toList_iff.mpr (Array.mem_of_getElem? hword))

namespace Machine

/-- Whether it traces or not, the machine is not held up by what it has to write
out. -/
def Writes (m : Machine) (code : Array Int) : Prop :=
  m.traces = true → Loggable code

theorem Writes.writesAt {m : Machine} {code : Array Int} (h : m.Writes code) :
    m.WritesAt code :=
  fun htraces n hdecode => h htraces m.state.pc n hdecode

theorem Writes.logged {m : Machine} {code : Array Int} (h : m.Writes code)
    (s : State) :
    ({ m.logged code with state := s } : Machine).Writes code := by
  unfold Writes
  rw [traces_logged]
  exact h

theorem consult_of_opcodeAt {m : Machine} {code : Array Int} {op : Opcode}
    (h : Instruction.opcodeAt code m.state.pc = .ok op) :
    ∃ answer watcher, m.consult code =
      (.ok answer, { m with watcher := watcher }) := by
  rcases m with ⟨state, program, traces, watcher, log⟩
  cases watcher with
  | none => exact ⟨true, none, rfl⟩
  | some watcher =>
      simp only [consult, h]
      exact ⟨_, _, rfl⟩

theorem consult_of_watcher_none {m : Machine} (h : m.watcher = none)
    (code : Array Int) :
    m.consult code = (.ok true, m) := by
  rw [consult, h]

/-- How a run ends that keeps an invariant under which no instruction fails. -/
structure EndsWithin (Inv : State → Prop) (m : Machine)
    (result : Ending × Machine) : Prop where
  invariant : Inv result.2.state
  notFailed : ∀ fault, result.1 ≠ .failed fault
  halted : result.1 = .halted → result.2.state.halted = true
  log : ∀ count, .leftOver count ∈ result.2.log → .leftOver count ∈ m.log

theorem runCode_endsWithin {code : Array Int} {Inv : State → Prop}
    (hstep : ∀ s, Inv s → s.halted = false →
      ∃ op s', State.execute code s = .ok op s' ∧ Inv s')
    (fuel : Nat) (m : Machine) (hwrites : m.Writes code) (hInv : Inv m.state) :
    EndsWithin Inv m (m.runCode code fuel) := by
  induction fuel generalizing m with
  | zero =>
      refine ⟨hInv, ?_, ?_, fun _ h => h⟩
      · intro fault
        unfold runCode
        split <;> nofun
      · unfold runCode
        split
        · rename_i hhalted
          exact fun _ => hhalted
        · nofun
  | succ fuel ih =>
      unfold runCode
      split
      · rename_i hhalted
        exact ⟨hInv, nofun, fun _ => hhalted, fun _ h => h⟩
      · rename_i hhalted
        obtain ⟨op, s', hexecute, hInv'⟩ :=
          hstep m.state hInv (by simpa using hhalted)
        obtain ⟨_, hopcode⟩ := State.opcodeAt_of_execute hexecute
        obtain ⟨answer, watcher, hconsult⟩ := consult_of_opcodeAt hopcode
        rw [hconsult]
        cases answer with
        | false => exact ⟨hInv, nofun, nofun, fun _ h => h⟩
        | true =>
            have hasked :
                ({ m with watcher := watcher } : Machine).Writes code := hwrites
            have hexecute' :=
              execute_of_ok (m := { m with watcher := watcher }) hasked.writesAt
              hexecute
            have hends :=
              ih { Machine.logged { m with watcher := watcher } code with state := s' }
              (hasked.logged s') hInv'
            simp only [hexecute']
            refine ⟨hends.invariant, hends.notFailed, hends.halted,
              fun count h => ?_⟩
            exact leftOver_mem_logged (m :=
              { m with watcher := watcher }) (hends.log count h)

theorem fst_run {m : Machine} {program : Program}
    (hprogram : m.program = some program) (fuel : Nat) :
    (m.run fuel).1 = (m.runCode program.code fuel).1 := by
  simp only [run, hprogram]
  rcases m.runCode program.code fuel with ⟨ending, m'⟩
  cases ending <;> rfl

theorem runCode_of_halted {code : Array Int} {m : Machine} {fuel fuel' : Nat}
    (h : (m.runCode code fuel).1 = .halted) (hle : fuel ≤ fuel') :
    m.runCode code fuel' = m.runCode code fuel := by
  induction fuel generalizing m fuel' with
  | zero =>
      unfold runCode at h ⊢
      split at h
      · rename_i hhalted
        cases fuel' with
        | zero => rfl
        | succ fuel' => simp [hhalted]
      · cases h
  | succ fuel ih =>
      obtain ⟨more, rfl⟩ := Nat.exists_eq_add_of_lt hle
      cases hhalted : m.state.halted with
      | true => simp [runCode, hhalted]
      | false =>
          simp only [runCode, hhalted, Bool.false_eq_true, if_false] at h ⊢
          generalize m.consult code = consulted at h ⊢
          rcases consulted with ⟨fault | answer, asked⟩
          · rfl
          · cases answer with
            | false => rfl
            | true =>
                simp only at h ⊢
                generalize asked.execute code = executed at h ⊢
                rcases executed with ⟨fault | op, next⟩
                · rfl
                · exact ih h (Nat.le_add_right fuel more)

theorem run_eq_runCode {m : Machine} {program : Program} {fuel : Nat}
    (hprogram : m.program = some program)
    (hempty : (m.runCode program.code fuel).1 = .halted →
      (m.runCode program.code fuel).2.state.stack = []) :
    m.run fuel = m.runCode program.code fuel := by
  simp only [run, hprogram]
  rcases hrun : m.runCode program.code fuel with ⟨ending, m'⟩
  rw [hrun] at hempty
  cases ending with
  | halted =>
      change (Ending.halted, m'.warnLeftOver) = _
      rw [warnLeftOver, if_pos (hempty rfl)]
  | stopped | failed | exhausted => rfl

section Unwatched

variable {code : Array Int} {m : Machine}

theorem runCode_succ {fuel : Nat} {op : Opcode} {s : State}
    (hwatcher : m.watcher = none) (hwrites : m.WritesAt code)
    (hrunning : m.state.halted = false)
    (hexecute : State.execute code m.state = .ok op s) :
    m.runCode code (fuel + 1) =
      runCode code fuel { m.logged code with state := s } := by
  rw [runCode, hrunning, if_neg (by simp), consult_of_watcher_none hwatcher]
  simp only [execute_of_ok hwrites hexecute]

/-- So many successive instructions of a machine that traces or not. -/
inductive Proceeds (code : Array Int) (traces : Bool) :
    Nat → State → State → Prop where
  | refl (s : State) : Proceeds code traces 0 s s
  | step {n : Nat} {op : Opcode} {s s' s'' : State} (running : s.halted = false)
      (writes : WritesAt { state := s, traces := traces } code)
      (first : State.execute code s = .ok op s')
      (others : Proceeds code traces n s' s'') :
      Proceeds code traces (n + 1) s s''

namespace Proceeds

variable {traces : Bool} {n : Nat} {s s' s'' : State}

theorem snoc {op : Opcode} (h : Proceeds code traces n s s')
    (hrunning : s'.halted = false)
    (hwrites : WritesAt { state := s', traces := traces } code)
    (hlast : State.execute code s' = .ok op s'') :
    Proceeds code traces (n + 1) s s'' := by
  induction h with
  | refl s => exact .step hrunning hwrites hlast (.refl s'')
  | step running writes first _ ih =>
      exact .step running writes first (ih hrunning hwrites hlast)

/-- What a machine that traces can do, any machine can. -/
theorem other {traces' : Bool} (h : Proceeds code traces n s s')
    (hwrites : traces' = true → traces = true ∨ Loggable code) :
    Proceeds code traces' n s s' := by
  induction h with
  | refl s => exact .refl s
  | step running writes first _ ih =>
      refine .step running (fun htraces n hdecode => ?_) first ih
      rcases hwrites htraces with hsame | hloggable
      · exact writes hsame n hdecode
      · exact hloggable _ n hdecode

end Proceeds

theorem proceeds_of_steps {n : Nat} {s s' : State}
    (h : State.Steps code n s s') :
    Proceeds code false n s s' := by
  induction h with
  | refl s => exact .refl s
  | step running first _ ih =>
      exact .step running (fun htraces => by cases htraces) first ih

theorem runCode_of_proceeds {n fuel : Nat} {s : State}
    (hwatcher : m.watcher = none)
    (hproceeds : Proceeds code m.traces n m.state s)
    (hhalted : s.halted = true) (hfuel : n ≤ fuel) :
    (m.runCode code fuel).1 = .halted ∧ (m.runCode code fuel).2.state = s := by
  generalize htraces : m.traces = traces at hproceeds
  generalize hstart : m.state = start at hproceeds
  induction hproceeds generalizing m fuel with
  | refl s =>
      subst hstart
      cases fuel with
      | zero => simp [runCode, hhalted]
      | succ fuel => simp [runCode, hhalted]
  | step running writes first others ih =>
      subst hstart htraces
      obtain ⟨fuel, rfl⟩ := Nat.exists_eq_add_of_lt hfuel
      rw [runCode_succ hwatcher writes running first]
      exact ih (by simp [hwatcher]) hhalted (by omega)
        (m.traces_logged code) rfl

theorem runCode_of_steps {n fuel : Nat} {s : State}
    (hwatcher : m.watcher = none) (hwrites : m.Writes code)
    (hsteps : State.Steps code n m.state s) (hhalted : s.halted = true)
    (hfuel : n ≤ fuel) :
    (m.runCode code fuel).1 = .halted ∧ (m.runCode code fuel).2.state = s := by
  have hproceeds := (proceeds_of_steps hsteps).other fun htraces =>
    .inr (hwrites htraces)
  exact runCode_of_proceeds hwatcher hproceeds hhalted hfuel

theorem runCode_succ_of_error {fuel : Nat} {fault : CodeFault} {s : State}
    (hwatcher : m.watcher = none) (hrunning : m.state.halted = false)
    (hexecute : State.execute code m.state = .error fault s) :
    m.runCode code (fuel + 1) =
      (.failed fault, { m.logged code with state := s }) := by
  rw [runCode, hrunning, if_neg (by simp), consult_of_watcher_none hwatcher]
  simp only [execute_of_error hexecute]

theorem watcher_runCode (hwatcher : m.watcher = none) (fuel : Nat) :
    (m.runCode code fuel).2.watcher = none := by
  induction fuel generalizing m with
  | zero => exact hwatcher
  | succ fuel ih =>
      rw [runCode, consult_of_watcher_none hwatcher]
      split
      · exact hwatcher
      · have hexecutes := m.executes code
        dsimp only
        generalize m.execute code = executed at hexecutes
        cases hexecutes with
        | executed => exact ih ((m.watcher_logged code).trans hwatcher)
        | failed => exact (m.watcher_logged code).trans hwatcher
        | tooLong => exact hwatcher

/-- A run that nobody watches fails, or goes through as many steps as it may, or
halts before. -/
theorem runCode_cases (hwatcher : m.watcher = none) (hwrites : m.Writes code)
    (fuel : Nat) :
    (∃ fault, (m.runCode code fuel).1 = .failed fault) ∨
    (m.runCode code fuel).1 = .exhausted ∨
      (m.runCode code fuel).1 = .halted ∧
        ∃ n, State.Steps code n m.state (m.runCode code fuel).2.state := by
  induction fuel generalizing m with
  | zero =>
      cases hhalted : m.state.halted with
      | true => exact .inr (.inr ⟨by simp [runCode, hhalted], 0, .refl m.state⟩)
      | false => exact .inr (.inl (by simp [runCode, hhalted]))
  | succ fuel ih =>
      cases hhalted : m.state.halted with
      | true =>
          have hrun : m.runCode code (fuel + 1) = (.halted, m) := by
            simp [runCode, hhalted]
          rw [hrun]
          exact .inr (.inr ⟨rfl, 0, .refl m.state⟩)
      | false =>
          cases hexecute : State.execute code m.state with
          | error fault s =>
              rw [runCode_succ_of_error hwatcher hhalted hexecute]
              exact .inl ⟨fault, rfl⟩
          | ok op s =>
              rw [runCode_succ hwatcher hwrites.writesAt hhalted hexecute]
              have hcases :=
                ih (m := { m.logged code with state := s }) (by simp [hwatcher])
                (hwrites.logged s)
              rcases hcases with hfailed | hexhausted | ⟨hhalts, n, hsteps⟩
              · exact .inl hfailed
              · exact .inr (.inl hexhausted)
              · exact .inr (.inr ⟨hhalts, n + 1, .step hhalted hexecute hsteps⟩)

end Unwatched

end Machine

end OnePass

import OnePass.Proofs.MachineRuns
import OnePass.Proofs.MachineUse

/-!
Watching, tracing and pausing change nothing but when a run ends. A watched run
takes the plain steps that the watcher permits, one after the other: the opcode
that the watcher is asked about is the one that is executed next, and where
there is none the step itself would fail in the same way. So a run that is cut
into pieces, of whatever kind, goes through the same states as one that is not.
-/

namespace OnePass

/-- What a number of plain steps come to: the instructions that were executed,
the fault of the step that failed if one did, and the machine afterwards. -/
structure Course where
  executed : List Call
  fault : Option CodeFault
  machine : Machine

/-- The answers of a watcher that is asked about one instruction after the
other. -/
def Watcher.answers (w : Watcher) : List Call → List Bool
  | [] => []
  | call :: calls =>
      w.permits w.calls call :: answers
        { w with calls := w.calls.push call } calls

namespace Machine

/-- So many steps, up to the first that fails. -/
def steps : Nat → Machine → Course
  | 0, m => ⟨[], none, m⟩
  | count + 1, m =>
      match m.step with
      | (.error fault, next) => ⟨[], some fault, next⟩
      | (.ok op, next) =>
          let others := steps count next
          { others with executed := ⟨m.state.pc, op⟩ :: others.executed }

theorem steps_of_error {m next : Machine} {fault : CodeFault}
    (h : m.step = (.error fault, next)) (count : Nat) :
    m.steps (count + 1) = ⟨[], some fault, next⟩ := by
  simp only [steps, h]

theorem steps_of_ok {m next : Machine} {op : Opcode}
    (h : m.step = (.ok op, next)) (count : Nat) :
    m.steps (count + 1) =
      { next.steps count with
        executed := ⟨m.state.pc, op⟩ :: (next.steps count).executed } := by
  simp only [steps, h]

/-- What a watcher is asked besides the executed instructions: nothing, or about
one more, which it refused or which failed. -/
inductive Asks (code : Array Int) (w : Watcher) (executed : List Call)
    (final : State) :
    Ending → List Call → Prop where
  | nothing {ending : Ending} (hending : ending ≠ .stopped) :
      Asks code w executed final ending executed
  | refused {last : Call} (hpc : last.pc = final.pc)
      (hopcode : Instruction.opcodeAt code last.pc = .ok last.opcode)
      (hanswer : w.permits (w.calls ++ executed.toArray) last = false) :
      Asks code w executed final .stopped (executed ++ [last])
  | failed {last : Call} {fault : CodeFault} (hpc : last.pc = final.pc)
      (hopcode : Instruction.opcodeAt code last.pc = .ok last.opcode)
      (hanswer : w.permits (w.calls ++ executed.toArray) last = true) :
      Asks code w executed final (.failed fault) (executed ++ [last])

/-- A run of a watched machine, seen beside plain steps from the same state. The
watcher was asked about `asked`, and it permitted so many instructions. -/
structure Accompanies (code : Array Int) (w : Watcher) (plain : Machine)
    (fuel : Nat) (result : Ending × Machine) (asked : List Call)
    (permitted : Nat) : Prop where
  watcher : result.2.watcher = some { w with calls := w.calls ++ asked.toArray }
  answers : (w.answers asked).count true = permitted
  /-- A run that does not fail leaves the state of so many steps. -/
  returns : (∀ fault, result.1 ≠ .failed fault) →
    (plain.steps permitted).fault = none ∧
      (plain.steps permitted).machine.state = result.2.state
  /-- A run that fails does so as a sequence of steps does that goes on. -/
  fails : ∀ fault, result.1 = .failed fault →
    (plain.steps (permitted + 1)).fault = some fault ∧
      (plain.steps (permitted + 1)).machine.state = result.2.state
  /-- What was executed was permitted, each time by the answer to that call. -/
  granted : ∀ earlier call later,
    (plain.steps permitted).executed = earlier ++ call :: later →
      w.permits (w.calls ++ earlier.toArray) call = true
  calls : Asks code w (plain.steps permitted).executed result.2.state
    result.1 asked
  exhausted : result.1 = .exhausted → permitted = fuel
  halted : result.1 = .halted → result.2.state.halted = true

section Watched

variable {code : Array Int} {m plain : Machine} {w : Watcher} {fuel : Nat}

theorem accompanies_nil {ending : Ending} (hwatcher : m.watcher = some w)
    (hstate : plain.state = m.state) (hstopped : ending ≠ .stopped)
    (hfailed : ∀ fault, ending ≠ .failed fault)
    (hexhausted : ending = .exhausted → fuel = 0)
    (hhalted : ending = .halted → m.state.halted = true) :
    Accompanies code w plain fuel (ending, m) [] 0 where
  watcher := by simp [hwatcher]
  answers := rfl
  returns := fun _ => ⟨rfl, hstate⟩
  fails := fun fault h => absurd h (hfailed fault)
  granted := fun earlier call later h => by simp [steps] at h
  calls := .nothing hstopped
  exhausted := fun h => (hexhausted h).symm
  halted := hhalted

/-- Where no opcode can be read the watcher is not asked, and a step fails in
the same way. -/
theorem accompanies_unread {fault : CodeFault} {next : Machine}
    (hwatcher : m.watcher = some w) (hstep : plain.step = (.error fault, next))
    (hstate : next.state = m.state) :
    Accompanies code w plain fuel (.failed fault, m) [] 0 where
  watcher := by simp [hwatcher]
  answers := rfl
  returns := fun h => absurd rfl (h fault)
  fails := fun fault' h => by
    cases h
    rw [steps_of_error hstep]
    exact ⟨rfl, hstate⟩
  granted := fun earlier call later h => by simp [steps] at h
  calls := .nothing (by simp)
  exhausted := fun h => by cases h
  halted := fun h => by cases h

theorem accompanies_refused {call : Call}
    (hwatcher : m.watcher = some { w with calls := w.calls.push call })
    (hpc : call.pc = m.state.pc)
    (hopcode : Instruction.opcodeAt code call.pc = .ok call.opcode)
    (hanswer : w.permits w.calls call = false)
    (hstate : plain.state = m.state) :
    Accompanies code w plain fuel (.stopped, m) [call] 0 where
  watcher := by simp [hwatcher]
  answers := by simp [Watcher.answers, hanswer]
  returns := fun _ => ⟨rfl, hstate⟩
  fails := fun fault h => by cases h
  granted := fun earlier call later h => by simp [steps] at h
  calls := by
    change Asks code w [] m.state .stopped ([] ++ [call])
    apply Asks.refused hpc hopcode
    simpa using hanswer
  exhausted := fun h => by cases h
  halted := fun h => by cases h

theorem accompanies_failed {call : Call} {fault : CodeFault} {next : Machine}
    (hwatcher : m.watcher = some { w with calls := w.calls.push call })
    (hpc : call.pc = m.state.pc)
    (hopcode : Instruction.opcodeAt code call.pc = .ok call.opcode)
    (hanswer : w.permits w.calls call = true)
    (hstep : plain.step = (.error fault, next))
    (hstate : next.state = m.state) :
    Accompanies code w plain fuel (.failed fault, m) [call] 1 where
  watcher := by simp [hwatcher]
  answers := by simp [Watcher.answers, hanswer]
  returns := fun h => absurd rfl (h fault)
  fails := fun fault' h => by
    cases h
    rw [steps_of_error hstep]
    exact ⟨rfl, hstate⟩
  granted := fun earlier call later h => by simp [steps_of_error hstep] at h
  calls := by
    rw [steps_of_error hstep]
    change Asks code w [] m.state (.failed fault) ([] ++ [call])
    apply Asks.failed hpc hopcode
    simpa using hanswer
  exhausted := fun h => by cases h
  halted := fun h => by cases h

theorem Asks.cons {call : Call} {executed asked : List Call} {final : State}
    {ending : Ending}
    (h : Asks code { w with calls := w.calls.push call } executed final
      ending asked) :
    Asks code w (call :: executed) final ending (call :: asked) := by
  cases h with
  | nothing hending => exact .nothing hending
  | refused hpc hopcode hanswer =>
      rw [← List.cons_append]
      apply Asks.refused hpc hopcode
      simpa using hanswer
  | failed hpc hopcode hanswer =>
      rw [← List.cons_append]
      apply Asks.failed hpc hopcode
      simpa using hanswer

theorem Accompanies.cons {next : Machine} {op : Opcode} {call : Call}
    {result : Ending × Machine} {asked : List Call} {permitted : Nat}
    (hanswer : w.permits w.calls call = true)
    (hstep : plain.step = (.ok op, next))
    (hcall : call = ⟨plain.state.pc, op⟩)
    (h : Accompanies code { w with calls := w.calls.push call } next fuel result
      asked permitted) :
    Accompanies code w plain (fuel + 1) result (call :: asked)
      (permitted + 1) where
  watcher := by simp [h.watcher]
  answers := by simp [Watcher.answers, hanswer, h.answers]
  returns := fun hreturns => by
    rw [steps_of_ok hstep]
    exact h.returns hreturns
  fails := fun fault hfault => by
    rw [steps_of_ok hstep]
    exact h.fails fault hfault
  granted := fun earlier other later hexecuted => by
    rw [steps_of_ok hstep, ← hcall] at hexecuted
    cases earlier with
    | nil =>
        obtain ⟨rfl, -⟩ := List.cons.inj hexecuted
        simpa using hanswer
    | cons first earlier =>
        obtain ⟨rfl, hothers⟩ := List.cons.inj hexecuted
        simpa using h.granted earlier other later hothers
  calls := by
    rw [steps_of_ok hstep, ← hcall]
    exact h.calls.cons
  exhausted := fun hexhausted => congrArg (· + 1) (h.exhausted hexhausted)
  halted := h.halted

theorem consult_of_watcher {op : Opcode} (hwatcher : m.watcher = some w)
    (hopcode : Instruction.opcodeAt code m.state.pc = .ok op) :
    ∃ asked, m.consult code =
      (.ok (w.permits w.calls ⟨m.state.pc, op⟩), asked) ∧
      asked.state = m.state ∧ asked.traces = m.traces ∧
      asked.watcher = some { w with calls := w.calls.push ⟨m.state.pc, op⟩ } := by
  simp only [consult, hwatcher, hopcode]
  exact ⟨_, rfl, rfl, rfl, rfl⟩

theorem consult_of_watcher_error {flaw : Flaw} (hwatcher : m.watcher = some w)
    (hopcode : Instruction.opcodeAt code m.state.pc = .error flaw) :
    m.consult code = (.error ⟨flaw, some m.state.pc⟩, m) := by
  simp only [consult, hwatcher, hopcode]

/-- Two machines write out the same constants: both trace or neither does, or
the code has only such that can be written out. -/
def LogsLike (plain m : Machine) (code : Array Int) : Prop :=
  plain.traces = m.traces ∨ Loggable code

theorem LogsLike.writesAt (h : plain.LogsLike m code)
    (hstate : plain.state = m.state) (hwrites : m.WritesAt code) :
    plain.WritesAt code := by
  intro htraces n hdecode
  rcases h with hsame | hloggable
  · rw [hsame] at htraces
    rw [hstate] at hdecode
    exact hwrites htraces n hdecode
  · exact hloggable _ n hdecode

/-- From the same state the same happens, and the machines go on alike. -/
theorem LogsLike.execute (h : plain.LogsLike m code)
    (hstate : plain.state = m.state) :
    ∃ next, plain.execute code = ((m.execute code).1, next) ∧
      next.state = (m.execute code).2.state ∧ next.program = plain.program ∧
      next.LogsLike (m.execute code).2 code := by
  have hexecutes := m.executes code
  generalize m.execute code = result at hexecutes ⊢
  cases hexecutes with
  | executed hwrites hresult =>
      rw [← hstate] at hresult
      rw [execute_of_ok (h.writesAt hstate hwrites) hresult]
      exact ⟨_, rfl, rfl,
        plain.program_logged code, by simpa [LogsLike] using h⟩
  | failed hresult =>
      rw [← hstate] at hresult
      rw [execute_of_error hresult]
      exact ⟨_, rfl, rfl,
        plain.program_logged code, by simpa [LogsLike] using h⟩
  | tooLong htraces hdecode hlong =>
      rw [← hstate] at hdecode ⊢
      rcases h with hsame | hloggable
      · rw [execute_of_long (hsame.trans htraces) hdecode hlong]
        exact ⟨plain, rfl, rfl, rfl, .inl hsame⟩
      · rw [hloggable _ _ hdecode] at hlong
        cases hlong

theorem watcher_execute (m : Machine) (code : Array Int) :
    (m.execute code).2.watcher = m.watcher := by
  obtain ⟨s, log, hframe⟩ := m.execute_frame code
  rw [hframe]

theorem pc_of_execute_error {fault : CodeFault} {next : Machine}
    (h : m.execute code = (.error fault, next)) :
    next.state.pc = m.state.pc := by
  have hexecutes := m.executes code
  rw [h] at hexecutes
  cases hexecutes with
  | failed hresult => exact State.pc_of_execute_error hresult
  | tooLong => rfl

theorem opcodeAt_of_execute_ok {op : Opcode} {next : Machine}
    (h : m.execute code = (.ok op, next)) :
    Instruction.opcodeAt code m.state.pc = .ok op := by
  have hexecutes := m.executes code
  rw [h] at hexecutes
  cases hexecutes with
  | executed hwrites hresult => exact State.opcodeAt_of_execute_ok hresult

theorem exists_accompanies {program : Program}
    (hprogram : plain.program = some program) (hwatcher : m.watcher = some w)
    (hstate : plain.state = m.state) (hlogs : plain.LogsLike m program.code)
    (fuel : Nat) :
    ∃ asked permitted,
      Accompanies program.code w plain fuel (m.runCode program.code fuel) asked
        permitted := by
  induction fuel generalizing m plain w with
  | zero =>
      rw [runCode]
      refine ⟨[], 0, accompanies_nil hwatcher hstate ?_ ?_ (fun _ => rfl) ?_⟩
      · split <;> simp
      · split <;> simp
      · split
        · rename_i hhalted
          exact fun _ => hhalted
        · simp
  | succ fuel ih =>
      rw [runCode]
      cases hhalted : m.state.halted with
      | true =>
          refine ⟨[], 0, accompanies_nil hwatcher hstate ?_ ?_ ?_
            (fun _ => hhalted)⟩
          · simp
          · simp
          · simp
      | false =>
          simp only [Bool.false_eq_true, if_false]
          have hstep : plain.step = plain.execute program.code :=
            step_of_running hprogram (by rw [hstate, hhalted])
          cases hopcode : Instruction.opcodeAt program.code m.state.pc with
          | error flaw =>
              rw [← hstate] at hopcode
              rw [execute_of_error (State.execute_of_opcodeAt_error hopcode)]
                at hstep
              rw [hstate] at hopcode hstep
              rw [consult_of_watcher_error hwatcher hopcode]
              exact ⟨_, _, accompanies_unread hwatcher hstep rfl⟩
          | ok op =>
              obtain ⟨asking, hconsult, hsame, htraces, hasked⟩ :=
                consult_of_watcher hwatcher hopcode
              have hlogs' : plain.LogsLike asking program.code := by
                rw [LogsLike, htraces]
                exact hlogs
              rw [hconsult]
              rw [← hsame] at hopcode hstate hasked ⊢
              cases hanswer : w.permits w.calls ⟨asking.state.pc, op⟩ with
              | false =>
                  exact ⟨_, _, accompanies_refused hasked rfl hopcode
                    hanswer hstate⟩
              | true =>
                  obtain ⟨next', hplain, hnext, hprogram', hlogs''⟩ :=
                    hlogs'.execute hstate
                  have hwatched :=
                    (asking.watcher_execute program.code).trans hasked
                  rw [hplain] at hstep
                  simp only
                  rcases hexecute :
                    asking.execute program.code with ⟨fault | op', next⟩
                  · rw [hexecute] at hstep hnext hwatched
                    exact ⟨_, _, accompanies_failed hwatched
                      (pc_of_execute_error hexecute).symm hopcode hanswer
                      hstep hnext⟩
                  · have hexecuted := opcodeAt_of_execute_ok hexecute
                    rw [hopcode] at hexecuted
                    cases hexecuted
                    rw [hexecute] at hstep hnext hwatched hlogs''
                    obtain ⟨calls, permitted, hothers⟩ :=
                      ih (hprogram'.trans hprogram) hwatched hnext hlogs''
                    exact ⟨_, _, hothers.cons hanswer hstep (by rw [hstate])⟩

end Watched

/-- The operations that go on with the program that is loaded. -/
def Operation.Continues : Operation → Prop
  | .run none _ => True
  | .step => True
  | .watch _ => True
  | .run (some _) _ => False
  | .load _ => False
  | .setVariables _ => False

/-- No machine that traces or not as given gets away from the state. -/
def Stuck (code : Array Int) (traces : Bool) (s : State) : Prop :=
  s.halted = false ∧ ∀ m : Machine, m.state = s → m.traces = traces →
    ∃ fault next, m.execute code = (.error fault, next)

/-- From one state the machine has come to the other: along instructions that
succeeded, unless it is stuck. -/
def ComesTo (code : Array Int) (traces : Bool) (s s' : State) : Prop :=
  (∃ n, Proceeds code traces n s s') ∨ Stuck code traces s'

section Pieces

variable {code : Array Int} {m : Machine} {start : State}

theorem stuck_execute {fault : CodeFault} {next : Machine}
    (hrunning : m.state.halted = false)
    (h : m.execute code = (.error fault, next)) :
    Stuck code m.traces next.state := by
  have hexecutes := m.executes code
  rw [h] at hexecutes
  cases hexecutes with
  | failed hresult =>
      obtain ⟨hhalted, fault', stuck, hagain⟩ :=
        State.execute_of_execute_error hresult
      refine ⟨hhalted.trans hrunning, ?_⟩
      intro other hother _
      have hfails : State.execute code other.state = .error fault' stuck := by
        rw [hother]
        exact hagain
      exact ⟨_, _, execute_of_error hfails⟩
  | tooLong htraces hdecode hlong =>
      refine ⟨hrunning, ?_⟩
      intro other hother hsame
      rw [← hother] at hdecode
      exact ⟨_, _, execute_of_long (hsame.trans htraces) hdecode hlong⟩

theorem ComesTo.execute (h : ComesTo code m.traces start m.state)
    (hrunning : m.state.halted = false) :
    ComesTo code m.traces start (m.execute code).2.state := by
  rcases hresult : m.execute code with ⟨fault | op, next⟩
  · exact .inr (stuck_execute hrunning hresult)
  · have hexecutes := m.executes code
    rw [hresult] at hexecutes
    cases hexecutes with
    | executed hwrites hexecute =>
        rcases h with ⟨n, hproceeds⟩ | ⟨-, hstuck⟩
        · exact .inl ⟨n + 1, hproceeds.snoc hrunning hwrites hexecute⟩
        · obtain ⟨fault, stuck, hfails⟩ := hstuck m rfl rfl
          rw [hresult] at hfails
          cases hfails

variable {program : Program}

theorem has_ask {traces : Bool} {operation : Operation}
    (h : m.Has program traces (ComesTo program.code traces start))
    (hcontinues : operation.Continues) :
    (m.ask operation).2.Has program traces
      (ComesTo program.code traces start) := by
  have hexecute : ∀ m : Machine, m.traces = traces → m.state.halted = false →
      ComesTo program.code traces start m.state →
        ComesTo program.code traces start (m.execute program.code).2.state := by
    rintro m rfl hrunning hm
    exact hm.execute hrunning
  cases operation with
  | run other fuel =>
      cases other with
      | none => exact h.run hexecute fuel
      | some other => exact hcontinues.elim
  | step =>
      have hstep := h.step hexecute
      rw [Machine.ask]
      generalize m.step = result at hstep ⊢
      rcases result with ⟨fault | op, next⟩
      · exact hstep
      · exact hstep
  | watch watcher => exact ⟨h.program, h.traces, h.state⟩
  | load other | setVariables values => exact hcontinues.elim

theorem has_after {traces : Bool} {operations : List Operation}
    (h : m.Has program traces (ComesTo program.code traces start))
    (hcontinues : ∀ operation ∈ operations, operation.Continues) :
    (m.after operations).Has program traces
      (ComesTo program.code traces start) := by
  induction operations generalizing m with
  | nil => exact h
  | cons operation operations ih =>
      rw [List.forall_mem_cons] at hcontinues
      exact ih (has_ask h hcontinues.1) hcontinues.2

/-- A machine that has halted after all was never stuck. -/
theorem exists_proceeds_of_after {operations : List Operation}
    (hprogram : m.program = some program)
    (hcontinues : ∀ operation ∈ operations, operation.Continues)
    (hhalted : (m.after operations).state.halted = true) :
    ∃ n, Proceeds program.code m.traces n m.state
      (m.after operations).state := by
  have hafter := has_after ⟨hprogram, rfl, .inl ⟨0, .refl m.state⟩⟩ hcontinues
  rcases hafter.state with hproceeds | ⟨hrunning, -⟩
  · exact hproceeds
  · rw [hrunning] at hhalted
    cases hhalted

/-- A machine that nobody watches halts if there is enough time, and always in
the given state. -/
structure HaltsAt (m : Machine) (final : State) : Prop where
  halts : ∃ fuel, (m.run fuel).1 = .halted
  final : ∀ fuel, (m.run fuel).1 = .halted → (m.run fuel).2.state = final

theorem haltsAt_of_proceeds {final : State} {n : Nat}
    (hprogram : m.program = some program) (hwatcher : m.watcher = none)
    (hproceeds : Proceeds program.code m.traces n m.state final)
    (hhalted : final.halted = true) : m.HaltsAt final := by
  constructor
  case halts =>
    refine ⟨n, ?_⟩
    rw [fst_run hprogram]
    exact (runCode_of_proceeds hwatcher hproceeds hhalted (Nat.le_refl n)).1
  case final =>
    intro fuel hfuel
    rw [fst_run hprogram] at hfuel
    -- With more time the run is the same, and then there is time for all steps.
    have hmore := runCode_of_halted hfuel (Nat.le_max_left fuel n)
    rw [state_run hprogram, ← hmore]
    exact (runCode_of_proceeds hwatcher hproceeds hhalted
      (Nat.le_max_right fuel n)).2

end Pieces

theorem run_of_halted {m : Machine} {program : Program}
    (hprogram : m.program = some program) (hhalted : m.state.halted = true)
    (fuel : Nat) : m.run fuel = (.halted, m.warnLeftOver) := by
  simp only [run, hprogram]
  cases fuel with
  | zero => simp only [runCode, hhalted, if_true]
  | succ fuel => simp only [runCode, hhalted, if_true]

theorem watcher_warnLeftOver (m : Machine) :
    m.warnLeftOver.watcher = m.watcher := by
  unfold warnLeftOver
  split <;> rfl

theorem watcher_run {m : Machine} {program : Program}
    (hprogram : m.program = some program) (fuel : Nat) :
    (m.run fuel).2.watcher = (m.runCode program.code fuel).2.watcher := by
  simp only [run, hprogram]
  rcases m.runCode program.code fuel with ⟨ending, m'⟩
  cases ending with
  | halted => exact watcher_warnLeftOver m'
  | stopped | failed | exhausted => rfl

theorem Accompanies.run {m plain : Machine} {program : Program} {w : Watcher}
    {fuel : Nat} {asked : List Call} {permitted : Nat}
    (hprogram : m.program = some program)
    (h : Accompanies program.code w plain fuel
      (m.runCode program.code fuel) asked permitted) :
    Accompanies program.code w plain fuel (m.run fuel) asked permitted := by
  have hending := fst_run hprogram fuel
  have hstate := state_run hprogram fuel
  have hwatcher := watcher_run hprogram fuel
  constructor
  case watcher => exact hwatcher.trans h.watcher
  case answers => exact h.answers
  case returns => rw [hending, hstate]; exact h.returns
  case fails => rw [hending, hstate]; exact h.fails
  case granted => exact h.granted
  case calls => rw [hending, hstate]; exact h.calls
  case exhausted => rw [hending]; exact h.exhausted
  case halted => rw [hending, hstate]; exact h.halted

/-- In front of a constant that is too long for the log a machine that traces
stands still, with a fault that cannot be reported, while another goes on. -/
theorem step_of_long {m plain : Machine} {program : Program} {n : Int}
    (hprogram : m.program = some program) (htraces : m.traces = true)
    (hplain : plain.program = some program) (hquiet : plain.traces = false)
    (hstate : plain.state = m.state) (hrunning : m.state.halted = false)
    (hdecode : Instruction.decodeAt program.code m.state.pc = .ok (.push n))
    (hlong : isShown program.code.size n = false) :
    m.step = (.error ⟨.operandTooLong, some m.state.pc⟩, m) ∧
      (∀ text, CodeFault.render ⟨.operandTooLong, some m.state.pc⟩ ≠ .ok text) ∧
      ∃ next, plain.step = (.ok .push, next) := by
  refine ⟨?_, ?_, ?_⟩
  · rw [step_of_running hprogram hrunning]
    exact execute_of_long htraces hdecode hlong
  · intro text h
    have hrender := (CodeFault.exists_render_iff _).mp ⟨text, h⟩
    exact hrender.1 rfl
  · rw [← hstate] at hrunning hdecode
    rw [step_of_running hplain hrunning]
    have hexecute := State.execute_of_performs hdecode (.push n plain.state)
    refine ⟨_, execute_of_ok ?_ hexecute⟩
    intro h
    rw [hquiet] at h
    cases h

/-- Observing and pausing do not change what a program does. A watched run takes
the steps that the watcher permits and fails as they do; pieces of a run that
reach a halt reach the halt of the whole run; and a machine that has halted
stays as it is. A trace makes no difference either, unless a constant is too
long to be written out. -/
theorem interruptions_transparent {m : Machine} {program : Program}
    (hprogram : m.program = some program) :
    (∀ (w : Watcher) (plain : Machine) (fuel : Nat), m.watcher = some w →
      plain.program = some program → plain.state = m.state →
      plain.LogsLike m program.code →
        ∃ asked permitted,
          Accompanies program.code w plain fuel (m.run fuel) asked permitted) ∧
    (∀ (operations : List Operation) (plain : Machine),
      (∀ operation ∈ operations, operation.Continues) →
      (m.after operations).state.halted = true →
      plain.program = some program → plain.state = m.state →
      plain.watcher = none →
      (plain.traces = true → m.traces = true ∨ Loggable program.code) →
        plain.HaltsAt (m.after operations).state) ∧
    (m.state.halted = true →
      (∀ fuel, (m.run fuel).1 = .halted ∧ (m.run fuel).2.state = m.state ∧
        (m.run fuel).2.watcher = m.watcher) ∧
      m.step = (.error ⟨.alreadyHalted, some m.state.pc⟩, m)) ∧
    (∀ (plain : Machine) (n : Int), m.traces = true →
      plain.program = some program → plain.traces = false →
      plain.state = m.state →
      m.state.halted = false →
      Instruction.decodeAt program.code m.state.pc = .ok (.push n) →
      isShown program.code.size n = false →
        m.step = (.error ⟨.operandTooLong, some m.state.pc⟩, m) ∧
          (∀ text, CodeFault.render ⟨.operandTooLong, some m.state.pc⟩ ≠
            .ok text) ∧
          ∃ next, plain.step = (.ok .push, next)) := by
  refine ⟨?_, ?_, ?_, fun plain n => step_of_long hprogram⟩
  · intro w plain fuel hwatcher hplain hstate hlogs
    obtain ⟨asked, permitted, haccompanies⟩ :=
      exists_accompanies hplain hwatcher hstate hlogs fuel
    exact ⟨asked, permitted, haccompanies.run hprogram⟩
  · intro operations plain hcontinues hhalted hplain hstate hwatcher hwrites
    obtain ⟨n, hproceeds⟩ :=
      exists_proceeds_of_after hprogram hcontinues hhalted
    rw [← hstate] at hproceeds
    exact haltsAt_of_proceeds hplain hwatcher (hproceeds.other hwrites) hhalted
  · intro hhalted
    constructor
    · intro fuel
      rw [run_of_halted hprogram hhalted fuel]
      exact ⟨rfl, state_warnLeftOver m, watcher_warnLeftOver m⟩
    · rw [step, hprogram]
      simp only [hhalted, if_true]

/-- Counts the first variable down to zero. -/
def countdown : Program where
  code := #[0, 0, 7, 14, 0, 0, 2, 1, 5, 1, 0, 3, 9, 0, 10]

/-- A machine in front of the countdown from two. -/
def counting (traces : Bool) (watcher : Option Watcher) : Machine where
  state := { table := Vector.replicate 26 2 }
  program := some countdown
  traces := traces
  watcher := watcher

/-- A run that is stopped twice, with a step in between, and a step after the
halt. -/
def inPieces : List Operation :=
  [.run none 9, .step, .watch (some (.stopBefore .sub)), .run none 9,
    .watch none, .run none 30, .step]

theorem loggable_countdown : Loggable countdown.code := by
  apply loggable_of_words
  decide

theorem interruptions_transparent_countdown :
    (∃ asked permitted,
      Accompanies countdown.code (.limit 3) (counting false none) 9
        ((counting true (some (.limit 3))).run 9) asked permitted) ∧
      ((counting true (some (.limit 3))).after inPieces).state.halted = true ∧
      (counting false none).HaltsAt
        ((counting true (some (.limit 3))).after inPieces).state := by
  have htransparent :=
    interruptions_transparent (m := counting true (some (.limit 3))) rfl
  have hhalted :
      ((counting true (some (.limit 3))).after inPieces).state.halted =
        true := by
    decide +kernel
  have hcontinues : ∀ operation ∈ inPieces, operation.Continues := by
    simp [inPieces, Operation.Continues]
  refine ⟨htransparent.1 _ _ 9 rfl rfl rfl (.inr loggable_countdown),
    hhalted, ?_⟩
  exact htransparent.2.1 inPieces _ hcontinues hhalted rfl rfl rfl
    fun _ => .inl rfl

/-- A machine in front of a constant that it is to push. -/
def pushing (n : Int) (traces : Bool) : Machine where
  program := some { code := #[2, n, 10] }
  traces := traces

/-- A trace can keep a program from its halt. -/
theorem long_constant_stops_trace :
    ((pushing Text.leastLong false).run 2).1 = .halted ∧
      (pushing Text.leastLong true).run 2 =
        (.failed ⟨.operandTooLong, some 0⟩, pushing Text.leastLong true) ∧
      ∀ text, CodeFault.render ⟨.operandTooLong, some 0⟩ ≠ .ok text := by
  have hexecute :
      (pushing Text.leastLong true).execute #[2, Text.leastLong, 10] =
        (.error ⟨.operandTooLong, some 0⟩, pushing Text.leastLong true) :=
    execute_of_long rfl rfl (isShown_leastLong (by decide))
  have hrun : (pushing Text.leastLong true).runCode #[2, Text.leastLong, 10] 2 =
      (.failed ⟨.operandTooLong, some 0⟩, pushing Text.leastLong true) := by
    rw [runCode, consult_of_watcher_none rfl]
    simp only [hexecute]
    rfl
  refine ⟨rfl, ?_, fun text htext => ?_⟩
  · simp only [run, pushing] at hrun ⊢
    rw [hrun]
  · exact ((CodeFault.exists_render_iff _).mp ⟨text, htext⟩).1 rfl

end Machine

end OnePass

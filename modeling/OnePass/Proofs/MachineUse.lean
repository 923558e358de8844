import OnePass.Proofs.StepResults

/-!
A machine in any use. Whatever programs it is given, and whether what it is
asked for succeeds or fails, its variables and the values on its stack stay
words, and its program counter stays inside the program or right behind it.
Values from outside enter through `wrap` only, be they constants of a program or
a new table; what instructions compute is wrapped or is a word anyway; and no
instruction leaves the code, since it ends inside and its address was checked.
-/

namespace OnePass

open Word (InRange)

namespace Table

theorem value_assign (table : Table) (v u : Variable) (n : Int) :
    (table.assign v n).value u = if u = v then n else table.value u := by
  change (table.set v.val n v.isLt)[u.val] = if u = v then n else table[u.val]
  rw [Vector.getElem_set]
  simp only [Fin.ext_iff, eq_comm]

theorem value_mem_toList (table : Table) (v : Variable) :
    table.value v ∈ table.toList := by
  change table[v.val] ∈ table.toList
  simp

theorem inRange_value_zero (v : Variable) : InRange (zero.value v) := by
  change InRange ((Vector.replicate 26 (0 : Int))[v.val])
  rw [Vector.getElem_replicate]
  decide

theorem toList_of_ofValues {values : List Int} {table : Table}
    (h : ofValues values = .ok table) :
    table.toList = values.map Word.wrap := by
  simp only [ofValues] at h
  split at h
  · cases h
    simp
  · cases h

theorem inRange_value_of_ofValues {values : List Int} {table : Table}
    (h : ofValues values = .ok table) (v : Variable) :
    InRange (table.value v) := by
  have hmem := table.value_mem_toList v
  rw [toList_of_ofValues h] at hmem
  obtain ⟨n, -, hn⟩ := List.mem_map.mp hmem
  rw [← hn]
  exact Word.wrap_inRange n

theorem ofValues_of_length_ne {values : List Int} (h : values.length ≠ 26) :
    ofValues values = .error ⟨values.length⟩ := by
  simp only [ofValues]
  rw [dif_neg]
  simpa using h

theorem exists_ofValues {values : List Int} (h : values.length = 26) :
    ∃ table, ofValues values = .ok table := by
  have hsize : (values.map Word.wrap).toArray.size = 26 := by simpa using h
  exact ⟨_, dif_pos hsize⟩

end Table

namespace State

/-- All values are words, and the program counter lies inside code of the given
size or right behind. -/
structure Within (size : Nat) (s : State) : Prop where
  table : ∀ v, InRange (s.table.value v)
  stack : ∀ n ∈ s.stack, InRange n
  counter : s.pc ≤ size

variable {code : Array Int} {s s' : State}

theorem Performs.counter_le {i : Instruction}
    (hdecode : Instruction.decodeAt code s.pc = .ok i)
    (hperforms : Performs i s s') (h : s.pc ≤ code.size) :
    s'.pc ≤ code.size := by
  have hstands := Instruction.standsAt_of_decodeAt hdecode
  by_cases hhalt : i = .halt
  · subst hhalt
    cases hperforms
    exact h
  · obtain ⟨-, hbehind | ⟨target, htarget, hthere⟩⟩ := hperforms.counter hhalt
    · rw [hbehind]
      exact hstands.behind_le
    · rw [hthere]
      exact Nat.le_of_lt (hstands.target target htarget)

theorem Performs.within {i : Instruction}
    (hdecode : Instruction.decodeAt code s.pc = .ok i)
    (hperforms : Performs i s s') (h : s.Within code.size) :
    s'.Within code.size := by
  have hcounter := hperforms.counter_le hdecode h.counter
  have hstack := h.stack
  cases hperforms with
  | fetch v =>
      exact ⟨h.table, List.forall_mem_cons.mpr ⟨h.table v, hstack⟩, hcounter⟩
  | @store v _ top rest hvalues =>
      rw [hvalues, List.forall_mem_cons] at hstack
      refine ⟨fun u => ?_, h.stack, hcounter⟩
      rw [Table.value_assign]
      split
      · exact hstack.1
      · exact h.table u
  | push n =>
      exact ⟨h.table, List.forall_mem_cons.mpr ⟨Word.wrap_inRange n, hstack⟩,
        hcounter⟩
  | pop hvalues | jz _ hvalues | jnz _ hvalues =>
      rw [hvalues, List.forall_mem_cons] at hstack
      exact ⟨h.table, hstack.2, hcounter⟩
  | add hvalues | sub hvalues =>
      rw [hvalues, List.forall_mem_cons, List.forall_mem_cons] at hstack
      exact ⟨h.table, List.forall_mem_cons.mpr ⟨Word.wrap_inRange _,
        hstack.2.2⟩, hcounter⟩
  | @lt _ left right rest hvalues =>
      rw [hvalues, List.forall_mem_cons, List.forall_mem_cons] at hstack
      have htruth : InRange (if left < right then 1 else 0) := by
        split <;> decide
      exact ⟨h.table, List.forall_mem_cons.mpr ⟨htruth, hstack.2.2⟩, hcounter⟩
  | jmp | halt => exact ⟨h.table, hstack, hcounter⟩

end State

namespace Machine

open OnePass.State (Within)

variable {m : Machine} {code : Array Int}

theorem within_execute (h : m.state.Within code.size) :
    (m.execute code).2.state.Within code.size := by
  have hexecutes := m.executes code
  generalize m.execute code = result at hexecutes
  cases hexecutes with
  | @executed op s hwrites hresult =>
      have hnext := State.executes code m.state
      rw [hresult] at hnext
      cases hnext with
      | performed hdecode hperforms =>
          have hwithin := hperforms.within hdecode h
          exact ⟨hwithin.table, hwithin.stack, hwithin.counter⟩
  | @failed fault s hresult =>
      have hnext := State.executes code m.state
      rw [hresult] at hnext
      cases hnext with
      | flawed => exact h
      | short =>
          -- What was taken before the failure is gone, and the rest was in
          -- range already.
          exact ⟨h.table, fun n hn => (by cases hn), h.counter⟩
  | tooLong => exact h

theorem state_consult (m : Machine) (code : Array Int) :
    (m.consult code).2.state = m.state := by
  unfold consult
  split
  · rfl
  · split <;> rfl

theorem state_warnLeftOver (m : Machine) : m.warnLeftOver.state = m.state := by
  unfold warnLeftOver
  split <;> rfl

theorem state_run {program : Program} (hprogram : m.program = some program)
    (fuel : Nat) :
    (m.run fuel).2.state = (m.runCode program.code fuel).2.state := by
  simp only [run, hprogram]
  rcases m.runCode program.code fuel with ⟨ending, m'⟩
  cases ending with
  | halted => exact state_warnLeftOver m'
  | stopped | failed | exhausted => rfl

/-- A machine with the given program, which traces or not, and with a property
of its state. -/
structure Has (program : Program) (traces : Bool) (Q : State → Prop)
    (m : Machine) : Prop where
  program : m.program = some program
  traces : m.traces = traces
  state : Q m.state

namespace Has

variable {program : Program} {traces : Bool} {Q : State → Prop}

theorem consult (h : m.Has program traces Q) (code : Array Int) :
    (m.consult code).2.Has program traces Q := by
  unfold Machine.consult
  split
  · exact h
  · split
    · exact h
    · exact ⟨h.program, h.traces, h.state⟩

theorem warnLeftOver (h : m.Has program traces Q) :
    m.warnLeftOver.Has program traces Q := by
  unfold Machine.warnLeftOver
  split
  · exact h
  · exact ⟨h.program, h.traces, h.state⟩

section

-- Every instruction of a machine that has not halted keeps the property.
variable (hexecute : ∀ m : Machine, m.traces = traces →
  m.state.halted = false → Q m.state → Q (m.execute program.code).2.state)
include hexecute

theorem execute (h : m.Has program traces Q)
    (hrunning : m.state.halted = false) :
    (m.execute program.code).2.Has program traces Q := by
  have hstate := hexecute m h.traces hrunning h.state
  obtain ⟨s, log, hframe⟩ := m.execute_frame program.code
  rw [hframe] at hstate ⊢
  exact ⟨h.program, h.traces, hstate⟩

theorem step (h : m.Has program traces Q) : m.step.2.Has program traces Q := by
  cases hhalted : m.state.halted with
  | true =>
      rw [Machine.step, h.program]
      simp only [hhalted, if_true]
      exact h
  | false =>
      rw [step_of_running h.program hhalted]
      exact h.execute hexecute hhalted

theorem runCode (h : m.Has program traces Q) (fuel : Nat) :
    (m.runCode program.code fuel).2.Has program traces Q := by
  induction fuel generalizing m with
  | zero => exact h
  | succ fuel ih =>
      rw [Machine.runCode]
      split
      · exact h
      · rename_i hrunning
        have hasked := h.consult program.code
        have hstate := m.state_consult program.code
        generalize m.consult program.code = consulted at hasked hstate ⊢
        rcases consulted with ⟨fault | answer, asked⟩
        · exact hasked
        · cases answer with
          | false => exact hasked
          | true =>
              have hrunning' : asked.state.halted = false := by
                rw [show asked.state = m.state from hstate]
                simpa using hrunning
              have hnext := hasked.execute hexecute hrunning'
              simp only
              generalize asked.execute program.code = executed at hnext ⊢
              rcases executed with ⟨fault | op, next⟩
              · exact hnext
              · exact ih hnext

theorem run (h : m.Has program traces Q) (fuel : Nat) :
    (m.run fuel).2.Has program traces Q := by
  have hkept := h.runCode hexecute fuel
  simp only [Machine.run, h.program]
  generalize m.runCode program.code fuel = result at hkept ⊢
  rcases result with ⟨ending, m'⟩
  cases ending with
  | halted => exact hkept.warnLeftOver
  | stopped | failed | exhausted => exact hkept

end

end Has

/-- All values of a machine are words, and once a program is loaded the program
counter lies inside it or right behind it. -/
structure Sound (m : Machine) : Prop where
  entries : m.state.table.toList.length = 26
  table : ∀ v, InRange (m.state.table.value v)
  stack : ∀ n ∈ m.state.stack, InRange n
  counter : ∀ program, m.program = some program → m.state.pc ≤ program.size

theorem Sound.within (h : m.Sound) {program : Program}
    (hprogram : m.program = some program) :
    m.state.Within program.code.size :=
  ⟨h.table, h.stack, h.counter program hprogram⟩

theorem sound_of_within {program : Program}
    (hprogram : m.program = some program)
    (h : m.state.Within program.code.size) : m.Sound := by
  refine ⟨Vector.length_toList, h.table, h.stack, fun other hother => ?_⟩
  rw [hprogram] at hother
  cases hother
  exact h.counter

theorem Sound.load (h : m.Sound) (program : Program) : (m.load program).Sound :=
  sound_of_within rfl ⟨h.table, fun n hn => (by cases hn), Nat.zero_le _⟩

theorem Sound.step (h : m.Sound) : m.step.2.Sound := by
  cases hprogram : m.program with
  | none =>
      rw [Machine.step, hprogram]
      exact h
  | some program =>
      have hhas : m.Has program m.traces (Within program.code.size) :=
        ⟨hprogram, rfl, h.within hprogram⟩
      have hstep := hhas.step fun _ _ _ => within_execute
      exact sound_of_within hstep.program hstep.state

theorem Sound.run (h : m.Sound) (fuel : Nat) : (m.run fuel).2.Sound := by
  cases hprogram : m.program with
  | none =>
      rw [Machine.run, hprogram]
      exact h
  | some program =>
      have hhas : m.Has program m.traces (Within program.code.size) :=
        ⟨hprogram, rfl, h.within hprogram⟩
      have hrun := hhas.run (fun _ _ _ => within_execute) fuel
      exact sound_of_within hrun.program hrun.state

/-- What a machine can be asked for once it is there. -/
inductive Operation where
  | load (program : Program)
  /-- Runs for so many instructions at most, after loading a program if there is
  one. -/
  | run (program : Option Program) (fuel : Nat)
  | step
  | setVariables (values : List Int)
  | watch (watcher : Option Watcher)

/-- What comes of an operation. -/
inductive Answer where
  | done
  | ended (ending : Ending)
  | executed (op : Opcode)
  | failed (fault : CodeFault)
  | refused (e : Table.WrongSize)

/-- Asks a machine for something. A machine that refuses new values for its
variables stays as it is. -/
def ask (m : Machine) : Operation → Answer × Machine
  | .load program => (.done, m.load program)
  | .run none fuel =>
      let (ending, m) := m.run fuel
      (.ended ending, m)
  | .run (some program) fuel =>
      let (ending, m) := m.runProgram program fuel
      (.ended ending, m)
  | .step =>
      match m.step with
      | (.ok op, m) => (.executed op, m)
      | (.error fault, m) => (.failed fault, m)
  | .setVariables values =>
      match m.setVariables values with
      | .ok m => (.done, m)
      | .error e => (.refused e, m)
  | .watch watcher => (.done, { m with watcher := watcher })

/-- The machine after a sequence of operations, whether they succeed or not. -/
def after (m : Machine) (operations : List Operation) : Machine :=
  operations.foldl (fun m operation => (m.ask operation).2) m

theorem Sound.setVariables (h : m.Sound) {values : List Int} {m' : Machine}
    (hset : m.setVariables values = .ok m') : m'.Sound := by
  cases htable : Table.ofValues values with
  | error e =>
      simp only [Machine.setVariables, htable, bind, Except.bind] at hset
      cases hset
  | ok table =>
      simp only [Machine.setVariables, htable, bind, Except.bind] at hset
      cases hset
      exact ⟨Vector.length_toList, Table.inRange_value_of_ofValues htable,
        h.stack, h.counter⟩

theorem Sound.ask (h : m.Sound) (operation : Operation) :
    (m.ask operation).2.Sound := by
  cases operation with
  | load program => exact h.load program
  | run program fuel =>
      cases program with
      | none => exact h.run fuel
      | some program => exact (h.load program).run fuel
  | step =>
      have hstep := h.step
      rw [Machine.ask]
      generalize m.step = result at hstep ⊢
      rcases result with ⟨fault | op, m'⟩
      · exact hstep
      · exact hstep
  | setVariables values =>
      rw [Machine.ask]
      split
      · rename_i hset
        exact h.setVariables hset
      · exact h
  | watch watcher => exact ⟨h.entries, h.table, h.stack, h.counter⟩

theorem Sound.after (h : m.Sound) (operations : List Operation) :
    (m.after operations).Sound := by
  induction operations generalizing m with
  | nil => exact h
  | cons operation operations ih => exact ih (h.ask operation)

theorem eq_of_new {values : Option (List Int)} {traces : Bool}
    (h : new values traces = .ok m) :
    ∃ table, m = { state := { table := table }, traces := traces } ∧
      ∀ v, InRange (table.value v) := by
  cases values with
  | none =>
      cases h
      exact ⟨_, rfl, Table.inRange_value_zero⟩
  | some values =>
      cases htable : Table.ofValues values with
      | error e =>
          simp only [new, htable, bind, Except.bind] at h
          cases h
      | ok table =>
          simp only [new, htable, bind, Except.bind] at h
          cases h
          exact ⟨table, rfl, Table.inRange_value_of_ofValues htable⟩

theorem sound_of_new {values : Option (List Int)} {traces : Bool}
    (h : new values traces = .ok m) :
    m.Sound := by
  obtain ⟨table, rfl, htable⟩ := eq_of_new h
  exact ⟨Vector.length_toList, htable, fun n hn => (by cases hn), fun p hp =>
    (by cases hp)⟩

theorem ask_setVariables_of_length_ne (m : Machine) {values : List Int}
    (h : values.length ≠ 26) :
    m.ask (.setVariables values) = (.refused ⟨values.length⟩, m) := by
  simp only [ask, setVariables, Table.ofValues_of_length_ne h, bind,
    Except.bind]

theorem ask_setVariables_of_length_eq (m : Machine) {values : List Int}
    (h : values.length = 26) :
    ∃ table : Table, table.toList = values.map Word.wrap ∧
      m.ask (.setVariables values) =
        (.done, { m with state := { m.state with table := table } }) := by
  obtain ⟨table, htable⟩ := Table.exists_ofValues h
  refine ⟨table, Table.toList_of_ofValues htable, ?_⟩
  simp only [ask, setVariables, htable, bind, Except.bind]
  rfl

/-- In any use, also in the middle of a run, all values of a machine are words
and its program counter does not leave the program. New values for the variables
are taken if there is one for each, and otherwise refused without any effect. -/
theorem sound_in_any_use {values : Option (List Int)} {traces : Bool}
    {m : Machine} (hnew : new values traces = .ok m)
    (operations : List Operation) :
    (m.after operations).Sound ∧
      (∀ others : List Int, others.length ≠ 26 →
        (m.after operations).ask (.setVariables others) =
          (.refused ⟨others.length⟩, m.after operations)) ∧
      (∀ others : List Int, others.length = 26 → ∃ table : Table,
        table.toList = others.map Word.wrap ∧
          (m.after operations).ask (.setVariables others) =
            (.done, { m.after operations with
              state := { (m.after operations).state with table := table } })) :=
  ⟨(sound_of_new hnew).after operations, fun _ h =>
    ask_setVariables_of_length_ne _ h,
    fun _ h => ask_setVariables_of_length_eq _ h⟩

/-- A program with a constant and an address that are out of range, and an
addition for which one value is missing. -/
def careless : Program where
  code := #[2, 0x18000000000000000, 4, 9, 7]

/-- A new machine whose variables got values that are out of range. -/
def oversized : Machine where
  state := { table := Vector.replicate 26 (-0x7fffffffffffffff) }
  traces := true

theorem new_oversized :
    new (some (List.replicate 26 0x8000000000000001)) true = .ok oversized :=
  rfl

theorem sound_in_any_use_careless :
    new (some (List.replicate 26 0x8000000000000001)) true = .ok oversized ∧
      (oversized.after [.step, .watch (some (.limit 1)), .run (some careless) 5,
        .watch none, .run none 5, .setVariables [1, 2], .step]).Sound :=
  ⟨new_oversized, (sound_in_any_use new_oversized _).1⟩

end Machine

end OnePass

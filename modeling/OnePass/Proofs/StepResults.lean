import OnePass.Machine.Basic
import OnePass.Proofs.InstructionEffects
import OnePass.Proofs.ShortNumbers

namespace OnePass

theorem Variable.eq_of_ofSlot? {slot : Int} {v : Variable}
    (h : ofSlot? slot = some v) :
    slot = v.val := by
  unfold ofSlot? at h
  split at h
  · rename_i hslot
    cases h
    exact (Int.toNat_of_nonneg hslot.1).symm
  · cases h

namespace Instruction

variable {code : Array Int} {pc : Nat}

/-- The words of an instruction stand at an offset of some code, and its address
lies inside the code. -/
structure StandsAt (code : Array Int) (pc : Nat) (i : Instruction) : Prop where
  opcode : opcodeAt code pc = .ok i.opcode
  operand : ∀ n, i.operand = some n → operandAt code pc = .ok n
  target : ∀ t, i.target? = some t → t < code.size

theorem lt_size_of_opcodeAt {op : Opcode} (h : opcodeAt code pc = .ok op) :
    pc < code.size := by
  unfold opcodeAt at h
  split at h
  · cases h
  · rename_i word hword
    exact (Array.getElem?_eq_some_iff.mp hword).1

theorem lt_size_of_operandAt {n : Int} (h : operandAt code pc = .ok n) :
    pc + 1 < code.size := by
  unfold operandAt at h
  split at h
  · cases h
  · rename_i operand hoperand
    exact (Array.getElem?_eq_some_iff.mp hoperand).1

theorem exists_of_bind_eq_ok {α β : Type} {x : Except Flaw α}
    {f : α → Except Flaw β} {b : β} (h : (x >>= f) = .ok b) :
    ∃ a, x = .ok a ∧ f a = .ok b := by
  cases x with
  | error flaw => cases h
  | ok a => exact ⟨a, rfl, h⟩

theorem operandAt_of_variableAt {v : Variable}
    (h : variableAt code pc = .ok v) :
    operandAt code pc = .ok (v.val : Int) := by
  obtain ⟨operand, hoperand, h⟩ := exists_of_bind_eq_ok h
  split at h
  · cases h
  · rename_i hslot
    cases h
    rw [hoperand, Variable.eq_of_ofSlot? hslot]

theorem operandAt_of_targetAt {t : Nat} (h : targetAt code pc = .ok t) :
    operandAt code pc = .ok (t : Int) ∧ t < code.size := by
  obtain ⟨operand, hoperand, h⟩ := exists_of_bind_eq_ok h
  split at h
  · rename_i hrange
    cases h
    rw [hoperand, Int.toNat_of_nonneg hrange.1]
    exact ⟨rfl, by omega⟩
  · cases h

theorem standsAt_of_decodeAt {i : Instruction} (h : decodeAt code pc = .ok i) :
    StandsAt code pc i := by
  obtain ⟨op, hopcode, h⟩ := exists_of_bind_eq_ok h
  cases op with
  | fetch | store =>
      obtain ⟨v, hvariable, h⟩ := exists_of_bind_eq_ok h
      cases h
      refine ⟨hopcode, fun n hn => ?_, fun t ht => by cases ht⟩
      cases hn
      exact operandAt_of_variableAt hvariable
  | push =>
      obtain ⟨n, hoperand, h⟩ := exists_of_bind_eq_ok h
      cases h
      refine ⟨hopcode, fun n hn => ?_, fun t ht => by cases ht⟩
      cases hn
      exact hoperand
  | jz | jnz | jmp =>
      obtain ⟨t, htarget, h⟩ := exists_of_bind_eq_ok h
      cases h
      obtain ⟨hoperand, hlt⟩ := operandAt_of_targetAt htarget
      refine ⟨hopcode, fun n hn => ?_, fun u hu => ?_⟩
      · cases hn
        exact hoperand
      · cases hu
        exact hlt
  | pop | add | sub | lt | halt =>
      cases h
      exact ⟨hopcode, fun n hn => (by cases hn), fun t ht => (by cases ht)⟩

theorem StandsAt.behind_le {i : Instruction} (h : StandsAt code pc i) :
    pc + i.opcode.size ≤ code.size := by
  have hopcode := lt_size_of_opcodeAt h.opcode
  cases hoperand : i.operand with
  | none =>
      have hsize : i.opcode.size = 1 := by
        rw [← length_words, words, hoperand]
        rfl
      omega
  | some n =>
      have hsize : i.opcode.size = 2 := by
        rw [← length_words, words, hoperand]
        rfl
      have hlt := lt_size_of_operandAt (h.operand n hoperand)
      omega

/-- Only the operand of a push can be too long to be written out. -/
theorem isShown_operand {i : Instruction} (h : decodeAt code pc = .ok i)
    (hpush : ∀ n, i = .push n → isShown code.size n = true) {n : Int}
    (hn : i.operand = some n) : isShown code.size n = true := by
  cases i with
  | fetch v | store v =>
      cases hn
      exact isShown_of_isShort (Text.isShort_slot v) code.size
  | push k =>
      cases hn
      exact hpush _ rfl
  | jz t | jnz t | jmp t =>
      cases hn
      exact isShown_of_lt ((standsAt_of_decodeAt h).target t rfl)
  | pop | add | sub | lt | halt => cases hn

theorem exists_operand_of_size {i : Instruction} (h : i.opcode.size ≠ 1) :
    ∃ n, i.operand = some n := by
  cases hoperand : i.operand with
  | some n => exact ⟨n, rfl⟩
  | none =>
      rw [← length_words, words, hoperand] at h
      exact absurd rfl h

end Instruction

namespace State

open Instruction

variable {code : Array Int} {s : State}

/-- An instruction that finds too few values takes those that there are, and
fails where it stands. -/
theorem perform_of_short {i : Instruction}
    (h : s.stack.length < i.opcode.pops) :
    perform i s = .error ⟨.stackUnderflow, some s.pc⟩
      { s with stack := [] } := by
  rcases s with ⟨table, stack, pc, halted, steps⟩
  cases i with
  | fetch | push | jmp | halt => exact absurd h (Nat.not_lt_zero _)
  | store | pop | jz | jnz =>
      have hstack : stack = [] :=
        List.eq_nil_of_length_eq_zero (Nat.lt_one_iff.mp h)
      subst hstack
      rfl
  | add | sub | lt =>
      match stack, h with
      | [], _ => rfl
      | [top], _ => rfl

theorem execute_of_flaw {flaw : Flaw} (h : decodeAt code s.pc = .error flaw) :
    execute code s = .error ⟨flaw, some s.pc⟩ s := by
  change (execute code).run s = _
  rw [execute, EStateM.run_bind, EStateM.run_get]
  simp only [h]
  rfl

theorem execute_of_perform_error {i : Instruction} {s' : State}
    {fault : CodeFault} (hdecode : decodeAt code s.pc = .ok i)
    (h : perform i s = .error fault s') :
    execute code s = .error fault s' := by
  change (execute code).run s = _
  rw [execute, EStateM.run_bind, EStateM.run_get]
  simp only [hdecode]
  rw [EStateM.run_bind, EStateM.run, h]

/-- The results that executing an instruction can have. -/
inductive Executes (code : Array Int) (s : State) :
    EStateM.Result CodeFault State Opcode → Prop where
  | performed {i : Instruction} {s' : State}
      (hdecode : decodeAt code s.pc = .ok i)
      (hperforms : Performs i s s') :
      Executes code s (.ok i.opcode { s' with steps := s'.steps + 1 })
  | flawed {flaw : Flaw} (hdecode : decodeAt code s.pc = .error flaw) :
      Executes code s (.error ⟨flaw, some s.pc⟩ s)
  | short {i : Instruction} (hdecode : decodeAt code s.pc = .ok i)
      (hstack : s.stack.length < i.opcode.pops) :
      Executes code s (.error ⟨.stackUnderflow, some s.pc⟩
        { s with stack := [] })

theorem executes (code : Array Int) (s : State) :
    Executes code s (execute code s) := by
  cases hdecode : decodeAt code s.pc with
  | error flaw =>
      rw [execute_of_flaw hdecode]
      exact .flawed hdecode
  | ok i =>
      by_cases hpops : i.opcode.pops ≤ s.stack.length
      · obtain ⟨s', hperforms⟩ := exists_performs hpops
        rw [execute_of_performs hdecode hperforms]
        exact .performed hdecode hperforms
      · have hstack := Nat.lt_of_not_le hpops
        rw [execute_of_perform_error hdecode (perform_of_short hstack)]
        exact .short hdecode hstack

theorem execute_of_execute_error {fault : CodeFault} {s' : State}
    (h : execute code s = .error fault s') :
    s'.halted = s.halted ∧ ∃ fault' s'',
      execute code s' = .error fault' s'' := by
  have hexecutes := executes code s
  rw [h] at hexecutes
  cases hexecutes with
  | flawed hdecode => exact ⟨rfl, _, _, h⟩
  | @short i hdecode hstack =>
      have hshort : ({ s with stack := [] } : State).stack.length <
          i.opcode.pops :=
        Nat.lt_of_le_of_lt (Nat.zero_le _) hstack
      exact ⟨rfl, _, _, execute_of_perform_error (s :=
        { s with stack := [] }) hdecode
        (perform_of_short hshort)⟩

theorem pc_of_execute_error {fault : CodeFault} {s' : State}
    (h : execute code s = .error fault s') :
    s'.pc = s.pc := by
  have hexecutes := executes code s
  rw [h] at hexecutes
  cases hexecutes <;> rfl

theorem opcodeAt_of_execute_ok {op : Opcode} {s' : State}
    (h : execute code s = .ok op s') :
    opcodeAt code s.pc = .ok op := by
  have hexecutes := executes code s
  rw [h] at hexecutes
  cases hexecutes with
  | performed hdecode => exact (standsAt_of_decodeAt hdecode).opcode

theorem execute_of_opcodeAt_error {flaw : Flaw}
    (h : opcodeAt code s.pc = .error flaw) :
    execute code s = .error ⟨flaw, some s.pc⟩ s := by
  refine execute_of_flaw ?_
  simp only [decodeAt, h, bind, Except.bind]

end State

namespace Machine

open Instruction

variable {m : Machine} {code : Array Int}

/-- A machine that traces can write out what it is about to push. -/
def WritesAt (m : Machine) (code : Array Int) : Prop :=
  m.traces = true → ∀ n, decodeAt code m.state.pc = .ok (.push n) →
    isShown code.size n = true

/-- The results that logging an instruction can have. -/
inductive Traced (m : Machine) (code : Array Int) :
    Except CodeFault Machine → Prop where
  | logged {log : Array Event}
      (hlog : ∀ count, .leftOver count ∈ log → .leftOver count ∈ m.log)
      (hwrites : m.WritesAt code) : Traced m code (.ok { m with log := log })
  | flawed {flaw : Flaw} (hdecode : decodeAt code m.state.pc = .error flaw) :
      Traced m code (.error ⟨flaw, some m.state.pc⟩)
  | tooLong {n : Int} (htraces : m.traces = true)
      (hdecode : decodeAt code m.state.pc = .ok (.push n))
      (hlong : isShown code.size n = false) :
      Traced m code (.error ⟨.operandTooLong, some m.state.pc⟩)

theorem traced_of_long {op : Opcode} {n : Int} (htraces : m.traces = true)
    (hopcode : opcodeAt code m.state.pc = .ok op) (hsize : op.size ≠ 1)
    (hoperand : operandAt code m.state.pc = .ok n)
    (hlong : isShown code.size n = false) :
    Traced m code (m.trace code) := by
  have hevent : traceEvent? code m.state = .error ⟨⟩ := by
    simp only [traceEvent?, hopcode, hsize, hoperand, hlong, if_false,
      Bool.false_eq_true]
  simp only [trace, htraces, hevent, if_true]
  cases hdecode : decodeAt code m.state.pc with
  | error flaw => exact .flawed hdecode
  | ok i =>
      have hstands := standsAt_of_decodeAt hdecode
      rw [hstands.opcode] at hopcode
      cases hopcode
      obtain ⟨k, hk⟩ := exists_operand_of_size hsize
      have hkn := hstands.operand k hk
      rw [hoperand] at hkn
      cases hkn
      cases i with
      | push n =>
          cases hk
          exact .tooLong htraces hdecode hlong
      | fetch | store | jz | jnz | jmp =>
          have hshown := isShown_operand hdecode (fun _ h => nomatch h) hk
          rw [hlong] at hshown
          cases hshown
      | pop | add | sub | lt | halt => cases hk

theorem writesAt_of_operandAt
    (h : ∀ n, opcodeAt code m.state.pc = .ok .push →
      operandAt code m.state.pc = .ok n → isShown code.size n = true) :
    m.WritesAt code := by
  intro _ n hdecode
  have hstands := standsAt_of_decodeAt hdecode
  exact h n hstands.opcode (hstands.operand n rfl)

theorem traced_of_event {pc : Nat} {op : Opcode} {operandText : String}
    {stack : List Int} (htraces : m.traces = true)
    (hevent : traceEvent? code m.state =
      .ok (some (.executing pc op operandText stack)))
    (hwrites : m.WritesAt code) : Traced m code (m.trace code) := by
  rw [trace, if_pos htraces, hevent]
  refine .logged (fun count h => ?_) hwrites
  rcases Array.mem_push.mp h with h | h
  · exact h
  · cases h

theorem traced_of_no_event (htraces : m.traces = true)
    (hevent : traceEvent? code m.state = .ok none) (hwrites : m.WritesAt code) :
    Traced m code (m.trace code) := by
  simp only [trace, htraces, hevent, if_true]
  exact .logged (fun _ h => h) hwrites

theorem traced (m : Machine) (code : Array Int) :
    Traced m code (m.trace code) := by
  cases htraces : m.traces with
  | false =>
      have htrace : m.trace code = .ok m := by simp [trace, htraces]
      rw [htrace]
      refine .logged (fun _ h => h) ?_
      intro h
      rw [htraces] at h
      cases h
  | true =>
      cases hopcode : opcodeAt code m.state.pc with
      | error flaw =>
          refine traced_of_no_event htraces
            (by simp only [traceEvent?, hopcode]) ?_
          refine writesAt_of_operandAt fun n hpush _ => ?_
          rw [hopcode] at hpush
          cases hpush
      | ok op =>
          by_cases hsize : op.size = 1
          · have hevent : traceEvent? code m.state =
                .ok (some (.executing m.state.pc op "" m.state.stack)) := by
              simp only [traceEvent?, hopcode, hsize, if_true]
            refine traced_of_event htraces hevent ?_
            refine writesAt_of_operandAt fun n hpush _ => ?_
            rw [hopcode] at hpush
            cases hpush
            cases hsize
          · cases hoperand : operandAt code m.state.pc with
            | error flaw =>
                refine traced_of_no_event htraces
                  (by simp only [traceEvent?, hopcode, hsize, hoperand, if_false]) ?_
                refine writesAt_of_operandAt fun n _ hn => ?_
                rw [hoperand] at hn
                cases hn
            | ok n =>
                cases hshown : isShown code.size n with
                | false =>
                    exact traced_of_long htraces hopcode hsize hoperand hshown
                | true =>
                    have hevent : traceEvent? code m.state =
                        .ok (some (.executing m.state.pc op s!" {n}"
                          m.state.stack)) := by
                      simp only [traceEvent?, hopcode, hsize, hoperand, hshown,
                        if_false, if_true]
                    refine traced_of_event htraces hevent ?_
                    refine writesAt_of_operandAt fun k _ hk => ?_
                    rw [hoperand] at hk
                    cases hk
                    exact hshown

/-- The machine with the instruction at its program counter in the log, if it
can be written out. -/
def logged (m : Machine) (code : Array Int) : Machine :=
  match m.trace code with
  | .ok m => m
  | .error _ => m

theorem logged_eq (m : Machine) (code : Array Int) :
    m.logged code = { m with log := (m.logged code).log } := by
  unfold logged
  have htraced := m.traced code
  generalize m.trace code = result at htraced
  cases htraced <;> rfl

@[simp] theorem program_logged (m : Machine) (code : Array Int) :
    (m.logged code).program = m.program := by
  rw [logged_eq]

@[simp] theorem traces_logged (m : Machine) (code : Array Int) :
    (m.logged code).traces = m.traces := by
  rw [logged_eq]

@[simp] theorem watcher_logged (m : Machine) (code : Array Int) :
    (m.logged code).watcher = m.watcher := by
  rw [logged_eq]

theorem leftOver_mem_logged {count : Nat}
    (h : .leftOver count ∈ (m.logged code).log) :
    .leftOver count ∈ m.log := by
  unfold logged at h
  have htraced := m.traced code
  generalize m.trace code = result at htraced h
  cases htraced with
  | logged hlog => exact hlog count h
  | flawed | tooLong => exact h

theorem execute_of_ok {op : Opcode} {s : State} (hwrites : m.WritesAt code)
    (h : State.execute code m.state = .ok op s) :
    m.execute code = (.ok op, { m.logged code with state := s }) := by
  have htraced := m.traced code
  unfold execute logged
  generalize m.trace code = result at htraced
  cases htraced with
  | logged => simp only [EStateM.run, h]
  | flawed hdecode =>
      rw [State.execute_of_flaw hdecode] at h
      cases h
  | tooLong htraces hdecode hlong =>
      rw [hwrites htraces _ hdecode] at hlong
      cases hlong

theorem execute_of_error {fault : CodeFault} {s : State}
    (h : State.execute code m.state = .error fault s) :
    m.execute code = (.error fault, { m.logged code with state := s }) := by
  have htraced := m.traced code
  unfold execute logged
  generalize m.trace code = result at htraced
  cases htraced with
  | logged => simp only [EStateM.run, h]
  | flawed hdecode =>
      rw [State.execute_of_flaw hdecode] at h
      cases h
      rfl
  | @tooLong n htraces hdecode hlong =>
      rw [State.execute_of_performs hdecode (.push n m.state)] at h
      cases h

theorem execute_of_long {n : Int} (htraces : m.traces = true)
    (hdecode : decodeAt code m.state.pc = .ok (.push n))
    (hlong : isShown code.size n = false) :
    m.execute code = (.error ⟨.operandTooLong, some m.state.pc⟩, m) := by
  have htraced := m.traced code
  unfold execute
  generalize m.trace code = result at htraced
  cases htraced with
  | logged _ hwrites =>
      rw [hwrites htraces n hdecode] at hlong
      cases hlong
  | flawed hdecode' =>
      rw [hdecode] at hdecode'
      cases hdecode'
  | tooLong => rfl

/-- A machine goes on as its state does, or stands in front of a constant that
is too long for it. -/
theorem writesAt_or_long (m : Machine) (code : Array Int) :
    m.WritesAt code ∨ m.traces = true ∧
      ∃ n, decodeAt code m.state.pc = .ok (.push n) ∧
      isShown code.size n = false := by
  by_cases h : m.WritesAt code
  · exact .inl h
  · simp only [WritesAt, Classical.not_imp, Classical.not_forall] at h
    obtain ⟨htraces, n, hdecode, hlong⟩ := h
    exact .inr ⟨htraces, n, hdecode, Bool.eq_false_iff.mpr hlong⟩

/-- The results that executing an instruction can have on the machine. -/
inductive Executes (m : Machine) (code : Array Int) :
    Except CodeFault Opcode × Machine → Prop where
  | executed {op : Opcode} {s : State} (hwrites : m.WritesAt code)
      (h : State.execute code m.state = .ok op s) :
      Executes m code (.ok op, { m.logged code with state := s })
  | failed {fault : CodeFault} {s : State}
      (h : State.execute code m.state = .error fault s) :
      Executes m code (.error fault, { m.logged code with state := s })
  | tooLong {n : Int} (htraces : m.traces = true)
      (hdecode : decodeAt code m.state.pc = .ok (.push n))
      (hlong : isShown code.size n = false) :
      Executes m code (.error ⟨.operandTooLong, some m.state.pc⟩, m)

theorem executes (m : Machine) (code : Array Int) :
    Executes m code (m.execute code) := by
  rcases m.writesAt_or_long code with hwrites | ⟨htraces, n, hdecode, hlong⟩
  · cases hexecute : State.execute code m.state with
    | ok op s =>
        rw [execute_of_ok hwrites hexecute]
        exact .executed hwrites hexecute
    | error fault s =>
        rw [execute_of_error hexecute]
        exact .failed hexecute
  · rw [execute_of_long htraces hdecode hlong]
    exact .tooLong htraces hdecode hlong

/-- Executing an instruction changes nothing but the state and the log. -/
theorem execute_frame (m : Machine) (code : Array Int) :
    ∃ state log, (m.execute code).2 =
      { m with state := state, log := log } := by
  have hexecutes := m.executes code
  generalize m.execute code = result at hexecutes
  cases hexecutes with
  | @executed op s | @failed fault s =>
      refine ⟨s, (m.logged code).log, ?_⟩
      simp only [program_logged, traces_logged, watcher_logged]
  | tooLong => exact ⟨m.state, m.log, rfl⟩

theorem step_of_running {m : Machine} {program : Program}
    (hprogram : m.program = some program) (hrunning : m.state.halted = false) :
    m.step = m.execute program.code := by
  rw [step, hprogram]
  simp only [hrunning, Bool.false_eq_true, if_false]

end Machine

end OnePass

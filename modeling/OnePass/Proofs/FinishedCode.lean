import OnePass.Proofs.BuilderHistory
import OnePass.Proofs.StackSafety
import OnePass.Proofs.StepResults

namespace OnePass

/-- Code that consists of instructions all of whose jumps lead to one of them.
-/
structure Finished (code : Array Int) (entries : List Entry) : Prop where
  decodes : Decodes 0 code.toList entries
  wrapped : ∀ entry ∈ entries, entry.Wrapped
  lands : ∀ entry ∈ entries, entry.Lands entries

/-- A place in the code where an instruction starts, or the end. -/
def Aligned (code : Array Int) (entries : List Entry) (pc : Nat) : Prop :=
  pc ∈ entries.map Entry.offset ∨ pc = code.size

/-- The faults that finished code can run into. -/
inductive Stumbles (code : Array Int) (entries : List Entry) :
    CodeFault → Prop where
  | underflow {entry : Entry} (hentry : entry ∈ entries) :
      Stumbles code entries ⟨.stackUnderflow, some entry.offset⟩
  | slot {entry : Entry} {slot : Int} (hentry : entry ∈ entries)
      (hoperand : entry.operand = some slot)
      (hslot : Variable.ofSlot? slot = none) :
      Stumbles code entries ⟨.slotOutOfRange slot, some entry.offset⟩
  | counter : Stumbles code entries ⟨.counterOutOfRange, some code.size⟩

namespace Finished

open Instruction

variable {code : Array Int} {entries : List Entry} {entry : Entry}

theorem opcodeAt_eq (h : Finished code entries) (hentry : entry ∈ entries) :
    opcodeAt code entry.offset = .ok entry.opcode := by
  have hword := h.decodes.getElem?_opcode hentry
  rw [Array.getElem?_toList] at hword
  simp only [opcodeAt, hword, Opcode.ofWord?_word]

theorem operandAt_eq (h : Finished code entries) (hentry : entry ∈ entries)
    {operand : Int} (hoperand : entry.operand = some operand) :
    operandAt code entry.offset = .ok operand := by
  have hword := h.decodes.getElem?_operand hentry hoperand
  rw [Array.getElem?_toList] at hword
  simp only [operandAt, hword]

theorem exists_targetAt (h : Finished code entries) (hentry : entry ∈ entries)
    (hjump : entry.opcode.isJump = true) :
    ∃ target ∈ entries.map Entry.offset, entry.operand = some (target : Int) ∧
      targetAt code entry.offset = .ok target := by
  obtain ⟨target, hmem, hoperand⟩ := h.lands entry hentry hjump
  obtain ⟨there, hthere, rfl⟩ := List.mem_map.mp hmem
  have hlt := h.decodes.offset_lt hthere
  rw [Nat.zero_add, Array.length_toList] at hlt
  have hrange : (0 : Int) ≤ there.offset ∧
      (there.offset : Int) < code.size := by omega
  refine ⟨there.offset, hmem, hoperand, ?_⟩
  simp only [targetAt, h.operandAt_eq hentry hoperand, bind, Except.bind,
    if_pos hrange, Int.toNat_natCast]

/-- The instruction that the machine reads is that of the strict reading. -/
structure Means (entries : List Entry) (entry : Entry) (i : Instruction) :
    Prop where
  opcode : i.opcode = entry.opcode
  operand : i.operand = entry.operand
  target : ∀ t, i.target? = some t → t ∈ entries.map Entry.offset

theorem decodeAt_cases (h : Finished code entries) (hentry : entry ∈ entries) :
    (∃ i, decodeAt code entry.offset = .ok i ∧ Means entries entry i) ∨
      ∃ slot, entry.operand = some slot ∧ Variable.ofSlot? slot = none ∧
        decodeAt code entry.offset = .error (.slotOutOfRange slot) := by
  have hopcode := h.opcodeAt_eq hentry
  have hnone := h.decodes.operand_eq_none hentry
  have hsome := h.decodes.exists_operand hentry
  have hjump := h.exists_targetAt hentry
  simp only [decodeAt, hopcode, bind, Except.bind]
  cases hop : entry.opcode with
  | fetch | store =>
      obtain ⟨slot, hoperand⟩ := hsome (by rw [hop]; rfl)
      cases hslot : Variable.ofSlot? slot with
      | none =>
          refine .inr ⟨slot, hoperand, hslot, ?_⟩
          simp only [variableAt, h.operandAt_eq hentry hoperand, bind,
            Except.bind, hslot]
      | some v =>
          simp only [variableAt, h.operandAt_eq hentry hoperand, bind,
            Except.bind, hslot]
          refine .inl ⟨_, rfl, hop.symm, ?_, fun t ht => by cases ht⟩
          rw [hoperand, Variable.eq_of_ofSlot? hslot]
          rfl
  | push =>
      obtain ⟨operand, hoperand⟩ := hsome (by rw [hop]; rfl)
      simp only [h.operandAt_eq hentry hoperand]
      exact .inl ⟨_, rfl, hop.symm, hoperand.symm, fun t ht => by cases ht⟩
  | jz | jnz | jmp =>
      obtain ⟨target, hmem, hoperand, htarget⟩ := hjump (by rw [hop]; rfl)
      simp only [htarget]
      refine .inl ⟨_, rfl, hop.symm, hoperand.symm, fun t ht => ?_⟩
      cases ht
      exact hmem
  | pop | add | sub | lt | halt =>
      exact .inl ⟨_, rfl, hop.symm, (hnone (by rw [hop]; rfl)).symm,
        fun t ht => by cases ht⟩

theorem aligned_zero (h : Finished code entries) : Aligned code entries 0 := by
  rcases h.decodes.front with hfirst | hempty
  · exact .inl hfirst
  · right
    rw [← Array.length_toList, hempty]
    rfl

theorem aligned_performs (h : Finished code entries)
    (hentry : entry ∈ entries) {i : Instruction} (hi : Means entries entry i)
    {s s' : State} (hpc : s.pc = entry.offset)
    (hperforms : State.Performs i s s') : Aligned code entries s'.pc := by
  by_cases hhalt : i = .halt
  · subst hhalt
    cases hperforms
    exact .inl (List.mem_map.mpr ⟨entry, hentry, hpc.symm⟩)
  · obtain ⟨-, hbehind | ⟨target, htarget, hthere⟩⟩ := hperforms.counter hhalt
    · rw [hbehind, hi.opcode, hpc]
      rcases h.decodes.behind hentry with hnext | hend
      · exact .inl hnext
      · right
        rw [hend, Nat.zero_add, Array.length_toList]
    · rw [hthere]
      exact .inl (hi.target target htarget)

/-- What comes of a step: an instruction is executed as it is read, or the step
fails on the spot. -/
inductive Step (code : Array Int) (entries : List Entry) (s : State) :
    EStateM.Result CodeFault State Opcode → Prop where
  | executed {entry : Entry} {i : Instruction} {s' : State}
      (hentry : entry ∈ entries)
      (hpc : s.pc = entry.offset) (hdecode : decodeAt code s.pc = .ok i)
      (hi : Means entries entry i)
      (haligned : Aligned code entries s'.pc) :
        Step code entries s (.ok entry.opcode s')
  | failed {fault : CodeFault} {s' : State}
      (hfault : Stumbles code entries fault)
      (hpc : s'.pc = s.pc) : Step code entries s (.error fault s')

theorem step_of_entry (h : Finished code entries) (hentry : entry ∈ entries)
    {s : State} (hpc : s.pc = entry.offset) :
    Step code entries s (State.execute code s) := by
  rcases h.decodeAt_cases hentry with ⟨i, hdecode, hi⟩ | ⟨slot, hoperand, hslot,
    hdecode⟩
  · rw [← hpc] at hdecode
    by_cases hpops : i.opcode.pops ≤ s.stack.length
    · obtain ⟨s', hperforms⟩ := State.exists_performs hpops
      have haligned := h.aligned_performs hentry hi hpc hperforms
      rw [State.execute_of_performs hdecode hperforms, hi.opcode]
      exact .executed hentry hpc hdecode hi haligned
    · have hshort := State.perform_of_short (Nat.lt_of_not_le hpops)
      rw [State.execute_of_perform_error hdecode hshort, hpc]
      exact .failed (.underflow hentry) hpc.symm
  · rw [← hpc] at hdecode
    rw [State.execute_of_flaw hdecode, hpc]
    exact .failed (.slot hentry hoperand hslot) rfl

theorem step_of_end (code : Array Int) (entries : List Entry) {s : State}
    (hpc : s.pc = code.size) :
    Step code entries s (State.execute code s) := by
  have hword : code[s.pc]? = none := by simp [hpc]
  have hdecode : decodeAt code s.pc = .error .counterOutOfRange := by
    simp only [decodeAt, opcodeAt, hword, bind, Except.bind]
  rw [State.execute_of_flaw hdecode, hpc]
  exact .failed .counter rfl

theorem step (h : Finished code entries) {s : State}
    (hs : Aligned code entries s.pc) :
    Step code entries s (State.execute code s) := by
  rcases hs with hplace | hend
  · obtain ⟨entry, hentry, hpc⟩ := List.mem_map.mp hplace
    exact h.step_of_entry hentry hpc.symm
  · exact step_of_end code entries hend

theorem isShown_of_push (h : Finished code entries) {pc : Nat}
    (hpc : Aligned code entries pc) {n : Int}
    (hdecode : decodeAt code pc = .ok (.push n)) :
    isShown code.size n = true := by
  rcases hpc with hplace | rfl
  · obtain ⟨entry, hentry, rfl⟩ := List.mem_map.mp hplace
    rcases h.decodeAt_cases hentry with ⟨i, hi, hmeans⟩ | ⟨slot, -, -, herror⟩
    · rw [hdecode] at hi
      cases hi
      have hkind : entry.opcode.operandKind = .constant := by
        rw [← hmeans.opcode]
        rfl
      have hrange := h.wrapped entry hentry hkind n hmeans.operand.symm
      exact isShown_of_isShort (Text.isShort_of_inRange hrange) code.size
    · rw [hdecode] at herror
      cases herror
  · have hlt := lt_size_of_opcodeAt (standsAt_of_decodeAt hdecode).opcode
    exact absurd hlt (Nat.lt_irrefl _)

theorem writesAt (h : Finished code entries) {m : Machine}
    (haligned : Aligned code entries m.state.pc) : m.WritesAt code :=
  fun _ _ hdecode => h.isShown_of_push haligned hdecode

end Finished

namespace Machine

theorem execute_of_step_ok {m : Machine} {program : Program} {op : Opcode}
    (hprogram : m.program = some program) (h : m.step.1 = .ok op) :
    ∃ s, State.execute program.code m.state = .ok op s := by
  cases hhalted : m.state.halted with
  | true =>
      rw [step, hprogram] at h
      simp only [hhalted, if_true] at h
      cases h
  | false =>
      rw [step_of_running hprogram hhalted] at h
      have hexecutes := m.executes program.code
      generalize m.execute program.code = result at hexecutes h
      cases hexecutes with
      | executed _ hresult =>
          cases h
          exact ⟨_, hresult⟩
      | failed | tooLong => cases h

theorem execute_of_step_error {m : Machine} {program : Program}
    {fault : CodeFault} (hprogram : m.program = some program)
    (hwrites : m.WritesAt program.code) (hrunning : m.state.halted = false)
    (h : m.step.1 = .error fault) :
    ∃ s, State.execute program.code m.state = .error fault s := by
  rw [step_of_running hprogram hrunning] at h
  cases hresult : State.execute program.code m.state with
  | ok op s =>
      rw [execute_of_ok hwrites hresult] at h
      cases h
  | error fault' s =>
      rw [execute_of_error hresult] at h
      cases h
      exact ⟨s, rfl⟩

/-- The watcher can be asked, unless the instruction would fail in the same way.
-/
theorem consult_cases (m : Machine) (code : Array Int) :
    (∃ answer watcher,
      m.consult code = (.ok answer, { m with watcher := watcher })) ∨
      ∃ fault, m.consult code = (.error fault, m) ∧
        State.execute code m.state = .error fault m.state := by
  cases hopcode : Instruction.opcodeAt code m.state.pc with
  | ok op => exact .inl (consult_of_opcodeAt hopcode)
  | error flaw =>
      have hdecode : Instruction.decodeAt code m.state.pc = .error flaw := by
        simp only [Instruction.decodeAt, hopcode, bind, Except.bind]
      cases hwatcher : m.watcher with
      | none =>
          exact .inl ⟨true, none, by rw [consult_of_watcher_none hwatcher, ← hwatcher]⟩
      | some watcher =>
          refine .inr ⟨⟨flaw, some m.state.pc⟩, ?_,
            State.execute_of_flaw hdecode⟩
          simp only [consult, hwatcher, hopcode]

section Finished

variable {entries : List Entry}

theorem afterSteps_aligned {program : Program}
    (h : Finished program.code entries) (m : Machine) (k : Nat) :
    (m.afterSteps program k).program = some program ∧
      Aligned program.code entries (m.afterSteps program k).state.pc := by
  induction k with
  | zero => exact ⟨rfl, h.aligned_zero⟩
  | succ k ih =>
      obtain ⟨hprogram, haligned⟩ := ih
      rw [afterSteps]
      cases hhalted : (m.afterSteps program k).state.halted with
      | true =>
          rw [step_of_halted hprogram hhalted]
          exact ⟨hprogram, haligned⟩
      | false =>
          rw [step_of_running hprogram hhalted]
          have hstep := h.step haligned
          generalize hresult : State.execute program.code _ = result at hstep
          cases hstep with
          | executed _ _ _ _ hnext =>
              rw [execute_of_ok (h.writesAt haligned) hresult]
              exact ⟨(program_logged _ _).trans hprogram, hnext⟩
          | failed _ hpc =>
              rw [execute_of_error hresult]
              refine ⟨(program_logged _ _).trans hprogram, ?_⟩
              exact hpc ▸ haligned

theorem stumbles_of_runCode {code : Array Int} (h : Finished code entries)
    {fuel : Nat} {m : Machine} (haligned : Aligned code entries m.state.pc)
    {fault : CodeFault} (hfailed : (m.runCode code fuel).1 = .failed fault) :
    Stumbles code entries fault := by
  induction fuel generalizing m with
  | zero =>
      unfold runCode at hfailed
      split at hfailed <;> cases hfailed
  | succ fuel ih =>
      unfold runCode at hfailed
      split at hfailed
      · cases hfailed
      · have hstep := h.step haligned
        rcases m.consult_cases code with ⟨answer, watcher, hconsult⟩ | ⟨_,
          hconsult, herror⟩
        · rw [hconsult] at hfailed
          cases answer with
          | false => cases hfailed
          | true =>
              generalize hresult : State.execute code m.state = result at hstep
              cases hstep with
              | executed _ _ _ _ hnext =>
                  have hwrites :
                      ({ m with watcher := watcher } : Machine).WritesAt code :=
                    h.writesAt haligned
                  have hexecute := execute_of_ok hwrites hresult
                  simp only [hexecute] at hfailed
                  refine ih ?_ hfailed
                  exact hnext
              | failed hfault _ =>
                  have hexecute :=
                    execute_of_error (m :=
                    { m with watcher := watcher }) hresult
                  simp only [hexecute] at hfailed
                  cases hfailed
                  exact hfault
        · rw [hconsult] at hfailed
          rw [herror] at hstep
          cases hfailed
          cases hstep with
          | failed hfault _ => exact hfault

end Finished

/-- A machine goes through a program along its instructions, whatever its
variables hold. After any number of steps it is at an instruction or at the end;
what it executes there is what the reading of the program gives; and what it
fails for is the stack, a slot or the end. -/
structure Follows (m : Machine) (program : Program) (entries : List Entry) :
    Prop where
  counter : ∀ k, Aligned program.code entries (m.afterSteps program k).state.pc
  executed : ∀ k op, (m.afterSteps program k).step.1 = .ok op →
    ∃ entry ∈ entries, entry.offset = (m.afterSteps program k).state.pc ∧
    entry.opcode = op ∧
      ∃ i, Instruction.decodeAt program.code
        (m.afterSteps program k).state.pc = .ok i ∧
        i.opcode = op ∧ i.operand = entry.operand
  failed : ∀ k fault, (m.afterSteps program k).state.halted = false →
    (m.afterSteps program k).step.1 = .error fault →
    Stumbles program.code entries fault
  run : ∀ fuel fault, (m.runProgram program fuel).1 = .failed fault →
    Stumbles program.code entries fault

end Machine

namespace Builder

theorem finished_of_build {requests : List Request} {name : String}
    {program : Program} {b : Builder}
    (h : build name (History.of requests).builder = .ok program b) :
    ∃ entries, Finished program.code entries := by
  obtain ⟨entries, hkept⟩ := History.exists_kept requests
  have hanswer : (Request.build name).answer (History.of requests).builder =
      .ok (.finished program) b :=
    map_of_ok _ h
  obtain ⟨-, hfault, hprogram, -⟩ := eq_of_answer_build hanswer
  cases hprogram
  exact ⟨entries, hkept.sound.decodes, hkept.sound.wrapped,
    (hkept.sound.fault?_eq_none_iff name).mp hfault⟩

/-- The machine reads finished code as it was built. -/
theorem finished_code_followed {requests : List Request} {name : String}
    {program : Program} {b : Builder}
    (hbuild : build name (History.of requests).builder = .ok program b) :
    ∃ entries, program.instructions = (entries, none) ∧ ∀ m : Machine,
      m.Follows program entries := by
  obtain ⟨entries, hfinished⟩ := finished_of_build hbuild
  refine ⟨entries, hfinished.decodes.readInstructions_eq, fun m => ?_⟩
  have haligned := fun k => (Machine.afterSteps_aligned hfinished m k)
  constructor
  case counter => exact fun k => (haligned k).2
  case executed =>
    intro k op hok
    obtain ⟨s', hexecute⟩ := Machine.execute_of_step_ok (haligned k).1 hok
    have hstep := hfinished.step (haligned k).2
    rw [hexecute] at hstep
    cases hstep with
    | executed hentry hpc hdecode hi _ =>
        exact ⟨_, hentry, hpc.symm, rfl, _, hdecode, hi.opcode, hi.operand⟩
  case failed =>
    intro k fault hrunning herror
    obtain ⟨s', hexecute⟩ := Machine.execute_of_step_error (haligned k).1
      (hfinished.writesAt (haligned k).2) hrunning herror
    have hstep := hfinished.step (haligned k).2
    rw [hexecute] at hstep
    cases hstep with
    | failed hfault _ => exact hfault
  case run =>
    intro fuel fault hfailed
    rw [Machine.runProgram, Machine.fst_run rfl] at hfailed
    exact Machine.stumbles_of_runCode hfinished hfinished.aligned_zero hfailed

/-- A forward jump over an addition that would find too few values, and two
requests that are refused. -/
def skipping : List Request :=
  [.emit .push (some 5), .emitJump .jnz none, .emit .add none,
    .build "skipping", .patch 2 5, .emit .fetch (some 40), .patch 2 0]

theorem build_skipping : build "skipping" (History.of skipping).builder =
    .ok ⟨#[2, 5, 8, 5, 4, 0, 40], "skipping"⟩ (History.of skipping).builder :=
  rfl

theorem finished_code_followed_skipping :
    build "skipping" (History.of skipping).builder =
        .ok ⟨#[2, 5, 8, 5, 4, 0, 40], "skipping"⟩
          (History.of skipping).builder ∧
      ∃ entries, Program.instructions ⟨#[2, 5, 8, 5, 4, 0, 40], "skipping"⟩ =
        (entries, none) ∧
        ∀ m : Machine, m.Follows ⟨#[2, 5, 8, 5, 4, 0, 40],
          "skipping"⟩ entries :=
  ⟨build_skipping, finished_code_followed build_skipping⟩

end Builder

end OnePass

import OnePass.Proofs.MachineRuns
import OnePass.Proofs.WholeText

/-!
A compiled program cannot go wrong. Whatever the variables hold, the machine is
always at an instruction of the program and the stack has the height that
belongs to that place, so that no instruction fails; and the halt is reached
with nothing on the stack.
-/

namespace OnePass

namespace Instruction

theorem heightBehind_cons (height : Nat) (i : Instruction)
    (is : List Instruction) :
    heightBehind height (i :: is) =
      (heightAfter height i).bind fun middle => heightBehind middle is :=
  rfl

/-- The height of the stack in front of an offset of a sequence. -/
def heightAt (height : Nat) : List Instruction → Nat → Nat
  | [], _ => height
  | i :: is, offset =>
      if offset = 0 then height
      else heightAt ((heightAfter height i).getD 0) is (offset - i.words.length)

theorem heightAt_length_encode {height middle : Nat} {before : List Instruction}
    (h : heightBehind height before = some middle) (after : List Instruction) :
    heightAt height (before ++ after) (encode before).length = middle := by
  induction before generalizing height with
  | nil =>
      cases h
      cases after with
      | nil => rfl
      | cons i after => rfl
  | cons i before ih =>
      obtain ⟨next, hnext, hrest⟩ :=
        Option.bind_eq_some_iff.mp (heightBehind_cons height i before ▸ h)
      have hpositive : (encode (i :: before)).length ≠ 0 := by
        simp [words]
      rw [List.cons_append, heightAt, if_neg hpositive, hnext, Option.getD_some,
        encode_cons, List.length_append, Nat.add_sub_cancel_left]
      exact ih hrest

theorem heightAfter_eq_some {height next : Nat} {i : Instruction}
    (h : heightAfter height i = some next) :
    i.opcode.pops ≤ height ∧ next + i.opcode.pops = height + i.opcode.pushes ∧
      (∀ target, i.target? = some target → next = 0) := by
  unfold heightAfter at h
  split at h
  · rename_i hheight
    cases h
    refine ⟨hheight.1, by omega, fun target htarget => ?_⟩
    have hexact := hheight.2 (by rw [htarget]; rfl)
    rw [hexact, Nat.sub_self, Nat.zero_add]
    cases i with
    | jz | jnz | jmp => rfl
    | _ => cases htarget
  · cases h

end Instruction

namespace Tree.Statement

open Instruction

theorem heightBehind_programInstructions (t : Statement) :
    heightBehind 0 t.programInstructions = some 0 := by
  rw [programInstructions, heightBehind_append (t.balanced 0).height]
  rfl

/-- The machine is at an instruction of the program, with the height of the
stack that belongs to the place. Once it has halted it is at a halt. -/
def Safe (t : Statement) (s : State) : Prop :=
  ∃ before i after, t.programInstructions = before ++ i :: after ∧
    s.pc = (encode before).length ∧
    heightBehind 0 before = some s.stack.length ∧ (s.halted = true → i = .halt)

theorem safe_of_isLevel {t : Statement} {s : State}
    (h : IsLevel 0 (t.instructions 0) s.pc) (hstack : s.stack.length = 0)
    (hrunning : s.halted = false) : t.Safe s := by
  obtain ⟨before, i, after, hsplit, hpc, hheight⟩ :=
    exists_instruction_of_isLevel h
  refine ⟨before, i, after, hsplit, hpc, ?_, fun hhalted => ?_⟩
  · rw [hheight, hstack]
  · rw [hrunning] at hhalted
    cases hhalted

theorem safe_behind {t : Statement} {s : State}
    {before after : List Instruction} {i : Instruction}
    (hsplit : t.programInstructions = before ++ i :: after) (hi : i ≠ .halt)
    (hpc : s.pc = (encode before).length + i.opcode.size)
    (hheight : heightBehind 0 (before ++ [i]) = some s.stack.length)
    (hrunning : s.halted = false) :
    t.Safe s := by
  obtain ⟨j, later, rfl⟩ := exists_next_of_ne_halt hsplit hi
  refine ⟨before ++ [i], j, later, by simp [hsplit], ?_, hheight,
    fun hhalted => ?_⟩
  · rw [hpc, encode_append, encode_cons, encode_nil, List.append_nil,
      List.length_append, length_words]
  · rw [hrunning] at hhalted
    cases hhalted

theorem safe_start (t : Statement) (table : Table) :
    t.Safe { table := table } :=
  safe_of_isLevel (isLevel_start 0 (t.instructions 0)) rfl rfl

theorem atEnd_of_split_halt {t : Statement} {s : State}
    {before after : List Instruction}
    (hsplit : t.programInstructions = before ++ .halt :: after)
    (hpc : s.pc = (encode before).length)
    (hheight : heightBehind 0 before = some s.stack.length) :
    s.pc + 1 = t.program.length ∧ s.stack = [] := by
  obtain ⟨rfl, rfl⟩ := eq_of_split_halt hsplit
  rw [(t.balanced 0).height] at hheight
  refine ⟨?_, List.length_eq_zero_iff.mp (Option.some.inj hheight).symm⟩
  rw [hpc, program, code_eq_encode, List.length_append]
  rfl

theorem Safe.step {t : Statement} {s : State} (h : t.Safe s)
    (hrunning : s.halted = false) :
    ∃ op s', State.execute t.program.toArray s = .ok op s' ∧ t.Safe s' ∧
      (op = .halt → s.pc + 1 = t.program.length ∧ s.stack = []) := by
  obtain ⟨before, i, after, hsplit, hpc, hheight, -⟩ := h
  -- The whole program has a height behind it, and so has every instruction on
  -- the way.
  have hwhole := t.heightBehind_programInstructions
  rw [hsplit, heightBehind_append hheight, heightBehind_cons] at hwhole
  obtain ⟨next, hnext, -⟩ := Option.bind_eq_some_iff.mp hwhole
  obtain ⟨hpops, hpushes, hjump⟩ := heightAfter_eq_some hnext
  obtain ⟨s', hperforms⟩ := State.exists_performs hpops
  have hdecode := decodeAt_program hsplit
  rw [← hpc] at hdecode
  have hlength : s'.stack.length = next := by
    have hchange := hperforms.height
    omega
  refine ⟨_, _, State.execute_of_performs hdecode hperforms, ?_, fun hop => ?_⟩
  · by_cases hi : i = .halt
    · subst hi
      cases hperforms
      exact ⟨before, .halt, after, hsplit, hpc, hheight, fun _ => rfl⟩
    · obtain ⟨hhalted, hcounter⟩ := hperforms.counter hi
      rw [hrunning] at hhalted
      rcases hcounter with hbehind | ⟨target, htarget, hthere⟩
      · refine safe_behind hsplit hi (hpc ▸ hbehind) ?_ hhalted
        rw [heightBehind_append hheight, heightBehind_singleton, hnext, hlength]
      · -- A jump leaves the stack empty, as it is at every place that jumps lead to.
        have hmem : i ∈ t.programInstructions := by simp [hsplit]
        refine safe_of_isLevel ?_ (hlength.trans (hjump target htarget)) hhalted
        exact hthere ▸ isLevel_of_target hmem htarget
  · have hhalt : i = .halt := by
      cases i with
      | halt => rfl
      | _ => cases hop
    subst hhalt
    exact atEnd_of_split_halt hsplit hpc hheight

theorem Safe.atEnd {t : Statement} {s : State} (h : t.Safe s)
    (hhalted : s.halted = true) :
    s.pc + 1 = t.program.length ∧ s.stack = [] := by
  obtain ⟨before, i, after, hsplit, hpc, hheight, hhalt⟩ := h
  rw [hhalt hhalted] at hsplit
  exact atEnd_of_split_halt hsplit hpc hheight

theorem Safe.mem_offsets {t : Statement} {s : State} (h : t.Safe s) :
    s.pc ∈ (entries 0 t.programInstructions).map Entry.offset := by
  obtain ⟨before, i, after, hsplit, hpc, -⟩ := h
  rw [hpc]
  exact mem_offsets_of_split hsplit

theorem Safe.height {t : Statement} {s : State} (h : t.Safe s) :
    s.stack.length = heightAt 0 t.programInstructions s.pc := by
  obtain ⟨before, i, after, hsplit, hpc, hheight, -⟩ := h
  rw [hpc, hsplit, heightAt_length_encode hheight]

theorem loggable_program (t : Statement) : Loggable t.program.toArray :=
  loggable_of_words fun _ hword => isShown_of_mem_program hword

end Tree.Statement

namespace Machine

open OnePass.Tree (Statement)

/-- The machine that has loaded a program and executed so many instructions of
it. -/
def afterSteps (m : Machine) (program : Program) : Nat → Machine
  | 0 => m.load program
  | k + 1 => (m.afterSteps program k).step.2

/-- A machine goes through a program safely, whatever its variables hold, and
whether it is watched or traced or not: to every place of the program belongs a
height of the stack; no instruction fails; and the halt is the last word of the
program and finds the stack empty, so that no warning about values left over is
logged. -/
structure Safe (m : Machine) (program : Program) (offsets : List Nat)
    (d : Nat → Nat) : Prop where
  counter : ∀ k, (m.afterSteps program k).state.pc ∈ offsets
  height : ∀ k, (m.afterSteps program k).state.stack.length =
    d (m.afterSteps program k).state.pc
  step : ∀ k, (m.afterSteps program k).state.halted = false →
    ∃ op, (m.afterSteps program k).step.1 = .ok op ∧
      (op = .halt → (m.afterSteps program k).state.pc + 1 = program.size ∧
        (m.afterSteps program k).state.stack = [])
  halted : ∀ k, (m.afterSteps program k).state.halted = true →
    (m.afterSteps program k).state.pc + 1 = program.size ∧
      (m.afterSteps program k).state.stack = []
  run : ∀ fuel fault, (m.runProgram program fuel).1 ≠ .failed fault
  log : ∀ fuel count, .leftOver count ∈ (m.runProgram program fuel).2.log →
    .leftOver count ∈ m.log

theorem writes_program (m : Machine) (t : Statement) :
    m.Writes t.program.toArray :=
  fun _ => t.loggable_program

theorem step_of_safe {m : Machine} {t : Statement} {name : String}
    (hprogram : m.program = some ⟨t.program.toArray, name⟩)
    (hsafe : t.Safe m.state) (hrunning : m.state.halted = false) :
    ∃ op, m.step.1 = .ok op ∧ m.step.2.program = m.program ∧
    t.Safe m.step.2.state ∧
      (op = .halt → m.state.pc + 1 = t.program.length ∧
        m.state.stack = []) := by
  obtain ⟨op, s', hexecute, hsafe', hend⟩ := hsafe.step hrunning
  have hstep :
      m.step = (.ok op, { m.logged t.program.toArray with state := s' }) := by
    rw [step, hprogram]
    simp only [hrunning, Bool.false_eq_true, if_false]
    exact execute_of_ok (m.writes_program t).writesAt hexecute
  rw [hstep]
  exact ⟨op, rfl, program_logged m _, hsafe', hend⟩

theorem step_of_halted {m : Machine} {program : Program}
    (hprogram : m.program = some program) (hhalted : m.state.halted = true) :
    m.step.2 = m := by
  rw [step, hprogram]
  simp only [hhalted, if_true]

theorem afterSteps_safe (m : Machine) (t : Statement) (name : String)
    (k : Nat) :
    (m.afterSteps ⟨t.program.toArray, name⟩ k).program =
      some ⟨t.program.toArray, name⟩ ∧
      t.Safe (m.afterSteps ⟨t.program.toArray, name⟩ k).state := by
  induction k with
  | zero => exact ⟨rfl, t.safe_start m.state.table⟩
  | succ k ih =>
      obtain ⟨hprogram, hsafe⟩ := ih
      rw [afterSteps]
      cases hhalted :
        (m.afterSteps ⟨t.program.toArray, name⟩ k).state.halted with
      | true =>
          rw [step_of_halted hprogram hhalted]
          exact ⟨hprogram, hsafe⟩
      | false =>
          obtain ⟨op, -, hsame, hsafe', -⟩ :=
            step_of_safe hprogram hsafe hhalted
          exact ⟨hsame.trans hprogram, hsafe'⟩

theorem runCode_endsWithin_safe (m : Machine) (t : Statement) (name : String)
    (fuel : Nat) :
    EndsWithin t.Safe m
      ((m.load ⟨t.program.toArray, name⟩).runCode t.program.toArray fuel) := by
  have hstep : ∀ s, t.Safe s → s.halted = false →
      ∃ op s', State.execute t.program.toArray s = .ok op s' ∧ t.Safe s' := by
    intro s hsafe hrunning
    obtain ⟨op, s', hexecute, hsafe', -⟩ := hsafe.step hrunning
    exact ⟨op, s', hexecute, hsafe'⟩
  have hends := runCode_endsWithin hstep fuel (m.load ⟨t.program.toArray, name⟩)
    (writes_program _ t) (t.safe_start m.state.table)
  exact ⟨hends.invariant, hends.notFailed, hends.halted, hends.log⟩

theorem runProgram_eq_runCode (m : Machine) (t : Statement) (name : String)
    (fuel : Nat) :
    m.runProgram ⟨t.program.toArray, name⟩ fuel =
      (m.load ⟨t.program.toArray, name⟩).runCode t.program.toArray fuel := by
  have hends := runCode_endsWithin_safe m t name fuel
  have hprogram : (m.load ⟨t.program.toArray, name⟩).program =
      some ⟨t.program.toArray, name⟩ := rfl
  rw [runProgram, run_eq_runCode hprogram]
  exact fun hhalted => (hends.invariant.atEnd (hends.halted hhalted)).2

end Machine

namespace Source

/-- Compiled code is safe on the machine. -/
theorem compiled_code_safe {s : Source} {limit : Nat} {program : Program}
    (hok : (s.compileWithin limit).outcome = .ok program) :
    ∃ (d : Nat → Nat) (offsets : List Nat),
      program.instructionOffsets = .ok offsets ∧
      ∀ m : Machine, m.Safe program offsets d := by
  obtain ⟨t, -, -, rfl⟩ := exists_tree_of_ok hok
  refine ⟨Instruction.heightAt 0 t.programInstructions, _,
    t.instructionOffsets_program s.name, fun m => ?_⟩
  have hsafe := fun k => (m.afterSteps_safe t s.name k).2
  have hends := m.runCode_endsWithin_safe t s.name
  refine ⟨fun k => (hsafe k).mem_offsets, fun k => (hsafe k).height,
    fun k hrunning => ?_,
    fun k => (hsafe k).atEnd, fun fuel => ?_, fun fuel => ?_⟩
  · obtain ⟨op, hop, -, -, hend⟩ :=
      Machine.step_of_safe (m.afterSteps_safe t s.name k).1 (hsafe k) hrunning
    exact ⟨op, hop, hend⟩
  · rw [m.runProgram_eq_runCode t s.name fuel]
    exact (hends fuel).notFailed
  · rw [m.runProgram_eq_runCode t s.name fuel]
    exact (hends fuel).log

theorem compiled_code_safe_alternating :
    alternating.compile.outcome =
      .ok ⟨alternatingTree.program.toArray, alternating.name⟩ ∧
      ∃ (d : Nat → Nat) (offsets : List Nat),
        Program.instructionOffsets ⟨alternatingTree.program.toArray,
          alternating.name⟩ =
          .ok offsets ∧
        ∀ m : Machine, m.Safe ⟨alternatingTree.program.toArray,
          alternating.name⟩ offsets d :=
  ⟨outcome_alternating, compiled_code_safe outcome_alternating⟩

end Source

end OnePass

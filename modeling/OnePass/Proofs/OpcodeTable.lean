import OnePass.Proofs.MachineUse

namespace OnePass

theorem Opcode.word_of_ofWord? {word : Int} {op : Opcode}
    (h : ofWord? word = some op) :
    op.word = word := by
  simpa using List.find?_some h

namespace Instruction

variable {code : Array Int} {pc : Nat} {op : Opcode}

/-- The words at an offset inside the code are those that the table asks for. An
address has to be in range whether it is needed or not. -/
structure Legible (code : Array Int) (pc : Nat) (op : Opcode) : Prop where
  opcode : code[pc]? = some op.word
  operand : op.size = 2 → ∃ n, code[pc + 1]? = some n
  slot : op.operandKind = .variable → ∀ n, code[pc + 1]? = some n →
    0 ≤ n ∧ n ≤ 25
  address : op.operandKind = .address → ∀ n, code[pc + 1]? = some n →
    0 ≤ n ∧ n < code.size

theorem opcodeAt_eq_ok_iff :
    opcodeAt code pc = .ok op ↔ code[pc]? = some op.word := by
  constructor
  · intro h
    unfold opcodeAt at h
    split at h
    · cases h
    · rename_i word hword
      split at h
      · cases h
      · rename_i found hfound
        cases h
        rw [hword, Opcode.word_of_ofWord? hfound]
  · intro h
    simp only [opcodeAt, h, Opcode.ofWord?_word]

theorem operandAt_eq_ok_iff {n : Int} :
    operandAt code pc = .ok n ↔ code[pc + 1]? = some n := by
  constructor
  · intro h
    unfold operandAt at h
    split at h
    · cases h
    · rename_i operand hoperand
      cases h
      exact hoperand
  · intro h
    simp only [operandAt, h]

theorem exists_variableAt {n : Int} (hoperand : code[pc + 1]? = some n)
    (hrange : 0 ≤ n ∧ n ≤ 25) :
    ∃ v, variableAt code pc = .ok v := by
  have hslot : 0 ≤ n ∧ n.toNat < 26 := by omega
  refine ⟨⟨n.toNat, hslot.2⟩, ?_⟩
  simp only [variableAt, operandAt_eq_ok_iff.mpr hoperand, bind, Except.bind,
    Variable.ofSlot?, dif_pos hslot]

theorem exists_targetAt {n : Int} (hoperand : code[pc + 1]? = some n)
    (hrange : 0 ≤ n ∧ n < code.size) : ∃ t, targetAt code pc = .ok t := by
  refine ⟨n.toNat, ?_⟩
  simp only [targetAt, operandAt_eq_ok_iff.mpr hoperand, bind, Except.bind,
    if_pos hrange]

theorem legible_of_decodeAt {i : Instruction} (h : decodeAt code pc = .ok i) :
    Legible code pc i.opcode := by
  obtain ⟨hopcode, hoperand, htarget⟩ := standsAt_of_decodeAt h
  have hword : ∀ n, i.operand = some n → code[pc + 1]? = some n :=
    fun n hn => operandAt_eq_ok_iff.mp (hoperand n hn)
  have hsame : ∀ n m, i.operand = some m → code[pc + 1]? = some n → n = m := by
    intro n m hm hn
    rw [hword m hm] at hn
    exact (Option.some.inj hn).symm
  refine ⟨opcodeAt_eq_ok_iff.mp hopcode, ?_, ?_, ?_⟩
  · intro hsize
    cases i with
    | fetch v | store v => exact ⟨v.val, hword _ rfl⟩
    | push n => exact ⟨n, hword _ rfl⟩
    | jz t | jnz t | jmp t => exact ⟨t, hword _ rfl⟩
    | pop | add | sub | lt | halt => cases hsize
  · intro hkind n hn
    cases i with
    | fetch v | store v =>
        have hv := v.isLt
        rw [hsame n v.val rfl hn]
        omega
    | push | jz | jnz | jmp | pop | add | sub | lt | halt => cases hkind
  · intro hkind n hn
    cases i with
    | jz t | jnz t | jmp t =>
        have ht := htarget t rfl
        rw [hsame n t rfl hn]
        omega
    | fetch | store | push | pop | add | sub | lt | halt => cases hkind

theorem exists_decodeAt_of_legible (h : Legible code pc op) :
    ∃ i, decodeAt code pc = .ok i ∧ i.opcode = op := by
  have hopcode := opcodeAt_eq_ok_iff.mpr h.opcode
  simp only [decodeAt, hopcode, bind, Except.bind]
  cases op with
  | fetch | store =>
      obtain ⟨n, hn⟩ := h.operand rfl
      obtain ⟨v, hv⟩ := exists_variableAt hn (h.slot rfl n hn)
      simp only [hv]
      exact ⟨_, rfl, rfl⟩
  | push =>
      obtain ⟨n, hn⟩ := h.operand rfl
      simp only [operandAt_eq_ok_iff.mpr hn]
      exact ⟨_, rfl, rfl⟩
  | jz | jnz | jmp =>
      obtain ⟨n, hn⟩ := h.operand rfl
      obtain ⟨t, ht⟩ := exists_targetAt hn (h.address rfl n hn)
      simp only [ht]
      exact ⟨_, rfl, rfl⟩
  | pop | add | sub | lt | halt => exact ⟨_, rfl, rfl⟩

/-- Why no instruction can be read at an offset. -/
inductive Misread (code : Array Int) (pc : Nat) : Flaw → Prop where
  | counter (hword : code[pc]? = none) : Misread code pc .counterOutOfRange
  | opcode {word : Int} (hword : code[pc]? = some word)
      (hunknown : Opcode.ofWord? word = none) :
      Misread code pc (.invalidOpcode word)
  | missing {op : Opcode} (hopcode : code[pc]? = some op.word)
      (hkind : op.operandKind ≠ .none)
      (hnone : code[pc + 1]? = none) : Misread code pc .missingOperand
  | slot {op : Opcode} {n : Int} (hopcode : code[pc]? = some op.word)
      (hkind : op.operandKind = .variable) (hoperand : code[pc + 1]? = some n) :
      Misread code pc (.slotOutOfRange n)
  | address {op : Opcode} {n : Int} (hopcode : code[pc]? = some op.word)
      (hkind : op.operandKind = .address) (hoperand : code[pc + 1]? = some n)
      (hrange : ¬ (0 ≤ n ∧ n < code.size)) :
        Misread code pc (.targetOutOfRange n)

theorem misread_of_opcodeAt {flaw : Flaw} (h : opcodeAt code pc = .error flaw) :
    Misread code pc flaw := by
  unfold opcodeAt at h
  split at h
  · rename_i hword
    cases h
    exact .counter hword
  · rename_i word hword
    split at h
    · rename_i hunknown
      cases h
      exact .opcode hword hunknown
    · cases h

section Operand

variable (hopcode : code[pc]? = some op.word)
include hopcode

theorem misread_of_operandAt (hkind : op.operandKind ≠ .none) {flaw : Flaw}
    (h : operandAt code pc = .error flaw) : Misread code pc flaw := by
  unfold operandAt at h
  split at h
  · rename_i hnone
    cases h
    exact .missing hopcode hkind hnone
  · cases h

theorem misread_of_variableAt (hkind : op.operandKind = .variable) {flaw : Flaw}
    (h : variableAt code pc = .error flaw) : Misread code pc flaw := by
  unfold variableAt at h
  cases hoperand : operandAt code pc with
  | error flaw' =>
      rw [hoperand] at h
      cases h
      exact misread_of_operandAt hopcode (by simp [hkind]) hoperand
  | ok n =>
      simp only [hoperand, bind, Except.bind] at h
      split at h
      · cases h
        exact .slot hopcode hkind (operandAt_eq_ok_iff.mp hoperand)
      · cases h

theorem misread_of_targetAt (hkind : op.operandKind = .address) {flaw : Flaw}
    (h : targetAt code pc = .error flaw) : Misread code pc flaw := by
  unfold targetAt at h
  cases hoperand : operandAt code pc with
  | error flaw' =>
      rw [hoperand] at h
      cases h
      exact misread_of_operandAt hopcode (by simp [hkind]) hoperand
  | ok n =>
      simp only [hoperand, bind, Except.bind] at h
      split at h
      · cases h
      · rename_i hrange
        cases h
        exact .address hopcode hkind (operandAt_eq_ok_iff.mp hoperand) hrange

end Operand

theorem error_of_bind_eq_error {α β : Type} {x : Except Flaw α}
    {f : α → Except Flaw β} {flaw : Flaw} (h : (x >>= f) = .error flaw) :
    x = .error flaw ∨ ∃ a, x = .ok a ∧ f a = .error flaw := by
  cases x with
  | error flaw' =>
      cases h
      exact .inl rfl
  | ok a => exact .inr ⟨a, rfl, h⟩

theorem misread_of_decodeAt {flaw : Flaw} (h : decodeAt code pc = .error flaw) :
    Misread code pc flaw := by
  rcases error_of_bind_eq_error h with h | ⟨op, hop, h⟩
  · exact misread_of_opcodeAt h
  · have hopcode := opcodeAt_eq_ok_iff.mp hop
    cases op with
    | fetch | store =>
        rcases error_of_bind_eq_error h with h | ⟨v, -, h⟩
        · exact misread_of_variableAt hopcode rfl h
        · cases h
    | push =>
        rcases error_of_bind_eq_error h with h | ⟨n, -, h⟩
        · exact misread_of_operandAt hopcode (by decide) h
        · cases h
    | jz | jnz | jmp =>
        rcases error_of_bind_eq_error h with h | ⟨t, -, h⟩
        · exact misread_of_targetAt hopcode rfl h
        · cases h
    | pop | add | sub | lt | halt => cases h

end Instruction

namespace State

open Instruction

variable {code : Array Int} {s s' : State}

/-- Whether the machine has to write out a word that is too long for that: one
that is no opcode, a slot or an address that there is not, or, when it traces, a
constant. -/
def overlong (code : Array Int) (traces : Bool) (s : State) : Bool :=
  match code[s.pc]? with
  | none => false
  | some word =>
      match Opcode.ofWord? word with
      | none => !Text.isShort word
      | some op =>
          match op.operandKind, code[s.pc + 1]? with
          | .variable, some slot => !Text.isShort slot
          | .address, some target => !isShown code.size target
          | .constant, some n => traces && !isShown code.size n
          | _, _ => false

theorem overlong_of_misread {flaw : Flaw} (h : Misread code s.pc flaw)
    (traces : Bool) :
    s.overlong code traces = false ↔
      ∀ n ∈ flaw.shown, Text.isShort n = true := by
  cases h with
  | counter hword => simp [overlong, hword, Flaw.shown]
  | opcode hword hunknown => simp [overlong, hword, hunknown, Flaw.shown]
  | missing hopcode hkind hnone =>
      simp [overlong, hopcode, Opcode.ofWord?_word, hnone, Flaw.shown]
  | slot hopcode hkind hoperand =>
      simp [overlong, hopcode, Opcode.ofWord?_word, hkind, hoperand, Flaw.shown]
  | address hopcode hkind hoperand hrange =>
      simp [overlong, hopcode, Opcode.ofWord?_word, hkind, hoperand, Flaw.shown,
        isShown_eq_isShort hrange]

theorem overlong_of_decodeAt {i : Instruction}
    (h : decodeAt code s.pc = .ok i) (traces : Bool) :
    s.overlong code traces = false ↔
      (traces = true → ∀ n, i = .push n → isShown code.size n = true) := by
  obtain ⟨hopcode, hoperand, htarget⟩ := standsAt_of_decodeAt h
  have hword := opcodeAt_eq_ok_iff.mp hopcode
  have hbehind := fun n hn => operandAt_eq_ok_iff.mp (hoperand n hn)
  cases i with
  | fetch v | store v =>
      simp [overlong, hword, Opcode.ofWord?_word, hbehind v.val rfl, opcode,
        Opcode.operandKind, Text.isShort_slot v]
  | push n =>
      simp [overlong, hword, Opcode.ofWord?_word, hbehind n rfl, opcode,
        Opcode.operandKind]
  | jz t | jnz t | jmp t =>
      simp [overlong, hword, Opcode.ofWord?_word, hbehind t rfl, opcode,
        Opcode.operandKind, isShown_of_lt (htarget t rfl)]
  | pop | add | sub | lt | halt =>
      simp [overlong, hword, Opcode.ofWord?_word, opcode, Opcode.operandKind]

/-- The machine can execute an instruction of the given opcode. -/
structure Ready (code : Array Int) (s : State) (op : Opcode) : Prop where
  running : s.halted = false
  legible : Legible code s.pc op
  values : op.pops ≤ s.stack.length

/-- An instruction changes no more than the table says: it puts its results on
what lies below the values that it takes, and of the variables it changes at
most the one that it is to store in. -/
structure Changes (code : Array Int) (op : Opcode) (s s' : State) : Prop where
  stack : ∃ results, results.length = op.pushes ∧
    s'.stack = results ++ s.stack.drop op.pops
  height : (s'.stack.length : Int) = s.stack.length + (op.pushes - op.pops)
  table : ∀ v, s'.table.value v ≠ s.table.value v →
    op = .store ∧ code[s.pc + 1]? = some (v.val : Int)
  steps : s'.steps = s.steps + 1

/-- An operation on two values finds just one. -/
def LacksOne (code : Array Int) (s : State) : Prop :=
  s.halted = false ∧ s.stack.length = 1 ∧
    ∃ op ∈ [Opcode.add, Opcode.sub, Opcode.lt], code[s.pc]? = some op.word

theorem Performs.exists_results {i : Instruction} (h : Performs i s s') :
    ∃ results, results.length = i.opcode.pushes ∧
    s'.stack = results ++ s.stack.drop i.opcode.pops := by
  cases h with
  | fetch v => exact ⟨[s.table.value v], rfl, rfl⟩
  | push n => exact ⟨[Word.wrap n], rfl, rfl⟩
  | jmp | halt => exact ⟨[], rfl, rfl⟩
  | @store v _ top rest hstack =>
      exact ⟨[top], rfl, by simp [hstack, opcode, Opcode.pops]⟩
  | pop hstack | jz _ hstack | jnz _ hstack =>
      exact ⟨[], rfl, by simp [hstack, opcode, Opcode.pops]⟩
  | @add _ left right rest hstack =>
      exact ⟨[Word.wrap (left + right)],
        rfl, by simp [hstack, opcode, Opcode.pops]⟩
  | @sub _ left right rest hstack =>
      exact ⟨[Word.wrap (left - right)],
        rfl, by simp [hstack, opcode, Opcode.pops]⟩
  | @lt _ left right rest hstack =>
      exact ⟨[if left < right then 1 else 0],
        rfl, by simp [hstack, opcode, Opcode.pops]⟩

theorem Performs.pops_le {i : Instruction} (h : Performs i s s') :
    i.opcode.pops ≤ s.stack.length := by
  cases h with
  | fetch | push | jmp | halt => exact Nat.zero_le _
  | store _ hstack | pop hstack | jz _ hstack | jnz _ hstack | add hstack
  | sub hstack | lt hstack =>
      simp [hstack, opcode, Opcode.pops]

theorem Performs.steps_eq {i : Instruction} (h : Performs i s s') :
    s'.steps = s.steps := by
  cases h <;> rfl

theorem Performs.eq_store {i : Instruction} (h : Performs i s s') {v : Variable}
    (hv : s'.table.value v ≠ s.table.value v) : i = .store v := by
  cases h with
  | @store u _ top rest hstack =>
      rw [Table.value_assign] at hv
      by_cases hsame : v = u
      · rw [hsame]
      · rw [if_neg hsame] at hv
        exact absurd rfl hv
  | fetch | push | jmp | halt | pop | add | sub | lt | jz | jnz =>
      exact absurd rfl hv

theorem Performs.changes {i : Instruction}
    (hdecode : decodeAt code s.pc = .ok i) (h : Performs i s s') :
    Changes code i.opcode s { s' with steps := s'.steps + 1 } := by
  have hheight :
      (s'.stack.length : Int) =
      s.stack.length + (i.opcode.pushes - i.opcode.pops) := by
    have hsum := h.height
    omega
  refine ⟨h.exists_results, hheight, ?_, congrArg (· + 1) h.steps_eq⟩
  intro v hv
  obtain rfl := h.eq_store hv
  exact ⟨rfl, operandAt_eq_ok_iff.mp
    ((standsAt_of_decodeAt hdecode).operand _ rfl)⟩

/-- Apart from operations on two values, an instruction that lacks a value has
an empty stack. -/
theorem stack_of_short {i : Instruction} (hdecode : decodeAt code s.pc = .ok i)
    (hrunning : s.halted = false) (hshort : s.stack.length < i.opcode.pops) :
    s.LacksOne code ∨ s.stack = [] := by
  by_cases hone : s.stack.length = 1
  · left
    refine ⟨hrunning, hone, i.opcode, ?_, (legible_of_decodeAt hdecode).opcode⟩
    rw [hone] at hshort
    cases i with
    | add | sub | lt => simp [opcode]
    | fetch | store | push | pop | jz | jnz | jmp | halt =>
        exact absurd hshort (by simp [opcode, Opcode.pops])
  · right
    apply List.eq_nil_of_length_eq_zero
    have htwo : i.opcode.pops ≤ 2 := by cases i <;> simp [opcode, Opcode.pops]
    omega

theorem LacksOne.exists_decodeAt (h : s.LacksOne code) :
    ∃ i, decodeAt code s.pc = .ok i ∧ i.opcode.pops = 2 := by
  obtain ⟨-, -, op, hop, hword⟩ := h
  have hkind : op.operandKind = .none ∧ op.pops = 2 := by
    simp only [List.mem_cons, List.not_mem_nil, or_false] at hop
    rcases hop with rfl | rfl | rfl <;> exact ⟨rfl, rfl⟩
  have hlegible : Legible code s.pc op := by
    refine ⟨hword, ?_, ?_, ?_⟩
    · intro hsize
      simp [Opcode.size, hkind.1] at hsize
    · intro hvariable
      rw [hkind.1] at hvariable
      cases hvariable
    · intro haddress
      rw [hkind.1] at haddress
      cases haddress
  obtain ⟨i, hdecode, rfl⟩ := exists_decodeAt_of_legible hlegible
  exact ⟨i, hdecode, hkind.2⟩

end State

namespace Machine

open Instruction
open OnePass.State (Ready Changes LacksOne)

variable {m : Machine} {code : Array Int}

/-- A failure is reported as what it is, unless that shows an integer which is
too long. -/
def Reports (code : Array Int) (traces : Bool) (s : State) (fault : CodeFault) :
    Prop :=
  (∃ text, fault.render = .ok text) ↔
    Text.isShort s.pc = true ∧
    (s.halted = true ∨ s.overlong code traces = false)

/-- The result of a step and the state that it leaves, in terms of the table. -/
inductive Obeys (code : Array Int) (traces : Bool) (s : State) :
    Except CodeFault Opcode → State → Prop where
  | changed {op : Opcode} {s' : State} (ready : s.Ready code op)
      (short : s.overlong code traces = false)
      (changes : s.Changes code op s') :
      Obeys code traces s (.ok op) s'
  | kept {flaw : Flaw} (unready : ∀ op, s.Ready code op →
      s.overlong code traces = true)
      (full : ¬ s.LacksOne code)
      (reports : Reports code traces s ⟨flaw, some s.pc⟩) :
      Obeys code traces s (.error ⟨flaw, some s.pc⟩) s
  | emptied {flaw : Flaw} (unready : ∀ op, ¬ s.Ready code op)
      (lacks : s.LacksOne code)
      (reports : Reports code traces s ⟨flaw, some s.pc⟩) :
      Obeys code traces s (.error ⟨flaw, some s.pc⟩) { s with stack := [] }

variable {traces : Bool}

theorem reports_of_shown {s : State} {flaw : Flaw}
    (hflaw : flaw ≠ .operandTooLong)
    (h : s.halted = true ∧ flaw.shown = [] ∨
      (s.halted = false ∧
      (s.overlong code traces = false ↔
      ∀ n ∈ flaw.shown, Text.isShort n = true))) :
    Reports code traces s ⟨flaw, some s.pc⟩ := by
  rw [Reports, CodeFault.exists_render_iff]
  rcases h with ⟨hhalted, hshown⟩ | ⟨hrunning, hshown⟩
  · simp [hflaw, hhalted, hshown]
  · simp [hflaw, hrunning, ← hshown, and_comm]

theorem obeys_of_halted {s : State} (h : s.halted = true) :
    Obeys code traces s (.error ⟨.alreadyHalted, some s.pc⟩) s := by
  apply Obeys.kept
  · intro op hready
    rw [hready.running] at h
    cases h
  · intro hlacks
    rw [hlacks.1] at h
    cases h
  · exact reports_of_shown (by decide) (.inl ⟨h, rfl⟩)

theorem obeys_of_flaw {s : State} {flaw : Flaw} (hrunning : s.halted = false)
    (h : decodeAt code s.pc = .error flaw) :
    Obeys code traces s (.error ⟨flaw, some s.pc⟩) s := by
  have hmisread := misread_of_decodeAt h
  apply Obeys.kept
  · intro op hready
    obtain ⟨i, hdecode, -⟩ := exists_decodeAt_of_legible hready.legible
    rw [h] at hdecode
    cases hdecode
  · intro hlacks
    obtain ⟨i, hdecode, -⟩ := hlacks.exists_decodeAt
    rw [h] at hdecode
    cases hdecode
  · refine reports_of_shown ?_
      (.inr ⟨hrunning, State.overlong_of_misread hmisread traces⟩)
    rintro rfl
    cases hmisread

theorem obeys_of_short {s : State} {i : Instruction}
    (hrunning : s.halted = false) (hdecode : decodeAt code s.pc = .ok i)
    (hshort : s.stack.length < i.opcode.pops) :
    Obeys code traces s (.error ⟨.stackUnderflow, some s.pc⟩)
      { s with stack := [] } := by
  have hunready : ∀ op, ¬ s.Ready code op := by
    intro op hready
    obtain ⟨j, hdecode', hop⟩ := exists_decodeAt_of_legible hready.legible
    rw [hdecode] at hdecode'
    cases hdecode'
    have hvalues := hready.values
    rw [← hop] at hvalues
    omega
  have hreports : Reports code traces s ⟨.stackUnderflow, some s.pc⟩ := by
    refine reports_of_shown (by decide) (.inr ⟨hrunning, ?_⟩)
    rw [State.overlong_of_decodeAt hdecode]
    refine ⟨fun _ n hn => (by cases hn), fun _ _ n hn => ?_⟩
    subst hn
    exact absurd hshort (Nat.not_lt_zero _)
  -- What is there is taken before a value is missed; on an empty stack that is
  -- nothing.
  by_cases hlacks : s.LacksOne code
  · exact .emptied hunready hlacks hreports
  · have hempty :=
      (State.stack_of_short hdecode hrunning hshort).resolve_left hlacks
    have hsame : { s with stack := [] } = s := by rw [← hempty]
    rw [hsame]
    exact .kept (fun op hready => absurd hready (hunready op)) hlacks hreports

theorem obeys_of_long {s : State} {n : Int} (hrunning : s.halted = false)
    (hdecode : decodeAt code s.pc = .ok (.push n))
    (hlong : isShown code.size n = false) :
    Obeys code true s (.error ⟨.operandTooLong, some s.pc⟩) s := by
  have hoverlong : s.overlong code true = true := by
    rw [← Bool.not_eq_false, State.overlong_of_decodeAt hdecode]
    intro hshown
    rw [hshown rfl n rfl] at hlong
    cases hlong
  apply Obeys.kept
  · exact fun _ _ => hoverlong
  · intro hlacks
    obtain ⟨i, hdecode', hpops⟩ := hlacks.exists_decodeAt
    rw [hdecode] at hdecode'
    cases hdecode'
    cases hpops
  · rw [Reports, CodeFault.exists_render_iff]
    simp [hrunning, hoverlong]

theorem step_obeys {program : Program} (hprogram : m.program = some program) :
    Obeys program.code m.traces m.state m.step.1 m.step.2.state := by
  cases hhalted : m.state.halted with
  | true =>
      simp only [step, hprogram, hhalted, if_true]
      exact obeys_of_halted hhalted
  | false =>
      rw [step_of_running hprogram hhalted]
      have hexecutes := m.executes program.code
      generalize m.execute program.code = result at hexecutes
      cases hexecutes with
      | executed hwrites hresult =>
          have hnext := State.executes program.code m.state
          rw [hresult] at hnext
          cases hnext with
          | performed hdecode hperforms =>
              refine .changed ⟨hhalted, legible_of_decodeAt hdecode,
                hperforms.pops_le⟩ ?_
                (hperforms.changes hdecode)
              rw [State.overlong_of_decodeAt hdecode]
              rintro htraces n rfl
              exact hwrites htraces n hdecode
      | failed hresult =>
          have hnext := State.executes program.code m.state
          rw [hresult] at hnext
          cases hnext with
          | flawed hdecode => exact obeys_of_flaw hhalted hdecode
          | short hdecode hshort => exact obeys_of_short hhalted hdecode hshort
      | tooLong htraces hdecode hlong =>
          rw [htraces]
          exact obeys_of_long hhalted hdecode hlong

theorem step_eq (m : Machine) :
    m.step.2 = { m with state := m.step.2.state, log := m.step.2.log } := by
  unfold step
  split
  · rfl
  · split
    · rfl
    · rename_i program _ _
      have hexecutes := m.executes program.code
      generalize m.execute program.code = result at hexecutes
      cases hexecutes with
      | executed | failed => rw [logged_eq]
      | tooLong => rfl

/-- A step succeeds exactly where the machine runs, the table admits the words
at the program counter, the stack holds what is to be taken, and a constant that
is to be logged is short enough. Then it changes what the table says. Otherwise
it fails at the program counter and changes nothing, except that an operation on
two values takes the only one. The failure is reported as what it is, unless
that shows an integer which is too long. -/
theorem step_obeys_table {m : Machine} {program : Program}
    (hprogram : m.program = some program) :
    (∀ op, m.step.1 = .ok op ↔
      m.state.Ready program.code op ∧
      m.state.overlong program.code m.traces = false) ∧
      (∀ op, m.step.1 = .ok op →
        m.state.Changes program.code op m.step.2.state) ∧
      (∀ fault, m.step.1 = .error fault →
        fault.offset = some (m.state.pc : Int) ∧
          (m.state.LacksOne program.code →
            m.step.2.state = { m.state with stack := [] }) ∧
          (¬ m.state.LacksOne program.code → m.step.2.state = m.state) ∧
          ((∃ text, fault.render = .ok text) ↔ Text.isShort m.state.pc = true ∧
            (m.state.halted = true ∨
              m.state.overlong program.code m.traces = false))) ∧
      m.step.2 = { m with state := m.step.2.state, log := m.step.2.log } := by
  have hobeys := step_obeys hprogram
  refine ⟨fun op => ⟨?_, ?_⟩, ?_, ?_, m.step_eq⟩
  · intro hok
    rw [hok] at hobeys
    cases hobeys with
    | changed ready short => exact ⟨ready, short⟩
  · rintro ⟨hready, hshort⟩
    generalize m.step.1 = result at hobeys ⊢
    generalize m.step.2.state = s at hobeys
    cases hobeys with
    | changed ready =>
        have hword := hready.legible.opcode
        rw [ready.legible.opcode] at hword
        rw [Opcode.eq_of_word_eq (Option.some.inj hword)]
    | kept unready =>
        rw [unready op hready] at hshort
        cases hshort
    | emptied unready => exact absurd hready (unready op)
  · intro op hok
    rw [hok] at hobeys
    cases hobeys with
    | changed _ _ changes => exact changes
  · intro fault herror
    rw [herror] at hobeys
    generalize m.step.2.state = s at hobeys ⊢
    cases hobeys with
    | kept _ full reports =>
        exact ⟨rfl, fun lacks => absurd lacks full, fun _ => rfl, reports⟩
    | emptied _ lacks reports =>
        exact ⟨rfl, fun _ => rfl, fun full => absurd lacks full, reports⟩

/-- A machine in front of an instruction, with some values on its stack. -/
def before (code : Array Int) (stack : List Int) : Machine where
  state := { stack := stack }
  program := some { code := code }

/-- A store into the fourth variable, a branch to an address outside that would
not be taken, and an addition of which only one value is there. -/
theorem step_obeys_table_before :
    ((before #[1, 3] [5, 6]).state.Ready #[1, 3] .store ∧
      (before #[1, 3] [5, 6]).state.Changes #[1, 3] .store
        (before #[1, 3] [5, 6]).step.2.state) ∧
    ((before #[7, 2] [1]).step.1 = .error ⟨.targetOutOfRange 2, some 0⟩ ∧
      (before #[7, 2] [1]).step.2.state = (before #[7, 2] [1]).state) ∧
    ((before #[4] [5]).step.1 = .error ⟨.stackUnderflow, some 0⟩ ∧
      (before #[4] [5]).step.2.state = (before #[4] []).state) := by
  have hstore : (before #[1, 3] [5, 6]).step.1 = .ok .store := rfl
  have hbranch :
      (before #[7, 2] [1]).step.1 = .error ⟨.targetOutOfRange 2, some 0⟩ := rfl
  have hadd : (before #[4] [5]).step.1 = .error ⟨.stackUnderflow, some 0⟩ := rfl
  have hfull : ¬ (before #[7, 2] [1]).state.LacksOne #[7, 2] := by
    rintro ⟨-, -, op, hop, hword⟩
    simp only [List.mem_cons, List.not_mem_nil, or_false] at hop
    rcases hop with rfl | rfl | rfl <;> cases hword
  have hlacks : (before #[4] [5]).state.LacksOne #[4] :=
    ⟨rfl, rfl, .add, List.mem_cons_self, rfl⟩
  refine ⟨⟨?_, ?_⟩, ⟨hbranch, ?_⟩, ⟨hadd, ?_⟩⟩
  · exact (((step_obeys_table rfl).1 .store).mp hstore).1
  · exact (step_obeys_table rfl).2.1 .store hstore
  · exact ((step_obeys_table rfl).2.2.1 _ hbranch).2.2.1 hfull
  · exact ((step_obeys_table rfl).2.2.1 _ hadd).2.1 hlacks

/-- A word that is no opcode can be too long for the report of the failure. -/
theorem unknown_word_not_reported :
    (before #[Text.leastLong] []).step.1 =
        .error ⟨.invalidOpcode Text.leastLong, some 0⟩ ∧
      ∀ text, CodeFault.render ⟨.invalidOpcode Text.leastLong, some 0⟩ ≠
        .ok text := by
  have hopcode : Instruction.opcodeAt #[(Text.leastLong : Int)] 0 =
      .error (.invalidOpcode Text.leastLong) := by
    simp [Instruction.opcodeAt,
      Opcode.ofWord?_of_not_isShort Text.isShort_leastLong]
  constructor
  · rw [step_of_running rfl rfl,
      execute_of_error (State.execute_of_opcodeAt_error hopcode)]
    rfl
  · exact CodeFault.render_ne_ok List.mem_cons_self Text.isShort_leastLong

end Machine

end OnePass

import OnePass.Builder
import OnePass.Proofs.ShortNumbers
import OnePass.Proofs.StackLevels

namespace OnePass

namespace Instruction

theorem exists_target_of_isJump {i : Instruction} (h : i.opcode.isJump = true) :
    ∃ t : Nat, i.target? = some t ∧ i.operand = some (t : Int) := by
  cases i with
  | jz t | jnz t | jmp t => exact ⟨t, rfl, rfl⟩
  | _ => simp [opcode, Opcode.isJump, Opcode.operandKind] at h

/-- The constants of some instructions are machine words. -/
def Wrapped (is : List Instruction) : Prop :=
  ∀ n, .push n ∈ is → Word.InRange n

@[simp] theorem wrapped_nil : Wrapped [] := by
  intro n hmem
  cases hmem

@[simp] theorem wrapped_cons (i : Instruction) (is : List Instruction) :
    Wrapped (i :: is) ↔ (∀ n, .push n = i → Word.InRange n) ∧ Wrapped is := by
  simp only [Wrapped, List.mem_cons, or_imp, forall_and]

@[simp] theorem wrapped_append (is js : List Instruction) :
    Wrapped (is ++ js) ↔ Wrapped is ∧ Wrapped js := by
  simp only [Wrapped, List.mem_append, or_imp, forall_and]

end Instruction

namespace Tree

open Instruction

mutual

theorem Term.wrapped : ∀ t : Term, Wrapped t.instructions
  | .variable v => by simp [Term.instructions]
  | .number k => by
      rw [Term.instructions, wrapped_cons]
      refine ⟨fun n hn => ?_, wrapped_nil⟩
      rw [push.inj hn]
      exact Word.wrap_inRange k
  | .group e => by
      rw [Term.instructions]
      exact e.wrapped

theorem Sum.wrapped : ∀ s : Sum, Wrapped s.instructions
  | .term t => by
      rw [Sum.instructions]
      exact t.wrapped
  | .add left right => by simp [Sum.instructions, left.wrapped, right.wrapped]
  | .sub left right => by simp [Sum.instructions, left.wrapped, right.wrapped]

theorem Test.wrapped : ∀ t : Test, Wrapped t.instructions
  | .sum s => by
      rw [Test.instructions]
      exact s.wrapped
  | .less left right => by simp [Test.instructions, left.wrapped, right.wrapped]

theorem Expression.wrapped : ∀ e : Expression, Wrapped e.instructions
  | .test t => by
      rw [Expression.instructions]
      exact t.wrapped
  | .assign v e => by simp [Expression.instructions, e.wrapped]

end

mutual

theorem Statement.wrapped :
    ∀ (s : Statement) (base : Nat), Wrapped (s.instructions base)
  | .ifThen c s, base => by simp [Statement.instructions, c.wrapped, s.wrapped]
  | .ifElse c s t, base => by
      simp [Statement.instructions, c.wrapped, s.wrapped, t.wrapped]
  | .whileDo c s, base => by simp [Statement.instructions, c.wrapped, s.wrapped]
  | .doWhile s c, base => by simp [Statement.instructions, c.wrapped, s.wrapped]
  | .block b, base => by
      rw [Statement.instructions]
      exact b.wrapped base
  | .expression e, base => by simp [Statement.instructions, e.wrapped]
  | .empty, base => by simp [Statement.instructions]

theorem Block.wrapped :
    ∀ (b : Block) (base : Nat), Wrapped (b.instructions base)
  | .nil, base => by simp [Block.instructions]
  | .cons s rest, base => by simp [Block.instructions, s.wrapped, rest.wrapped]

end

end Tree

namespace Tree.Statement

open Instruction

def programInstructions (s : Statement) : List Instruction :=
  s.instructions 0 ++ [.halt]

theorem program_eq_encode (s : Statement) :
    s.program = encode s.programInstructions := by
  rw [program, code_eq_encode, programInstructions, encode_append]
  rfl

theorem exists_instruction_of_isLevel {s : Statement} {t : Nat}
    (h : IsLevel 0 (s.instructions 0) t) :
    ∃ before i after, s.programInstructions = before ++ i :: after ∧
    t = (encode before).length ∧
      heightBehind 0 before = some 0 := by
  obtain ⟨before, after, hsplit, ht, hlevel⟩ := h
  rw [Nat.zero_add] at ht
  rw [programInstructions, hsplit]
  cases after with
  | nil => exact ⟨before, .halt, [], by simp, ht, hlevel⟩
  | cons i after => exact ⟨before, i, after ++ [.halt], by simp, ht, hlevel⟩

theorem isLevel_of_target {s : Statement} {i : Instruction}
    (hi : i ∈ s.programInstructions) {t : Nat} (ht : i.target? = some t) :
    IsLevel 0 (s.instructions 0) t := by
  rcases List.mem_append.mp hi with hi | hi
  · exact ((s.balanced 0).stays i hi).2 t ht
  · rw [List.mem_singleton.mp hi] at ht
    simp [target?] at ht

theorem instructions_program (s : Statement) (name : String) :
    Program.instructions ⟨s.program.toArray, name⟩ =
      (entries 0 s.programInstructions, none) := by
  rw [Program.instructions, List.toList_toArray, program_eq_encode,
    readInstructions_encode]

theorem instructionOffsets_program (s : Statement) (name : String) :
    Program.instructionOffsets ⟨s.program.toArray, name⟩ =
      .ok ((entries 0 s.programInstructions).map Entry.offset) := by
  rw [Program.instructionOffsets, instructions_program]

theorem mem_offsets_of_split {s : Statement} {before after : List Instruction}
    {i : Instruction} (h : s.programInstructions = before ++ i :: after) :
    (encode before).length ∈
      (entries 0 s.programInstructions).map Entry.offset :=
  mem_offsets_iff.mpr ⟨before, i, after, h, by rw [Nat.zero_add]⟩

theorem mem_offsets_of_target {s : Statement} {i : Instruction}
    (hi : i ∈ s.programInstructions) {t : Nat} (ht : i.target? = some t) :
    t ∈ (entries 0 s.programInstructions).map Entry.offset := by
  obtain ⟨before, _, _, hsplit, rfl, _⟩ :=
    exists_instruction_of_isLevel (isLevel_of_target hi ht)
  exact mem_offsets_of_split hsplit

theorem fault?_program (s : Statement) (name : String) :
    Builder.fault? ⟨s.program.toArray, name⟩ = none := by
  rw [Builder.fault?, instructionOffsets_program, instructions_program]
  refine List.findSome?_eq_none_iff.mpr fun entry hentry => ?_
  obtain ⟨i, hi, hopcode, hoperand⟩ := exists_instruction_of_mem_entries hentry
  rw [Builder.strayJump?, hopcode, hoperand]
  by_cases hjump : i.opcode.isJump = true
  · obtain ⟨t, ht, hop⟩ := exists_target_of_isJump hjump
    have hmem := mem_offsets_of_target hi ht
    rw [hop]
    have hany : ((entries 0 s.programInstructions).map Entry.offset).any
        (fun offset => decide ((offset : Int) = t)) = true :=
      List.any_eq_true.mpr ⟨t, hmem, by simp⟩
    simp only [hany, Bool.not_true, Bool.and_false, Bool.false_eq_true,
      if_false]
  · cases i.operand with
    | none => rfl
    | some target => simp [hjump]

theorem target_lt_length {s : Statement} {i : Instruction}
    (hi : i ∈ s.programInstructions) {t : Nat} (ht : i.target? = some t) :
    t < s.program.length := by
  obtain ⟨before, j, after, hsplit, rfl, -⟩ :=
    exists_instruction_of_isLevel (isLevel_of_target hi ht)
  rw [program_eq_encode, hsplit, encode_append, encode_cons, List.length_append,
    List.length_append, words, List.length_cons]
  omega

theorem wrapped_programInstructions (s : Statement) :
    Wrapped s.programInstructions := by
  simp [programInstructions, s.wrapped]

theorem isShown_of_mem_program {s : Statement} {word : Int}
    (h : word ∈ s.program) :
    isShown s.program.length word = true := by
  have hmem := h
  rw [program_eq_encode, encode, List.mem_flatMap] at hmem
  obtain ⟨i, hi, hword⟩ := hmem
  rcases List.mem_cons.mp hword with rfl | hoperand
  · exact isShown_of_isShort (Text.isShort_opcode i.opcode) s.program.length
  · rw [Option.mem_toList] at hoperand
    cases i with
    | fetch v | store v =>
        cases hoperand
        exact isShown_of_isShort (Text.isShort_slot v) s.program.length
    | push n =>
        cases hoperand
        have hrange := s.wrapped_programInstructions word hi
        exact isShown_of_isShort
          (Text.isShort_of_inRange hrange) s.program.length
    | jz t | jnz t | jmp t =>
        cases hoperand
        exact isShown_of_lt (target_lt_length hi rfl)
    | pop | add | sub | lt | halt => cases hoperand

theorem decodeAt_program {s : Statement} {before after : List Instruction}
    {i : Instruction} (h : s.programInstructions = before ++ i :: after) :
    decodeAt s.program.toArray (encode before).length = .ok i := by
  rw [program_eq_encode, h]
  refine decodeAt_encode before after i fun t ht => ?_
  have hi : i ∈ s.programInstructions := by simp [h]
  rw [← h, ← program_eq_encode]
  exact target_lt_length hi ht

theorem eq_of_split_halt {s : Statement} {before after : List Instruction}
    (h : s.programInstructions = before ++ .halt :: after) :
    before = s.instructions 0 ∧ after = [] := by
  rcases List.eq_nil_or_concat after with rfl | ⟨middle, last, rfl⟩
  · rw [programInstructions] at h
    exact ⟨(List.append_inj_left' h rfl).symm, rfl⟩
  · -- Otherwise the first halt would stand inside the statement.
    rw [programInstructions, List.concat_eq_append, ← List.cons_append,
      ← List.append_assoc] at h
    have hinner := List.append_inj_left' h rfl
    exact absurd rfl ((s.balanced 0).stays .halt (by simp [hinner])).1

theorem exists_next_of_ne_halt {s : Statement}
    {before after : List Instruction} {i : Instruction}
    (h : s.programInstructions = before ++ i :: after) (hi : i ≠ .halt) :
    ∃ j later, after = j :: later := by
  cases after with
  | nil =>
      have hlast :=
        List.append_inj_right'
        (h : s.instructions 0 ++ [.halt] = before ++ [i]) rfl
      exact absurd (List.cons.inj hlast).1.symm hi
  | cons j later => exact ⟨j, later, rfl⟩

end Tree.Statement

end OnePass

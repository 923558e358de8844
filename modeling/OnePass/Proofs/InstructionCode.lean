import OnePass.Machine.Instruction
import OnePass.Program

namespace OnePass

namespace Instruction

def operand : Instruction → Option Int
  | .fetch v | .store v => some v.val
  | .push n => some n
  | .jz target | .jnz target | .jmp target => some target
  | .pop | .add | .sub | .lt | .halt => none

/-- The address in an instruction, if it is a jump. -/
def target? : Instruction → Option Nat
  | .jz target | .jnz target | .jmp target => some target
  | _ => none

/-- The words of an instruction. -/
def words (i : Instruction) : List Int :=
  i.opcode.word :: i.operand.toList

theorem length_words (i : Instruction) : i.words.length = i.opcode.size := by
  cases i <;> rfl

/-- The words of a sequence of instructions. -/
def encode (is : List Instruction) : List Int :=
  is.flatMap words

@[simp] theorem encode_nil : encode [] = [] :=
  rfl

@[simp] theorem encode_cons (i : Instruction) (is : List Instruction) :
    encode (i :: is) = i.words ++ encode is :=
  rfl

@[simp] theorem encode_append (is js : List Instruction) :
    encode (is ++ js) = encode is ++ encode js := by
  simp [encode]

/-- The instructions of a sequence with their offsets, the first at `base`. -/
def entries (base : Nat) : List Instruction → List Entry
  | [] => []
  | i :: is => ⟨base, i.opcode, i.operand⟩ :: entries (base + i.words.length) is

theorem readInstructions_encode (is : List Instruction) (base : Nat) :
    readInstructions base (encode is) = (entries base is, none) := by
  induction is generalizing base with
  | nil => simp [readInstructions, entries]
  | cons i is ih =>
      cases i <;>
        simp [words, opcode, operand, readInstructions, Opcode.ofWord?_word,
          Opcode.size, Opcode.operandKind, ih, entries]

theorem mem_offsets_iff {is : List Instruction} {base offset : Nat} :
    offset ∈ (entries base is).map Entry.offset ↔
      ∃ before i after, is = before ++ i :: after ∧
      offset = base + (encode before).length := by
  induction is generalizing base with
  | nil => simp [entries]
  | cons j is ih =>
      simp only [entries, List.map_cons, List.mem_cons, ih]
      constructor
      · rintro (rfl | ⟨before, i, after, rfl, rfl⟩)
        · exact ⟨[], j, is, rfl, rfl⟩
        · exact ⟨j :: before, i, after, rfl, by simp [Nat.add_assoc]⟩
      · rintro ⟨before, i, after, heq, rfl⟩
        cases before with
        | nil => exact .inl rfl
        | cons k before =>
            obtain ⟨rfl, rfl⟩ := List.cons.inj heq
            exact .inr ⟨before, i, after, rfl, by simp [Nat.add_assoc]⟩

theorem exists_instruction_of_mem_entries {is : List Instruction} {base : Nat}
    {entry : Entry} (h : entry ∈ entries base is) :
    ∃ i ∈ is, entry.opcode = i.opcode ∧ entry.operand = i.operand := by
  induction is generalizing base with
  | nil => simp [entries] at h
  | cons j is ih =>
      rcases List.mem_cons.mp h with rfl | h
      · exact ⟨j, by simp, rfl, rfl⟩
      · obtain ⟨i, hi, heq⟩ := ih h
        exact ⟨i, by simp [hi], heq⟩

theorem getElem?_encode (before after : List Instruction) (i : Instruction)
    {n : Nat} (hn : n < i.words.length) :
    (encode (before ++ i :: after)).toArray[(encode before).length + n]? =
      i.words[n]? := by
  rw [List.getElem?_toArray, encode_append, encode_cons,
    List.getElem?_append_right (Nat.le_add_right _ _), Nat.add_sub_cancel_left,
    List.getElem?_append_left hn]

theorem opcodeAt_encode (before after : List Instruction) (i : Instruction) :
    opcodeAt (encode (before ++ i :: after)).toArray (encode before).length =
      .ok i.opcode := by
  have hword := getElem?_encode before after i (n := 0) (by simp [words])
  rw [Nat.add_zero] at hword
  simp only [opcodeAt, hword, words, List.getElem?_cons_zero,
    Opcode.ofWord?_word]

theorem operandAt_encode (before after : List Instruction) (i : Instruction)
    {operand : Int} (hoperand : i.operand = some operand) :
    operandAt (encode (before ++ i :: after)).toArray (encode before).length =
      .ok operand := by
  have hword :=
    getElem?_encode before after i (n := 1) (by simp [words, hoperand])
  simp only [operandAt, hword, words, hoperand, Option.toList_some,
    List.getElem?_cons_succ, List.getElem?_cons_zero]

theorem variableAt_encode (before after : List Instruction) (i : Instruction)
    {v : Variable} (hoperand : i.operand = some (v.val : Int)) :
    variableAt (encode (before ++ i :: after)).toArray
      (encode before).length = .ok v := by
  have hslot : Variable.ofSlot? v.val = some v := by
    simp [Variable.ofSlot?]
  simp only [variableAt, operandAt_encode before after i hoperand, bind,
    Except.bind, hslot]

theorem targetAt_encode (before after : List Instruction) (i : Instruction)
    {target : Nat} (hoperand : i.operand = some (target : Int))
    (htarget : target < (encode (before ++ i :: after)).length) :
    targetAt (encode (before ++ i :: after)).toArray (encode before).length =
      .ok target := by
  have hrange : (0 : Int) ≤ target ∧
      (target : Int) < (encode (before ++ i :: after)).toArray.size := by
    rw [List.size_toArray]
    omega
  simp only [targetAt, operandAt_encode before after i hoperand, bind,
    Except.bind, if_pos hrange, Int.toNat_natCast]

theorem decodeAt_encode (before after : List Instruction) (i : Instruction)
    (htarget : ∀ t, i.target? = some t →
      t < (encode (before ++ i :: after)).length) :
    decodeAt (encode (before ++ i :: after)).toArray
      (encode before).length = .ok i := by
  simp only [decodeAt, opcodeAt_encode before after i, bind, Except.bind]
  cases i with
  | fetch v =>
      simp only [opcode, variableAt_encode before after (.fetch v) rfl]; rfl
  | store v =>
      simp only [opcode, variableAt_encode before after (.store v) rfl]; rfl
  | push n =>
      simp only [opcode, operandAt_encode before after (.push n) rfl]; rfl
  | jz t =>
      simp only [opcode,
        targetAt_encode before after (.jz t) rfl (htarget t rfl)]; rfl
  | jnz t =>
      simp only [opcode,
        targetAt_encode before after (.jnz t) rfl (htarget t rfl)]; rfl
  | jmp t =>
      simp only [opcode,
        targetAt_encode before after (.jmp t) rfl (htarget t rfl)]; rfl
  | _ => rfl

end Instruction

end OnePass

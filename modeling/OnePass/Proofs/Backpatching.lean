import OnePass.Builder

namespace OnePass.Builder

/-- The builder with further words. -/
def append (b : Builder) (words : List Int) : Builder :=
  { b with words := b.words ++ words.toArray }

/-- The builder with a further jump that waits for its target. -/
def leap (b : Builder) (op : Opcode) : Builder :=
  { words := (b.append [op.word, placeholder]).words, pending := b.here :: b.pending }

@[simp] theorem append_nil (b : Builder) : b.append [] = b := by
  simp [append]

@[simp] theorem append_append (b : Builder) (first second : List Int) :
    (b.append first).append second = b.append (first ++ second) := by
  simp [append, Array.append_assoc]

@[simp] theorem here_append (b : Builder) (words : List Int) :
    (b.append words).here = b.here + words.length := by
  simp [append, here]

@[simp] theorem here_leap (b : Builder) (op : Opcode) :
    (b.leap op).here = b.here + 2 := by
  simp [leap, append, here]

theorem emit_plain (b : Builder) {op : Opcode} (hop : op.operandKind = .none) :
    emit op none b = .ok b.here (b.append [op.word]) := by
  simp only [emit, hop]
  change EStateM.Result.ok b.here { b with words := b.words.push op.word } = _
  simp [append]

theorem emit_operand (b : Builder) {op : Opcode}
    (hop : op.operandKind ≠ .none) (operand : Int) :
    emit op (some operand) b =
      .ok b.here (b.append [op.word, operandWord op operand]) := by
  have hwords :
      { b with words := (b.words.push op.word).push (operandWord op operand) } =
      b.append [op.word, operandWord op operand] := by
    simp only [append, mk.injEq, and_true]
    apply Array.toList_inj.mp
    simp
  rw [← hwords]
  unfold emit
  split
  · contradiction
  · contradiction
  · contradiction
  · rename_i hoperand _
    cases hoperand
    rfl

theorem operandWord_of_isJump {op : Opcode} (hop : op.isJump = true)
    (target : Int) :
    operandWord op target = target := by
  have hkind : op.operandKind = .address := by simpa [Opcode.isJump] using hop
  simp [operandWord, hkind]

theorem emitJump_back (b : Builder) {op : Opcode} (hop : op.isJump = true)
    (target : Int) :
    emitJump op (some target) b = .ok b.here (b.append [op.word, target]) := by
  have hkind : op.operandKind ≠ .none := by
    simp only [Opcode.isJump, decide_eq_true_eq] at hop
    simp [hop]
  have hemit := emit_operand b hkind target
  rw [operandWord_of_isJump hop] at hemit
  simp only [emitJump, hop, if_true]
  exact hemit

theorem emitJump_forward (b : Builder) {op : Opcode} (hop : op.isJump = true) :
    emitJump op none b = .ok b.here (b.leap op) := by
  have hkind : op.operandKind ≠ .none := by
    simp only [Opcode.isJump, decide_eq_true_eq] at hop
    simp [hop]
  have hemit := emit_operand b hkind placeholder
  rw [operandWord_of_isJump hop] at hemit
  simp only [emitJump, hop, if_true]
  change (EStateM.bind (emit op (some placeholder)) _) b = _
  rw [EStateM.bind, hemit]
  rfl

/-- A jump that was appended at the end of `b`, with `words` behind it, gets its
target. The jumps in `later` became pending after it. -/
theorem patch_append (b : Builder) (op : Opcode) (words : List Int)
    (target : Nat) (later : List Nat) (hlater : b.here ∉ later) :
    patch b.here target
        { words := (b.append (op.word :: placeholder :: words)).words
          pending := later ++ b.here :: b.pending } =
      .ok (.patched b.here target)
        { words := (b.append (op.word :: target :: words)).words
          pending := later ++ b.pending } := by
  have hwords :
      (b.append (op.word :: placeholder :: words)).words.setIfInBounds
      (b.here + 1) target =
      (b.append (op.word :: target :: words)).words := by
    apply Array.toList_inj.mp
    simp [append, here]
  have hmem : b.here ∈ later ++ b.here :: b.pending := by simp
  have herase : (later ++ b.here :: b.pending).erase b.here =
      later ++ b.pending := by
    rw [List.erase_append_right _ hlater, List.erase_cons_head]
  rw [← hwords, ← herase]
  change (if b.here ∈ later ++ b.here :: b.pending then _
    else _ : Build Event) _ = _
  rw [if_pos hmem]
  rfl

theorem patch_leap (b : Builder) (op : Opcode) (words : List Int)
    (target : Nat) :
    patch b.here target ((b.leap op).append words) =
      .ok (.patched b.here target) (b.append (op.word :: target :: words)) := by
  have hpatch := patch_append b op words target [] (by simp)
  have hbefore : (b.leap op).append words =
      { words := (b.append (op.word :: placeholder :: words)).words
        pending := [] ++ b.here :: b.pending } := by
    simp [leap, append]
  rw [hbefore]
  exact hpatch

theorem patch_leap_leap (b : Builder) (op op' : Opcode) (words : List Int)
    (target : Nat) :
    patch b.here target (((b.leap op).append words).leap op') =
      .ok (.patched b.here target)
        ((b.append (op.word :: target :: words)).leap op') := by
  have hpatch := patch_append b op (words ++ [op'.word, placeholder]) target
    [b.here + 2 + words.length] (by simp; omega)
  have hbefore : ((b.leap op).append words).leap op' =
      { words := (b.append (op.word :: placeholder ::
          (words ++ [op'.word, placeholder]))).words
        pending := [b.here + 2 + words.length] ++ b.here :: b.pending } := by
    simp only [leap, append, here, mk.injEq]
    refine ⟨by simp, by simp; omega⟩
  have hafter : (b.append (op.word :: ↑target :: words)).leap op' =
      { words := (b.append (op.word :: ↑target ::
          (words ++ [op'.word, placeholder]))).words
        pending := [b.here + 2 + words.length] ++ b.pending } := by
    simp only [leap, append, here, mk.injEq]
    refine ⟨by simp, by simp; omega⟩
  rw [hbefore, hafter]
  exact hpatch

end OnePass.Builder

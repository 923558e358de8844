import OnePass.Proofs.TreeInstructions

namespace OnePass

namespace Instruction

/-- The height of the stack behind an instruction. There is none if the
instruction takes more values than there are, or if it is a jump and does not
leave the stack empty. -/
def heightAfter (height : Nat) (i : Instruction) : Option Nat :=
  if i.opcode.pops ≤ height ∧ (i.target?.isSome → height = i.opcode.pops) then
    some (height - i.opcode.pops + i.opcode.pushes)
  else none

/-- The height of the stack behind a sequence that is executed from its front.
-/
def heightBehind (height : Nat) (is : List Instruction) : Option Nat :=
  is.foldlM heightAfter height

@[simp] theorem heightBehind_singleton (height : Nat) (i : Instruction) :
    heightBehind height [i] = heightAfter height i := by
  simp [heightBehind]

theorem heightBehind_append {height middle : Nat} {is : List Instruction}
    (h : heightBehind height is = some middle) (js : List Instruction) :
    heightBehind height (is ++ js) = heightBehind middle js := by
  rw [heightBehind, List.foldlM_append]
  change (heightBehind height is).bind _ = _
  rw [h]
  rfl

/-- The offset `t` of a sequence that starts at `base` is a place where the
stack is empty. -/
def IsLevel (base : Nat) (is : List Instruction) (t : Nat) : Prop :=
  ∃ before after, is = before ++ after ∧ t = base + (encode before).length ∧
    heightBehind 0 before = some 0

theorem isLevel_start (base : Nat) (is : List Instruction) :
    IsLevel base is base :=
  ⟨[], is, rfl, rfl, rfl⟩

theorem isLevel_stop (base : Nat) {is : List Instruction}
    (h : heightBehind 0 is = some 0) :
    IsLevel base is (base + (encode is).length) :=
  ⟨is, [], by simp, rfl, h⟩

namespace IsLevel

variable {base start t : Nat} {is js : List Instruction}

theorem append_right (h : IsLevel base is t) (js : List Instruction) :
    IsLevel base (is ++ js) t := by
  obtain ⟨before, after, rfl, ht, hlevel⟩ := h
  exact ⟨before, after ++ js, by simp, ht, hlevel⟩

theorem append_left (h : IsLevel start js t)
    (his : heightBehind 0 is = some 0)
    (hstart : start = base + (encode is).length) :
    IsLevel base (is ++ js) t := by
  obtain ⟨before, after, rfl, rfl, hlevel⟩ := h
  refine ⟨is ++ before, after, by simp, ?_, ?_⟩
  · rw [hstart, encode_append, List.length_append, Nat.add_assoc]
  · rw [heightBehind_append his, hlevel]

end IsLevel

/-- An instruction does not lead out of a sequence: it is no halt, and if it
jumps then to a level place of the sequence. -/
def Stays (base : Nat) (is : List Instruction) (i : Instruction) : Prop :=
  i ≠ .halt ∧ ∀ t, i.target? = some t → IsLevel base is t

namespace Stays

variable {base start : Nat} {is js : List Instruction} {i : Instruction}

theorem append_right (h : Stays base is i) (js : List Instruction) :
    Stays base (is ++ js) i :=
  ⟨h.1, fun t ht => (h.2 t ht).append_right js⟩

theorem append_left (h : Stays start js i) (his : heightBehind 0 is = some 0)
    (hstart : start = base + (encode is).length) : Stays base (is ++ js) i :=
  ⟨h.1, fun t ht => (h.2 t ht).append_left his hstart⟩

end Stays

/-- The discipline of a statement: its code leaves the stack as it was and jumps
only within itself. -/
structure Balanced (base : Nat) (is : List Instruction) : Prop where
  height : heightBehind 0 is = some 0
  stays : ∀ i ∈ is, Stays base is i

@[simp] theorem heightAfter_jmp (target : Nat) :
    heightAfter 0 (.jmp target) = some 0 := by
  simp [heightAfter, opcode, Opcode.pops, Opcode.pushes]

theorem balanced_nil (base : Nat) : Balanced base [] :=
  ⟨rfl, by simp⟩

theorem Balanced.append {base start : Nat} {is js : List Instruction}
    (his : Balanced base is) (hjs : Balanced start js)
    (hstart : start = base + (encode is).length) :
    Balanced base (is ++ js) := by
  refine ⟨?_, fun i hi => ?_⟩
  · rw [heightBehind_append his.height, hjs.height]
  · rcases List.mem_append.mp hi with hi | hi
    · exact (his.stays i hi).append_right js
    · exact (hjs.stays i hi).append_left his.height hstart

/-- The discipline of an expression: its code leaves one value more and has no
jumps. -/
structure Yields (is : List Instruction) : Prop where
  height : ∀ height, heightBehind height is = some (height + 1)
  straight : ∀ i ∈ is, i ≠ .halt ∧ i.target? = none

namespace Yields

variable {is js : List Instruction} {i : Instruction}

theorem singleton (hhalt : i ≠ .halt) (htarget : i.target? = none)
    (hpops : i.opcode.pops = 0) (hpushes : i.opcode.pushes = 1) : Yields [i] :=
  ⟨fun height => by simp [heightAfter, hpops, hpushes, htarget], by simp [hhalt, htarget]⟩

theorem unary (his : Yields is) (hhalt : i ≠ .halt)
    (htarget : i.target? = none) (hpops : i.opcode.pops = 1)
    (hpushes : i.opcode.pushes = 1) : Yields (is ++ [i]) := by
  refine ⟨fun height => ?_, ?_⟩
  · rw [heightBehind_append (his.height height)]
    simp [heightAfter, hpops, hpushes, htarget]
  · simp only [List.forall_mem_append, List.forall_mem_singleton]
    exact ⟨his.straight, hhalt, htarget⟩

theorem binary (his : Yields is) (hjs : Yields js) (hhalt : i ≠ .halt)
    (htarget : i.target? = none) (hpops : i.opcode.pops = 2)
    (hpushes : i.opcode.pushes = 1) : Yields (is ++ js ++ [i]) := by
  refine ⟨fun height => ?_, ?_⟩
  · rw [List.append_assoc, heightBehind_append (his.height height),
      heightBehind_append (hjs.height (height + 1))]
    simp [heightAfter, hpops, hpushes, htarget]
  · simp only [List.forall_mem_append, List.forall_mem_singleton]
    exact ⟨⟨his.straight, hjs.straight⟩, hhalt, htarget⟩

theorem stays (his : Yields is) (base : Nat) (js : List Instruction) :
    ∀ i ∈ is, Stays base js i := by
  intro i hi
  obtain ⟨hhalt, htarget⟩ := his.straight i hi
  exact ⟨hhalt, fun t ht => by simp [htarget] at ht⟩

theorem height_consumed (his : Yields is) (hpops : i.opcode.pops = 1)
    (hpushes : i.opcode.pushes = 0) : heightBehind 0 (is ++ [i]) = some 0 := by
  rw [heightBehind_append (his.height 0)]
  simp [heightAfter, hpops, hpushes]

end Yields

namespace Balanced

variable {base start stop : Nat} {c body : List Instruction}

theorem expression (hc : Yields c) (base : Nat) :
    Balanced base (c ++ [.pop]) := by
  refine ⟨hc.height_consumed rfl rfl, ?_⟩
  simp only [List.forall_mem_append, List.forall_mem_singleton]
  exact ⟨hc.stays _ _, by simp, by simp [target?]⟩

theorem ifThen (hc : Yields c) (hbody : Balanced start body)
    (hstart : start = base + (encode c).length + 2)
    (hstop : stop = start + (encode body).length) :
    Balanced base (c ++ [.jz stop] ++ body) := by
  have hcondition := hc.height_consumed (i := .jz stop) rfl rfl
  have hsize : start = base + (encode (c ++ [.jz stop])).length := by
    simp [words, operand, hstart, Nat.add_assoc]
  have hheight : heightBehind 0 (c ++ [.jz stop] ++ body) = some 0 := by
    rw [heightBehind_append hcondition, hbody.height]
  have hlevel := isLevel_stop base hheight
  rw [encode_append, List.length_append, ← Nat.add_assoc, ← hsize, ← hstop]
    at hlevel
  refine ⟨hheight, ?_⟩
  simp only [List.forall_mem_append, List.forall_mem_singleton]
  refine ⟨⟨hc.stays _ _, by simp, ?_⟩, fun i hi => ?_⟩
  · rintro _ ⟨⟩
    exact hlevel
  · exact (hbody.stays i hi).append_left hcondition hsize

theorem ifElse {second : List Instruction} {secondStart : Nat} (hc : Yields c)
    (hbody : Balanced start body) (hsecond : Balanced secondStart second)
    (hstart : start = base + (encode c).length + 2)
    (hsecondStart : secondStart = start + (encode body).length + 2)
    (hstop : stop = secondStart + (encode second).length) :
    Balanced base (c ++ [.jz secondStart] ++ body ++ [.jmp
      stop] ++ second) := by
  have hcondition := hc.height_consumed (i := .jz secondStart) rfl rfl
  have hsize : start = base + (encode (c ++ [.jz secondStart])).length := by
    simp [words, operand, hstart, Nat.add_assoc]
  have hleft : heightBehind 0 (c ++ [.jz secondStart] ++ body ++ [.jmp stop]) =
      some 0 := by
    rw [List.append_assoc, heightBehind_append hcondition,
      heightBehind_append hbody.height, heightBehind_singleton, heightAfter_jmp]
  have hleftSize : secondStart =
      base + (encode (c ++ [.jz secondStart] ++ body ++ [.jmp
        stop])).length := by
    rw [encode_append, List.length_append, encode_append, List.length_append,
      ← Nat.add_assoc, ← Nat.add_assoc, ← hsize]
    exact hsecondStart
  have hheight :
      heightBehind 0 (c ++ [.jz secondStart] ++ body ++ [.jmp stop] ++ second) =
      some 0 := by
    rw [heightBehind_append hleft, hsecond.height]
  -- Two places are jumped to: the start of the second branch and the end.
  have hmiddle := (isLevel_stop base hleft).append_right second
  rw [← hleftSize] at hmiddle
  have hlevel := isLevel_stop base hheight
  rw [encode_append, List.length_append, ← Nat.add_assoc, ← hleftSize, ← hstop]
    at hlevel
  refine ⟨hheight, ?_⟩
  simp only [List.forall_mem_append, List.forall_mem_singleton]
  refine ⟨⟨⟨⟨hc.stays _ _, by simp, ?_⟩, fun i hi => ?_⟩, by simp, ?_⟩,
    fun i hi => ?_⟩
  · rintro _ ⟨⟩
    exact hmiddle
  · exact (((hbody.stays i hi).append_left hcondition hsize).append_right
      _).append_right _
  · rintro _ ⟨⟩
    exact hlevel
  · exact (hsecond.stays i hi).append_left hleft hleftSize

theorem whileDo (hc : Yields c) (hbody : Balanced start body)
    (hstart : start = base + (encode c).length + 2)
    (hstop : stop = start + (encode body).length + 2) :
    Balanced base (c ++ [.jz stop] ++ body ++ [.jmp base]) := by
  have hcondition := hc.height_consumed (i := .jz stop) rfl rfl
  have hsize : start = base + (encode (c ++ [.jz stop])).length := by
    simp [words, operand, hstart, Nat.add_assoc]
  have hheight : heightBehind 0 (c ++ [.jz stop] ++ body ++ [.jmp base]) =
      some 0 := by
    rw [List.append_assoc, heightBehind_append hcondition,
      heightBehind_append hbody.height, heightBehind_singleton, heightAfter_jmp]
  have hwhole :
      stop = base + (encode
      (c ++ [.jz stop] ++ body ++ [.jmp base])).length := by
    rw [encode_append, List.length_append, encode_append, List.length_append,
      ← Nat.add_assoc, ← Nat.add_assoc, ← hsize]
    exact hstop
  have hlevel := isLevel_stop base hheight
  rw [← hwhole] at hlevel
  refine ⟨hheight, ?_⟩
  simp only [List.forall_mem_append, List.forall_mem_singleton]
  refine ⟨⟨⟨hc.stays _ _, by simp, ?_⟩, fun i hi => ?_⟩, by simp, ?_⟩
  · rintro _ ⟨⟩
    exact hlevel
  · exact ((hbody.stays i hi).append_left hcondition hsize).append_right _
  · rintro _ ⟨⟩
    exact isLevel_start base _

theorem doWhile (hbody : Balanced base body) (hc : Yields c) :
    Balanced base (body ++ c ++ [.jnz base]) := by
  have hcondition := hc.height_consumed (i := .jnz base) rfl rfl
  rw [List.append_assoc]
  refine ⟨by rw [heightBehind_append hbody.height, hcondition], ?_⟩
  simp only [List.forall_mem_append, List.forall_mem_singleton]
  refine ⟨fun i hi => (hbody.stays i hi).append_right _,
    hc.stays _ _, by simp, ?_⟩
  rintro _ ⟨⟩
  exact isLevel_start base _

end Balanced

end Instruction

namespace Tree

open Instruction

mutual

theorem Term.yields : ∀ t : Term, Yields t.instructions
  | .variable v => .singleton (by simp) rfl rfl rfl
  | .number n => .singleton (by simp) rfl rfl rfl
  | .group e => e.yields

theorem Sum.yields : ∀ s : Sum, Yields s.instructions
  | .term t => t.yields
  | .add left right => by
      have hleft := left.yields
      have hright := right.yields
      exact hleft.binary hright (by simp) rfl rfl rfl
  | .sub left right => by
      have hleft := left.yields
      have hright := right.yields
      exact hleft.binary hright (by simp) rfl rfl rfl

theorem Test.yields : ∀ t : Test, Yields t.instructions
  | .sum s => s.yields
  | .less left right => by
      have hleft := left.yields
      have hright := right.yields
      exact hleft.binary hright (by simp) rfl rfl rfl

theorem Expression.yields : ∀ e : Expression, Yields e.instructions
  | .test t => t.yields
  | .assign v e => by
      have hvalue := e.yields
      exact hvalue.unary (by simp) rfl rfl rfl

end

mutual

theorem Statement.balanced : ∀ (s : Statement) (base : Nat),
    Balanced base (s.instructions base)
  | .ifThen c s, base => by
      rw [Statement.instructions]
      apply Balanced.ifThen c.yields
      · exact s.balanced _
      · rfl
      · rfl
  | .ifElse c s t, base => by
      rw [Statement.instructions]
      apply Balanced.ifElse c.yields
      · exact s.balanced _
      · exact t.balanced _
      · rfl
      · rfl
      · rfl
  | .whileDo c s, base => by
      rw [Statement.instructions]
      apply Balanced.whileDo c.yields
      · exact s.balanced _
      · rfl
      · rfl
  | .doWhile s c, base => by
      have hbody := s.balanced base
      rw [Statement.instructions]
      exact hbody.doWhile c.yields
  | .block b, base => b.balanced base
  | .expression e, base => .expression e.yields base
  | .empty, base => balanced_nil base

theorem Block.balanced :
    ∀ (b : Block) (base : Nat), Balanced base (b.instructions base)
  | .nil, base => balanced_nil base
  | .cons s rest, base => by
      have hfirst := s.balanced base
      rw [Block.instructions]
      apply hfirst.append
      · exact rest.balanced _
      · rfl

end

end Tree

end OnePass

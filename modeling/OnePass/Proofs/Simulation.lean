import OnePass.Proofs.MachineRuns
import OnePass.Proofs.ProgramLayout
import OnePass.Tree.Meaning

/-!
The machine follows the meaning of a tree. Wherever the code of an expression
stands in a program, the machine goes through it in as many steps as it has
instructions, and has the value of the expression on the stack then. Where the
code of a statement stands and the statement ends, the machine comes out behind
it with the table that the statement gives.
-/

namespace OnePass

/-- What matters of a state that has not halted. -/
structure Config where
  pc : Nat
  table : Table
  stack : List Int

structure State.At (s : State) (c : Config) : Prop where
  pc : s.pc = c.pc
  table : s.table = c.table
  stack : s.stack = c.stack
  running : s.halted = false

namespace Instruction

/-- A sequence of instructions stands at an offset of a longer one. -/
def Holds (whole : List Instruction) (pc : Nat) (is : List Instruction) :
    Prop :=
  ∃ before after, whole = before ++ is ++ after ∧ pc = (encode before).length

namespace Holds

variable {whole is js : List Instruction} {pc : Nat}

theorem left (h : Holds whole pc (is ++ js)) : Holds whole pc is := by
  obtain ⟨before, after, rfl, hpc⟩ := h
  exact ⟨before, js ++ after, by simp, hpc⟩

theorem right (h : Holds whole pc (is ++ js)) :
    Holds whole (pc + (encode is).length) js := by
  obtain ⟨before, after, rfl, rfl⟩ := h
  exact ⟨before ++ is, after, by simp, by simp⟩

end Holds

end Instruction

namespace Tree

open Instruction

namespace Statement

/-- In the program of a tree so many steps lead from one configuration to
another. -/
def Moves (t : Statement) (n : Nat) (c c' : Config) : Prop :=
  ∀ s : State, s.At c → ∃ s', State.Steps t.program.toArray n s s' ∧ s'.At c'

namespace Moves

variable {t : Statement} {n m : Nat} {c c' c'' : Config}

theorem refl (t : Statement) (c : Config) : Moves t 0 c c :=
  fun s hs => ⟨s, .refl s, hs⟩

theorem trans (h : Moves t n c c') (h' : Moves t m c' c'') :
    Moves t (n + m) c c'' := by
  intro s hs
  obtain ⟨s', hsteps, hs'⟩ := h s hs
  obtain ⟨s'', hsteps', hs''⟩ := h' s' hs'
  exact ⟨s'', hsteps.trans hsteps', hs''⟩

theorem cancel (h : Moves t n c c') {s final : State} (hs : s.At c) {k : Nat}
    (hsteps : State.Steps t.program.toArray k s final)
    (hhalted : final.halted = true) :
    ∃ j s', k = n + j ∧ s'.At c' ∧
      State.Steps t.program.toArray j s' final := by
  obtain ⟨s', hmoves, hs'⟩ := h s hs
  obtain ⟨j, hj, hrest⟩ := hsteps.cancel hhalted hmoves
  exact ⟨j, s', hj, hs', hrest⟩

theorem instruction {i : Instruction}
    (hcode : Holds t.programInstructions c.pc [i])
    (h : ∀ s : State, s.At c → ∃ s', State.Performs i s s' ∧ s'.At c') :
    Moves t 1 c c' := by
  intro s hs
  obtain ⟨s', hperforms, hs'⟩ := h s hs
  obtain ⟨before, after, hwhole, hpc⟩ := hcode
  have hsplit : t.programInstructions = before ++ i :: after := by simp [hwhole]
  have hdecode := decodeAt_program hsplit
  rw [← hpc, ← hs.pc] at hdecode
  refine ⟨_, .step hs.running (State.execute_of_performs hdecode hperforms)
    (.refl _), ?_⟩
  exact ⟨hs'.pc, hs'.table, hs'.stack, hs'.running⟩

end Moves

/-- Wherever it stands, the code `is` puts the value that `f` gives on the
stack. -/
def Computes (t : Statement) (is : List Instruction) (f : Table → Int × Table) :
    Prop :=
  ∀ (pc : Nat) (table : Table) (stack : List Int),
    Holds t.programInstructions pc is →
    Moves t is.length ⟨pc, table, stack⟩
      ⟨pc + (encode is).length, (f table).2, (f table).1 :: stack⟩

theorem computes_fetch (t : Statement) (v : Variable) :
    Computes t [.fetch v] fun table => (table.value v, table) := by
  intro pc table stack hcode
  refine .instruction hcode fun s hs => ⟨_, .fetch v s, ?_⟩
  exact ⟨congrArg (· + 2) hs.pc, hs.table, by simp [hs.stack, hs.table],
    hs.running⟩

theorem computes_push (t : Statement) (n : Int) :
    Computes t [.push (Word.wrap n)] fun table => (Word.wrap n, table) := by
  intro pc table stack hcode
  refine .instruction hcode fun s hs => ⟨_, .push _ s, ?_⟩
  -- The constant in the code is a word already, and the machine wraps it again.
  have hwrap : Word.wrap (Word.wrap n) = Word.wrap n :=
    Word.wrap_eq_self_of_inRange (Word.wrap_inRange n)
  exact ⟨congrArg (· + 2) hs.pc, hs.table, by simp [hs.stack, hwrap],
    hs.running⟩

theorem Computes.store {t : Statement} {is : List Instruction}
    {f : Table → Int × Table} (his : Computes t is f) (v : Variable) :
    Computes t (is ++ [.store v]) fun table =>
      ((f table).1, (f table).2.assign v (f table).1) := by
  intro pc table stack hcode
  have hstore :
      Moves t 1 ⟨pc + (encode is).length, (f table).2, (f table).1 :: stack⟩
      ⟨pc + (encode is).length + 2, (f table).2.assign v (f table).1,
        (f table).1 :: stack⟩ := by
    refine .instruction hcode.right fun s hs => ⟨_, .store v hs.stack, ?_⟩
    exact ⟨congrArg (· + 2) hs.pc, congrArg (·.assign v (f table).1) hs.table,
      hs.stack, hs.running⟩
  rw [List.length_append, encode_append, List.length_append, ← Nat.add_assoc]
  exact (his pc table stack hcode.left).trans hstore

/-- An instruction that replaces two values by the result of an operation. -/
def Combines (i : Instruction) (op : Int → Int → Int) : Prop :=
  i.words.length = 1 ∧ ∀ (s : State) (left right : Int) (rest : List Int),
    s.stack = right :: left :: rest →
      State.Performs i s
        { s with stack := op left right :: rest, pc := s.pc + 1 }

theorem Computes.combine {t : Statement} {is js : List Instruction}
    {f g : Table → Int × Table} {i : Instruction} {op : Int → Int → Int}
    (his : Computes t is f) (hjs : Computes t js g) (hi : Combines i op) :
    Computes t (is ++ js ++ [i]) fun table =>
      (op (f table).1 (g (f table).2).1, (g (f table).2).2) := by
  intro pc table stack hcode
  -- The operands are computed from left to right, the right one with the table
  -- that the left one leaves.
  have hleft := his pc table stack hcode.left.left
  have hright := hjs _ (f table).2 ((f table).1 :: stack) hcode.left.right
  have hcombine : Moves t 1
      ⟨pc + (encode is).length + (encode js).length, (g (f table).2).2,
        (g (f table).2).1 :: (f table).1 :: stack⟩
      ⟨pc + (encode is).length + (encode js).length + 1, (g (f table).2).2,
        op (f table).1 (g (f table).2).1 :: stack⟩ := by
    have hplace := hcode.right
    rw [encode_append, List.length_append, ← Nat.add_assoc] at hplace
    refine .instruction hplace fun s hs => ⟨_, hi.2 s _ _ _ hs.stack, ?_⟩
    exact ⟨congrArg (· + 1) hs.pc, hs.table, rfl, hs.running⟩
  have hsize : (encode [i]).length = 1 := by
    simp [hi.1]
  rw [List.length_append, List.length_append, encode_append, encode_append,
    List.length_append, List.length_append, hsize, ← Nat.add_assoc,
    ← Nat.add_assoc]
  exact (hleft.trans hright).trans hcombine

end Statement

mutual

theorem Term.computes (t : Statement) :
    ∀ x : Term, t.Computes x.instructions (x.eval Word.wrap)
  | .variable v => t.computes_fetch v
  | .number n => t.computes_push n
  | .group e => e.computes t

theorem Sum.computes (t : Statement) :
    ∀ x : Sum, t.Computes x.instructions (x.eval Word.wrap)
  | .term x => x.computes t
  | .add left right =>
      (left.computes t).combine (right.computes t) ⟨rfl, fun _ _ _ _ hstack =>
        .add hstack⟩
  | .sub left right =>
      (left.computes t).combine (right.computes t) ⟨rfl, fun _ _ _ _ hstack =>
        .sub hstack⟩

theorem Test.computes (t : Statement) :
    ∀ x : Test, t.Computes x.instructions (x.eval Word.wrap)
  | .sum x => x.computes t
  | .less left right =>
      (left.computes t).combine (right.computes t) ⟨rfl, fun _ _ _ _ hstack =>
        .lt hstack⟩

theorem Expression.computes (t : Statement) :
    ∀ x : Expression, t.Computes x.instructions (x.eval Word.wrap)
  | .test x => x.computes t
  | .assign v x => (x.computes t).store v

end

/-- The offset behind the code of a condition at `pc` and the jump that tests
it. -/
def Expression.branch (c : Expression) (pc : Nat) : Nat :=
  pc + (encode c.instructions).length + 2

namespace Statement

/-- The offset behind the code of a statement at `pc`. -/
def stop (s : Statement) (pc : Nat) : Nat :=
  pc + (encode (s.instructions pc)).length

theorem stop_ifThen (c : Expression) (s : Statement) (pc : Nat) :
    (ifThen c s).stop pc = s.stop (c.branch pc) := by
  simp [stop, instructions, Expression.branch, words, operand]
  omega

theorem stop_ifElse (c : Expression) (s u : Statement) (pc : Nat) :
    (ifElse c s u).stop pc = u.stop (s.stop (c.branch pc) + 2) := by
  simp [stop, instructions, Expression.branch, words, operand]
  omega

theorem stop_whileDo (c : Expression) (s : Statement) (pc : Nat) :
    (whileDo c s).stop pc = s.stop (c.branch pc) + 2 := by
  simp [stop, instructions, Expression.branch, words, operand]
  omega

theorem stop_doWhile (s : Statement) (c : Expression) (pc : Nat) :
    (doWhile s c).stop pc = c.branch (s.stop pc) := by
  simp [stop, instructions, Expression.branch, words, operand]
  omega

theorem stop_expression (e : Expression) (pc : Nat) :
    (expression e).stop pc = pc + (encode e.instructions).length + 1 := by
  simp [stop, instructions, words, operand]
  omega

section Layout

variable {whole : List Instruction} {c : Expression} {s u : Statement}
  {pc : Nat}

theorem holds_ifThen (h : Holds whole pc ((ifThen c s).instructions pc)) :
    Holds whole pc (c.instructions ++ [.jz (s.stop (c.branch pc))]) ∧
      Holds whole (c.branch pc) (s.instructions (c.branch pc)) := by
  have hbody := Holds.right h
  rw [encode_append, List.length_append, ← Nat.add_assoc] at hbody
  exact ⟨Holds.left h, hbody⟩

theorem holds_ifElse (h : Holds whole pc ((ifElse c s u).instructions pc)) :
    Holds whole pc (c.instructions ++ [.jz (s.stop (c.branch pc) + 2)]) ∧
      Holds whole (c.branch pc) (s.instructions (c.branch pc)) ∧
      Holds whole (s.stop (c.branch pc))
        [.jmp (u.stop (s.stop (c.branch pc) + 2))] ∧
      Holds whole (s.stop (c.branch pc) + 2)
        (u.instructions (s.stop (c.branch pc) + 2)) := by
  have hfirst := Holds.right (Holds.left (Holds.left h))
  have hjump := Holds.right (Holds.left h)
  have hsecond := Holds.right h
  simp only [encode_append, List.length_append, ← Nat.add_assoc]
    at hfirst hjump hsecond
  exact ⟨Holds.left (Holds.left (Holds.left h)), hfirst, hjump, hsecond⟩

theorem holds_whileDo (h : Holds whole pc ((whileDo c s).instructions pc)) :
    Holds whole pc (c.instructions ++ [.jz (s.stop (c.branch pc) + 2)]) ∧
      Holds whole (c.branch pc) (s.instructions (c.branch pc)) ∧
      Holds whole (s.stop (c.branch pc)) [.jmp pc] := by
  have hbody := Holds.right (Holds.left h)
  have hjump := Holds.right h
  simp only [encode_append, List.length_append, ← Nat.add_assoc] at hbody hjump
  exact ⟨Holds.left (Holds.left h), hbody, hjump⟩

theorem holds_doWhile (h : Holds whole pc ((doWhile s c).instructions pc)) :
    Holds whole pc (s.instructions pc) ∧
      Holds whole (s.stop pc) (c.instructions ++ [.jnz pc]) := by
  rw [instructions, List.append_assoc] at h
  exact ⟨h.left, h.right⟩

end Layout

section Conditions

variable {t : Statement} {c : Expression} {pc target : Nat}

theorem moves_jz_taken
    (hcode : Holds t.programInstructions pc (c.instructions ++ [.jz target]))
    {v : Table} (hzero : (c.eval Word.wrap v).1 = 0) (stack : List Int) :
    Moves t (c.instructions.length + 1) ⟨pc, v, stack⟩
      ⟨target, (c.eval Word.wrap v).2, stack⟩ := by
  refine (c.computes t pc v stack hcode.left).trans
    (.instruction hcode.right fun s hs => ?_)
  exact ⟨_, .jz target hs.stack, if_pos hzero, hs.table, rfl, hs.running⟩

theorem moves_jz_skipped
    (hcode : Holds t.programInstructions pc (c.instructions ++ [.jz target]))
    {v : Table} (hne : (c.eval Word.wrap v).1 ≠ 0) (stack : List Int) :
    Moves t (c.instructions.length + 1) ⟨pc, v, stack⟩
      ⟨c.branch pc, (c.eval Word.wrap v).2, stack⟩ := by
  refine (c.computes t pc v stack hcode.left).trans
    (.instruction hcode.right fun s hs => ?_)
  exact ⟨_, .jz target hs.stack, (if_neg hne).trans (congrArg (· + 2) hs.pc),
    hs.table, rfl, hs.running⟩

theorem moves_jnz_taken
    (hcode : Holds t.programInstructions pc (c.instructions ++ [.jnz target]))
    {v : Table} (hne : (c.eval Word.wrap v).1 ≠ 0) (stack : List Int) :
    Moves t (c.instructions.length + 1) ⟨pc, v, stack⟩
      ⟨target, (c.eval Word.wrap v).2, stack⟩ := by
  refine (c.computes t pc v stack hcode.left).trans
    (.instruction hcode.right fun s hs => ?_)
  exact ⟨_, .jnz target hs.stack, if_neg hne, hs.table, rfl, hs.running⟩

theorem moves_jnz_skipped
    (hcode : Holds t.programInstructions pc (c.instructions ++ [.jnz target]))
    {v : Table} (hzero : (c.eval Word.wrap v).1 = 0) (stack : List Int) :
    Moves t (c.instructions.length + 1) ⟨pc, v, stack⟩
      ⟨c.branch pc, (c.eval Word.wrap v).2, stack⟩ := by
  refine (c.computes t pc v stack hcode.left).trans
    (.instruction hcode.right fun s hs => ?_)
  exact ⟨_, .jnz target hs.stack, (if_pos hzero).trans (congrArg (· + 2) hs.pc),
    hs.table, rfl, hs.running⟩

theorem moves_jmp (hcode : Holds t.programInstructions pc [.jmp target])
    (v : Table) (stack : List Int) :
    Moves t 1 ⟨pc, v, stack⟩ ⟨target, v, stack⟩ :=
  .instruction hcode fun s hs =>
    ⟨_, .jmp target s, rfl, hs.table, hs.stack, hs.running⟩

theorem moves_expression
    (hcode : Holds t.programInstructions pc (c.instructions ++ [.pop]))
    (v : Table) (stack : List Int) :
    Moves t (c.instructions.length + 1) ⟨pc, v, stack⟩
      ⟨pc + (encode c.instructions).length + 1, (c.eval Word.wrap v).2,
        stack⟩ := by
  refine (c.computes t pc v stack hcode.left).trans
    (.instruction hcode.right fun s hs => ?_)
  exact ⟨_, .pop hs.stack, congrArg (· + 1) hs.pc, hs.table, rfl, hs.running⟩

end Conditions

end Statement

/-- The offset behind the code of the statements of a block at `pc`. -/
def Block.stop (b : Block) (pc : Nat) : Nat :=
  pc + (encode (b.instructions pc)).length

theorem Block.stop_cons (s : Statement) (b : Block) (pc : Nat) :
    (cons s b).stop pc = b.stop (s.stop pc) := by
  simp [Block.stop, Statement.stop, instructions, Nat.add_assoc]

mutual

theorem Statement.Runs.moves (t : Statement) : ∀ {s : Statement} {v w : Table},
    s.Runs Word.wrap v w → ∀ (pc : Nat) (stack : List Int),
      Holds t.programInstructions pc (s.instructions pc) →
        ∃ n, t.Moves n ⟨pc, v, stack⟩ ⟨s.stop pc, w, stack⟩
  | _, _, _, .ifThenTaken condition body, pc, stack, hcode => by
      obtain ⟨hcondition, hbody⟩ := Statement.holds_ifThen hcode
      obtain ⟨n, hn⟩ := body.moves t _ stack hbody
      rw [Statement.stop_ifThen]
      exact ⟨_, (Statement.moves_jz_skipped hcondition condition stack).trans
        hn⟩
  | _, _, _, .ifThenSkipped condition, pc, stack, hcode => by
      obtain ⟨hcondition, -⟩ := Statement.holds_ifThen hcode
      rw [Statement.stop_ifThen]
      exact ⟨_, Statement.moves_jz_taken hcondition condition stack⟩
  | _, _, _, .ifElseFirst condition body, pc, stack, hcode => by
      obtain ⟨hcondition, hfirst, hjump, -⟩ := Statement.holds_ifElse hcode
      obtain ⟨n, hn⟩ := body.moves t _ stack hfirst
      rw [Statement.stop_ifElse]
      exact ⟨_, ((Statement.moves_jz_skipped hcondition condition stack).trans
        hn).trans (Statement.moves_jmp hjump _ stack)⟩
  | _, _, _, .ifElseSecond condition body, pc, stack, hcode => by
      obtain ⟨hcondition, -, -, hsecond⟩ := Statement.holds_ifElse hcode
      obtain ⟨n, hn⟩ := body.moves t _ stack hsecond
      rw [Statement.stop_ifElse]
      exact ⟨_, (Statement.moves_jz_taken hcondition condition stack).trans hn⟩
  | _, _, _, .whileAgain condition body again, pc, stack, hcode => by
      obtain ⟨hcondition, hbody, hjump⟩ := Statement.holds_whileDo hcode
      obtain ⟨n, hn⟩ := body.moves t _ stack hbody
      obtain ⟨m, hm⟩ := again.moves t pc stack hcode
      exact ⟨_, (((Statement.moves_jz_skipped hcondition condition stack).trans
        hn).trans (Statement.moves_jmp hjump _ stack)).trans hm⟩
  | _, _, _, .whileDone condition, pc, stack, hcode => by
      obtain ⟨hcondition, -, -⟩ := Statement.holds_whileDo hcode
      rw [Statement.stop_whileDo]
      exact ⟨_, Statement.moves_jz_taken hcondition condition stack⟩
  | _, _, _, .doAgain body condition again, pc, stack, hcode => by
      obtain ⟨hbody, hcondition⟩ := Statement.holds_doWhile hcode
      obtain ⟨n, hn⟩ := body.moves t _ stack hbody
      obtain ⟨m, hm⟩ := again.moves t pc stack hcode
      exact ⟨_, (hn.trans
        (Statement.moves_jnz_taken hcondition condition stack)).trans hm⟩
  | _, _, _, .doDone body condition, pc, stack, hcode => by
      obtain ⟨hbody, hcondition⟩ := Statement.holds_doWhile hcode
      obtain ⟨n, hn⟩ := body.moves t _ stack hbody
      rw [Statement.stop_doWhile]
      exact ⟨_, hn.trans
        (Statement.moves_jnz_skipped hcondition condition stack)⟩
  | _, _, _, .block statements, pc, stack, hcode =>
      statements.moves t pc stack hcode
  | _, v, _, .expression, pc, stack, hcode => by
      rw [Statement.stop_expression]
      exact ⟨_, Statement.moves_expression hcode v stack⟩
  | _, _, _, .empty, pc, stack, _ => ⟨0, .refl t _⟩

theorem Block.Runs.moves (t : Statement) : ∀ {b : Block} {v w : Table},
    b.Runs Word.wrap v w → ∀ (pc : Nat) (stack : List Int),
      Holds t.programInstructions pc (b.instructions pc) →
        ∃ n, t.Moves n ⟨pc, v, stack⟩ ⟨b.stop pc, w, stack⟩
  | _, _, _, .nil, pc, stack, _ => ⟨0, .refl t _⟩
  | _, _, _, .cons first others, pc, stack, hcode => by
      obtain ⟨n, hn⟩ := first.moves t pc stack (Holds.left hcode)
      obtain ⟨m, hm⟩ := others.moves t _ stack (Holds.right hcode)
      rw [Block.stop_cons]
      exact ⟨_, hn.trans hm⟩

end

end Tree

end OnePass

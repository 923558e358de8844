import OnePass.Proofs.Simulation
import OnePass.Proofs.StackSafety

namespace OnePass

namespace State.Steps

theorem eq_of_halted {code : Array Int} {n : Nat} {s s' : State}
    (h : Steps code n s s') (hhalted : s.halted = true) : s' = s := by
  cases h with
  | refl => rfl
  | step running =>
      rw [running] at hhalted
      cases hhalted

end State.Steps

namespace Tree

open Instruction
open Statement (holds_ifThen holds_ifElse holds_whileDo holds_doWhile
  moves_jz_taken moves_jz_skipped moves_jnz_taken moves_jmp)

/-- In the program of a tree the machine halts after so many steps. -/
def Statement.HaltsIn (t : Statement) (k : Nat) (c : Config) : Prop :=
  ∃ s final : State, s.At c ∧ State.Steps t.program.toArray k s final ∧
    final.halted = true

theorem Statement.HaltsIn.of_moves {t : Statement} {k n : Nat} {c c' : Config}
    (h : t.HaltsIn k c) (hmoves : t.Moves n c c') :
    ∃ j, k = n + j ∧ t.HaltsIn j c' := by
  obtain ⟨s, final, hs, hsteps, hhalted⟩ := h
  obtain ⟨j, s', hj, hs', hrest⟩ := hmoves.cancel hs hsteps hhalted
  exact ⟨j, hj, s', final, hs', hrest, hhalted⟩

/-- If the machine halts after `k` steps from the code of a statement, the
statement ends. -/
def Statement.EndsIn (t s : Statement) (k : Nat) : Prop :=
  ∀ (pc : Nat) (v : Table) (stack : List Int),
    Holds t.programInstructions pc (s.instructions pc) →
    t.HaltsIn k ⟨pc, v, stack⟩ →
      ∃ w, s.Runs Word.wrap v w

def Block.EndsIn (t : Statement) (b : Block) (k : Nat) : Prop :=
  ∀ (pc : Nat) (v : Table) (stack : List Int),
    Holds t.programInstructions pc (b.instructions pc) →
    t.HaltsIn k ⟨pc, v, stack⟩ →
      ∃ w, b.Runs Word.wrap v w

mutual

/-- A condition takes a step at least, so a loop goes on with fewer steps than
it was entered with. The first part of a statement may take none; there the
recursion is over the statement. -/
theorem Statement.endsIn (t : Statement) {n : Nat}
    (ih : ∀ (s : Statement) (j : Nat), j < n → t.EndsIn s j) :
    ∀ (s : Statement) (k : Nat), k ≤ n → t.EndsIn s k
  | .ifThen c s, k, hk, pc, v, stack, hcode, hhalts => by
      obtain ⟨hcondition, hbody⟩ := holds_ifThen hcode
      by_cases hzero : (c.eval Word.wrap v).1 = 0
      · exact ⟨_, .ifThenSkipped hzero⟩
      · obtain ⟨j, hj, hhalts⟩ :=
          hhalts.of_moves (moves_jz_skipped hcondition hzero stack)
        obtain ⟨w, hw⟩ := ih s j (by omega) _ _ _ hbody hhalts
        exact ⟨w, .ifThenTaken hzero hw⟩
  | .ifElse c s u, k, hk, pc, v, stack, hcode, hhalts => by
      obtain ⟨hcondition, hfirst, -, hsecond⟩ := holds_ifElse hcode
      by_cases hzero : (c.eval Word.wrap v).1 = 0
      · obtain ⟨j, hj, hhalts⟩ :=
          hhalts.of_moves (moves_jz_taken hcondition hzero stack)
        obtain ⟨w, hw⟩ := ih u j (by omega) _ _ _ hsecond hhalts
        exact ⟨w, .ifElseSecond hzero hw⟩
      · obtain ⟨j, hj, hhalts⟩ :=
          hhalts.of_moves (moves_jz_skipped hcondition hzero stack)
        obtain ⟨w, hw⟩ := ih s j (by omega) _ _ _ hfirst hhalts
        exact ⟨w, .ifElseFirst hzero hw⟩
  | .whileDo c s, k, hk, pc, v, stack, hcode, hhalts => by
      obtain ⟨hcondition, hbody, hjump⟩ := holds_whileDo hcode
      by_cases hzero : (c.eval Word.wrap v).1 = 0
      · exact ⟨_, .whileDone hzero⟩
      · obtain ⟨j, hj, hhalts⟩ :=
          hhalts.of_moves (moves_jz_skipped hcondition hzero stack)
        obtain ⟨u, hu⟩ := ih s j (by omega) _ _ _ hbody hhalts
        obtain ⟨m, hm⟩ := hu.moves t _ stack hbody
        obtain ⟨i, hi, hhalts⟩ :=
          hhalts.of_moves (hm.trans (moves_jmp hjump u stack))
        obtain ⟨w, hw⟩ := ih (.whileDo c s) i (by omega) _ _ _ hcode hhalts
        exact ⟨w, .whileAgain hzero hu hw⟩
  | .doWhile s c, k, hk, pc, v, stack, hcode, hhalts => by
      obtain ⟨hbody, hcondition⟩ := holds_doWhile hcode
      obtain ⟨u, hu⟩ := Statement.endsIn t ih s k hk _ _ _ hbody hhalts
      obtain ⟨m, hm⟩ := hu.moves t _ stack hbody
      obtain ⟨j, hj, hhalts⟩ := hhalts.of_moves hm
      by_cases hzero : (c.eval Word.wrap u).1 = 0
      · exact ⟨_, .doDone hu hzero⟩
      · obtain ⟨i, hi, hhalts⟩ :=
          hhalts.of_moves (moves_jnz_taken hcondition hzero stack)
        obtain ⟨w, hw⟩ := ih (.doWhile s c) i (by omega) _ _ _ hcode hhalts
        exact ⟨w, .doAgain hu hzero hw⟩
  | .block b, k, hk, pc, v, stack, hcode, hhalts => by
      obtain ⟨w, hw⟩ := Block.endsIn t ih b k hk pc v stack hcode hhalts
      exact ⟨w, .block hw⟩
  | .expression e, _, _, _, _, _, _, _ => ⟨_, .expression⟩
  | .empty, _, _, _, v, _, _, _ => ⟨v, .empty⟩

theorem Block.endsIn (t : Statement) {n : Nat}
    (ih : ∀ (s : Statement) (j : Nat), j < n → t.EndsIn s j) :
    ∀ (b : Block) (k : Nat), k ≤ n → Block.EndsIn t b k
  | .nil, _, _, _, v, _, _, _ => ⟨v, .nil⟩
  | .cons s b, k, hk, pc, v, stack, hcode, hhalts => by
      obtain ⟨u, hu⟩ :=
        Statement.endsIn t ih s k hk _ _ _ (Holds.left hcode) hhalts
      obtain ⟨m, hm⟩ := hu.moves t _ stack (Holds.left hcode)
      obtain ⟨j, hj, hhalts⟩ := hhalts.of_moves hm
      obtain ⟨w, hw⟩ :=
        Block.endsIn t ih b j (by omega) _ _ _ (Holds.right hcode) hhalts
      exact ⟨w, .cons hu hw⟩

end

namespace Statement

theorem exists_runs_of_haltsIn (t : Statement) (n : Nat) (s : Statement) :
    t.EndsIn s n := by
  induction n using Nat.strongRecOn generalizing s with
  | ind n ih =>
      exact Statement.endsIn t (fun s j hj => ih j hj s) s n (Nat.le_refl n)

theorem holds_start (t : Statement) :
    Holds t.programInstructions 0 (t.instructions 0) :=
  ⟨[], [.halt], rfl, rfl⟩

theorem steps_of_runs {t : Statement} {v w : Table} (h : t.Runs Word.wrap v w) :
    ∃ n final, State.Steps t.program.toArray n { table := v } final ∧
    final.halted = true ∧
      final.table = w := by
  obtain ⟨n, hmoves⟩ := h.moves t 0 [] t.holds_start
  obtain ⟨s, hsteps, hs⟩ := hmoves { table := v } ⟨rfl, rfl, rfl, rfl⟩
  have hsplit : t.programInstructions = t.instructions 0 ++ .halt :: [] := rfl
  have hdecode := decodeAt_program hsplit
  have hpc : s.pc = (encode (t.instructions 0)).length := by
    rw [hs.pc, stop, Nat.zero_add]
  rw [← hpc] at hdecode
  have hhalt := State.execute_of_performs hdecode (.halt s)
  exact ⟨n + 1, _, hsteps.trans (.step hs.running hhalt (.refl _)), rfl,
    hs.table⟩

theorem runs_of_steps {t : Statement} {v : Table} {n : Nat} {final : State}
    (hsteps : State.Steps t.program.toArray n { table := v } final)
    (hhalted : final.halted = true) :
    t.Runs Word.wrap v final.table := by
  obtain ⟨w, hw⟩ := t.exists_runs_of_haltsIn n t 0 v [] t.holds_start
    ⟨{ table := v }, final, ⟨rfl, rfl, rfl, rfl⟩, hsteps, hhalted⟩
  obtain ⟨m, final', hsteps', hhalted', rfl⟩ := steps_of_runs hw
  -- The run that the statement has is the same run, since the machine has no
  -- choice.
  obtain ⟨k, -, hrest⟩ := hsteps.cancel hhalted hsteps'
  rw [hrest.eq_of_halted hhalted']
  exact hw

end Statement

end Tree

theorem Table.ofValues_toList (values : Vector Int 26) :
    Table.ofValues values.toList = .ok (values.map Word.wrap) := by
  rcases values with ⟨⟨values⟩, hsize⟩
  have hmap : (values.map Word.wrap).toArray.size = 26 := by simpa using hsize
  simp only [Table.ofValues, Vector.toList_mk, dif_pos hmap, Vector.map_mk,
    List.map_toArray]

namespace Machine

open OnePass.Tree (Statement)

theorem exists_new (values : Vector Int 26) (traces : Bool) :
    ∃ m, new (some values.toList) traces = .ok m ∧ m.watcher = none ∧
      m.state.table = values.map Word.wrap := by
  simp only [new, Table.ofValues_toList, bind, Except.bind]
  exact ⟨_, rfl, rfl, rfl⟩

section Unwatched

variable {m : Machine} (hwatcher : m.watcher = none) (t : Statement)
  (name : String)
include hwatcher

/-- A run takes all the steps that it may, or it halts with a table that the
tree ends with. -/
theorem exhausted_or_runs (fuel : Nat) :
    (m.runProgram ⟨t.program.toArray, name⟩ fuel).1 = .exhausted ∨
      (m.runProgram ⟨t.program.toArray, name⟩ fuel).1 = .halted ∧
        t.Runs Word.wrap m.state.table
          (m.runProgram ⟨t.program.toArray, name⟩ fuel).2.state.table := by
  have hends := m.runCode_endsWithin_safe t name fuel
  rw [m.runProgram_eq_runCode t name fuel]
  rcases runCode_cases (m :=
    m.load ⟨t.program.toArray, name⟩) hwatcher (writes_program _ t) fuel with
    ⟨fault, hfailed⟩ | hexhausted | ⟨hending, n, hsteps⟩
  · exact absurd hfailed (hends.notFailed fault)
  · exact .inl hexhausted
  · exact .inr ⟨hending, Statement.runs_of_steps hsteps (hends.halted hending)⟩

theorem halts_iff_runs (w : Table) :
    t.Runs Word.wrap m.state.table w ↔
      ∃ fuel, (m.runProgram ⟨t.program.toArray, name⟩ fuel).1 = .halted ∧
        (m.runProgram ⟨t.program.toArray, name⟩ fuel).2.state.table = w := by
  constructor
  · intro hruns
    obtain ⟨n, final, hsteps, hhalted, rfl⟩ := Statement.steps_of_runs hruns
    obtain ⟨hending, hstate⟩ :=
      runCode_of_steps (m := m.load ⟨t.program.toArray, name⟩) hwatcher
      (writes_program _ t) hsteps hhalted (Nat.le_refl n)
    refine ⟨n, ?_⟩
    rw [m.runProgram_eq_runCode t name n, hstate]
    exact ⟨hending, rfl⟩
  · rintro ⟨fuel, hending, rfl⟩
    rcases exhausted_or_runs hwatcher t name fuel with hexhausted | ⟨-, hruns⟩
    · rw [hending] at hexhausted
      cases hexhausted
    · exact hruns

theorem exhausted_iff_not_runs :
    (¬ ∃ w, t.Runs Word.wrap m.state.table w) ↔
      ∀ fuel, (m.runProgram ⟨t.program.toArray, name⟩ fuel).1 = .exhausted := by
  constructor
  · intro hnot fuel
    rcases exhausted_or_runs hwatcher t name fuel with hexhausted | ⟨-, hruns⟩
    · exact hexhausted
    · exact absurd ⟨_, hruns⟩ hnot
  · rintro hexhausted ⟨w, hruns⟩
    obtain ⟨fuel, hending, -⟩ := (halts_iff_runs hwatcher t name w).mp hruns
    rw [hexhausted fuel] at hending
    cases hending

end Unwatched

end Machine

/-- A program does on the machine what a tree means. From any values of the
variables the machine halts with a table exactly if the tree ends with that
table, and it goes on for ever exactly if the tree does not end. -/
def Program.Implements (program : Program) (t : Tree.Statement) : Prop :=
  ∀ (values : Vector Int 26) (traces : Bool), ∃ m,
    Machine.new (some values.toList) traces = .ok m ∧
    (∀ w, t.Runs Word.wrap (values.map Word.wrap) w ↔
      ∃ fuel, (m.runProgram program fuel).1 = .halted ∧
        (m.runProgram program fuel).2.state.table = w) ∧
    ((¬ ∃ w, t.Runs Word.wrap (values.map Word.wrap) w) ↔
      ∀ fuel, (m.runProgram program fuel).1 = .exhausted)

namespace Source

open OnePass.Tree (Statement)

/-- Semantic preservation. A text that compiles has one tree, and the program
implements it. -/
theorem compiled_code_preserves_meaning {s : Source} {limit : Nat}
    {program : Program} (hok : (s.compileWithin limit).outcome = .ok program) :
    ∃ t : Statement, s.ReadsAs t ∧ (∀ u, s.ReadsAs u → u = t) ∧
    program.Implements t := by
  obtain ⟨t, htree, -, rfl⟩ := exists_tree_of_ok hok
  refine ⟨t, htree, fun u hu => hu.unique htree, fun values traces => ?_⟩
  obtain ⟨m, hnew, hwatcher, htable⟩ := Machine.exists_new values traces
  rw [← htable]
  exact ⟨m, hnew, Machine.halts_iff_runs hwatcher t s.name,
    Machine.exhausted_iff_not_runs hwatcher t s.name⟩

theorem compiled_code_preserves_meaning_alternating :
    alternating.compile.outcome =
      .ok ⟨alternatingTree.program.toArray, alternating.name⟩ ∧
      ∃ t : Statement, alternating.ReadsAs t ∧
      (∀ u, alternating.ReadsAs u → u = t) ∧
        Program.Implements ⟨alternatingTree.program.toArray,
          alternating.name⟩ t :=
  ⟨outcome_alternating, compiled_code_preserves_meaning outcome_alternating⟩

end Source

end OnePass

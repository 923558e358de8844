import OnePass.Proofs.MachineUse
import OnePass.Proofs.SessionBlock
import OnePass.Run

namespace OnePass

open OnePass.Tree (Statement)
open OnePass.Word (InRange)

theorem Table.ofValues_toList_of_inRange {table : Table}
    (h : ∀ v, InRange (table.value v)) :
    ofValues table.toList = .ok table := by
  rw [ofValues_toList]
  congr 1
  apply Vector.ext
  intro i hi
  rw [Vector.getElem_map]
  exact Word.wrap_eq_self_of_inRange (h ⟨i, hi⟩)

namespace Machine

section Unwatched

variable {m m' : Machine} (hwatcher : m.watcher = none)
  (hwatcher' : m'.watcher = none)
include hwatcher hwatcher'

theorem runCode_congr {code : Array Int} (hwrites : m.Writes code)
    (hwrites' : m'.Writes code) (hstate : m.state = m'.state) (fuel : Nat) :
    (m.runCode code fuel).1 = (m'.runCode code fuel).1 ∧
      (m.runCode code fuel).2.state = (m'.runCode code fuel).2.state := by
  induction fuel generalizing m m' with
  | zero => simp [runCode, hstate]
  | succ fuel ih =>
      cases hhalted : m'.state.halted with
      | true => simp [runCode, hstate, hhalted]
      | false =>
          cases hexecute : State.execute code m'.state with
          | error fault s =>
              have hexecute' : State.execute code m.state = .error fault s :=
                hstate ▸ hexecute
              rw [runCode_succ_of_error hwatcher (hstate ▸ hhalted) hexecute',
                runCode_succ_of_error hwatcher' hhalted hexecute]
              exact ⟨rfl, rfl⟩
          | ok op s =>
              have hexecute' : State.execute code m.state = .ok op s :=
                hstate ▸ hexecute
              rw [runCode_succ hwatcher hwrites.writesAt (hstate ▸ hhalted)
                hexecute', runCode_succ hwatcher' hwrites'.writesAt hhalted
                hexecute]
              exact ih (by simp [hwatcher]) (by simp [hwatcher'])
                (hwrites.logged s)
                (hwrites'.logged s) rfl

theorem runProgram_congr (program : Program) (hwrites : m.Writes program.code)
    (hwrites' : m'.Writes program.code)
    (htable : m.state.table = m'.state.table) (fuel : Nat) :
    (m.runProgram program fuel).1 = (m'.runProgram program fuel).1 ∧
      (m.runProgram program fuel).2.state =
        (m'.runProgram program fuel).2.state := by
  have hload : (m.load program).state = (m'.load program).state := by
    rw [load, load, htable]
  have hloaded : (m.load program).watcher = none := hwatcher
  have hloaded' : (m'.load program).watcher = none := hwatcher'
  have hprogram : (m.load program).program = some program := rfl
  have hprogram' : (m'.load program).program = some program := rfl
  rw [runProgram, runProgram, fst_run hprogram, fst_run hprogram',
    state_run hprogram, state_run hprogram']
  exact runCode_congr hloaded hloaded' hwrites hwrites' hload fuel

end Unwatched

/-- Nobody watches the machine, and its variables are those of a new one with
the given values. -/
structure Carries (m : Machine) (values : Option (List Int)) : Prop where
  watcher : m.watcher = none
  table : ∃ fresh, new values false = .ok fresh ∧
    fresh.state.table = m.state.table

theorem carries_zero (traces : Bool) :
    ({ traces := traces } : Machine).Carries none :=
  ⟨rfl, _, rfl, rfl⟩

theorem Carries.of_inRange {m : Machine} (hwatcher : m.watcher = none)
    (h : ∀ v, InRange (m.state.table.value v)) :
    m.Carries (some m.state.table.toList) := by
  refine ⟨hwatcher, { state := { table := m.state.table } }, ?_, rfl⟩
  simp only [new, Table.ofValues_toList_of_inRange h, bind, Except.bind]
  rfl

/-- A compiled program takes all the steps that it may, or it halts. Both times
it does what it does on a new machine. -/
theorem Carries.run {m : Machine} {values : Option (List Int)}
    (h : m.Carries values) {s : Source} {limit : Nat} {program : Program}
    (hok : (s.compileWithin limit).outcome = .ok program) (fuel : Nat) :
    (m.runProgram program fuel).1 = .exhausted ∧
        (s.runWithin limit values false fuel).1 = .error .exhausted ∨
      (m.runProgram program fuel).1 = .halted ∧
        (s.runWithin limit values false fuel).1 =
          .ok (m.runProgram program fuel).2.state.table ∧
        (m.runProgram program fuel).2.Carries
          (some (m.runProgram program fuel).2.state.table.toList) := by
  obtain ⟨fresh, hnew, htable⟩ := h.table
  obtain ⟨table, hfresh, -⟩ := eq_of_new hnew
  have hwatcher : fresh.watcher = none := by rw [hfresh]
  have hsound : (fresh.runProgram program fuel).2.Sound :=
    ((sound_of_new hnew).load program).run fuel
  obtain ⟨t, -, -, rfl⟩ := Source.exists_tree_of_ok hok
  obtain ⟨hending, hstate⟩ :=
    runProgram_congr h.watcher hwatcher ⟨t.program.toArray, s.name⟩
    (m.writes_program t) (fresh.writes_program t) htable.symm fuel
  have hwatched := watcher_runProgram h.watcher t s.name fuel
  have hends := exhausted_or_runs hwatcher t s.name fuel
  rw [hending, hstate]
  generalize m.runProgram ⟨t.program.toArray, s.name⟩ fuel =
    result at hwatched hstate ⊢
  simp only [Source.runWithin, Program.run, hok, hnew]
  generalize fresh.runProgram ⟨t.program.toArray, s.name⟩ fuel =
    freshResult at hstate hsound hends ⊢
  rcases freshResult with ⟨ending, final⟩
  rcases hends with rfl | ⟨rfl, -⟩
  · exact .inl ⟨rfl, rfl⟩
  · refine .inr ⟨rfl, rfl, ?_⟩
    rw [← hstate]
    exact .of_inRange hwatched (hstate ▸ hsound.table)

end Machine

end OnePass

import OnePass.Proofs.Acceptance
import OnePass.Proofs.Preservation
import OnePass.Proofs.Spelling

namespace OnePass

open OnePass.Tree (Statement Block)

/-- The lines of a block with the given texts as its statements. -/
def blockText (texts : List (List Char)) : List Char :=
  '{' :: '\n' :: (texts.flatMap (fun text => text ++ ['\n']) ++ ['}'])

/-- Runs programs one after the other on one machine, as long as each of them
halts. -/
def Machine.runAll (fuel : Nat) : List Program → Machine → Option Machine
  | [], m => some m
  | program :: programs, m =>
      match m.runProgram program fuel with
      | (.halted, m) => runAll fuel programs m
      | _ => none

namespace Machine

theorem runAll_cons {fuel : Nat} {program : Program} {programs : List Program}
    {m m' : Machine} :
    runAll fuel (program :: programs) m = some m' ↔
      (m.runProgram program fuel).1 = .halted ∧
        runAll fuel programs (m.runProgram program fuel).2 = some m' := by
  rw [runAll]
  rcases m.runProgram program fuel with ⟨ending, next⟩
  cases ending <;> simp

theorem runProgram_of_halted {program : Program} {m : Machine}
    {fuel fuel' : Nat} (h : (m.runProgram program fuel).1 = .halted)
    (hle : fuel ≤ fuel') :
    m.runProgram program fuel' = m.runProgram program fuel := by
  have hprogram : (m.load program).program = some program := rfl
  rw [runProgram, fst_run hprogram] at h
  have hsame := runCode_of_halted h hle
  simp only [runProgram, run, hprogram, hsame]

theorem runAll_of_le {programs : List Program} {m m' : Machine}
    {fuel fuel' : Nat} (h : runAll fuel programs m = some m')
    (hle : fuel ≤ fuel') :
    runAll fuel' programs m = some m' := by
  induction programs generalizing m with
  | nil => exact h
  | cons program programs ih =>
      obtain ⟨hhalted, hothers⟩ := runAll_cons.mp h
      rw [runAll_cons, runProgram_of_halted hhalted hle]
      exact ⟨hhalted, ih hothers⟩

theorem watcher_runProgram {m : Machine} (hwatcher : m.watcher = none)
    (t : Statement) (name : String) (fuel : Nat) :
    (m.runProgram ⟨t.program.toArray, name⟩ fuel).2.watcher = none := by
  rw [m.runProgram_eq_runCode t name fuel]
  exact watcher_runCode (m := m.load ⟨t.program.toArray, name⟩) hwatcher fuel

/-- Running all of the programs and running the one come to the same. -/
structure Matches (m : Machine) (programs : List Program) (program : Program) :
    Prop where
  halts : (∃ fuel m', runAll fuel programs m = some m') ↔
    ∃ fuel, (m.runProgram program fuel).1 = .halted
  table : ∀ fuel fuel' m', runAll fuel programs m = some m' →
    (m.runProgram program fuel').1 = .halted →
      m'.state.table = (m.runProgram program fuel').2.state.table

end Machine

/-- A statement ends with one table at most, since the machine has no choice. -/
theorem Tree.Statement.Runs.unique {t : Statement} {v w w' : Table}
    (h : t.Runs Word.wrap v w) (h' : t.Runs Word.wrap v w') : w = w' := by
  obtain ⟨n, final, hsteps, hhalted, rfl⟩ := Statement.steps_of_runs h
  obtain ⟨n', final', hsteps', hhalted', rfl⟩ := Statement.steps_of_runs h'
  obtain ⟨k, -, hrest⟩ := hsteps.cancel hhalted hsteps'
  rw [hrest.eq_of_halted hhalted']

/-- Texts, their programs, and the block of their trees. -/
inductive Session : List Source → List Program → Block → Prop where
  | nil : Session [] [] .nil
  | cons {s : Source} {t : Statement} {sources : List Source}
      {programs : List Program} {b : Block}
      (tree : s.ReadsAs t) (others : Session sources programs b) :
      Session (s :: sources) (⟨t.program.toArray, s.name⟩ :: programs)
        (.cons t b)

namespace Session

variable {sources : List Source} {programs : List Program} {b : Block}

theorem exists_of_outcomes {limit : Nat}
    (h : sources.map (fun s => (s.compileWithin limit).outcome) =
      programs.map Except.ok) :
    ∃ b, Session sources programs b := by
  induction sources generalizing programs with
  | nil =>
      have hnil : programs = [] := List.map_eq_nil_iff.mp h.symm
      exact ⟨.nil, hnil ▸ .nil⟩
  | cons s sources ih =>
      cases programs with
      | nil => cases h
      | cons program programs =>
          obtain ⟨hok, hothers⟩ := List.cons.inj h
          obtain ⟨t, htree, -, rfl⟩ := Source.exists_tree_of_ok hok
          obtain ⟨b, hsession⟩ := ih hothers
          exact ⟨.cons t b, .cons htree hsession⟩

theorem elseNearest (h : Session sources programs b) : b.ElseNearest := by
  induction h with
  | nil => exact trivial
  | cons tree _ ih => exact ⟨tree.1, ih⟩

theorem spelled (h : Session sources programs b) {more : List Char}
    {ts : List Token} (hmore : Spelled more ts) :
    Spelled ((sources.map Source.text).flatMap
      (fun text => text ++ ['\n']) ++ more)
      (b.tokens ++ ts) := by
  induction h with
  | nil => exact hmore
  | cons tree _ ih =>
      have htokens := (Source.spells_iff_spelled.mp tree.2).append ih
      simpa [Block.tokens] using htokens

theorem readsAs (h : Session sources programs b) {block : Source}
    (htext : block.text = blockText (sources.map Source.text)) :
    block.ReadsAs (.block b) := by
  have hleft : Spelled ['{'] [.leftBrace] :=
    .token (.sign rfl rfl rfl) (.done rfl)
  have hright : Spelled ['}'] [.rightBrace] :=
    .token (.sign rfl rfl rfl) (.done rfl)
  refine ⟨h.elseNearest, Source.spells_iff_spelled.mpr ?_⟩
  rw [htext]
  exact hleft.append (h.spelled hright)

theorem runs_iff (h : Session sources programs b) {m : Machine}
    (hwatcher : m.watcher = none) (w : Table) :
    (∃ fuel m', Machine.runAll fuel programs m = some m' ∧ m'.state.table = w) ↔
      b.Runs Word.wrap m.state.table w := by
  induction h generalizing m with
  | nil =>
      constructor
      · rintro ⟨fuel, m', hm, rfl⟩
        cases hm
        exact .nil
      · rintro ⟨⟩
        exact ⟨0, m, rfl, rfl⟩
  | @cons s t sources programs b tree others ih =>
      have hfirst := Machine.halts_iff_runs hwatcher t s.name
      constructor
      · rintro ⟨fuel, m', hall, htable⟩
        obtain ⟨hhalted, hrest⟩ := Machine.runAll_cons.mp hall
        refine .cons ((hfirst _).mpr ⟨fuel, hhalted, rfl⟩) ?_
        exact (ih (Machine.watcher_runProgram hwatcher t s.name fuel)).mp
          ⟨fuel, m', hrest, htable⟩
      · intro hruns
        cases hruns with
        | cons hstatement hblock =>
            obtain ⟨fuel, hhalted, rfl⟩ := (hfirst _).mp hstatement
            obtain ⟨fuel', m', hrest, htable⟩ :=
              (ih (Machine.watcher_runProgram hwatcher t s.name fuel)).mpr
                hblock
            -- What is enough for the one and for the others is enough for all.
            have hsame :=
              Machine.runProgram_of_halted hhalted (Nat.le_max_left fuel fuel')
            refine ⟨max fuel fuel', m', ?_, htable⟩
            rw [Machine.runAll_cons, hsame]
            exact ⟨hhalted, Machine.runAll_of_le hrest
              (Nat.le_max_right fuel fuel')⟩

theorem matches_block (h : Session sources programs b) {m : Machine}
    (hwatcher : m.watcher = none) (name : String) :
    m.Matches programs ⟨(Statement.block b).program.toArray, name⟩ := by
  have hblock := Machine.halts_iff_runs hwatcher (.block b) name
  constructor
  case halts =>
    constructor
    · rintro ⟨fuel, m', hall⟩
      have hruns := (h.runs_iff hwatcher _).mp ⟨fuel, m', hall, rfl⟩
      obtain ⟨fuel', hhalted, -⟩ := (hblock _).mp (.block hruns)
      exact ⟨fuel', hhalted⟩
    · rintro ⟨fuel, hhalted⟩
      cases (hblock _).mpr ⟨fuel, hhalted, rfl⟩ with
      | block hruns =>
          obtain ⟨fuel', m', hall, -⟩ := (h.runs_iff hwatcher _).mpr hruns
          exact ⟨fuel', m', hall⟩
  case table =>
    intro fuel fuel' m' hall hhalted
    have hsession := (h.runs_iff hwatcher _).mp ⟨fuel, m', hall, rfl⟩
    have hwhole := (hblock _).mpr ⟨fuel', hhalted, rfl⟩
    exact Statement.Runs.unique (.block hsession) hwhole

end Session

namespace Source

/-- Programs that are run one after the other on one machine do what the block
of them does. -/
theorem session_matches_block {sources : List Source}
    {programs : List Program} {limit : Nat} {block : Source}
    (hprograms : sources.map (fun s => (s.compileWithin limit).outcome) =
      programs.map Except.ok)
    (htext : block.text = blockText (sources.map Source.text)) :
    ((∃ program, (block.compileWithin limit).outcome = .ok program) ∨
        ∃ found, (block.compileWithin limit).outcome =
          .error (.tooDeep found)) ∧
      ∀ program, (block.compileWithin limit).outcome = .ok program →
        ∀ m : Machine, m.watcher = none → m.Matches programs program := by
  obtain ⟨b, hsession⟩ := Session.exists_of_outcomes hprograms
  have htree := hsession.readsAs htext
  constructor
  · have hgrammatical : block.Grammatical := ⟨_, htree.2⟩
    exact hgrammatical.accepted_or_tooDeep limit
  · intro program hok m hwatcher
    obtain ⟨t, htree', -, rfl⟩ := exists_tree_of_ok hok
    rw [htree'.unique htree]
    exact hsession.matches_block hwatcher block.name

/-- A session in which a condition without an `else` is followed by a loop. -/
def counting : List Source :=
  [{ text := "i = 1;".toList, firstLine := 1 },
    { text := "if (i) j = 2;".toList, firstLine := 2 },
    { text := "while (j < 3) j = j + i;".toList, firstLine := 3 }]

def countingPrograms : List Program :=
  [{ code := #[2, 1, 1, 8, 3, 10] },
    { code := #[0, 8, 7, 9, 2, 2, 1, 9, 3, 10] },
    { code := #[0, 9, 2, 3, 6, 7, 17, 0, 9, 0, 8, 4, 1, 9, 3, 9, 0, 10] }]

def countingBlock : Source where
  text := blockText (counting.map Source.text)

def countingProgram : Program where
  code :=
    #[2, 1, 1, 8, 3, 0, 8, 7, 14, 2, 2, 1, 9, 3, 0, 9, 2, 3, 6, 7, 31, 0, 9, 0,
    8, 4, 1, 9, 3, 9, 14, 10]

theorem session_matches_block_counting :
    counting.map (fun s => (s.compileWithin nestingLimit).outcome) =
      countingPrograms.map Except.ok ∧
      (countingBlock.compileWithin nestingLimit).outcome = .ok countingProgram ∧
        ∀ m : Machine, m.watcher = none →
        m.Matches countingPrograms countingProgram := by
  have hprograms :
      counting.map (fun s => (s.compileWithin nestingLimit).outcome) =
      countingPrograms.map Except.ok := by decide +kernel
  have hblock : (countingBlock.compileWithin nestingLimit).outcome =
      .ok countingProgram := by
    decide +kernel
  exact ⟨hprograms, hblock, (session_matches_block hprograms rfl).2 _ hblock⟩

end Source

end OnePass

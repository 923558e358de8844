import OnePass.Proofs.MachineUse
import OnePass.Proofs.Preservation

namespace OnePass

/-- The tokens have an occurrence of the variable that the instruction fetches
or stores to. -/
def Instruction.NamedIn (ts : List Token) : Instruction → Prop
  | .fetch v => ∃ next, next ≠ .assign ∧ [.variable v, next] <:+: ts
  | .store v => [.variable v, .assign] <:+: ts
  | _ => True

theorem Instruction.NamedIn.mono {i : Instruction} {ts ts' : List Token}
    (h : i.NamedIn ts) (hpart : ts <:+: ts') : i.NamedIn ts' := by
  cases i with
  | fetch v =>
      obtain ⟨next, hnext, hpair⟩ := h
      exact ⟨next, hnext, hpair.trans hpart⟩
  | store v => exact List.IsInfix.trans h hpart
  | _ => trivial

namespace Tree

/-- The tokens name the variables of all the instructions. -/
def Names (ts : List Token) (is : List Instruction) : Prop :=
  ∀ i ∈ is, i.NamedIn ts

theorem Names.mono {ts ts' : List Token} {is : List Instruction}
    (h : Names ts is) (hpart : ts <:+: ts') : Names ts' is :=
  fun i hi => (h i hi).mono hpart

theorem names_append {ts : List Token} {is is' : List Instruction} :
    Names ts (is ++ is') ↔ Names ts is ∧ Names ts is' :=
  List.forall_mem_append

theorem names_singleton {ts : List Token} {i : Instruction} :
    Names ts [i] ↔ i.NamedIn ts :=
  List.forall_mem_singleton

theorem names_operation {left right : List Instruction}
    {front back : List Token} {sign next : Token} {i : Instruction}
    (hleft : Names (front ++ [sign]) left)
    (hright : Names (back ++ [next]) right) (hi : ∀ ts, i.NamedIn ts) :
    Names (front ++ sign :: back ++ [next]) (left ++ right ++ [i]) := by
  rw [names_append, names_append, names_singleton]
  refine ⟨⟨hleft.mono ⟨[], back ++ [next], ?_⟩,
    hright.mono ⟨front ++ [sign], [], ?_⟩⟩, hi _⟩
  · simp
  · simp

mutual

-- What a variable at the end of an expression is for shows in the token that
-- follows the expression, and that is never an assignment sign.
theorem Term.names (next : Token) (hnext : next ≠ .assign) :
    ∀ x : Term, Names (x.tokens ++ [next]) x.instructions
  | .variable v => names_singleton.mpr ⟨next, hnext, List.infix_rfl⟩
  | .number n => names_singleton.mpr trivial
  | .group e =>
      (e.names .rightParen (by decide)).mono
        ⟨[.leftParen], [next], by simp [Term.tokens]⟩

theorem Sum.names (next : Token) (hnext : next ≠ .assign) :
    ∀ x : Sum, Names (x.tokens ++ [next]) x.instructions
  | .term x => x.names next hnext
  | .add left right =>
      names_operation (left.names _ (by decide)) (right.names next hnext)
        fun _ => trivial
  | .sub left right =>
      names_operation (left.names _ (by decide)) (right.names next hnext)
        fun _ => trivial

theorem Test.names (next : Token) (hnext : next ≠ .assign) :
    ∀ x : Test, Names (x.tokens ++ [next]) x.instructions
  | .sum x => x.names next hnext
  | .less left right =>
      names_operation (left.names _ (by decide)) (right.names next hnext)
        fun _ => trivial

theorem Expression.names (next : Token) (hnext : next ≠ .assign) :
    ∀ x : Expression, Names (x.tokens ++ [next]) x.instructions
  | .test x => x.names next hnext
  | .assign v e => by
      rw [Expression.instructions, names_append, names_singleton]
      constructor
      · exact (e.names next hnext).mono ⟨[.variable v, .assign],
          [], by simp [Expression.tokens]⟩
      · exact ⟨[], e.tokens ++ [next], rfl⟩

end

theorem Expression.names_parenthesized (e : Expression) :
    Names e.parenthesized e.instructions :=
  (e.names .rightParen (by decide)).mono
    ⟨[.leftParen], [], by simp [Expression.parenthesized]⟩

mutual

theorem Statement.names :
    ∀ (s : Statement) (base : Nat), Names s.tokens (s.instructions base)
  | .ifThen c s, base => by
      simp only [Statement.instructions, Statement.tokens, names_append,
        names_singleton]
      refine ⟨⟨c.names_parenthesized.mono ⟨[.ifWord], s.tokens, by simp⟩,
        trivial⟩, ?_⟩
      exact (s.names _).mono (List.suffix_append _ _).isInfix
  | .ifElse c s t, base => by
      simp only [Statement.instructions, Statement.tokens, names_append,
        names_singleton]
      refine ⟨⟨⟨⟨?_, trivial⟩, ?_⟩, trivial⟩, ?_⟩
      · exact c.names_parenthesized.mono
          ⟨[.ifWord], s.tokens ++ .elseWord :: t.tokens, by simp⟩
      · exact (s.names _).mono (List.infix_append _ _ _)
      · exact (t.names _).mono
          ⟨.ifWord :: c.parenthesized ++ s.tokens ++ [.elseWord], [], by simp⟩
  | .whileDo c s, base => by
      simp only [Statement.instructions, Statement.tokens, names_append,
        names_singleton]
      refine ⟨⟨⟨c.names_parenthesized.mono ⟨[.whileWord], s.tokens, by simp⟩,
        trivial⟩, ?_⟩, trivial⟩
      exact (s.names _).mono (List.suffix_append _ _).isInfix
  | .doWhile s c, base => by
      simp only [Statement.instructions, Statement.tokens, names_append,
        names_singleton]
      refine ⟨⟨(s.names _).mono ⟨[.doWord],
        .whileWord :: c.parenthesized ++ [.semicolon], by simp⟩, ?_⟩, trivial⟩
      exact c.names_parenthesized.mono ⟨.doWord :: s.tokens ++ [.whileWord],
        [.semicolon], by simp⟩
  | .block b, base => (b.names base).mono ⟨[.leftBrace], [.rightBrace], rfl⟩
  | .expression e, base => by
      rw [Statement.instructions, names_append, names_singleton]
      exact ⟨e.names .semicolon (by decide), trivial⟩
  | .empty, _ => fun i hi => absurd hi List.not_mem_nil

theorem Block.names :
    ∀ (b : Block) (base : Nat), Names b.tokens (b.instructions base)
  | .nil, _ => fun i hi => absurd hi List.not_mem_nil
  | .cons s b, base => by
      simp only [Block.instructions, Block.tokens, names_append]
      constructor
      · exact (s.names base).mono (List.prefix_append _ _).isInfix
      · exact (b.names _).mono (List.suffix_append _ _).isInfix

end

theorem Statement.names_program (t : Statement) :
    Names t.tokens t.programInstructions :=
  names_append.mpr ⟨t.names 0, names_singleton.mpr trivial⟩

end Tree

namespace State

open OnePass.Tree (Statement)

/-- Only an instruction that stores to a variable changes it. -/
theorem Performs.value_eq {i : Instruction} {s s' : State}
    (h : Performs i s s') {v : Variable} (hi : i ≠ .store v) :
    s'.table.value v = s.table.value v := by
  cases h with
  | store u hstack =>
      have hne : v ≠ u := by
        rintro rfl
        exact hi rfl
      rw [Table.value_assign, if_neg hne]
  | _ => rfl

/-- Two states that differ at most in variables outside of `R`. -/
structure Lockstep (R : Variable → Prop) (s s' : State) : Prop where
  pc : s.pc = s'.pc
  stack : s.stack = s'.stack
  halted : s.halted = s'.halted
  steps : s.steps = s'.steps
  table : ∀ v, R v → s.table.value v = s'.table.value v

theorem Lockstep.performs {R : Variable → Prop} {i : Instruction}
    {s t s' t' : State} (h : Lockstep R s s') (ht : Performs i s t)
    (ht' : Performs i s' t') (hi : ∀ v, i = .fetch v → R v) :
    Lockstep R { t with steps := t.steps + 1 }
      { t' with steps := t'.steps + 1 } := by
  obtain ⟨hpc, hstack, hhalted, hsteps, htable⟩ := h
  rcases s with ⟨table, stack, pc, halted, steps⟩
  rcases s' with ⟨table', stack', pc', halted', steps'⟩
  cases hpc
  cases hstack
  cases hhalted
  cases hsteps
  cases ht with
  | fetch v =>
      cases ht'
      exact ⟨rfl, congrArg (· :: stack) (htable v (hi v rfl)), rfl, rfl, htable⟩
  | push n | jmp target | halt =>
      cases ht'
      exact ⟨rfl, rfl, rfl, rfl, htable⟩
  | store v hstack =>
      cases hstack
      cases ht' with
      | store _ hstack' =>
          cases hstack'
          refine ⟨rfl, rfl, rfl, rfl, fun u hu => ?_⟩
          simp only [Table.value_assign, htable u hu]
  | pop hstack | jz _ hstack | jnz _ hstack | add hstack | sub hstack
  | lt hstack =>
      cases hstack
      cases ht'
      rename_i hstack'
      cases hstack'
      exact ⟨rfl, rfl, rfl, rfl, htable⟩

end State

namespace Tree.Statement

theorem Safe.exists_performs {t : Statement} {s : State} (h : t.Safe s)
    (hrunning : s.halted = false) :
    ∃ i ∈ t.programInstructions, ∃ s',
      Instruction.decodeAt t.program.toArray s.pc = .ok i ∧
      State.Performs i s s' ∧ t.Safe { s' with steps := s'.steps + 1 } := by
  obtain ⟨op, next, hexecute, hsafe, -⟩ := h.step hrunning
  obtain ⟨before, i, after, hsplit, hpc, -⟩ := h
  have hmem : i ∈ t.programInstructions := by simp [hsplit]
  have hdecode := decodeAt_program hsplit
  rw [← hpc] at hdecode
  have hexecutes := State.executes t.program.toArray s
  rw [hexecute] at hexecutes
  cases hexecutes with
  | performed hdecode' hperforms =>
      rw [hdecode] at hdecode'
      cases hdecode'
      exact ⟨i, hmem, _, hdecode, hperforms, hsafe⟩

end Tree.Statement

namespace Machine

open OnePass.Tree (Statement)

theorem state_step_of_performs {m : Machine} {program : Program}
    {i : Instruction} {s' : State} (hprogram : m.program = some program)
    (hwrites : m.Writes program.code) (hrunning : m.state.halted = false)
    (hdecode : Instruction.decodeAt program.code m.state.pc = .ok i)
    (hperforms : State.Performs i m.state s') :
    m.step.2.state = { s' with steps := s'.steps + 1 } := by
  have hexecute := State.execute_of_performs hdecode hperforms
  rw [step_of_running hprogram hrunning,
    execute_of_ok hwrites.writesAt hexecute]

variable (m m' : Machine) (t : Statement) (name : String)

theorem value_afterSteps {v : Variable}
    (hv : .store v ∉ t.programInstructions) (k : Nat) :
    (m.afterSteps ⟨t.program.toArray, name⟩ k).state.table.value v =
      m.state.table.value v := by
  induction k with
  | zero => rfl
  | succ k ih =>
      obtain ⟨hprogram, hsafe⟩ := m.afterSteps_safe t name k
      rw [afterSteps]
      cases hhalted :
        (m.afterSteps ⟨t.program.toArray, name⟩ k).state.halted with
      | true => rw [step_of_halted hprogram hhalted, ih]
      | false =>
          obtain ⟨i, hi, s', hdecode, hperforms, -⟩ :=
            hsafe.exists_performs hhalted
          rw [state_step_of_performs hprogram
            (writes_program _ t) hhalted hdecode hperforms, ← ih]
          exact hperforms.value_eq (ne_of_mem_of_not_mem hi hv)

theorem value_runProgram {v : Variable}
    (hv : .store v ∉ t.programInstructions) (fuel : Nat) :
    (m.runProgram ⟨t.program.toArray, name⟩ fuel).2.state.table.value v =
      m.state.table.value v := by
  rw [m.runProgram_eq_runCode t name fuel]
  have hstep : ∀ s, (t.Safe s ∧ s.table.value v = m.state.table.value v) →
      s.halted = false →
      ∃ op s', State.execute t.program.toArray s = .ok op s' ∧
        t.Safe s' ∧ s'.table.value v = m.state.table.value v := by
    rintro s ⟨hsafe, hvalue⟩ hrunning
    obtain ⟨i, hi, s', hdecode, hperforms, hsafe'⟩ :=
      hsafe.exists_performs hrunning
    refine ⟨_, _, State.execute_of_performs hdecode hperforms, hsafe', ?_⟩
    rw [← hvalue]
    exact hperforms.value_eq (ne_of_mem_of_not_mem hi hv)
  exact (runCode_endsWithin hstep fuel (m.load ⟨t.program.toArray, name⟩)
    (writes_program _ t) ⟨t.safe_start m.state.table, rfl⟩).invariant.2

theorem lockstep_afterSteps {R : Variable → Prop}
    (hfetch : ∀ v, .fetch v ∈ t.programInstructions → R v)
    (hagree : ∀ v, R v → m.state.table.value v = m'.state.table.value v)
    (k : Nat) :
    State.Lockstep R (m.afterSteps ⟨t.program.toArray, name⟩ k).state
      (m'.afterSteps ⟨t.program.toArray, name⟩ k).state := by
  induction k with
  | zero => exact ⟨rfl, rfl, rfl, rfl, hagree⟩
  | succ k ih =>
      obtain ⟨hprogram, hsafe⟩ := m.afterSteps_safe t name k
      obtain ⟨hprogram', hsafe'⟩ := m'.afterSteps_safe t name k
      rw [afterSteps, afterSteps]
      cases hhalted :
        (m.afterSteps ⟨t.program.toArray, name⟩ k).state.halted with
      | true =>
          have hhalted' := ih.halted.symm.trans hhalted
          rw [step_of_halted hprogram hhalted,
            step_of_halted hprogram' hhalted']
          exact ih
      | false =>
          have hhalted' := ih.halted.symm.trans hhalted
          obtain ⟨i, hi, s, hdecode, hperforms, -⟩ :=
            hsafe.exists_performs hhalted
          obtain ⟨i', -, s', hdecode', hperforms', -⟩ :=
            hsafe'.exists_performs hhalted'
          -- The program counters are the same, and so is what is read there.
          have hsame : i' = i := by
            rw [← ih.pc, hdecode] at hdecode'
            exact (Except.ok.inj hdecode').symm
          subst hsame
          rw [state_step_of_performs hprogram (writes_program _ t) hhalted
            hdecode hperforms,
            state_step_of_performs hprogram'
            (writes_program _ t) hhalted' hdecode' hperforms']
          refine ih.performs hperforms hperforms' ?_
          rintro v rfl
          exact hfetch v hi

end Machine

namespace Source

open OnePass.Tree (Statement Names)

/-- Somewhere the variable is followed by an assignment sign. -/
def WritesVariable (s : Source) (v : Variable) : Prop :=
  [.variable v, .assign] <:+: s.start.tokens.1.map Lexeme.token

/-- Somewhere the variable is followed by another token. The last token of a
text is its end. -/
def ReadsVariable (s : Source) (v : Variable) : Prop :=
  ∃ next, next ≠ .assign ∧
    [.variable v, next] <:+: s.start.tokens.1.map Lexeme.token

theorem ReadsAs.names {s : Source} {t : Statement} (h : s.ReadsAs t) :
    Names (s.start.tokens.1.map Lexeme.token) t.programInstructions := by
  rw [h.2.2]
  exact t.names_program.mono (List.prefix_append _ _).isInfix

/-- Programs touch and depend on only the variables that their texts name. A
variable that the text does not write keeps its value in every run. Two runs
that start with the same values of the variables that it reads are in lockstep.
On a new machine the values at the start are the words of the given ones. -/
theorem depends_on_named_variables {s : Source} {limit : Nat}
    {program : Program} (hok : (s.compileWithin limit).outcome = .ok program) :
    (∀ (m : Machine) (v : Variable), ¬ s.WritesVariable v →
      (∀ k, (m.afterSteps program k).state.table.value v =
        m.state.table.value v) ∧
        ∀ fuel, (m.runProgram program fuel).2.state.table.value v =
          m.state.table.value v) ∧
    (∀ m m' : Machine,
      (∀ v, s.ReadsVariable v →
        m.state.table.value v = m'.state.table.value v) →
        ∀ k, State.Lockstep s.ReadsVariable (m.afterSteps program k).state
          (m'.afterSteps program k).state) ∧
    ∀ (values : Vector Int 26) (traces : Bool), ∃ m,
      Machine.new (some values.toList) traces = .ok m ∧
      m.state.table = values.map Word.wrap := by
  obtain ⟨t, htree, -, rfl⟩ := exists_tree_of_ok hok
  have hnames := htree.names
  refine ⟨fun m v hv => ?_, fun m m' hagree => ?_, fun values traces => ?_⟩
  · have hstore : .store v ∉ t.programInstructions := fun hmem =>
      hv (hnames _ hmem)
    exact ⟨m.value_afterSteps t s.name hstore,
      m.value_runProgram t s.name hstore⟩
  · exact m.lockstep_afterSteps m' t s.name (fun v hmem => hnames _ hmem) hagree
  · obtain ⟨m, hnew, -, htable⟩ := Machine.exists_new values traces
    exact ⟨m, hnew, htable⟩

/-- Here `b` is not written, and `c` is not read. -/
def climbing : Source where
  text := "while (a < b) a = c = a + 1;".toList

def climbingProgram : Program where
  code := #[0, 0, 0, 1, 6, 7, 19, 0, 0, 2, 1, 4, 1, 2, 1, 0, 3, 9, 0, 10]

theorem depends_on_named_variables_climbing :
    climbing.compile.outcome = .ok climbingProgram ∧
      (∀ (m : Machine) (k : Nat),
        (m.afterSteps climbingProgram k).state.table.value 1 =
          m.state.table.value 1) ∧
      ∀ m m' : Machine, m.state.table.value 0 = m'.state.table.value 0 →
        m.state.table.value 1 = m'.state.table.value 1 →
          ∀ k, State.Lockstep climbing.ReadsVariable
            (m.afterSteps climbingProgram k).state
            (m'.afterSteps climbingProgram k).state := by
  have hok : climbing.compile.outcome = .ok climbingProgram := by decide +kernel
  have htokens :
      climbing.start.tokens.1.map Lexeme.token =
      [.whileWord, .leftParen, .variable 0, .less, .variable 1, .rightParen,
      .variable 0, .assign, .variable 2, .assign, .variable 0, .plus, .number 1,
      .semicolon, .endOfInput] := by decide +kernel
  have hwrites : ¬ climbing.WritesVariable 1 := by
    simp [WritesVariable, htokens, List.infix_cons_iff]
  have hreads : ∀ v, climbing.ReadsVariable v → v = 0 ∨ v = 1 := by
    rintro v ⟨next, hnext, hpair⟩
    have hplaces : v = 0 ∧ next = .less ∨ v = 1 ∧ next = .rightParen ∨
        v = 0 ∧ next = .assign ∨
        v = 2 ∧ next = .assign ∨ v = 0 ∧ next = .plus := by
      simpa [htokens, List.infix_cons_iff] using hpair
    rcases hplaces with ⟨hv, -⟩ | ⟨hv, -⟩ | ⟨hv, -⟩ | ⟨-, hassign⟩ | ⟨hv, -⟩
    · exact .inl hv
    · exact .inr hv
    · exact .inl hv
    · exact absurd hassign hnext
    · exact .inl hv
  obtain ⟨hframe, hlockstep, -⟩ := depends_on_named_variables hok
  refine ⟨hok, fun m => (hframe m 1 hwrites).1, fun m m' ha hb =>
    hlockstep m m' fun v hv => ?_⟩
  rcases hreads v hv with rfl | rfl
  · exact ha
  · exact hb

end Source

end OnePass

import OnePass.Machine.State
import OnePass.Proofs.InstructionCode

namespace OnePass

namespace State

/-- What an instruction does where the stack holds the values that it takes. -/
inductive Performs : Instruction → State → State → Prop where
  | fetch (v : Variable) (s : State) :
      Performs (.fetch v) s
        { s with stack := s.table.value v :: s.stack, pc := s.pc + 2 }
  | store (v : Variable) {s : State} {top : Int} {rest : List Int}
      (h : s.stack = top :: rest) :
      Performs (.store v) s
        { s with table := s.table.assign v top, pc := s.pc + 2 }
  | push (n : Int) (s : State) :
      Performs (.push n) s
        { s with stack := Word.wrap n :: s.stack, pc := s.pc + 2 }
  | pop {s : State} {top : Int} {rest : List Int} (h : s.stack = top :: rest) :
      Performs .pop s { s with stack := rest, pc := s.pc + 1 }
  | add {s : State} {left right : Int} {rest : List Int}
      (h : s.stack = right :: left :: rest) :
      Performs .add s
        { s with stack := Word.wrap (left + right) :: rest, pc := s.pc + 1 }
  | sub {s : State} {left right : Int} {rest : List Int}
      (h : s.stack = right :: left :: rest) :
      Performs .sub s
        { s with stack := Word.wrap (left - right) :: rest, pc := s.pc + 1 }
  | lt {s : State} {left right : Int} {rest : List Int}
      (h : s.stack = right :: left :: rest) :
      Performs .lt s
        { s with
          stack := (if left < right then 1 else 0) :: rest
          pc := s.pc + 1 }
  | jz (target : Nat) {s : State} {top : Int} {rest : List Int}
      (h : s.stack = top :: rest) :
      Performs (.jz target) s
        { s with stack := rest, pc := if top = 0 then target else s.pc + 2 }
  | jnz (target : Nat) {s : State} {top : Int} {rest : List Int}
      (h : s.stack = top :: rest) :
      Performs (.jnz target) s
        { s with stack := rest, pc := if top = 0 then s.pc + 2 else target }
  | jmp (target : Nat) (s : State) :
      Performs (.jmp target) s { s with pc := target }
  | halt (s : State) : Performs .halt s { s with halted := true }

theorem Performs.perform_eq {i : Instruction} {s s' : State}
    (h : Performs i s s') :
    perform i s = .ok () s' := by
  cases h with
  | fetch | push | jmp | halt => rfl
  | store v hstack | pop hstack | add hstack | sub hstack | lt hstack =>
      rcases s with ⟨table, stack, pc, halted, steps⟩
      cases hstack
      rfl
  | @jz target _ top rest hstack =>
      rcases s with ⟨table, stack, pc, halted, steps⟩
      cases hstack
      change (if top = 0 then goTo target else goOn .jz : Execution Unit) _ = _
      by_cases htop : top = 0
      · rw [if_pos htop, if_pos htop]
        rfl
      · rw [if_neg htop, if_neg htop]
        rfl
  | @jnz target _ top rest hstack =>
      rcases s with ⟨table, stack, pc, halted, steps⟩
      cases hstack
      change (if top = 0 then goOn .jnz else goTo target : Execution Unit) _ = _
      by_cases htop : top = 0
      · rw [if_pos htop, if_pos htop]
        rfl
      · rw [if_neg htop, if_neg htop]
        rfl

theorem exists_two_of_length {stack : List Int} (h : 2 ≤ stack.length) :
    ∃ right left rest, stack = right :: left :: rest := by
  match stack, h with
  | right :: left :: rest, _ => exact ⟨right, left, rest, rfl⟩

/-- An instruction can be performed if the stack is as high as its opcode says.
-/
theorem exists_performs {i : Instruction} {s : State}
    (h : i.opcode.pops ≤ s.stack.length) :
    ∃ s', Performs i s s' := by
  cases i with
  | fetch v => exact ⟨_, .fetch v s⟩
  | push n => exact ⟨_, .push n s⟩
  | jmp target => exact ⟨_, .jmp target s⟩
  | halt => exact ⟨_, .halt s⟩
  | store v =>
      obtain ⟨top, rest, hstack⟩ := List.exists_cons_of_length_pos h
      exact ⟨_, .store v hstack⟩
  | pop =>
      obtain ⟨top, rest, hstack⟩ := List.exists_cons_of_length_pos h
      exact ⟨_, .pop hstack⟩
  | jz target =>
      obtain ⟨top, rest, hstack⟩ := List.exists_cons_of_length_pos h
      exact ⟨_, .jz target hstack⟩
  | jnz target =>
      obtain ⟨top, rest, hstack⟩ := List.exists_cons_of_length_pos h
      exact ⟨_, .jnz target hstack⟩
  | add =>
      obtain ⟨right, left, rest, hstack⟩ := exists_two_of_length h
      exact ⟨_, .add hstack⟩
  | sub =>
      obtain ⟨right, left, rest, hstack⟩ := exists_two_of_length h
      exact ⟨_, .sub hstack⟩
  | lt =>
      obtain ⟨right, left, rest, hstack⟩ := exists_two_of_length h
      exact ⟨_, .lt hstack⟩

theorem Performs.height {i : Instruction} {s s' : State} (h : Performs i s s') :
    s'.stack.length + i.opcode.pops = s.stack.length + i.opcode.pushes := by
  cases h with
  | fetch | push | jmp | halt => rfl
  | store v hstack | pop hstack | add hstack | sub hstack | lt hstack
  | jz _ hstack | jnz _ hstack =>
      simp [hstack, Instruction.opcode, Opcode.pops, Opcode.pushes]

/-- Only a halt stops the machine; all else goes on behind the instruction or to
its target. -/
theorem Performs.counter {i : Instruction} {s s' : State}
    (h : Performs i s s') (hi : i ≠ .halt) :
    s'.halted = s.halted ∧
      (s'.pc = s.pc + i.opcode.size ∨ ∃ target, i.target? = some target ∧
        s'.pc = target) := by
  cases h with
  | fetch | push | store | pop | add | sub | lt => exact ⟨rfl, .inl rfl⟩
  | jmp target => exact ⟨rfl, .inr ⟨target, rfl, rfl⟩⟩
  | halt => exact absurd rfl hi
  | @jz target _ top _ _ =>
      by_cases htop : top = 0
      · exact ⟨rfl, .inr ⟨target, rfl, if_pos htop⟩⟩
      · exact ⟨rfl, .inl (if_neg htop)⟩
  | @jnz target _ top _ _ =>
      by_cases htop : top = 0
      · exact ⟨rfl, .inl (if_pos htop)⟩
      · exact ⟨rfl, .inr ⟨target, rfl, if_neg htop⟩⟩

theorem execute_of_performs {code : Array Int} {i : Instruction} {s s' : State}
    (hdecode : Instruction.decodeAt code s.pc = .ok i) (h : Performs i s s') :
    execute code s = .ok i.opcode { s' with steps := s'.steps + 1 } := by
  change (execute code).run s = _
  rw [execute, EStateM.run_bind, EStateM.run_get]
  simp only [hdecode]
  rw [EStateM.run_bind, EStateM.run, h.perform_eq]
  rfl

theorem opcodeAt_of_execute {code : Array Int} {s s' : State} {op : Opcode}
    (h : execute code s = .ok op s') :
    ∃ op, Instruction.opcodeAt code s.pc = .ok op := by
  cases hopcode : Instruction.opcodeAt code s.pc with
  | ok op => exact ⟨op, rfl⟩
  | error flaw =>
      have hdecode : Instruction.decodeAt code s.pc = .error flaw := by
        simp only [Instruction.decodeAt, hopcode, bind, Except.bind]
      change (execute code).run s = _ at h
      rw [execute, EStateM.run_bind, EStateM.run_get] at h
      simp only [hdecode] at h
      cases h

/-- So many instructions lead from one state to another. -/
inductive Steps (code : Array Int) : Nat → State → State → Prop where
  | refl (s : State) : Steps code 0 s s
  | step {n : Nat} {op : Opcode} {s middle s' : State}
      (running : s.halted = false)
      (first : execute code s = .ok op middle)
      (others : Steps code n middle s') :
      Steps code (n + 1) s s'

namespace Steps

variable {code : Array Int} {n m : Nat} {s s' s'' : State}

theorem trans (h : Steps code n s s') (h' : Steps code m s' s'') :
    Steps code (n + m) s s'' := by
  induction h with
  | refl s => rwa [Nat.zero_add]
  | step running first others ih =>
      rw [Nat.add_right_comm]
      exact .step running first (ih h')

/-- Steps that lead to a halt go through every state on the way. -/
theorem cancel (h : Steps code n s s') (hhalted : s'.halted = true)
    (h' : Steps code m s s'') :
    ∃ k, n = m + k ∧ Steps code k s'' s' := by
  induction h' generalizing n with
  | refl s => exact ⟨n, by rw [Nat.zero_add], h⟩
  | step running first others ih =>
      cases h with
      | refl =>
          rw [running] at hhalted
          cases hhalted
      | step running' first' others' =>
          rw [first] at first'
          cases first'
          obtain ⟨k, rfl, hk⟩ := ih others'
          exact ⟨k, by omega, hk⟩

end Steps

end State

end OnePass

import OnePass.Proofs.Backpatching
import OnePass.Proofs.Decoding
import OnePass.Proofs.ShortNumbers

namespace OnePass

/-- A jump among the given instructions leads to one of them. -/
def Entry.Lands (entries : List Entry) (entry : Entry) : Prop :=
  entry.opcode.isJump = true → ∃ offset ∈ entries.map Entry.offset,
    entry.operand = some (offset : Int)

/-- A constant is a machine word. -/
def Entry.Wrapped (entry : Entry) : Prop :=
  entry.opcode.operandKind = .constant → ∀ n, entry.operand = some n →
    Word.InRange n

theorem Entry.wrapped_of_isJump {entry : Entry}
    (h : entry.opcode.isJump = true) :
    entry.Wrapped := by
  intro hkind
  simp [Opcode.isJump, hkind] at h

namespace Builder

theorem wrapped_operandWord (offset : Nat) (op : Opcode)
    (operand : Option Int) :
    (⟨offset, op, operand.map (operandWord op)⟩ : Entry).Wrapped := by
  intro hkind n hn
  obtain ⟨m, -, rfl⟩ := Option.map_eq_some_iff.mp hn
  rw [operandWord, if_pos hkind]
  exact Word.wrap_inRange m

/-- The builder in which a pending jump has got its target. -/
def settle (b : Builder) (jump : Nat) (target : Int) : Builder where
  words := b.words.setIfInBounds (jump + 1) target
  pending := b.pending.erase jump

section Operations

variable {α β : Type} {b b' : Builder} {op : Opcode}

theorem map_of_ok (f : α → β) {x : Build α} {a : α} (h : x b = .ok a b') :
    (f <$> x) b = .ok (f a) b' := by
  change EStateM.map f x b = _
  rw [EStateM.map, h]

theorem map_of_error (f : α → β) {x : Build α} {fault : CodeFault}
    (h : x b = .error fault b') :
    (f <$> x) b = .error fault b' := by
  change EStateM.map f x b = _
  rw [EStateM.map, h]

theorem emit_superfluous (b : Builder) (hop : op.operandKind = .none)
    (operand : Int) :
    emit op (some operand) b =
      .error ⟨.superfluousOperand op, some b.here⟩ b := by
  simp only [emit, hop]
  rfl

theorem emit_absent (b : Builder) (hop : op.operandKind ≠ .none) :
    emit op none b = .error ⟨.absentOperand op, some b.here⟩ b := by
  unfold emit
  split
  · contradiction
  · contradiction
  · rfl
  · contradiction

theorem emitJump_of_not_isJump (b : Builder) (hop : op.isJump = false)
    (target : Option Int) :
    emitJump op target b = .error ⟨.notAJump op, some b.here⟩ b := by
  simp only [emitJump, hop]
  rfl

theorem patch_of_mem {jump : Nat} (h : jump ∈ b.pending) (target : Int) :
    patch jump target b =
      .ok (.patched jump target) (b.settle jump target) := by
  change (if jump ∈ b.pending then _ else _ : Build Event) b = _
  rw [if_pos h]
  rfl

theorem patch_of_not_mem {jump : Int} (h : ∀ n ∈ b.pending, jump ≠ n)
    (target : Int) :
    patch jump target b = .error ⟨.notPending, some jump⟩ b := by
  cases jump with
  | ofNat n =>
      change (if n ∈ b.pending then _ else _ : Build Event) b = _
      rw [if_neg fun hn => h n hn rfl]
      rfl
  | negSucc n => rfl

theorem build_of_min? {jump : Nat} (h : b.pending.min? = some jump)
    (name : String) :
    build name b = .error ⟨.unpatched, some jump⟩ b := by
  change (build name).run b = _
  rw [build, EStateM.run_bind, EStateM.run_get]
  simp only [h]
  rfl

theorem build_of_fault {name : String} {fault : CodeFault}
    (hpending : b.pending = []) (hfault : fault? ⟨b.words, name⟩ = some fault) :
    build name b = .error fault b := by
  change (build name).run b = _
  rw [build, EStateM.run_bind, EStateM.run_get]
  simp only [hpending, List.min?_nil, hfault]
  rfl

theorem build_of_none {name : String} (hpending : b.pending = [])
    (hfault : fault? ⟨b.words, name⟩ = none) :
    build name b = .ok ⟨b.words, name⟩ b := by
  change (build name).run b = _
  rw [build, EStateM.run_bind, EStateM.run_get]
  simp only [hpending, List.min?_nil, hfault]
  rfl

end Operations

section Landing

variable {entries : List Entry} {entry : Entry}

theorem fault?_eq {p : Program} (h : Decodes 0 p.code.toList entries) :
    fault? p = entries.findSome? (strayJump? (entries.map Entry.offset)) := by
  have hinstructions : p.instructions = (entries, none) := h.readInstructions_eq
  simp only [fault?, Program.instructionOffsets, hinstructions]

theorem strayJump?_eq_none_iff {base : Nat} {words : List Int}
    (h : Decodes base words entries) (hentry : entry ∈ entries) :
    strayJump? (entries.map Entry.offset) entry = none ↔
      entry.Lands entries := by
  unfold strayJump? Entry.Lands
  by_cases hjump : entry.opcode.isJump = true
  · obtain ⟨target, htarget⟩ :=
      h.exists_operand hentry (Opcode.size_of_isJump hjump)
    have hflip : ∀ offset : Nat, some target = some (offset : Int) ↔
        (offset : Int) = target :=
      fun offset =>
        ⟨fun h => (Option.some.inj h).symm, fun h => congrArg some h.symm⟩
    generalize entries.map Entry.offset = offsets
    simp [htarget, hjump, hflip]
  · cases entry.operand with
    | none => simp [hjump]
    | some target => simp [hjump]

theorem eq_of_strayJump? {offsets : List Nat} {fault : CodeFault}
    (h : strayJump? offsets entry = some fault) :
    ∃ target, entry.operand = some target ∧
      fault = ⟨.strayTarget entry.opcode target, some entry.offset⟩ := by
  unfold strayJump? at h
  split at h
  · rename_i target hoperand
    split at h
    · exact ⟨target, hoperand, (Option.some.inj h).symm⟩
    · cases h
  · cases h

end Landing

inductive Request where
  | emit (op : Opcode) (operand : Option Int)
  | emitJump (op : Opcode) (target : Option Int)
  | patch (jump target : Int)
  | build (name : String)

inductive Reply where
  | placed (offset : Nat)
  | patched (event : Event)
  | finished (program : Program)

def Request.answer : Request → Build Reply
  | .emit op operand => Reply.placed <$> Builder.emit op operand
  | .emitJump op target => Reply.placed <$> Builder.emitJump op target
  | .patch jump target => Reply.patched <$> Builder.patch jump target
  | .build name => Reply.finished <$> Builder.build name

/-- Why a request is refused. -/
inductive Refuses (b : Builder) : Request → CodeFault → Prop where
  | superfluous {op : Opcode} (hkind : op.operandKind = .none) (operand : Int) :
      Refuses b (.emit op (some operand)) ⟨.superfluousOperand op, some b.here⟩
  | absent {op : Opcode} (hkind : op.operandKind ≠ .none) :
      Refuses b (.emit op none) ⟨.absentOperand op, some b.here⟩
  | notAJump {op : Opcode} (hop : op.isJump = false) (target : Option Int) :
      Refuses b (.emitJump op target) ⟨.notAJump op, some b.here⟩
  | notPending {jump : Int} (hjump : ∀ n ∈ b.pending, jump ≠ n) (target : Int) :
      Refuses b (.patch jump target) ⟨.notPending, some jump⟩
  | unpatched {jump : Nat} (hmin : b.pending.min? = some jump) (name : String) :
      Refuses b (.build name) ⟨.unpatched, some jump⟩
  | flawed {name : String} {fault : CodeFault} (hpending : b.pending = [])
      (hfault : fault? ⟨b.words, name⟩ = some fault) :
        Refuses b (.build name) fault

/-- What a request can come to. A refusal changes nothing. -/
inductive Answers (b : Builder) :
    Request → EStateM.Result CodeFault Builder Reply → Prop where
  | placed {op : Opcode} {operand : Option Int}
      (fits : op.size = 1 + (operand.map (operandWord op)).toList.length) :
      Answers b (.emit op operand)
        (.ok (.placed b.here)
          (b.append (op.word :: (operand.map (operandWord op)).toList)))
  | jumped {op : Opcode} (hop : op.isJump = true) (target : Int) :
      Answers b (.emitJump op (some target))
        (.ok (.placed b.here) (b.append [op.word, target]))
  | leapt {op : Opcode} (hop : op.isJump = true) :
      Answers b (.emitJump op none) (.ok (.placed b.here) (b.leap op))
  | patched {jump : Nat} (hjump : jump ∈ b.pending) (target : Int) :
      Answers b (.patch jump target)
        (.ok (.patched (.patched jump target)) (b.settle jump target))
  | finished {name : String} (hpending : b.pending = [])
      (hfault : fault? ⟨b.words, name⟩ = none) :
      Answers b (.build name) (.ok (.finished ⟨b.words, name⟩) b)
  | refused {request : Request} {fault : CodeFault}
      (hrefuses : Refuses b request fault) :
      Answers b request (.error fault b)

namespace Answers

variable {b b' : Builder} {request : Request}

theorem of_error {α : Type} {x : Build α} (f : α → Reply) {fault : CodeFault}
    (h : x b = .error fault b) (hrefuses : Refuses b request fault) :
    Answers b request ((f <$> x) b) := by
  rw [map_of_error f h]
  exact .refused hrefuses

theorem emit (b : Builder) (op : Opcode) (operand : Option Int) :
    Answers b (.emit op operand) ((Request.emit op operand).answer b) := by
  by_cases hkind : op.operandKind = .none
  · cases operand with
    | none =>
        have hfits : op.size = 1 := if_pos hkind
        rw [Request.answer, map_of_ok _ (emit_plain b hkind)]
        exact .placed hfits
    | some operand =>
        exact of_error _ (emit_superfluous b hkind operand)
          (.superfluous hkind operand)
  · cases operand with
    | none => exact of_error _ (emit_absent b hkind) (.absent hkind)
    | some operand =>
        have hfits : op.size = 2 := if_neg hkind
        rw [Request.answer, map_of_ok _ (emit_operand b hkind operand)]
        exact .placed hfits

theorem emitJump (b : Builder) (op : Opcode) (target : Option Int) :
    Answers b (.emitJump op target)
      ((Request.emitJump op target).answer b) := by
  cases hop : op.isJump with
  | false =>
      exact of_error _ (emitJump_of_not_isJump b hop target)
        (.notAJump hop target)
  | true =>
      cases target with
      | none =>
          rw [Request.answer, map_of_ok _ (emitJump_forward b hop)]
          exact .leapt hop
      | some target =>
          rw [Request.answer, map_of_ok _ (emitJump_back b hop target)]
          exact .jumped hop target

theorem patch (b : Builder) (jump target : Int) :
    Answers b (.patch jump target) ((Request.patch jump target).answer b) := by
  by_cases hjump : ∃ n ∈ b.pending, jump = n
  · obtain ⟨n, hn, rfl⟩ := hjump
    rw [Request.answer, map_of_ok _ (patch_of_mem hn target)]
    exact .patched hn target
  · have hnot : ∀ n ∈ b.pending, jump ≠ n := fun n hn heq => hjump ⟨n, hn, heq⟩
    exact of_error _ (patch_of_not_mem hnot target) (.notPending hnot target)

theorem build (b : Builder) (name : String) :
    Answers b (.build name) ((Request.build name).answer b) := by
  cases hmin : b.pending.min? with
  | some jump =>
      exact of_error _ (build_of_min? hmin name) (.unpatched hmin name)
  | none =>
      have hpending : b.pending = [] := List.min?_eq_none_iff.mp hmin
      cases hfault : fault? ⟨b.words, name⟩ with
      | some fault =>
          exact of_error _ (build_of_fault hpending hfault)
            (.flawed hpending hfault)
      | none =>
          rw [Request.answer, map_of_ok _ (build_of_none hpending hfault)]
          exact .finished hpending hfault

end Answers

theorem answers (b : Builder) (request : Request) :
    Answers b request (request.answer b) := by
  cases request with
  | emit op operand => exact .emit b op operand
  | emitJump op target => exact .emitJump b op target
  | patch jump target => exact .patch b jump target
  | build name => exact .build b name

theorem refuses_of_answer_error {b b' : Builder} {request : Request}
    {fault : CodeFault} (h : request.answer b = .error fault b') :
    b' = b ∧ Refuses b request fault := by
  have hanswers := answers b request
  rw [h] at hanswers
  cases hanswers with
  | refused hrefuses => exact ⟨rfl, hrefuses⟩

theorem exists_of_answer_patch {b b' : Builder} {jump target : Int}
    {reply : Reply} (h : (Request.patch jump target).answer b = .ok reply b') :
    ∃ n ∈ b.pending, jump = n ∧ b' = b.settle n target := by
  have hanswers := answers b (.patch jump target)
  rw [h] at hanswers
  cases hanswers with
  | patched hjump target => exact ⟨_, hjump, rfl, rfl⟩

theorem eq_of_answer_build {b b' : Builder} {name : String} {reply : Reply}
    (h : (Request.build name).answer b = .ok reply b') :
    b.pending = [] ∧ fault? ⟨b.words, name⟩ = none ∧
    reply = .finished ⟨b.words, name⟩ ∧ b' = b := by
  have hanswers := answers b (.build name)
  rw [h] at hanswers
  cases hanswers with
  | finished hpending hfault => exact ⟨hpending, hfault, rfl, rfl⟩

/-- The words are instructions, and every pending jump is one of them that holds
the placeholder. -/
structure Sound (b : Builder) (entries : List Entry) : Prop where
  decodes : Decodes 0 b.words.toList entries
  wrapped : ∀ entry ∈ entries, entry.Wrapped
  nodup : b.pending.Nodup
  waiting : ∀ n ∈ b.pending, ∃ op, op.isJump = true ∧
    ⟨n, op, some placeholder⟩ ∈ entries

namespace Sound

variable {b : Builder} {entries : List Entry} {op : Opcode}

theorem decodes_append (h : b.Sound entries) {operand : Option Int}
    (fits : op.size = 1 + operand.toList.length) :
    Decodes 0 (b.append (op.word :: operand.toList)).words.toList
      (entries ++ [⟨b.here, op, operand⟩]) := by
  have hwords := h.decodes.concat fits
  rw [Nat.zero_add, Array.length_toList] at hwords
  simpa [append, here] using hwords

theorem wrapped_concat (h : b.Sound entries) {entry : Entry}
    (hentry : entry.Wrapped) :
    ∀ entry' ∈ entries ++ [entry], entry'.Wrapped := by
  intro entry' hmem
  rcases List.mem_append.mp hmem with hmem | hmem
  · exact h.wrapped entry' hmem
  · rw [List.mem_singleton.mp hmem]
    exact hentry

theorem place (h : b.Sound entries) {operand : Option Int}
    (fits : op.size = 1 + operand.toList.length)
    (hwrapped : (⟨b.here, op, operand⟩ : Entry).Wrapped) :
    (b.append (op.word :: operand.toList)).Sound
      (entries ++ [⟨b.here, op, operand⟩]) := by
  refine ⟨h.decodes_append fits, h.wrapped_concat hwrapped, h.nodup,
    fun n hn => ?_⟩
  obtain ⟨op', hop, hentry⟩ := h.waiting n hn
  exact ⟨op', hop, List.mem_append_left _ hentry⟩

theorem lt_here (h : b.Sound entries) {n : Nat} (hn : n ∈ b.pending) :
    n < b.here := by
  obtain ⟨op, -, hentry⟩ := h.waiting n hn
  have hlt := h.decodes.offset_lt hentry
  rwa [Nat.zero_add, Array.length_toList] at hlt

theorem leap (h : b.Sound entries) (hop : op.isJump = true) :
    (b.leap op).Sound (entries ++ [⟨b.here, op, some placeholder⟩]) := by
  have hfits : op.size = 1 + (some placeholder).toList.length :=
    Opcode.size_of_isJump hop
  have hwrapped : (⟨b.here, op, some placeholder⟩ : Entry).Wrapped :=
    Entry.wrapped_of_isJump hop
  refine ⟨h.decodes_append hfits, h.wrapped_concat hwrapped, ?_, fun n hn => ?_⟩
  · refine List.nodup_cons.mpr ⟨fun hhere => ?_, h.nodup⟩
    exact Nat.lt_irrefl _ (h.lt_here hhere)
  · rcases List.mem_cons.mp hn with rfl | hn
    · exact ⟨op, hop, by simp⟩
    · obtain ⟨op', hop', hentry⟩ := h.waiting n hn
      exact ⟨op', hop', List.mem_append_left _ hentry⟩

theorem settle (h : b.Sound entries) {jump : Nat} (hjump : jump ∈ b.pending)
    (target : Int) :
    ∃ entries', (b.settle jump target).Sound entries' ∧
      entries'.map Entry.offset = entries.map Entry.offset := by
  obtain ⟨op, hop, hentry⟩ := h.waiting jump hjump
  obtain ⟨before, after, rfl⟩ := List.append_of_mem hentry
  refine ⟨before ++ ⟨jump, op, some target⟩ :: after,
    ⟨?_, fun entry hmem => ?_, h.nodup.erase jump, fun n hn => ?_⟩, by simp⟩
  · have hset := h.decodes.set_operand target
    simpa [Builder.settle] using hset
  · rcases List.mem_append.mp hmem with hbefore | hmem
    · exact h.wrapped entry (List.mem_append_left _ hbefore)
    · rcases List.mem_cons.mp hmem with rfl | hafter
      · exact Entry.wrapped_of_isJump hop
      · exact h.wrapped entry
          (List.mem_append_right _ (List.mem_cons_of_mem _ hafter))
  · -- Any other pending jump stands before or behind the one that is settled.
    obtain ⟨hne, hn⟩ := h.nodup.mem_erase_iff.mp hn
    obtain ⟨op', hop', hother⟩ := h.waiting n hn
    refine ⟨op', hop', ?_⟩
    simp only [List.mem_append, List.mem_cons] at hother ⊢
    rcases hother with hbefore | hsame | hafter
    · exact .inl hbefore
    · exact absurd (congrArg Entry.offset hsame) hne
    · exact .inr (.inr hafter)

theorem settle_words (h : b.Sound entries) {jump : Nat}
    (hjump : jump ∈ b.pending) (target : Int) :
    (b.settle jump target).words[jump + 1]? = some target := by
  obtain ⟨op, -, hentry⟩ := h.waiting jump hjump
  have hword := h.decodes.getElem?_operand hentry rfl
  rw [Array.getElem?_toList] at hword
  obtain ⟨hlt, -⟩ := Array.getElem?_eq_some_iff.mp hword
  simp [Builder.settle, hlt]

theorem fault?_eq_none_iff (h : b.Sound entries) (name : String) :
    fault? ⟨b.words, name⟩ = none ↔ ∀ entry ∈ entries, entry.Lands entries := by
  rw [fault?_eq h.decodes, List.findSome?_eq_none_iff]
  constructor
  · intro hnone entry hentry
    exact (strayJump?_eq_none_iff h.decodes hentry).mp (hnone entry hentry)
  · intro hlands entry hentry
    exact (strayJump?_eq_none_iff h.decodes hentry).mpr (hlands entry hentry)

theorem fault?_of_split {before after : List Entry} {entry : Entry}
    (h : b.Sound entries) (hsplit : entries = before ++ entry :: after)
    (hbefore : ∀ earlier ∈ before, earlier.Lands entries)
    (hentry : ¬ entry.Lands entries) (name : String) :
    ∃ target, entry.operand = some target ∧ fault? ⟨b.words, name⟩ =
      some ⟨.strayTarget entry.opcode target, some entry.offset⟩ := by
  have hnone : before.findSome? (strayJump? (entries.map Entry.offset)) =
      none := by
    refine List.findSome?_eq_none_iff.mpr fun earlier hearlier => ?_
    have hmem : earlier ∈ entries := by simp [hsplit, hearlier]
    exact (strayJump?_eq_none_iff h.decodes hmem).mpr (hbefore earlier hearlier)
  have hmem : entry ∈ entries := by simp [hsplit]
  cases hstray : strayJump? (entries.map Entry.offset) entry with
  | none =>
      exact absurd ((strayJump?_eq_none_iff h.decodes hmem).mp hstray) hentry
  | some fault =>
      obtain ⟨target, hoperand, rfl⟩ := eq_of_strayJump? hstray
      refine ⟨target, hoperand, ?_⟩
      have hfind : entries.findSome? (strayJump? (entries.map Entry.offset)) =
          (before ++ entry :: after).findSome?
            (strayJump? (entries.map Entry.offset)) := by
        rw [← hsplit]
      rw [fault?_eq h.decodes, hfind, List.findSome?_append, hnone,
        List.findSome?_cons, hstray]
      rfl

theorem eq_of_fault? (h : b.Sound entries) {name : String} {fault : CodeFault}
    (hfault : fault? ⟨b.words, name⟩ = some fault) :
    ∃ entry ∈ entries, ∃ target,
      fault = ⟨.strayTarget entry.opcode target, some entry.offset⟩ := by
  rw [fault?_eq h.decodes] at hfault
  obtain ⟨entry, hentry, hstray⟩ := List.exists_of_findSome?_eq_some hfault
  obtain ⟨target, -, rfl⟩ := eq_of_strayJump? hstray
  exact ⟨entry, hentry, target, rfl⟩

theorem exists_offset_of_refuses (h : b.Sound entries) {request : Request}
    {fault : CodeFault} (hrefuses : Refuses b request fault) :
    ∃ offset, fault.offset = some offset ∧
      ((∃ n : Nat, offset = n ∧ n ≤ b.here) ∨
        ∃ target, request = .patch offset target) := by
  cases hrefuses with
  | superfluous | absent | notAJump =>
      exact ⟨b.here, rfl, .inl ⟨b.here, rfl, Nat.le_refl _⟩⟩
  | @notPending jump _ target => exact ⟨jump, rfl, .inr ⟨target, rfl⟩⟩
  | @unpatched jump hmin name =>
      have hlt := h.lt_here (List.min?_eq_some_iff.mp hmin).1
      exact ⟨jump, rfl, .inl ⟨jump, rfl, Nat.le_of_lt hlt⟩⟩
  | flawed hpending hfault =>
      obtain ⟨entry, hentry, target, rfl⟩ := h.eq_of_fault? hfault
      have hlt := h.decodes.offset_lt hentry
      rw [Nat.zero_add, Array.length_toList] at hlt
      exact ⟨entry.offset, rfl, .inl ⟨entry.offset, rfl, Nat.le_of_lt hlt⟩⟩

/-- A refusal shows its offset and, if it is for a jump that leads nowhere, the
target of that. -/
theorem exists_render_of_refuses (h : b.Sound entries) {request : Request}
    {fault : CodeFault} (hrefuses : Refuses b request fault) :
    (∃ text, fault.render = .ok text) ↔
      (∀ offset, fault.offset = some offset → Text.isShort offset = true) ∧
        ∀ op target, fault.flaw = .strayTarget op target →
        Text.isShort target = true := by
  rw [CodeFault.exists_render_iff]
  cases hrefuses with
  | superfluous | absent | notAJump | notPending | unpatched =>
      simp [Flaw.shown]
  | flawed hpending hfault =>
      obtain ⟨entry, -, target, rfl⟩ := h.eq_of_fault? hfault
      simp [Flaw.shown, and_comm]

end Sound

end Builder

end OnePass

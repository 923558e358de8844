import OnePass.Proofs.BuilderRequests

/-!
Whole histories of a builder. Requests of every kind follow one another in any
order, and any of them may be refused. Whatever came of them, the builder agrees
with its history: its instructions are at the offsets that were given out, and
its pending jumps are those that were placed without a target and have not got
one since.
-/

namespace OnePass

namespace Builder

/-- A request with what came of it. -/
structure Turn where
  request : Request
  outcome : Except CodeFault Reply

namespace Turn

/-- The offset of the instruction that was placed. -/
def placed? : Turn → Option Nat
  | ⟨_, .ok (.placed offset)⟩ => some offset
  | _ => none

/-- The offset of the jump that was placed without a target. -/
def leap? : Turn → Option Nat
  | ⟨.emitJump _ none, .ok (.placed offset)⟩ => some offset
  | _ => none

/-- The offset of the jump that got its target. -/
def settled? : Turn → Option Int
  | ⟨.patch jump _, .ok _⟩ => some jump
  | _ => none

theorem leap?_of_error (request : Request) (fault : CodeFault) :
    leap? ⟨request, .error fault⟩ = none := by
  cases request with
  | emitJump op target => cases target <;> rfl
  | emit | patch | build => rfl

theorem settled?_of_error (request : Request) (fault : CodeFault) :
    settled? ⟨request, .error fault⟩ = none := by
  cases request <;> rfl

theorem mem_filterMap_concat {α : Type} {f : Turn → Option α}
    {turns : List Turn} {turn : Turn} {a : α} :
    a ∈ (turns ++ [turn]).filterMap f ↔
      a ∈ turns.filterMap f ∨ f turn = some a := by
  simp [List.filterMap_append, List.mem_filterMap]

theorem mem_filterMap_of_none {α : Type} {f : Turn → Option α}
    {turns : List Turn} {turn : Turn} {a : α} (h : f turn = none) :
    a ∈ (turns ++ [turn]).filterMap f ↔ a ∈ turns.filterMap f := by
  simp [h]

end Turn

/-- All that was asked of a builder, in order, and the builder as it is then. -/
structure History where
  turns : List Turn := []
  builder : Builder := {}

namespace History

def ask (h : History) (request : Request) : History :=
  match request.answer h.builder with
  | .ok reply b => ⟨h.turns ++ [⟨request, .ok reply⟩], b⟩
  | .error fault b => ⟨h.turns ++ [⟨request, .error fault⟩], b⟩

def of (requests : List Request) : History :=
  requests.foldl ask {}

/-- The jumps that were placed without a target and have not got one since. -/
def Awaits (h : History) (jump : Nat) : Prop :=
  jump ∈ h.turns.filterMap Turn.leap? ∧
    (jump : Int) ∉ h.turns.filterMap Turn.settled?

/-- The builder agrees with the history. -/
structure Kept (h : History) (entries : List Entry) : Prop where
  sound : h.builder.Sound entries
  offsets : entries.map Entry.offset = h.turns.filterMap Turn.placed?
  pending : ∀ jump, jump ∈ h.builder.pending ↔ h.Awaits jump
  settled : ∀ jump : Nat, (jump : Int) ∈ h.turns.filterMap Turn.settled? →
    jump < h.builder.here

namespace Kept

variable {h : History} {entries entries' : List Entry}

theorem nil : Kept {} [] where
  sound := ⟨.nil 0, nofun, .nil, nofun⟩
  offsets := rfl
  pending jump := by simp [Awaits]
  settled := nofun

theorem extend (hkept : h.Kept entries) {turn : Turn} {b : Builder}
    (hsound : b.Sound entries')
    (hoffsets :
      entries'.map Entry.offset =
      entries.map Entry.offset ++ turn.placed?.toList)
    (hleap : turn.leap? = none) (hsettled : turn.settled? = none)
    (hpending : b.pending = h.builder.pending)
    (hhere : h.builder.here ≤ b.here) :
    Kept ⟨h.turns ++ [turn], b⟩ entries' := by
  refine ⟨hsound, ?_, fun jump => ?_, fun jump hjump => ?_⟩
  · rw [hoffsets, hkept.offsets, List.filterMap_append]
    cases hplaced : turn.placed? <;> simp [hplaced]
  · simp [Awaits, hleap, hsettled, hpending, hkept.pending jump]
  · rw [Turn.mem_filterMap_of_none hsettled] at hjump
    exact Nat.lt_of_lt_of_le (hkept.settled jump hjump) hhere

theorem leapt (hkept : h.Kept entries) {op : Opcode} (hop : op.isJump = true) :
    Kept ⟨h.turns ++ [⟨.emitJump op none, .ok (.placed h.builder.here)⟩],
      h.builder.leap op⟩
      (entries ++ [⟨h.builder.here, op, some placeholder⟩]) := by
  have hsettled :
      Turn.settled? ⟨.emitJump op none, .ok (.placed h.builder.here)⟩ = none :=
      rfl
  refine ⟨hkept.sound.leap hop, ?_, fun jump => ?_, fun jump hjump => ?_⟩
  · simp [hkept.offsets, Turn.placed?]
  · -- An offset that is given out only now cannot have been settled before.
    have hfresh : (h.builder.here : Int) ∉ h.turns.filterMap Turn.settled? :=
      fun hsettled => Nat.lt_irrefl _ (hkept.settled _ hsettled)
    have hpending : jump ∈ (h.builder.leap op).pending ↔
        jump = h.builder.here ∨ h.Awaits jump := by
      rw [leap, List.mem_cons, hkept.pending]
    rw [hpending, Awaits, Awaits, Turn.mem_filterMap_concat,
      Turn.mem_filterMap_of_none hsettled]
    constructor
    · rintro (rfl | ⟨hleap, hnot⟩)
      · exact ⟨.inr rfl, hfresh⟩
      · exact ⟨.inl hleap, hnot⟩
    · rintro ⟨hleap | hhere, hnot⟩
      · exact .inr ⟨hleap, hnot⟩
      · exact .inl (Option.some.inj hhere).symm
  · rw [Turn.mem_filterMap_of_none hsettled] at hjump
    have hold : jump < h.builder.here := hkept.settled jump hjump
    rw [here_leap]
    omega

theorem patched (hkept : h.Kept entries) {jump : Nat}
    (hjump : jump ∈ h.builder.pending) (target : Int) :
    ∃ entries', Kept
      ⟨h.turns ++ [⟨.patch jump target, .ok (.patched (.patched jump target))⟩],
        h.builder.settle jump target⟩ entries' := by
  have hleap :
      Turn.leap? ⟨.patch jump target, .ok (.patched (.patched jump target))⟩ =
      none := rfl
  obtain ⟨entries', hsound, hoffsets⟩ := hkept.sound.settle hjump target
  refine ⟨entries', hsound, ?_, fun other => ?_, fun other hother => ?_⟩
  · simp [hoffsets, hkept.offsets, Turn.placed?]
  · have hpending : other ∈ (h.builder.settle jump target).pending ↔
        other ≠ jump ∧ h.Awaits other := by
      rw [settle, hkept.sound.nodup.mem_erase_iff, hkept.pending]
    rw [hpending, Awaits, Awaits, Turn.mem_filterMap_of_none hleap,
      Turn.mem_filterMap_concat]
    constructor
    · rintro ⟨hne, hplaced, hnot⟩
      refine ⟨hplaced, fun hsettled => ?_⟩
      rcases hsettled with hsettled | hsame
      · exact hnot hsettled
      · exact hne (Int.ofNat.inj (Option.some.inj hsame)).symm
    · rintro ⟨hplaced, hnot⟩
      refine ⟨?_, hplaced, fun hsettled => hnot (.inl hsettled)⟩
      rintro rfl
      exact hnot (.inr rfl)
  · have hhere : (h.builder.settle jump target).here = h.builder.here := by
      simp [settle, here]
    rw [hhere]
    rcases Turn.mem_filterMap_concat.mp hother with hold | hsame
    · exact hkept.settled other hold
    · rw [← Int.ofNat.inj (Option.some.inj hsame)]
      exact hkept.sound.lt_here hjump

theorem ask (hkept : h.Kept entries) (request : Request) :
    ∃ entries', (h.ask request).Kept entries' := by
  have hanswers := answers h.builder request
  unfold History.ask
  generalize request.answer h.builder = result at hanswers
  cases hanswers with
  | placed fits =>
      have hsound := hkept.sound.place fits (wrapped_operandWord _ _ _)
      exact ⟨_, hkept.extend hsound (by simp [Turn.placed?]) rfl rfl rfl
        (by simp)⟩
  | @jumped op hop target =>
      have hfits : op.size = 1 + (some target).toList.length :=
        Opcode.size_of_isJump hop
      have hsound := hkept.sound.place hfits (Entry.wrapped_of_isJump hop)
      exact ⟨_, hkept.extend hsound (by simp [Turn.placed?]) rfl rfl rfl
        (by simp)⟩
  | leapt hop => exact ⟨_, hkept.leapt hop⟩
  | patched hjump target => exact hkept.patched hjump target
  | finished =>
      exact ⟨entries, hkept.extend hkept.sound
        (by simp [Turn.placed?]) rfl rfl rfl (Nat.le_refl _)⟩
  | @refused request fault =>
      have hleap := Turn.leap?_of_error request fault
      have hsettled := Turn.settled?_of_error request fault
      exact ⟨entries, hkept.extend hkept.sound
        (by simp [Turn.placed?]) hleap hsettled rfl (Nat.le_refl _)⟩

theorem foldl (hkept : h.Kept entries) (requests : List Request) :
    ∃ entries', (requests.foldl History.ask h).Kept entries' := by
  induction requests generalizing h entries with
  | nil => exact ⟨entries, hkept⟩
  | cons request requests ih =>
      obtain ⟨entries', hnext⟩ := hkept.ask request
      exact ih hnext

end Kept

theorem exists_kept (requests : List Request) :
    ∃ entries, (of requests).Kept entries :=
  Kept.nil.foldl requests

/-- What holds of a builder after a history, whatever came of the requests. The
words are instructions at the offsets that were given out, in order. Pending are
the jumps that still wait for a target, and only these can be patched, which
changes one word. A refusal changes nothing. A program is finished exactly if no
jump is pending and every jump leads to an instruction, and it is refused for
the first jump that is the reason. -/
structure Regular (h : History) (entries : List Entry) : Prop where
  reading : ∀ name, Program.instructions ⟨h.builder.words, name⟩ =
    (entries, none)
  offsets : entries.map Entry.offset = h.turns.filterMap Turn.placed?
  ordered : (entries.map Entry.offset).Pairwise (· < ·)
  pending : ∀ jump, jump ∈ h.builder.pending ↔ h.Awaits jump
  waiting : ∀ jump ∈ h.builder.pending, ∃ op : Opcode, op.isJump = true ∧
    h.builder.words[jump]? = some op.word ∧
    h.builder.words[jump + 1]? = some placeholder
  refused : ∀ (request : Request) fault b,
    request.answer h.builder = .error fault b → b = h.builder
  patches : ∀ jump target,
    (∃ reply b, (Request.patch jump target).answer h.builder = .ok reply b) ↔
    ∃ n ∈ h.builder.pending, jump = n
  patched : ∀ jump target reply b,
    (Request.patch jump target).answer h.builder = .ok reply b →
    ∃ n : Nat, jump = n ∧ b.words.size = h.builder.words.size ∧
    b.words[n + 1]? = some target ∧
      (∀ i, i ≠ n + 1 → b.words[i]? = h.builder.words[i]?) ∧
      ∀ m, m ∈ b.pending ↔ m ∈ h.builder.pending ∧ m ≠ n
  builds :
    ∀ name, (∃ reply b, (Request.build name).answer h.builder = .ok reply b) ↔
    h.builder.pending = [] ∧ ∀ entry ∈ entries, entry.Lands entries
  built : ∀ name reply b, (Request.build name).answer h.builder = .ok reply b →
    reply = .finished ⟨h.builder.words, name⟩ ∧ b = h.builder
  unpatched : ∀ name, h.builder.pending ≠ [] → ∃ first ∈ h.builder.pending,
    (∀ jump ∈ h.builder.pending, first ≤ jump) ∧
      (Request.build name).answer h.builder =
        .error ⟨.unpatched, some first⟩ h.builder
  stray : ∀ name, h.builder.pending = [] →
    ∀ before entry after, entries = before ++ entry :: after →
    (∀ earlier ∈ before, earlier.Lands entries) → ¬ entry.Lands entries →
      ∃ target, entry.operand = some target ∧
      (Request.build name).answer h.builder =
        .error ⟨.strayTarget entry.opcode target, some entry.offset⟩ h.builder
  offset : ∀ (request : Request) fault b,
    request.answer h.builder = .error fault b →
    ∃ offset, fault.offset = some offset ∧
      ((∃ n : Nat, offset = n ∧ n ≤ h.builder.here) ∨
        ∃ target, request = .patch offset target)
  reported : ∀ (request : Request) fault b,
    request.answer h.builder = .error fault b →
    ((∃ text, fault.render = .ok text) ↔
      (∀ offset, fault.offset = some offset → Text.isShort offset = true) ∧
      ∀ op target, fault.flaw = .strayTarget op target →
      Text.isShort target = true)

end History

/-- A builder stays regular through any history of requests. -/
theorem regular_after_requests (requests : List Request) :
    ∃ entries, (History.of requests).Regular entries := by
  obtain ⟨entries, hkept⟩ := History.exists_kept requests
  generalize History.of requests = h at hkept
  have hsound := hkept.sound
  refine ⟨entries, ?_⟩
  constructor
  case reading => exact fun name => hsound.decodes.readInstructions_eq
  case offsets => exact hkept.offsets
  case ordered => exact hsound.decodes.pairwise_offset
  case pending => exact hkept.pending
  case waiting =>
    intro jump hjump
    obtain ⟨op, hop, hentry⟩ := hsound.waiting jump hjump
    have hopcode := hsound.decodes.getElem?_opcode hentry
    have hoperand := hsound.decodes.getElem?_operand hentry rfl
    rw [Array.getElem?_toList] at hopcode hoperand
    exact ⟨op, hop, hopcode, hoperand⟩
  case refused => exact fun request fault b h => (refuses_of_answer_error h).1
  case patches =>
    intro jump target
    constructor
    · rintro ⟨reply, b, hok⟩
      obtain ⟨n, hn, hjump, -⟩ := exists_of_answer_patch hok
      exact ⟨n, hn, hjump⟩
    · rintro ⟨n, hn, rfl⟩
      exact ⟨_, _, map_of_ok _ (patch_of_mem hn target)⟩
  case patched =>
    intro jump target reply b hok
    obtain ⟨n, hn, hjump, rfl⟩ := exists_of_answer_patch hok
    refine ⟨n, hjump, by simp [settle], hsound.settle_words hn target,
      fun i hi => ?_, fun m => ?_⟩
    · rw [settle, Array.getElem?_setIfInBounds_ne hi.symm]
    · rw [settle, hsound.nodup.mem_erase_iff]
      exact And.comm
  case builds =>
    intro name
    rw [← hsound.fault?_eq_none_iff name]
    constructor
    · rintro ⟨reply, b, hok⟩
      obtain ⟨hpending, hfault, -⟩ := eq_of_answer_build hok
      exact ⟨hpending, hfault⟩
    · rintro ⟨hpending, hfault⟩
      exact ⟨_, _, map_of_ok _ (build_of_none hpending hfault)⟩
  case built => exact fun name reply b hok => (eq_of_answer_build hok).2.2
  case unpatched =>
    intro name hpending
    obtain ⟨first, hmin⟩ :=
      Option.ne_none_iff_exists'.mp (mt List.min?_eq_none_iff.mp hpending)
    obtain ⟨hmem, hleast⟩ := List.min?_eq_some_iff.mp hmin
    exact ⟨first, hmem, hleast, map_of_error _ (build_of_min? hmin name)⟩
  case stray =>
    intro name hpending before entry after hsplit hbefore hentry
    obtain ⟨target, hoperand, hfault⟩ :=
      hsound.fault?_of_split hsplit hbefore hentry name
    exact ⟨target, hoperand, map_of_error _ (build_of_fault hpending hfault)⟩
  case offset =>
    intro request fault b herror
    exact hsound.exists_offset_of_refuses (refuses_of_answer_error herror).2
  case reported =>
    intro request fault b herror
    exact hsound.exists_render_of_refuses (refuses_of_answer_error herror).2

theorem fault?_of_stray {n : Int} (h : n ≠ 0) (name : String) :
    fault? ⟨#[9, n], name⟩ = some ⟨.strayTarget .jmp n, some 0⟩ := by
  have hinstructions : Program.instructions ⟨#[9, n], name⟩ =
      ([⟨0, .jmp, some n⟩], none) := rfl
  have hjump : Opcode.jmp.isJump = true := rfl
  simp [fault?, Program.instructionOffsets, hinstructions, strayJump?, hjump,
    h.symm]

/-- A jump can have a target that is too long for the report. -/
theorem stray_target_not_reported :
    Request.answer (.build "<input>")
        (History.of [.emit .jmp (some Text.leastLong)]).builder =
      .error ⟨.strayTarget .jmp Text.leastLong, some 0⟩
        { words := #[9, Text.leastLong] } ∧
      ∀ text, CodeFault.render ⟨.strayTarget .jmp Text.leastLong, some 0⟩ ≠
        .ok text := by
  have hbuilder :
      (History.of [.emit .jmp (some (Text.leastLong : Int))]).builder =
        { words := #[9, Text.leastLong] } := rfl
  have hne : (Text.leastLong : Int) ≠ 0 := by
    intro h
    have hlong := Text.isShort_leastLong
    rw [h] at hlong
    exact absurd hlong (by decide)
  constructor
  · rw [hbuilder]
    exact map_of_error _ (build_of_fault rfl (fault?_of_stray hne _))
  · exact CodeFault.render_ne_ok List.mem_cons_self Text.isShort_leastLong

end Builder

end OnePass

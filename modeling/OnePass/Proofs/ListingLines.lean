import OnePass.Listing
import OnePass.Proofs.OpcodeTable

namespace OnePass

theorem Opcode.mnemonic_ne_unknown (op : Opcode) : op.mnemonic ≠ "???" := by
  cases op <;> decide

namespace ListingLine

/-- The text of an operand and the comment on it, however long the operand is.
-/
def operandColumns (offset : Nat) (kind : OperandKind) (operand : Int) :
    String × String :=
  match kind with
  | .variable =>
      match Variable.ofSlot? operand with
      | some v => (String.singleton v.letter, "")
      | none => (s!"${operand}", "bad variable slot")
  | .constant => (s!"#{operand}", "")
  | .address =>
      (s!"@{Text.zeroFilled 4 operand}", if operand ≤ offset then "loop"
        else "forward")
  | .none => ("", "")

/-- Whether the operand of an instruction can be written out. -/
def isListed (size : Nat) (kind : OperandKind) (operand : Int) : Bool :=
  match kind with
  | .variable | .constant => Text.isShort operand
  | .address => isShown size operand
  | .none => true

theorem describeOperand_eq (size offset : Nat) (kind : OperandKind)
    (operand : Int) :
    describeOperand size offset kind operand =
      if isListed size kind operand then
        .ok (operandColumns offset kind operand)
      else .error ⟨⟩ := by
  have hdecimal : ∀ f : String → String × String, (Text.decimal operand).map f =
      if Text.isShort operand then .ok (f s!"{operand}") else .error ⟨⟩ := by
    intro f
    unfold Text.decimal
    split <;> rfl
  cases kind with
  | «variable» =>
      cases hslot : Variable.ofSlot? operand with
      | none =>
          simp only [describeOperand, operandColumns, isListed, hslot]
          exact hdecimal _
      | some v =>
          have hshort : Text.isShort operand = true := by
            rw [Variable.eq_of_ofSlot? hslot]
            exact Text.isShort_slot v
          simp only [describeOperand, operandColumns, isListed, hslot, hshort,
            if_true]
  | constant => exact hdecimal _
  | address => rfl
  | none => rfl

/-- The line of an instruction. -/
def ofEntry (e : Entry) : ListingLine :=
  match e.operand with
  | none => ⟨e.offset, some e.opcode, e.opcode.mnemonic, none, "", 1, ""⟩
  | some operand =>
      let (operandText, comment) :=
        operandColumns e.offset e.opcode.operandKind operand
      ⟨e.offset, some e.opcode, e.opcode.mnemonic, some operand, operandText, 2,
        comment⟩

/-- The line of a word that is no opcode. -/
def ofUnknown (offset : Nat) (word : Int) : ListingLine :=
  ⟨offset, none, "???", none, s!"{word}", 1, "unknown opcode"⟩

/-- The line of an opcode whose operand is cut off. -/
def ofTruncated (offset : Nat) (op : Opcode) : ListingLine :=
  ⟨offset, some op, op.mnemonic, none, "", 1, "truncated"⟩

theorem ofWords_unknown {word : Int} (h : Opcode.ofWord? word = none)
    (size offset : Nat) (rest : List Int) :
    ofWords size offset word rest =
      if Text.isShort word then .ok (ofUnknown offset word) else .error ⟨⟩ := by
  simp only [ofWords, h, Text.decimal]
  split <;> rfl

theorem ofWords_plain {op : Opcode} (h : op.operandKind = .none)
    (size offset : Nat) (rest : List Int) :
    ofWords size offset op.word rest = .ok (ofEntry ⟨offset, op, none⟩) := by
  simp only [ofWords, Opcode.ofWord?_word, h, if_true]
  rfl

theorem ofWords_truncated {op : Opcode} (h : op.operandKind ≠ .none)
    (size offset : Nat) :
    ofWords size offset op.word [] = .ok (ofTruncated offset op) := by
  simp only [ofWords, Opcode.ofWord?_word, h, if_false]
  rfl

theorem ofWords_operand {op : Opcode} (h : op.operandKind ≠ .none)
    (size offset : Nat) (operand : Int) (rest : List Int) :
    ofWords size offset op.word (operand :: rest) =
      if isListed size op.operandKind operand then
        .ok (ofEntry ⟨offset, op, some operand⟩)
      else .error ⟨⟩ := by
  simp only [ofWords, Opcode.ofWord?_word, h, if_false, Opcode.size,
    describeOperand_eq]
  split <;> rfl

theorem comment_operandColumns (offset : Nat) (kind : OperandKind)
    (operand : Int) :
    (operandColumns offset kind operand).2 ∈
      ["", "bad variable slot", "loop", "forward"] := by
  unfold operandColumns
  split
  · split <;> simp
  · simp
  · split <;> simp
  · simp

theorem comment_ofEntry (e : Entry) :
    (ofEntry e).comment ∈ ["", "bad variable slot", "loop", "forward"] := by
  unfold ofEntry
  split
  · simp
  · exact comment_operandColumns e.offset e.opcode.operandKind _

theorem mnemonic_ofEntry (e : Entry) :
    (ofEntry e).mnemonic = e.opcode.mnemonic := by
  unfold ofEntry
  split <;> rfl

theorem ofEntry_intact (e : Entry) :
    (ofEntry e).mnemonic ≠ "???" ∧ (ofEntry e).comment ≠ "truncated" := by
  constructor
  · rw [mnemonic_ofEntry]
    exact e.opcode.mnemonic_ne_unknown
  · intro hcomment
    have hmem := comment_ofEntry e
    rw [hcomment] at hmem
    revert hmem
    decide

theorem instruction_ofEntry (e : Entry) :
    ((ofEntry e).offset, (ofEntry e).opcode, (ofEntry e).operand) =
      (e.offset, some e.opcode, e.operand) := by
  rcases e with ⟨offset, op, operand⟩
  cases operand <;> rfl

end ListingLine

open ListingLine (ofEntry ofUnknown ofTruncated)

/-- What the lines of a listing say of the words from an offset on. -/
inductive Lists : Nat → List Int → List ListingLine → Prop where
  | nil (base : Nat) : Lists base [] []
  | plain {base : Nat} {op : Opcode} {words : List Int}
      {lines : List ListingLine}
      (kind : op.operandKind = .none) (rest : Lists (base + 1) words lines) :
      Lists base (op.word :: words) (ofEntry ⟨base, op, none⟩ :: lines)
  | operand {base : Nat} {op : Opcode} {operand : Int} {words : List Int}
      {lines : List ListingLine}
      (kind : op.operandKind ≠ .none) (rest : Lists (base + 2) words lines) :
      Lists base (op.word :: operand :: words)
        (ofEntry ⟨base, op, some operand⟩ :: lines)
  | unknown {base : Nat} {word : Int} {words : List Int}
      {lines : List ListingLine}
      (unknown : Opcode.ofWord? word = none)
      (rest : Lists (base + 1) words lines) :
      Lists base (word :: words) (ofUnknown base word :: lines)
  | truncated {base : Nat} {op : Opcode} (kind : op.operandKind ≠ .none) :
      Lists base [op.word] [ofTruncated base op]

/-- Whether all words can be written out that the lines of a listing show: those
that are no opcodes, and the operands. -/
def listed (size : Nat) : List Int → Bool
  | [] => true
  | word :: rest =>
      match Opcode.ofWord? word with
      | none => Text.isShort word && listed size rest
      | some op =>
          if op.operandKind = .none then listed size rest
          else
            match rest with
            | [] => true
            | operand :: rest =>
                ListingLine.isListed size op.operandKind operand &&
                  listed size rest

section Steps

variable {op : Opcode} (size base : Nat)

theorem listWords_unknown {word : Int} (h : Opcode.ofWord? word = none)
    (rest : List Int) :
    listWords size base (word :: rest) =
      if Text.isShort word then (listWords size (base + 1) rest).map
        (ofUnknown base word :: ·)
      else .error ⟨⟩ := by
  cases rest with
  | nil =>
      simp only [listWords, ListingLine.ofWords_unknown h]
      split <;> rfl
  | cons second rest =>
      rw [listWords, ListingLine.ofWords_unknown h]
      split
      · rfl
      · rfl

theorem listWords_plain (h : op.operandKind = .none) (rest : List Int) :
    listWords size base (op.word :: rest) =
      (listWords size (base + 1) rest).map (ofEntry ⟨base, op, none⟩ :: ·) := by
  cases rest with
  | nil =>
      simp only [listWords, ListingLine.ofWords_plain h]
      rfl
  | cons second rest =>
      rw [listWords, ListingLine.ofWords_plain h]
      rfl

theorem listWords_truncated (h : op.operandKind ≠ .none) :
    listWords size base [op.word] = .ok [ofTruncated base op] := by
  rw [listWords, ListingLine.ofWords_truncated h]
  rfl

theorem listWords_operand (h : op.operandKind ≠ .none) (operand : Int)
    (rest : List Int) :
    listWords size base (op.word :: operand :: rest) =
      if ListingLine.isListed size op.operandKind operand then
        (listWords size (base + 2) rest).map
          (ofEntry ⟨base, op, some operand⟩ :: ·)
      else .error ⟨⟩ := by
  rw [listWords, ListingLine.ofWords_operand h]
  split
  · rfl
  · rfl

end Steps

/-- There are lines exactly if all that they show can be written out. -/
theorem listWords_cases (size base : Nat) (words : List Int) :
    (listed size words = true ∧
      ∃ lines, listWords size base words = .ok lines ∧ Lists base words lines) ∨
    listed size words = false ∧ listWords size base words = .error ⟨⟩ := by
  -- A line takes one word or two, so the induction is on the number of words
  -- that are left.
  induction hlength :
    words.length using Nat.strongRecOn generalizing base words with
  | ind length ih =>
      subst hlength
      cases words with
      | nil => exact .inl ⟨rfl, [], by rw [listWords], .nil base⟩
      | cons word rest =>
          have hrest := ih rest.length (Nat.lt_succ_self _) (base + 1) rest rfl
          cases hop : Opcode.ofWord? word with
          | none =>
              rw [listWords_unknown size base hop, listed, hop]
              cases hshort : Text.isShort word with
              | false => exact .inr ⟨rfl, rfl⟩
              | true =>
                  rcases hrest with ⟨hlisted, lines, hlines,
                    hlists⟩ | ⟨hunlisted, herror⟩
                  · exact .inl ⟨hlisted, _, by rw [hlines]; rfl,
                      .unknown hop hlists⟩
                  · exact .inr ⟨hunlisted, by rw [herror]; rfl⟩
          | some op =>
              obtain rfl := Opcode.word_of_ofWord? hop
              by_cases hkind : op.operandKind = .none
              · rw [listWords_plain size base hkind, listed, hop]
                simp only [hkind, if_true]
                rcases hrest with ⟨hlisted, lines, hlines,
                  hlists⟩ | ⟨hunlisted, herror⟩
                · exact .inl ⟨hlisted, _, by rw [hlines]; rfl,
                    .plain hkind hlists⟩
                · exact .inr ⟨hunlisted, by rw [herror]; rfl⟩
              · cases rest with
                | nil =>
                    rw [listWords_truncated size base hkind, listed, hop]
                    simp only [hkind, if_false]
                    exact .inl ⟨trivial, _, rfl, .truncated hkind⟩
                | cons operand rest =>
                    have hshorter :
                        rest.length < (op.word :: operand :: rest).length :=
                      Nat.lt_add_of_pos_right Nat.two_pos
                    have hbehind := ih rest.length hshorter (base + 2) rest rfl
                    rw [listWords_operand size base hkind, listed, hop]
                    simp only [hkind, if_false]
                    cases hshort :
                      ListingLine.isListed size op.operandKind operand with
                    | false => exact .inr ⟨rfl, rfl⟩
                    | true =>
                        rcases hbehind with ⟨hlisted, lines, hlines,
                          hlists⟩ | ⟨hunlisted, herror⟩
                        · exact .inl ⟨hlisted, _, by rw [hlines]; rfl,
                            .operand hkind hlists⟩
                        · exact .inr ⟨hunlisted, by rw [herror]; rfl⟩

theorem exists_listWords_iff (size base : Nat) (words : List Int) :
    (∃ lines, listWords size base words = .ok lines) ↔
      listed size words = true := by
  rcases listWords_cases size base words with ⟨hlisted, lines, hlines,
    -⟩ | ⟨hunlisted, herror⟩
  · simp [hlisted, hlines]
  · simp [hunlisted, herror]

theorem lists_of_listWords {size base : Nat} {words : List Int}
    {lines : List ListingLine} (h : listWords size base words = .ok lines) :
    Lists base words lines := by
  rcases listWords_cases size base words with ⟨-, lines', hlines,
    hlists⟩ | ⟨-, herror⟩
  · rw [h] at hlines
    cases hlines
    exact hlists
  · rw [h] at herror
    cases herror

/-- Lines one behind the other that cover the words from one offset up to
another. -/
inductive Tiles : Nat → List ListingLine → Nat → Prop where
  | nil (offset : Nat) : Tiles offset [] offset
  | cons {line : ListingLine} {lines : List ListingLine} {stop : Nat}
      (size : 0 < line.size)
      (rest : Tiles (line.offset + line.size) lines stop) :
        Tiles line.offset (line :: lines) stop

theorem Tiles.foldl_size {start stop : Nat} {lines : List ListingLine}
    (h : Tiles start lines stop) :
    lines.foldl (fun total line => total + line.size) start = stop := by
  induction h with
  | nil => rfl
  | cons size rest ih => rw [List.foldl_cons, ih]

/-- How a listing goes on where the strict reading ends. -/
inductive GoesOn : Option CodeFault → List ListingLine → Prop where
  | done : GoesOn none []
  | unknown {offset : Nat} {word : Int} {lines : List ListingLine} :
      GoesOn (some ⟨.invalidOpcode word, some offset⟩)
        (ofUnknown offset word :: lines)
  | truncated {offset : Nat} {op : Opcode} :
      GoesOn (some ⟨.truncated op, some offset⟩) [ofTruncated offset op]

namespace Lists

variable {base : Nat} {words : List Int} {lines : List ListingLine}

theorem tiles (h : Lists base words lines) :
    Tiles base lines (base + words.length) := by
  induction h with
  | nil base => exact .nil base
  | @plain base op words lines kind rest ih =>
      rw [List.length_cons, Nat.add_comm words.length, ← Nat.add_assoc]
      exact @Tiles.cons (ofEntry ⟨base, op, none⟩) _ _ Nat.one_pos ih
  | @operand base op operand words lines kind rest ih =>
      rw [List.length_cons, List.length_cons, Nat.add_assoc,
        Nat.add_comm words.length, ← Nat.add_assoc]
      exact @Tiles.cons (ofEntry ⟨base, op, some operand⟩) _ _ Nat.two_pos ih
  | @unknown base word words lines unknown rest ih =>
      rw [List.length_cons, Nat.add_comm words.length, ← Nat.add_assoc]
      exact @Tiles.cons (ofUnknown base word) _ _ Nat.one_pos ih
  | @truncated base op kind =>
      exact @Tiles.cons (ofTruncated base op) _ _ Nat.one_pos (.nil _)

/-- Up to the first fault the lines are those of the instructions that are read.
-/
theorem exists_goesOn (h : Lists base words lines) :
    ∃ others, lines = (readInstructions base words).1.map ofEntry ++ others ∧
      GoesOn (readInstructions base words).2 others := by
  induction h with
  | nil base => exact ⟨[], rfl, .done⟩
  | @plain base op words lines kind rest ih =>
      obtain ⟨others, rfl, hothers⟩ := ih
      have hsize : op.size = 1 := if_pos kind
      rw [readInstructions, Opcode.ofWord?_word]
      simp only [hsize, if_true]
      exact ⟨others, rfl, hothers⟩
  | @operand base op operand words lines kind rest ih =>
      obtain ⟨others, rfl, hothers⟩ := ih
      have hsize : op.size ≠ 1 := by simp [Opcode.size, kind]
      rw [readInstructions, Opcode.ofWord?_word]
      simp only [hsize, if_false]
      exact ⟨others, rfl, hothers⟩
  | @unknown base word words lines unknown rest ih =>
      rw [readInstructions, unknown]
      exact ⟨_, rfl, .unknown⟩
  | @truncated base op kind =>
      have hsize : op.size ≠ 1 := by simp [Opcode.size, kind]
      rw [readInstructions, Opcode.ofWord?_word]
      simp only [hsize, if_false]
      exact ⟨_, rfl, .truncated⟩

end Lists

theorem GoesOn.eq_none_iff {fault : Option CodeFault}
    {lines : List ListingLine} (h : GoesOn fault lines) :
    fault = none ↔ ∀ line ∈ lines, line.mnemonic ≠ "???" ∧
    line.comment ≠ "truncated" := by
  cases h with
  | done => simp
  | unknown => simp [ofUnknown]
  | truncated => simp [ofTruncated]

/-- The strict reading ends at an offset of the words, and it shows the word
there if it is no opcode. -/
theorem exists_render_of_readInstructions {words : List Int} {base : Nat}
    {fault : CodeFault} (h : (readInstructions base words).2 = some fault) :
    ∃ offset : Nat, fault.offset = some (offset : Int) ∧ base ≤ offset ∧
      offset < base + words.length ∧
      ((∃ text, fault.render = .ok text) ↔ Text.isShort offset = true ∧
        ∀ word, fault.flaw = .invalidOpcode word →
          Text.isShort word = true) := by
  fun_induction readInstructions base words with
  | case1 => cases h
  | case2 base word rest hop =>
      cases h
      refine ⟨base, rfl, Nat.le_refl _, by simp, ?_⟩
      rw [CodeFault.exists_render_iff]
      simp [Flaw.shown, and_comm]
  | case3 base word rest op hop hsize entries others hothers ih =>
      rw [hothers] at ih
      obtain ⟨offset, hoffset, hle, hlt, hrender⟩ := ih h
      refine ⟨offset, hoffset, by omega, ?_, hrender⟩
      rw [List.length_cons]
      omega
  | case4 base word op hop hsize =>
      cases h
      refine ⟨base, rfl, Nat.le_refl _, by simp, ?_⟩
      rw [CodeFault.exists_render_iff]
      simp [Flaw.shown]
  | case5 base word op hop hsize operand rest entries others hothers ih =>
      rw [hothers] at ih
      obtain ⟨offset, hoffset, hle, hlt, hrender⟩ := ih h
      refine ⟨offset, hoffset, by omega, ?_, hrender⟩
      rw [List.length_cons, List.length_cons]
      omega

namespace Program

theorem lines_of_instructions {p : Program} {entries : List Entry}
    {lines : List ListingLine} (h : p.instructions = (entries, none))
    (hlines : p.listingLines = .ok lines) :
    lines = entries.map ofEntry := by
  obtain ⟨others, hsplit, hothers⟩ := (lists_of_listWords hlines).exists_goesOn
  rw [instructions] at h
  rw [h] at hsplit hothers
  cases hothers
  rw [hsplit, List.append_nil]

/-- A listing agrees with the strict reading, whatever the words are, as long as
those that it shows can be written out. -/
theorem listing_agrees_with_instructions (p : Program) :
    ((∃ lines, p.listingLines = .ok lines) ↔
      listed p.size p.code.toList = true) ∧
    (∀ lines, p.listingLines = .ok lines →
      Tiles 0 lines p.size ∧
      lines.foldl (fun total line => total + line.size) 0 = p.size ∧
      (p.instructions.2 = none ↔
        ∀ line ∈ lines, line.mnemonic ≠ "???" ∧ line.comment ≠ "truncated") ∧
      ∃ read others, lines = read ++ others ∧
        read.map (fun line => (line.offset, line.opcode, line.operand)) =
          p.instructions.1.map (fun e => (e.offset, some e.opcode, e.operand)) ∧
        GoesOn p.instructions.2 others) ∧
    ∀ fault, p.instructions.2 = some fault →
      ∃ offset : Nat, fault.offset = some (offset : Int) ∧ offset < p.size ∧
        ((∃ text, fault.render = .ok text) ↔ Text.isShort offset = true ∧
          ∀ word, fault.flaw = .invalidOpcode word →
            Text.isShort word = true) := by
  refine ⟨exists_listWords_iff p.size 0 p.code.toList, fun lines hlisting => ?_,
    fun fault hfault => ?_⟩
  · have hlists := lists_of_listWords hlisting
    have htiles := hlists.tiles
    rw [Array.length_toList, Nat.zero_add] at htiles
    obtain ⟨others, hlines, hothers⟩ := hlists.exists_goesOn
    refine ⟨htiles, htiles.foldl_size, ?_, p.instructions.1.map ofEntry, others,
      hlines, ?_, hothers⟩
    · have hread : ∀ line ∈ (readInstructions 0 p.code.toList).1.map ofEntry,
          line.mnemonic ≠ "???" ∧ line.comment ≠ "truncated" := by
        intro line hline
        obtain ⟨e, -, rfl⟩ := List.mem_map.mp hline
        exact ListingLine.ofEntry_intact e
      rw [hlines, List.forall_mem_append, and_iff_right hread]
      exact hothers.eq_none_iff
    · rw [List.map_map]
      exact List.map_congr_left fun e _ => ListingLine.instruction_ofEntry e
  · obtain ⟨offset, hoffset, -, hlt, hrender⟩ :=
      exists_render_of_readInstructions hfault
    rw [Nat.zero_add, Array.length_toList] at hlt
    exact ⟨offset, hoffset, hlt, hrender⟩

/-- A word can be too long for a listing, and for the report of the strict
reading. -/
theorem unknown_word_not_listed :
    listingLines { code := #[Text.leastLong] } = .error ⟨⟩ ∧
      (instructions { code := #[Text.leastLong] }).2 =
        some ⟨.invalidOpcode Text.leastLong, some 0⟩ ∧
      ∀ text, CodeFault.render ⟨.invalidOpcode Text.leastLong, some 0⟩ ≠
        .ok text := by
  have hunknown := Opcode.ofWord?_of_not_isShort Text.isShort_leastLong
  refine ⟨?_, ?_, ?_⟩
  · rw [listingLines, listWords_unknown _ _ hunknown, Text.isShort_leastLong]
    rfl
  · simp [instructions, readInstructions, hunknown]
  · exact CodeFault.render_ne_ok List.mem_cons_self Text.isShort_leastLong

end Program

end OnePass

import OnePass.Program

namespace OnePass

namespace Opcode

theorem size_of_isJump {op : Opcode} (h : op.isJump = true) : op.size = 2 := by
  have hkind : op.operandKind = .address := by simpa [isJump] using h
  simp [size, hkind]

end Opcode

/-- The words from the offset `base` on are exactly these instructions. -/
inductive Decodes : Nat → List Int → List Entry → Prop where
  | nil (base : Nat) : Decodes base [] []
  | cons {base : Nat} {op : Opcode} {operand : Option Int} {words : List Int}
      {entries : List Entry}
      (fits : op.size = 1 + operand.toList.length)
      (rest : Decodes (base + op.size) words entries) :
      Decodes base (op.word :: (operand.toList ++ words))
        (⟨base, op, operand⟩ :: entries)

namespace Decodes

variable {base : Nat} {words words' : List Int} {entries entries' : List Entry}

theorem readInstructions_eq (h : Decodes base words entries) :
    readInstructions base words = (entries, none) := by
  induction h with
  | nil base => rfl
  | @cons base op operand words entries fits rest ih =>
      rw [readInstructions, Opcode.ofWord?_word]
      cases operand with
      | none =>
          have hsize : op.size = 1 := by simpa using fits
          rw [hsize] at ih
          simp [hsize, ih]
      | some operand =>
          have hsize : op.size = 2 := by simpa using fits
          rw [hsize] at ih
          simp [hsize, ih]

theorem append (h : Decodes base words entries)
    (h' : Decodes (base + words.length) words' entries') :
    Decodes base (words ++ words') (entries ++ entries') := by
  induction h with
  | nil base => exact h'
  | @cons base op operand words entries fits rest ih =>
      rw [List.cons_append, List.append_assoc]
      refine .cons fits (ih ?_)
      have hbase : base + (op.word :: (operand.toList ++ words)).length =
          base + op.size + words.length := by
        simp only [List.length_cons, List.length_append, fits]
        omega
      rwa [hbase] at h'

theorem concat (h : Decodes base words entries) {op : Opcode}
    {operand : Option Int} (fits : op.size = 1 + operand.toList.length) :
    Decodes base (words ++ (op.word :: operand.toList))
      (entries ++ [⟨base + words.length, op, operand⟩]) := by
  have hone := h.append (.cons fits (.nil _))
  rwa [List.append_nil] at hone

theorem split {before after : List Entry} {entry : Entry}
    (h : Decodes base words (before ++ entry :: after)) :
    ∃ front back, words =
      front ++ entry.opcode.word :: (entry.operand.toList ++ back) ∧
      entry.offset = base + front.length ∧
      entry.opcode.size = 1 + entry.operand.toList.length ∧
      Decodes base front before ∧
      Decodes (entry.offset + entry.opcode.size) back after := by
  induction before generalizing base words with
  | nil =>
      cases h with
      | @cons _ op operand back _ fits rest =>
          exact ⟨[], back, rfl, rfl, fits, .nil base, rest⟩
  | cons first before ih =>
      cases h with
      | @cons _ op operand rest _ fits hrest =>
          obtain ⟨front, back, rfl, hoffset, hfits, hfront, hback⟩ := ih hrest
          refine ⟨op.word :: (operand.toList ++ front), back, by simp, ?_,
            hfits, .cons fits hfront, hback⟩
          simp only [List.length_cons, List.length_append, hoffset, fits]
          omega

theorem offset_lt (h : Decodes base words entries) {entry : Entry}
    (hentry : entry ∈ entries) :
    entry.offset < base + words.length := by
  obtain ⟨before, after, rfl⟩ := List.append_of_mem hentry
  obtain ⟨front, back, rfl, hoffset, -⟩ := h.split
  simp only [List.length_append, List.length_cons]
  omega

theorem getElem?_opcode (h : Decodes 0 words entries) {entry : Entry}
    (hentry : entry ∈ entries) :
    words[entry.offset]? = some entry.opcode.word := by
  obtain ⟨before, after, rfl⟩ := List.append_of_mem hentry
  obtain ⟨front, back, rfl, hoffset, -⟩ := h.split
  rw [hoffset, Nat.zero_add, List.getElem?_append_right (Nat.le_refl _),
    Nat.sub_self]
  rfl

theorem getElem?_operand (h : Decodes 0 words entries) {entry : Entry}
    {operand : Int} (hentry : entry ∈ entries)
    (hoperand : entry.operand = some operand) :
    words[entry.offset + 1]? = some operand := by
  obtain ⟨before, after, rfl⟩ := List.append_of_mem hentry
  obtain ⟨front, back, rfl, hoffset, -⟩ := h.split
  rw [hoffset, Nat.zero_add, List.getElem?_append_right (Nat.le_add_right _ _),
    Nat.add_sub_cancel_left, hoperand]
  rfl

theorem le_offset (h : Decodes base words entries) {entry : Entry}
    (hentry : entry ∈ entries) :
    base ≤ entry.offset := by
  obtain ⟨before, after, rfl⟩ := List.append_of_mem hentry
  obtain ⟨front, back, -, hoffset, -⟩ := h.split
  omega

theorem pairwise_offset (h : Decodes base words entries) :
    (entries.map Entry.offset).Pairwise (· < ·) := by
  induction h with
  | nil => exact .nil
  | @cons base op operand words entries fits rest ih =>
      refine .cons (fun offset hoffset => ?_) ih
      obtain ⟨entry, hentry, rfl⟩ := List.mem_map.mp hoffset
      have hle := rest.le_offset hentry
      change base < entry.offset
      omega

theorem size_opcode (h : Decodes base words entries) {entry : Entry}
    (hentry : entry ∈ entries) :
    entry.opcode.size = 1 + entry.operand.toList.length := by
  obtain ⟨before, after, rfl⟩ := List.append_of_mem hentry
  obtain ⟨front, back, -, -, hfits, -⟩ := h.split
  exact hfits

theorem exists_operand (h : Decodes base words entries) {entry : Entry}
    (hentry : entry ∈ entries) (hsize : entry.opcode.size = 2) :
    ∃ operand, entry.operand = some operand := by
  have hfits := h.size_opcode hentry
  rw [hsize] at hfits
  cases hoperand : entry.operand with
  | none => simp [hoperand] at hfits
  | some operand => exact ⟨operand, rfl⟩

theorem operand_eq_none (h : Decodes base words entries) {entry : Entry}
    (hentry : entry ∈ entries) (hsize : entry.opcode.size = 1) :
    entry.operand = none := by
  have hfits := h.size_opcode hentry
  rw [hsize] at hfits
  cases hoperand : entry.operand with
  | none => rfl
  | some operand => simp [hoperand] at hfits

theorem front (h : Decodes base words entries) :
    base ∈ entries.map Entry.offset ∨ words = [] := by
  cases h with
  | nil => exact .inr rfl
  | cons => exact .inl (by simp)

theorem behind (h : Decodes base words entries) {entry : Entry}
    (hentry : entry ∈ entries) :
    entry.offset + entry.opcode.size ∈ entries.map Entry.offset ∨
      entry.offset + entry.opcode.size = base + words.length := by
  obtain ⟨before, after, rfl⟩ := List.append_of_mem hentry
  obtain ⟨front, back, rfl, hoffset, hfits, -, hback⟩ := h.split
  rcases hback.front with hnext | rfl
  · left
    rw [List.map_append, List.map_cons]
    exact List.mem_append_right _ (List.mem_cons_of_mem _ hnext)
  · right
    simp only [List.length_append, List.length_cons, List.append_nil]
    omega

/-- Another operand for one instruction leaves all others as they are. -/
theorem set_operand {before after : List Entry} {offset : Nat} {op : Opcode}
    {operand : Int}
    (h : Decodes 0 words (before ++ ⟨offset, op, some operand⟩ :: after))
    (operand' : Int) :
    Decodes 0 (words.set (offset + 1) operand')
      (before ++ ⟨offset, op, some operand'⟩ :: after) := by
  obtain ⟨front, back, rfl, hoffset, hfits, hfront, hback⟩ := h.split
  have hplace : offset = front.length := by simpa using hoffset
  have hset : (front ++ op.word :: operand :: back).set (offset + 1) operand' =
      front ++ op.word :: operand' :: back := by
    rw [hplace, List.set_append_right _ _ (Nat.le_add_right _ _),
      Nat.add_sub_cancel_left]
    rfl
  refine (congrArg (Decodes 0 · _) hset).mpr (hfront.append ?_)
  subst hplace
  rw [Nat.zero_add]
  exact @cons _ op (some operand') _ _ hfits hback

end Decodes

end OnePass

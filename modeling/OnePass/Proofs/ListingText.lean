import OnePass.Proofs.Lexemes
import OnePass.Proofs.ListingLines

namespace OnePass

namespace Text

/-- A decimal with its sign. There may be zeros in front. -/
inductive Decimal : List Char → Int → Prop where
  | natural {digits : List Char} (all : ∀ c ∈ digits, c.isDigit = true) :
      Decimal digits (Nat.ofDigitChars 10 digits 0)
  | negative {digits : List Char} (all : ∀ c ∈ digits, c.isDigit = true) :
      Decimal ('-' :: digits) (-Nat.ofDigitChars 10 digits 0)

theorem Decimal.unique {text : List Char} {n m : Int} (h : Decimal text n)
    (h' : Decimal text m) :
    n = m := by
  cases h with
  | natural all =>
      cases h' with
      | natural => rfl
      | negative => exact absurd (all '-' List.mem_cons_self) (by decide)
  | negative all =>
      cases h' with
      | natural digits =>
          exact absurd (digits '-' List.mem_cons_self) (by decide)
      | negative => rfl

theorem ofDigitChars_zeros (count : Nat) (digits : List Char) :
    Nat.ofDigitChars 10 (List.replicate count '0' ++ digits) 0 =
      Nat.ofDigitChars 10 digits 0 := by
  induction count with
  | zero => rfl
  | succ count ih =>
      rw [List.replicate_succ, List.cons_append, Nat.ofDigitChars_cons]
      exact ih

theorem exists_digits (width n : Nat) :
    ∃ digits, (zeroFilled.zeros width n ++ n.repr).toList = digits ∧
      (∀ c ∈ digits, c.isDigit = true) ∧ Nat.ofDigitChars 10 digits 0 = n := by
  refine ⟨List.replicate (width - n.repr.length) '0' ++ Nat.toDigits 10 n,
    ?_, ?_, ?_⟩
  · rw [String.toList_append, zeroFilled.zeros, String.toList_ofList,
      Nat.toList_repr]
  · intro c hc
    rcases List.mem_append.mp hc with hc | hc
    · rw [(List.mem_replicate.mp hc).2]
      rfl
    · exact Nat.isDigit_of_mem_toDigits (by decide) (by decide) hc
  · rw [ofDigitChars_zeros, Nat.ofDigitChars_toDigits (by decide) (by decide)]

theorem decimal_zeroFilled (width : Nat) (n : Int) :
    Decimal (zeroFilled width n).toList n := by
  cases n with
  | ofNat n =>
      obtain ⟨digits, hdigits, hall, hvalue⟩ := exists_digits width n
      have hdecimal := Decimal.natural hall
      rw [hvalue, ← hdigits] at hdecimal
      exact hdecimal
  | negSucc n =>
      obtain ⟨digits, hdigits, hall, hvalue⟩ :=
        exists_digits (width - 1) (n + 1)
      have hdecimal := Decimal.negative hall
      rw [hvalue, ← hdigits] at hdecimal
      rw [zeroFilled, String.append_assoc, String.toList_append]
      exact hdecimal

theorem toString_eq_zeroFilled (n : Int) : toString n = zeroFilled 0 n := by
  have hzeros : ∀ m, zeroFilled.zeros 0 m = "" := by simp [zeroFilled.zeros]
  cases n with
  | ofNat n =>
      rw [zeroFilled, hzeros, String.empty_append]
      rfl
  | negSucc n =>
      rw [zeroFilled, Nat.zero_sub, hzeros, String.append_empty]
      rfl

theorem decimal_toString (n : Int) : Decimal (toString n).toList n := by
  rw [toString_eq_zeroFilled]
  exact decimal_zeroFilled 0 n

/-- What the columns of a line are made of: no blanks, and no sign that starts a
comment. -/
def isColumnPart (c : Char) : Bool :=
  !isBlank c && c != ';'

def Solid (text : List Char) : Prop :=
  ∀ c ∈ text, isColumnPart c = true

theorem Solid.isBlank_eq_false {text : List Char} (h : Solid text) {c : Char}
    (hc : c ∈ text) :
    isBlank c = false := by
  have hpart := h c hc
  simp only [isColumnPart, Bool.and_eq_true, Bool.not_eq_true'] at hpart
  exact hpart.1

theorem Solid.ne_semicolon {text : List Char} (h : Solid text) {c : Char}
    (hc : c ∈ text) :
    (c != ';') = true := by
  have hpart := h c hc
  simp only [isColumnPart, Bool.and_eq_true] at hpart
  exact hpart.2

theorem isBlank_of_mem_replicate {n : Nat} {c : Char}
    (h : c ∈ List.replicate n ' ') :
    isBlank c = true ∧ (c != ';') = true := by
  rw [(List.mem_replicate.mp h).2]
  exact ⟨rfl, rfl⟩

theorem isColumnPart_of_isDigit {c : Char} (h : c.isDigit = true) :
    isColumnPart c = true := by
  simp only [Char.isDigit, Bool.and_eq_true, decide_eq_true_eq] at h
  have hlow : 48 ≤ c.toNat := h.1
  have hhigh : c.toNat ≤ 57 := h.2
  have hblank : isBlank c = false := by
    simp only [isBlank, blankRuns, List.any_eq_false, List.forall_mem_cons,
      List.not_mem_nil, false_implies, implies_true, and_true, Bool.and_eq_true,
      decide_eq_true_eq]
    omega
  have hsign : c ≠ ';' := by
    rintro rfl
    exact absurd hhigh (by decide)
  simp [isColumnPart, hblank, hsign]

theorem Decimal.solid {text : List Char} {n : Int} (h : Decimal text n) :
    Solid text := by
  cases h with
  | natural all => exact fun c hc => isColumnPart_of_isDigit (all c hc)
  | negative all =>
      refine List.forall_mem_cons.mpr ⟨rfl, ?_⟩
      exact fun c hc => isColumnPart_of_isDigit (all c hc)

theorem trimEnd_append {blanks : List Char}
    (h : ∀ c ∈ blanks, isBlank c = true) (text : List Char) :
    trimEnd (text ++ blanks) = trimEnd text := by
  rw [trimEnd, List.reverse_append, List.dropWhile_append_of_pos]
  · rfl
  · exact fun c hc => h c (List.mem_reverse.mp hc)

theorem trimEnd_trimEnd (text : List Char) :
    trimEnd (trimEnd text) = trimEnd text := by
  have hrun := LongestRun.of_takeWhile isBlank text.reverse
  have hnone : LongestRun isBlank [] (text.reverse.dropWhile isBlank) :=
    ⟨by simp, hrun.ends⟩
  have hdrop := hnone.dropWhile_eq
  rw [List.nil_append] at hdrop
  rw [trimEnd, trimEnd, List.reverse_reverse, hdrop]

theorem trimEnd_of_solid {text : List Char} (h : Solid text) (hne : text ≠ [])
    (front : List Char) :
    trimEnd (front ++ text) = front ++ text := by
  rcases List.eq_nil_or_concat text with rfl | ⟨init, last, rfl⟩
  · exact absurd rfl hne
  · have hlast := h.isBlank_eq_false (c := last) (by simp)
    simp [trimEnd, hlast]

theorem ne_empty_of_joinLines {line : String} (h : line ≠ "")
    (others : List String) :
    joinLines (line :: others) ≠ "" := by
  intro hjoin
  cases others with
  | nil => exact h (by simpa [joinLines] using hjoin)
  | cons second others =>
      rw [joinLines, String.intercalate_cons_cons] at hjoin
      simp at hjoin

theorem splitOn_joinLines {lines : List String}
    (h : ∀ line ∈ lines, line ≠ "" ∧ '\n' ∉ line.toList) (hne : lines ≠ []) :
    (joinLines lines).toList.splitOn '\n' = lines.map String.toList := by
  rw [joinLines, String.toList_intercalate]
  refine List.splitOn_intercalate '\n' ?_ (by simpa using hne)
  intro text htext
  obtain ⟨line, hline, rfl⟩ := List.mem_map.mp htext
  exact (h line hline).2

theorem joinLines_inj {lines lines' : List String}
    (h : ∀ line ∈ lines, line ≠ "" ∧ '\n' ∉ line.toList)
    (h' : ∀ line ∈ lines', line ≠ "" ∧ '\n' ∉ line.toList)
    (hjoin : joinLines lines = joinLines lines') : lines = lines' := by
  cases lines with
  | nil =>
      cases lines' with
      | nil => rfl
      | cons line others =>
          exact absurd hjoin.symm
            (ne_empty_of_joinLines (h' line List.mem_cons_self).1 others)
  | cons line others =>
      cases lines' with
      | nil =>
          exact absurd hjoin
            (ne_empty_of_joinLines (h line List.mem_cons_self).1 others)
      | cons line' others' =>
          have hlists := splitOn_joinLines h (List.cons_ne_nil _ _)
          rw [hjoin, splitOn_joinLines h' (List.cons_ne_nil _ _)] at hlists
          exact (List.map_inj_right fun _ _ => String.toList_inj.mp).mp
            hlists.symm

end Text

namespace ListingLine

open Text (Solid isBlank)

/-- The instruction of a line as it is laid out. -/
def instructionText (mnemonic operandText : String) : List Char :=
  Text.trimEnd (Text.alignLeft 6 mnemonic ++ " " ++ operandText).toList

/-- What follows the instruction on a line. -/
def remark (instruction : List Char) (comment : String) : List Char :=
  if comment = "" then []
  else List.replicate
    (20 - instruction.length) ' ' ++ ' ' :: ';' :: ' ' :: comment.toList

theorem toList_layout (offset : Int) (mnemonic operandText comment : String) :
    (layout offset mnemonic operandText comment).toList =
      (Text.zeroFilled 4 offset ++ ": ").toList ++
        (instructionText mnemonic operandText ++
          remark (instructionText mnemonic operandText) comment) := by
  unfold layout remark
  split
  · simp [instructionText, toString]
  · simp [instructionText, toString, Text.alignLeft, Text.spaces]

theorem exists_gap {mnemonic operandText : String}
    (hmnemonic : Solid mnemonic.toList) (hoperand : Solid operandText.toList) :
    ∃ gap, (gap = 0 → operandText.toList = []) ∧
      instructionText mnemonic operandText =
        mnemonic.toList ++ (List.replicate gap ' ' ++ operandText.toList) := by
  have htext : (Text.alignLeft 6 mnemonic ++ " " ++ operandText).toList =
      mnemonic.toList ++ List.replicate
        (6 - mnemonic.length + 1) ' ' ++ operandText.toList := by
    simp [Text.alignLeft, Text.spaces, List.replicate_succ']
  rw [instructionText, htext]
  by_cases hempty : operandText.toList = []
  · have hblank : ∀ c ∈ List.replicate (6 - mnemonic.length + 1) ' ',
        isBlank c = true :=
      fun c hc => (Text.isBlank_of_mem_replicate hc).1
    have htrim : Text.trimEnd mnemonic.toList = mnemonic.toList := by
      by_cases hnone : mnemonic.toList = []
      · rw [hnone]
        rfl
      · exact Text.trimEnd_of_solid hmnemonic hnone []
    refine ⟨0, fun _ => hempty, ?_⟩
    rw [hempty, List.append_nil, Text.trimEnd_append hblank, htrim]
    simp
  · refine ⟨6 - mnemonic.length + 1, fun h => absurd h (Nat.succ_ne_zero _), ?_⟩
    rw [Text.trimEnd_of_solid hoperand hempty, List.append_assoc]

theorem exists_remark (instruction : List Char) (comment : String) :
    ∃ blanks behind, (∀ c ∈ behind.head?, c = ';') ∧
      remark instruction comment = List.replicate blanks ' ' ++ behind := by
  unfold remark
  split
  · exact ⟨0, [], by simp, rfl⟩
  · refine ⟨20 - instruction.length + 1,
      ';' :: ' ' :: comment.toList, by simp, ?_⟩
    simp [List.replicate_succ']

theorem instruction_of_body {mnemonic operandText : String}
    (hmnemonic : Solid mnemonic.toList) (hoperand : Solid operandText.toList)
    (comment : String) :
    Text.trimEnd ((instructionText mnemonic operandText ++
        remark (instructionText mnemonic operandText) comment).takeWhile
          (· != ';')) =
      instructionText mnemonic operandText := by
  obtain ⟨gap, -, htext⟩ := exists_gap hmnemonic hoperand
  obtain ⟨blanks, behind, hbehind, hremark⟩ :=
    exists_remark (instructionText mnemonic operandText) comment
  have hrun : LongestRun (· != ';')
      (instructionText mnemonic operandText ++ List.replicate blanks ' ')
        behind := by
    constructor
    · rw [htext]
      simp only [List.forall_mem_append]
      refine ⟨⟨?_, ?_, ?_⟩, ?_⟩
      · exact fun c hc => hmnemonic.ne_semicolon hc
      · exact fun c hc => (Text.isBlank_of_mem_replicate hc).2
      · exact fun c hc => hoperand.ne_semicolon hc
      · exact fun c hc => (Text.isBlank_of_mem_replicate hc).2
    · intro c hc
      rw [hbehind c hc]
      rfl
  rw [hremark, ← List.append_assoc, hrun.takeWhile_eq,
    Text.trimEnd_append fun c hc => (Text.isBlank_of_mem_replicate hc).1]
  exact Text.trimEnd_trimEnd _

theorem columns_of_instruction {mnemonic operandText : String}
    (hmnemonic : Solid mnemonic.toList) (hoperand : Solid operandText.toList) :
    (instructionText mnemonic operandText).takeWhile (!isBlank ·) =
      mnemonic.toList ∧
      ((instructionText mnemonic operandText).dropWhile
        (!isBlank ·)).dropWhile isBlank = operandText.toList := by
  obtain ⟨gap, hgap, htext⟩ := exists_gap hmnemonic hoperand
  have hfirst : LongestRun (!isBlank ·) mnemonic.toList
      (List.replicate gap ' ' ++ operandText.toList) := by
    constructor
    · intro c hc
      rw [hmnemonic.isBlank_eq_false hc]
      rfl
    · intro c hc
      cases gap with
      | zero =>
          rw [hgap rfl] at hc
          cases hc
      | succ gap =>
          cases hc
          rfl
  have hsecond :
      LongestRun isBlank (List.replicate gap ' ') operandText.toList := by
    constructor
    · exact fun c hc => (Text.isBlank_of_mem_replicate hc).1
    · exact fun c hc => hoperand.isBlank_eq_false (List.mem_of_head? hc)
  rw [htext, hfirst.takeWhile_eq, hfirst.dropWhile_eq, hsecond.dropWhile_eq]
  exact ⟨rfl, rfl⟩

theorem columns_of_layout {offset : Int}
    {mnemonic mnemonic' operandText operandText' : String}
    {comment comment' : String} (hmnemonic : Solid mnemonic.toList)
    (hoperand : Solid operandText.toList)
    (hmnemonic' : Solid mnemonic'.toList)
    (hoperand' : Solid operandText'.toList)
    (h : layout offset mnemonic operandText comment =
      layout offset mnemonic' operandText' comment') :
    mnemonic = mnemonic' ∧ operandText = operandText' := by
  have hlists := congrArg String.toList h
  rw [toList_layout, toList_layout] at hlists
  have hbody := List.append_cancel_left hlists
  have hinstruction := instruction_of_body hmnemonic hoperand comment
  rw [hbody, instruction_of_body hmnemonic' hoperand'] at hinstruction
  obtain ⟨hfirst, hsecond⟩ := columns_of_instruction hmnemonic hoperand
  obtain ⟨hfirst', hsecond'⟩ := columns_of_instruction hmnemonic' hoperand'
  rw [← hinstruction] at hfirst hsecond
  exact ⟨String.toList_inj.mp (hfirst.symm.trans hfirst'),
    String.toList_inj.mp (hsecond.symm.trans hsecond')⟩

theorem lineFeed_not_mem_layout {mnemonic operandText comment : String}
    (hmnemonic : Solid mnemonic.toList) (hoperand : Solid operandText.toList)
    (hcomment : '\n' ∉ comment.toList) (offset : Int) :
    '\n' ∉ (layout offset mnemonic operandText comment).toList := by
  have hsolid : ∀ {text : List Char}, Solid text → '\n' ∉ text := fun h hmem =>
    absurd (h '\n' hmem) (by decide)
  obtain ⟨gap, -, htext⟩ := exists_gap hmnemonic hoperand
  have hoffset := hsolid (Text.decimal_zeroFilled 4 offset).solid
  rw [toList_layout, htext, remark]
  split <;>
    simp [hoffset, hsolid hmnemonic, hsolid hoperand, hcomment]

end ListingLine

theorem Variable.eq_of_letter_eq {v u : Variable} (h : v.letter = u.letter) :
    v = u := by
  have hword := Token.wordToken_spelling (t := .variable v) rfl
  rw [Token.spelling, h] at hword
  have hvariable :=
    hword.symm.trans (Token.wordToken_spelling (t := .variable u) rfl)
  exact Token.variable.inj (Except.ok.inj hvariable)

theorem Variable.isColumnPart_letter (v : Variable) :
    Text.isColumnPart v.letter = true := by
  revert v
  decide

/-- What an operand is shown as: a letter, or a number behind a mark. -/
inductive Denotes : List Char → Int → Prop where
  | letter (v : Variable) : Denotes [v.letter] v.val
  | marked {mark : Char} {text : List Char} {n : Int}
      (marks : mark ∈ ['$', '#', '@'])
      (number : Text.Decimal text n) : Denotes (mark :: text) n

namespace Denotes

variable {text : List Char} {n m : Int}

theorem letter_ne_mark (v : Variable) : v.letter ∉ ['$', '#', '@'] := by
  revert v
  decide

theorem unique (h : Denotes text n) (h' : Denotes text m) : n = m := by
  generalize htext : text = text' at h'
  cases h with
  | letter v =>
      cases h' with
      | letter u => rw [Variable.eq_of_letter_eq (List.cons.inj htext).1]
      | marked marks number =>
          exact absurd ((List.cons.inj htext).1 ▸ marks) (letter_ne_mark v)
  | marked marks number =>
      cases h' with
      | letter u =>
          exact absurd ((List.cons.inj htext).1 ▸ marks) (letter_ne_mark u)
      | marked marks' number' =>
          obtain ⟨rfl, rfl⟩ := List.cons.inj htext
          exact number.unique number'

theorem solid (h : Denotes text n) : Text.Solid text := by
  cases h with
  | letter v => exact List.forall_mem_singleton.mpr v.isColumnPart_letter
  | @marked mark text n marks number =>
      have hmark : Text.isColumnPart mark = true := by
        revert marks
        simp only [List.mem_cons, List.not_mem_nil, or_false]
        rintro (rfl | rfl | rfl) <;> rfl
      exact List.forall_mem_cons.mpr ⟨hmark, number.solid⟩

end Denotes

theorem denotes_operandColumns {kind : OperandKind} (h : kind ≠ .none)
    (offset : Nat) (n : Int) :
    Denotes (ListingLine.operandColumns offset kind n).1.toList n := by
  cases kind with
  | «variable» =>
      simp only [ListingLine.operandColumns]
      split
      · rename_i v hslot
        rw [Variable.eq_of_ofSlot? hslot, String.toList_singleton]
        exact .letter v
      · have htext :
            ("$" ++ toString n).toList = '$' :: (toString n).toList := by simp
        exact htext ▸ .marked (by decide) (Text.decimal_toString n)
  | constant =>
      have htext : ("#" ++ toString n).toList = '#' :: (toString n).toList := by
        simp
      exact htext ▸ .marked (by decide) (Text.decimal_toString n)
  | address =>
      have htext : ("@" ++ Text.zeroFilled 4 n).toList =
          '@' :: (Text.zeroFilled 4 n).toList := by simp
      exact htext ▸ .marked (by decide) (Text.decimal_zeroFilled 4 n)
  | none => exact absurd rfl h

/-- The words that a mnemonic and the text of an operand stand for. -/
inductive Tells (mnemonic operandText : String) : List Int → Prop where
  | unknown {word : Int} (hmnemonic : mnemonic = "???")
      (hoperand : operandText = toString word) :
      Tells mnemonic operandText [word]
  | opcode {op : Opcode} (hmnemonic : mnemonic = op.mnemonic)
      (hoperand : operandText = "") :
      Tells mnemonic operandText [op.word]
  | operand {op : Opcode} {operand : Int} (hmnemonic : mnemonic = op.mnemonic)
      (hoperand : Denotes operandText.toList operand) :
        Tells mnemonic operandText [op.word, operand]

theorem Opcode.eq_of_mnemonic_eq {op op' : Opcode}
    (h : op.mnemonic = op'.mnemonic) : op = op' := by
  have hfound : ∀ op : Opcode,
      all.find? (fun o => o.mnemonic = op.mnemonic) = some op := by
    intro op
    cases op <;> decide
  have hsame := hfound op
  rw [h, hfound op'] at hsame
  exact (Option.some.inj hsame).symm

namespace Tells

variable {mnemonic operandText : String} {words words' : List Int}

theorem solid (h : Tells mnemonic operandText words) :
    Text.Solid mnemonic.toList ∧ Text.Solid operandText.toList := by
  have hmnemonics : ∀ op : Opcode, Text.Solid op.mnemonic.toList := by
    intro op
    cases op <;> exact List.all_eq_true.mp rfl
  cases h with
  | unknown hmnemonic hoperand =>
      rw [hmnemonic, hoperand]
      exact ⟨List.all_eq_true.mp rfl, (Text.decimal_toString _).solid⟩
  | opcode hmnemonic hoperand =>
      rw [hmnemonic, hoperand]
      exact ⟨hmnemonics _, List.all_eq_true.mp rfl⟩
  | operand hmnemonic hoperand =>
      rw [hmnemonic]
      exact ⟨hmnemonics _, hoperand.solid⟩

theorem unique (h : Tells mnemonic operandText words)
    (h' : Tells mnemonic operandText words') :
    words = words' := by
  have hnone : ∀ {n : Int}, ¬ Denotes "".toList n := by
    intro n hdenotes
    cases hdenotes
  cases h with
  | @unknown word hmnemonic hoperand =>
      cases h' with
      | @unknown word' _ hoperand' =>
          have hdecimal := Text.decimal_toString word
          rw [← hoperand, hoperand'] at hdecimal
          rw [hdecimal.unique (Text.decimal_toString word')]
      | @opcode op hmnemonic' | @operand op _ hmnemonic' =>
          exact absurd (hmnemonic'.symm.trans hmnemonic) op.mnemonic_ne_unknown
  | @opcode op hmnemonic hoperand =>
      cases h' with
      | unknown hmnemonic' =>
          exact absurd (hmnemonic.symm.trans hmnemonic') op.mnemonic_ne_unknown
      | opcode hmnemonic' =>
          rw [Opcode.eq_of_mnemonic_eq (hmnemonic.symm.trans hmnemonic')]
      | operand _ hoperand' =>
          rw [hoperand] at hoperand'
          exact absurd hoperand' hnone
  | @operand op operand hmnemonic hoperand =>
      cases h' with
      | unknown hmnemonic' =>
          exact absurd (hmnemonic.symm.trans hmnemonic') op.mnemonic_ne_unknown
      | opcode _ hoperand' =>
          rw [hoperand'] at hoperand
          exact absurd hoperand hnone
      | operand hmnemonic' hoperand' =>
          rw [Opcode.eq_of_mnemonic_eq (hmnemonic.symm.trans hmnemonic'),
            hoperand.unique hoperand']

end Tells

/-- A line of a listing that stands for the given words from an offset on. -/
structure ListingLine.Shows (base : Nat) (words : List Int)
    (line : ListingLine) : Prop where
  offset : line.offset = base
  tells : Tells line.mnemonic line.operandText words
  comment : '\n' ∉ line.comment.toList

namespace ListingLine.Shows

variable {base : Nat} {words words' : List Int} {line line' : ListingLine}

theorem unique (h : Shows base words line) (h' : Shows base words' line')
    (htext : line.text = line'.text) : words = words' := by
  obtain ⟨hmnemonic, hoperand⟩ := h.tells.solid
  obtain ⟨hmnemonic', hoperand'⟩ := h'.tells.solid
  rw [text, text, h.offset, h'.offset] at htext
  obtain ⟨hsame, hsame'⟩ :=
    columns_of_layout hmnemonic hoperand hmnemonic' hoperand' htext
  have htells := h.tells
  rw [hsame, hsame'] at htells
  exact htells.unique h'.tells

theorem text_ne (h : Shows base words line) :
    line.text ≠ "" ∧ '\n' ∉ line.text.toList := by
  obtain ⟨hmnemonic, hoperand⟩ := h.tells.solid
  refine ⟨?_, lineFeed_not_mem_layout hmnemonic hoperand h.comment line.offset⟩
  intro hempty
  have hlist := congrArg String.toList hempty
  rw [text, toList_layout] at hlist
  simp at hlist

end ListingLine.Shows

namespace Lists

open ListingLine (Shows ofEntry)

variable {base : Nat} {words words' : List Int} {line : ListingLine}
  {lines lines' : List ListingLine}

theorem lineFeed_not_mem_comment (e : Entry) :
    '\n' ∉ (ofEntry e).comment.toList := by
  have hnone : ∀ comment ∈ ["", "bad variable slot", "loop", "forward"],
      '\n' ∉ comment.toList := by
    decide
  exact hnone _ (ListingLine.comment_ofEntry e)

theorem uncons (h : Lists base words (line :: lines)) :
    ∃ front back, words = front ++ back ∧ Shows base front line ∧
      Lists (base + front.length) back lines := by
  cases h with
  | @plain _ op back _ kind rest =>
      exact ⟨[op.word], back, rfl,
        ⟨rfl, .opcode rfl rfl, lineFeed_not_mem_comment _⟩, rest⟩
  | @operand _ op operand back _ kind rest =>
      refine ⟨[op.word, operand], back, rfl,
        ⟨rfl, .operand rfl ?_, lineFeed_not_mem_comment _⟩, rest⟩
      exact denotes_operandColumns kind base operand
  | @unknown _ word back _ unknown rest =>
      exact ⟨[word], back, rfl,
        ⟨rfl, .unknown rfl rfl, by simp [ListingLine.ofUnknown]⟩, rest⟩
  | @truncated _ op kind =>
      exact ⟨[op.word], [], rfl,
        ⟨rfl, .opcode rfl rfl, by simp [ListingLine.ofTruncated]⟩, .nil _⟩

theorem text_ne (h : Lists base words lines) :
    ∀ text ∈ lines.map ListingLine.text, text ≠ "" ∧ '\n' ∉ text.toList := by
  induction lines generalizing base words with
  | nil => simp
  | cons line lines ih =>
      obtain ⟨front, back, -, hshows, hrest⟩ := h.uncons
      exact List.forall_mem_cons.mpr ⟨hshows.text_ne, ih hrest⟩

theorem unique (h : Lists base words lines) (h' : Lists base words' lines')
    (htext : lines.map ListingLine.text = lines'.map ListingLine.text) :
    words = words' := by
  induction lines generalizing base words words' lines' with
  | nil =>
      obtain rfl := List.map_eq_nil_iff.mp htext.symm
      cases h
      cases h'
      rfl
  | cons line lines ih =>
      cases lines' with
      | nil => cases htext
      | cons line' lines' =>
          obtain ⟨hline, hlines⟩ := List.cons.inj htext
          obtain ⟨front, back, rfl, hshows, hrest⟩ := h.uncons
          obtain ⟨front', back', rfl, hshows', hrest'⟩ := h'.uncons
          obtain rfl := hshows.unique hshows' hline
          rw [ih hrest hrest' hlines]

end Lists

theorem Program.exists_lines_of_listing {p : Program} {text : String}
    (h : p.listing = .ok text) :
    ∃ lines, p.listingLines = .ok lines ∧
      Text.joinLines (lines.map ListingLine.text) = text := by
  unfold listing at h
  cases hlines : p.listingLines with
  | error e =>
      rw [hlines] at h
      cases h
  | ok lines =>
      rw [hlines] at h
      exact ⟨lines, rfl, Except.ok.inj h⟩

/-- The listing determines the words and nothing else. -/
theorem Program.listing_determines_code (p q : Program) :
    (∃ text, p.listing = .ok text ∧ q.listing = .ok text) ↔
      p.code = q.code ∧ ∃ text, p.listing = .ok text := by
  constructor
  · rintro ⟨text, hp, hq⟩
    refine ⟨?_, text, hp⟩
    obtain ⟨lines, hlines, rfl⟩ := exists_lines_of_listing hp
    obtain ⟨lines', hlines', hjoin⟩ := exists_lines_of_listing hq
    have hlists := lists_of_listWords hlines
    have hlists' := lists_of_listWords hlines'
    have htext := Text.joinLines_inj hlists.text_ne hlists'.text_ne hjoin.symm
    exact Array.toList_inj.mp (hlists.unique hlists' htext)
  · rintro ⟨hcode, text, htext⟩
    refine ⟨text, htext, ?_⟩
    rw [listing, listingLines, size, hcode] at htext
    exact htext

end OnePass

import OnePass.Bytes
import OnePass.Proofs.WholeText

namespace OnePass

open Word (InRange)

theorem length_bigEndian (count n : Nat) :
    (bigEndian count n).length = count := by
  induction count generalizing n with
  | zero => rfl
  | succ count ih =>
      rw [bigEndian, List.length_append, ih, List.length_singleton]

theorem ofBigEndian_nil : ofBigEndian [] = 0 :=
  rfl

theorem ofBigEndian_concat (bytes : List UInt8) (b : UInt8) :
    ofBigEndian (bytes ++ [b]) = 256 * ofBigEndian bytes + b.toNat := by
  simp [ofBigEndian]

theorem bigEndian_ofBigEndian {count : Nat} {bytes : List UInt8}
    (hlength : bytes.length = count) :
    bigEndian count (ofBigEndian bytes) = bytes := by
  induction count generalizing bytes with
  | zero =>
      rw [List.eq_nil_of_length_eq_zero hlength]
      rfl
  | succ count ih =>
      -- The last byte is the lowest digit, so the list is taken apart from its
      -- end.
      rcases List.eq_nil_or_concat bytes with rfl | ⟨front, b, rfl⟩
      · cases hlength
      · rw [List.concat_eq_append, List.length_append, List.length_singleton]
          at hlength
        have hbyte := b.toNat_lt
        have hhigher : (256 * ofBigEndian front + b.toNat) / 256 =
            ofBigEndian front := by omega
        have hlowest : UInt8.ofNat (256 * ofBigEndian front + b.toNat) = b := by
          apply UInt8.toNat_inj.mp
          rw [UInt8.toNat_ofNat']
          omega
        rw [List.concat_eq_append, bigEndian, ofBigEndian_concat, hhigher,
          hlowest, ih (Nat.succ.inj hlength)]

theorem ofBigEndian_bigEndian {n : Nat} (h : n < Word.modulus) :
    ofBigEndian (bigEndian 8 n) = n := by
  simp only [Word.modulus] at h
  simp only [bigEndian, ofBigEndian_concat, ofBigEndian_nil, UInt8.toNat_ofNat']
  omega

theorem ofBigEndian_lt {bytes : List UInt8} (hlength : bytes.length = 8) :
    ofBigEndian bytes < Word.modulus := by
  match bytes, hlength with
  | [a, b, c, d, e, f, g, h], _ =>
      have ha := a.toNat_lt
      have hb := b.toNat_lt
      have hc := c.toNat_lt
      have hd := d.toNat_lt
      have he := e.toNat_lt
      have hf := f.toNat_lt
      have hg := g.toNat_lt
      have hh := h.toNat_lt
      simp only [ofBigEndian, List.foldl, Word.modulus]
      omega

theorem length_wordBytes (w : Int) : (wordBytes w).length = 8 :=
  length_bigEndian 8 _

theorem ofBigEndian_wordBytes (w : Int) :
    (ofBigEndian (wordBytes w) : Int) = w % Word.modulus := by
  have hnonneg : 0 ≤ w % Word.modulus := Int.emod_nonneg w (by decide)
  have hlt : w % Word.modulus < Word.modulus := Int.emod_lt_of_pos w (by decide)
  rw [wordBytes, ofBigEndian_bigEndian (by omega), Int.toNat_of_nonneg hnonneg]

theorem ofWordBytes_wordBytes {w : Int} (h : InRange w) :
    ofWordBytes (wordBytes w) = w := by
  rw [ofWordBytes, ofBigEndian_wordBytes, Word.wrap, Int.emod_bmod]
  exact Word.wrap_eq_self_of_inRange h

theorem wordBytes_ofWordBytes {bytes : List UInt8}
    (hlength : bytes.length = 8) :
    wordBytes (ofWordBytes bytes) = bytes := by
  have hlt := ofBigEndian_lt hlength
  have hsame : (ofBigEndian bytes : Int) % Word.modulus = ofBigEndian bytes :=
    Int.emod_eq_of_lt (Int.natCast_nonneg _) (by omega)
  rw [wordBytes, ofWordBytes, Word.wrap, Int.bmod_emod, hsame,
    Int.toNat_natCast, bigEndian_ofBigEndian hlength]

theorem writeWords_of_inRange {words : List Int} (h : ∀ w ∈ words, InRange w) :
    writeWords words = .ok (words.flatMap wordBytes) := by
  induction words with
  | nil => rfl
  | cons w words ih =>
      rw [List.forall_mem_cons] at h
      rw [writeWords, if_pos h.1, ih h.2, List.flatMap_cons]
      rfl

theorem inRange_of_writeWords {words : List Int} {bytes : List UInt8}
    (h : writeWords words = .ok bytes) : ∀ w ∈ words, InRange w := by
  induction words generalizing bytes with
  | nil => intro w hw; cases hw
  | cons first words ih =>
      rw [writeWords] at h
      split at h
      · rename_i hfirst
        cases hrest : writeWords words with
        | error e =>
            rw [hrest] at h
            cases h
        | ok others => exact List.forall_mem_cons.mpr ⟨hfirst, ih hrest⟩
      · cases h

theorem readWords_append {bytes : List UInt8} (hlength : bytes.length = 8)
    (rest : List UInt8) :
    readWords (bytes ++ rest) = ofWordBytes bytes :: readWords rest := by
  match bytes, hlength with
  | [a, b, c, d, e, f, g, h], _ => rfl

theorem readWords_flatMap_wordBytes {words : List Int}
    (h : ∀ w ∈ words, InRange w) :
    readWords (words.flatMap wordBytes) = words := by
  induction words with
  | nil => rfl
  | cons w words ih =>
      rw [List.forall_mem_cons] at h
      rw [List.flatMap_cons, readWords_append (length_wordBytes w),
        ofWordBytes_wordBytes h.1, ih h.2]

theorem flatMap_wordBytes_readWords {bytes : List UInt8}
    (hlength : bytes.length % 8 = 0) :
    (readWords bytes).flatMap wordBytes = bytes := by
  fun_induction readWords bytes with
  | case1 a b c d e f g h rest ih =>
      have hrest : rest.length % 8 = 0 := by
        simp only [List.length_cons] at hlength
        omega
      rw [List.flatMap_cons, wordBytes_ofWordBytes rfl, ih hrest]
      rfl
  | case2 bytes hshort =>
      have hlt : bytes.length < 8 := by
        refine Nat.lt_of_not_le fun hle => ?_
        match bytes, hle with
        | a :: b :: c :: d :: e :: f :: g :: h :: rest, _ =>
            exact hshort a b c d e f g h rest rfl
      have hzero : bytes.length = 0 := by omega
      rw [List.eq_nil_of_length_eq_zero hzero]
      rfl

theorem inRange_of_mem_readWords {bytes : List UInt8} {w : Int}
    (h : w ∈ readWords bytes) : InRange w := by
  fun_induction readWords bytes with
  | case1 a b c d e f g h' rest ih =>
      rcases List.mem_cons.mp h with hfirst | hrest
      · rw [hfirst, ofWordBytes]
        exact Word.wrap_inRange _
      · exact ih hrest
  | case2 => cases h

theorem length_flatMap_wordBytes (words : List Int) :
    (words.flatMap wordBytes).length = 8 * words.length := by
  induction words with
  | nil => rfl
  | cons w words ih =>
      rw [List.flatMap_cons, List.length_append, length_wordBytes, ih,
        List.length_cons]
      omega

namespace Instruction

/-- An instruction consists of words if its constant does and its address is no
larger than they are. -/
theorem inRange_of_mem_words {i : Instruction}
    (hconstant : ∀ n, i = .push n → InRange n)
    (htarget : ∀ t, i.target? = some t → t < Word.halfModulus) {w : Int}
    (hw : w ∈ i.words) :
    InRange w := by
  rcases List.mem_cons.mp hw with hopcode | hoperand
  · rw [hopcode]
    generalize i.opcode = op
    cases op <;> decide
  · cases i with
    | fetch v | store v =>
        obtain rfl : w = v.val := List.mem_singleton.mp hoperand
        have hslot := v.isLt
        simp only [InRange, Word.halfModulus]
        omega
    | push n =>
        rw [List.mem_singleton.mp hoperand]
        exact hconstant n rfl
    | jz t | jnz t | jmp t =>
        obtain rfl : w = t := List.mem_singleton.mp hoperand
        have hlt := htarget t rfl
        simp only [InRange, Word.halfModulus] at hlt ⊢
        omega
    | pop | add | sub | lt | halt => cases hoperand

end Instruction

namespace Tree

open Instruction

mutual

theorem Term.inRange_of_push_mem {n : Int} :
    ∀ t : Term, .push n ∈ t.instructions → InRange n
  | .variable v, h => by cases List.mem_singleton.mp h
  | .number m, h => by
      rw [Instruction.push.inj (List.mem_singleton.mp h)]
      exact Word.wrap_inRange m
  | .group e, h => e.inRange_of_push_mem h

theorem Sum.inRange_of_push_mem {n : Int} :
    ∀ s : Sum, .push n ∈ s.instructions → InRange n
  | .term t, h => t.inRange_of_push_mem h
  | .add left right, h | .sub left right, h => by
      simp only [Sum.instructions, List.mem_append, List.mem_singleton,
        reduceCtorEq, or_false] at h
      exact h.elim left.inRange_of_push_mem right.inRange_of_push_mem

theorem Test.inRange_of_push_mem {n : Int} :
    ∀ t : Test, .push n ∈ t.instructions → InRange n
  | .sum s, h => s.inRange_of_push_mem h
  | .less left right, h => by
      simp only [Test.instructions, List.mem_append, List.mem_singleton,
        reduceCtorEq, or_false] at h
      exact h.elim left.inRange_of_push_mem right.inRange_of_push_mem

theorem Expression.inRange_of_push_mem {n : Int} :
    ∀ e : Expression, .push n ∈ e.instructions → InRange n
  | .test t, h => t.inRange_of_push_mem h
  | .assign v e, h => by
      simp only [Expression.instructions, List.mem_append, List.mem_singleton,
        reduceCtorEq, or_false] at h
      exact e.inRange_of_push_mem h

end

mutual

theorem Statement.inRange_of_push_mem {n : Int} :
    ∀ (s : Statement) (base : Nat), .push n ∈ s.instructions base → InRange n
  | .ifThen c s, base, h => by
      simp only [Statement.instructions, List.mem_append, List.mem_singleton,
        reduceCtorEq, or_false] at h
      exact h.elim c.inRange_of_push_mem (s.inRange_of_push_mem _)
  | .ifElse c s t, base, h => by
      simp only [Statement.instructions, List.mem_append, List.mem_singleton,
        reduceCtorEq, or_false] at h
      exact h.elim (·.elim c.inRange_of_push_mem (s.inRange_of_push_mem _))
        (t.inRange_of_push_mem _)
  | .whileDo c s, base, h => by
      simp only [Statement.instructions, List.mem_append, List.mem_singleton,
        reduceCtorEq, or_false] at h
      exact h.elim c.inRange_of_push_mem (s.inRange_of_push_mem _)
  | .doWhile s c, base, h => by
      simp only [Statement.instructions, List.mem_append, List.mem_singleton,
        reduceCtorEq, or_false] at h
      exact h.elim (s.inRange_of_push_mem _) c.inRange_of_push_mem
  | .block b, base, h => b.inRange_of_push_mem base h
  | .expression e, base, h => by
      simp only [Statement.instructions, List.mem_append, List.mem_singleton,
        reduceCtorEq, or_false] at h
      exact e.inRange_of_push_mem h
  | .empty, base, h => by cases h

theorem Block.inRange_of_push_mem {n : Int} :
    ∀ (b : Block) (base : Nat), .push n ∈ b.instructions base → InRange n
  | .nil, base, h => by cases h
  | .cons s rest, base, h => by
      simp only [Block.instructions, List.mem_append] at h
      exact h.elim (s.inRange_of_push_mem _) (rest.inRange_of_push_mem _)

end

theorem Statement.inRange_program {s : Statement}
    (hsize : s.program.length < Word.halfModulus) {w : Int}
    (hw : w ∈ s.program) : InRange w := by
  rw [program_eq_encode] at hw
  obtain ⟨i, hi, hw⟩ := List.mem_flatMap.mp hw
  refine inRange_of_mem_words (fun n hn => ?_) (fun t ht => ?_) hw
  · rw [hn, programInstructions, List.mem_append, List.mem_singleton] at hi
    rcases hi with hi | hi
    · exact s.inRange_of_push_mem 0 hi
    · cases hi
  · -- An address is the offset of an instruction, so it is less than the size.
    obtain ⟨before, j, after, hsplit, rfl, -⟩ :=
      exists_instruction_of_isLevel (isLevel_of_target hi ht)
    rw [program_eq_encode, hsplit, encode_append, encode_cons,
      List.length_append, List.length_append, words, List.length_cons] at hsize
    omega

end Tree

namespace Program

theorem toBytes_of_inRange {p : Program} (h : ∀ w ∈ p.code, InRange w) :
    p.toBytes = .ok (p.code.toList.flatMap wordBytes) :=
  writeWords_of_inRange fun w hw => h w (Array.mem_def.mpr hw)

theorem toBytes_eq_error_iff (p : Program) :
    (∃ e, p.toBytes = .error e) ↔ ∃ w ∈ p.code, ¬ InRange w := by
  constructor
  · rintro ⟨e, he⟩
    refine Classical.byContradiction fun hnone => ?_
    have hall : ∀ w ∈ p.code, InRange w := fun w hw =>
      Decidable.byContradiction fun hout => hnone ⟨w, hw, hout⟩
    rw [toBytes_of_inRange hall] at he
    cases he
  · rintro ⟨w, hw, hout⟩
    cases hbytes : p.toBytes with
    | error e => exact ⟨e, rfl⟩
    | ok bytes =>
        exact absurd (inRange_of_writeWords hbytes w (Array.mem_def.mp hw)) hout

theorem ofBytes_of_length {bytes : List UInt8} (h : bytes.length % 8 = 0)
    (name : String) :
    ofBytes bytes name = .ok ⟨(readWords bytes).toArray, name⟩ :=
  if_pos h

theorem ofBytes_flatMap_wordBytes {p : Program} (h : ∀ w ∈ p.code, InRange w) :
    ofBytes (p.code.toList.flatMap wordBytes) p.name = .ok p := by
  have hlength := length_flatMap_wordBytes p.code.toList
  rw [ofBytes_of_length (by omega), readWords_flatMap_wordBytes fun w hw =>
    h w (Array.mem_def.mpr hw)]

theorem ofBytes_eq_error_iff (bytes : List UInt8) (name : String) :
    (∃ fault, ofBytes bytes name = .error fault) ↔ bytes.length % 8 ≠ 0 := by
  constructor
  · rintro ⟨fault, hfault⟩ hlength
    rw [ofBytes_of_length hlength] at hfault
    cases hfault
  · intro hlength
    exact ⟨_, if_neg hlength⟩

/-- Bytes and programs correspond to each other. A program of words in range has
bytes, eight for each word with the highest first, and they stand for it; bytes
that make whole words stand for a program, and it has these bytes. Nothing else
can be written or read. What the compiler gives can be written. -/
theorem bytes_correspond :
    (∀ p : Program, (∀ w ∈ p.code, InRange w) →
      ∃ bytes, p.toBytes = .ok bytes ∧ bytes.length = 8 * p.size ∧
        bytes = p.code.toList.flatMap wordBytes ∧
        ofBytes bytes p.name = .ok p) ∧
    (∀ w : Int, (wordBytes w).length = 8 ∧
      (ofBigEndian (wordBytes w) : Int) = w % Word.modulus) ∧
    (∀ (bytes : List UInt8) (name : String), bytes.length % 8 = 0 →
      ∃ p, ofBytes bytes name = .ok p ∧ p.name = name ∧ p.toBytes = .ok bytes) ∧
    (∀ p : Program, (∃ e, p.toBytes = .error e) ↔ ∃ w ∈ p.code, ¬ InRange w) ∧
    (∀ (bytes : List UInt8) (name : String),
      (∃ fault, ofBytes bytes name = .error fault) ↔ bytes.length % 8 ≠ 0) ∧
    (∀ (s : Source) (limit : Nat) (p : Program),
      (s.compileWithin limit).outcome = .ok p →
      p.size < Word.halfModulus → ∃ bytes, p.toBytes = .ok bytes) := by
  refine ⟨fun p hp => ?_, fun w =>
    ⟨length_wordBytes w, ofBigEndian_wordBytes w⟩,
    fun bytes name hlength => ?_, toBytes_eq_error_iff, ofBytes_eq_error_iff,
    fun s limit p hok hsize => ?_⟩
  · exact ⟨_, toBytes_of_inRange hp, length_flatMap_wordBytes _, rfl,
      ofBytes_flatMap_wordBytes hp⟩
  · refine ⟨_, ofBytes_of_length hlength name, rfl, ?_⟩
    rw [toBytes_of_inRange fun w hw =>
      inRange_of_mem_readWords (List.mem_toArray.mp hw),
      List.toList_toArray, flatMap_wordBytes_readWords hlength]
  · obtain ⟨t, -, -, rfl⟩ := Source.exists_tree_of_ok hok
    have hlength : t.program.length < Word.halfModulus := by
      simpa [size] using hsize
    exact ⟨_, toBytes_of_inRange fun w hw =>
      t.inRange_program hlength (List.mem_toArray.mp hw)⟩

end Program

end OnePass

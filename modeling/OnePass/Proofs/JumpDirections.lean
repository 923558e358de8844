import OnePass.Proofs.ListingLines
import OnePass.Proofs.WholeText

namespace OnePass

open ListingLine (ofEntry)

namespace Instruction

/-- The comment on an instruction at an offset. -/
def comment (offset : Nat) (i : Instruction) : String :=
  match i.target? with
  | none => ""
  | some target => if target ≤ offset then "loop" else "forward"

theorem comment_ofEntry (offset : Nat) (i : Instruction) :
    (ofEntry ⟨offset, i.opcode, i.operand⟩).comment = i.comment offset := by
  have hslot : ∀ v : Variable, Variable.ofSlot? v.val = some v := by
    intro v
    simp [Variable.ofSlot?]
  cases i with
  | fetch v | store v =>
      simp [ofEntry, opcode, operand, Opcode.operandKind,
        ListingLine.operandColumns, hslot, comment, target?]
  | jz t | jnz t | jmp t =>
      simp [ofEntry, opcode, operand, Opcode.operandKind,
        ListingLine.operandColumns, comment, target?]
  | _ => rfl

/-- The lines of a sequence of instructions that starts at the given offset. -/
def lines (base : Nat) (is : List Instruction) : List ListingLine :=
  (entries base is).map ofEntry

theorem listed_encode {size : Nat} {is : List Instruction}
    (hwrapped : Wrapped is)
    (htargets : ∀ i ∈ is, ∀ t, i.target? = some t → t < size) :
    listed size (encode is) = true := by
  induction is with
  | nil => rfl
  | cons i is ih =>
      obtain ⟨hpush, hwrapped⟩ := (wrapped_cons i is).mp hwrapped
      obtain ⟨htarget, htargets⟩ := List.forall_mem_cons.mp htargets
      have hrest := ih hwrapped htargets
      cases i with
      | fetch v | store v =>
          simp [words, opcode, operand, listed, Opcode.ofWord?_word,
            Opcode.operandKind, ListingLine.isListed,
            Text.isShort_slot v, hrest]
      | push n =>
          simp [words, opcode, operand, listed, Opcode.ofWord?_word,
            Opcode.operandKind, ListingLine.isListed,
            Text.isShort_of_inRange (hpush n rfl), hrest]
      | jz t | jnz t | jmp t =>
          simp [words, opcode, operand, listed, Opcode.ofWord?_word,
            Opcode.operandKind, ListingLine.isListed,
            isShown_of_lt (htarget t rfl), hrest]
      | pop | add | sub | lt | halt =>
          simp [words, opcode, operand, listed, Opcode.ofWord?_word,
            Opcode.operandKind, hrest]

theorem lines_append (base : Nat) (is js : List Instruction) :
    lines base (is ++ js) =
      lines base is ++ lines (base + (encode is).length) js := by
  induction is generalizing base with
  | nil => rfl
  | cons i is ih =>
      have hlines := ih (base + i.words.length)
      rw [Nat.add_assoc, ← List.length_append] at hlines
      exact congrArg (_ :: ·) hlines

theorem comment_of_mem_lines {base : Nat} {is : List Instruction}
    {line : ListingLine} (h : line ∈ lines base is) :
    line.comment = "loop" ∨ line.comment = "forward" ∨
      line.comment = "" ∧ ∀ op, line.opcode = some op → op.isJump = false := by
  obtain ⟨e, he, rfl⟩ := List.mem_map.mp h
  obtain ⟨i, -, hopcode, hoperand⟩ := exists_instruction_of_mem_entries he
  have hentry : e = ⟨e.offset, i.opcode, i.operand⟩ := by
    rw [← hopcode, ← hoperand]
  rw [hentry, comment_ofEntry, comment]
  split
  · rename_i htarget
    refine .inr (.inr ⟨rfl, fun op hop =>
      Bool.eq_false_iff.mpr fun hjump => ?_⟩)
    have hsame : i.opcode = op := by
      cases i <;> exact Option.some.inj hop
    obtain ⟨target, hsome, -⟩ := exists_target_of_isJump (hsame ▸ hjump)
    rw [htarget] at hsome
    cases hsome
  · split
    · exact .inl rfl
    · exact .inr (.inl rfl)

/-- The number of lines with a comment. -/
def countComment (text : String) (lines : List ListingLine) : Nat :=
  lines.countP fun line => line.comment = text

/-- Code whose conditional jumps have the right direction, with the number of
its jumps that go back and of those that go on. -/
structure Tally (base : Nat) (is : List Instruction) (back on : Nat) :
    Prop where
  directions : ∀ line ∈ lines base is,
    (line.opcode = some .jz → line.comment = "forward") ∧
    (line.opcode = some .jnz → line.comment = "loop")
  back : countComment "loop" (lines base is) = back
  on : countComment "forward" (lines base is) = on

namespace Tally

variable {base start target : Nat} {i : Instruction} {is js : List Instruction}
  {back on back' on' : Nat}

theorem append (his : Tally base is back on) (hjs : Tally start js back' on')
    (hstart : start = base + (encode is).length) :
    Tally base (is ++ js) (back + back') (on + on') := by
  subst hstart
  constructor
  · rw [lines_append, List.forall_mem_append]
    exact ⟨his.directions, hjs.directions⟩
  · rw [lines_append, countComment, List.countP_append, ← his.back, ← hjs.back]
    rfl
  · rw [lines_append, countComment, List.countP_append, ← his.on, ← hjs.on]
    rfl

theorem nil (base : Nat) : Tally base [] 0 0 :=
  ⟨by simp [lines, entries], rfl, rfl⟩

theorem singleton (hjz : i.opcode = .jz → i.comment base = "forward")
    (hjnz : i.opcode = .jnz → i.comment base = "loop") :
    Tally base [i] ([i.comment base].count "loop")
      ([i.comment base].count "forward") := by
  have hlines : lines base [i] = [ofEntry ⟨base, i.opcode, i.operand⟩] := rfl
  have hopcode : (ofEntry ⟨base, i.opcode, i.operand⟩).opcode =
      some i.opcode := by
    cases i <;> rfl
  constructor
  · rw [hlines, List.forall_mem_singleton, hopcode, comment_ofEntry]
    exact ⟨fun h => hjz (Option.some.inj h), fun h => hjnz (Option.some.inj h)⟩
  · simp [hlines, countComment, comment_ofEntry, List.count_singleton]
  · simp [hlines, countComment, comment_ofEntry, List.count_singleton]

theorem forward (htarget : i.target? = some target) (hop : i.opcode ≠ .jnz)
    (h : base < target) :
    Tally base [i] 0 1 := by
  have hcomment : i.comment base = "forward" := by
    simp only [comment, htarget]
    exact if_neg (Nat.not_le_of_lt h)
  have htally := singleton (fun _ => hcomment) (fun h => absurd h hop)
  rw [hcomment] at htally
  exact htally

theorem backward (htarget : i.target? = some target) (hop : i.opcode ≠ .jz)
    (h : target ≤ base) :
    Tally base [i] 1 0 := by
  have hcomment : i.comment base = "loop" := by
    simp only [comment, htarget]
    exact if_pos h
  have htally := singleton (fun h => absurd h hop) (fun _ => hcomment)
  rw [hcomment] at htally
  exact htally

theorem plain (htarget : i.target? = none) (base : Nat) :
    Tally base [i] 0 0 := by
  have hcomment : i.comment base = "" := by simp only [comment, htarget]
  have hjump : ∀ op, Opcode.isJump op = true → i.opcode ≠ op := by
    rintro op hop rfl
    obtain ⟨t, ht, -⟩ := exists_target_of_isJump hop
    rw [htarget] at ht
    cases ht
  have htally : Tally base [i] _ _ :=
    singleton (fun h => absurd h (hjump .jz rfl))
      (fun h => absurd h (hjump .jnz rfl))
  rw [hcomment] at htally
  exact htally

theorem straight (h : ∀ i ∈ is, i.target? = none) (base : Nat) :
    Tally base is 0 0 := by
  induction is generalizing base with
  | nil => exact .nil base
  | cons i is ih =>
      obtain ⟨hi, his⟩ := List.forall_mem_cons.mp h
      exact (plain hi base).append (ih his (base + (encode [i]).length)) rfl

theorem guarded {c : List Instruction} (hc : ∀ i ∈ c, i.target? = none)
    (his : Tally start is back on)
    (hstart : start = base + (encode c).length + 2) (htarget : start ≤ target) :
    Tally base (c ++ [.jz target] ++ is) back (1 + on) := by
  have hskip : Tally (base + (encode c).length) [.jz target] 0 1 :=
    .forward rfl (by simp [opcode]) (by omega)
  have hsize : start = base + (encode (c ++ [.jz target])).length := by
    simp [words, operand, hstart, Nat.add_assoc]
  have htally := ((straight hc base).append hskip rfl).append his hsize
  rw [Nat.zero_add, Nat.zero_add] at htally
  exact htally

end Tally

end Instruction

namespace Token

def isKeyword : Token → Bool
  | .ifWord | .elseWord | .whileWord | .doWord => true
  | _ => false

end Token

namespace Tree

open Instruction

mutual

theorem Term.isKeyword_eq_false :
    ∀ (x : Term), ∀ t ∈ x.tokens, t.isKeyword = false
  | .variable v => by simp [Term.tokens, Token.isKeyword]
  | .number n => by simp [Term.tokens, Token.isKeyword]
  | .group e => by
      simp only [Term.tokens, List.forall_mem_append, List.forall_mem_cons]
      exact ⟨⟨rfl, e.isKeyword_eq_false⟩, rfl, by simp⟩

theorem Sum.isKeyword_eq_false :
    ∀ (x : Sum), ∀ t ∈ x.tokens, t.isKeyword = false
  | .term x => x.isKeyword_eq_false
  | .add left right | .sub left right => by
      simp only [Sum.tokens, List.forall_mem_append, List.forall_mem_cons]
      exact ⟨left.isKeyword_eq_false, rfl, right.isKeyword_eq_false⟩

theorem Test.isKeyword_eq_false :
    ∀ (x : Test), ∀ t ∈ x.tokens, t.isKeyword = false
  | .sum x => x.isKeyword_eq_false
  | .less left right => by
      simp only [Test.tokens, List.forall_mem_append, List.forall_mem_cons]
      exact ⟨left.isKeyword_eq_false, rfl, right.isKeyword_eq_false⟩

theorem Expression.isKeyword_eq_false :
    ∀ (x : Expression), ∀ t ∈ x.tokens, t.isKeyword = false
  | .test x => x.isKeyword_eq_false
  | .assign v e => by
      simp only [Expression.tokens, List.forall_mem_cons]
      exact ⟨rfl, rfl, e.isKeyword_eq_false⟩

end

/-- The jumps of some code in terms of the keywords that it comes from. -/
def Mirrors (base : Nat) (is : List Instruction) (ts : List Token) : Prop :=
  ∃ on, Tally base is (ts.count .whileWord) on ∧
    on + ts.count .doWord =
      ts.count .ifWord + ts.count .elseWord + ts.count .whileWord

/-- Code without jumps, from tokens that are no keywords. -/
structure Jumpless (is : List Instruction) (ts : List Token) : Prop where
  targets : ∀ i ∈ is, i.target? = none
  keywords : ∀ t ∈ ts, t.isKeyword = false

theorem Jumpless.count_eq_zero {is : List Instruction} {ts : List Token}
    (h : Jumpless is ts) :
    ts.count .ifWord = 0 ∧ ts.count .elseWord = 0 ∧ ts.count .whileWord = 0 ∧
    ts.count .doWord = 0 := by
  have hzero : ∀ t, t.isKeyword = true → ts.count t = 0 := by
    intro t ht
    refine List.count_eq_zero.mpr fun hmem => ?_
    rw [h.keywords t hmem] at ht
    cases ht
  exact ⟨hzero _ rfl, hzero _ rfl, hzero _ rfl, hzero _ rfl⟩

theorem Expression.jumpless (e : Expression) :
    Jumpless e.instructions e.parenthesized :=
  ⟨fun i hi => (e.yields.straight i hi).2, (Term.group e).isKeyword_eq_false⟩

namespace Mirrors

variable {base start stop : Nat} {c body : List Instruction}
  {condition ts : List Token}

theorem of_tally {is : List Instruction} {back on : Nat}
    (h : Tally base is back on) (hback : back = ts.count .whileWord)
    (hon : on + ts.count .doWord =
      ts.count .ifWord + ts.count .elseWord + ts.count .whileWord) :
    Mirrors base is ts :=
  ⟨on, hback ▸ h, hon⟩

theorem ifThen (hc : Jumpless c condition) (hbody : Mirrors start body ts)
    (hstart : start = base + (encode c).length + 2)
    (hstop : stop = start + (encode body).length) :
    Mirrors base (c ++ [.jz stop] ++ body) (.ifWord :: condition ++ ts) := by
  obtain ⟨on, htally, hcount⟩ := hbody
  obtain ⟨hif, helse, hwhile, hdo⟩ := hc.count_eq_zero
  refine of_tally (htally.guarded hc.targets hstart (by omega)) ?_ ?_
  · simp [hwhile]
  · simp [hif, helse, hwhile, hdo]
    omega

theorem ifElse {second : List Instruction} {secondStart : Nat}
    {us : List Token} (hc : Jumpless c condition)
    (hbody : Mirrors start body ts) (hsecond : Mirrors secondStart second us)
    (hstart : start = base + (encode c).length + 2)
    (hsecondStart : secondStart = start + (encode body).length + 2)
    (hstop : stop = secondStart + (encode second).length) :
    Mirrors base (c ++ [.jz secondStart] ++ body ++ [.jmp stop] ++ second)
      (.ifWord :: condition ++ ts ++ .elseWord :: us) := by
  obtain ⟨on, htally, hcount⟩ := hbody
  obtain ⟨on', htally', hcount'⟩ := hsecond
  obtain ⟨hif, helse, hwhile, hdo⟩ := hc.count_eq_zero
  have hfirst : Tally base (c ++ [.jz secondStart] ++ body) _ _ :=
    htally.guarded hc.targets hstart (by omega)
  have hleave : Tally (start + (encode body).length) [.jmp stop] 0 1 :=
    .forward rfl (by simp [opcode]) (by omega)
  have hbodyEnd : start + (encode body).length =
      base + (encode (c ++ [.jz secondStart] ++ body)).length := by
    simp [words, operand, hstart]
    omega
  have hleaveEnd : secondStart =
      base + (encode
        (c ++ [.jz secondStart] ++ body ++ [.jmp stop])).length := by
    rw [encode_append, List.length_append, ← Nat.add_assoc, ← hbodyEnd]
    exact hsecondStart
  have hall := (hfirst.append hleave hbodyEnd).append htally' hleaveEnd
  refine of_tally hall ?_ ?_
  · simp [hwhile]
  · simp [hif, helse, hwhile, hdo]
    omega

theorem whileDo (hc : Jumpless c condition) (hbody : Mirrors start body ts)
    (hstart : start = base + (encode c).length + 2)
    (hstop : stop = start + (encode body).length + 2) :
    Mirrors base (c ++ [.jz stop] ++ body ++ [.jmp base])
      (.whileWord :: condition ++ ts) := by
  obtain ⟨on, htally, hcount⟩ := hbody
  obtain ⟨hif, helse, hwhile, hdo⟩ := hc.count_eq_zero
  have hfirst : Tally base (c ++ [.jz stop] ++ body) _ _ :=
    htally.guarded hc.targets hstart (by omega)
  have hrepeat :
      Tally (base + (encode (c ++ [.jz stop] ++ body)).length)
      [.jmp base] 1 0 :=
    .backward rfl (by simp [opcode]) (Nat.le_add_right _ _)
  refine of_tally (hfirst.append hrepeat rfl) ?_ ?_
  · simp [hwhile]
  · simp [hif, helse, hwhile, hdo]
    omega

theorem doWhile (hbody : Mirrors base body ts) (hc : Jumpless c condition) :
    Mirrors base (body ++ c ++ [.jnz base])
      (.doWord :: ts ++ .whileWord :: condition ++ [.semicolon]) := by
  obtain ⟨on, htally, hcount⟩ := hbody
  obtain ⟨hif, helse, hwhile, hdo⟩ := hc.count_eq_zero
  have hfirst :=
    htally.append (Tally.straight hc.targets (base + (encode body).length)) rfl
  have hrepeat : Tally (base + (encode (body ++ c)).length) [.jnz base] 1 0 :=
    .backward rfl (by simp [opcode]) (Nat.le_add_right _ _)
  refine of_tally (hfirst.append hrepeat rfl) ?_ ?_
  · simp [hwhile]
  · simp [hif, helse, hwhile, hdo]
    omega

theorem expression (hc : Jumpless c condition) (base : Nat) :
    Mirrors base (c ++ [.pop]) (condition ++ [.semicolon]) := by
  obtain ⟨hif, helse, hwhile, hdo⟩ := hc.count_eq_zero
  refine of_tally ((Tally.straight hc.targets base).append
    (Tally.plain rfl _) rfl) ?_ ?_
  · simp [hwhile]
  · simp [hif, helse, hwhile, hdo]

theorem append {second : List Instruction} {us : List Token}
    (hbody : Mirrors base body ts) (hsecond : Mirrors start second us)
    (hstart : start = base + (encode body).length) :
    Mirrors base (body ++ second) (ts ++ us) := by
  obtain ⟨on, htally, hcount⟩ := hbody
  obtain ⟨on', htally', hcount'⟩ := hsecond
  refine of_tally (htally.append htally' hstart) ?_ ?_
  · simp
  · simp
    omega

theorem braces (hbody : Mirrors base body ts) :
    Mirrors base body (.leftBrace :: ts ++ [.rightBrace]) := by
  obtain ⟨on, htally, hcount⟩ := hbody
  refine of_tally htally ?_ ?_
  · simp
  · simpa using hcount

end Mirrors

mutual

theorem Statement.mirrors : ∀ (s : Statement) (base : Nat),
    Mirrors base (s.instructions base) s.tokens
  | .ifThen c s, base => by
      rw [Statement.instructions, Statement.tokens]
      apply Mirrors.ifThen c.jumpless
      · exact s.mirrors _
      · rfl
      · rfl
  | .ifElse c s t, base => by
      rw [Statement.instructions, Statement.tokens]
      apply Mirrors.ifElse c.jumpless
      · exact s.mirrors _
      · exact t.mirrors _
      · rfl
      · rfl
      · rfl
  | .whileDo c s, base => by
      rw [Statement.instructions, Statement.tokens]
      apply Mirrors.whileDo c.jumpless
      · exact s.mirrors _
      · rfl
      · rfl
  | .doWhile s c, base => by
      have hbody := s.mirrors base
      rw [Statement.instructions, Statement.tokens]
      exact hbody.doWhile c.jumpless
  | .block b, base => by
      have hbody := b.mirrors base
      rw [Statement.instructions, Statement.tokens]
      exact hbody.braces
  | .expression e, base => by
      rw [Statement.instructions, Statement.tokens]
      apply Mirrors.expression
      constructor
      · exact e.jumpless.targets
      · exact e.isKeyword_eq_false
  | .empty, base => ⟨0, .nil base, rfl⟩

theorem Block.mirrors : ∀ (b : Block) (base : Nat),
    Mirrors base (b.instructions base) b.tokens
  | .nil, base => ⟨0, .nil base, rfl⟩
  | .cons s b, base => by
      have hfirst := s.mirrors base
      rw [Block.instructions, Block.tokens]
      apply hfirst.append
      · exact b.mirrors _
      · rfl

end

end Tree

namespace Source

open OnePass.Tree (Statement)
open Instruction (countComment)

/-- How often a token stands in the text. -/
def occurrences (s : Source) (t : Token) : Nat :=
  (s.start.tokens.1.map Lexeme.token).count t

theorem ReadsAs.occurrences_eq {s : Source} {tree : Statement}
    (h : s.ReadsAs tree) {t : Token} (ht : t ≠ .endOfInput) :
    s.occurrences t = tree.tokens.count t := by
  rw [occurrences, h.2.2, List.count_append, List.count_singleton, if_neg,
    Nat.add_zero]
  simpa using ht.symm

theorem listingLines_program (tree : Statement) (name : String) :
    Program.listingLines ⟨tree.program.toArray, name⟩ =
      .ok (Instruction.lines 0 tree.programInstructions) := by
  have hlisted : listed tree.program.length tree.program = true := by
    rw [tree.program_eq_encode]
    refine Instruction.listed_encode tree.wrapped_programInstructions
      fun i hi t ht => ?_
    rw [← tree.program_eq_encode]
    exact Statement.target_lt_length hi ht
  obtain ⟨lines, hlines⟩ : ∃ lines,
    Program.listingLines ⟨tree.program.toArray, name⟩ = .ok lines :=
    (exists_listWords_iff _ 0 _).mpr hlisted
  rw [hlines, Program.lines_of_instructions
    (tree.instructions_program name) hlines]
  rfl

/-- The directions of the jumps in a listing mirror the keywords of the text. -/
theorem jump_directions_mirror_keywords {s : Source} {limit : Nat}
    {program : Program} (hok : (s.compileWithin limit).outcome = .ok program) :
    ∃ lines, program.listingLines = .ok lines ∧
      (∀ line ∈ lines,
        (line.mnemonic ≠ "???" ∧ line.comment ≠ "truncated" ∧
          line.comment ≠ "bad variable slot") ∧
        (line.opcode = some .jz → line.comment = "forward") ∧
        (line.opcode = some .jnz → line.comment = "loop")) ∧
      countComment "loop" lines = s.occurrences .whileWord ∧
      countComment "forward" lines + s.occurrences .doWord =
        s.occurrences .ifWord + s.occurrences .elseWord +
          s.occurrences .whileWord ∧
      (s.occurrences .whileWord = 0 → ∀ line ∈ lines, ∀ op : Opcode,
        line.opcode = some op → op.isJump = true →
          line.comment = "forward") := by
  obtain ⟨tree, htree, -, rfl⟩ := exists_tree_of_ok hok
  obtain ⟨on, htally, hcount⟩ := tree.mirrors 0
  have hwhole := htally.append (Instruction.Tally.plain (i := .halt) rfl _) rfl
  have hloops :
      countComment "loop" (Instruction.lines 0 tree.programInstructions) =
      s.occurrences .whileWord := by
    rw [htree.occurrences_eq (by simp)]
    exact hwhole.back
  refine ⟨_, listingLines_program tree s.name, fun line hline =>
    ⟨⟨?_, ?_, ?_⟩, ?_⟩, hloops, ?_, ?_⟩
  · obtain ⟨e, -, rfl⟩ := List.mem_map.mp hline
    exact (ListingLine.ofEntry_intact e).1
  · obtain ⟨e, -, rfl⟩ := List.mem_map.mp hline
    exact (ListingLine.ofEntry_intact e).2
  · rcases Instruction.comment_of_mem_lines hline with h | h | ⟨h,
      -⟩ <;> rw [h] <;> decide
  · exact hwhole.directions line hline
  · rw [htree.occurrences_eq (by simp), htree.occurrences_eq (by simp),
      htree.occurrences_eq (by simp),
      htree.occurrences_eq (by simp), ← hcount]
    exact congrArg (· + _) hwhole.on
  · intro hnone line hline op hop hjump
    rw [hnone] at hloops
    rcases Instruction.comment_of_mem_lines hline with h | h | ⟨-, h⟩
    · exact absurd (decide_eq_true h) (List.countP_eq_zero.mp hloops line hline)
    · exact h
    · rw [h op hop] at hjump
      cases hjump

/-- Both kinds of loops around a condition, with nothing in the branches that
could be jumped over. -/
def turning : Source where
  text := "do if (a) ; else while (b) { } while (c);".toList

def turningProgram : Program where
  code := #[0, 0, 7, 6, 9, 12, 0, 1, 7, 12, 9, 6, 0, 2, 8, 0, 10]

theorem jump_directions_mirror_keywords_turning :
    turning.compile.outcome = .ok turningProgram ∧
      ∃ lines, turningProgram.listingLines = .ok lines ∧
        countComment "loop" lines = 2 ∧ countComment "forward" lines = 3 := by
  have hok : turning.compile.outcome = .ok turningProgram := by decide +kernel
  have hkeywords : turning.occurrences .ifWord = 1 ∧
      turning.occurrences .elseWord = 1 ∧
      turning.occurrences .whileWord = 2 ∧ turning.occurrences .doWord = 1 := by
        decide +kernel
  obtain ⟨lines, hlines, -, hloops, hforward, -⟩ :=
    jump_directions_mirror_keywords hok
  refine ⟨hok, lines, hlines, hloops.trans hkeywords.2.2.1, ?_⟩
  omega

end Source

end OnePass

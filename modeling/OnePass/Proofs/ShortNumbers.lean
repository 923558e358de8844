import OnePass.Compile.Error
import OnePass.Program

namespace OnePass

namespace Text

theorem decimal_of_isShort {n : Int} (h : isShort n = true) :
    decimal n = .ok s!"{n}" :=
  if_pos h

theorem decimal_of_not_isShort {n : Int} (h : isShort n = false) :
    decimal n = .error ⟨⟩ :=
  if_neg (Bool.eq_false_iff.mp h)

theorem exists_map_decimal_iff {α : Type} {f : String → α} {n : Int} :
    (∃ a, (decimal n).map f = .ok a) ↔ isShort n = true := by
  cases h : isShort n with
  | true => simp [decimal_of_isShort h, Except.map]
  | false => simp [decimal_of_not_isShort h, Except.map]

theorem isShort_of_natAbs_lt {n : Int} (h : n.natAbs < 100000000000000000000) :
    isShort n = true := by
  have hlength := (Nat.length_toDigits_le_iff (b := 10) (k := 20) (by decide)
    (by decide)).mpr (Nat.lt_of_lt_of_le h (by decide))
  rw [isShort, decide_eq_true_eq]
  exact Nat.le_trans hlength (by decide)

theorem isShort_of_inRange {n : Int} (h : Word.InRange n) :
    isShort n = true := by
  refine isShort_of_natAbs_lt ?_
  simp only [Word.InRange, Word.halfModulus] at h
  omega

theorem isShort_slot (v : Variable) : isShort v.val = true := by
  refine isShort_of_natAbs_lt ?_
  have hlt := v.isLt
  omega

theorem isShort_opcode (op : Opcode) : isShort op.word = true := by
  refine isShort_of_natAbs_lt ?_
  cases op <;> decide

/-- The least number that is too long to be written out. -/
@[irreducible]
def leastLong : Nat :=
  Nat.pow 10 digitLimit

theorem isShort_leastLong : isShort leastLong = false := by
  have hlength : ∀ k, 0 < k →
      ¬ (Nat.toDigits 10 (Nat.pow 10 k)).length ≤ k := by
    intro k hk
    rw [Nat.length_toDigits_le_iff (by decide) hk]
    exact Nat.lt_irrefl _
  rw [isShort, Int.natAbs_natCast, decide_eq_false_iff_not]
  unfold leastLong
  exact hlength digitLimit (by decide)

end Text

theorem Opcode.ofWord?_of_not_isShort {word : Int}
    (h : Text.isShort word = false) : ofWord? word = none := by
  cases hop : ofWord? word with
  | none => rfl
  | some op =>
      have hword : op.word = word := by simpa using List.find?_some hop
      rw [← hword, Text.isShort_opcode] at h
      cases h

theorem isShown_of_isShort {word : Int} (h : Text.isShort word = true)
    (size : Nat) :
    isShown size word = true := by
  rw [isShown, h, Bool.true_or]

theorem isShown_of_lt {size target : Nat} (h : target < size) :
    isShown size target = true := by
  simp [isShown, h]

theorem isShown_eq_isShort {size : Nat} {word : Int}
    (h : ¬ (0 ≤ word ∧ word < size)) :
    isShown size word = Text.isShort word := by
  have hrange : (decide (0 ≤ word) && decide (word < size)) = false := by
    rw [← Bool.decide_and, decide_eq_false h]
  rw [isShown, hrange, Bool.or_false]

theorem isShown_leastLong {size : Nat} (h : size ≤ Text.digitLimit) :
    isShown size Text.leastLong = false := by
  have hlt : ∀ k, k < Nat.pow 10 k := fun k => Nat.lt_pow_self (by decide)
  have hsize : size < Text.leastLong := by
    unfold Text.leastLong
    exact Nat.lt_of_le_of_lt h (hlt Text.digitLimit)
  rw [isShown_eq_isShort (by omega), Text.isShort_leastLong]

/-- The integers that the message of a flaw shows. -/
def Flaw.shown : Flaw → List Int
  | .strayTarget _ n | .invalidOpcode n => [n]
  | .slotOutOfRange n | .targetOutOfRange n => [n]
  | _ => []

theorem Flaw.exists_message_iff (flaw : Flaw) :
    (∃ text, flaw.message = .ok text) ↔
      flaw ≠ .operandTooLong ∧ ∀ n ∈ flaw.shown, Text.isShort n = true := by
  cases flaw with
  | strayTarget _ n | invalidOpcode n | slotOutOfRange n | targetOutOfRange n =>
      rw [message, Text.exists_map_decimal_iff]
      simp [shown]
  | operandTooLong => simp [message]
  | _ => simp [message, shown]

namespace CodeFault

theorem exists_report_iff (message : String) (offset : Option Int) :
    (∃ text, (report message offset >>= Diagnostic.render) = .ok text) ↔
      ∀ n, offset = some n → Text.isShort n = true := by
  cases offset with
  | none =>
      simp [report, Diagnostic.render, Diagnostic.heading, Except.map, bind,
        Except.bind]
  | some n =>
      cases hn : Text.isShort n with
      | true =>
          simp [report, Text.decimal_of_isShort hn, Diagnostic.render,
            Diagnostic.heading, Except.map, bind, Except.bind, hn]
      | false =>
          simp [report, Text.decimal_of_not_isShort hn, Except.map, bind,
            Except.bind, hn]

theorem exists_render_iff (f : CodeFault) :
    (∃ text, f.render = .ok text) ↔ f.flaw ≠ .operandTooLong ∧
      (∀ n ∈ f.flaw.shown, Text.isShort n = true) ∧
      ∀ n, f.offset = some n → Text.isShort n = true := by
  rw [← and_assoc, ← f.flaw.exists_message_iff]
  cases hmessage : f.flaw.message with
  | error e => simp [render, diagnostic, hmessage, bind, Except.bind]
  | ok message =>
      have hrender :
          f.render = (report message f.offset >>= Diagnostic.render) := by
        rw [render, diagnostic, hmessage]
        rfl
      rw [hrender, exists_report_iff]
      simp

theorem render_ne_ok {f : CodeFault} {n : Int} (hn : n ∈ f.flaw.shown)
    (h : Text.isShort n = false) (text : String) : f.render ≠ .ok text := by
  intro hrender
  have hshort := (f.exists_render_iff.mp ⟨text, hrender⟩).2.1 n hn
  rw [h] at hshort
  cases hshort

end CodeFault

theorem Location.exists_text_iff (l : Location) :
    (∃ text, l.text = .ok text) ↔
      Text.isShort l.position.line = true ∧
      Text.isShort l.position.column = true := by
  cases hline : Text.isShort l.position.line with
  | false => simp [text, Text.decimal_of_not_isShort hline, bind, Except.bind]
  | true =>
      cases hcolumn : Text.isShort l.position.column with
      | false =>
          simp [text, Text.decimal_of_isShort hline,
            Text.decimal_of_not_isShort hcolumn, bind, Except.bind]
      | true =>
          simp [text, Text.decimal_of_isShort hline,
            Text.decimal_of_isShort hcolumn, bind, Except.bind, pure,
            Except.pure]

theorem Diagnostic.exists_render_iff {d : Diagnostic} {l : Location}
    (h : d.location = some l) :
    (∃ text, d.render = .ok text) ↔
      Text.isShort l.position.line = true ∧
      Text.isShort l.position.column = true := by
  rw [← l.exists_text_iff]
  cases htext : l.text with
  | error e => simp [render, heading, h, htext, Except.map]
  | ok place => simp [render, heading, h, htext, Except.map]

theorem Token.exists_describe_iff (t : Token) :
    (∃ text, t.describe = .ok text) ↔ ∀ n, t = .number n →
      Text.isShort n = true := by
  cases t with
  | number n =>
      rw [describe, Text.exists_map_decimal_iff]
      simp
  | _ => simp [describe]

namespace CompileError

/-- The integers that the report of an error shows: those of the place, and a
number that was found. -/
def shown : CompileError → List Int
  | .lexical e => [e.position.line, e.position.column]
  | .unexpected _ ⟨.number n, position⟩ => [position.line, position.column, n]
  | .unexpected _ found | .tooDeep found =>
      [found.position.line, found.position.column]
  | .malformed fault => fault.flaw.shown ++ fault.offset.toList

theorem exists_render_lexical (s : Source) (e : LexError) :
    (∃ text, (lexical e).render s = .ok text) ↔
      Text.isShort e.position.line = true ∧
      Text.isShort e.position.column = true :=
  Diagnostic.exists_render_iff (d := e.diagnostic s) rfl

theorem exists_render_tooDeep (s : Source) (found : Lexeme) :
    (∃ text, (tooDeep found).render s = .ok text) ↔
      Text.isShort found.position.line = true ∧
      Text.isShort found.position.column = true :=
  Diagnostic.exists_render_iff (d := atLexeme s found _ _) rfl

theorem exists_render_unexpected (s : Source) (expected : Expectation)
    (found : Lexeme) :
    (∃ text, (unexpected expected found).render s = .ok text) ↔
      Text.isShort found.position.line = true ∧
      Text.isShort found.position.column = true ∧
        ∀ n, found.token = .number n → Text.isShort n = true := by
  rw [← and_assoc, ← found.token.exists_describe_iff]
  cases hdescribe : found.token.describe with
  | error e =>
      simp [render, diagnostic, hdescribe, Except.map, bind, Except.bind]
  | ok description =>
      have hrender : (unexpected expected found).render s = Diagnostic.render
          (atLexeme s found (Expectation.mismatch expected.text description)
            expected.hint?) := by
        rw [render, diagnostic, hdescribe]
        rfl
      rw [hrender, Diagnostic.exists_render_iff rfl]
      simp

theorem exists_render_iff (s : Source) {e : CompileError}
    (h : ∀ fault, e ≠ .malformed fault) :
    (∃ text, e.render s = .ok text) ↔ ∀ n ∈ e.shown, Text.isShort n = true := by
  cases e with
  | lexical e =>
      rw [exists_render_lexical]
      simp [shown]
  | unexpected expected found =>
      rw [exists_render_unexpected]
      rcases found with ⟨token, position⟩
      cases token with
      | number n => simp [shown]
      | _ => simp [shown]
  | tooDeep found =>
      rw [exists_render_tooDeep]
      simp [shown]
  | malformed fault => exact absurd rfl (h fault)

end CompileError

end OnePass

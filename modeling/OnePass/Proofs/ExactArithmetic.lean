import OnePass.Proofs.SessionBlock
import OnePass.Run

namespace OnePass

namespace Word

theorem wrap_eq_iff (n w : Int) :
    wrap n = w ↔ InRange w ∧ (modulus : Int) ∣ w - n := by
  rw [wrap, Int.bmod_eq_iff (by decide)]
  simp only [InRange, modulus, halfModulus]
  omega

theorem wrap_add_wrap (m n : Int) : wrap (wrap m + wrap n) = wrap (m + n) := by
  rw [wrap, wrap, wrap, wrap, Int.bmod_add_bmod, Int.add_bmod_bmod]

theorem wrap_sub_wrap (m n : Int) : wrap (wrap m - wrap n) = wrap (m - n) := by
  rw [wrap, wrap, wrap, wrap, Int.bmod_sub_bmod, Int.sub_bmod_bmod]

end Word

namespace Table

theorem value_map (f : Int → Int) (table : Table) (v : Variable) :
    Table.value (table.map f) v = f (table.value v) :=
  Vector.getElem_map f v.isLt

theorem map_assign (f : Int → Int) (table : Table) (v : Variable) (n : Int) :
    (table.assign v n).map f = Table.assign (table.map f) v (f n) :=
  Vector.map_set

end Table

/-- The keywords of conditions and loops, and the sign of comparisons. -/
def Token.decides : Token → Bool
  | .ifWord | .whileWord | .doWord | .less => true
  | _ => false

namespace Tree

/-- The tokens of code that takes one way only. -/
def Straight (ts : List Token) : Prop :=
  ∀ t ∈ ts, t.decides = false

theorem straight_append {front ts : List Token} :
    Straight (front ++ ts) ↔ Straight front ∧ Straight ts :=
  List.forall_mem_append

theorem straight_cons {t : Token} {ts : List Token} :
    Straight (t :: ts) ↔ t.decides = false ∧ Straight ts :=
  List.forall_mem_cons

/-- An evaluation from the words of a table gives the word of the exact value
and the words of the exact table. -/
def Commutes (eval : (Int → Int) → Table → Int × Table) : Prop :=
  ∀ table : Table, eval Word.wrap (table.map Word.wrap) =
    (Word.wrap (eval id table).1, (eval id table).2.map Word.wrap)

theorem Commutes.combine {left right : (Int → Int) → Table → Int × Table}
    {op : Int → Int → Int} (hleft : Commutes left) (hright : Commutes right)
    (hop : ∀ m n, Word.wrap (op (Word.wrap m) (Word.wrap n)) =
      Word.wrap (op m n)) :
    Commutes fun round table =>
      (round (op (left round table).1 (right round (left round table).2).1),
        (right round (left round table).2).2) := by
  intro table
  simp only [hleft table, hright (left id table).2, hop, id]

mutual

theorem Term.commutes :
    ∀ x : Term, Straight x.tokens → Commutes fun round => x.eval round
  | .variable v, _ => by
      intro table
      simp only [Term.eval, Table.value_map]
  | .number n, _ => by
      intro table
      simp only [Term.eval, id]
  | .group e, h => by
      rw [Term.tokens, straight_append, straight_cons] at h
      exact e.commutes h.1.2

theorem Sum.commutes :
    ∀ x : Sum, Straight x.tokens → Commutes fun round => x.eval round
  | .term x, h => x.commutes h
  | .add left right, h => by
      rw [Sum.tokens, straight_append, straight_cons] at h
      exact (left.commutes h.1).combine
        (right.commutes h.2.2) Word.wrap_add_wrap
  | .sub left right, h => by
      rw [Sum.tokens, straight_append, straight_cons] at h
      exact (left.commutes h.1).combine
        (right.commutes h.2.2) Word.wrap_sub_wrap

theorem Test.commutes :
    ∀ x : Test, Straight x.tokens → Commutes fun round => x.eval round
  | .sum x, h => x.commutes h
  | .less left right, h => by
      rw [Test.tokens, straight_append, straight_cons] at h
      exact absurd h.2.1 (by decide)

theorem Expression.commutes :
    ∀ x : Expression, Straight x.tokens → Commutes fun round => x.eval round
  | .test x, h => x.commutes h
  | .assign v x, h => by
      rw [Expression.tokens, straight_cons, straight_cons] at h
      intro table
      simp only [Expression.eval, x.commutes h.2.2 table, Table.map_assign]

end

/-- With exact arithmetic `v` is taken to `w` and to no other table, and with
words the words of `v` are taken to those of `w`. -/
def Determines (runs : (Int → Int) → Table → Table → Prop) (v w : Table) :
    Prop :=
  (∀ w', runs id v w' ↔ w' = w) ∧
    runs Word.wrap (v.map Word.wrap) (w.map Word.wrap)

mutual

theorem Statement.exists_determines : ∀ s : Statement, Straight s.tokens →
    ∀ v, ∃ w, Determines (fun round => s.Runs round) v w
  | .ifThen _ _, h, _ => absurd (h .ifWord List.mem_cons_self) (by decide)
  | .ifElse _ _ _, h, _ => absurd (h .ifWord List.mem_cons_self) (by decide)
  | .whileDo _ _, h, _ => absurd (h .whileWord List.mem_cons_self) (by decide)
  | .doWhile _ _, h, _ => absurd (h .doWord List.mem_cons_self) (by decide)
  | .block b, h, v => by
      rw [Statement.tokens, straight_append, straight_cons] at h
      obtain ⟨w, hexact, hwords⟩ := b.exists_determines h.1.2 v
      refine ⟨w, fun w' => ?_, .block hwords⟩
      rw [← hexact w']
      constructor
      · intro hruns
        cases hruns with
        | block hstatements => exact hstatements
      · exact .block
  | .expression e, h, v => by
      rw [Statement.tokens, straight_append] at h
      refine ⟨(e.eval id v).2, fun w' => ?_, ?_⟩
      · constructor
        · intro hruns
          cases hruns
          rfl
        · rintro rfl
          exact .expression
      · have hwords : (e.eval Word.wrap (v.map Word.wrap)).2 =
            (e.eval id v).2.map Word.wrap :=
          congrArg Prod.snd (e.commutes h.1 v)
        rw [← hwords]
        exact .expression
  | .empty, _, v => by
      refine ⟨v, fun w' => ?_, .empty⟩
      constructor
      · intro hruns
        cases hruns
        rfl
      · rintro rfl
        exact .empty

theorem Block.exists_determines : ∀ b : Block, Straight b.tokens →
    ∀ v, ∃ w, Determines (fun round => b.Runs round) v w
  | .nil, _, v => by
      refine ⟨v, fun w' => ?_, .nil⟩
      constructor
      · intro hruns
        cases hruns
        rfl
      · rintro rfl
        exact .nil
  | .cons s b, h, v => by
      rw [Block.tokens, straight_append] at h
      obtain ⟨u, hfirst, hfirstWords⟩ := s.exists_determines h.1 v
      obtain ⟨w, hothers, hothersWords⟩ := b.exists_determines h.2 u
      refine ⟨w, fun w' => ?_, .cons hfirstWords hothersWords⟩
      rw [← hothers w']
      constructor
      · intro hruns
        cases hruns with
        | @cons _ _ _ u' _ hs hb =>
            rw [← (hfirst u').mp hs]
            exact hb
      · exact .cons ((hfirst u).mpr rfl)

end

end Tree

namespace Source

open OnePass.Tree (Statement Straight)

/-- What the tree of a text ends with is what running the text gives, if enough
instructions are allowed. -/
theorem exists_run_of_runs {s : Source} {t : Statement}
    (hok : s.compile.outcome = .ok ⟨t.program.toArray, s.name⟩)
    {values : Vector Int 26} {w : Table}
    (hruns : t.Runs Word.wrap (values.map Word.wrap) w) (traces : Bool) :
    ∃ enough, ∀ fuel, enough ≤ fuel →
    (s.run (some values.toList) traces fuel).1 = .ok w := by
  obtain ⟨m, hnew, hwatcher, htable⟩ := Machine.exists_new values traces
  rw [← htable] at hruns
  obtain ⟨enough, hhalted, hfinal⟩ :=
    (Machine.halts_iff_runs hwatcher t s.name w).mp hruns
  refine ⟨enough, fun fuel hle => ?_⟩
  rw [compile] at hok
  simp only [run, runWithin, Program.run, hok, hnew,
    Machine.runProgram_of_halted hhalted hle]
  generalize m.runProgram ⟨t.program.toArray, s.name⟩ enough =
    result at hhalted hfinal ⊢
  rcases result with ⟨ending, final⟩
  subst hhalted hfinal
  rfl

theorem ReadsAs.straight {s : Source} {t : Statement} (h : s.ReadsAs t)
    (hstraight : ∀ l ∈ s.start.tokens.1, l.token.decides = false) :
    Straight t.tokens := by
  intro token htoken
  have hmem : token ∈ s.start.tokens.1.map Lexeme.token := by
    rw [h.2.2]
    exact List.mem_append_left _ htoken
  obtain ⟨l, hl, rfl⟩ := List.mem_map.mp hmem
  exact hstraight l hl

/-- Wrapping commutes with exact arithmetic. A text without conditions, loops
and comparisons has one exact result from integers of any size, and running it
from these integers gives the words of that result. -/
theorem wrapping_commutes_with_exact {s : Source} {program : Program}
    (hok : s.compile.outcome = .ok program)
    (hstraight : ∀ l ∈ s.start.tokens.1, l.token.decides = false) :
    (∀ n w, Word.wrap n = w ↔ Word.InRange w ∧ (Word.modulus : Int) ∣ w - n) ∧
    ∃ t : Statement, s.ReadsAs t ∧ (∀ u, s.ReadsAs u → u = t) ∧
      ∀ values : Vector Int 26, ∃ result : Table,
        (∀ w, t.Runs id values w ↔ w = result) ∧
        ∀ traces, ∃ enough, ∀ fuel, enough ≤ fuel →
          (s.run (some values.toList) traces fuel).1 =
            .ok (result.map Word.wrap) := by
  obtain ⟨t, htree, -, rfl⟩ := exists_tree_of_ok hok
  refine ⟨Word.wrap_eq_iff, t, htree, fun u hu => hu.unique htree,
    fun values => ?_⟩
  obtain ⟨w, hexact, hwords⟩ :=
    t.exists_determines (htree.straight hstraight) values
  exact ⟨w, hexact, exists_run_of_runs hok hwords⟩

/-- Assignments inside expressions, next to the greatest word and to a number
that is none. -/
def overflowing : Source where
  text :=
    "{ a = b = 9223372036854775807 + c; d = (b = 18446744073709551617) + a - b; }".toList

def overflowingProgram : Program where
  code :=
    #[2, 9223372036854775807, 0, 2, 4, 1, 1, 1, 0, 3, 2, 1, 1, 1, 0, 0, 4, 0, 1,
    5, 1, 3, 3, 10]

theorem wrapping_commutes_with_exact_overflowing :
    overflowing.compile.outcome = .ok overflowingProgram ∧
      (∀ l ∈ overflowing.start.tokens.1, l.token.decides = false) ∧
      ∃ t : Statement, overflowing.ReadsAs t ∧ ∀ values : Vector Int 26,
        ∃ result : Table,
        (∀ w, t.Runs id values w ↔ w = result) ∧
        ∀ traces, ∃ enough, ∀ fuel, enough ≤ fuel →
          (overflowing.run (some values.toList) traces fuel).1 =
            .ok (result.map Word.wrap) := by
  have hok : overflowing.compile.outcome = .ok overflowingProgram := by
    decide +kernel
  have hstraight : ∀ l ∈ overflowing.start.tokens.1,
      l.token.decides = false := by decide +kernel
  obtain ⟨-, t, htree, -, hruns⟩ := wrapping_commutes_with_exact hok hstraight
  exact ⟨hok, hstraight, t, htree, hruns⟩

end Source

end OnePass

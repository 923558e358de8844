import OnePass.Proofs.TreeReader
import OnePass.Proofs.TreeShape

namespace OnePass.Tree

/-- What is known of a statement that was read from `ts` up to `rest`. -/
structure Statement.IsRead (s : Statement) (ts rest : List Token)
    (depth : Nat) : Prop where
  tokens : ts = s.tokens ++ rest
  nearest : s.ElseNearest
  /-- An `else` that could belong to the statement would have been taken. -/
  noElse : s.isOpen = true → rest.headD .endOfInput ≠ .elseWord
  depth : s.depth ≤ depth

namespace Read

variable {α β : Type} {ts rest : List Token}

theorem bind_eq_ok {x : Read α} {f : α → Read β} {b : β} :
    (x >>= f) ts = .ok b rest ↔
      ∃ a middle, x ts = .ok a middle ∧ f a middle = .ok b rest := by
  change EStateM.bind x f ts = .ok b rest ↔ _
  unfold EStateM.bind
  cases hx : x ts with
  | ok a middle =>
      constructor
      · intro h
        exact ⟨a, middle, rfl, h⟩
      · rintro ⟨a', middle', heq, h⟩
        cases heq
        exact h
  | error obstacle middle =>
      constructor
      · nofun
      · rintro ⟨a', middle', heq, -⟩
        cases heq

theorem look_bind (f : Token → Read α) :
    (look >>= f) ts = f (ts.headD .endOfInput) ts :=
  rfl

theorem look_bind_eq_ok {f : Token → Read α} {a : α}
    (h : (look >>= f) ts = .ok a rest) :
    ∃ t, ts.headD .endOfInput = t ∧ f t ts = .ok a rest :=
  ⟨_, rfl, h⟩

theorem pure_eq_ok {a b : α} :
    (pure a : Read α) ts = .ok b rest ↔ a = b ∧ ts = rest := by
  change EStateM.Result.ok a ts = .ok b rest ↔ _
  simp

theorem refuse_ne_ok {expected : Expectation} {a : α} :
    refuse expected ts ≠ .ok a rest :=
  nofun

theorem tooDeep_ne_ok {a : α} : tooDeep ts ≠ .ok a rest :=
  nofun

theorem eq_cons_of_advance {u : Unit} (h : advance ts = .ok u rest) :
    ts = ts.headD .endOfInput :: rest := by
  cases ts with
  | nil => cases h
  | cons t later =>
      cases later with
      | nil => cases h
      | cons next later =>
          cases h
          rfl

theorem eq_cons_of_expect {t : Token} {u : Unit}
    (h : expect t ts = .ok u rest) :
    ts = t :: rest := by
  obtain ⟨next, hlook, h⟩ := look_bind_eq_ok h
  split at h
  · rename_i hlook
    subst next
    rw [← hlook]
    exact eq_cons_of_advance h
  · exact absurd h refuse_ne_ok

theorem termsWithin_sound {term : Read Term} {depth : Nat}
    (hterm : ∀ {ts rest : List Token} {t : Term}, term ts = .ok t rest →
      ts = t.tokens ++ rest ∧ t.depth ≤ depth) :
    ∀ {count : Nat} {left s : Sum} {ts rest : List Token},
      termsWithin term count left ts = .ok s rest →
        ∃ used, ts = used ++ rest ∧ left.Extends s used depth := by
  intro count
  induction count with
  | zero =>
      intro left s ts rest h
      obtain ⟨rfl, rfl⟩ := pure_eq_ok.mp h
      exact ⟨[], rfl, .refl left depth⟩
  | succ count ih =>
      intro left s ts rest h
      obtain ⟨next, hlook, h⟩ := look_bind_eq_ok h
      split at h
      · simp only [bind_eq_ok] at h
        obtain ⟨_, behind, hadvance, right, middle, hright, h⟩ := h
        obtain ⟨rfl, hdepth⟩ := hterm hright
        obtain ⟨used, rfl, hs⟩ := ih h
        refine ⟨_, ?_, (Sum.Extends.add left hdepth).trans hs⟩
        rw [eq_cons_of_advance hadvance, hlook]
        simp
      · simp only [bind_eq_ok] at h
        obtain ⟨_, behind, hadvance, right, middle, hright, h⟩ := h
        obtain ⟨rfl, hdepth⟩ := hterm hright
        obtain ⟨used, rfl, hs⟩ := ih h
        refine ⟨_, ?_, (Sum.Extends.sub left hdepth).trans hs⟩
        rw [eq_cons_of_advance hadvance, hlook]
        simp
      · obtain ⟨rfl, rfl⟩ := pure_eq_ok.mp h
        exact ⟨[], rfl, .refl left depth⟩

mutual

theorem term_sound (bound : Nat) :
    ∀ (depth : Nat) {ts rest : List Token} {t : Term},
      term bound depth ts = .ok t rest → ts = t.tokens ++ rest ∧ t.depth ≤ depth
  | 0, _, _, _, h => absurd h tooDeep_ne_ok
  | depth + 1, ts, rest, t, h => by
      rw [term] at h
      obtain ⟨next, hlook, h⟩ := look_bind_eq_ok h
      split at h
      · simp only [bind_eq_ok, pure_eq_ok] at h
        obtain ⟨_, behind, hadvance, rfl, rfl⟩ := h
        rw [eq_cons_of_advance hadvance, hlook]
        exact ⟨by simp [Term.tokens], by simp [Term.depth]⟩
      · simp only [bind_eq_ok, pure_eq_ok] at h
        obtain ⟨_, behind, hadvance, rfl, rfl⟩ := h
        rw [eq_cons_of_advance hadvance, hlook]
        exact ⟨by simp [Term.tokens], by simp [Term.depth]⟩
      · simp only [bind_eq_ok, pure_eq_ok] at h
        obtain ⟨e, behind, he, rfl, rfl⟩ := h
        obtain ⟨rfl, hdepth⟩ := parenthesized_sound bound depth he
        refine ⟨by simp [Term.tokens, Expression.parenthesized], ?_⟩
        simp only [Term.depth]
        omega
      · exact absurd h refuse_ne_ok

theorem sumTail_sound (bound : Nat) :
    ∀ (depth : Nat) {left s : Sum} {ts rest : List Token},
      sumTail bound depth left ts = .ok s rest →
      ∃ used, ts = used ++ rest ∧ left.Extends s used (depth - 1) ∧ 1 ≤ depth
  | 0, _, _, _, _, h => absurd h tooDeep_ne_ok
  | depth + 1, left, s, ts, rest, h => by
      rw [sumTail] at h
      obtain ⟨used, hts, hs⟩ := termsWithin_sound (term_sound bound depth) h
      exact ⟨used, hts, hs, by omega⟩

theorem sum_sound (bound : Nat) :
    ∀ (depth : Nat) {ts rest : List Token} {s : Sum},
      sum bound depth ts = .ok s rest → ts = s.tokens ++ rest ∧ s.depth ≤ depth
  | 0, _, _, _, h => absurd h tooDeep_ne_ok
  | depth + 1, ts, rest, s, h => by
      simp only [sum, bind_eq_ok] at h
      obtain ⟨first, middle, hfirst, h⟩ := h
      obtain ⟨rfl, hhead⟩ := term_sound bound depth hfirst
      obtain ⟨used, rfl, hs, hdepth⟩ := sumTail_sound bound depth h
      have htail := hs.tailDepth
      refine ⟨by simp [hs.tokens, Sum.tokens], ?_⟩
      simp only [Sum.tailDepth] at htail
      simp only [Sum.depth, Sum.headDepth_eq, hs.head, Sum.head]
      omega

theorem testTail_sound (bound : Nat) :
    ∀ (depth : Nat) {left : Sum} {ts rest : List Token} {t : Test},
      testTail bound depth left ts = .ok t rest →
      ts = t.tailTokens ++ rest ∧ t.left = left ∧ t.tailDepth ≤ depth
  | 0, _, _, _, _, h => absurd h tooDeep_ne_ok
  | depth + 1, left, ts, rest, t, h => by
      rw [testTail] at h
      obtain ⟨next, hlook, h⟩ := look_bind_eq_ok h
      split at h
      · rename_i hnext
        simp only [bind_eq_ok, pure_eq_ok] at h
        obtain ⟨_, behind, hadvance, right, middle, hright, rfl, rfl⟩ := h
        obtain ⟨rfl, hdepth⟩ := sum_sound bound depth hright
        rw [eq_cons_of_advance hadvance, hlook, hnext]
        refine ⟨by simp [Test.tailTokens], rfl, ?_⟩
        simp only [Test.tailDepth]
        omega
      · obtain ⟨rfl, rfl⟩ := pure_eq_ok.mp h
        exact ⟨by simp [Test.tailTokens], rfl, by simp [Test.tailDepth]⟩

theorem test_sound (bound : Nat) :
    ∀ (depth : Nat) {ts rest : List Token} {t : Test},
      test bound depth ts = .ok t rest →
      ts = t.tokens ++ rest ∧ 1 + max t.left.depth t.tailDepth ≤ depth
  | 0, _, _, _, h => absurd h tooDeep_ne_ok
  | depth + 1, ts, rest, t, h => by
      simp only [test, bind_eq_ok] at h
      obtain ⟨left, middle, hleft, h⟩ := h
      obtain ⟨rfl, hdepth⟩ := sum_sound bound depth hleft
      obtain ⟨rfl, rfl, htail⟩ := testTail_sound bound depth h
      exact ⟨by simp [Test.tokens_eq_left_append], by omega⟩

theorem expression_sound (bound : Nat) :
    ∀ (depth : Nat) {ts rest : List Token} {e : Expression},
      expression bound depth ts = .ok e rest →
      ts = e.tokens ++ rest ∧ e.depth ≤ depth
  | 0, _, _, _, h => absurd h tooDeep_ne_ok
  | depth + 1, ts, rest, e, h => by
      rw [expression] at h
      obtain ⟨next, hlook, h⟩ := look_bind_eq_ok h
      split at h
      · rename_i v
        obtain ⟨_, behind, hadvance, h⟩ := bind_eq_ok.mp h
        rw [eq_cons_of_advance hadvance, hlook]
        obtain ⟨next, hnext, h⟩ := look_bind_eq_ok h
        split at h
        · rename_i hassign
          simp only [bind_eq_ok, pure_eq_ok] at h
          obtain ⟨_, middle, hadvance', e', last, he, rfl, rfl⟩ := h
          obtain ⟨rfl, hdepth⟩ := expression_sound bound depth he
          rw [eq_cons_of_advance hadvance', hnext, hassign]
          refine ⟨by simp [Expression.tokens], ?_⟩
          simp only [Expression.depth]
          omega
        · simp only [bind_eq_ok, pure_eq_ok] at h
          obtain ⟨left, middle, hleft, t, last, ht, rfl, rfl⟩ := h
          obtain ⟨used, rfl, hextends, hdepth⟩ :=
            sumTail_sound bound depth hleft
          obtain ⟨rfl, rfl, htail⟩ := testTail_sound bound depth ht
          have hleftDepth := hextends.tailDepth
          simp only [Sum.tailDepth] at hleftDepth
          refine ⟨?_, ?_⟩
          · simp [Expression.tokens, Test.tokens_eq_left_append,
              hextends.tokens, Sum.tokens, Term.tokens]
          · rw [Expression.depth, Test.depth_of_variable hextends.head]
            omega
      · rename_i hvariable
        simp only [bind_eq_ok, pure_eq_ok] at h
        obtain ⟨t, last, ht, rfl, rfl⟩ := h
        obtain ⟨rfl, hdepth⟩ := test_sound bound depth ht
        have hhead : ∀ v, t.left.head ≠ .variable v := by
          intro v hv
          apply hvariable v
          rw [← hlook, t.tokens_eq_left_append,
            t.left.tokens_eq_head_append, hv]
          rfl
        refine ⟨by simp [Expression.tokens], ?_⟩
        rw [Expression.depth, Test.depth_of_ne_variable hhead]
        omega

theorem parenthesized_sound (bound : Nat) :
    ∀ (depth : Nat) {ts rest : List Token} {e : Expression},
      parenthesized bound depth ts = .ok e rest →
      ts = e.parenthesized ++ rest ∧ 1 + e.depth ≤ depth
  | 0, _, _, _, h => absurd h tooDeep_ne_ok
  | depth + 1, ts, rest, e, h => by
      simp only [parenthesized, bind_eq_ok, pure_eq_ok] at h
      obtain ⟨_, behind, hopen, e', middle, he, _, last, hclose, rfl, rfl⟩ := h
      obtain ⟨rfl, hdepth⟩ := expression_sound bound depth he
      refine ⟨?_, by omega⟩
      rw [eq_cons_of_expect hopen, eq_cons_of_expect hclose]
      simp [Expression.parenthesized]

end

theorem statementsWithin_sound {statement : Read Statement} {depth : Nat}
    (hstatement : ∀ {ts rest : List Token} {s : Statement},
      statement ts = .ok s rest → s.IsRead ts rest depth) :
    ∀ {count : Nat} {b : Block} {ts rest : List Token},
      statementsWithin statement count ts = .ok b rest →
        ts = b.tokens ++ rest ∧ b.ElseNearest ∧ b.depth ≤ depth := by
  intro count
  induction count with
  | zero =>
      intro b ts rest h
      obtain ⟨rfl, rfl⟩ := pure_eq_ok.mp h
      exact ⟨by simp [Block.tokens], by simp [Block.ElseNearest], by simp [Block.depth]⟩
  | succ count ih =>
      intro b ts rest h
      obtain ⟨next, -, h⟩ := look_bind_eq_ok h
      split at h
      · obtain ⟨rfl, rfl⟩ := pure_eq_ok.mp h
        exact ⟨by simp [Block.tokens], by simp [Block.ElseNearest], by simp [Block.depth]⟩
      · exact absurd h refuse_ne_ok
      · simp only [bind_eq_ok, pure_eq_ok] at h
        obtain ⟨first, middle, hfirst, b', last, hrest, rfl, rfl⟩ := h
        have hread := hstatement hfirst
        obtain ⟨rfl, hnearest, hdepth⟩ := ih hrest
        refine ⟨by simp [Block.tokens, hread.tokens],
          ⟨hread.nearest, hnearest⟩, ?_⟩
        have hfirstDepth := hread.depth
        simp only [Block.depth]
        omega

mutual

theorem statement_sound (bound : Nat) :
    ∀ (depth : Nat) {ts rest : List Token} {s : Statement},
      statement bound depth ts = .ok s rest → s.IsRead ts rest depth
  | 0, _, _, _, h => absurd h tooDeep_ne_ok
  | depth + 1, ts, rest, s, h => by
      rw [statement] at h
      obtain ⟨next, hlook, h⟩ := look_bind_eq_ok h
      split at h
      · exact ifStatement_sound bound depth hlook h
      · exact whileStatement_sound bound depth hlook h
      · exact doStatement_sound bound depth hlook h
      · exact block_sound bound depth hlook h
      · simp only [bind_eq_ok, pure_eq_ok] at h
        obtain ⟨_, behind, hadvance, rfl, rfl⟩ := h
        refine ⟨?_, trivial, by simp [Statement.isOpen], by simp [Statement.depth]⟩
        rw [eq_cons_of_advance hadvance, hlook]
        simp [Statement.tokens]
      · simp only [bind_eq_ok, pure_eq_ok] at h
        obtain ⟨e, middle, he, _, behind, hsemicolon, rfl, rfl⟩ := h
        obtain ⟨rfl, hdepth⟩ := expression_sound bound depth he
        refine ⟨?_, trivial, by simp [Statement.isOpen], ?_⟩
        · rw [eq_cons_of_expect hsemicolon]
          simp [Statement.tokens]
        · simp only [Statement.depth]
          omega

theorem ifStatement_sound (bound : Nat) :
    ∀ (depth : Nat) {ts rest : List Token} {s : Statement},
      ts.headD .endOfInput = .ifWord → ifStatement bound depth ts = .ok s rest →
      s.IsRead ts rest (depth + 1)
  | 0, _, _, _, _, h => absurd h tooDeep_ne_ok
  | depth + 1, ts, rest, s, hlook, h => by
      rw [ifStatement] at h
      obtain ⟨_, behind, hadvance, h⟩ := bind_eq_ok.mp h
      obtain ⟨c, middle, hc, h⟩ := bind_eq_ok.mp h
      obtain ⟨first, last, hfirst, h⟩ := bind_eq_ok.mp h
      obtain ⟨next, hnext, h⟩ := look_bind_eq_ok h
      obtain ⟨hbehind, hcDepth⟩ := parenthesized_sound bound depth hc
      have hread := statement_sound bound depth hfirst
      have hfirstDepth := hread.depth
      split at h
      · rename_i helse
        simp only [bind_eq_ok, pure_eq_ok] at h
        obtain ⟨_, behindElse, hadvance', second, end_, hsecond, rfl, rfl⟩ := h
        have hread' := statement_sound bound depth hsecond
        have hsecondDepth := hread'.depth
        have hclosed : first.isOpen = false := by
          cases hopen : first.isOpen with
          | false => rfl
          | true => exact absurd (hnext.trans helse) (hread.noElse hopen)
        refine ⟨?_, ⟨hclosed, hread.nearest, hread'.nearest⟩, ?_, ?_⟩
        · rw [eq_cons_of_advance hadvance, hlook, hbehind, hread.tokens,
            eq_cons_of_advance hadvance', hnext, helse, hread'.tokens]
          simp [Statement.tokens]
        · simpa [Statement.isOpen] using hread'.noElse
        · simp only [Statement.depth]
          omega
      · rename_i helse
        obtain ⟨rfl, rfl⟩ := pure_eq_ok.mp h
        refine ⟨?_, hread.nearest, ?_, ?_⟩
        · rw [eq_cons_of_advance hadvance, hlook, hbehind, hread.tokens]
          simp [Statement.tokens]
        · intro _
          rw [hnext]
          exact helse
        · simp only [Statement.depth]
          omega

theorem whileStatement_sound (bound : Nat) :
    ∀ (depth : Nat) {ts rest : List Token} {s : Statement},
      ts.headD .endOfInput = .whileWord →
      whileStatement bound depth ts = .ok s rest →
        s.IsRead ts rest (depth + 1)
  | 0, _, _, _, _, h => absurd h tooDeep_ne_ok
  | depth + 1, ts, rest, s, hlook, h => by
      simp only [whileStatement, bind_eq_ok, pure_eq_ok] at h
      obtain ⟨_, behind, hadvance, c, middle, hc, body, last, hbody, rfl,
        rfl⟩ := h
      obtain ⟨rfl, hcDepth⟩ := parenthesized_sound bound depth hc
      have hread := statement_sound bound depth hbody
      have hbodyDepth := hread.depth
      refine ⟨?_, hread.nearest, by simpa [Statement.isOpen] using hread.noElse,
        ?_⟩
      · rw [eq_cons_of_advance hadvance, hlook, hread.tokens]
        simp [Statement.tokens]
      · simp only [Statement.depth]
        omega

theorem doStatement_sound (bound : Nat) :
    ∀ (depth : Nat) {ts rest : List Token} {s : Statement},
      ts.headD .endOfInput = .doWord → doStatement bound depth ts = .ok s rest →
        s.IsRead ts rest (depth + 1)
  | 0, _, _, _, _, h => absurd h tooDeep_ne_ok
  | depth + 1, ts, rest, s, hlook, h => by
      rw [doStatement] at h
      obtain ⟨_, behind, hadvance, h⟩ := bind_eq_ok.mp h
      obtain ⟨body, middle, hbody, h⟩ := bind_eq_ok.mp h
      obtain ⟨next, hnext, h⟩ := look_bind_eq_ok h
      have hread := statement_sound bound depth hbody
      have hbodyDepth := hread.depth
      split at h
      · rename_i hwhile
        simp only [bind_eq_ok, pure_eq_ok] at h
        obtain ⟨_, behindWhile, hadvance', c, last, hc, _, end_, hsemicolon,
          rfl, rfl⟩ := h
        obtain ⟨rfl, hcDepth⟩ := parenthesized_sound bound depth hc
        refine ⟨?_, hread.nearest, by simp [Statement.isOpen], ?_⟩
        · rw [eq_cons_of_advance hadvance, hlook, hread.tokens,
            eq_cons_of_advance hadvance', hnext, hwhile,
            eq_cons_of_expect hsemicolon]
          simp [Statement.tokens]
        · simp only [Statement.depth]
          omega
      · obtain ⟨_, _, hrefuse, -⟩ := bind_eq_ok.mp h
        exact absurd hrefuse refuse_ne_ok

theorem block_sound (bound : Nat) :
    ∀ (depth : Nat) {ts rest : List Token} {s : Statement},
      ts.headD .endOfInput = .leftBrace → block bound depth ts = .ok s rest →
      s.IsRead ts rest (depth + 1)
  | 0, _, _, _, _, h => absurd h tooDeep_ne_ok
  | depth + 1, ts, rest, s, hlook, h => by
      simp only [block, bind_eq_ok, pure_eq_ok] at h
      obtain ⟨_, behind, hadvance, b, middle, hb, _, last, hbrace, rfl,
        rfl⟩ := h
      obtain ⟨rfl, hnearest, hdepth⟩ :=
        statementsWithin_sound (statement_sound bound depth) hb
      refine ⟨?_, hnearest, by simp [Statement.isOpen], ?_⟩
      · rw [eq_cons_of_advance hadvance, hlook, eq_cons_of_expect hbrace]
        simp [Statement.tokens]
      · simp only [Statement.depth]
        omega

end

theorem program_sound {bound depth : Nat} {s : Statement}
    (h : program bound depth ts = .ok s rest) :
    s.IsRead ts rest depth ∧ rest.headD .endOfInput = .endOfInput := by
  obtain ⟨s', middle, hs, h⟩ := bind_eq_ok.mp h
  obtain ⟨next, hnext, h⟩ := look_bind_eq_ok h
  split at h
  · rename_i hend
    obtain ⟨rfl, rfl⟩ := pure_eq_ok.mp h
    exact ⟨statement_sound bound depth hs, hnext.trans hend⟩
  · exact absurd h refuse_ne_ok

end Read

end OnePass.Tree

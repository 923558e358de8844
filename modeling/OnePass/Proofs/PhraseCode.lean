import OnePass.Proofs.Emission

namespace OnePass.Phrase

open OnePass.Tree (Read)
open Emitter

variable {b : Builder}

theorem termsWithin_tracks {term : Emit Unit} {readTerm : Read Tree.Term}
    (hterm : ∀ b, Tracks (fun _ => True) b term readTerm fun x _ b' =>
      b' = b.append x.code) :
    ∀ (count : Nat) (left : Tree.Sum) (b : Builder),
      Tracks (fun _ => True) b (termsWithin pass term count)
        (Read.termsWithin readTerm count left)
        fun s _ b' =>
          ∃ code, s.code = left.code ++ code ∧ b' = b.append code := by
  intro count
  induction count with
  | zero =>
      intro left b
      exact .pure ⟨[], by simp, by simp⟩
  | succ count ih =>
      intro left b
      rw [termsWithin, Read.termsWithin]
      refine .look fun t _ => ?_
      cases t
      case plus =>
        refine .advance_bind (by simp) ?_
        refine .bind (hterm b) ?_
        rintro right _ _ rfl
        refine .appends_bind (appends_emit rfl _)
          (.conseq (ih (.add left right) _) ?_)
        rintro s _ _ ⟨code, hs, rfl⟩
        refine ⟨right.code ++ [Opcode.add.word] ++ code, ?_, by simp⟩
        simp [hs, Tree.Sum.code]
      case minus =>
        refine .advance_bind (by simp) ?_
        refine .bind (hterm b) ?_
        rintro right _ _ rfl
        refine .appends_bind (appends_emit rfl _)
          (.conseq (ih (.sub left right) _) ?_)
        rintro s _ _ ⟨code, hs, rfl⟩
        refine ⟨right.code ++ [Opcode.sub.word] ++ code, ?_, by simp⟩
        simp [hs, Tree.Sum.code]
      all_goals exact .pure ⟨[], by simp, by simp⟩

mutual

theorem term_tracks (bound : Nat) : ∀ (depth : Nat) (b : Builder),
    Tracks (fun _ => True) b (compileWithin bound depth .term)
      (Read.term bound depth)
      fun x _ b' => b' = b.append x.code
  | 0, _ => .tooDeep
  | depth + 1, b => by
      rw [compileWithin, body, Read.term]
      refine .look fun t _ => ?_
      cases t
      case «variable» v =>
        refine .advance_bind (by simp) ?_
        refine .appends (appends_emitWith (by decide) b _) ?_
        simp [Tree.Term.code, Builder.operandWord, Opcode.operandKind]
      case number n =>
        refine .advance_bind (by simp) ?_
        refine .appends (appends_emitWith (by decide) b _) ?_
        simp [Tree.Term.code, Builder.operandWord, Opcode.operandKind]
      case leftParen =>
        refine .map ((parenthesized_tracks bound depth b).weaken (by simp)) ?_
        rintro e _ _ rfl
        simp [Tree.Term.code]
      all_goals exact .refuse nofun

theorem sumTail_tracks (bound : Nat) :
    ∀ (depth : Nat) (left : Tree.Sum) (b : Builder),
      Tracks (fun _ => True) b (compileWithin bound depth .sumTail)
        (Read.sumTail bound depth left)
      fun s _ b' => ∃ code, s.code = left.code ++ code ∧ b' = b.append code
  | 0, _, _ => .tooDeep
  | depth + 1, left, b =>
      termsWithin_tracks (term_tracks bound depth) bound left b

theorem sum_tracks (bound : Nat) : ∀ (depth : Nat) (b : Builder),
    Tracks (fun _ => True) b (compileWithin bound depth .sum)
      (Read.sum bound depth)
      fun s _ b' => b' = b.append s.code
  | 0, _ => .tooDeep
  | depth + 1, b => by
      rw [compileWithin, body, Read.sum]
      refine .bind (term_tracks bound depth b) ?_
      rintro first _ _ rfl
      refine .conseq (sumTail_tracks bound depth (.term first) _) ?_
      rintro s _ _ ⟨code, hs, rfl⟩
      simp [hs, Tree.Sum.code]

theorem testTail_tracks (bound : Nat) :
    ∀ (depth : Nat) (left : Tree.Sum) (b : Builder),
      Tracks (fun _ => True) b (compileWithin bound depth .testTail)
        (Read.testTail bound depth left)
      fun t _ b' => ∃ code, t.code = left.code ++ code ∧ b' = b.append code
  | 0, _, _ => .tooDeep
  | depth + 1, left, b => by
      rw [compileWithin, body, Read.testTail]
      refine .look fun t _ => ?_
      by_cases hless : t = .less
      · rw [if_pos hless, if_pos hless]
        refine .advance_bind (by simp [hless]) ?_
        refine .bind (sum_tracks bound depth b) ?_
        rintro right _ _ rfl
        refine .appends (appends_emit rfl _) ⟨right.code ++ [Opcode.lt.word],
          ?_, by simp⟩
        simp [Tree.Test.code]
      · rw [if_neg hless, if_neg hless]
        exact .pure ⟨[], by simp [Tree.Test.code], by simp⟩

theorem test_tracks (bound : Nat) : ∀ (depth : Nat) (b : Builder),
    Tracks (fun _ => True) b (compileWithin bound depth .test)
      (Read.test bound depth)
      fun t _ b' => b' = b.append t.code
  | 0, _ => .tooDeep
  | depth + 1, b => by
      rw [compileWithin, body, Read.test]
      refine .bind (sum_tracks bound depth b) ?_
      rintro left _ _ rfl
      refine .conseq (testTail_tracks bound depth left _) ?_
      rintro t _ _ ⟨code, ht, rfl⟩
      simp [ht]

theorem expression_tracks (bound : Nat) : ∀ (depth : Nat) (b : Builder),
    Tracks (fun _ => True) b (compileWithin bound depth .expression)
      (Read.expression bound depth)
      fun e _ b' => b' = b.append e.code
  | 0, _ => .tooDeep
  | depth + 1, b => by
      rw [compileWithin, body, Read.expression]
      refine .look fun t _ => ?_
      cases t
      case «variable» v =>
        refine .advance_bind (by simp) ?_
        refine .look fun next _ => ?_
        by_cases hassign : next = .assign
        · rw [if_pos hassign, if_pos hassign]
          refine .advance_bind (by simp [hassign]) ?_
          refine .bind (expression_tracks bound depth b) ?_
          rintro e _ _ rfl
          refine .appends (appends_emitWith (by decide) _ _) ?_
          simp [Tree.Expression.code, Builder.operandWord, Opcode.operandKind]
        · rw [if_neg hassign, if_neg hassign]
          refine .appends_bind (appends_emitWith (by decide) b _) ?_
          refine .bind ((sumTail_tracks bound depth
            (.term (.variable v)) _).weaken (by simp)) ?_
          rintro left _ _ ⟨code, hleft, rfl⟩
          refine .map (testTail_tracks bound depth left _) ?_
          rintro t _ _ ⟨code', ht, rfl⟩
          simp [Tree.Expression.code, ht, hleft, Tree.Sum.code, Tree.Term.code,
            Builder.operandWord, Opcode.operandKind]
      all_goals
        refine .map ((test_tracks bound depth b).weaken (by simp)) ?_
        rintro t _ _ rfl
        simp [Tree.Expression.code]

theorem parenthesized_tracks (bound : Nat) : ∀ (depth : Nat) (b : Builder),
    Tracks (fun _ => True) b (compileWithin bound depth .parenthesized)
      (Read.parenthesized bound depth) fun e _ b' => b' = b.append e.code
  | 0, _ => .tooDeep
  | depth + 1, b => by
      rw [compileWithin, body, Read.parenthesized]
      refine .expect_bind (.inr ⟨_, rfl, rfl⟩) ?_
      refine .bind (expression_tracks bound depth b) ?_
      rintro e _ _ rfl
      refine .map (.expect (.inr ⟨_, rfl, rfl⟩)) ?_
      rintro _ _ _ rfl
      rfl

end

theorem statementsWithin_tracks {statement : Emit Unit}
    {readStatement : Read Tree.Statement}
    (hstatement : ∀ b,
      Tracks (fun _ => True) b statement readStatement fun s _ b' =>
      b' = b.append (s.code b.here)) :
    ∀ (count : Nat) (b : Builder),
      Tracks (fun _ => True) b (statementsWithin pass statement count)
        (Read.statementsWithin readStatement count)
        fun block _ b' => b' = b.append (block.code b.here) := by
  intro count
  induction count with
  | zero =>
      intro b
      exact .pure (by simp [Tree.Block.code])
  | succ count ih =>
      intro b
      rw [statementsWithin, Read.statementsWithin]
      refine .look fun t _ => ?_
      cases t
      case rightBrace => exact .pure (by simp [Tree.Block.code])
      case endOfInput =>
        exact .refuse (by rintro _ ⟨⟩; exact .inr ⟨_, rfl, rfl⟩)
      all_goals
        refine .bind ((hstatement b).weaken (by simp)) ?_
        rintro first _ _ rfl
        refine .map (ih _) ?_
        rintro rest _ _ rfl
        simp [Tree.Block.code]

mutual

theorem statement_tracks (bound : Nat) : ∀ (depth : Nat) (b : Builder),
    Tracks (fun _ => True) b (compileWithin bound depth .statement)
      (Read.statement bound depth)
      fun s _ b' => b' = b.append (s.code b.here)
  | 0, _ => .tooDeep
  | depth + 1, b => by
      rw [compileWithin, body, Read.statement]
      refine .look fun t _ => ?_
      cases t
      case ifWord => exact (ifStatement_tracks bound depth b).weaken (by simp)
      case whileWord =>
        exact (whileStatement_tracks bound depth b).weaken (by simp)
      case doWord => exact (doStatement_tracks bound depth b).weaken (by simp)
      case leftBrace => exact (block_tracks bound depth b).weaken (by simp)
      case semicolon =>
        refine .map (.advance (by simp)) ?_
        rintro _ _ _ rfl
        simp [Tree.Statement.code]
      all_goals
        refine .bind ((expression_tracks bound depth b).weaken (by simp)) ?_
        rintro e _ _ rfl
        refine .expect_bind (.inr ⟨_, rfl, rfl⟩) ?_
        exact .appends (appends_emit rfl _) (by simp [Tree.Statement.code])

theorem ifStatement_tracks (bound : Nat) : ∀ (depth : Nat) (b : Builder),
    Tracks (· ≠ .endOfInput) b (compileWithin bound depth .ifStatement)
      (Read.ifStatement bound depth) fun s _ b' => b' = b.append (s.code b.here)
  | 0, _ => .tooDeep
  | depth + 1, b => by
      rw [compileWithin, body, Read.ifStatement]
      refine .advance_bind (by simp) ?_
      refine .bind (parenthesized_tracks bound depth b) ?_
      rintro c _ _ rfl
      refine .appends_bind (appends_jumpForward rfl _) ?_
      refine .bind (statement_tracks bound depth _) ?_
      rintro first _ _ rfl
      refine .look fun t _ => ?_
      by_cases helse : t = .elseWord
      · rw [if_pos helse, if_pos helse]
        refine .advance_bind (by simp [helse]) ?_
        refine .appends_bind (appends_jumpForward rfl _) ?_
        refine .appends_bind (appends_land_leap_leap _ _ _ _) ?_
        refine .bind (statement_tracks bound depth _) ?_
        rintro second _ _ rfl
        -- The offset of the second jump is taken before the first one has its
        -- target.
        have hjump : (((b.append c.code).leap .jz).append
              (first.code ((b.append c.code).leap .jz).here)).here =
            ((b.append c.code).append (Opcode.jz.word ::
              ↑((b.append c.code).here + 2 +
                (first.code ((b.append c.code).leap .jz).here).length + 2) ::
              first.code ((b.append c.code).leap .jz).here)).here := by
          simp
          omega
        rw [hjump]
        refine .appends (appends_land_leap _ _ _) ?_
        have hsecond : b.here + (c.code.length +
              ((first.code (b.here + c.code.length + 2)).length + 1 + 1)) + 2 =
            b.here + c.code.length + 2 +
              (first.code (b.here + c.code.length + 2)).length + 2 := by
          omega
        simp only [Tree.Statement.code, Builder.append_append,
          Builder.here_append, Builder.here_leap, List.length_append,
          List.length_cons, hsecond]
        simp
      · rw [if_neg helse, if_neg helse]
        refine .appends (appends_land_leap _ _ _) ?_
        simp [Tree.Statement.code]

theorem whileStatement_tracks (bound : Nat) : ∀ (depth : Nat) (b : Builder),
    Tracks (· ≠ .endOfInput) b (compileWithin bound depth .whileStatement)
      (Read.whileStatement bound depth) fun s _ b' =>
        b' = b.append (s.code b.here)
  | 0, _ => .tooDeep
  | depth + 1, b => by
      rw [compileWithin, body, Read.whileStatement]
      refine .advance_bind (by simp) ?_
      refine .appends_bind (appends_here b) ?_
      refine .bind (parenthesized_tracks bound depth b) ?_
      rintro c _ _ rfl
      refine .appends_bind (appends_jumpForward rfl _) ?_
      refine .bind (statement_tracks bound depth _) ?_
      rintro body _ _ rfl
      refine .appends_bind (appends_jumpBack rfl _ _) ?_
      rw [Builder.append_append]
      refine .appends (appends_land_leap _ _ _) ?_
      simp only [Tree.Statement.code, Builder.append_append,
        Builder.here_append, Builder.here_leap, List.length_append,
        List.length_cons, List.length_nil, Nat.zero_add, Nat.reduceAdd,
        ← Nat.add_assoc]
      simp

theorem doStatement_tracks (bound : Nat) : ∀ (depth : Nat) (b : Builder),
    Tracks (· ≠ .endOfInput) b (compileWithin bound depth .doStatement)
      (Read.doStatement bound depth) fun s _ b' => b' = b.append (s.code b.here)
  | 0, _ => .tooDeep
  | depth + 1, b => by
      rw [compileWithin, body, Read.doStatement]
      refine .advance_bind (by simp) ?_
      refine .appends_bind (appends_here b) ?_
      refine .bind (statement_tracks bound depth b) ?_
      rintro body _ _ rfl
      refine .look fun t _ => ?_
      by_cases hwhile : t = .whileWord
      · rw [if_pos hwhile, if_pos hwhile]
        refine .advance_bind (by simp [hwhile]) ?_
        refine .bind (parenthesized_tracks bound depth _) ?_
        rintro c _ _ rfl
        refine .expect_bind (.inr ⟨_, rfl, rfl⟩) ?_
        refine .appends (appends_jumpBack rfl _ _) ?_
        simp [Tree.Statement.code]
      · rw [if_neg hwhile, if_neg hwhile]
        exact .refuse_bind (by rintro _ ⟨⟩) _ _

theorem block_tracks (bound : Nat) : ∀ (depth : Nat) (b : Builder),
    Tracks (· ≠ .endOfInput) b (compileWithin bound depth .block)
      (Read.block bound depth) fun s _ b' => b' = b.append (s.code b.here)
  | 0, _ => .tooDeep
  | depth + 1, b => by
      rw [compileWithin, body, Read.block]
      refine .advance_bind (by simp) ?_
      refine .bind (statementsWithin_tracks
        (statement_tracks bound depth) bound b) ?_
      rintro block _ _ rfl
      refine .map (.expect (.inr ⟨_, rfl, rfl⟩)) ?_
      rintro _ _ _ rfl
      simp [Tree.Statement.code]

end

end OnePass.Phrase

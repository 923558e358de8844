import OnePass.Proofs.Acceptance

namespace OnePass

open OnePass.Tree (Statement)

namespace Source

variable {s : Source}

def NestsBeyond (s : Source) (limit : Nat) : Prop :=
  ∃ found, (s.compileWithin limit).outcome = .error (.tooDeep found)

theorem NestsBeyond.of_le {limit limit' : Nat} (h : s.NestsBeyond limit')
    (hle : limit ≤ limit') :
    s.NestsBeyond limit := by
  rcases s.outcome_of_le hle with hsame | hdeep
  · obtain ⟨found, hfound⟩ := h
    exact ⟨found, hsame.symm.trans hfound⟩
  · exact hdeep

theorem exists_not_nestsBeyond (s : Source) :
    ∃ limit, ¬ s.NestsBeyond limit := by
  refine ⟨6 * (s.start.tokens.1.length + 1), ?_⟩
  rintro ⟨found, hfound⟩
  have houtcome := s.outcome_compileWithin (6 * (s.start.tokens.1.length + 1))
  rw [hfound] at houtcome
  cases houtcome with
  | tooDeep hlimit => exact absurd hlimit (Nat.lt_irrefl _)

theorem exists_levels (s : Source) :
    ∃ levels, ∀ limit, s.NestsBeyond limit ↔ limit < levels := by
  obtain ⟨enough, henough⟩ := s.exists_not_nestsBeyond
  -- Going down from a limit that is enough, the last one that is enough is the
  -- number of levels.
  induction enough with
  | zero =>
      refine ⟨0, fun limit => ?_⟩
      constructor
      · intro h
        exact absurd (h.of_le (Nat.zero_le limit)) henough
      · intro h
        exact absurd h (Nat.not_lt_zero limit)
  | succ enough ih =>
      by_cases hbeyond : s.NestsBeyond enough
      · refine ⟨enough + 1, fun limit => ?_⟩
        constructor
        · intro h
          exact Nat.lt_of_not_le fun hle => henough (h.of_le hle)
        · intro h
          exact hbeyond.of_le (Nat.le_of_lt_succ h)
      · exact ih hbeyond

theorem ReadsAs.nestsBeyond_iff {t : Statement} (h : s.ReadsAs t)
    (limit : Nat) :
    s.NestsBeyond limit ↔ limit < t.depth := by
  constructor
  · rintro ⟨found, hfound⟩
    apply Nat.lt_of_not_le
    intro hle
    rw [outcome_of_readsAs h hle] at hfound
    cases hfound
  · intro hlt
    rcases s.outcome_of_le (Nat.le_of_lt hlt) with hsame | hdeep
    · -- The program would be that of a tree within the limit, and there is no other tree.
      rw [outcome_of_readsAs h (Nat.le_refl t.depth)] at hsame
      obtain ⟨u, hu, hdepth, -⟩ := exists_tree_of_ok hsame.symm
      rw [hu.unique h] at hdepth
      omega
    · exact hdeep

/-- The limit on nesting depends on nesting only. Compiling a text under a limit
comes to what it comes to without one, or the text nests too deeply, and that
exactly if the limit is lower than the levels of the text; these are the depth
of its tree, if it has one. -/
theorem nesting_limit_exact (s : Source) :
    ∃ (unlimited : Except CompileError Program) (levels : Nat),
      (∀ found, unlimited ≠ .error (.tooDeep found)) ∧
      (∀ limit, levels ≤ limit → (s.compileWithin limit).outcome = unlimited) ∧
      (∀ limit, limit < levels →
        ∃ found, (s.compileWithin limit).outcome = .error (.tooDeep found)) ∧
      (s.Grammatical →
        ∃ t : Statement, s.ReadsAs t ∧ (∀ u, s.ReadsAs u → u = t) ∧
        t.depth = levels) := by
  obtain ⟨levels, hlevels⟩ := s.exists_levels
  have henough : ¬ s.NestsBeyond levels := fun h =>
    Nat.lt_irrefl _ ((hlevels levels).mp h)
  refine ⟨(s.compileWithin levels).outcome, levels, ?_, ?_, ?_, ?_⟩
  · intro found hfound
    exact henough ⟨found, hfound⟩
  · intro limit hle
    rcases s.outcome_of_le hle with hsame | hdeep
    · exact hsame
    · exact absurd hdeep henough
  · intro limit hlt
    exact (hlevels limit).mpr hlt
  · intro hgrammatical
    obtain ⟨t, htree⟩ := hgrammatical.exists_readsAs
    refine ⟨t, htree, fun u hu => hu.unique htree, ?_⟩
    have hsame : ∀ limit, limit < t.depth ↔ limit < levels := fun limit =>
      (htree.nestsBeyond_iff limit).symm.trans (hlevels limit)
    have hlow := hsame t.depth
    have hhigh := hsame levels
    omega

end Source

end OnePass

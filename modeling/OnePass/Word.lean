namespace OnePass.Word

/-- The number of different words. -/
def modulus : Nat := 0x10000000000000000

/-- The number of words that are not negative. -/
def halfModulus : Nat := 0x8000000000000000

/-- The one integer in `[-2 ^ 63, 2 ^ 63)` that is congruent to `n` modulo
`2 ^ 64`. -/
def wrap (n : Int) : Int :=
  n.bmod modulus

/-- The integers that sixty-four bits can hold. -/
def InRange (n : Int) : Prop :=
  -halfModulus ≤ n ∧ n < halfModulus

instance : DecidablePred InRange := fun n =>
  inferInstanceAs (Decidable (-halfModulus ≤ n ∧ n < halfModulus))

theorem wrap_inRange (n : Int) : InRange (wrap n) := by
  have hlow := Int.le_bmod (x := n) (m := modulus) (by decide)
  have hhigh := Int.bmod_lt (x := n) (m := modulus) (by decide)
  simp only [modulus] at hlow hhigh
  simp only [InRange, wrap, modulus, halfModulus]
  omega

theorem wrap_eq_self_of_inRange {n : Int} (h : InRange n) : wrap n = n := by
  simp only [InRange, halfModulus] at h
  simp only [wrap, modulus, Int.bmod_def]
  omega

end OnePass.Word

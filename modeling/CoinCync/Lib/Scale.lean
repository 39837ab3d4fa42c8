import Mathlib.Tactic.Ring

/-!
# Scaling a natural by a signed power of two

`scale i a` is `⌊a · 2 ^ i⌋` for an integer `i`, as fixed-point code computes it that splits an
exponent in an integer and a fractional part.
-/

namespace Scale

/-- `⌊a · 2 ^ i⌋`. -/
def scale (i : ℤ) (a : ℕ) : ℕ := if 0 ≤ i then a * 2 ^ i.toNat else a / 2 ^ (-i).toNat

/-- Monotone in the argument. -/
lemma scale_mono_right (i : ℤ) (h : a ≤ b) : scale i a ≤ scale i b := by
  unfold scale
  split
  · exact Nat.mul_le_mul_right _ h
  · exact Nat.div_le_div_right h

/-- Doubling the argument raises the exponent by one. -/
lemma scale_two_mul (i : ℤ) (a : ℕ) : scale i (2 * a) = scale (i + 1) a := by
  unfold scale
  by_cases hi : 0 ≤ i
  · have hsucc : (i + 1).toNat = i.toNat + 1 := by omega
    rw [if_pos hi, if_pos (by omega), hsucc]
    ring
  · have hneg : (-i).toNat = (-(i + 1)).toNat + 1 := by omega
    rw [if_neg hi, hneg, pow_succ, mul_comm (2 ^ _) 2, Nat.mul_div_mul_left _ _ Nat.zero_lt_two]
    split
    · have hzero : (-(i + 1)).toNat = 0 ∧ (i + 1).toNat = 0 := by omega
      rw [hzero.1, hzero.2, Nat.pow_zero, Nat.div_one, mul_one]
    · rfl

lemma scale_le_succ (i : ℤ) (a : ℕ) : scale i a ≤ scale (i + 1) a := by
  rw [← scale_two_mul]
  exact scale_mono_right i (by omega)

/-- Monotone in the exponent. -/
lemma scale_mono_left (h : i ≤ j) (a : ℕ) : scale i a ≤ scale j a := by
  induction j, h using Int.leInduction with
  | base => exact le_refl _
  | succ j _ ih => exact le_trans ih (scale_le_succ j a)

/-- A larger exponent wins over a factor of at most two. -/
lemma scale_le_of_lt (hij : i < j) (hab : a ≤ 2 * c) (hcb : c ≤ b) : scale i a ≤ scale j b := by
  calc scale i a ≤ scale i (2 * c) := scale_mono_right i hab
    _ = scale (i + 1) c := scale_two_mul i c
    _ ≤ scale j c := scale_mono_left hij c
    _ ≤ scale j b := scale_mono_right j hcb

end Scale

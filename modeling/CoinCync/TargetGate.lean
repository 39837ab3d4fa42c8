import CoinCync.Retarget
import Mathlib.Data.Nat.Log

/-!
# The ratio gate accepts the expected target

`validate_difficulty_target` compares the target of a block with its parent's by a ratio in
thousandths. The target `expected_next_target` asks for is within a factor of eight and passes on the
networks that retarget. On the pinned networks the eased difficulty is cut at 64 bits, and a parent
more than 32 times harder than that cut is followed by a target the gate refuses.
-/

namespace CoinCync.Difficulty

open MachineInt

/-! ## The ratio gate -/

/-- Up to eight times above and three below the parent passes. -/
lemma ratioScaled_mem (hprev : 0 < prev) (hlo : prev ≤ 3 * target) (hhi : target ≤ 8 * prev) :
    31 ≤ ratioScaled target prev ∧ ratioScaled target prev ≤ 32000 := by
  unfold ratioScaled
  split
  case isTrue hlarge =>
    -- Both values keep more than a hundred bits, so the cut of ten bits hardly moves the ratio.
    have hpos : 0 < max (prev / 2 ^ 10) 1 := by omega
    rw [Nat.le_div_iff_mul_le hpos]
    refine ⟨by omega, Nat.div_le_of_le_mul ?_⟩
    omega
  case isFalse =>
    rw [Nat.le_div_iff_mul_le hprev]
    refine ⟨by omega, Nat.div_le_of_le_mul ?_⟩
    omega

/-- The bounds at their narrowest. -/
lemma ratioBounds_wide (timeDiff : ℕ) :
    (ratioBounds timeDiff).1 ≤ 31 ∧ 32000 ≤ (ratioBounds timeDiff).2 := by
  unfold ratioBounds
  split <;> decide

/-- With non-zero upper halves the gate is the ratio test. -/
lemma validateDifficultyTarget_eq_none (hblock : 0 < top128 block.target)
    (hprev : 0 < top128 prev.target) :
    validateDifficultyTarget block (some prev) = none ↔
      (ratioBounds (block.timestamp - prev.timestamp)).1 ≤
          ratioScaled (top128 block.target) (top128 prev.target) ∧
        ratioScaled (top128 block.target) (top128 prev.target) ≤
          (ratioBounds (block.timestamp - prev.timestamp)).2 := by
  have hmax : top128 maxTarget = 2 ^ 128 - 1 := by decide
  have hlt := top128_lt block.target
  have hzero : block.target ≠ 0 := by
    intro h
    rw [h] at hblock
    exact absurd hblock (by decide)
  simp only [validateDifficultyTarget]
  rw [if_neg (by omega), if_neg hzero, if_pos ⟨hprev, hblock⟩]
  split <;> simp only [reduceCtorEq, false_iff, true_iff] <;> omega

lemma validateDifficultyTarget_of_mem (hprev : 0 < top128 prev.target)
    (hlo : top128 prev.target ≤ 3 * top128 block.target)
    (hhi : top128 block.target ≤ 8 * top128 prev.target) :
    validateDifficultyTarget block (some prev) = none := by
  have hmem := ratioScaled_mem hprev hlo hhi
  have hwide := ratioBounds_wide (block.timestamp - prev.timestamp)
  rw [validateDifficultyTarget_eq_none (by omega) hprev]
  omega

/-! ## The pinned networks -/

/-- A difficulty is a rounded quotient. -/
lemma calculateDifficultyFromTarget_spec (h : 0 < top128 target) :
    calculateDifficultyFromTarget target * top128 target < 2 ^ 128 ∧
      2 ^ 128 ≤ (calculateDifficultyFromTarget target + 1) * top128 target := by
  rw [calculateDifficultyFromTarget, if_neg h.ne']
  have hle := Nat.div_mul_le_self (2 ^ 128 - 1) (top128 target)
  have hlt := Nat.lt_mul_div_succ (2 ^ 128 - 1) h
  rw [mul_comm] at hlt
  omega

/-- A difficulty times its target is nearly the whole range. -/
lemma fromDifficulty_spec (hd : d ≠ 0) (hlt : d < 2 ^ 64) :
    ∃ p q, p * q = 2 ^ 128 ∧ p ≤ d ∧ d < 2 * p ∧ top128 (fromDifficulty d) = q - 1 := by
  have hlog : Nat.log2 d < 64 := (Nat.log2_lt hd).mpr hlt
  have hpq : 2 ^ Nat.log2 d * 2 ^ (128 - Nat.log2 d) = 2 ^ 128 :=
    pow_mul_pow_sub 2 (by omega)
  have hsplit : 2 ^ (256 - Nat.log2 d) = 2 ^ (128 - Nat.log2 d) * 2 ^ 128 := by
    rw [← pow_add]
    congr 1
    omega
  have hle : 2 ^ (128 - Nat.log2 d) ≤ 2 ^ 128 := hpq ▸ Nat.le_mul_of_pos_left _ (Nat.two_pow_pos _)
  refine ⟨_, _, hpq, Nat.log2_self_le hd, ?_, ?_⟩
  · rw [← Nat.pow_succ']
    exact Nat.lt_log2_self
  · unfold fromDifficulty top128
    rw [if_neg hd]
    omega

/-- Within 64 bits, easing moves the target up less than seven times. -/
lemma easedTarget_mem (h : 0 < top128 parent)
    (hfits : calculateDifficultyFromTarget parent / 3 < 2 ^ 64) :
    top128 parent ≤ top128 (easedTarget parent) ∧
      top128 (easedTarget parent) ≤ 6 * top128 parent := by
  obtain ⟨hmul, hmul'⟩ := calculateDifficultyFromTarget_spec h
  simp only [easedTarget]
  generalize calculateDifficultyFromTarget parent = pd at hfits hmul hmul' ⊢
  split
  case isTrue => omega
  case isFalse hhard =>
    have hmin : minDifficulty = 500 := rfl
    rw [hmin] at hhard ⊢
    have hcut : min (max (pd / 3) 500) (2 ^ 64 - 1) = max (pd / 3) 500 := by omega
    rw [hcut]
    obtain ⟨p, q, hpq, hpd, hdp, htop⟩ :=
      fromDifficulty_spec (d := max (pd / 3) 500) (by omega) (by omega)
    generalize top128 parent = T at h hmul hmul' ⊢
    have hp : 0 < p := by omega
    constructor
    · have hlt : p * T < p * q := by
        calc p * T ≤ pd * T := Nat.mul_le_mul_right T (by omega)
          _ < p * q := hpq ▸ hmul
      have := Nat.lt_of_mul_lt_mul_left hlt
      omega
    · have hle : p * q ≤ p * (6 * T) := by
        calc p * q ≤ (pd + 1) * T := hpq ▸ hmul'
          _ ≤ (6 * p) * T := Nat.mul_le_mul_right T (by omega)
          _ = p * (6 * T) := by rw [mul_comm 6 p, mul_assoc]
      have := Nat.le_of_mul_le_mul_left hle hp
      omega

/-- Past 64 bits every parent has the same next target. -/
lemma top128_easedTarget_of_cut (hcut : 2 ^ 64 ≤ calculateDifficultyFromTarget parent / 3) :
    top128 (easedTarget parent) = 2 ^ 65 - 1 := by
  have hmin : minDifficulty = 500 := rfl
  simp only [easedTarget]
  rw [if_neg (by omega), min_eq_right (by omega)]
  decide

/-- The parents whose eased target the gate refuses. -/
def EasedTooFar (parent : BlockHeader) (timeDiff : ℕ) : Prop :=
  top128 parent.target * ((ratioBounds timeDiff).2 + 1) ≤ (2 ^ 65 - 1) * 1000

instance (parent : BlockHeader) (timeDiff : ℕ) : Decidable (EasedTooFar parent timeDiff) :=
  inferInstanceAs (Decidable (_ ≤ _))

/-- A third of the difficulty within 64 bits is not eased too far. -/
lemma not_easedTooFar (h : 0 < top128 parent.target)
    (hfits : calculateDifficultyFromTarget parent.target / 3 < 2 ^ 64) (timeDiff : ℕ) :
    ¬ EasedTooFar parent timeDiff := by
  obtain ⟨-, hmul⟩ := calculateDifficultyFromTarget_spec h
  have hwide := (ratioBounds_wide timeDiff).2
  have hlarge : 2 ^ 128 ≤ 3 * 2 ^ 64 * top128 parent.target :=
    le_trans hmul (Nat.mul_le_mul_right _ (by omega))
  have hratio : top128 parent.target * 32001 ≤
      top128 parent.target * ((ratioBounds timeDiff).2 + 1) := Nat.mul_le_mul_left _ (by omega)
  unfold EasedTooFar
  omega

/-- Past the cut the gate is decided by the parent alone. -/
lemma validateDifficultyTarget_cut (h : 0 < top128 parent.target)
    (hcut : 2 ^ 64 ≤ calculateDifficultyFromTarget parent.target / 3)
    (htarget : top128 block.target = 2 ^ 65 - 1) :
    validateDifficultyTarget block (some parent) = none ↔
      ¬ EasedTooFar parent (block.timestamp - parent.timestamp) := by
  obtain ⟨hmul, -⟩ := calculateDifficultyFromTarget_spec h
  have hsmall : 3 * 2 ^ 64 * top128 parent.target < 2 ^ 128 :=
    lt_of_le_of_lt (Nat.mul_le_mul_right _ (by omega)) hmul
  have hwide := ratioBounds_wide (block.timestamp - parent.timestamp)
  have hratio : ratioScaled (top128 block.target) (top128 parent.target) =
      (2 ^ 65 - 1) * 1000 / top128 parent.target := by
    rw [htarget, ratioScaled, if_neg (by decide)]
  have hlo : 31 ≤ (2 ^ 65 - 1) * 1000 / top128 parent.target :=
    (Nat.le_div_iff_mul_le h).mpr (by omega)
  have hhi : (2 ^ 65 - 1) * 1000 / top128 parent.target ≤
      (ratioBounds (block.timestamp - parent.timestamp)).2 ↔
      ¬ EasedTooFar parent (block.timestamp - parent.timestamp) := by
    rw [EasedTooFar, not_le, mul_comm (top128 parent.target), ← Nat.div_lt_iff_lt_mul h,
      Nat.lt_succ_iff]
  rw [validateDifficultyTarget_eq_none (by rw [htarget]; decide) h, hratio, hhi]
  constructor
  · exact fun hgate => hgate.2
  · exact fun hgate => ⟨by omega, hgate⟩

/-! ## Every network -/

/-- An unchanged target passes. -/
lemma validateDifficultyTarget_same (h : 0 < top128 parent.target)
    (htarget : child.target = parent.target) :
    validateDifficultyTarget child (some parent) = none := by
  refine validateDifficultyTarget_of_mem h ?_ ?_
  · rw [htarget]
    omega
  · rw [htarget]
    omega

/-- The gate passes the computed target where networks retarget. -/
lemma validateDifficultyTarget_retargeted (hlast : blocks.getLast? = some (.ofHeader parent))
    (hlength : 2 ≤ blocks.length) (h : 0 < top128 parent.target)
    (htarget : child.target = calculateDifficulty blocks height) :
    validateDifficultyTarget child (some parent) = none := by
  have hmem := top128_calculateDifficulty_mem hlength hlast height
  rw [← htarget] at hmem
  have heq : targetToU128 (DifficultyBlock.ofHeader parent).target = top128 parent.target :=
    targetToU128_eq h
  have hlt := top128_lt parent.target
  rw [heq, minBound_eq hlt] at hmem
  have hle := maxBound_le h hlt (stepFactor (needsEmergencyDrop blocks height)) (one_le_stepFactor _)
  have hfactor : stepFactor (needsEmergencyDrop blocks height) ≤ 4 := by
    cases needsEmergencyDrop blocks height <;> decide
  have hstep : 2 * stepFactor (needsEmergencyDrop blocks height) * top128 parent.target ≤
      8 * top128 parent.target := Nat.mul_le_mul_right _ (by omega)
  exact validateDifficultyTarget_of_mem h (by omega) (by omega)

/-- A block with the expected target passes the ratio gate, on every network and for every window
that ends with its parent, except on a pinned network after a parent so hard that the cut at 64 bits
eases it past the allowed ratio. -/
theorem expectedNextTarget_passes_gate_iff (network : NetworkType) (blocks : List DifficultyBlock)
    (height : ℕ) (parent child : BlockHeader) (hlast : blocks.getLast? = some (.ofHeader parent))
    (hupper : 0 < top128 parent.target)
    (hchild : child.target = expectedNextTarget network blocks height) :
    validateDifficultyTarget child (some parent) = none ↔
      ¬ (isPinned network = true ∧ EasedTooFar parent (child.timestamp - parent.timestamp)) := by
  rw [expectedNextTarget, hlast] at hchild
  simp only [Option.map_some, Option.getD_some] at hchild
  have hparent : (DifficultyBlock.ofHeader parent).target = parent.target := rfl
  rw [hparent] at hchild
  cases hnet : isPinned network with
  | false =>
    rw [hnet] at hchild
    simp only [Bool.false_eq_true, if_false] at hchild
    have hgate : validateDifficultyTarget child (some parent) = none := by
      split at hchild
      · exact validateDifficultyTarget_retargeted hlast ‹_› hupper hchild
      · exact validateDifficultyTarget_same hupper hchild
    simp [hgate]
  | true =>
    rw [hnet, if_pos rfl] at hchild
    simp only [true_and]
    rcases lt_or_ge (calculateDifficultyFromTarget parent.target / 3) (2 ^ 64) with hfits | hcut
    · obtain ⟨hlo, hhi⟩ := easedTarget_mem hupper hfits
      rw [← hchild] at hlo hhi
      have hgate : validateDifficultyTarget child (some parent) = none :=
        validateDifficultyTarget_of_mem hupper (by omega) (by omega)
      exact iff_of_true hgate (not_easedTooFar hupper hfits _)
    · refine validateDifficultyTarget_cut hupper hcut ?_
      rw [hchild, top128_easedTarget_of_cut hcut]

/-- A header of which only height, time and target matter. -/
def plainHeader (height timestamp : ℕ) (target : Hash) : BlockHeader :=
  { height := height, timestamp := timestamp, prevHash := 0, target := target }

/-- The gate at a regtest parent of difficulty ten thousand. -/
theorem expectedNextTarget_passes_gate_regtest :
    validateDifficultyTarget
        (plainHeader 1 60 (expectedNextTarget .regtest
          [.ofHeader (plainHeader 0 0 (fromDifficulty 10000))] 1))
        (some (plainHeader 0 0 (fromDifficulty 10000))) = none :=
  (expectedNextTarget_passes_gate_iff .regtest
    [.ofHeader (plainHeader 0 0 (fromDifficulty 10000))] 1 _ _ rfl
    (by decide +kernel) rfl).mpr (by decide +kernel)

/-- A regtest parent whose difficulty is far past 64 bits: the expected target is refused. -/
theorem expectedNextTarget_refused_on_regtest :
    0 < top128 (1000 * 2 ^ 128) ∧
      validateDifficultyTarget
        (plainHeader 1 60 (expectedNextTarget .regtest
          [.ofHeader (plainHeader 0 0 (1000 * 2 ^ 128))] 1))
        (some (plainHeader 0 0 (1000 * 2 ^ 128))) ≠ none := by
  decide +kernel

end CoinCync.Difficulty

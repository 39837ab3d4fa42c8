import CoinCync.Difficulty

/-!
# Bounds of one retarget

Whatever the anchors say, one call of `calculate_difficulty` moves the target of the tip by at most
a factor of two down and of two, or in an emergency eight, up, and never past the minimum difficulty.
-/

namespace CoinCync.Difficulty

open MachineInt

variable {tip : DifficultyBlock} {blocks : List DifficultyBlock}

lemma targetToU128_pos (target : Hash) : 1 ≤ targetToU128 target := le_max_right _ _

lemma top128_lt (target : Hash) : top128 target < 2 ^ 128 := Nat.mod_lt _ (by decide)

lemma targetToU128_lt (target : Hash) : targetToU128 target < 2 ^ 128 := by
  have hlt := top128_lt target
  unfold targetToU128
  omega

/-- Above zero it is the upper half. -/
lemma targetToU128_eq (h : 0 < top128 target) : targetToU128 target = top128 target := by
  unfold targetToU128
  omega

/-- Encoding keeps the upper half. -/
lemma top128_u128ToTarget (hpos : 0 < value) (hlt : value < 2 ^ 128) :
    top128 (u128ToTarget value) = value := by
  unfold top128 u128ToTarget
  omega

/-! ## The clamps -/

/-- The lower bound spelled out. -/
lemma minBound_eq (h : tipTarget < 2 ^ 128) : minBound tipTarget = max (tipTarget / 2) 1 := by
  have hnum : minDifficultyAdjNum = 1 := rfl
  have hden : minDifficultyAdjDen = 2 := rfl
  unfold minBound safeMulU128 satMul
  rw [hnum, hden, mul_one, min_eq_left (by omega)]

lemma minBound_le_maxBound (tipTarget factor : ℕ) :
    minBound tipTarget ≤ maxBound tipTarget factor :=
  le_max_right _ _

lemma targetCeiling_lt : targetCeiling < 2 ^ 128 := by decide

/-- The upper bound spelled out. -/
lemma maxBound_eq_max (hlt : tipTarget < 2 ^ 128) (factor : ℕ) : maxBound tipTarget factor =
    max (min (min (2 * factor * tipTarget) (2 ^ 128 - 1)) targetCeiling) (max (tipTarget / 2) 1) := by
  have hnum : maxDifficultyAdjNum = 2 := rfl
  have hden : maxDifficultyAdjDen = 1 := rfl
  unfold maxBound safeMulU128 satMul
  rw [minBound_eq hlt, hnum, hden, Nat.div_one, mul_comm tipTarget]

lemma maxBound_lt (h : tipTarget < 2 ^ 128) (factor : ℕ) : maxBound tipTarget factor < 2 ^ 128 := by
  rw [maxBound_eq_max h]
  omega

/-- The step factor, ordinary and in an emergency. -/
def stepFactor (emergency : Bool) : ℕ := if emergency then emergencyDropFactor else 1

lemma finalTarget_mem (tipTarget combined : ℕ) (emergency : Bool) :
    minBound tipTarget ≤ finalTarget tipTarget combined emergency ∧
      finalTarget tipTarget combined emergency ≤ maxBound tipTarget (stepFactor emergency) := by
  have hbounds := minBound_le_maxBound tipTarget (stepFactor emergency)
  cases emergency <;> simp only [finalTarget, stepFactor, clamp, if_true, Bool.false_eq_true,
    if_false] at hbounds ⊢ <;> omega

/-- Under the ceiling, the bound of the step factor. -/
lemma maxBound_eq (hpos : 1 ≤ tipTarget) (hle : tipTarget ≤ targetCeiling)
    (factor : ℕ) (hfactor : 1 ≤ factor) :
    maxBound tipTarget factor = min (2 * factor * tipTarget) targetCeiling := by
  have hceiling := targetCeiling_lt
  have hstep : tipTarget ≤ 2 * factor * tipTarget := Nat.le_mul_of_pos_left _ (by omega)
  rw [maxBound_eq_max (by omega)]
  omega

/-- The upper bound is at most the step factor, or one. -/
lemma maxBound_le (hpos : 1 ≤ tipTarget) (hlt : tipTarget < 2 ^ 128)
    (factor : ℕ) (hfactor : 1 ≤ factor) : maxBound tipTarget factor ≤ 2 * factor * tipTarget := by
  have hstep : tipTarget ≤ 2 * factor * tipTarget := Nat.le_mul_of_pos_left _ (by omega)
  rw [maxBound_eq_max hlt]
  omega

/-! ## One step -/

/-- A window with an anchor below its tip. -/
lemma calculateDifficulty_eq
    (hlength : 2 ≤ blocks.length) (hlast : blocks.getLast? = some tip) (height : ℕ) :
    calculateDifficulty blocks height =
      u128ToTarget (finalTarget (targetToU128 tip.target)
        (combine (anchoredTarget blocks tip shortWindow) (anchoredTarget blocks tip longWindow))
        (needsEmergencyDrop blocks height)) := by
  rw [calculateDifficulty, if_neg (by omega), hlast]

/-- One call stays within the clamps. -/
lemma top128_calculateDifficulty_mem
    (hlength : 2 ≤ blocks.length) (hlast : blocks.getLast? = some tip) (height : ℕ) :
    minBound (targetToU128 tip.target) ≤ top128 (calculateDifficulty blocks height) ∧
      top128 (calculateDifficulty blocks height) ≤
        maxBound (targetToU128 tip.target) (stepFactor (needsEmergencyDrop blocks height)) := by
  have htip := targetToU128_lt tip.target
  rw [calculateDifficulty_eq hlength hlast]
  have hmem := finalTarget_mem (targetToU128 tip.target)
    (combine (anchoredTarget blocks tip shortWindow) (anchoredTarget blocks tip longWindow))
    (needsEmergencyDrop blocks height)
  have hmax := maxBound_lt htip (stepFactor (needsEmergencyDrop blocks height))
  have hmin := minBound_eq htip
  rw [top128_u128ToTarget (by omega) (by omega)]
  exact hmem

lemma one_le_stepFactor (emergency : Bool) : 1 ≤ stepFactor emergency := by
  cases emergency <;> decide

/-! ## A chain that follows the rule -/

/-- Every block after the first has the target computed over a window that ends with its parent. -/
inductive Retargeted (network : NetworkType) : List DifficultyBlock → Prop
  | first (b : DifficultyBlock) : Retargeted network [b]
  | next {chain window : List DifficultyBlock} {b : DifficultyBlock} :
      Retargeted network chain → window ≠ [] → window <:+ chain →
      b.target = expectedNextTarget network window b.height → Retargeted network (chain ++ [b])

/-- The ceiling as a property of a target. -/
def BelowCeiling (target : Hash) : Prop := top128 target ≤ targetCeiling

instance (target : Hash) : Decidable (BelowCeiling target) := inferInstanceAs (Decidable (_ ≤ _))

lemma BelowCeiling.targetToU128_le (h : BelowCeiling target) :
    targetToU128 target ≤ targetCeiling := by
  have hone : 1 ≤ targetCeiling := by decide
  unfold BelowCeiling at h
  unfold targetToU128
  omega

/-- One step of the rule keeps the ceiling. -/
lemma expectedNextTarget_belowCeiling (hnet : isPinned network = false)
    (hlast : window.getLast? = some tip) (htip : BelowCeiling tip.target) (height : ℕ) :
    BelowCeiling (expectedNextTarget network window height) := by
  rw [expectedNextTarget, hnet, hlast]
  simp only [Bool.false_eq_true, if_false]
  split
  case isFalse => exact htip
  case isTrue hlength =>
    have hmem := top128_calculateDifficulty_mem hlength hlast height
    have hle := htip.targetToU128_le
    rw [maxBound_eq (targetToU128_pos _) hle _ (one_le_stepFactor _)] at hmem
    unfold BelowCeiling
    omega

/-- A chain that starts under the ceiling stays there. -/
lemma Retargeted.belowCeiling (hnet : isPinned network = false)
    (hchain : Retargeted network chain) (hfirst : ∀ b ∈ chain.head?, BelowCeiling b.target) :
    ∀ b ∈ chain, BelowCeiling b.target := by
  induction hchain with
  | first b =>
    intro c hc
    rw [List.mem_singleton.mp hc]
    exact hfirst b rfl
  | @next chain window b hchain hne hsuffix htarget ih =>
    have hhead : chain.head? = (chain ++ [b]).head? := by
      cases hchain <;> simp
    have hbelow := ih (hhead ▸ hfirst)
    intro c hc
    rcases List.mem_append.mp hc with hmem | hmem
    · exact hbelow c hmem
    rw [List.mem_singleton.mp hmem, htarget]
    -- The last block of the window is a block of the chain before.
    have hlast := List.getLast?_eq_getLast_of_ne_nil hne
    exact expectedNextTarget_belowCeiling hnet hlast
      (hbelow _ (hsuffix.subset (List.getLast_mem hne))) _

/-- One retarget stays between half the target of the tip and its double, eight times in an
emergency, and under the ceiling, where a zero upper half counts as one. So does a whole chain on
the networks that retarget. -/
theorem retarget_clamp_and_ceiling :
    (∀ (blocks : List DifficultyBlock) (tip : DifficultyBlock) (height : ℕ),
      2 ≤ blocks.length → blocks.getLast? = some tip → top128 tip.target ≤ targetCeiling →
      max 1 (targetToU128 tip.target / 2) ≤ top128 (calculateDifficulty blocks height) ∧
      (needsEmergencyDrop blocks height = false → top128 (calculateDifficulty blocks height) ≤
        min (2 * targetToU128 tip.target) targetCeiling) ∧
      (needsEmergencyDrop blocks height = true → top128 (calculateDifficulty blocks height) ≤
        min (8 * targetToU128 tip.target) targetCeiling)) ∧
    (∀ (network : NetworkType) (chain : List DifficultyBlock), isPinned network = false →
      Retargeted network chain → (∀ b ∈ chain.head?, top128 b.target ≤ targetCeiling) →
      ∀ b ∈ chain, top128 b.target ≤ targetCeiling) := by
  refine ⟨fun blocks tip height hlength hlast htip => ?_,
    fun network chain hnet hchain => hchain.belowCeiling hnet⟩
  have hmem := top128_calculateDifficulty_mem hlength hlast height
  have hle := BelowCeiling.targetToU128_le htip
  rw [maxBound_eq (targetToU128_pos _) hle _ (one_le_stepFactor _),
    minBound_eq (targetToU128_lt _)] at hmem
  refine ⟨by omega, fun hemergency => ?_, fun hemergency => ?_⟩
  · rw [hemergency] at hmem
    exact hmem.2
  · rw [hemergency] at hmem
    exact hmem.2

/-- Two blocks of which the tip has the given upper half. -/
def twoBlocks (upper : ℕ) : List DifficultyBlock :=
  [⟨1, 1000, upper * 2 ^ 128⟩, ⟨2, 1120, upper * 2 ^ 128⟩]

/-- The clamp and the chain at concrete blocks. -/
theorem retarget_clamp_and_ceiling_small :
    (max 1 (targetToU128 (1000 * 2 ^ 128) / 2) ≤
      top128 (calculateDifficulty (twoBlocks 1000) 3)) ∧
    ∀ b ∈ [⟨0, 900, 1000 * 2 ^ 128⟩] ++ [(⟨1, 1000, 1000 * 2 ^ 128⟩ : DifficultyBlock)],
      top128 b.target ≤ targetCeiling :=
  ⟨(retarget_clamp_and_ceiling.1 (twoBlocks 1000) ⟨2, 1120, 1000 * 2 ^ 128⟩ 3 (by decide) rfl
      (by decide)).1,
    retarget_clamp_and_ceiling.2 .mainnet _ rfl
      (.next (.first _) (by decide) List.suffix_rfl (by decide)) (by decide)⟩

/-- With a zero upper half the interval read off the target is empty, and a window of one block
gives the largest target. -/
theorem retarget_outside_literal_clamp :
    (2 ≤ (twoBlocks 0).length ∧ (twoBlocks 0).getLast? = some ⟨2, 1120, 0⟩ ∧
      top128 0 ≤ targetCeiling ∧ needsEmergencyDrop (twoBlocks 0) 3 = false ∧
      ¬ top128 (calculateDifficulty (twoBlocks 0) 3) ≤ min (2 * top128 0) targetCeiling) ∧
    (top128 (1000 * 2 ^ 128) ≤ targetCeiling ∧
      ¬ top128 (calculateDifficulty [⟨0, 900, 1000 * 2 ^ 128⟩] 1) ≤ targetCeiling) := by
  decide +kernel

end CoinCync.Difficulty

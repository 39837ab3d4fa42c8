import CoinCync.Lib.MachineInt

/-!
# The emission curve

`base_reward` of `emission/curve.rs`: the block reward is a function of the height alone, through
an integer integration of `reward = max(TAIL_EMISSION, (cap - supply) / EMISSION_DIVISOR)` in
adaptive steps.
-/

namespace CoinCync

/-! ## Constants -/

/-- Atomic units in one CYNC. -/
def coin : ℕ := 1000000000000

/-- The perpetual tail: 0.6 CYNC a block. -/
def tailEmission : ℕ := 600000000000

/-- The asymptote of the issuance formula, in whole CYNC. -/
def totalSupplyTarget : ℕ := 100000000

/-- `EMISSION_DIVISOR`. -/
def emissionDivisor : ℕ := 2000000

/-- `cap_atomic`, above `2^64`, hence `u128` in the source. -/
def capAtomic : ℕ := totalSupplyTarget * coin

/-! ## The reward as a function of supply and of height -/

/-- `base_reward_from_supply`. -/
def baseRewardFromSupply (cumulativeSupplyAtomic : ℕ) : ℕ :=
  max ((capAtomic - cumulativeSupplyAtomic) / emissionDivisor) tailEmission

/-- Step of the integrator, chosen by the final height. -/
def integrationStep (height : ℕ) : ℕ :=
  if height > 1000000 then 10000
  else if height > 100000 then 1000
  else if height > 10000 then 100
  else 10

/-- The `while h < height` loop; `height` units of fuel let it finish. -/
def integrateSupply (height step : ℕ) : ℕ → ℕ → ℕ → ℕ
  | 0, _, supply => supply
  | fuel + 1, h, supply =>
    if h < height then
      let asymptoticReward := (capAtomic - supply) / emissionDivisor
      let reward := max asymptoticReward tailEmission
      -- below the tail floor every later block pays exactly the tail: one multiplication
      if asymptoticReward < tailEmission then
        MachineInt.satAdd 128 supply (tailEmission * (height - h))
      else
        let blocksInStep := min (height - h) step
        integrateSupply height step fuel (h + blocksInStep) (supply + reward * blocksInStep)
    else supply

/-- `estimate_supply_at_height`. -/
def estimateSupplyAtHeight (height : ℕ) : ℕ :=
  if height = 0 then 0
  else min (integrateSupply height (integrationStep height) height 0 0) capAtomic

/-- `base_reward`, the consensus reward at a height. -/
def baseReward (height : ℕ) : ℕ := baseRewardFromSupply (estimateSupplyAtHeight height)

/-- `calculate_block_reward`. -/
def calculateBlockReward (height : ℕ) : ℕ := baseReward height

lemma tailEmission_le_calculateBlockReward (height : ℕ) :
    tailEmission ≤ calculateBlockReward height := le_max_right _ _

lemma calculateBlockReward_pos (height : ℕ) : 0 < calculateBlockReward height :=
  lt_of_lt_of_le (by decide) (tailEmission_le_calculateBlockReward height)

/-- No reward exceeds the genesis reward of 50 CYNC. -/
lemma calculateBlockReward_le (height : ℕ) : calculateBlockReward height ≤ 50 * coin := by
  have hcap : (capAtomic - estimateSupplyAtHeight height) / emissionDivisor ≤
      capAtomic / emissionDivisor := Nat.div_le_div_right (Nat.sub_le _ _)
  have hgen : capAtomic / emissionDivisor = 50 * coin := by decide
  have htail : tailEmission ≤ 50 * coin := by decide
  exact Nat.max_le.mpr ⟨hgen ▸ hcap, htail⟩

/-- The integrator is exact on its first step: ten blocks at the genesis reward. -/
example : estimateSupplyAtHeight 10 = 10 * calculateBlockReward 0 := by decide

/-- Emission over the heights `0 .. height`. -/
def emittedThrough (height : ℕ) : ℕ :=
  ((List.range (height + 1)).map calculateBlockReward).sum

lemma emittedThrough_succ (height : ℕ) :
    emittedThrough (height + 1) = emittedThrough height + calculateBlockReward (height + 1) := by
  rw [emittedThrough, List.range_succ]
  simp [emittedThrough]

/-- Every reward is positive. -/
lemma emittedThrough_strictMono : StrictMono emittedThrough :=
  strictMono_nat_of_lt_succ fun height => by
    have := calculateBlockReward_pos (height + 1)
    rw [emittedThrough_succ]
    omega

end CoinCync

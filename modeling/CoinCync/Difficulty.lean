import CoinCync.Block

/-!
# Difficulty retargeting

`calculate_difficulty` computes the target of the next block from a window of its ancestors,
`expected_next_target` is the rule a node applies, per network, and `validate_difficulty_target` the
looser gate of block validation. A target is a 256-bit number of which only the upper 128 bits are
computed with. Signed 128-bit values are integers; the products that could leave the range are
clamped as in the source.
-/

namespace CoinCync

open MachineInt

namespace Difficulty

/-! ## Parameters -/

/-- `TARGET_BLOCK_TIME`, in seconds. -/
def targetBlockTime : ℕ := 120

/-- `ASERT_HALFLIFE`, in seconds. -/
def asertHalflife : ℕ := 3600

/-- `DIFFICULTY_SHORT_WINDOW`. -/
def shortWindow : ℕ := 8

/-- `DIFFICULTY_LONG_WINDOW`. -/
def longWindow : ℕ := 144

/-- `DIFFICULTY_SHORT_WEIGHT`. -/
def shortWeight : ℕ := 70

/-- `DIFFICULTY_LONG_WEIGHT`. -/
def longWeight : ℕ := 30

/-- `DIFFICULTY_WEIGHT_SCALE`. -/
def weightScale : ℕ := 100

/-- `EMERGENCY_DIFFICULTY_BLOCKS`. -/
def emergencyDifficultyBlocks : ℕ := 12

/-- `EMERGENCY_TIME_MULTIPLIER`. -/
def emergencyTimeMultiplier : ℕ := 10

/-- `EMERGENCY_DROP_FACTOR`. -/
def emergencyDropFactor : ℕ := 4

/-- `MAX_DIFFICULTY_ADJ_NUM`. -/
def maxDifficultyAdjNum : ℕ := 2

/-- `MAX_DIFFICULTY_ADJ_DEN`. -/
def maxDifficultyAdjDen : ℕ := 1

/-- `MIN_DIFFICULTY_ADJ_NUM`. -/
def minDifficultyAdjNum : ℕ := 1

/-- `MIN_DIFFICULTY_ADJ_DEN`. -/
def minDifficultyAdjDen : ℕ := 2

/-- `MIN_DIFFICULTY`. -/
def minDifficulty : ℕ := 500

/-- `RBITS`. -/
def rbits : ℕ := 16

/-- `RADIX`. -/
def radix : ℕ := 2 ^ rbits

/-- `MAX_INT_EXPONENT`. -/
def maxIntExponent : ℤ := 64

/-! ## Targets -/

/-- A block of a window. -/
structure DifficultyBlock where
  height : ℕ
  timestamp : ℕ
  target : Hash
deriving DecidableEq, Inhabited

/-- What a window records of a block. -/
def DifficultyBlock.ofHeader (h : BlockHeader) : DifficultyBlock :=
  { height := h.height, timestamp := h.timestamp, target := h.target }

/-- `max_target`: every byte `0xFF`. -/
def maxTarget : Hash := 2 ^ 256 - 1

/-- `target_to_u128`: a zero upper half counts as one. -/
def targetToU128 (target : Hash) : ℕ := max (top128 target) 1

/-- `u128_to_target`: the lower half is zero. -/
def u128ToTarget (value : ℕ) : Hash := min (max value 1) (2 ^ 128 - 1) * 2 ^ 128

/-- `u128_max_target`. -/
def u128MaxTarget : ℕ := 2 ^ 128 - 1

/-- The largest target the minimum difficulty allows. -/
def targetCeiling : ℕ := u128MaxTarget / minDifficulty

/-- `safe_mul_u128`. -/
def safeMulU128 (a b : ℕ) : ℕ := satMul 128 a b

/-! ## Fixed-point powers of two -/

/-- `pow2_frac`: `radix · 2 ^ (x / radix)` by Horner's rule, truncating. -/
def pow2Frac (x : ℕ) : ℕ :=
  let t := 3638 + 630 * x / radix
  let t := 15743 + t * x / radix
  let t := 45426 + t * x / radix
  radix + t * x / radix

/-- What `safe_mul_shift` adds, divided first if the product would not fit. -/
def adjustment (target extra : ℕ) : ℕ :=
  if target ≤ (2 ^ 128 - 1) / extra then target * extra / radix else target / radix * extra

/-- `safe_mul_shift`: `target · fracPow2 / radix`, saturating. -/
def safeMulShift (target fracPow2 : ℕ) : ℕ :=
  let extra := fracPow2 - radix
  if extra = 0 then target else satAdd 128 target (adjustment target extra)

/-- `decompose_fixed_point`: integer part and non-negative fraction. -/
def decomposeFixedPoint (exponentFp : ℤ) : ℤ × ℕ :=
  if 0 ≤ exponentFp then
    (min (exponentFp / radix) (2 ^ 31 - 1), (exponentFp % radix).toNat)
  else
    let absExp := (-max exponentFp (-2 ^ 127 + 1)).toNat
    let absInt := absExp / radix
    let absFrac := absExp % radix
    if absFrac = 0 then (-(min absInt (2 ^ 31 - 1) : ℕ), 0)
    else (-(min absInt (2 ^ 31 - 2) : ℕ) - 1, radix - absFrac)

/-! ## ASERT -/

/-- Seconds the tip is behind the schedule from the anchor. -/
def timeError (anchor tip : DifficultyBlock) (targetTime : ℕ) : ℤ :=
  ((tip.timestamp : ℤ) - anchor.timestamp) - ((tip.height - anchor.height : ℕ) : ℤ) * targetTime

/-- `timeError / halflife` in fixed point, rounded towards zero. -/
def exponentFp (timeError : ℤ) (halflife : ℕ) : ℤ :=
  let scaled := timeError * radix
  -- `checked_mul` on `i128`, with the bound of the sign when it overflows.
  let product := if -2 ^ 127 ≤ scaled ∧ scaled < 2 ^ 127 then scaled
    else if 0 ≤ timeError then 2 ^ 127 - 1 else -2 ^ 127
  product.tdiv halflife

/-- `checked_shl(n).unwrap_or(u128::MAX)`: bits shifted out are lost. -/
def shlOrMax (value n : ℕ) : ℕ := if n < 128 then value * 2 ^ n % 2 ^ 128 else 2 ^ 128 - 1

/-- The last step of `apply_asert`: the shift by the integer part. -/
def shiftTarget (adjusted : ℕ) (clampedInt : ℤ) : ℕ :=
  max
    (if 0 ≤ clampedInt then shlOrMax adjusted clampedInt.toNat
    else
      let neg := (-clampedInt).toNat
      if 128 ≤ neg then 1 else adjusted / 2 ^ neg) 1

/-- `clamped_int`. -/
def clampInt (intPart : ℤ) : ℤ := min (max intPart (-maxIntExponent)) maxIntExponent

/-- `currentTarget · 2 ^ exponent`, as `apply_asert` computes it. -/
def targetAtExponent (currentTarget : ℕ) (exponentFp : ℤ) : ℕ :=
  let (intPart, fracPart) := decomposeFixedPoint exponentFp
  shiftTarget (safeMulShift currentTarget (pow2Frac fracPart)) (clampInt intPart)

/-- `apply_asert`. -/
def applyAsert (currentTarget : ℕ) (anchor tip : DifficultyBlock) (targetTime halflife : ℕ) : ℕ :=
  if tip.height - anchor.height = 0 then currentTarget
  else if halflife = 0 then currentTarget
  else targetAtExponent currentTarget (exponentFp (timeError anchor tip targetTime) halflife)

/-! ## The window -/

/-- The index of `get_anchor`: `depth` back, but never genesis. -/
def anchorIndex (blocks : List DifficultyBlock) (depth : ℕ) : ℕ :=
  let idx := blocks.length - min depth blocks.length
  if idx + 1 < blocks.length ∧ blocks[idx]?.map (·.height) = some 0 then idx + 1 else idx

/-- `get_anchor`, whose index is in range unless the window is empty. -/
def getAnchor (blocks : List DifficultyBlock) (depth : ℕ) : DifficultyBlock :=
  blocks.getD (anchorIndex blocks depth) default

/-- `needs_emergency_drop`. -/
def needsEmergencyDrop (blocks : List DifficultyBlock) (currentHeight : ℕ) : Bool :=
  if currentHeight < emergencyDifficultyBlocks * 2 then false
  else if blocks.length < emergencyDifficultyBlocks then false
  else
    match blocks.getLast?, blocks[blocks.length - emergencyDifficultyBlocks]? with
    | some tip, some checkBlock =>
      decide (emergencyDifficultyBlocks * targetBlockTime * emergencyTimeMultiplier
        < tip.timestamp - checkBlock.timestamp)
    | _, _ => false

/-! ## The next target -/

/-- The ASERT target from the anchor `depth` blocks back. -/
def anchoredTarget (blocks : List DifficultyBlock) (tip : DifficultyBlock) (depth : ℕ) : ℕ :=
  let anchor := getAnchor blocks depth
  applyAsert (targetToU128 anchor.target) anchor tip targetBlockTime asertHalflife

/-- The weighted mean of the short and the long target. -/
def combine (shortTarget longTarget : ℕ) : ℕ :=
  satAdd 128 (safeMulU128 shortTarget shortWeight) (safeMulU128 longTarget longWeight)
    / weightScale

/-- The smallest target that may follow `tipTarget`. -/
def minBound (tipTarget : ℕ) : ℕ :=
  max (safeMulU128 tipTarget minDifficultyAdjNum / minDifficultyAdjDen) 1

/-- The largest next target, with a step `factor` times the normal one. -/
def maxBound (tipTarget factor : ℕ) : ℕ :=
  max (min (safeMulU128 tipTarget (maxDifficultyAdjNum * factor) / maxDifficultyAdjDen)
    targetCeiling) (minBound tipTarget)

/-- `Ord::clamp`. -/
def clamp (value lo hi : ℕ) : ℕ := min (max value lo) hi

/-- The clamps of `calculate_difficulty` around the combined target. -/
def finalTarget (tipTarget combined : ℕ) (emergency : Bool) : ℕ :=
  let clamped := clamp combined (minBound tipTarget) (maxBound tipTarget 1)
  if emergency then
    clamp (safeMulU128 clamped emergencyDropFactor) (minBound tipTarget)
      (maxBound tipTarget emergencyDropFactor)
  else clamped

/-- `calculate_difficulty`. -/
def calculateDifficulty (blocks : List DifficultyBlock) (currentHeight : ℕ) : Hash :=
  if blocks.length < 2 then maxTarget
  else
    match blocks.getLast? with
    | none => maxTarget
    | some tip =>
      let combined :=
        combine (anchoredTarget blocks tip shortWindow) (anchoredTarget blocks tip longWindow)
      u128ToTarget
        (finalTarget (targetToU128 tip.target) combined (needsEmergencyDrop blocks currentHeight))

/-! ## The rule of a network -/

/-- `Hash::from_difficulty`: a zero bit for each doubling, then ones. -/
def fromDifficulty (difficulty : ℕ) : Hash :=
  if difficulty = 0 then maxTarget else 2 ^ (256 - Nat.log2 difficulty) - 1

/-- Networks that ease to the minimum and stay there. -/
def isPinned : NetworkType → Bool
  | .regtest | .beta => true
  | .mainnet | .testnet => false

/-- The regtest and beta rule: a third of the parent's difficulty. -/
def easedTarget (parent : Hash) : Hash :=
  let parentDiff := calculateDifficultyFromTarget parent
  if parentDiff ≤ minDifficulty then parent
  else fromDifficulty (min (max (parentDiff / 3) minDifficulty) (2 ^ 64 - 1))

/-- `expected_next_target`. -/
def expectedNextTarget (network : NetworkType) (blocks : List DifficultyBlock) (height : ℕ) :
    Hash :=
  let parent := (blocks.getLast?.map (·.target)).getD maxTarget
  if isPinned network then easedTarget parent
  else if 2 ≤ blocks.length then calculateDifficulty blocks height
  else parent

/-! ## The gate of block validation -/

/-- The errors of `validate_difficulty_target`, ratios in thousandths. -/
inductive TargetError
  /-- "Target easier than max_target (minimum difficulty)". -/
  | easierThanMax
  /-- "Target is zero (impossible difficulty)". -/
  | zero
  /-- "Difficulty adjustment out of bounds". -/
  | outOfBounds (ratio minRatio maxRatio : ℕ)
deriving DecidableEq

/-- The adjustment in thousandths; too large a target is cut by ten bits. -/
def ratioScaled (targetValue prevValue : ℕ) : ℕ :=
  if (2 ^ 128 - 1) / 1000 < targetValue then
    targetValue / 2 ^ 10 * 1000 / max (prevValue / 2 ^ 10) 1
  else targetValue * 1000 / prevValue

/-- The allowed ratios, wider after five times the expected time. -/
def ratioBounds (timeDiff : ℕ) : ℕ × ℕ :=
  if targetBlockTime * 5 ≤ timeDiff then (4, 256000) else (31, 32000)

/-- `validate_difficulty_target`, with its error. -/
def validateDifficultyTarget (block : BlockHeader) (prev : Option BlockHeader) :
    Option TargetError :=
  let targetValue := top128 block.target
  if top128 maxTarget < targetValue then some .easierThanMax
  else if block.target = 0 then some .zero
  else
    match prev with
    | none => none
    | some prev =>
      let prevValue := top128 prev.target
      if 0 < prevValue ∧ 0 < targetValue then
        let ratio := ratioScaled targetValue prevValue
        let (minRatio, maxRatio) := ratioBounds (block.timestamp - prev.timestamp)
        if ratio < minRatio ∨ maxRatio < ratio then some (.outOfBounds ratio minRatio maxRatio)
        else none
      else none

end Difficulty

end CoinCync

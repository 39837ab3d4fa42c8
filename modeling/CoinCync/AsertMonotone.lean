import CoinCync.Retarget
import CoinCync.Lib.Scale
import Mathlib.Data.List.GetD

/-!
# ASERT and the time error

A later tip must never make the next target harder. `exactTarget` is the target ASERT aims at, the
anchor's target times two to the exponent without a width; it grows with the exponent. The code
follows it while the exponent is inside the clamp and the value fits 128 bits. Past that the left
shift loses the high bits and the target falls.
-/

namespace CoinCync.Difficulty

open MachineInt Scale

variable {anchor tip : DifficultyBlock} {early late : DifficultyBlock} {target : ℕ}
  {init : List DifficultyBlock} {e : ℤ}

lemma radix_cast : (radix : ℤ) = 65536 := rfl

/-! ## The fractional power -/

lemma mul_div_radix_mono (hst : s ≤ t) (hxy : x ≤ y) (c : ℕ) :
    c + s * x / radix ≤ c + t * y / radix :=
  Nat.add_le_add_left (Nat.div_le_div_right (Nat.mul_le_mul hst hxy)) c

lemma mul_div_radix_le (hx : x < radix) (t : ℕ) : t * x / radix ≤ t :=
  Nat.div_le_of_le_mul (by rw [mul_comm]; exact Nat.mul_le_mul_right t hx.le)

/-- The polynomial grows. -/
lemma pow2Frac_mono (h : x ≤ y) : pow2Frac x ≤ pow2Frac y := by
  have h4 : 3638 + 630 * x / radix ≤ 3638 + 630 * y / radix :=
    mul_div_radix_mono (le_refl _) h _
  exact mul_div_radix_mono (mul_div_radix_mono (mul_div_radix_mono h4 h _) h _) h _

/-- On fractions the polynomial stays below two. -/
lemma pow2Frac_sub_lt (h : x < radix) : pow2Frac x - radix < radix := by
  simp only [pow2Frac]
  have h4 := mul_div_radix_le h 630
  have h3 := mul_div_radix_le h (3638 + 630 * x / radix)
  have h2 := mul_div_radix_le h (15743 + (3638 + 630 * x / radix) * x / radix)
  have h1 := mul_div_radix_le h (45426 + (15743 + (3638 + 630 * x / radix) * x / radix) * x / radix)
  have hradix : radix = 65536 := rfl
  omega

/-! ## The saturating product -/

lemma adjustment_zero (target : ℕ) : adjustment target 0 = 0 := by
  unfold adjustment
  split
  · rw [mul_zero, Nat.zero_div]
  · rw [mul_zero]

lemma adjustment_le (h : extra < radix) (target : ℕ) : adjustment target extra ≤ target := by
  unfold adjustment
  split
  · exact mul_div_radix_le h target
  · exact le_trans (Nat.mul_le_mul_left _ h.le) (Nat.div_mul_le_self target radix)

/-- A target that is divided first is far above the radix. -/
lemma radix_le_div_of_lt {target : ℕ} (hextra : extra < radix)
    (h : (2 ^ 128 - 1) / extra < target) : extra = 0 ∨ radix ≤ target / radix := by
  rcases Nat.eq_zero_or_pos extra with hzero | hpos
  · exact .inl hzero
  · refine .inr ((Nat.le_div_iff_mul_le (by decide)).mpr ?_)
    have hmono : (2 ^ 128 - 1) / radix ≤ (2 ^ 128 - 1) / extra :=
      Nat.div_le_div_left hextra.le hpos
    have hradix : radix * radix ≤ (2 ^ 128 - 1) / radix := by decide
    omega

/-- It grows with the fraction. -/
lemma adjustment_mono (h : a ≤ b) (hb : b < radix) (target : ℕ) :
    adjustment target a ≤ adjustment target b := by
  rcases Nat.eq_zero_or_pos a with rfl | ha
  · rw [adjustment_zero]
    exact Nat.zero_le _
  have hdiv : (2 ^ 128 - 1) / b ≤ (2 ^ 128 - 1) / a := Nat.div_le_div_left h ha
  unfold adjustment
  by_cases htb : target ≤ (2 ^ 128 - 1) / b
  · rw [if_pos htb, if_pos (le_trans htb hdiv)]
    exact Nat.div_le_div_right (Nat.mul_le_mul_left target h)
  split
  case isFalse => exact Nat.mul_le_mul_left _ h
  case isTrue hta =>
    -- The order of the operations changes between `a` and `b`: what the division loses is less
    -- than one more unit of `extra` adds.
    have hlt : a < b := by
      rcases lt_or_eq_of_le h with hlt | rfl
      · exact hlt
      · exact absurd hta htb
    have hlarge : radix ≤ target / radix :=
      (radix_le_div_of_lt hb (Nat.lt_of_not_le htb)).resolve_left (by omega)
    have hmod : target % radix < radix := Nat.mod_lt _ (by decide)
    have hrest : target % radix * a / radix ≤ a := by
      rw [mul_comm]
      exact mul_div_radix_le hmod a
    calc target * a / radix
        = (radix * (target / radix) + target % radix) * a / radix := by
          rw [Nat.div_add_mod]
      _ = target / radix * a + target % radix * a / radix := by
          rw [add_mul, mul_assoc, Nat.mul_add_div (by decide)]
      _ ≤ target / radix * a + target / radix := by omega
      _ = target / radix * (a + 1) := (Nat.mul_succ _ _).symm
      _ ≤ target / radix * b := Nat.mul_le_mul_left _ hlt

/-- The product saturates. -/
lemma safeMulShift_eq (h : target < 2 ^ 128) (fracPow2 : ℕ) :
    safeMulShift target fracPow2 =
      min (target + adjustment target (fracPow2 - radix)) (2 ^ 128 - 1) := by
  simp only [safeMulShift]
  split
  · rename_i hzero
    rw [hzero, adjustment_zero]
    omega
  · rfl

lemma safeMulShift_lt (h : target < 2 ^ 128) (fracPow2 : ℕ) :
    safeMulShift target fracPow2 < 2 ^ 128 := by
  rw [safeMulShift_eq h]
  omega

/-! ## The value ASERT aims at -/

/-- The target at a fixed-point exponent, without a width. -/
def exactTarget (currentTarget : ℕ) (exponentFp : ℤ) : ℕ :=
  scale (exponentFp / radix)
    (safeMulShift currentTarget (pow2Frac (exponentFp % radix).toNat))

lemma emod_radix_toNat_lt (e : ℤ) : (e % radix).toNat < radix := by
  have hpos : (0 : ℤ) < radix := by decide
  have hlt := Int.emod_lt_of_pos e hpos
  omega

/-- A larger exponent aims at a larger target. -/
lemma exactTarget_mono (h : target < 2 ^ 128) {e : ℤ} (hde : d ≤ e) :
    exactTarget target d ≤ exactTarget target e := by
  have hpos : (0 : ℤ) < radix := by decide
  have hd := Int.mul_ediv_add_emod d radix
  have he := Int.mul_ediv_add_emod e radix
  have hdiv : d / radix ≤ e / radix := Int.ediv_le_ediv hpos hde
  unfold exactTarget
  rcases Int.lt_or_eq_of_le hdiv with hlt | heq
  · -- The integer part moves: the fraction below is worth at most a factor of two.
    have hadj := adjustment_le (pow2Frac_sub_lt (emod_radix_toNat_lt d)) target
    refine scale_le_of_lt (c := target) hlt ?_ ?_
    · rw [safeMulShift_eq h]
      omega
    · rw [safeMulShift_eq h]
      omega
  · rw [heq] at hd ⊢
    have hfrac : (d % radix).toNat ≤ (e % radix).toNat := by omega
    refine scale_mono_right _ ?_
    have hadj := adjustment_mono (Nat.sub_le_sub_right (pow2Frac_mono hfrac) radix)
      (pow2Frac_sub_lt (emod_radix_toNat_lt e)) target
    rw [safeMulShift_eq h, safeMulShift_eq h]
    omega

/-- A value past 128 bits was shifted left, so it is even. -/
lemma exactTarget_even (h : target < 2 ^ 128)
    (hover : 2 ^ 128 ≤ exactTarget target e) : ∃ c, exactTarget target e = 2 * c := by
  have hadj := safeMulShift_lt h (pow2Frac (e % radix).toNat)
  unfold exactTarget at hover ⊢
  generalize safeMulShift target (pow2Frac (e % radix).toNat) = adjusted at hadj hover ⊢
  have hpos : 0 < e / radix := by
    by_contra hle
    have hzero := scale_mono_left (Int.not_lt.mp hle) adjusted
    have hsame : scale 0 adjusted = adjusted := mul_one adjusted
    omega
  refine ⟨scale (e / radix - 1) adjusted, ?_⟩
  unfold scale
  rw [if_pos (by omega), if_pos (by omega), ← mul_assoc, mul_comm 2 adjusted,
    mul_assoc, ← Nat.pow_succ', show (e / radix).toNat = (e / radix - 1).toNat + 1 by omega]

/-! ## The exponent -/

/-- A later tip has a larger exponent. -/
lemma exponentFp_mono {e : ℤ} (h : d ≤ e) (halflife : ℕ) (hpos : 0 < halflife) :
    exponentFp d halflife ≤ exponentFp e halflife := by
  refine Int.tdiv_le_tdiv (by exact_mod_cast hpos) ?_
  rw [radix_cast]
  split <;> split <;> (try split) <;> (try split) <;> omega

/-- Inside the clamp the exponent is split by Euclidean division. -/
lemma decomposeFixedPoint_eq (hlo : -(64 * radix) ≤ e) (hhi : e < 65 * radix) :
    decomposeFixedPoint e = (e / radix, (e % radix).toNat) := by
  have hradix' : radix = 65536 := rfl
  simp only [decomposeFixedPoint, hradix']
  split
  · simp only [Prod.mk.injEq, and_true]
    omega
  · split
    · simp only [Prod.mk.injEq]
      omega
    · simp only [Prod.mk.injEq]
      omega

/-- Far ahead of schedule the integer part is at most the clamp. -/
lemma decomposeFixedPoint_fst_le (h : e ≤ -(64 * radix)) : (decomposeFixedPoint e).1 ≤ -64 := by
  have hradix' : radix = 65536 := rfl
  simp only [decomposeFixedPoint, hradix']
  split
  · omega
  · split <;> simp only <;> omega

lemma decomposeFixedPoint_snd_lt (e : ℤ) : (decomposeFixedPoint e).2 < radix := by
  unfold decomposeFixedPoint
  split
  · exact emod_radix_toNat_lt e
  · simp only
    have hpos : 0 < radix := by decide
    split <;> simp only <;> omega

/-- The exponents of `decomposeFixedPoint_eq` pass the clamp. -/
lemma clampInt_ediv (hlo : -(64 * radix) ≤ e) (hhi : e < 65 * radix) :
    clampInt (e / radix) = e / radix := by
  rw [radix_cast] at hlo hhi ⊢
  unfold clampInt maxIntExponent
  omega

/-! ## The shift -/

/-- Up to the width, the shift is the exact scaling with high bits cut. -/
lemma shiftTarget_eq (h : adjusted < 2 ^ 128) (hlo : -64 ≤ i) (hhi : i ≤ 64) :
    shiftTarget adjusted i = max (scale i adjusted % 2 ^ 128) 1 := by
  unfold shiftTarget shlOrMax scale
  by_cases hi : 0 ≤ i
  · rw [if_pos hi, if_pos hi, if_pos (by omega)]
  · simp only [if_neg hi]
    have hle : adjusted / 2 ^ (-i).toNat ≤ adjusted := Nat.div_le_self _ _
    rw [if_neg (by omega), Nat.mod_eq_of_lt (by omega)]

lemma targetAtExponent_eq (h : target < 2 ^ 128) (hlo : -(64 * radix) ≤ e) (hhi : e < 65 * radix) :
    targetAtExponent target e = max (exactTarget target e % 2 ^ 128) 1 := by
  unfold targetAtExponent exactTarget
  rw [decomposeFixedPoint_eq hlo hhi]
  simp only
  rw [clampInt_ediv hlo hhi]
  rw [radix_cast] at hlo hhi ⊢
  exact shiftTarget_eq (safeMulShift_lt h _) (by omega) (by omega)

/-- Far ahead of schedule a small target comes out as one. -/
lemma targetAtExponent_eq_one (h : target < 2 ^ 63)
    (he : e ≤ -(64 * radix)) : targetAtExponent target e = 1 := by
  have hint := decomposeFixedPoint_fst_le he
  have hclamp : clampInt (decomposeFixedPoint e).1 = -64 := by
    unfold clampInt maxIntExponent
    omega
  have hadj := adjustment_le (pow2Frac_sub_lt (decomposeFixedPoint_snd_lt e)) target
  have hlt : safeMulShift target (pow2Frac (decomposeFixedPoint e).2) < 2 ^ 64 := by
    rw [safeMulShift_eq (by omega)]
    omega
  show shiftTarget (safeMulShift target (pow2Frac (decomposeFixedPoint e).2))
    (clampInt (decomposeFixedPoint e).1) = 1
  rw [hclamp, shiftTarget_eq (by omega) (by decide) (by decide)]
  have hzero : scale (-64) (safeMulShift target (pow2Frac (decomposeFixedPoint e).2)) = 0 := by
    rw [scale, if_neg (by decide)]
    exact Nat.div_eq_of_lt hlt
  rw [hzero, Nat.zero_mod, max_eq_right (Nat.zero_le 1)]

/-! ## `apply_asert` -/

/-- The exponent at the parameters of the chain. -/
def chainExponent (anchor tip : DifficultyBlock) : ℤ :=
  exponentFp (timeError anchor tip targetBlockTime) asertHalflife

/-- At most 64 halflives ahead of schedule, or the result is one anyway. -/
def NotTooEarly (anchor tip : DifficultyBlock) : Prop :=
  -(64 * asertHalflife) ≤ timeError anchor tip targetBlockTime ∨ targetToU128 anchor.target < 2 ^ 63

instance (anchor tip : DifficultyBlock) : Decidable (NotTooEarly anchor tip) :=
  inferInstanceAs (Decidable (_ ∨ _))

/-- Less than 65 halflives behind schedule, and the target aimed at fits 128 bits. -/
def NotTooLate (anchor tip : DifficultyBlock) : Prop :=
  timeError anchor tip targetBlockTime < 65 * asertHalflife ∧
    exactTarget (targetToU128 anchor.target) (chainExponent anchor tip) < 2 ^ 128

instance (anchor tip : DifficultyBlock) : Decidable (NotTooLate anchor tip) :=
  inferInstanceAs (Decidable (_ ∧ _))

/-- Two times of a tip for which ASERT computes what it aims at. -/
def InRange (anchor early late : DifficultyBlock) : Prop :=
  early.height ≤ anchor.height ∨ NotTooEarly anchor early ∧ NotTooLate anchor late

instance (anchor early late : DifficultyBlock) : Decidable (InRange anchor early late) :=
  inferInstanceAs (Decidable (_ ∨ _))

lemma exponentFp_clamp : exponentFp (-(64 * asertHalflife)) asertHalflife = -(64 * radix) := by
  decide

lemma le_chainExponent (h : -(64 * asertHalflife) ≤ timeError anchor tip targetBlockTime) :
    -(64 * radix) ≤ chainExponent anchor tip := by
  exact exponentFp_mono h asertHalflife (by decide)

lemma chainExponent_lt (h : timeError anchor tip targetBlockTime < 65 * asertHalflife) :
    chainExponent anchor tip < 65 * radix := by
  have hmono := exponentFp_mono (Int.le_sub_one_of_lt h) asertHalflife (by decide)
  have hvalue : exponentFp (65 * asertHalflife - 1) asertHalflife < 65 * radix := by decide
  exact Int.lt_of_le_of_lt hmono hvalue

/-- At the parameters of the chain. -/
lemma applyAsert_eq (h : anchor.height < tip.height) (target : ℕ) :
    applyAsert target anchor tip targetBlockTime asertHalflife =
      targetAtExponent target (chainExponent anchor tip) := by
  rw [applyAsert, if_neg (by omega)]
  rfl

/-- In range, a later tip gives an easier target. -/
lemma applyAsert_mono
    (hheight : early.height = late.height) (htime : early.timestamp ≤ late.timestamp)
    (hrange : InRange anchor early late) :
    applyAsert (targetToU128 anchor.target) anchor early targetBlockTime asertHalflife ≤
      applyAsert (targetToU128 anchor.target) anchor late targetBlockTime asertHalflife := by
  have herror : timeError anchor early targetBlockTime ≤ timeError anchor late targetBlockTime := by
    unfold timeError
    rw [hheight]
    omega
  have htarget := targetToU128_lt anchor.target
  rcases lt_or_ge anchor.height early.height with habove | hbelow
  case inr =>
    unfold applyAsert
    rw [if_pos (by omega), if_pos (by omega)]
  obtain hle | ⟨hearly, hlate, hfits⟩ := hrange
  · omega
  rw [applyAsert_eq habove, applyAsert_eq (hheight ▸ habove)]
  have hhi := chainExponent_lt hlate
  have hmono : chainExponent anchor early ≤ chainExponent anchor late :=
    exponentFp_mono herror asertHalflife (by decide)
  rcases lt_or_ge (timeError anchor early targetBlockTime) (-(64 * asertHalflife)) with hlt | hge
  · have hsmall := hearly.resolve_left (by omega)
    have hfar : chainExponent anchor early ≤ -(64 * radix) := by
      exact exponentFp_mono hlt.le asertHalflife (by decide)
    rw [targetAtExponent_eq_one hsmall hfar]
    exact le_max_right _ _
  · have hlo := le_chainExponent hge
    have hexact := exactTarget_mono htarget hmono
    rw [targetAtExponent_eq htarget hlo (by omega), targetAtExponent_eq htarget (by omega) hhi,
      Nat.mod_eq_of_lt hfits, Nat.mod_eq_of_lt (by omega)]
    omega

/-- The result is the exact value cut at 128 bits only where nothing is cut. -/
lemma applyAsert_saturates_iff (habove : anchor.height < tip.height)
    (hlo : -(64 * asertHalflife) ≤ timeError anchor tip targetBlockTime)
    (hhi : timeError anchor tip targetBlockTime < 65 * asertHalflife) :
    applyAsert (targetToU128 anchor.target) anchor tip targetBlockTime asertHalflife =
        min (max (exactTarget (targetToU128 anchor.target) (chainExponent anchor tip)) 1)
          (2 ^ 128 - 1) ↔
      exactTarget (targetToU128 anchor.target) (chainExponent anchor tip) < 2 ^ 128 := by
  have htarget := targetToU128_lt anchor.target
  rw [applyAsert_eq habove,
    targetAtExponent_eq htarget (le_chainExponent hlo) (chainExponent_lt hhi)]
  constructor
  · intro heq
    by_contra hover
    obtain ⟨c, hc⟩ := exactTarget_even htarget (Nat.le_of_not_lt hover)
    omega
  · omega

/-! ## The window with a later tip -/

/-- The window with the time of its last block moved. -/
def withTip (init : List DifficultyBlock) (tip : DifficultyBlock) (timestamp : ℕ) :
    List DifficultyBlock :=
  init ++ [{ tip with timestamp := timestamp }]

section WithTip

variable (init : List DifficultyBlock) (tip : DifficultyBlock)

lemma length_withTip (t : ℕ) : (withTip init tip t).length = init.length + 1 := by
  simp [withTip]

lemma getLast?_withTip (t : ℕ) :
    (withTip init tip t).getLast? = some { tip with timestamp := t } := by
  simp [withTip]

lemma anchorIndex_withTip (s t depth : ℕ) :
    anchorIndex (withTip init tip s) depth = anchorIndex (withTip init tip t) depth := by
  have hheights : ∀ i : ℕ, (withTip init tip s)[i]?.map (·.height)
      = (withTip init tip t)[i]?.map (·.height) := by
    intro i
    rw [← List.getElem?_map, ← List.getElem?_map]
    simp [withTip]
  simp only [anchorIndex, length_withTip, hheights]

/-- The anchor is a block below the tip, or the tip itself. -/
lemma getAnchor_withTip (hdepth : 0 < depth) :
    (∃ anchor, ∀ t, getAnchor (withTip init tip t) depth = anchor) ∨
      ∀ t, getAnchor (withTip init tip t) depth = { tip with timestamp := t } := by
  have hindex : ∀ t, anchorIndex (withTip init tip t) depth ≤ init.length := by
    intro t
    simp only [anchorIndex, length_withTip]
    split <;> omega
  rcases lt_or_eq_of_le (hindex 0) with hlt | heq
  · refine .inl ⟨init.getD (anchorIndex (withTip init tip 0) depth) default, fun t => ?_⟩
    rw [getAnchor, anchorIndex_withTip init tip t 0, withTip, List.getD_append _ _ _ _ hlt]
  · refine .inr fun t => ?_
    rw [getAnchor, anchorIndex_withTip init tip t 0, heq, withTip,
      List.getD_append_right _ _ _ _ (le_refl _), Nat.sub_self]
    rfl

/-- At the anchor of a window. -/
lemma anchoredTarget_mono (hst : s ≤ t) (hdepth : 0 < depth)
    (hrange : InRange (getAnchor (withTip init tip s) depth) { tip with timestamp := s }
      { tip with timestamp := t }) :
    anchoredTarget (withTip init tip s) { tip with timestamp := s } depth ≤
      anchoredTarget (withTip init tip t) { tip with timestamp := t } depth := by
  unfold anchoredTarget
  rcases getAnchor_withTip init tip hdepth with ⟨anchor, hanchor⟩ | htip
  · rw [hanchor] at hrange
    simp only [hanchor]
    exact applyAsert_mono rfl hst hrange
  · simp only [htip, applyAsert, Nat.sub_self, if_true]
    exact le_refl _

end WithTip

/-- An emergency stays one. -/
lemma needsEmergencyDrop_mono {tip : DifficultyBlock} (hst : s ≤ t)
    (h : needsEmergencyDrop (withTip init tip s) height = true) :
    needsEmergencyDrop (withTip init tip t) height = true := by
  unfold needsEmergencyDrop at h ⊢
  simp only [length_withTip, getLast?_withTip] at h ⊢
  split at h
  · cases h
  split at h
  · cases h
  rename_i hheight hmany
  rw [if_neg hheight, if_neg hmany]
  have hbefore : init.length + 1 - emergencyDifficultyBlocks < init.length := by
    have hblocks : emergencyDifficultyBlocks = 12 := rfl
    omega
  simp only [withTip, List.getElem?_append_left hbefore] at h ⊢
  cases hcheck : init[init.length + 1 - emergencyDifficultyBlocks]? with
  | none => rw [hcheck] at h; cases h
  | some check =>
    rw [hcheck] at h
    simp only [decide_eq_true_eq] at h ⊢
    omega

/-! ## Mean, clamps and emergency -/

lemma safeMulU128_mono (h : a ≤ b) : safeMulU128 a c ≤ safeMulU128 b c := by
  have hmul := Nat.mul_le_mul_right c h
  unfold safeMulU128 satMul
  omega

lemma combine_mono (hs : s ≤ s') (hl : l ≤ l') : combine s l ≤ combine s' l' := by
  have hshort : safeMulU128 s shortWeight ≤ safeMulU128 s' shortWeight := safeMulU128_mono hs
  have hlong : safeMulU128 l longWeight ≤ safeMulU128 l' longWeight := safeMulU128_mono hl
  refine Nat.div_le_div_right ?_
  unfold satAdd
  omega

lemma clamp_mono (h : a ≤ b) (lo hi : ℕ) : clamp a lo hi ≤ clamp b lo hi := by
  unfold clamp
  omega

lemma maxBound_mono (tipTarget : ℕ) (h : a ≤ b) : maxBound tipTarget a ≤ maxBound tipTarget b := by
  have hmul : tipTarget * (maxDifficultyAdjNum * a) ≤ tipTarget * (maxDifficultyAdjNum * b) :=
    Nat.mul_le_mul_left _ (Nat.mul_le_mul_left _ h)
  have hden : maxDifficultyAdjDen = 1 := rfl
  unfold maxBound safeMulU128 satMul
  rw [hden]
  omega

/-- Clamps and emergency. -/
lemma finalTarget_mono (htip : tipTarget < 2 ^ 128) (hab : a ≤ b) {early late : Bool}
    (hemergency : early = true → late = true) :
    finalTarget tipTarget a early ≤ finalTarget tipTarget b late := by
  have hclamp := clamp_mono hab (minBound tipTarget) (maxBound tipTarget 1)
  unfold finalTarget
  cases early with
  | true =>
    rw [hemergency rfl]
    exact clamp_mono (safeMulU128_mono hclamp) _ _
  | false =>
    cases late with
    | false => exact hclamp
    | true =>
      -- The emergency only eases: it starts from the clamped target and widens the upper bound.
      have hwide := maxBound_mono tipTarget (show 1 ≤ emergencyDropFactor by decide)
      have hfits := maxBound_lt htip 1
      have hfactor : emergencyDropFactor = 4 := rfl
      simp only [if_true, Bool.false_eq_true, if_false]
      unfold clamp safeMulU128 satMul at *
      rw [hfactor] at hwide ⊢
      omega

lemma u128ToTarget_mono (h : a ≤ b) : u128ToTarget a ≤ u128ToTarget b := by
  exact Nat.mul_le_mul_right _ (by omega)

/-! ## The next target -/

/-- The rule over a window. -/
lemma calculateDifficulty_withTip (hinit : init ≠ []) (tip : DifficultyBlock) (t height : ℕ) :
    calculateDifficulty (withTip init tip t) height =
      u128ToTarget (finalTarget (targetToU128 tip.target)
        (combine (anchoredTarget (withTip init tip t) { tip with timestamp := t } shortWindow)
          (anchoredTarget (withTip init tip t) { tip with timestamp := t } longWindow))
        (needsEmergencyDrop (withTip init tip t) height)) := by
  have hlength : 2 ≤ (withTip init tip t).length := by
    rw [length_withTip]
    exact Nat.succ_le_succ (List.length_pos_iff.mpr hinit)
  exact calculateDifficulty_eq hlength (getLast?_withTip init tip t) height

/-- The ASERT rule is monotone in the time of the tip, over a whole window and at one anchor, as
long as the exponent is inside the clamp and the value aimed at fits 128 bits. Where it does not
fit, `apply_asert` does not saturate. -/
theorem calculateDifficulty_mono_in_range (tip : DifficultyBlock) :
    (∀ (init : List DifficultyBlock) (s t height : ℕ), init ≠ [] → s ≤ t →
      (∀ depth ∈ [shortWindow, longWindow],
        InRange (getAnchor (withTip init tip s) depth) { tip with timestamp := s }
          { tip with timestamp := t }) →
      calculateDifficulty (withTip init tip s) height ≤
        calculateDifficulty (withTip init tip t) height) ∧
    (∀ anchor late : DifficultyBlock, tip.height = late.height →
      tip.timestamp ≤ late.timestamp → InRange anchor tip late →
      applyAsert (targetToU128 anchor.target) anchor tip targetBlockTime asertHalflife ≤
        applyAsert (targetToU128 anchor.target) anchor late targetBlockTime asertHalflife) ∧
    (∀ anchor : DifficultyBlock, anchor.height < tip.height →
      -(64 * asertHalflife) ≤ timeError anchor tip targetBlockTime →
      timeError anchor tip targetBlockTime < 65 * asertHalflife →
      (applyAsert (targetToU128 anchor.target) anchor tip targetBlockTime asertHalflife =
          min (max (exactTarget (targetToU128 anchor.target) (chainExponent anchor tip)) 1)
            (2 ^ 128 - 1) ↔
        exactTarget (targetToU128 anchor.target) (chainExponent anchor tip) < 2 ^ 128)) := by
  refine ⟨fun init s t height hinit hst hrange => ?_, fun _ _ => applyAsert_mono,
    fun _ => applyAsert_saturates_iff⟩
  rw [calculateDifficulty_withTip hinit, calculateDifficulty_withTip hinit]
  refine u128ToTarget_mono (finalTarget_mono (targetToU128_lt _) ?_ (needsEmergencyDrop_mono hst))
  refine combine_mono ?_ ?_
  · exact anchoredTarget_mono init tip hst (by decide) (hrange _ (by simp))
  · exact anchoredTarget_mono init tip hst (by decide) (hrange _ (by simp))

/-- A block near the easiest target the chain allows. -/
def easyBlock (height timestamp : ℕ) : DifficultyBlock :=
  { height := height, timestamp := timestamp, target := u128ToTarget (2 ^ 119) }

/-- The theorem at an ordinary pair of blocks, ten minutes or two hours apart. -/
theorem calculateDifficulty_mono_two_blocks :
    calculateDifficulty (withTip [easyBlock 1 1000] (easyBlock 2 0) 1600) 3 ≤
      calculateDifficulty (withTip [easyBlock 1 1000] (easyBlock 2 0) 8200) 3 :=
  (calculateDifficulty_mono_in_range (easyBlock 2 0)).1 [easyBlock 1 1000] 1600 8200 3 (by simp)
    (by decide) (by decide +kernel)

/-- Nine halflives behind schedule every bit is shifted out and the target is halved; one halflife
less gave the easiest target. -/
theorem calculateDifficulty_harder_after_stall :
    calculateDifficulty (withTip [easyBlock 1 1000] (easyBlock 2 0) (1120 + 8 * 3600)) 3 =
        u128ToTarget targetCeiling ∧
      calculateDifficulty (withTip [easyBlock 1 1000] (easyBlock 2 0) (1120 + 9 * 3600)) 3 =
        u128ToTarget (2 ^ 118) ∧
      u128ToTarget (2 ^ 118) < u128ToTarget targetCeiling := by
  decide +kernel

end CoinCync.Difficulty

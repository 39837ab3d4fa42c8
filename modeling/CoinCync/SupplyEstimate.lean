import CoinCync.EmissionCurve
import Mathlib.Tactic.Linarith
import Mathlib.Tactic.Ring

/-!
# How far the supply estimate is off

The integrator against the recurrence that adds the reward of every single block (`exactSupply`).
Holding a reward for a whole step is ahead of the exact supply, and within a thousandth as long as
the reward held is within a thousandth of the exact one in every block (`thousandth_succ`). On the
grids of step 10, 100 and 1000 that holds everywhere; on the grid of step 10,000 the estimate starts
too far ahead and comes back within a thousandth only at height 3,240,744.
-/

namespace CoinCync

/-- The recurrence the estimate is compared with. -/
def exactSupply : ℕ → ℕ
  | 0 => 0
  | n + 1 => min capAtomic (exactSupply n + baseRewardFromSupply (exactSupply n))

lemma baseRewardFromSupply_eq (s : ℕ) : baseRewardFromSupply s
    = max ((100000000000000000000 - s) / 2000000) 600000000000 := rfl

lemma capAtomic_eq : capAtomic = 100000000000000000000 := rfl

/-- The recurrence, without the cut. -/
lemma nodeSupply_one_succ (h : ℕ) :
    nodeSupply 1 (h + 1) = nodeSupply 1 h + baseRewardFromSupply (nodeSupply 1 h) := by
  rw [nodeSupply, mul_one]

/-- The recurrence is the grid of step one, cut at the cap. -/
lemma exactSupply_eq (h : ℕ) : exactSupply h = min capAtomic (nodeSupply 1 h) := by
  induction h with
  | zero => rfl
  | succ h ih =>
    rw [exactSupply, ih, nodeSupply_one_succ]
    by_cases hcap : nodeSupply 1 h ≤ capAtomic
    · rw [min_eq_right hcap]
    · omega

/-! ## Two grids -/

/-- A reward moves by the change of supply over the divisor at most. -/
lemma baseRewardFromSupply_le_add (h : s ≤ t) :
    baseRewardFromSupply s ≤ baseRewardFromSupply t + (t - s) / 2000000 + 1 := by
  rw [baseRewardFromSupply_eq, baseRewardFromSupply_eq]
  omega

/-- Rewards only fall: the first bounds those after it. -/
lemma nodeSupply_one_add_le (h k : ℕ) :
    nodeSupply 1 (h + k) ≤ nodeSupply 1 h + baseRewardFromSupply (nodeSupply 1 h) * k := by
  induction k with
  | zero => exact Nat.le_add_right _ _
  | succ k ih =>
    have hle : baseRewardFromSupply (nodeSupply 1 (h + k)) ≤ baseRewardFromSupply (nodeSupply 1 h) :=
      baseRewardFromSupply_antitone (nodeSupply_mono (Nat.le_add_right h k))
    rw [← add_assoc, nodeSupply_one_succ, Nat.mul_add_one]
    omega

/-- Behind the exact supply by no more than the step, if the node is. -/
lemma nodeSupply_one_le_of_node (hstep : step ≤ 2000000) (hk : k ≤ step)
    (hnode : nodeSupply 1 (i * step) ≤ nodeSupply step i + step) :
    nodeSupply 1 (i * step + k)
      ≤ nodeSupply step i + baseRewardFromSupply (nodeSupply step i) * k + step := by
  have hsum := nodeSupply_one_add_le (i * step) k
  set u := nodeSupply 1 (i * step)
  set x := nodeSupply step i
  by_cases hux : x ≤ u
  · have hreward := Nat.mul_le_mul_right k (baseRewardFromSupply_antitone hux)
    omega
  · -- the estimate is ahead: what the exact rewards gain on it is what it was ahead
    have hreward := Nat.mul_le_mul_right k (baseRewardFromSupply_le_add (s := u) (t := x) (by omega))
    have hgain : (x - u) / 2000000 * k ≤ x - u :=
      (Nat.mul_le_mul_left _ (hk.trans hstep)).trans (Nat.div_mul_le_self _ _)
    rw [add_mul, add_mul] at hreward
    omega

lemma nodeSupply_one_le_node (hstep : step ≤ 2000000) (i : ℕ) :
    nodeSupply 1 (i * step) ≤ nodeSupply step i + step := by
  induction i with
  | zero => simp [nodeSupply]
  | succ i ih =>
    rw [Nat.add_one_mul]
    exact nodeSupply_one_le_of_node hstep (le_refl step) ih

/-- Both sums agree up to one step's worth of rounding. -/
lemma nodeSupply_one_le (hpos : 0 < step) (hstep : step ≤ 2000000) (h : ℕ) :
    nodeSupply 1 h ≤ supplyInSteps step h + step := by
  have hheight : h = h / step * step + h % step := by rw [mul_comm, Nat.div_add_mod]
  have hle := nodeSupply_one_le_of_node hstep (le_of_lt (Nat.mod_lt h hpos))
    (nodeSupply_one_le_node hstep (h / step))
  rw [← hheight] at hle
  exact hle

/-! ## Within a thousandth -/

/-- The node's reward is within a thousandth of the exact one. -/
def RewardClose (step h : ℕ) : Prop :=
  1000 * baseRewardFromSupply (nodeSupply step (h / step))
    ≤ 1001 * baseRewardFromSupply (nodeSupply 1 h)

lemma thousandth_succ (hpos : 0 < step) (hclose : RewardClose step h)
    (hle : 1000 * supplyInSteps step h ≤ 1001 * nodeSupply 1 h) :
    1000 * supplyInSteps step (h + 1) ≤ 1001 * nodeSupply 1 (h + 1) := by
  unfold RewardClose at hclose
  rw [supplyInSteps_succ hpos, nodeSupply_one_succ]
  omega

/-- Once within a thousandth, always, if rewards are close. -/
lemma thousandth_of_le (hpos : 0 < step) (hle : h ≤ k) (hclose : ∀ j, h ≤ j → RewardClose step j)
    (hh : 1000 * supplyInSteps step h ≤ 1001 * nodeSupply 1 h) :
    1000 * supplyInSteps step k ≤ 1001 * nodeSupply 1 k := by
  induction k, hle using Nat.le_induction with
  | base => exact hh
  | succ k hk ih => exact thousandth_succ hpos (hclose k hk) ih

/-- On the finer grids they are. -/
lemma rewardClose_of_step_le (hpos : 0 < step) (hstep : step ≤ 1000) (h : ℕ) :
    RewardClose step h := by
  have hle := nodeSupply_one_le hpos (hstep.trans (by decide)) h
  have htail := tailEmission_le_baseRewardFromSupply (nodeSupply step (h / step))
  have hk := Nat.mod_lt h hpos
  have hmul : baseRewardFromSupply (nodeSupply step (h / step)) * (h % step)
      ≤ baseRewardFromSupply (nodeSupply step (h / step)) * 1000 :=
    Nat.mul_le_mul_left _ (by omega)
  unfold supplyInSteps at hle
  unfold RewardClose
  generalize nodeSupply step (h / step) = x at *
  generalize hr : baseRewardFromSupply x = r at *
  have hanti := baseRewardFromSupply_antitone (hle.trans (Nat.add_le_add_right
    (Nat.add_le_add_left hmul x) step))
  have hdiff := baseRewardFromSupply_le_add (s := x) (t := x + r * 1000 + step) (by omega)
  rw [tailEmission] at htail
  omega

/-- So those are within a thousandth everywhere. -/
lemma thousandth_of_step_le (hpos : 0 < step) (hstep : step ≤ 1000) (h : ℕ) :
    1000 * supplyInSteps step h ≤ 1001 * nodeSupply 1 h :=
  thousandth_of_le hpos (Nat.zero_le h) (fun j _ => rewardClose_of_step_le hpos hstep j)
    (by simp [supplyInSteps, nodeSupply])

/-! ## What remains of the cap

Away from the tail what remains shrinks by a factor `1999999 / 2000000` a block, up to rounding. Over a
step of the coarsest grid the factor lies between `decayLow` and `decayLow + 1`, in units of
`decayUnit`. -/

/-- The cap less the exact supply. -/
def remaining (h : ℕ) : ℕ := capAtomic - nodeSupply 1 h

lemma nodeSupply_one_le_sub (hpos : 0 < M) (hM : M ≤ remaining h) :
    nodeSupply 1 h ≤ capAtomic - M := by
  unfold remaining at hM
  omega

lemma sub_le_nodeSupply_one (hM : remaining h ≤ M) : capAtomic - M ≤ nodeSupply 1 h := by
  unfold remaining at hM
  omega

/-- The asymptotic reward is still above the tail. -/
def BeforeTail (h : ℕ) : Prop := nodeSupply 1 h + 1200000000000000000 ≤ capAtomic

lemma BeforeTail.of_le (hk : BeforeTail k) (hle : h ≤ k) : BeforeTail h := by
  have hmono : nodeSupply 1 h ≤ nodeSupply 1 k := nodeSupply_mono hle
  unfold BeforeTail at *
  omega

/-- The reward is a fraction of what remains. -/
lemma BeforeTail.reward_eq (hh : BeforeTail h) :
    baseRewardFromSupply (nodeSupply 1 h) = remaining h / 2000000 := by
  unfold BeforeTail at hh
  rw [baseRewardFromSupply_eq, remaining]
  rw [capAtomic_eq] at *
  omega

/-- What remains shrinks by it. -/
lemma BeforeTail.remaining_succ (hh : BeforeTail h) :
    remaining (h + 1) = remaining h - remaining h / 2000000 := by
  rw [remaining, nodeSupply_one_succ, hh.reward_eq, remaining]
  omega

/-- Never less than the exact decay. -/
lemma mul_pow_le_remaining (hk : BeforeTail (h + k)) :
    remaining h * 1999999 ^ k ≤ remaining (h + k) * 2000000 ^ k := by
  induction k with
  | zero => simp
  | succ k ih =>
    have hbefore : BeforeTail (h + k) := hk.of_le (by omega)
    have hstep : remaining (h + k) * 1999999 ≤ remaining (h + (k + 1)) * 2000000 := by
      rw [← add_assoc, hbefore.remaining_succ]
      omega
    calc remaining h * 1999999 ^ (k + 1)
        = remaining h * 1999999 ^ k * 1999999 := by ring
      _ ≤ remaining (h + k) * 2000000 ^ k * 1999999 := Nat.mul_le_mul_right _ (ih hbefore)
      _ = remaining (h + k) * 1999999 * 2000000 ^ k := by ring
      _ ≤ remaining (h + (k + 1)) * 2000000 * 2000000 ^ k := Nat.mul_le_mul_right _ hstep
      _ = remaining (h + (k + 1)) * 2000000 ^ (k + 1) := by ring

/-- Rounding rewards down leaves at most the divisor. -/
lemma remaining_le_mul_pow (hk : BeforeTail (h + k)) :
    (remaining (h + k) - 2000000) * 2000000 ^ k ≤ (remaining h - 2000000) * 1999999 ^ k := by
  induction k with
  | zero => simp
  | succ k ih =>
    have hbefore : BeforeTail (h + k) := hk.of_le (by omega)
    have hstep : (remaining (h + (k + 1)) - 2000000) * 2000000
        ≤ (remaining (h + k) - 2000000) * 1999999 := by
      rw [← add_assoc, hbefore.remaining_succ]
      omega
    calc (remaining (h + (k + 1)) - 2000000) * 2000000 ^ (k + 1)
        = (remaining (h + (k + 1)) - 2000000) * 2000000 * 2000000 ^ k := by ring
      _ ≤ (remaining (h + k) - 2000000) * 1999999 * 2000000 ^ k := Nat.mul_le_mul_right _ hstep
      _ = (remaining (h + k) - 2000000) * 2000000 ^ k * 1999999 := by ring
      _ ≤ (remaining h - 2000000) * 1999999 ^ k * 1999999 := Nat.mul_le_mul_right _ (ih hbefore)
      _ = (remaining h - 2000000) * 1999999 ^ (k + 1) := by ring

/-- The unit of the decay factors. -/
def decayUnit : ℕ := 10 ^ 30

/-- The decay over a coarsest step, rounded down. -/
def decayLow : ℕ := 995012477948916300550376904110

lemma decayLow_le : decayLow * 2000000 ^ 10000 ≤ decayUnit * 1999999 ^ 10000 := by decide +kernel

lemma le_decayHigh : decayUnit * 1999999 ^ 10000 ≤ (decayLow + 1) * 2000000 ^ 10000 := by
  decide +kernel

/-- A lower bound `a / u` of the factor over `k` blocks. -/
lemma le_remaining_add (hh : BeforeTail (h + k)) (hlow : low ≤ remaining h) (hu : 0 < u)
    (ha : a * 2000000 ^ k ≤ u * 1999999 ^ k) (hM : M * u ≤ low * a) : M ≤ remaining (h + k) := by
  have hpos : 0 < u * 2000000 ^ k := mul_pos hu (Nat.pow_pos (by decide))
  apply Nat.le_of_mul_le_mul_right _ hpos
  calc M * (u * 2000000 ^ k)
      = M * u * 2000000 ^ k := (mul_assoc _ _ _).symm
    _ ≤ low * a * 2000000 ^ k := Nat.mul_le_mul_right _ hM
    _ = low * (a * 2000000 ^ k) := mul_assoc _ _ _
    _ ≤ remaining h * (u * 1999999 ^ k) := Nat.mul_le_mul hlow ha
    _ = u * (remaining h * 1999999 ^ k) := mul_left_comm _ _ _
    _ ≤ u * (remaining (h + k) * 2000000 ^ k) := Nat.mul_le_mul_left _ (mul_pow_le_remaining hh)
    _ = remaining (h + k) * (u * 2000000 ^ k) := mul_left_comm _ _ _

/-- An upper bound of the factor bounds it from above. -/
lemma remaining_add_le (hh : BeforeTail (h + k)) (hhigh : remaining h ≤ high + 2000000)
    (hb : u * 1999999 ^ k ≤ b * 2000000 ^ k) : (remaining (h + k) - 2000000) * u ≤ high * b := by
  have hle := (remaining_le_mul_pow hh).trans
    (Nat.mul_le_mul_right (1999999 ^ k) (Nat.sub_le_iff_le_add.mpr hhigh))
  apply Nat.le_of_mul_le_mul_right _ (Nat.pow_pos (by decide) : 0 < 2000000 ^ k)
  calc (remaining (h + k) - 2000000) * u * 2000000 ^ k
      = u * ((remaining (h + k) - 2000000) * 2000000 ^ k) := by ring
    _ ≤ u * (high * 1999999 ^ k) := Nat.mul_le_mul_left _ hle
    _ = high * (u * 1999999 ^ k) := mul_left_comm _ _ _
    _ ≤ high * (b * 2000000 ^ k) := Nat.mul_le_mul_left _ hb
    _ = high * b * 2000000 ^ k := (mul_assoc _ _ _).symm

/-- A lower bound of what remains at the coarsest nodes. -/
def remainingLow : ℕ → ℕ
  | 0 => capAtomic
  | i + 1 => remainingLow i * decayLow / decayUnit

/-- An upper bound, up to the divisor. -/
def remainingHigh : ℕ → ℕ
  | 0 => capAtomic - 2000000
  | i + 1 => remainingHigh i * (decayLow + 1) / decayUnit

lemma remaining_bounds (hi : BeforeTail (i * 10000)) :
    remainingLow i ≤ remaining (i * 10000) ∧ remaining (i * 10000) ≤ remainingHigh i + 2000000 := by
  induction i with
  | zero =>
    exact ⟨le_refl _, by decide⟩
  | succ i ih =>
    rw [Nat.add_one_mul] at hi ⊢
    obtain ⟨hlow, hhigh⟩ := ih (hi.of_le (Nat.le_add_right _ _))
    constructor
    · exact le_remaining_add hi hlow (by decide) decayLow_le (Nat.div_mul_le_self _ _)
    · exact Nat.sub_le_iff_le_add.mp ((Nat.le_div_iff_mul_le (by decide)).mpr
        (remaining_add_le hi hhigh le_decayHigh))

/-! ## The coarsest grid -/

lemma beforeTail_3250000 : BeforeTail (325 * 10000) := by
  have hle : nodeSupply 1 (325 * 10000) ≤ nodeSupply 10000 325 + 10000 :=
    nodeSupply_one_le_node (by decide) 325
  have hnode : nodeSupply 10000 325 + 10000 + 1200000000000000000 ≤ capAtomic := by decide +kernel
  exact (Nat.add_le_add_right hle _).trans hnode

/-- During the step the reward stays within a thousandth, or the node is at the tail. -/
def NodeClose (i : ℕ) : Prop :=
  20081 * (capAtomic - nodeSupply 10000 i) ≤ 20000 * (remaining (i * 10000) + 3000000) ∨
    capAtomic - nodeSupply 10000 i < 1200000000000000000

lemma nodeClose_324 : NodeClose 324 := by
  left
  have hlow := (remaining_bounds (i := 324) (beforeTail_3250000.of_le (by decide))).1
  have hcheck : 20081 * (capAtomic - nodeSupply 10000 324) ≤ 20000 * (remainingLow 324 + 3000000) := by
    decide +kernel
  exact hcheck.trans (Nat.mul_le_mul_left _ (Nat.add_le_add_right hlow _))

/-- The reward of a node, and a bound for what is left during its step. -/
lemma NodeClose.rewards
    (h : 20081 * (capAtomic - nodeSupply 10000 i) ≤ 20000 * (remaining (i * 10000) + 3000000))
    (hnode : 1200000000000000000 ≤ capAtomic - nodeSupply 10000 i) (hk : k ≤ 10000) :
    baseRewardFromSupply (nodeSupply 10000 i) = (capAtomic - nodeSupply 10000 i) / 2000000 ∧
      remaining (i * 10000) - 10000 * (remaining (i * 10000) / 2000000)
        ≤ remaining (i * 10000 + k) := by
  have hbefore : BeforeTail (i * 10000) := by
    unfold BeforeTail remaining at *
    omega
  have hsum := nodeSupply_one_add_le (i * 10000) k
  rw [hbefore.reward_eq] at hsum
  have hmul : remaining (i * 10000) / 2000000 * k ≤ remaining (i * 10000) / 2000000 * 10000 :=
    Nat.mul_le_mul_left _ hk
  constructor
  · rw [baseRewardFromSupply_eq]
    rw [capAtomic_eq] at *
    omega
  · unfold remaining at *
    omega

lemma NodeClose.succ (h : NodeClose i) : NodeClose (i + 1) := by
  have hnext : nodeSupply 10000 (i + 1)
      = nodeSupply 10000 i + baseRewardFromSupply (nodeSupply 10000 i) * 10000 := rfl
  by_cases hnode : capAtomic - nodeSupply 10000 i < 1200000000000000000
  · right
    omega
  · have hratio := h.resolve_right hnode
    obtain ⟨hreward, hleft⟩ := NodeClose.rewards hratio (by omega) (le_refl 10000)
    left
    rw [Nat.add_one_mul i 10000]
    omega

lemma nodeClose_of_ge (hi : 324 ≤ i) : NodeClose i := by
  induction i, hi using Nat.le_induction with
  | base => exact nodeClose_324
  | succ i _ ih => exact ih.succ

/-- From height 3,240,000 on rewards are within a thousandth. -/
lemma rewardClose_of_ge (hh : 3240000 ≤ h) : RewardClose 10000 h := by
  have hheight : h / 10000 * 10000 + h % 10000 = h := by omega
  have hclose := nodeClose_of_ge (i := h / 10000) (by omega)
  have htail := tailEmission_le_baseRewardFromSupply (nodeSupply 1 h)
  unfold RewardClose
  generalize h / 10000 = i at *
  by_cases hnode : capAtomic - nodeSupply 10000 i < 1200000000000000000
  · have hreward : baseRewardFromSupply (nodeSupply 10000 i) = tailEmission := by
      rw [baseRewardFromSupply_eq, tailEmission]
      rw [capAtomic_eq] at hnode
      omega
    omega
  · obtain ⟨hreward, hleft⟩ := NodeClose.rewards (hclose.resolve_right hnode) (by omega)
      (show h % 10000 ≤ 10000 by omega)
    rw [hheight] at hleft
    have hge : remaining h / 2000000 ≤ baseRewardFromSupply (nodeSupply 1 h) := le_max_left _ _
    have hratio := hclose.resolve_right hnode
    omega

/-- The last height at which the estimate is too far ahead. -/
lemma ahead_3240743 : 1001 * nodeSupply 1 3240743 < 1000 * supplyInSteps 10000 3240743 := by
  have hlow := (remaining_bounds (i := 324) (beforeTail_3250000.of_le (by decide))).1
  have hbefore : BeforeTail (324 * 10000 + 743) := beforeTail_3250000.of_le (by decide)
  have hle : 19782511320000000000 ≤ remaining (324 * 10000 + 743) :=
    le_remaining_add (a := 1999999 ^ 743) (u := 2000000 ^ 743) hbefore hlow (Nat.pow_pos (by decide))
      (by rw [mul_comm]) (by decide +kernel)
  rw [show 3240743 = 324 * 10000 + 743 by decide]
  refine (Nat.mul_le_mul_left 1001 (nodeSupply_one_le_sub (by decide) hle)).trans_lt ?_
  decide +kernel

/-- One block later it is within a thousandth. -/
lemma thousandth_3240744 : 1000 * supplyInSteps 10000 3240744 ≤ 1001 * nodeSupply 1 3240744 := by
  have hhigh := (remaining_bounds (i := 324) (beforeTail_3250000.of_le (by decide))).2
  have hbefore : BeforeTail (324 * 10000 + 744) := beforeTail_3250000.of_le (by decide)
  have hpow := remaining_add_le (b := 1999999 ^ 744) (u := 2000000 ^ 744) hbefore hhigh
    (by rw [mul_comm])
  have hle : remaining (324 * 10000 + 744) ≤ 19782501440000000000 + 2000000 :=
    Nat.sub_le_iff_le_add.mp (Nat.le_of_mul_le_mul_right (hpow.trans (by decide +kernel))
      (Nat.pow_pos (by decide)))
  rw [show 3240744 = 324 * 10000 + 744 by decide]
  refine le_trans ?_ (Nat.mul_le_mul_left 1001 (sub_le_nodeSupply_one hle))
  decide +kernel

/-! ## The heights at which the estimate is off -/

/-- Linear functions that compare at both ends compare in between. -/
lemma linear_lt {K : ℕ} (h0 : a < c) (hK : a + b * K < c + d * K) (hk : k ≤ K) :
    a + b * k < c + d * k := by
  rcases le_total b d with hbd | hdb
  · have := Nat.mul_le_mul_right k hbd
    omega
  · obtain ⟨e, rfl⟩ := Nat.exists_eq_add_of_le hdb
    have := Nat.mul_le_mul_left e hk
    rw [add_mul] at hK ⊢
    omega

/-- Rewards only fall: the last bounds those before it. -/
lemma nodeSupply_one_add_ge (h k : ℕ) :
    nodeSupply 1 h + baseRewardFromSupply (nodeSupply 1 (h + k)) * k ≤ nodeSupply 1 (h + k) := by
  induction k with
  | zero => simp
  | succ k ih =>
    have hle : baseRewardFromSupply (nodeSupply 1 (h + (k + 1)))
        ≤ baseRewardFromSupply (nodeSupply 1 (h + k)) :=
      baseRewardFromSupply_antitone (nodeSupply_mono (Nat.le_succ _))
    have hmul := Nat.mul_le_mul_right k hle
    have hsucc : nodeSupply 1 (h + (k + 1))
        = nodeSupply 1 (h + k) + baseRewardFromSupply (nodeSupply 1 (h + k)) :=
      nodeSupply_one_succ (h + k)
    rw [Nat.mul_add_one]
    omega

/-- The exact supply is under its tangent at the node, in the second half of a step at the next. -/
def AheadAt (i : ℕ) : Prop :=
  1001 * (capAtomic - remainingLow i) < 1000 * nodeSupply 10000 i ∧
  1001 * (capAtomic - remainingLow i) + 1001 * ((remainingHigh i + 2000000) / 2000000) * 5000
    < 1000 * nodeSupply 10000 i + 1000 * baseRewardFromSupply (nodeSupply 10000 i) * 5000 ∧
  1001 * (capAtomic - remainingLow (i + 1)) < 1000 * nodeSupply 10000 (i + 1) ∧
  1001 * (capAtomic - remainingLow (i + 1)) + 1000 * baseRewardFromSupply (nodeSupply 10000 i) * 5000
    < 1000 * nodeSupply 10000 (i + 1) + 1001 * (remainingLow (i + 1) / 2000000) * 5000

instance (i : ℕ) : Decidable (AheadAt i) := inferInstanceAs (Decidable (_ ∧ _))

lemma aheadAt_of_lt : ∀ i < 324, 100 ≤ i → AheadAt i := by decide +kernel

lemma remainingLow_pos : ∀ i < 325, 0 < remainingLow i := by decide +kernel

/-- From height 1,000,000 to 3,240,000 the estimate is too far ahead. -/
lemma ahead_of_step (hi : i < 324) (hlow : 100 ≤ i) (hk : k ≤ 10000) :
    1001 * nodeSupply 1 (i * 10000 + k)
      < 1000 * (nodeSupply 10000 i + baseRewardFromSupply (nodeSupply 10000 i) * k) := by
  have hbefore : ∀ j ≤ 325, BeforeTail (j * 10000) := fun j hj =>
    beforeTail_3250000.of_le (Nat.mul_le_mul_right _ hj)
  obtain ⟨hstart, hmid, hend, hmid'⟩ := aheadAt_of_lt i hi hlow
  by_cases hhalf : k ≤ 5000
  · obtain ⟨hrem, hrem'⟩ := remaining_bounds (hbefore i (by omega))
    have hsupply := nodeSupply_one_le_sub (remainingLow_pos i (by omega)) hrem
    have hreward : baseRewardFromSupply (nodeSupply 1 (i * 10000))
        ≤ (remainingHigh i + 2000000) / 2000000 := by
      rw [(hbefore i (by omega)).reward_eq]
      exact Nat.div_le_div_right hrem'
    have htangent := nodeSupply_one_add_le (i * 10000) k
    have hmul := Nat.mul_le_mul_right k hreward
    have hlin := linear_lt hstart hmid hhalf
    rw [mul_assoc, mul_assoc] at hlin
    omega
  · have hnext : i * 10000 + 10000 = (i + 1) * 10000 := (Nat.add_one_mul i 10000).symm
    have hrem := (remaining_bounds (hbefore (i + 1) (by omega))).1
    have hsupply := nodeSupply_one_le_sub (remainingLow_pos (i + 1) (by omega)) hrem
    have hreward : remainingLow (i + 1) / 2000000
        ≤ baseRewardFromSupply (nodeSupply 1 ((i + 1) * 10000)) := by
      rw [(hbefore (i + 1) (by omega)).reward_eq]
      exact Nat.div_le_div_right hrem
    have htangent := nodeSupply_one_add_ge (i * 10000 + k) (10000 - k)
    rw [add_assoc, Nat.add_sub_cancel' hk, hnext] at htangent
    have hmul := Nat.mul_le_mul_right (10000 - k) hreward
    have hlin := linear_lt hend hmid' (show 10000 - k ≤ 5000 by omega)
    have hstep : nodeSupply 10000 (i + 1) = nodeSupply 10000 i
        + (baseRewardFromSupply (nodeSupply 10000 i) * k
          + baseRewardFromSupply (nodeSupply 10000 i) * (10000 - k)) := by
      rw [← mul_add, Nat.add_sub_cancel' hk]
      rfl
    rw [mul_assoc, mul_assoc] at hlin
    omega

/-- Where the coarsest grid is within a thousandth. -/
lemma thousandth_coarsest_iff (hh : 1000000 < h) :
    1000 * supplyInSteps 10000 h ≤ 1001 * nodeSupply 1 h ↔ 3240744 ≤ h := by
  constructor
  · intro hle
    by_contra hlt
    have hupper : h ≤ 3240743 := Nat.le_of_lt_succ (Nat.lt_of_not_le hlt)
    by_cases hlast : 3240000 ≤ h
    · -- it would stay within a thousandth up to the last height at which it is not
      have hlate := thousandth_of_le (by decide) hupper
        (fun j hj => rewardClose_of_ge (hlast.trans hj)) hle
      exact absurd hlate (Nat.not_le_of_lt ahead_3240743)
    · have hindex : h / 10000 < 324 ∧ 100 ≤ h / 10000 ∧ h % 10000 ≤ 10000 := by
        omega
      have hahead := ahead_of_step hindex.1 hindex.2.1 hindex.2.2
      rw [Nat.div_add_mod'] at hahead
      exact absurd hle (Nat.not_le_of_lt hahead)
  · intro hle
    exact thousandth_of_le (by decide) hle
      (fun j hj => rewardClose_of_ge (le_trans (by decide) hj)) thousandth_3240744

/-- The estimate is behind by a step's rounding at most. -/
lemma exactSupply_le_estimate (hh : h < 2 ^ 64) :
    exactSupply h ≤ estimateSupplyAtHeight h + 10000 := by
  have hstep : integrationStep h ≤ 10000 := by
    unfold integrationStep
    split_ifs <;> decide
  have hle := nodeSupply_one_le (integrationStep_pos h) (hstep.trans (by decide)) h
  rw [exactSupply_eq, estimateSupplyAtHeight_eq hh]
  omega

/-- The reward of genesis is in it. -/
lemma le_exactSupply (hh : 0 < h) : 50 * coin ≤ exactSupply h := by
  have hmono : nodeSupply 1 1 ≤ nodeSupply 1 h := nodeSupply_mono hh
  have hone : nodeSupply 1 1 = 50 * coin := by decide
  have hcap : 50 * coin ≤ capAtomic := by decide
  rw [exactSupply_eq]
  omega

/-- Where the estimate is within a thousandth of step one. -/
lemma thousandth_iff (h : ℕ) :
    1000 * supplyInSteps (integrationStep h) h ≤ 1001 * nodeSupply 1 h ↔
      h ≤ 1000000 ∨ 3240744 ≤ h := by
  by_cases hh : 1000000 < h
  · rw [integrationStep, if_pos hh, thousandth_coarsest_iff hh]
    constructor
    · exact Or.inr
    · rintro (hle | hle)
      · exact absurd hle (Nat.not_le_of_lt hh)
      · exact hle
  · have hfine : integrationStep h ≤ 1000 := by
      rw [integrationStep, if_neg hh]
      split_ifs <;> decide
    exact iff_of_true (thousandth_of_step_le (integrationStep_pos h) hfine h)
      (Or.inl (Nat.le_of_not_lt hh))

/-- `a` and `b` differ by at most 0.1 percent of `b`. -/
def WithinThousandth (a b : ℕ) : Prop := 1000 * (a - b) ≤ b ∧ 1000 * (b - a) ≤ b

/-- Where the estimate is off it is below the cap. -/
lemma supplyInSteps_le_cap (hh : 1000000 < h) (hlt : h < 3240744) :
    supplyInSteps (integrationStep h) h ≤ capAtomic := by
  have hmono : supplyInSteps 10000 h ≤ supplyInSteps 10000 3240744 :=
    supplyInSteps_mono (by decide) (le_of_lt hlt)
  rw [integrationStep, if_pos hh]
  exact hmono.trans (by decide +kernel)

lemma not_withinThousandth (hfrom : 1000000 < h) (hto : h < 3240744) :
    ¬ WithinThousandth (estimateSupplyAtHeight h) (exactSupply h) := by
  rintro ⟨hahead, -⟩
  have hcap := supplyInSteps_le_cap hfrom hto
  have hoff : ¬ (h ≤ 1000000 ∨ 3240744 ≤ h) := by omega
  have hlt := Nat.lt_of_not_le (mt (thousandth_iff h).mp hoff)
  rw [exactSupply_eq, estimateSupplyAtHeight_eq (hto.trans (by decide))] at hahead
  omega

/-- Up to height 1,000,000 and from height 3,240,744 on, and nowhere else, the estimate is within
0.1 percent of the supply. -/
theorem estimate_within_thousandth_iff (h : ℕ) (hh : h < 2 ^ 64) :
    WithinThousandth (estimateSupplyAtHeight h) (exactSupply h) ↔ h ≤ 1000000 ∨ 3240744 ≤ h := by
  constructor
  · intro hwithin
    by_contra hoff
    exact not_withinThousandth (Nat.lt_of_not_le fun hle => hoff (Or.inl hle))
      (Nat.lt_of_not_le fun hle => hoff (Or.inr hle)) hwithin
  · intro hin
    have hle := (thousandth_iff h).mpr hin
    have hbehind := exactSupply_le_estimate hh
    rcases Nat.eq_zero_or_pos h with rfl | hpos
    · exact ⟨by decide, by decide⟩
    · have hlarge := le_exactSupply hpos
      rw [coin] at hlarge
      refine ⟨?_, by omega⟩
      rw [exactSupply_eq, estimateSupplyAtHeight_eq hh]
      omega

/-- Both kinds of heights. -/
theorem estimate_within_thousandth_at_boundary :
    WithinThousandth (estimateSupplyAtHeight 1000000) (exactSupply 1000000) ∧
    ¬ WithinThousandth (estimateSupplyAtHeight 3240743) (exactSupply 3240743) ∧
    WithinThousandth (estimateSupplyAtHeight 3240744) (exactSupply 3240744) :=
  ⟨(estimate_within_thousandth_iff 1000000 (by decide)).mpr (by decide),
    mt (estimate_within_thousandth_iff 3240743 (by decide)).mp (by decide),
    (estimate_within_thousandth_iff 3240744 (by decide)).mpr (by decide)⟩

/-- At height 1,000,001 the estimate is off by more than 0.1 percent. -/
theorem estimate_off_at_1000001 :
    ¬ WithinThousandth (estimateSupplyAtHeight 1000001) (exactSupply 1000001) :=
  not_withinThousandth (by decide) (by decide)

end CoinCync

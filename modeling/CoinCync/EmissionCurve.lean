import CoinCync.Emission
import Mathlib.Algebra.Group.Action.Defs
import Mathlib.Algebra.Order.BigOperators.Group.List
import Mathlib.Algebra.Order.Ring.Nat

/-!
# The shape of the emission curve

The integrator adds, block by block, the reward of the last node of its grid below the block, so the
estimate is a running sum (`supplyInSteps`). The grid changes at three heights, and the coarser grid
is ahead of the finer one there, so the reward never rises (`baseReward_antitone`).
-/

namespace CoinCync

open List MachineInt

/-! ## The integrator as a running sum -/

/-- The supply at the nodes of a grid. -/
def nodeSupply (step : ℕ) : ℕ → ℕ
  | 0 => 0
  | i + 1 => nodeSupply step i + baseRewardFromSupply (nodeSupply step i) * step

/-- The supply at a height: blocks pay the reward of the last node. -/
def supplyInSteps (step height : ℕ) : ℕ :=
  nodeSupply step (height / step) + baseRewardFromSupply (nodeSupply step (height / step)) * (height % step)

/-- More supply, less reward. -/
lemma baseRewardFromSupply_antitone (h : s ≤ t) :
    baseRewardFromSupply t ≤ baseRewardFromSupply s := by
  unfold baseRewardFromSupply
  have hdiv : (capAtomic - t) / emissionDivisor ≤ (capAtomic - s) / emissionDivisor :=
    Nat.div_le_div_right (by omega)
  omega

lemma baseRewardFromSupply_le (s : ℕ) : baseRewardFromSupply s ≤ 50 * coin :=
  (baseRewardFromSupply_antitone (Nat.zero_le s)).trans (by decide)

lemma tailEmission_le_baseRewardFromSupply (s : ℕ) : tailEmission ≤ baseRewardFromSupply s :=
  le_max_right _ _

section Grid

variable {step : ℕ} (hstep : 0 < step)

include hstep

lemma supplyInSteps_add (hk : k < step) :
    supplyInSteps step (i * step + k)
      = nodeSupply step i + baseRewardFromSupply (nodeSupply step i) * k := by
  have hdiv : (i * step + k) / step = i := by
    rw [add_comm, Nat.add_mul_div_right _ _ hstep, Nat.div_eq_of_lt hk, zero_add]
  have hmod : (i * step + k) % step = k := by
    rw [add_comm, Nat.add_mul_mod_self_right, Nat.mod_eq_of_lt hk]
  rw [supplyInSteps, hdiv, hmod]

lemma supplyInSteps_node (i : ℕ) : supplyInSteps step (i * step) = nodeSupply step i := by
  simpa using supplyInSteps_add hstep hstep

lemma supplyInSteps_succ (height : ℕ) :
    supplyInSteps step (height + 1)
      = supplyInSteps step height + baseRewardFromSupply (nodeSupply step (height / step)) := by
  have hheight : height = height / step * step + height % step := by
    rw [mul_comm, Nat.div_add_mod]
  have hlt := Nat.mod_lt height hstep
  set i := height / step
  rw [hheight, supplyInSteps_add hstep hlt]
  by_cases hlast : height % step + 1 < step
  · rw [add_assoc, supplyInSteps_add hstep hlast, mul_add, mul_one, add_assoc]
  · -- the block completes the step
    have hnode : i * step + height % step + 1 = (i + 1) * step := by
      rw [add_mul]
      omega
    have hfull : height % step + 1 = step := by omega
    rw [hnode, supplyInSteps_node hstep, nodeSupply, add_assoc, ← Nat.mul_add_one, hfull]

lemma supplyInSteps_mono : Monotone (supplyInSteps step) :=
  monotone_nat_of_le_succ fun height => by
    rw [supplyInSteps_succ hstep]
    exact Nat.le_add_right _ _

omit hstep in
lemma nodeSupply_mono : Monotone (nodeSupply step) :=
  monotone_nat_of_le_succ fun _ => Nat.le_add_right _ _

/-- No block pays more than genesis. -/
lemma supplyInSteps_le (height : ℕ) : supplyInSteps step height ≤ height * (50 * coin) := by
  induction height with
  | zero => simp [supplyInSteps, nodeSupply]
  | succ height ih =>
    have hle := baseRewardFromSupply_le (nodeSupply step (height / step))
    rw [supplyInSteps_succ hstep, add_mul]
    omega

/-- Past a node in the tail every block adds the tail. -/
lemma supplyInSteps_of_tail (htail : baseRewardFromSupply (nodeSupply step i) = tailEmission)
    (k : ℕ) : supplyInSteps step (i * step + k) = nodeSupply step i + tailEmission * k := by
  induction k with
  | zero => simpa using supplyInSteps_node hstep i
  | succ k ih =>
    have hi : i ≤ (i * step + k) / step := by
      rw [Nat.le_div_iff_mul_le hstep]
      exact Nat.le_add_right _ _
    have hreward : baseRewardFromSupply (nodeSupply step ((i * step + k) / step)) = tailEmission :=
      le_antisymm
        (htail ▸ baseRewardFromSupply_antitone (nodeSupply_mono hi))
        (tailEmission_le_baseRewardFromSupply _)
    rw [← add_assoc, supplyInSteps_succ hstep, ih, hreward, mul_add, mul_one, add_assoc]

/-- The loop from a node on; neither the fuel nor `u128` ends it early. -/
lemma integrateSupply_node (hheight : height < 2 ^ 64) (hle : i * step ≤ height)
    (hfuel : height ≤ fuel + i * step) :
    integrateSupply height step fuel (i * step) (nodeSupply step i) = supplyInSteps step height := by
  induction fuel generalizing i with
  | zero =>
    obtain rfl : height = i * step := by omega
    rw [integrateSupply, supplyInSteps_node hstep]
  | succ fuel ih =>
    rw [integrateSupply]
    split_ifs with hlt
    · obtain ⟨k, rfl⟩ := Nat.exists_eq_add_of_le hle
      simp only [Nat.add_sub_cancel_left]
      split_ifs with htail
      · -- the fast path
        have hreward : baseRewardFromSupply (nodeSupply step i) = tailEmission :=
          max_eq_right (le_of_lt htail)
        have heq := supplyInSteps_of_tail hstep hreward k
        have hbound := supplyInSteps_le hstep (i * step + k)
        have hwide : (i * step + k) * (50 * coin) < 2 ^ 128 :=
          lt_of_le_of_lt (Nat.mul_le_mul_right _ (le_of_lt hheight)) (by decide)
        rw [satAdd_of_lt (by omega), heq]
      · by_cases hk : k < step
        · -- the last, partial step
          rw [min_eq_left (le_of_lt hk), supplyInSteps_add hstep hk]
          cases fuel <;> simp [integrateSupply, baseRewardFromSupply]
        · rw [min_eq_right (by omega), ← Nat.add_one_mul]
          exact ih (by rw [Nat.add_one_mul]; omega) (by rw [Nat.add_one_mul]; omega)
    · obtain rfl : height = i * step := by omega
      rw [supplyInSteps_node hstep]

end Grid

/-- The loop always advances. -/
lemma integrationStep_pos (height : ℕ) : 0 < integrationStep height := by
  unfold integrationStep
  split_ifs <;> decide

/-- The estimate is the sum on the grid of its height, cut at the cap. -/
lemma estimateSupplyAtHeight_eq (hheight : height < 2 ^ 64) :
    estimateSupplyAtHeight height
      = min (supplyInSteps (integrationStep height) height) capAtomic := by
  unfold estimateSupplyAtHeight
  split_ifs with hzero
  · subst hzero
    decide
  · have h : integrateSupply height (integrationStep height) height (0 * integrationStep height)
        (nodeSupply (integrationStep height) 0) = supplyInSteps (integrationStep height) height :=
      integrateSupply_node (integrationStep_pos height) hheight (by omega) (by omega)
    rw [zero_mul] at h
    exact congrArg (min · capAtomic) h

/-! ## The reward never rises -/

/-- The three heights at which the grid gets coarser. -/
lemma integrationStep_succ (height : ℕ) : integrationStep (height + 1) = integrationStep height ∨
    height = 10000 ∨ height = 100000 ∨ height = 1000000 := by
  unfold integrationStep
  split_ifs <;> omega

/-- On its own grid for every height the sum still grows. -/
lemma supplyInSteps_integrationStep_mono :
    Monotone fun height => supplyInSteps (integrationStep height) height := by
  apply monotone_nat_of_le_succ
  intro height
  obtain heq | rfl | rfl | rfl := integrationStep_succ height
  · rw [heq]
    exact supplyInSteps_mono (integrationStep_pos height) (Nat.le_succ height)
  · show supplyInSteps 10 10000 ≤ supplyInSteps 100 10001
    decide +kernel
  · show supplyInSteps 100 100000 ≤ supplyInSteps 1000 100001
    decide +kernel
  · show supplyInSteps 1000 1000000 ≤ supplyInSteps 10000 1000001
    decide +kernel

/-- A later reward is never larger. -/
lemma baseReward_antitone (hle : h ≤ k) (hk : k < 2 ^ 64) : baseReward k ≤ baseReward h := by
  have hsum : supplyInSteps (integrationStep h) h ≤ supplyInSteps (integrationStep k) k :=
    supplyInSteps_integrationStep_mono hle
  apply baseRewardFromSupply_antitone
  rw [estimateSupplyAtHeight_eq hk, estimateSupplyAtHeight_eq (hle.trans_lt hk)]
  omega

/-- The reward never rises, and stays between the tail and the reward of genesis. -/
theorem baseReward_falls_to_tail (h k : ℕ) (hle : h ≤ k) (hk : k < 2 ^ 64) :
    baseReward k ≤ baseReward h ∧ tailEmission ≤ baseReward k ∧ baseReward h ≤ 50 * coin :=
  ⟨baseReward_antitone hle hk, tailEmission_le_calculateBlockReward k, calculateBlockReward_le h⟩

/-- Across the first change of the grid. -/
theorem baseReward_falls_to_tail_at_10000 : baseReward 10001 ≤ baseReward 10000 ∧
    tailEmission ≤ baseReward 10001 ∧ baseReward 10000 ≤ 50 * coin :=
  baseReward_falls_to_tail 10000 10001 (by decide) (by decide)

/-! ## Cumulative emission -/

/-- The loop of `cumulative_emission`; `none` is out of fuel. -/
def cumulativeEmissionFrom (tipHeight : ℕ) : ℕ → ℕ → ℕ → Option ℕ
  | 0, _, _ => none
  | fuel + 1, h, total =>
    if baseReward h = tailEmission then
      some (satAdd 128 total (satMul 128 tailEmission (tipHeight - h + 1)))
    else if h = tipHeight then some (satAdd 128 total (baseReward h))
    else cumulativeEmissionFrom tipHeight fuel (h + 1) (satAdd 128 total (baseReward h))

/-- `cumulative_emission`. -/
def cumulativeEmission (tipHeight : ℕ) : Option ℕ := cumulativeEmissionFrom tipHeight (tipHeight + 1) 0 0

lemma sum_baseReward_le (h k : ℕ) : ((List.range' h k).map baseReward).sum ≤ k * (50 * coin) := by
  have hle : ∀ r ∈ (range' h k).map baseReward, r ≤ 50 * coin := by
    intro r hr
    obtain ⟨height, -, rfl⟩ := mem_map.mp hr
    exact calculateBlockReward_le height
  have hsum := sum_le_card_nsmul _ _ hle
  rwa [length_map, length_range', smul_eq_mul] at hsum

/-- From a height at the tail on every reward is the tail. -/
lemma sum_baseReward_of_tail (hlt : h + k ≤ 2 ^ 64) (htail : baseReward h = tailEmission) :
    ((List.range' h k).map baseReward).sum = tailEmission * k := by
  have hall : ∀ r ∈ (range' h k).map baseReward, r = tailEmission := by
    intro r hr
    obtain ⟨height, hmem, rfl⟩ := mem_map.mp hr
    obtain ⟨hge, hup⟩ := mem_range'_1.mp hmem
    exact le_antisymm (htail ▸ baseReward_antitone hge (by omega))
      (tailEmission_le_calculateBlockReward height)
  rw [eq_replicate_of_mem hall, sum_replicate, length_map, length_range', smul_eq_mul, mul_comm]

/-- From any height on the loop adds up the rewards. -/
lemma cumulativeEmissionFrom_eq (htip : tipHeight < 2 ^ 64) (hk : h + k = tipHeight + 1)
    (hpos : 0 < k) (hfuel : k ≤ fuel) (htotal : total ≤ h * (50 * coin)) :
    cumulativeEmissionFrom tipHeight fuel h total
      = some (total + ((List.range' h k).map baseReward).sum) := by
  induction fuel generalizing h k total with
  | zero => omega
  | succ fuel ih =>
    -- the whole sum is far below `2 ^ 128`
    have hsum := sum_baseReward_le h k
    have hwide : (h + k) * (50 * coin) < 2 ^ 128 := by
      rw [hk]
      exact lt_of_le_of_lt (Nat.mul_le_mul_right _ (Nat.succ_le_of_lt htip)) (by decide)
    rw [add_mul] at hwide
    rw [cumulativeEmissionFrom]
    split_ifs with htail hend
    · have hcount : tipHeight - h + 1 = k := by omega
      have heq := sum_baseReward_of_tail (by omega) htail (k := k)
      rw [hcount, satMul, ← heq, min_eq_left (by omega), satAdd_of_lt (by omega)]
    · obtain rfl : k = 1 := by omega
      simp only [range'_one, map_singleton, sum_singleton] at hsum ⊢
      rw [satAdd_of_lt (by omega)]
    · obtain ⟨k, rfl⟩ : ∃ k', k = k' + 1 := ⟨k - 1, by omega⟩
      have hle := calculateBlockReward_le h
      have hreward : total + baseReward h ≤ (h + 1) * (50 * coin) := by
        rw [Nat.add_one_mul]
        exact Nat.add_le_add htotal hle
      rw [range'_succ, map_cons, sum_cons] at hsum ⊢
      rw [satAdd_of_lt (by omega), ih (k := k) (by omega) (by omega) (by omega) hreward, add_assoc]

/-- The recomputed supply is the sum of the consensus rewards. -/
theorem cumulativeEmission_eq_emittedThrough (tipHeight : ℕ) (htip : tipHeight < 2 ^ 64) :
    cumulativeEmission tipHeight = some (emittedThrough tipHeight) := by
  have h := cumulativeEmissionFrom_eq htip (zero_add _) (Nat.succ_pos tipHeight)
    (le_refl _) (Nat.zero_le _)
  rw [cumulativeEmission, h, zero_add, ← range_eq_range']
  rfl

theorem cumulativeEmission_eq_emittedThrough_two :
    cumulativeEmission 2 = some (emittedThrough 2) ∧ emittedThrough 2 = 149999925000000 :=
  ⟨cumulativeEmission_eq_emittedThrough 2 (by decide), by decide⟩

end CoinCync

import CoinCync.Books
import Mathlib.Data.UInt

/-!
# Where the fees of a block go

The split of a block's fees between its miner and the burn, and the fee reservoir of
`consensus/fee_market.rs`. The validator adds up the fees of the transactions behind the first, the
burn accounting those that are not coinbases; in a valid block these are the same, and both sums
saturate. The reservoir computes in `u128` and narrows its results to `u64`; only the payment to the
miner can leave the range.
-/

namespace CoinCync

open List MachineInt

/-! ## The coinbase and the burn -/

section Split

variable {E : Env} {W : Validator E} {b : Block} {parent : Option Block} {utxos : UtxoSet}
  {checkpoint : Option ℕ} {contextual : Bool} {coinbase : Transaction} {rest : List Transaction}

lemma totalFees_eq_min (htxs : b.transactions = coinbase :: rest) :
    totalFees b = min (rest.map (·.fee)).sum (2 ^ 64 - 1) := by
  rw [totalFees, htxs, drop_one, tail_cons, satSum_eq_min]

/-- The coinbase pays the reward and the unburned fees. -/
lemma maxCoinbase_add_blockFeeBurn (htxs : b.transactions = coinbase :: rest)
    (hfirst : coinbase.isCoinbase = true) (hrest : ∀ tx ∈ rest, tx.isCoinbase = false)
    (h : maxCoinbase E b = some amount) :
    amount + blockFeeBurn E b = calculateBlockReward b.height + totalFees b := by
  have hfilter : b.transactions.filter (!·.isCoinbase) = rest := by
    rw [htxs, filter_cons_of_neg (by simp [hfirst]), filter_eq_self]
    intro tx htx
    simp [hrest tx htx]
  have hburned : satSum 64 ((b.transactions.filter (!·.isCoinbase)).map (·.fee))
      = totalFees b := by
    rw [hfilter, totalFees, htxs, drop_one, tail_cons]
  have hsplit := distributeFee_sum (totalFees b) (E.congested b)
  unfold blockFeeBurn
  unfold maxCoinbase at h
  simp only [hburned]
  split at h
  · obtain ⟨-, rfl⟩ := checkedAdd_eq_some.mp h
    rw [if_neg (by omega)]
    omega
  · obtain ⟨-, rfl⟩ := checkedAdd_eq_some.mp h
    rw [if_pos (by omega)]
    omega

/-- In a valid block, coinbase outputs and burn are reward and fees exactly when the fees do not
reach `2 ^ 64`. -/
theorem fee_split_exact_iff (hheight : 0 < b.height) (hskip : fastSync W b checkpoint = false)
    (hvalid : validateBlockCtx W b parent utxos checkpoint contextual = [])
    (htxs : b.transactions = coinbase :: rest) :
    (coinbase.outputs.map (·.commitment.value)).sum + (blockFeeBurn E b : ℤ)
        = baseReward b.height + (rest.map (·.fee)).sum ↔ (rest.map (·.fee)).sum < 2 ^ 64 := by
  obtain ⟨_, _, hb⟩ := validateBlockCtx_eq_nil hskip hvalid
  obtain ⟨rfl, rfl⟩ := cons_eq_cons.mp (htxs.symm.trans hb.transactions)
  obtain ⟨amount, hmax, hpaid⟩ := hb.paid hheight
  have hsum := maxCoinbase_add_blockFeeBurn htxs hb.first (fun tx htx => (hb.validated tx htx).1) hmax
  rw [totalFees_eq_min htxs, calculateBlockReward] at hsum
  omega

/-- A beta block where the split starts, with a transaction for each fee. -/
def feeBlock (claimed : ℕ) (fees : List ℕ) : Block :=
  minedBlock 525 claimed
    (fees.map fun fee => { txType := .shielded, fee := fee, extra := .shieldedV1 ⟨0, fee⟩ })

/-- The verdict on such a block, on an empty set of outputs. -/
def feeBlockErrors (claimed : ℕ) (fees : List ℕ) : List BlockError :=
  validateBlockCtx (sampleValidator (sampleEnv .beta 1)) (feeBlock claimed fees)
    (some (minedBlock 524 0 [])) UtxoSet.empty none true

/-- Of a million units thirty percent are burned. -/
theorem fee_split_exact_at_525 : feeBlockErrors 700000 [600000, 400000] = [] ∧
    (baseReward 525 + 700000 : ℤ)
        + blockFeeBurn (sampleEnv .beta 1) (feeBlock 700000 [600000, 400000])
      = baseReward 525 + 1000000 := by
  have hvalid : feeBlockErrors 700000 [600000, 400000] = [] := by decide +kernel
  refine ⟨hvalid, ?_⟩
  have hheight : 0 < (feeBlock 700000 [600000, 400000]).height := by decide
  exact (fee_split_exact_iff hheight rfl hvalid rfl).mpr (by decide)

/-- Two fees of `2 ^ 63` and `2 ^ 63 + 1` units count as `2 ^ 64 - 1`: in a valid block, two units
are neither claimed nor burned. -/
theorem saturated_fees_lost : feeBlockErrors 12912720851596686130 [2 ^ 63, 2 ^ 63 + 1] = [] ∧
    baseReward 525 + 12912720851596686130
        + blockFeeBurn (sampleEnv .beta 1) (feeBlock 12912720851596686130 [2 ^ 63, 2 ^ 63 + 1]) + 2
      = baseReward 525 + (2 ^ 63 + (2 ^ 63 + 1)) ∧
    ∃ coinbase ∈ (feeBlock 12912720851596686130 [2 ^ 63, 2 ^ 63 + 1]).coinbase,
      (coinbase.outputs.map (·.commitment.value)).sum = baseReward 525 + 12912720851596686130 := by
  exact ⟨by decide +kernel, by decide +kernel, _, rfl, by decide +kernel⟩

end Split

/-! ## The reservoir -/

namespace Reservoir

/-- Charge below this congestion. -/
def lowWater : ℕ := 25

/-- Discharge above this congestion. -/
def highWater : ℕ := 75

/-- `CHARGE_BPS`. -/
def chargeBps : ℕ := 2000

/-- `DISCHARGE_BPS`. -/
def dischargeBps : ℕ := 2000

/-- `DECAY_BPS`. -/
def decayBps : ℕ := 10

/-- `CAP_ATOMIC`. -/
def capAtomic : ℕ := 1000000000000

end Reservoir

/-- The results of a step. -/
structure ReservoirTransition where
  toMiner : UInt64
  reservoirAfter : UInt64
  burned : UInt64
deriving DecidableEq

/-- Miner and reservoir before the decay. -/
def reservoirTransfer (r0 f congestionPct : ℕ) : ℕ × ℕ :=
  if congestionPct < Reservoir.lowWater then
    let want := f * Reservoir.chargeBps / 10000
    let headroom := Reservoir.capAtomic - r0
    let store := min want headroom
    (f - store, r0 + store)
  else if Reservoir.highWater < congestionPct then
    let want := f * Reservoir.dischargeBps / 10000
    let draw := min want r0
    (f + draw, r0 - draw)
  else (f, r0)

/-- `reservoir_step`; intermediates fit `u128`, results are cut to `u64`. -/
def reservoirStep (reservoirBefore fees congestionPct : UInt64) : ReservoirTransition :=
  let moved := reservoirTransfer reservoirBefore.toNat fees.toNat congestionPct.toNat
  let burn := moved.2 * Reservoir.decayBps / 10000
  { toMiner := UInt64.ofNat moved.1
    reservoirAfter := UInt64.ofNat (moved.2 - burn)
    burned := UInt64.ofNat burn }

/-- A block's fees and congestion, and the balance it finds. -/
structure ReservoirBlock where
  before : UInt64
  fees : UInt64
  congestionPct : UInt64
deriving DecidableEq

namespace ReservoirBlock

variable (b : ReservoirBlock)

/-- The step of the block. -/
def out : ReservoirTransition := reservoirStep b.before b.fees b.congestionPct

/-- Nothing is lost or made. -/
def Conserves : Prop :=
  b.out.toMiner.toNat + b.out.reservoirAfter.toNat + b.out.burned.toNat
    = b.before.toNat + b.fees.toNat

instance : Decidable b.Conserves := inferInstanceAs (Decidable (_ = _))

/-- The block does not discharge, or fees and balance fit `u64`. -/
def Payable : Prop :=
  b.congestionPct.toNat ≤ Reservoir.highWater ∨ b.fees.toNat + b.before.toNat < 2 ^ 64

instance : Decidable b.Payable := inferInstanceAs (Decidable (_ ∨ _))

end ReservoirBlock

/-- A run over the fees and congestion of successive blocks. -/
def reservoirRun : UInt64 → List (UInt64 × UInt64) → List ReservoirBlock
  | _, [] => []
  | r, (fees, congestionPct) :: rest =>
    ⟨r, fees, congestionPct⟩ :: reservoirRun (reservoirStep r fees congestionPct).reservoirAfter rest

/-- Before the decay the sum is kept, the balance below the cap. -/
lemma reservoirTransfer_spec (hr : r0 ≤ Reservoir.capAtomic) :
    (reservoirTransfer r0 f c).1 + (reservoirTransfer r0 f c).2 = r0 + f ∧
      (reservoirTransfer r0 f c).2 ≤ Reservoir.capAtomic := by
  unfold reservoirTransfer Reservoir.chargeBps Reservoir.dischargeBps
  split_ifs <;> dsimp only <;> omega

/-- The miner's payment fits `u64`, or the whole balance is drawn. -/
lemma reservoirTransfer_fits_iff (hr : r0 ≤ Reservoir.capAtomic) (hf : f < 2 ^ 64) :
    (reservoirTransfer r0 f c).1 < 2 ^ 64 ↔ c ≤ Reservoir.highWater ∨ f + r0 < 2 ^ 64 := by
  unfold reservoirTransfer Reservoir.chargeBps Reservoir.dischargeBps Reservoir.lowWater
    Reservoir.highWater
  unfold Reservoir.capAtomic at *
  split_ifs <;> dsimp only <;> omega

/-- A step in numbers: only the miner's payment can be cut. -/
lemma ReservoirBlock.out_eq (b : ReservoirBlock) (hb : b.before.toNat ≤ Reservoir.capAtomic) :
    ∃ miner kept burn, miner + kept = b.before.toNat + b.fees.toNat ∧ burn ≤ kept ∧
      kept ≤ Reservoir.capAtomic ∧ (miner < 2 ^ 64 ↔ b.Payable) ∧
      b.out.toMiner.toNat = miner % 2 ^ 64 ∧ b.out.reservoirAfter.toNat = kept - burn ∧
      b.out.burned.toNat = burn := by
  have hfits := reservoirTransfer_fits_iff (c := b.congestionPct.toNat) hb b.fees.toNat_lt
  obtain ⟨hsum, hcap⟩ := reservoirTransfer_spec hb
  unfold out reservoirStep ReservoirBlock.Payable
  generalize reservoirTransfer b.before.toNat b.fees.toNat b.congestionPct.toNat = moved at *
  have hburn : moved.2 * Reservoir.decayBps / 10000 ≤ moved.2 := by
    unfold Reservoir.decayBps
    omega
  have hkept : moved.2 < 2 ^ 64 := hcap.trans_lt (by decide)
  refine ⟨moved.1, moved.2, _, hsum, hburn, hcap, hfits, UInt64.toNat_ofNat', ?_, ?_⟩
  · exact UInt64.toNat_ofNat_of_lt' ((Nat.sub_le _ _).trans_lt hkept)
  · exact UInt64.toNat_ofNat_of_lt' (hburn.trans_lt hkept)

lemma ReservoirBlock.step (b : ReservoirBlock) (hb : b.before.toNat ≤ Reservoir.capAtomic) :
    (b.Conserves ↔ b.Payable) ∧ b.out.reservoirAfter.toNat ≤ Reservoir.capAtomic ∧
      b.out.toMiner.toNat + b.out.burned.toNat + b.out.reservoirAfter.toNat
        ≤ b.before.toNat + b.fees.toNat := by
  obtain ⟨miner, kept, burn, hsum, hburn, hcap, hfits, hminer, hafter, hburned⟩ := b.out_eq hb
  rw [Conserves, hminer, hafter, ← hfits]
  refine ⟨⟨fun heq => ?_, fun hlt => ?_⟩, by omega, by omega⟩
  · omega
  · omega

/-- Over every run: a block keeps the sum exactly when it is payable, the balance stays below the
cap, and miners and burn never get more than the initial balance and the fees. -/
theorem reservoir_conserves_iff (r : UInt64) (hr : r.toNat ≤ Reservoir.capAtomic)
    (inputs : List (UInt64 × UInt64)) :
    ((∀ b ∈ reservoirRun r inputs, b.Conserves) ↔ ∀ b ∈ reservoirRun r inputs, b.Payable) ∧
    (∀ b ∈ reservoirRun r inputs, b.before.toNat ≤ Reservoir.capAtomic ∧
      b.out.reservoirAfter.toNat ≤ Reservoir.capAtomic) ∧
    ((reservoirRun r inputs).map fun b => b.out.toMiner.toNat + b.out.burned.toNat).sum
      ≤ r.toNat + ((reservoirRun r inputs).map (·.fees.toNat)).sum := by
  induction inputs generalizing r with
  | nil => simp [reservoirRun]
  | cons input rest ih =>
    obtain ⟨fees, congestionPct⟩ := input
    obtain ⟨hiff, hafter, htotal⟩ := ReservoirBlock.step ⟨r, fees, congestionPct⟩ hr
    obtain ⟨ihiff, ihcap, ihtotal⟩ := ih _ hafter
    rw [reservoirRun]
    simp only [forall_mem_cons, map_cons, sum_cons]
    refine ⟨and_congr hiff ihiff, ⟨⟨hr, hafter⟩, ihcap⟩, ?_⟩
    simp only [ReservoirBlock.out] at *
    omega

/-- A block that charges and one that discharges. -/
theorem reservoir_conserves_charge_discharge :
    (∀ b ∈ reservoirRun 500 [(10000, 0), (20000, 90)], b.Conserves) ∧
    (reservoirRun 500 [(10000, 0), (20000, 90)]).map (fun b => b.out.toMiner.toNat)
      = [8000, 22498] :=
  ⟨(reservoir_conserves_iff 500 (by decide) _).1.mpr (by decide +kernel), by decide +kernel⟩

/-- The largest fees on a full reservoir: the payment wraps around, and `2 ^ 64` units are gone. -/
theorem reservoir_payment_wraps : ∃ b ∈ reservoirRun 1000000000000 [(2 ^ 64 - 1, 100)],
    b.before.toNat ≤ Reservoir.capAtomic ∧ ¬ b.Conserves ∧
    b.out.toMiner.toNat + b.out.reservoirAfter.toNat + b.out.burned.toNat + 2 ^ 64
      = b.before.toNat + b.fees.toNat := by
  refine ⟨⟨1000000000000, 2 ^ 64 - 1, 100⟩, mem_cons_self, ?_⟩
  decide +kernel

end CoinCync

import CoinCync.FeeMarket
import CoinCync.SparkPoolTheorems
import CoinCync.UnspentValue
import Mathlib.Algebra.Order.BigOperators.Group.List
import Mathlib.Algebra.Order.Group.Nat

/-!
# Value across the veil

Over a chain of accepted blocks, the unspent transparent value and the pool value together are what
was issued less what was burned. Every transaction balances with what it moves across the veil
(`tx_balanced`), the coinbase pays the reward and the fees that are not burned, and the pool moves by
the crossings.

A version 1 shielded transaction has no transparent side and its bundle is verified without the fee,
so the fee the coinbase claims for it comes out of nothing: the account is off by exactly these fees.
Commitments are pairs of integers, so neither range proofs nor the inside of a libspark bundle enter.
-/

namespace CoinCync

open List Option Transaction UtxoCore Commitment

variable {E : Env} {W : Validator E} {keyImageOf : PublicKey → KeyImage} {s : Books} {b : Block}
  {tx : Transaction}
variable {height : ℕ}

/-- A ring signature proves that one member has the key image and the value. -/
structure Ideal (C : Crypto) (keyImageOf : PublicKey → KeyImage) : Prop where
  injective : Function.Injective keyImageOf
  clsag : ∀ message ring pseudo sig, C.clsagVerify message ring pseudo sig = true →
    ∃ m ∈ ring, keyImageOf m.publicKey = sig.keyImage ∧ m.commitment.value = pseudo.value

/-! ## One transaction -/

/-- The shielded fee that the Spark gate does not see. -/
def Transaction.unbackedFee (tx : Transaction) : ℕ :=
  if tx.isShielded ∧ tx.sparkPayload = none then tx.fee else 0

/-- A checked input spends an output of the set, with its value. -/
lemma InputsChecked.spendable {height : ℕ} (hI : Ideal C keyImageOf) (hu : u.Sound keyImageOf tip)
    (hindex : IndexOwned u) (h : InputsChecked C tx u height net) (hin : input ∈ tx.inputs) :
    u.Spendable keyImageOf input.keyImage input.pseudoOutputCommitment.value := by
  have hsig := checkTxRingSignatures_eq_ok.mp h.signatures input hin
  simp only [verifyRingSignature, decide_eq_true_eq] at hsig
  obtain ⟨hki, -, hclsag⟩ := hsig
  obtain ⟨m, hm, hmki, hmv⟩ := hI.clsag _ _ _ _ hclsag
  obtain ⟨e, he, hcommit, -⟩ := (checkTxRingMembers_eq_ok.mp h.ringMembers).2 input hin m hm
  unfold resolveRingMember at he
  cases hs : u.stealthIndex m.publicKey with
  | none =>
    have hnone : u.getOutputByStealth m.publicKey = none := by
      simp [getOutputByStealth, hs]
    rw [hnone, hindex m.publicKey hs] at he
    simp at he
  | some k =>
    obtain ⟨r, hr, -⟩ := hu.owner m.publicKey k hs
    have hget : u.getOutputByStealth m.publicKey = some r := by
      simp [getOutputByStealth, hs, hr]
    rw [hget] at he
    cases he
    have hvalue : r.output.commitment.value = input.pseudoOutputCommitment.value := by
      rw [← hmv, hcommit]
    exact ⟨m.publicKey, k, r, hmki.trans hki, hs, hr, hvalue⟩

lemma inValue_of_not_coinbase (hcb : tx.isCoinbase = false) :
    tx.inValue = (tx.inputs.map (·.pseudoOutputCommitment.value)).sum := by
  unfold inValue spends
  rw [hcb, if_neg (by simp), List.map_map]
  rfl

/-- What goes in goes out, up to an unbacked fee. -/
lemma tx_balanced (hcb : tx.isCoinbase = false) (htx : tx ∈ txs)
    (hvalid : validateTransactionForNetworkCtx W.toCrypto tx u height E.network true = .ok ())
    (hgate : verifyBlockSparkV2AtHeight E W.toCrypto pool txs height = true) :
    tx.inValue + tx.crossing + tx.unbackedFee = tx.outValue + tx.fee := by
  rw [inValue_of_not_coinbase hcb, outValue]
  unfold crossing unbackedFee
  cases hsh : tx.isShielded with
  | false =>
    have hnone : tx.sparkPayload = none := by simp [sparkPayload, hsh]
    have hsum := congrArg value (balance_of_validate hcb hsh hvalid)
    simp only [value_sum, value_add, List.map_map, Function.comp_def] at hsum
    simp [hnone, hsum]
  | true =>
    cases hp : tx.sparkPayload with
    | none =>
      obtain ⟨-, hspark, -⟩ := (validate_shielded hcb hsh).mp hvalid
      obtain ⟨hin, hout⟩ := pure_of_checkShieldedTx hspark hsh hp
      simp [hin, hout]
    | some payload =>
      have hbridge := (gateTx_of_gate hgate htx hp).bridge
      simp only [map_some, getD_some, reduceCtorEq, and_false, if_false]
      omega

/-! ## The pool -/

namespace PoolContents

variable {p q : PoolContents}

lemma poolValue_addCoin (h : p.addCoin c = some q) : q.poolValue = p.poolValue := by
  unfold addCoin at h
  split at h
  · simp at h
  · cases h
    rfl

lemma poolValue_markTagSpent (h : p.markTagSpent height tag = some q) :
    q.poolValue = p.poolValue := by
  unfold markTagSpent at h
  split at h
  · simp at h
  · cases h
    rfl

/-- A fold of steps that leave the pool value alone. -/
lemma poolValue_foldlM {α : Type} {f : PoolContents → α → Option PoolContents} {l : List α}
    (hf : ∀ p a q, f p a = some q → q.poolValue = p.poolValue) (h : l.foldlM f p = some q) :
    q.poolValue = p.poolValue :=
  (Run.reaches_of_exec h).invariant (P := fun r => r.poolValue = p.poolValue) rfl
    fun r a r' hr _ ha => (hf r a r' ha).trans hr

end PoolContents

open PoolContents

lemma poolValue_addSpendOutputs (p : PoolContents) (height : ℕ) (bundle : Bytes) :
    (addSpendOutputs E p height bundle).poolValue = p.poolValue := by
  unfold addSpendOutputs
  cases E.spendOutputs bundle with
  | none => rfl
  | some out =>
    obtain ⟨coins, ctx⟩ := out
    simp only
    induction coins generalizing p with
    | nil => rfl
    | cons c coins ih =>
      rw [foldl_cons, ih]
      cases hc : p.addCoin ⟨E.coinId c, c, ctx, height⟩ with
      | none => rfl
      | some q => exact poolValue_addCoin hc

/-- A transaction moves the pool by its crossing. -/
lemma applySparkTx_poolValue {p q : PoolContents}
    (h : applySparkTx E p height tx = some q) : q.poolValue = p.poolValue - tx.crossing := by
  have hbalance : ∀ {r r' : PoolContents} {v : ℤ}, r.applyValueBalance v = some r' →
      r'.poolValue = r.poolValue - v := by
    intro r r' v hr
    unfold applyValueBalance at hr
    split at hr
    · simp at hr
    · cases hr
      rfl
  unfold crossing
  cases hp : tx.sparkPayload with
  | none =>
    rw [applySparkTx, hp] at h
    cases h
    simp
  | some payload =>
    obtain ⟨tags, p1, p2, hpay, hmint, hvalue⟩ := applySparkTx_eq_some hp h
    have h1 : p1.poolValue = p.poolValue := by
      rw [applySparkPayload, bind_eq_bind, bind_eq_some_iff] at hpay
      obtain ⟨p0, htags, hbare⟩ := hpay
      rw [poolValue_foldlM (fun _ _ _ => poolValue_addCoin) hbare,
        poolValue_foldlM (fun _ _ _ => poolValue_markTagSpent) htags]
    have h2 : p2.poolValue = p.poolValue := by
      rcases hmint with rfl | ⟨coins, hcoins⟩
      · exact h1
      · rw [poolValue_foldlM (fun _ _ _ => poolValue_addCoin) hcoins, h1]
    rw [map_some, getD_some]
    rcases hvalue with hvalue | ⟨bundle, hvalue⟩
    · rw [hbalance hvalue, h2]
    · rw [hbalance hvalue, poolValue_addSpendOutputs, h2]

/-- So does a block, and the pool is never negative. -/
lemma applySparkV2Txs_poolValue {p q : SparkPool} (h : p.applySparkV2Txs E txs height = some q) :
    q.poolValue = p.poolValue - (txs.map (·.crossing)).sum ∧ 0 ≤ q.poolValue := by
  obtain ⟨hfold, -, -, hsecure, -⟩ := SparkPool.applySparkV2Txs_eq_some.mp h
  constructor
  · clear hsecure h
    generalize p.toPoolContents = c at hfold ⊢
    induction txs generalizing c with
    | nil =>
      cases hfold
      simp
    | cons tx txs ih =>
      rw [foldlM_cons, bind_eq_bind, bind_eq_some_iff] at hfold
      obtain ⟨r, hr, hfold⟩ := hfold
      rw [ih r hfold, applySparkTx_poolValue hr, map_cons, sum_cons]
      omega
  · simp only [SparkPool.isSecure, decide_eq_true_eq] at hsecure
    exact hsecure.2.2.2

/-! ## One block -/

/-- No output is overwritten, output indices fit a byte, fees fit `u64`. -/
@[mk_iff] structure Countable (E : Env) (s : Books) (b : Block) : Prop where
  distinctKeys : (b.transactions.flatMap (removedKeys E)).Nodup
  newKeys : ∀ k ∈ b.transactions.flatMap (removedKeys E), s.utxos.outputs k = none
  fees : ((b.transactions.drop 1).map (·.fee)).sum < 2 ^ 64

/-- The unbacked fees of a block. -/
def Block.unbackedFees (b : Block) : ℕ := (b.transactions.map (·.unbackedFee)).sum

/-- Balanced transactions balance together. -/
lemma sum_balanced {l : List Transaction}
    (h : ∀ tx ∈ l, tx.inValue + tx.crossing + tx.unbackedFee = tx.outValue + tx.fee) :
    (l.map (·.inValue)).sum + (l.map (·.crossing)).sum + ((l.map (·.unbackedFee)).sum : ℕ)
      = (l.map (·.outValue)).sum + ((l.map (·.fee)).sum : ℕ) := by
  induction l with
  | nil => rfl
  | cons tx l ih =>
    have htx := h tx mem_cons_self
    have hl := ih fun x hx => h x (mem_cons_of_mem tx hx)
    simp only [map_cons, sum_cons]
    omega

variable {coinbase : Transaction}

/-- The account of one block. -/
lemma Accepted.balanced (h : Accepted W s b coinbase rest s') (hb : Countable E s b) :
    (b.transactions.map (·.outValue)).sum - (b.transactions.map (·.inValue)).sum
        - (b.transactions.map (·.crossing)).sum
      = calculateBlockReward b.height - blockFeeBurn E b + b.unbackedFees := by
  have htxs := h.valid.transactions
  have hrest : ∀ tx ∈ rest, tx.inValue + tx.crossing + tx.unbackedFee = tx.outValue + tx.fee := by
    intro tx htx
    obtain ⟨hcb, hvalid⟩ := h.valid.validated tx htx
    exact tx_balanced hcb (by rw [htxs]; exact mem_cons_of_mem _ htx) hvalid h.gate
  have hfees : (rest.map (·.fee)).sum < 2 ^ 64 := by
    have := hb.fees
    rwa [htxs] at this
  obtain ⟨amount, hmax, hpaid⟩ := h.valid.paid (by rw [h.height]; omega)
  have hburn := maxCoinbase_add_blockFeeBurn htxs h.valid.first
    (fun tx htx => (h.valid.validated tx htx).1) hmax
  rw [totalFees_eq_min htxs] at hburn
  have hin : coinbase.inValue = 0 := by
    simp [inValue, spends, h.valid.first]
  have hnot : coinbase.isShielded = false := by
    have := h.valid.first
    simp only [isCoinbase, decide_eq_true_eq] at this
    simp [isShielded, this]
  have hcross : coinbase.crossing = 0 := by
    simp [crossing, sparkPayload, hnot]
  have hunbacked : coinbase.unbackedFee = 0 := by simp [unbackedFee, hnot]
  have hout : coinbase.outValue = amount := hpaid
  have hsum := sum_balanced hrest
  simp only [Block.unbackedFees, htxs, map_cons, sum_cons, hin, hcross, hout]
  omega

/-! ## The run -/

/-- The state of the account after a chain of accepted blocks. -/
structure Balanced (E : Env) (keyImageOf : PublicKey → KeyImage) (g : Block) (s : Books) : Prop where
  genesis : s.genesis = g
  sound : s.utxos.Sound keyImageOf s.tip.height
  index : IndexOwned s.utxos
  pool : 0 ≤ s.pool.poolValue
  value : s.utxos.unspentValue keyImageOf s.tip.height + s.pool.poolValue
    = chainEmission s.above + (g.transactions.map (·.outValue)).sum - chainBurn E s.above
      + (s.above.map (·.unbackedFees)).sum

/-- Genesis holds coinbase transactions with distinct output keys. -/
structure GenesisOk (E : Env) (g : Block) : Prop where
  height : g.height = 0
  coinbase : ∀ tx ∈ g.transactions, tx.isCoinbase = true
  keys : (g.transactions.flatMap (removedKeys E)).Nodup

lemma balanced_genesisBooks (hI : Ideal W.toCrypto keyImageOf) (hg : GenesisOk E g) :
    Balanced E keyImageOf g (genesisBooks E g) := by
  have hspends : ∀ tx ∈ g.transactions, tx.spends = [] ∧ spentKeyImages tx = [] := by
    intro tx htx
    simp [spends, spentKeyImages, hg.coinbase tx htx]
  have himages : g.transactions.flatMap spentKeyImages = [] :=
    flatMap_eq_nil_iff.mpr fun tx htx => (hspends tx htx).2
  have hf : FreshFor E g.transactions empty :=
    ⟨hg.keys, fun _ _ => rfl, fun ki hki => by rw [himages] at hki; simp at hki⟩
  obtain ⟨hsound, hvalue⟩ := (sound_empty keyImageOf 0).connectBlock hI.injective
    (le_refl 0) hf (by rw [himages]; exact nodup_nil)
    (fun tx htx p hp => by rw [(hspends tx htx).1] at hp; simp at hp)
  have hcore := toUtxoCore_genesisBooks E g
  have htip : (genesisBooks E g).tip.height = 0 := hg.height
  have hempty : empty.unspentValue keyImageOf 0 = 0 := by
    simp [unspentValue, keysThrough, empty]
  have hin : (g.transactions.map (·.inValue)).sum = 0 := by
    apply sum_eq_zero
    intro x hx
    obtain ⟨tx, htx, rfl⟩ := mem_map.mp hx
    simp [inValue, (hspends tx htx).1]
  refine ⟨rfl, ?_, indexOwned_genesisBooks E g, le_refl 0, ?_⟩
  · rw [hcore, htip]
    exact hsound
  · rw [hcore, htip, hvalue, hempty, hin]
    simp [genesisBooks, SparkPool.cleared, SparkPool.clearedBeside, chainEmission, chainBurn]

/-- The key images of an accepted block are new and distinct. -/
lemma Accepted.spendable (hI : Ideal W.toCrypto keyImageOf)
    (hs : s.utxos.Sound keyImageOf s.tip.height) (hindex : IndexOwned s.utxos)
    (h : Accepted W s b coinbase rest s') :
    ∀ tx ∈ b.transactions, ∀ p ∈ tx.spends, s.utxos.Spendable keyImageOf p.1 p.2 := by
  intro tx htx p hp
  rw [h.valid.transactions] at htx
  rcases mem_cons.mp htx with rfl | htx
  · simp [spends, h.valid.first] at hp
  · obtain ⟨hcb, hvalid⟩ := h.valid.validated tx htx
    rw [spends, hcb] at hp
    obtain ⟨input, hin, rfl⟩ := mem_map.mp hp
    have hchecked := inputsChecked_of_validate hcb hvalid (ne_nil_of_mem hin)
    exact hchecked.spendable hI hs hindex hin

/-- One accepted block keeps the account. -/
lemma Balanced.step (hI : Ideal W.toCrypto keyImageOf) (hs : Balanced E keyImageOf g s)
    (hb : Countable E s b) (h : acceptBlock W s b = some s') : Balanced E keyImageOf g s' := by
  obtain ⟨coinbase, rest, hacc⟩ := acceptBlock_eq_some h
  obtain ⟨hnd, hnew⟩ := hacc.valid.spentKeyImages
  have hle : s.tip.height ≤ b.height := by
    rw [hacc.height]
    omega
  obtain ⟨hsound, hvalue⟩ := hs.sound.connectBlock hI.injective hle
    (⟨hb.distinctKeys, hb.newKeys, hnew⟩ : FreshFor E b.transactions s.utxos.toUtxoCore) hnd
    (hacc.spendable hI hs.sound hs.index)
  have hcore : s'.utxos.toUtxoCore
      = s.utxos.toUtxoCore.connectBlock E b.height b.transactions := by
    rw [hacc.utxos]
    exact UtxoSet.toUtxoCore_extend s.utxos b
  obtain ⟨hpool, hpos⟩ := applySparkV2Txs_poolValue hacc.pool
  have hbalance := hacc.balanced hb
  have hold := hs.value
  refine ⟨hacc.genesis.trans hs.genesis, ?_, ?_, hpos, ?_⟩
  · rw [hcore, hacc.tip]
    exact hsound
  · rw [hacc.utxos]
    exact hs.index.extend b
  · have hcheck : (s.pool.checkpointAtHeight b.height).poolValue = s.pool.poolValue := rfl
    rw [hcore, hacc.tip, hpool, hacc.above]
    simp only [chainEmission_cons, chainBurn_cons, map_cons, sum_cons]
    omega

lemma balanced_of_reaches (hI : Ideal W.toCrypto keyImageOf) (hg : GenesisOk E g)
    (h : Run.Reaches (acceptBlock W) (Countable E) (genesisBooks E g) s) :
    Balanced E keyImageOf g s :=
  h.invariant (balanced_genesisBooks hI hg) fun _ _ _ hs hb hstep => hs.step hI hb hstep

/-- No unbacked fee without a version 1 fee. -/
lemma sum_unbackedFees_eq_zero {blocks : List Block} :
    (blocks.map (·.unbackedFees)).sum = 0 ↔
      ∀ b ∈ blocks, ∀ tx ∈ b.transactions, tx.isShielded → tx.sparkPayload = none → tx.fee = 0 := by
  simp only [sum_eq_zero_iff, List.forall_mem_map, Block.unbackedFees]
  refine forall₂_congr fun b _ => forall₂_congr fun tx _ => ?_
  unfold unbackedFee
  by_cases hsh : tx.isShielded = true
  · by_cases hp : tx.sparkPayload = none
    · simp
    · simp
  · simp

/-- Over every chain of accepted blocks that overwrite no output and whose fees fit `u64`, the pool
value is never negative, and the unspent value with the pool value is what was issued less what was
burned iff no version 1 shielded transaction pays a fee. -/
theorem value_conserved_iff (hI : Ideal W.toCrypto keyImageOf) {g : Block} (hg : GenesisOk E g)
    (h : Run.Reaches (acceptBlock W) (Countable E) (genesisBooks E g) s) :
    0 ≤ s.pool.poolValue ∧
      (s.utxos.unspentValue keyImageOf s.tip.height + s.pool.poolValue
          = chainEmission s.above + (g.transactions.map (·.outValue)).sum - chainBurn E s.above ↔
        ∀ b ∈ s.above, ∀ tx ∈ b.transactions,
          tx.isShielded → tx.sparkPayload = none → tx.fee = 0) := by
  have hs := balanced_of_reaches hI hg h
  refine ⟨hs.pool, ?_⟩
  rw [← sum_unbackedFees_eq_zero, hs.value]
  omega

/-! ## Concrete chains -/

instance (E : Env) (s : Books) (b : Block) : Decidable (Countable E s b) :=
  decidable_of_iff _ (countable_iff E s b).symm

/-- The sample signature is ideal. -/
lemma ideal_sampleCrypto : Ideal sampleCrypto id where
  injective := Function.injective_id
  clsag _ ring pseudo sig h := by
    simpa [sampleCrypto] using h

lemma genesisOk_sampleGenesis (net : NetworkType) (txSize : ℕ) :
    GenesisOk (sampleEnv net txSize) sampleGenesis where
  height := rfl
  coinbase := by decide
  keys := by
    show ([coinbaseTx 0 _].flatMap (removedKeys (sampleEnv .beta 1))).Nodup
    decide +kernel

/-- A shield-in of one genesis output, in the ring of all eleven. -/
def shieldInTx : Transaction :=
  { txType := .shielded
    inputs := [{
      keyImage := 3
      ringMembers := (List.range 11).map fun i => ⟨i + 1, commit 5000000⟩
      pseudoOutputCommitment := commit 5000000 }]
    fee := 1000
    extra := .sparkV2 { mint := some 4999000, valueBalance := -4999000 } }

/-- Ten blocks on the beta network, the last one with a shield-in. -/
theorem value_conserved_after_shield_in :
    ∃ s, Run.Reaches (acceptBlock (sampleValidator (sampleEnv .beta 1)))
        (Countable (sampleEnv .beta 1)) (genesisBooks (sampleEnv .beta 1) sampleGenesis) s ∧
      s.tip.height = 10 ∧ s.pool.poolValue = 4999000 ∧
      s.utxos.unspentValue id s.tip.height + s.pool.poolValue
        = chainEmission s.above + (sampleGenesis.transactions.map (·.outValue)).sum
          - chainBurn (sampleEnv .beta 1) s.above := by
  refine Run.exists_reaches_of_exec_guarded (emptyBlocks 9 ++ [minedBlock 10 1000 [shieldInTx]])
    (P := fun s => s.tip.height = 10 ∧ s.pool.poolValue = 4999000 ∧ ∀ b ∈ s.above,
      ∀ tx ∈ b.transactions, tx.isShielded → tx.sparkPayload = none → tx.fee = 0)
    (by decide +kernel) ?_
  intro s hreach ⟨htip, hpool, hfees⟩
  have hconserved := value_conserved_iff (W := sampleValidator (sampleEnv .beta 1))
    ideal_sampleCrypto (genesisOk_sampleGenesis .beta 1) hreach
  exact ⟨htip, hpool, hconserved.2.mpr hfees⟩

/-- A version 1 shielded transaction; nothing pays its fee. -/
def version1Tx : Transaction :=
  { txType := .shielded, fee := 1000, extra := .shieldedV1 ⟨0, 9⟩ }

/-- A coinbase claims the fee of a version 1 shielded transaction that takes nothing out of the set
or the pool: a thousand units more exist than were issued. -/
theorem version1_fee_mints_value :
    ∃ s, Run.Reaches (acceptBlock (sampleValidator (sampleEnv .beta 1))) (fun _ _ => True)
        (genesisBooks (sampleEnv .beta 1) sampleGenesis) s ∧
      Ideal (sampleValidator (sampleEnv .beta 1)).toCrypto id ∧
      s.utxos.unspentValue id s.tip.height + s.pool.poolValue
        = chainEmission s.above + (sampleGenesis.transactions.map (·.outValue)).sum
          - chainBurn (sampleEnv .beta 1) s.above + 1000 := by
  apply Run.exists_reaches_of_exec (emptyBlocks 4 ++ [minedBlock 5 1000 [version1Tx]])
  have hideal : Ideal (sampleValidator (sampleEnv .beta 1)).toCrypto id := ideal_sampleCrypto
  simp only [hideal, true_and]
  decide +kernel

end CoinCync

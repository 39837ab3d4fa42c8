import CoinCync.OutputIndex
import CoinCync.SparkGate

/-!
# Accepted blocks applied in order

The ledger a chain of accepted blocks leaves, without forks. `acceptBlock` takes a block that passes
`validate_block_ctx` against the state of its predecessors and the Spark gate, and applies it as the
extend path of `add_block` does; `acceptBlock_of_addBlock` says that an accepted extension of the
node is such a step.
-/

namespace CoinCync

open List Option UtxoSet

/-- A chain of accepted blocks and what they leave. -/
structure Books where
  genesis : Block
  /-- The blocks above genesis, newest first. -/
  above : List Block := []
  utxos : UtxoSet
  pool : SparkPool := SparkPool.cleared

/-- The newest block. -/
def Books.tip (s : Books) : Block := s.above.headD s.genesis

/-- The state after genesis, as `init_genesis` leaves it. -/
def genesisBooks (E : Env) (g : Block) : Books where
  genesis := g
  utxos :=
    let utxos := UtxoSet.empty.connectBlock E 0 g.transactions
    { utxos with db := insertRows utxos.db (outputRows 0 g.transactions) }

/-- What an extension and its commit do to the UTXO set. -/
def UtxoSet.extend (E : Env) (u : UtxoSet) (b : Block) : UtxoSet :=
  let u := (u.connectBlock E b.height b.transactions).evictOldOutputs b.height 1000
  { u with db := commitRows u.db (outputRows b.height b.transactions) }

variable {E : Env}

/-- Validate a block on its predecessors, and apply it. -/
def acceptBlock (W : Validator E) (s : Books) (b : Block) : Option Books :=
  if validateBlockCtx W b (some s.tip) s.utxos none true = [] ∧
      verifyBlockSparkV2AtHeight E W.toCrypto s.pool.toPoolContents b.transactions b.height then
    ((s.pool.checkpointAtHeight b.height).applySparkV2Txs E b.transactions b.height).map fun pool =>
      { s with above := b :: s.above, utxos := s.utxos.extend E b, pool := pool }
  else none

variable {W : Validator E} {s s' : Books} {b : Block}

/-- What one accepted block does. -/
structure Accepted (W : Validator E) (s : Books) (b : Block) (coinbase : Transaction)
    (rest : List Transaction) (s' : Books) : Prop where
  valid : BlockValid W b (some s.tip) s.utxos true coinbase rest
  gate : verifyBlockSparkV2AtHeight E W.toCrypto s.pool.toPoolContents b.transactions b.height
  genesis : s'.genesis = s.genesis
  above : s'.above = b :: s.above
  utxos : s'.utxos = s.utxos.extend E b
  pool : (s.pool.checkpointAtHeight b.height).applySparkV2Txs E b.transactions b.height
    = some s'.pool

/-- Every accepted block does that. -/
lemma acceptBlock_eq_some (h : acceptBlock W s b = some s') :
    ∃ coinbase rest, Accepted W s b coinbase rest s' := by
  unfold acceptBlock at h
  split at h
  · rename_i hok
    obtain ⟨pool, hpool, rfl⟩ := map_eq_some_iff.mp h
    obtain ⟨coinbase, rest, hvalid⟩ := validateBlockCtx_eq_nil rfl hok.1
    exact ⟨coinbase, rest, hvalid, hok.2, rfl, rfl, rfl, hpool⟩
  · simp at h

namespace Accepted

lemma tip (h : Accepted W s b coinbase rest s') : s'.tip = b := by
  rw [Books.tip, h.above, headD_cons]

lemma height (h : Accepted W s b coinbase rest s') : b.height = s.tip.height + 1 :=
  (h.valid.linked s.tip rfl).1

end Accepted

/-! ## The node takes such steps -/

/-- The rules of a node that runs the validator and the Spark gate. -/
structure RunsValidator (R : Rules E) (W : Validator E) : Prop where
  validate : ∀ b parent u cp contextual,
    R.validateBlockCtx b parent u cp contextual = .valid ↔
      validateBlockCtx W b parent u cp contextual = []
  spark : ∀ p txs h, R.verifyBlockSparkV2 p txs h
    = verifyBlockSparkV2AtHeight E W.toCrypto p.toPoolContents txs h
  fullVerification : W.allowCheckpointCryptoSkip = false

/-- The rules of a node with validator and Spark gate, and no other check. -/
def Validator.rules (W : Validator E) (genesis : Block) (hheight : genesis.height = 0)
    (hcoinbase : ∀ tx ∈ genesis.transactions, tx.isCoinbase) : Rules E where
  genesis := genesis
  genesis_height := hheight
  genesis_coinbase := hcoinbase
  verifyCheckpoint h k := if h = 0 then some (decide (k = E.blockHash genesis)) else none
  checkpoint_genesis := genesis_of_checkpoint E genesis
  anchorOk _ := true
  timestampOk _ _ := true
  targetOk _ _ _ := true
  validateBlockCtx b parent u cp contextual :=
    if validateBlockCtx W b parent u cp contextual = [] then .valid else .invalid
  validate_parent b u cp contextual h := by
    split at h
    · exact height_eq_zero_of_valid ‹_›
    · simp at h
  supplyCommitmentOk _ _ _ := true
  verifyBlockSparkV2 p txs h := verifyBlockSparkV2AtHeight E W.toCrypto p.toPoolContents txs h
  reorgTargetOk _ _ _ _ := true

/-- Such rules run the validator. -/
lemma Validator.runsValidator_rules (W : Validator E) (hskip : W.allowCheckpointCryptoSkip = false)
    (genesis : Block) (hheight : genesis.height = 0)
    (hcoinbase : ∀ tx ∈ genesis.transactions, tx.isCoinbase) :
    RunsValidator (W.rules genesis hheight hcoinbase) W where
  validate b parent u cp contextual := by
    show (if validateBlockCtx W b parent u cp contextual = [] then Validation.valid else .invalid)
      = .valid ↔ _
    split <;> simp_all
  spark _ _ _ := rfl
  fullVerification := hskip

/-- Without the skip the checkpoint does not matter. -/
lemma validateBlockCtx_checkpoint (hskip : W.allowCheckpointCryptoSkip = false)
    (parent : Option Block) (u : UtxoSet) (cp : Option ℕ) (contextual : Bool) :
    validateBlockCtx W b parent u cp contextual = validateBlockCtx W b parent u none contextual := by
  have hfast : ∀ cp, fastSync W b cp = false := fun cp => by simp [fastSync, hskip]
  simp only [validateBlockCtx, hfast]

/-- The books of a node's canonical chain. -/
structure Books.Of (s : Books) (n : Node) : Prop where
  tip : n.getBlock n.tip.hash = some s.tip
  utxos : n.utxos = s.utxos
  pool : n.sparkPool = some s.pool

/-! ## The output index -/

/-- Addresses of the output index are in the stealth index. -/
def IndexOwned (u : UtxoSet) : Prop :=
  ∀ x, u.stealthIndex x = none → u.getOutputIndexEntry x = none

lemma map_row_adds (h : ℕ) (txs : List Transaction) :
    (txs.flatMap (newOutputs E h)).map (fun a => (a.address, a.entry)) = outputRows h txs := by
  rw [map_flatMap]
  congr 1
  funext tx
  apply ext_getElem
  · simp [newOutputs]
  · simp [newOutputs, NewOutput.address, NewOutput.entry]

/-- Additions bring rows for addresses without one in memory. -/
lemma UtxoSet.outputIndex_connectBlock_eq (u : UtxoSet) (h : ℕ) (txs : List Transaction)
    (x : PublicKey) :
    (u.connectBlock E h txs).outputIndex x = (u.outputIndex x).or ((outputRows h txs).lookup x) := by
  rw [connectBlock_eq, foldl_addOutputExt, map_row_adds]

/-- A block is counted by its outputs. -/
lemma UtxoSet.counters_extend (u : UtxoSet) (b : Block) :
    (u.extend E b).totalOutputsEver
        = u.totalOutputsEver + (b.transactions.flatMap (newOutputs E b.height)).length ∧
      (u.extend E b).reorgDisconnectsTotal = u.reorgDisconnectsTotal := by
  unfold extend evictOldOutputs
  rw [connectBlock_eq, foldl_addOutputExt]
  split_ifs <;> exact ⟨rfl, rfl⟩

/-- Rows in memory of other addresses stay. -/
lemma UtxoSet.outputIndex_connectBlock {u : UtxoSet}
    (hx : x ∉ (txs.flatMap (newOutputs E height)).map (·.address)) :
    (u.connectBlock E height txs).outputIndex x = u.outputIndex x := by
  rw [map_address_adds] at hx
  rw [outputIndex_connectBlock_eq, Table.lookup_eq_none_iff_notMem.mpr hx, or_none]

/-- Which addresses have no row after a commit. -/
lemma commitRows_eq_none {db : PublicKey → Option OutputIndexEntry} :
    commitRows db rows x = none ↔ db x = none ∧ x ∉ rows.map (·.1) := by
  rw [commitRows, writeRows, Table.foldl_update, or_eq_none_iff, Table.lookup_eq_none_iff_notMem,
    map_reverse, mem_reverse, and_comm]
  refine and_congr_right fun hdb => not_congr ⟨fun hmem => ?_, fun hmem => ?_⟩
  · exact map_subset _ filter_sublist.subset hmem
  · obtain ⟨r, hr, rfl⟩ := mem_map.mp hmem
    exact mem_map.mpr ⟨r, mem_filter.mpr ⟨hr, by rw [hdb]; rfl⟩, rfl⟩

/-- Disk rows of other addresses stay. -/
lemma commitRows_of_notMem {db : PublicKey → Option OutputIndexEntry}
    (hx : x ∉ rows.map (·.1)) : commitRows db rows x = db x := by
  have hnone : (rows.filter fun r => (db r.1).isNone).reverse.lookup x = none := by
    rw [Table.lookup_eq_none_iff_notMem, map_reverse, mem_reverse]
    exact fun hmem => hx (map_subset _ filter_sublist.subset hmem)
  rw [commitRows, writeRows, Table.foldl_update, hnone, none_or]

@[simp] lemma UtxoSet.toUtxoCore_extend (u : UtxoSet) (b : Block) :
    (u.extend E b).toUtxoCore = u.toUtxoCore.connectBlock E b.height b.transactions := by
  show ((u.connectBlock E b.height b.transactions).evictOldOutputs b.height 1000).toUtxoCore = _
  rw [toUtxoCore_evictOldOutputs, toUtxoCore_connectBlock]

/-- The disk after an extension. -/
lemma UtxoSet.db_extend (u : UtxoSet) (b : Block) :
    (u.extend E b).db = commitRows u.db (outputRows b.height b.transactions) := by
  show commitRows ((u.connectBlock E b.height b.transactions).evictOldOutputs b.height 1000).db _ = _
  rw [db_evictOldOutputs, db_connectBlock]

/-- An extension keeps it. -/
lemma IndexOwned.extend {u : UtxoSet} (hu : IndexOwned u) (b : Block) :
    IndexOwned (u.extend E b) := by
  intro x hx
  have hnone : u.stealthIndex x = none ∧
      x ∉ (b.transactions.flatMap (newOutputs E b.height)).map (·.address) := by
    rw [← UtxoCore.stealthIndex_foldl_addOutput, ← hx, toUtxoCore_extend, UtxoCore.connectBlock_eq]
  have hentry := hu x hnone.1
  rw [getOutputIndexEntry, or_eq_none_iff] at hentry ⊢
  constructor
  · have hmem := (outputIndex_connectBlock hnone.2).trans hentry.1
    show ((u.connectBlock E b.height b.transactions).evictOldOutputs b.height 1000).outputIndex x
      = none
    unfold evictOldOutputs
    split
    · exact hmem
    · simp only [hmem, filter_none]
  · rw [map_address_adds] at hnone
    rw [db_extend, commitRows_of_notMem hnone.2]
    exact hentry.2

lemma toUtxoCore_genesisBooks (E : Env) (g : Block) : (genesisBooks E g).utxos.toUtxoCore
    = UtxoCore.empty.connectBlock E 0 g.transactions :=
  toUtxoCore_connectBlock empty 0 g.transactions

lemma indexOwned_genesisBooks (E : Env) (g : Block) : IndexOwned (genesisBooks E g).utxos := by
  intro x hx
  have hnone : UtxoCore.empty.stealthIndex x = none ∧
      x ∉ (g.transactions.flatMap (newOutputs E 0)).map (·.address) := by
    rw [← UtxoCore.stealthIndex_foldl_addOutput, ← hx, toUtxoCore_genesisBooks,
      UtxoCore.connectBlock_eq]
  have hdb : (genesisBooks E g).utxos.db x = none := by
    show insertRows (empty.connectBlock E 0 g.transactions).db _ x = none
    rw [insertRows, Table.foldl_update_getD, db_connectBlock, or_eq_none_iff,
      Table.lookup_eq_none_iff_notMem, ← map_address_adds]
    exact ⟨rfl, hnone.2⟩
  rw [getOutputIndexEntry, hdb, filter_none, or_none]
  exact outputIndex_connectBlock hnone.2

/-! ## A sample validator

What concrete chains are evaluated on: every header and proof verdict is positive, and a signature
verifies over a ring that has a member whose address is the key image and whose value is that of the
pseudo-output. -/

/-- Third-party verifiers for concrete chains. -/
def sampleCrypto : Crypto where
  isPoint _ := true
  signingHash _ := 0
  clsagVerify _ ring pseudo sig :=
    ring.any fun m => m.publicKey = sig.keyImage ∧ m.commitment.value = pseudo.value
  verifyRangeProofs _ _ := true
  verifyBundle _ := true
  verifySpendBatch _ spends := some (spends.map fun p => [p.1])

/-- The validator of concrete chains. -/
def sampleValidator (E : Env) : Validator E where
  toCrypto := sampleCrypto
  magicOk _ := true
  checkpointOk _ := true
  shieldedRootPermitted _ := true
  headerFieldsOk _ _ := true
  verifyPow _ _ := true
  targetSane _ _ := true
  merkleRoot _ := 0
  allowCheckpointCryptoSkip := false

/-- The eight little-endian bytes of an amount. -/
def leBytes (amount : ℕ) : List ℕ := (List.range 8).map fun i => amount / 256 ^ i % 256

/-- An output that shows its amount, as a coinbase's does. -/
def revealedOutput (address amount : ℕ) : TxOutput :=
  { stealthAddress := address
    commitment := Commitment.commit amount
    encryptedAmount := leBytes amount }

/-- A coinbase, told apart by its `extra`. -/
def coinbaseTx (id : ℕ) (outputs : List TxOutput) : Transaction :=
  { txType := .coinbase, outputs := outputs, extra := .bytes id }

/-- A genesis whose coinbase pays to eleven addresses from `1` on. -/
def sampleGenesis : Block :=
  sampleBlock 0 0 7 (2 ^ 255) [coinbaseTx 0 ((List.range 11).map fun i => revealedOutput (i + 1) 5000000)]

/-- A coinbase that pays reward and fees to a fresh address. -/
def minedBlock (height fees : ℕ) (txs : List Transaction) : Block :=
  sampleBlock height 0 (1000 * (height - 1)) (2 ^ 255)
    (coinbaseTx height [revealedOutput (1000 + height) (calculateBlockReward height + fees)] :: txs)

/-- Blocks `1 .. n` without transactions. -/
def emptyBlocks (n : ℕ) : List Block := (List.range n).map fun i => minedBlock (i + 1) 0 []

/-- A genesis with eleven outputs of the given value. -/
def fundedGenesis (value : ℕ) : Block :=
  sampleBlock 0 0 7 (2 ^ 255) [coinbaseTx 0 ((List.range 11).map fun i => revealedOutput (i + 1) value)]

lemma fundedGenesis_height : (fundedGenesis 30000000).height = 0 := rfl

lemma fundedGenesis_coinbase : ∀ tx ∈ (fundedGenesis 30000000).transactions, tx.isCoinbase := by
  decide

/-- A beta network that runs the sample validator. -/
def betaRules : Rules (sampleEnv .beta 1) :=
  (sampleValidator _).rules _ fundedGenesis_height fundedGenesis_coinbase

lemma runsValidator_betaRules : RunsValidator betaRules (sampleValidator (sampleEnv .beta 1)) :=
  Validator.runsValidator_rules _ rfl _ _ _

/-- Shields a genesis output for the fee that the reward of height ten lacks. -/
def toppingUpTx : Transaction :=
  let fee := calculateBlockReward 9 - calculateBlockReward 10
  { txType := .shielded
    inputs := [{
      keyImage := 3
      ringMembers := (List.range 11).map fun i => ⟨i + 1, Commitment.commit 30000000⟩
      pseudoOutputCommitment := Commitment.commit 30000000 }]
    fee := fee
    extra := .sparkV2 { mint := some (30000000 - fee), valueBalance := -(30000000 - fee : ℕ) } }

/-! ## The node keeps the books -/

/-- An extension that `add_block` accepts is a step of the books. -/
theorem acceptBlock_of_addBlock (hR : RunsValidator R W) (hs : s.Of n)
    (hprev : b.prevHash = n.tip.hash) (h : addBlock R n b = some (n', .ok .accepted)) :
    ∃ s', acceptBlock W s b = some s' ∧ n'.utxos = s'.utxos ∧ n'.sparkPool = some s'.pool := by
  unfold addBlock at h
  cases hpre : preCheck R n b with
  | some r =>
    rw [hpre] at h
    cases h
    exact absurd rfl (preCheck_ne_accepted hpre).1
  | none =>
    have hpass := preCheck_eq_none.mp hpre
    have hmain : n.isMainChain b = true := by simp [Node.isMainChain, hprev]
    rw [hpre, if_pos hmain] at h
    rcases connectTip_eq_some h with ⟨-, hr⟩ | ⟨l, hspark, hl, -, hforget⟩
    · simp at hr
    · have hvalid : validateBlockCtx W b (some s.tip) s.utxos none true = [] := by
        have hv := hpass.valid
        rw [hprev, hs.tip, hs.utxos, hmain, hR.validate,
          validateBlockCtx_checkpoint hR.fullVerification] at hv
        exact hv
      have hgate : verifyBlockSparkV2AtHeight E W.toCrypto s.pool.toPoolContents b.transactions
          b.height = true := by
        have hstored : (n.storeBlock E b).sparkPool = some s.pool := hs.pool
        rw [Rules.sparkOk, hstored] at hspark
        simpa only [hR.spark] using hspark
      obtain ⟨-, -, hlu, hlp⟩ := Ledger.connect_eq_some hl
      have hfed : connectPool E (some s.pool) b.height b.transactions = some l.pool := by
        rw [← hs.pool]
        exact hlp
      obtain ⟨pool, hpool, hpool'⟩ := map_eq_some_iff.mp hfed
      have hfinal : n'.utxos = s.utxos.extend E b ∧ n'.sparkPool = some pool := by
        rw [hforget.eq, hpool', ← hs.utxos]
        refine ⟨?_, rfl⟩
        have hutxos : (((n.storeBlock E b).extendedWith E b l).commitBlock E b).utxos
            = { l.utxos.evictOldOutputs b.height 1000 with
                db := commitRows (l.utxos.evictOldOutputs b.height 1000).db
                  (outputRows b.height b.transactions) } := rfl
        refine hutxos.trans ?_
        rw [hlu]
        rfl
      refine ⟨{ s with above := b :: s.above, utxos := s.utxos.extend E b, pool := pool }, ?_,
        hfinal.1, hfinal.2⟩
      rw [acceptBlock, if_pos ⟨hvalid, hgate⟩, hpool, map_some]

/-- The books of a beta node with nine empty blocks. -/
def betaBooks (n : Node) : Books where
  genesis := fundedGenesis 30000000
  above := (emptyBlocks 9).reverse
  utxos := n.utxos
  pool := n.sparkPool.getD .cleared

/-- Nine empty blocks, and one that shields an output of genesis. -/
theorem acceptBlock_of_addBlock_shielding :
    ∃ n n' s', Run.exec (step betaRules) (genesisNode betaRules (some .cleared))
        ((emptyBlocks 9).map .addBlock) = some n ∧
      addBlock betaRules n (minedBlock 10 toppingUpTx.fee [toppingUpTx]) = some (n', .ok .accepted) ∧
      acceptBlock (sampleValidator (sampleEnv .beta 1)) (betaBooks n)
        (minedBlock 10 toppingUpTx.fee [toppingUpTx]) = some s' ∧
      n'.utxos = s'.utxos ∧ n'.sparkPool = some s'.pool ∧ s'.pool.coins.length = 1 := by
  set b := minedBlock 10 toppingUpTx.fee [toppingUpTx]
  have hrun : ∃ n ∈ Run.exec (step betaRules) (genesisNode betaRules (some .cleared))
      ((emptyBlocks 9).map .addBlock), n.getBlock n.tip.hash = some (minedBlock 9 0 []) ∧
      b.prevHash = n.tip.hash ∧ n.sparkPool.isSome ∧ ∃ r ∈ addBlock betaRules n b,
        r.2 = .ok .accepted ∧ r.1.sparkPool.map (·.coins.length) = some 1 := by
    decide +kernel
  obtain ⟨n, hn, htip, hprev, hp, ⟨n', r⟩, hadd, rfl, hcoins⟩ := hrun
  obtain ⟨p, hp⟩ := isSome_iff_exists.mp hp
  have hs : (betaBooks n).Of n := ⟨htip, rfl, by simp [betaBooks, hp]⟩
  obtain ⟨s', haccept, hutxos, hpool⟩ :=
    acceptBlock_of_addBlock runsValidator_betaRules hs hprev hadd
  rw [hpool] at hcoins
  exact ⟨n, n', s', hn, hadd, haccept, hutxos, hpool, Option.some.inj hcoins⟩

end CoinCync

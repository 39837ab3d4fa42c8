import CoinCync.AddBlock
import CoinCync.TxValidation

/-!
# Validating a block

`validate_block_ctx` of `consensus/validation.rs`. The errors are given as the list the source leaves
in `BlockValidation::errors`, in its order; a block is valid when it is empty. Fields of the header
that the model does not carry are judged by the parameters of `Validator`: network magic, pinned
checkpoints, versions, votes, the clock, the accumulator root, proof of work and the sanity of the
target.
-/

namespace CoinCync

open Check List MachineInt

/-- Transaction verifiers, and verdicts on the rest of the header. -/
structure Validator (E : Env) extends Crypto where
  /-- `check_block_network_magic`. -/
  magicOk : Block → Bool
  /-- `check_block_consensus_checkpoint`. -/
  checkpointOk : Block → Bool
  /-- `shielded_root_permitted`. -/
  shieldedRootPermitted : Block → Bool
  /-- Version bounds, version and timestamp against the parent, checkpoint vote, future time. -/
  headerFieldsOk : Block → Option Block → Bool
  /-- `verify_pow`. -/
  verifyPow : Block → Block → Bool
  /-- `validate_difficulty_target`. -/
  targetSane : Block → Block → Bool
  merkleRoot : List Hash → Hash
  /-- Whether the build has the `insecure-fast-sync` feature. -/
  allowCheckpointCryptoSkip : Bool

/-- The errors of `validate_block_ctx`. -/
inductive BlockError
  | networkMagic
  | checkpoint
  | headerFields
  | noParent
  | height (expected got : ℕ)
  | prevHash
  | sparkSetRoot
  | proofOfWork
  | target
  | proofOfWorkWithoutParent
  | tooLarge (size : ℕ)
  | tooHeavy (weight : ℕ)
  | tooManyTransactions (count : ℕ)
  | missingCoinbase
  | firstNotCoinbase
  | merkleRoot
  | transparentOutput
  | rawPubkey
  | unshielded
  | coinbaseOverflow
  | belowTail (reward : ℕ)
  | aboveGenesisReward (reward : ℕ)
  | coinbaseNoOutputs
  | coinbaseInputs
  | coinbaseTooManyOutputs (count : ℕ)
  | coinbaseDust (count : ℕ)
  | coinbaseAmountEncoding (output length : ℕ)
  | coinbaseCommitment (output declared : ℕ)
  | coinbaseZeroCommitment (output : ℕ)
  | coinbaseSumOverflow (output : ℕ)
  | coinbaseTotal (declared expected : ℕ)
  | duplicateTxHash
  | duplicateKeyImage (keyImage : KeyImage)
  | duplicateStealth (address : PublicKey)
  | feeOverflow (tx : ℕ)
  | feeTooLow (tx dynamicMin : ℕ)
  | multipleCoinbase (tx : ℕ)
  | transaction (tx : ℕ) (e : TxError)
deriving DecidableEq

/-- One collected error, if the check fails. -/
def expect (c : Prop) [Decidable c] (e : BlockError) : List BlockError := if c then [] else [e]

/-- No error exactly if the check passes. -/
@[simp] lemma expect_eq_nil [Decidable c] : expect c e = [] ↔ c := by
  unfold expect
  split
  · simpa
  · simpa

variable {E : Env}
variable {coinbase : Transaction}

/-! ## Header -/

/-- `validate_header`; genesis alone has no parent. -/
def headerErrors (W : Validator E) (b : Block) (parent : Option Block) : List BlockError :=
  expect (W.headerFieldsOk b parent) .headerFields ++
  match parent with
  | none => expect (b.height = 0) .noParent
  | some p =>
    expect (b.height = p.height + 1) (.height (p.height + 1) b.height) ++
    expect (b.prevHash = E.blockHash p) .prevHash

/-- `verify_pow` and the sanity of the target. -/
def powErrors (W : Validator E) (b : Block) (parent : Option Block) (fastSync : Bool) :
    List BlockError :=
  if b.height = 0 then []
  else match parent with
    | none => [.proofOfWorkWithoutParent]
    | some p => expect (fastSync ∨ W.verifyPow p b) .proofOfWork ++ expect (W.targetSane p b) .target

/-! ## Size, roots and policy -/

/-- `MAX_BLOCK_WEIGHT`. -/
def maxBlockWeight : ℕ := maxBlockSize * 4

/-- `MAX_TXS_PER_BLOCK`. -/
def maxTxsPerBlock : ℕ := 5000

/-- `check_block_weight`: the bytes, and 256 units for a ring member. -/
def blockWeight (E : Env) (b : Block) : ℕ :=
  (b.transactions.map fun tx =>
    E.txSize tx + (tx.inputs.map (·.ringMembers.length)).sum * 256).sum

/-- Bytes, weight and number of transactions. -/
def sizeErrors (E : Env) (b : Block) : List BlockError :=
  expect (E.blockSize b ≤ maxBlockSize) (.tooLarge (E.blockSize b)) ++
  expect (blockWeight E b ≤ maxBlockWeight) (.tooHeavy (blockWeight E b)) ++
  expect (b.transactions.length ≤ maxTxsPerBlock) (.tooManyTransactions b.transactions.length)

/-- `check_tx_privacy`. -/
def checkTxPrivacy (C : Crypto) (tx : Transaction) : Except BlockError Unit := do
  require (∀ o ∈ tx.outputs, o.commitment ≠ 0) .transparentOutput
  require (∀ o ∈ tx.outputs, C.isPoint o.stealthAddress ∧ o.stealthAddress ≠ 0) .rawPubkey
  require (tx.inputs ≠ []) .unshielded

/-- `enforce_privacy_policy`: the first violation. -/
def privacyErrors (C : Crypto) (b : Block) : List BlockError :=
  match all b.transactions fun tx => when (!tx.isCoinbase ∧ !tx.isShielded) (checkTxPrivacy C tx) with
  | .ok _ => []
  | .error e => [e]

/-- The bounds of the reward. -/
def tailSupplyErrors (expectedReward : ℕ) : List BlockError :=
  expect (tailEmission ≤ expectedReward) (.belowTail expectedReward) ++
  expect (expectedReward ≤ calculateBlockReward 0) (.aboveGenesisReward expectedReward)

/-! ## The coinbase -/

/-- Fees of all transactions but the first, saturating. -/
def totalFees (b : Block) : ℕ := satSum 64 ((b.transactions.drop 1).map (·.fee))

/-- The reward with all fees, or with the miner's share; `none` is an overflow. -/
def maxCoinbase (E : Env) (b : Block) : Option ℕ :=
  if E.network.feeDistributionHeight ≤ b.height ∧ 0 < totalFees b then
    checkedAdd 64 (calculateBlockReward b.height)
      (distributeFee (totalFees b) (E.congested b)).toMiner
  else checkedAdd 64 (calculateBlockReward b.height) (totalFees b)

/-- The loop over the outputs from `i` on: errors and declared total. A sum beyond `u64` breaks it
off. -/
def coinbaseOutputLoop (v1012Active : Bool) : ℕ → ℕ → List TxOutput → List BlockError × ℕ
  | _, totalDeclared, [] => ([], totalDeclared)
  | i, totalDeclared, o :: rest =>
    if (if v1012Active then o.encryptedAmount.length = 8 else 8 ≤ o.encryptedAmount.length) then
      let declared := leU64 o.encryptedAmount
      let errors :=
        expect (o.commitment = Commitment.commit declared) (.coinbaseCommitment i declared) ++
        expect (o.commitment ≠ 0) (.coinbaseZeroCommitment i)
      match checkedAdd 64 totalDeclared declared with
      | none => (errors ++ [.coinbaseSumOverflow i], totalDeclared)
      | some next =>
        let r := coinbaseOutputLoop v1012Active (i + 1) next rest
        (errors ++ r.1, r.2)
    else
      let r := coinbaseOutputLoop v1012Active (i + 1) totalDeclared rest
      (.coinbaseAmountEncoding i o.encryptedAmount.length :: r.1, r.2)

/-- Each output opens to its declared amount, together exactly what may be paid. -/
def coinbaseAmountErrors (coinbase : Transaction) (maxCoinbase : ℕ) (v1012Active : Bool) :
    List BlockError :=
  let r := coinbaseOutputLoop v1012Active 0 0 coinbase.outputs
  if r.1 = [] then expect (r.2 = maxCoinbase) (.coinbaseTotal r.2 maxCoinbase) else r.1

/-- `MIN_OUTPUT_AMOUNT`. -/
def minOutputAmount : ℕ := 1000000

/-- The checks of the coinbase. -/
def coinbaseErrors (b : Block) (coinbase : Transaction) (maxCoinbase : ℕ)
    (v1012Active fastSync : Bool) : List BlockError :=
  expect (coinbase.outputs ≠ []) .coinbaseNoOutputs ++
  expect (coinbase.inputs = [] ∨ coinbase.isCoinbase) .coinbaseInputs ++
  expect (coinbase.outputs.length ≤ 16) (.coinbaseTooManyOutputs coinbase.outputs.length) ++
  expect (coinbase.outputs.length ≤ 1 ∨
      min (minOutputAmount * coinbase.outputs.length) (2 ^ 64 - 1) ≤ maxCoinbase)
    (.coinbaseDust coinbase.outputs.length) ++
  if 0 < b.height ∧ !fastSync then coinbaseAmountErrors coinbase maxCoinbase v1012Active else []

/-! ## Across the transactions -/

/-- No transaction occurs twice. -/
def duplicateTxHashErrors (E : Env) (b : Block) : List BlockError :=
  (repeats (b.transactions.map E.txHash)).map fun _ => .duplicateTxHash

/-- No key image occurs twice. -/
def duplicateKeyImageErrors (b : Block) : List BlockError :=
  (repeats (b.transactions.flatMap fun tx => tx.inputs.map (·.keyImage))).map .duplicateKeyImage

/-- No stealth address is created twice in the block. -/
def duplicateStealthErrors (b : Block) : List BlockError :=
  (repeats (b.transactions.flatMap fun tx => tx.outputs.map (·.stealthAddress))).map
    .duplicateStealth

/-- `MIN_FEE_PER_BYTE`. -/
def minFeePerByte : ℕ := 1000

/-- `congestion_multiplier`. -/
def congestionMultiplier (congestionPct : ℕ) : ℕ :=
  if congestionPct < 50 then 100
  else if congestionPct < 75 then 150
  else if congestionPct < 90 then 200
  else 300

/-- The fee floor of a transaction; `none` is an overflow. -/
def dynamicMin (E : Env) (b : Block) (tx : Transaction) : Option ℕ :=
  ((checkedMul 64 (E.txSize tx) minFeePerByte).bind
    (checkedMul 64 · (congestionMultiplier (E.blockSize b * 100 / maxBlockSize)))).map
    (· / 100)

/-- The transactions behind the coinbase, with their index. -/
def Block.rest (b : Block) : List (Transaction × ℕ) := b.transactions.zipIdx.drop 1

/-- Every transaction pays the floor. -/
def feeErrors (E : Env) (b : Block) : List BlockError :=
  b.rest.flatMap fun (tx, i) =>
    match dynamicMin E b tx with
    | none => [.feeOverflow i]
    | some least => expect (least ≤ tx.fee) (.feeTooLow i least)

/-- Every transaction behind the coinbase validates. -/
def txErrors (W : Validator E) (b : Block) (utxos : UtxoSet) (contextual fastSync : Bool) :
    List BlockError :=
  b.rest.flatMap fun (tx, i) =>
    if tx.isCoinbase then [.multipleCoinbase i]
    else if fastSync then []
    else match validateTransactionForNetworkCtx W.toCrypto tx utxos b.height E.network contextual with
      | .ok _ => []
      | .error e => [.transaction i e]

/-! ## The block -/

/-- Whether the cryptographic checks are skipped. -/
def fastSync (W : Validator E) (b : Block) (checkpointHeight : Option ℕ) : Bool :=
  checkpointHeight.any (b.height ≤ ·) && W.allowCheckpointCryptoSkip

/-- Header, proof of work and sizes. -/
def headErrors (W : Validator E) (b : Block) (parent : Option Block) (fastSync : Bool) :
    List BlockError :=
  headerErrors W b parent ++ powErrors W b parent fastSync ++ sizeErrors E b

/-- First transaction, merkle root and privacy policy. -/
def bodyErrors (W : Validator E) (b : Block) (coinbase : Transaction) : List BlockError :=
  expect coinbase.isCoinbase .firstNotCoinbase ++
  expect (W.merkleRoot (b.transactions.map E.txHash) = b.header.txRoot) .merkleRoot ++
  privacyErrors W.toCrypto b

/-- Duplicates across the transactions of a block. -/
def crossTxErrors (E : Env) (b : Block) : List BlockError :=
  duplicateTxHashErrors E b ++ duplicateKeyImageErrors b ++
  if E.network.v1012RulesActive b.height then duplicateStealthErrors b else []

/-- What is collected before fees and transactions. -/
def structuralErrors (W : Validator E) (b : Block) (parent : Option Block) (coinbase : Transaction)
    (maxCoinbase : ℕ) (fastSync : Bool) : List BlockError :=
  headErrors W b parent fastSync ++ bodyErrors W b coinbase ++
  tailSupplyErrors (calculateBlockReward b.height) ++
  coinbaseErrors b coinbase maxCoinbase (E.network.v1012RulesActive b.height) fastSync ++
  crossTxErrors E b

/-- `validate_block_ctx`. -/
def validateBlockCtx (W : Validator E) (b : Block) (parent : Option Block) (utxos : UtxoSet)
    (checkpointHeight : Option ℕ) (contextual : Bool) : List BlockError :=
  let skip := fastSync W b checkpointHeight
  if !W.magicOk b then [.networkMagic]
  else if !W.checkpointOk b then [.checkpoint]
  else if !W.shieldedRootPermitted b then headerErrors W b parent ++ [.sparkSetRoot]
  else match b.coinbase with
    | none => headErrors W b parent skip ++ [.missingCoinbase]
    | some coinbase =>
      match maxCoinbase E b with
      | none => headErrors W b parent skip ++ bodyErrors W b coinbase ++ [.coinbaseOverflow]
      | some maxCoinbase =>
        let errors := structuralErrors W b parent coinbase maxCoinbase skip
        if errors ≠ [] then errors
        else (if 0 < b.height ∧ !skip then feeErrors E b else []) ++
          txErrors W b utxos contextual skip

/-! ## What a valid block satisfies -/

section Specs

variable {W : Validator E} {b : Block} {parent : Option Block} {utxos : UtxoSet}
  {checkpoint : Option ℕ} {contextual : Bool}

/-- What is distinct across the transactions. -/
lemma crossTxErrors_eq_nil :
    crossTxErrors E b = [] ↔
      (b.transactions.map E.txHash).Nodup ∧
      (b.transactions.flatMap fun tx => tx.inputs.map (·.keyImage)).Nodup ∧
      (E.network.v1012RulesActive b.height →
        (b.transactions.flatMap fun tx => tx.outputs.map (·.stealthAddress)).Nodup) := by
  unfold crossTxErrors duplicateTxHashErrors duplicateKeyImageErrors duplicateStealthErrors
  rw [append_eq_nil_iff, append_eq_nil_iff, map_eq_nil_iff, map_eq_nil_iff,
    repeats_eq_nil, repeats_eq_nil, and_assoc]
  split
  · rename_i hactive
    simp [repeats_eq_nil, hactive]
  · rename_i hactive
    simp [hactive]

/-- Without an error the loop sums the values of the outputs. -/
lemma coinbaseOutputLoop_total (h : (coinbaseOutputLoop active i total outs).1 = []) :
    ((coinbaseOutputLoop active i total outs).2 : ℤ)
      = total + (outs.map (·.commitment.value)).sum := by
  induction outs generalizing i total with
  | nil => simp [coinbaseOutputLoop]
  | cons o rest ih =>
    rw [coinbaseOutputLoop] at h ⊢
    by_cases hlen : if active then o.encryptedAmount.length = 8 else 8 ≤ o.encryptedAmount.length
    · rw [if_pos hlen] at h ⊢
      cases hadd : checkedAdd 64 total (leU64 o.encryptedAmount) with
      | none => simp [hadd] at h
      | some next =>
        simp only [hadd, append_eq_nil_iff, expect_eq_nil] at h ⊢
        obtain ⟨⟨hcommit, -⟩, hrest⟩ := h
        have hnext := (checkedAdd_eq_some.mp hadd).2
        rw [ih hrest, map_cons, sum_cons, hcommit, Commitment.value_commit]
        omega
    · rw [if_neg hlen] at h
      simp at h

/-- Then the coinbase pays exactly the amount. -/
lemma coinbaseAmountErrors_eq_nil (h : coinbaseAmountErrors coinbase amount active = []) :
    (coinbase.outputs.map (·.commitment.value)).sum = amount := by
  unfold coinbaseAmountErrors at h
  simp only at h
  split at h
  · rename_i hloop
    have htotal := coinbaseOutputLoop_total hloop
    rw [expect_eq_nil] at h
    rw [h] at htotal
    simpa using htotal.symm
  · contradiction

/-- What a block without errors satisfies if nothing is skipped. -/
structure BlockValid (W : Validator E) (b : Block) (parent : Option Block) (utxos : UtxoSet)
    (contextual : Bool) (coinbase : Transaction) (rest : List Transaction) : Prop where
  transactions : b.transactions = coinbase :: rest
  first : coinbase.isCoinbase = true
  linked : ∀ p ∈ parent, b.height = p.height + 1 ∧ b.prevHash = E.blockHash p
  paid : 0 < b.height → ∃ amount, maxCoinbase E b = some amount ∧
    (coinbase.outputs.map (·.commitment.value)).sum = amount
  validated : ∀ tx ∈ rest, tx.isCoinbase = false ∧
    validateTransactionForNetworkCtx W.toCrypto tx utxos b.height E.network contextual = .ok ()
  txHashes : (b.transactions.map E.txHash).Nodup
  keyImages : (b.transactions.flatMap fun tx => tx.inputs.map (·.keyImage)).Nodup
  addresses : E.network.v1012RulesActive b.height →
    (b.transactions.flatMap fun tx => tx.outputs.map (·.stealthAddress)).Nodup

/-- The block follows its parent. -/
lemma headerErrors_eq_nil (h : headerErrors W b parent = []) :
    ∀ p ∈ parent, b.height = p.height + 1 ∧ b.prevHash = E.blockHash p := by
  rintro p rfl
  simp only [headerErrors, append_eq_nil_iff, expect_eq_nil] at h
  exact h.2

/-- Each transaction was validated. -/
lemma txErrors_eq_nil (h : txErrors W b utxos contextual false = [])
    (htx : tx ∈ b.transactions.drop 1) :
    tx.isCoinbase = false ∧
      validateTransactionForNetworkCtx W.toCrypto tx utxos b.height E.network contextual
        = .ok () := by
  have hrest : b.rest.map (·.1) = b.transactions.drop 1 := by
    rw [Block.rest, map_drop, zipIdx_map_fst]
  rw [← hrest, mem_map] at htx
  obtain ⟨⟨_, i⟩, hmem, rfl⟩ := htx
  have hnil := (flatMap_eq_nil_iff.mp h) _ hmem
  simp only [Bool.false_eq_true, if_false] at hnil ⊢
  split at hnil
  · simp at hnil
  · rename_i hcb
    refine ⟨by simpa using hcb, ?_⟩
    split at hnil
    · rename_i hok
      exact hok
    · simp at hnil

section

variable (h : validateBlockCtx W b parent utxos checkpoint contextual = [])
include h

/-- Nothing is collected before the fees, whatever is skipped. -/
lemma structuralErrors_of_valid :
    ∃ coinbase amount, b.coinbase = some coinbase ∧ maxCoinbase E b = some amount ∧
      structuralErrors W b parent coinbase amount (fastSync W b checkpoint) = [] ∧
      txErrors W b utxos contextual (fastSync W b checkpoint) = [] := by
  unfold validateBlockCtx at h
  simp only [ite_eq_iff, append_eq_nil_iff, reduceCtorEq, and_false, false_or] at h
  obtain ⟨-, -, -, h⟩ := h
  cases hcb : b.coinbase with
  | none => simp [hcb] at h
  | some coinbase =>
    cases hmax : maxCoinbase E b with
    | none => simp [hcb, hmax] at h
    | some amount =>
      simp only [hcb, hmax, ite_eq_iff] at h
      rcases h with ⟨hne, h⟩ | ⟨hstruct, h⟩
      · exact absurd h hne
      · exact ⟨coinbase, amount, rfl, rfl, not_not.mp hstruct, (append_eq_nil_iff.mp h).2⟩

lemma crossTxErrors_of_valid : crossTxErrors E b = [] := by
  obtain ⟨coinbase, amount, -, -, hnil, -⟩ := structuralErrors_of_valid h
  exact (append_eq_nil_iff.mp hnil).2

/-- The header of a valid block passes. -/
lemma headerErrors_of_valid : headerErrors W b parent = [] := by
  obtain ⟨coinbase, amount, -, -, hnil, -⟩ := structuralErrors_of_valid h
  unfold structuralErrors headErrors at hnil
  simp only [append_eq_nil_iff] at hnil
  exact hnil.1.1.1.1.1.1

lemma merkleRoot_of_valid : W.merkleRoot (b.transactions.map E.txHash) = b.header.txRoot := by
  obtain ⟨coinbase, amount, -, -, hnil, -⟩ := structuralErrors_of_valid h
  unfold structuralErrors bodyErrors at hnil
  simp only [append_eq_nil_iff, expect_eq_nil] at hnil
  exact hnil.1.1.1.2.1.2

end

/-- A block without errors is valid in that sense. -/
lemma validateBlockCtx_eq_nil (hskip : fastSync W b checkpoint = false)
    (h : validateBlockCtx W b parent utxos checkpoint contextual = []) :
    ∃ coinbase rest, BlockValid W b parent utxos contextual coinbase rest := by
  obtain ⟨coinbase, amount, hcb, hmax, hstruct, htx⟩ := structuralErrors_of_valid h
  rw [hskip] at hstruct htx
  obtain ⟨rest, htxs⟩ : ∃ rest, b.transactions = coinbase :: rest := head?_eq_some_iff.mp hcb
  unfold structuralErrors headErrors bodyErrors coinbaseErrors at hstruct
  simp only [append_eq_nil_iff, expect_eq_nil] at hstruct
  obtain ⟨⟨⟨⟨⟨⟨hheader, -⟩, -⟩, ⟨hfirst, -⟩, -⟩, -⟩, -, hamount⟩, hcross⟩ := hstruct
  obtain ⟨hhash, hki, haddr⟩ := crossTxErrors_eq_nil.mp hcross
  refine ⟨coinbase, rest, htxs, hfirst, headerErrors_eq_nil hheader, ?_, ?_, hhash, hki, haddr⟩
  · intro hpos
    rw [if_pos ⟨hpos, rfl⟩] at hamount
    exact ⟨amount, hmax, coinbaseAmountErrors_eq_nil hamount⟩
  · intro tx hmem
    exact txErrors_eq_nil htx (by rw [htxs]; exact hmem)

/-- A valid block spends no key image twice, and none that is spent. -/
lemma BlockValid.spentKeyImages (h : BlockValid W b parent utxos true coinbase rest) :
    (b.transactions.flatMap spentKeyImages).Nodup ∧
      ∀ ki ∈ b.transactions.flatMap spentKeyImages, ki ∉ utxos.keyImages := by
  have hcb : CoinCync.spentKeyImages coinbase = [] := by
    simp [CoinCync.spentKeyImages, h.first]
  have hrest : ∀ tx ∈ rest, CoinCync.spentKeyImages tx = tx.inputs.map (·.keyImage) := by
    intro tx htx
    simp [CoinCync.spentKeyImages, (h.validated tx htx).1]
  have hmap : b.transactions.flatMap CoinCync.spentKeyImages
      = rest.flatMap fun tx => tx.inputs.map (·.keyImage) := by
    rw [h.transactions, flatMap_cons, hcb, nil_append]
    exact flatMap_congr hrest
  rw [hmap]
  constructor
  · have hnd := h.keyImages
    rw [h.transactions, flatMap_cons] at hnd
    exact (nodup_append.mp hnd).2.1
  · intro ki hki
    obtain ⟨tx, htx, hki⟩ := mem_flatMap.mp hki
    obtain ⟨input, hin, rfl⟩ := mem_map.mp hki
    obtain ⟨hcb, hvalid⟩ := h.validated tx htx
    have hchecked := inputsChecked_of_validate hcb hvalid (ne_nil_of_mem hin)
    exact (checkTxNoDoubleSpend_eq_ok.mp hchecked.doubleSpend).2 input hin

/-- Only genesis validates without a parent. -/
lemma height_eq_zero_of_valid (h : validateBlockCtx W b none utxos checkpoint contextual = []) :
    b.height = 0 := by
  have hheader := headerErrors_of_valid h
  by_contra hpos
  simp [headerErrors, hpos] at hheader

end Specs

end CoinCync

import CoinCync.SparkGate
import Mathlib.Data.List.Sort

/-!
# The mempool

`mempool.rs`: admission with replacement by fee and eviction, removal, and the sweeps after a block.

`transactions` is a hash map, here the list of its rows; where the source searches it for a resident
with a key image there is at most one, so the order of the rows does not matter. `by_fee` is an
ordered map, here the ascending list of its keys. The audit log and the metrics are never read, and
are left out; the clock is an argument. An operation that can fail returns the mempool beside its
verdict.
-/

namespace CoinCync

open Check

/-- What the mempool calls besides the validator. -/
structure MempoolEnv (E : Env) extends Validator E where
  /-- `spark_connector::ffi::spend_ltags`. -/
  spendLtags : Bytes → Option (List Tag)
  /-- `range_proof.is_empty()`. -/
  rangeProofEmpty : Bytes → Bool

/-- Why a transaction does not enter the mempool. -/
inductive MempoolError
  | coinbase
  | tx (e : TxError)
  | privacy (e : BlockError)
  | undecodablePayload
  | neitherMintNorSpend
  | noInputs
  | noOutputs
  | tooLarge (size : ℕ)
  | tooSmall (size : ℕ)
  | feeTooLow (fee least : ℕ)
  | ringTooSmall (size : ℕ)
  | missingRangeProof
  | duplicateKeyImageInTx
  | invalidInputCount (count : ℕ)
  | invalidOutputCount (count : ℕ)
  | outputTooSmall
  | encryptedAmountTooLarge (length : ℕ)
  | encryptedMemoTooLarge (length : ℕ)
  | zeroKeyImage (input : ℕ)
  | keyImageNotPoint (input : ℕ)
  | shieldedRangeProof
  | shieldedRingSignature (input : ℕ)
  | rangeProof
  | balanceProof
  | ringSignature (input : ℕ)
  | unparseableTags
  | duplicateKeyImage
  | duplicateLinkingTag
  | mempoolFull
deriving DecidableEq

variable {E : Env}

/-- `key_images`. -/
def Transaction.keyImages (tx : Transaction) : List KeyImage := tx.inputs.map (·.keyImage)

/-! ## Checks without the chain -/

/-- `MAX_TX_SIZE`. -/
def maxTxSize : ℕ := 500000

/-- `MIN_TX_SIZE`. -/
def minTxSize : ℕ := 100

/-- The least ring size. -/
def bootstrapMinRingSize : ℕ := 11

/-- The payload checks of `validate_transaction_basic`. -/
def checkPayloadBasic (tx : Transaction) : Except MempoolError Unit :=
  match tx.sparkPayload with
  | none => .error .undecodablePayload
  | some p => do
    require (p.spend.isSome ∨ p.mint.isSome ∨ p.outputs ≠ []) .neitherMintNorSpend
    (checkUnshieldOutputsRevealed tx).mapError .tx

/-- Rings and range proof, which all but a coinbase must carry. -/
def checkMandatoryPrivacy (K : MempoolEnv E) (tx : Transaction) : Except MempoolError Unit := do
  all tx.inputs fun input => require (bootstrapMinRingSize ≤ input.ringMembers.length)
    (.ringTooSmall input.ringMembers.length)
  require (¬ (K.rangeProofEmpty tx.rangeProof ∧
    (!tx.isShielded ∨ (tx.inputs ≠ [] ∧ tx.outputs ≠ [])))) .missingRangeProof

/-- The sizes of amount and memo. -/
def checkOutputFields (tx : Transaction) : Except MempoolError Unit :=
  all tx.outputs fun o => do
    require (o.encryptedAmount ≠ []) .outputTooSmall
    require (o.encryptedAmount.length ≤ 64) (.encryptedAmountTooLarge o.encryptedAmount.length)
    require (o.encryptedMemo.length ≤ 256) (.encryptedMemoTooLarge o.encryptedMemo.length)

/-- Key images are points other than zero. -/
def checkKeyImagePoints (C : Crypto) (tx : Transaction) : Except MempoolError Unit :=
  forIdx tx.inputs fun i input => do
    require (input.keyImage ≠ 0) (.zeroKeyImage i)
    require (C.isPoint input.keyImage) (.keyImageNotPoint i)

/-- `validate_transaction_basic`. -/
def validateTransactionBasic (K : MempoolEnv E) (tx : Transaction) : Except MempoolError Unit := do
  (checkTxVersionRange tx).mapError .tx
  when tx.isShielded (checkPayloadBasic tx)
  require (tx.inputs ≠ [] ∨ tx.isShielded) .noInputs
  require (tx.outputs ≠ [] ∨ tx.isShielded) .noOutputs
  require (E.txSize tx ≤ maxTxSize) (.tooLarge (E.txSize tx))
  require (minTxSize ≤ E.txSize tx) (.tooSmall (E.txSize tx))
  require (E.txSize tx * minFeePerByte ≤ tx.fee ∨ tx.isCoinbase)
    (.feeTooLow tx.fee (E.txSize tx * minFeePerByte))
  when (!tx.isCoinbase) (checkMandatoryPrivacy K tx)
  require tx.keyImages.Nodup .duplicateKeyImageInTx
  require (tx.inputs.length ≤ maxTxInputs) (.invalidInputCount tx.inputs.length)
  require (tx.outputs.length ≤ maxTxOutputs) (.invalidOutputCount tx.outputs.length)
  checkOutputFields tx
  (checkOutputCurvePoints K.toCrypto tx).mapError .tx
  when (!tx.isCoinbase) (checkKeyImagePoints K.toCrypto tx)

/-- `check_tx_privacy`; nothing is asked of a shielded transaction. -/
def checkPrivacyPolicy (K : MempoolEnv E) (tx : Transaction) : Except MempoolError Unit :=
  when (!tx.isShielded) ((checkTxPrivacy K.toCrypto tx).mapError .privacy)

/-- `preflight_check`. -/
def preflightCheck (K : MempoolEnv E) (tx : Transaction) : Except MempoolError Unit := do
  require (!tx.isCoinbase) .coinbase
  validateTransactionBasic K tx
  checkPrivacyPolicy K tx

/-- `verify_crypto_for_admission`. Shielded proofs are left to the block gate, but for the range
proof of a shield-in with change. -/
def verifyCryptoForAdmission (K : MempoolEnv E) (tx : Transaction) : Except MempoolError Unit :=
  if tx.isCoinbase then .ok ()
  else if tx.isShielded then do
    require (tx.inputs ≠ [] ∧ tx.outputs ≠ [] → verifyOutputRangeProofs K.toCrypto tx)
      .shieldedRangeProof
    forIdx tx.inputs fun i input =>
      require (verifyRingSignature K.toCrypto tx input) (.shieldedRingSignature i)
  else do
    require (verifyOutputRangeProofs K.toCrypto tx) .rangeProof
    require (verifyBalanceProof tx) .balanceProof
    forIdx tx.inputs fun i input =>
      require (verifyRingSignature K.toCrypto tx input) (.ringSignature i)

/-- `shielded_linking_tags`. -/
def shieldedLinkingTags (K : MempoolEnv E) (tx : Transaction) : Except MempoolError (List Tag) :=
  if tx.isShielded then
    match tx.sparkPayload with
    | none => .error .undecodablePayload
    | some p =>
      match p.spend with
      | none => .ok []
      | some sb =>
        match K.spendLtags sb.bundle with
        | none => .error .unparseableTags
        | some tags => .ok tags
  else .ok []

/-- The tags of a resident, readable since its admission. -/
def linkingTagsOf (K : MempoolEnv E) (tx : Transaction) : List Tag :=
  (shieldedLinkingTags K tx).toOption.getD []

/-! ## Asking the chain -/

namespace Node

/-- `Blockchain::validate_transaction`: as part of the next block. -/
def validateTransaction (W : Validator E) (n : Node) (tx : Transaction) : Except TxError Unit :=
  CoinCync.validateTransaction W.toCrypto tx n.utxos (n.tip.height + 1) E.network

/-- `shielded_unminable`: the gate refuses it; inert without a pool. -/
def shieldedUnminable (W : Validator E) (n : Node) (tx : Transaction) : Bool :=
  tx.isShielded && n.sparkPool.any fun p =>
    !verifyBlockSparkV2AtHeight E W.toCrypto p.toPoolContents [tx] n.tip.height

end Node

/-! ## State -/

/-- A resident. -/
structure MempoolEntry where
  tx : Transaction
  fee : ℕ
  /-- Millionths of the smallest unit per byte, at most `u64::MAX`. -/
  feePerByte : ℕ
  size : ℕ
  addedTime : ℕ
  heightAdded : ℕ
deriving DecidableEq

/-- The fee rate of an entry. -/
def scaledFeePerByte (fee size : ℕ) : ℕ := min (fee * 1000000 / max size 1) (2 ^ 64 - 1)

/-- `MempoolEntry::new`. -/
def MempoolEntry.new (E : Env) (tx : Transaction) (height time : ℕ) : MempoolEntry where
  tx := tx
  fee := tx.fee
  feePerByte := scaledFeePerByte tx.fee (E.txSize tx)
  size := max (E.txSize tx) 1
  addedTime := time
  heightAdded := height

/-- The residents and four summaries of them. -/
structure Mempool where
  transactions : List (Hash × MempoolEntry)
  byFee : List (ℕ × Hash)
  keyImages : Finset KeyImage
  linkingTags : Finset Tag
  maxSize : ℕ
  currentSize : ℕ
  chainHeight : ℕ
deriving DecidableEq

/-- The order of the keys of `by_fee`. -/
def feeLe (a b : ℕ × Hash) : Prop := a.1 < b.1 ∨ (a.1 = b.1 ∧ a.2 ≤ b.2)

instance : DecidableRel feeLe := fun a b =>
  inferInstanceAs (Decidable (a.1 < b.1 ∨ (a.1 = b.1 ∧ a.2 ≤ b.2)))

/-- A list of hashes in the order they were first met. -/
def pushNew (found : List Hash) (h : Hash) : List Hash := if h ∈ found then found else found ++ [h]

namespace Mempool

/-- `with_max_size`. -/
def withMaxSize (maxSize : ℕ) : Mempool where
  transactions := []
  byFee := []
  keyImages := ∅
  linkingTags := ∅
  maxSize := maxSize
  currentSize := 0
  chainHeight := 0

variable (K : MempoolEnv E) (m : Mempool)

/-- `get`. -/
def get (h : Hash) : Option MempoolEntry := m.transactions.lookup h

/-- `contains`. -/
def contains (h : Hash) : Bool := (m.get h).isSome

/-- The resident that has a key image. -/
def holder (ki : KeyImage) : Option (Hash × MempoolEntry) :=
  m.transactions.find? fun r => ki ∈ r.2.tx.keyImages

/-! ## Removal -/

/-- `remove`. -/
def remove (h : Hash) : Mempool :=
  match m.get h with
  | none => m
  | some e =>
    { m with
      transactions := m.transactions.filter (·.1 ≠ h)
      byFee := m.byFee.filter (· ≠ (e.feePerByte, h))
      keyImages := m.keyImages \ e.tx.keyImages.toFinset
      linkingTags := m.linkingTags \ (linkingTagsOf K e.tx).toFinset
      currentSize := m.currentSize - e.size }

/-- Removing one after the other. -/
def removeAll (hashes : List Hash) : Mempool := hashes.foldl (remove K) m

/-- The hashes of the residents that satisfy a condition. -/
def hashesOf (p : MempoolEntry → Bool) : List Hash :=
  (m.transactions.filter fun r => p r.2).map (·.1)

/-- `TX_EXPIRY_BLOCKS`. -/
def txExpiryBlocks : ℕ := 288

/-- `expire_old_transactions`. -/
def expireOldTransactions (currentHeight : ℕ) : Mempool :=
  m.removeAll K (m.hashesOf fun e => txExpiryBlocks < currentHeight - e.heightAdded)

/-- `set_height`. -/
def setHeight (height : ℕ) : Mempool :=
  expireOldTransactions K { m with chainHeight := height } height

/-- `expire_old`. -/
def expireOld (maxAgeSecs now : ℕ) : Mempool :=
  m.removeAll K (m.hashesOf fun e => maxAgeSecs < now - e.addedTime)

/-- `remove_conflicts`. -/
def removeConflicts (keyImages : List KeyImage) : Mempool :=
  m.removeAll K (m.hashesOf fun e => ∃ ki ∈ e.tx.keyImages, ki ∈ keyImages)

/-- `clear`. -/
def clear : Mempool :=
  { m with transactions := [], byFee := [], keyImages := ∅, linkingTags := ∅, currentSize := 0 }

/-- One key image of the second pass of `remove_confirmed`. -/
def noteHolder (found : List Hash) (ki : KeyImage) : List Hash :=
  match m.holder ki with
  | none => found
  | some (h, _) => pushNew found h

/-- What the second pass of `remove_confirmed` collects. -/
def conflictingHashes (txs : List Transaction) : List Hash :=
  (txs.flatMap Transaction.keyImages).foldl m.noteHolder []

/-- `remove_confirmed`: the mined leave, then whoever shares a key image. -/
def removeConfirmed (txs : List Transaction) : Mempool :=
  let rest := m.removeAll K (txs.map E.txHash)
  rest.removeAll K (rest.conflictingHashes txs)

/-- `shadow_evict_invalid`. -/
def shadowEvictInvalid (n : Node) : Mempool :=
  m.removeAll K (m.hashesOf fun e =>
    !(n.validateTransaction K.toValidator e.tx).toBool || n.shieldedUnminable K.toValidator e.tx)

/-! ## Admission -/

/-- How full the pool is. -/
def fullnessPct : ℕ := if 0 < m.maxSize then m.currentSize * 100 / m.maxSize else 0

/-- `fee_multiplier`. -/
def feeMultiplier (fullnessPct : ℕ) : ℕ :=
  if fullnessPct ≤ 24 then 1
  else if fullnessPct ≤ 49 then 2
  else if fullnessPct ≤ 74 then 4
  else 8

/-- The least fee at the present fullness. -/
def minFee (size : ℕ) : ℕ := size * minFeePerByte * feeMultiplier m.fullnessPct

/-- A fee rate may replace another: at least 125 percent of it, and more. -/
def Bumps (newRate oldRate : ℕ) : Prop := oldRate * 125 ≤ newRate * 100 ∧ oldRate < newRate

instance (newRate oldRate : ℕ) : Decidable (Bumps newRate oldRate) :=
  inferInstanceAs (Decidable (_ ∧ _))

/-- Whoever has the key image must make way, or the transaction fails. -/
def replaceHolder (newRate : ℕ) (found : List Hash) (ki : KeyImage) :
    Except MempoolError (List Hash) :=
  if ki ∈ m.keyImages then
    match m.holder ki with
    | some (h, e) =>
      if Bumps newRate e.feePerByte then .ok (pushNew found h) else .error .duplicateKeyImage
    | none => .error .duplicateKeyImage
  else .ok found

/-- The residents that make way for a new transaction. -/
def toReplace (newRate : ℕ) (images : List KeyImage) : Except MempoolError (List Hash) :=
  images.foldlM (m.replaceHolder newRate) []

/-- The tags that leave with the replaced residents. -/
def replacedTags (replaced : List Hash) : List Tag :=
  (replaced.filterMap m.get).flatMap fun e => linkingTagsOf K e.tx

/-- `MAX_EVICTION_ATTEMPTS`. -/
def maxEvictionAttempts : ℕ := 100

/-- The eviction plan, cheapest resident first. -/
def simulateEviction (size newRate : ℕ) (replaced : List Hash) :
    List (ℕ × Hash) → ℕ → ℕ → ℕ
  | [], simulated, _ => simulated
  | (rate, h) :: rest, simulated, attempts =>
    if simulated + size ≤ m.maxSize ∨ maxEvictionAttempts ≤ attempts then simulated
    else if h ∈ replaced then simulateEviction size newRate replaced rest simulated attempts
    else if newRate ≤ rate then simulated
    else match m.get h with
      | some e => simulateEviction size newRate replaced rest (simulated - e.size) (attempts + 1)
      | none => simulateEviction size newRate replaced rest simulated attempts

/-- The transaction fits once the plan is carried out. -/
def Fits (size newRate : ℕ) (replaced : List Hash) : Prop :=
  let freed := ((replaced.filterMap m.get).map (·.size)).sum
  m.simulateEviction size newRate replaced m.byFee (m.currentSize - freed) 0 + size ≤ m.maxSize

instance (size newRate : ℕ) (replaced : List Hash) : Decidable (m.Fits size newRate replaced) :=
  inferInstanceAs (Decidable (_ ≤ _))

/-- What `admit_after_checks` decides first: whom to replace. -/
def admissible (tx : Transaction) : Except MempoolError (List Hash) := do
  require (E.txSize tx ≤ maxTxSize) (.tooLarge (E.txSize tx))
  let tags ← shieldedLinkingTags K tx
  require (m.minFee (E.txSize tx) ≤ tx.fee) (.feeTooLow tx.fee (m.minFee (E.txSize tx)))
  let newRate := scaledFeePerByte tx.fee (E.txSize tx)
  let replaced ← m.toReplace newRate tx.keyImages
  all tags fun t => require (t ∉ m.linkingTags ∨ t ∈ m.replacedTags K replaced) .duplicateLinkingTag
  require (m.Fits (E.txSize tx) newRate replaced) .mempoolFull
  .ok replaced

/-- `evict_lowest_fee`. -/
def evictLowestFee : Mempool :=
  match m.byFee with
  | [] => m
  | (_, h) :: _ => m.remove K h

/-- The eviction loop; it gives up when nothing is freed, or at the end. -/
def evictToFit (size : ℕ) : ℕ → Mempool → Mempool × Except MempoolError Unit
  | 0, m =>
    if m.maxSize < m.currentSize + size ∧ m.transactions ≠ [] then (m, .error .mempoolFull)
    else (m, .ok ())
  | left + 1, m =>
    if m.maxSize < m.currentSize + size ∧ m.transactions ≠ [] then
      let next := m.evictLowestFee K
      if m.currentSize ≤ next.currentSize ∨ (next.maxSize < next.currentSize + size ∧ left = 0) then
        (next, .error .mempoolFull)
      else evictToFit size left next
    else (m, .ok ())

/-- The insertion at the end of `admit_after_checks`. -/
def insert (tx : Transaction) (now : ℕ) : Mempool :=
  let h := E.txHash tx
  let e := MempoolEntry.new E tx m.chainHeight now
  let key := (e.feePerByte, h)
  { m with
    transactions := (h, e) :: m.transactions.filter (·.1 ≠ h)
    byFee := if key ∈ m.byFee then m.byFee else m.byFee.orderedInsert feeLe key
    keyImages := m.keyImages ∪ tx.keyImages.toFinset
    linkingTags := m.linkingTags ∪ (linkingTagsOf K tx).toFinset
    currentSize := m.currentSize + e.size }

/-- `admit_after_checks`. -/
def admitAfterChecks (tx : Transaction) (now : ℕ) : Mempool × Except MempoolError Hash :=
  match m.admissible K tx with
  | .error e => (m, .error e)
  | .ok replaced =>
    match evictToFit K (E.txSize tx) maxEvictionAttempts (m.removeAll K replaced) with
    | (room, .error e) => (room, .error e)
    | (room, .ok _) => (room.insert K tx now, .ok (E.txHash tx))

/-- `add`. -/
def add (tx : Transaction) (now : ℕ) : Mempool × Except MempoolError Hash :=
  match preflightCheck K tx with
  | .error e => (m, .error e)
  | .ok _ =>
    if m.contains (E.txHash tx) then (m, .ok (E.txHash tx))
    else match verifyCryptoForAdmission K tx with
      | .error e => (m, .error e)
      | .ok _ => m.admitAfterChecks K tx now

/-- `add_with_chain` without an update in between. -/
def addWithChain (n : Node) (tx : Transaction) (now : ℕ) : Mempool × Except MempoolError Hash :=
  match preflightCheck K tx with
  | .error e => (m, .error e)
  | .ok _ =>
    match n.validateTransaction K.toValidator tx with
    | .error e => (m, .error (.tx e))
    | .ok _ => m.add K tx now

/-- `restore_orphaned`. -/
def restoreOrphaned (n : Node) (txs : List Transaction) (now : ℕ) : Mempool :=
  txs.foldl (fun m tx => (m.addWithChain K n tx now).1) m

/-! ## Selection for a block -/

/-- The accumulators of `get_block_transactions`. -/
structure Selection where
  result : List Transaction := []
  totalSize : ℕ := 0
  keyImages : List KeyImage := []
  linkingTags : List Tag := []

/-- A candidate is taken if it fits and shares no key image or tag. -/
def selectOne (maxSize : ℕ) (s : Selection) (h : Hash) : Selection :=
  match m.get h with
  | none => s
  | some e =>
    if s.totalSize + e.size ≤ maxSize then
      if (∃ ki ∈ e.tx.keyImages, ki ∈ s.keyImages) ∨
          (∃ t ∈ linkingTagsOf K e.tx, t ∈ s.linkingTags) then s
      else
        { result := s.result ++ [e.tx]
          totalSize := s.totalSize + e.size
          keyImages := e.tx.keyImages ++ s.keyImages
          linkingTags := linkingTagsOf K e.tx ++ s.linkingTags }
    else s

/-- The loop over the fee index, up to `maxCount` transactions. -/
def selectLoop (maxSize maxCount : ℕ) : List (ℕ × Hash) → Selection → Selection
  | [], s => s
  | (_, h) :: rest, s =>
    if maxCount ≤ s.result.length then s
    else selectLoop maxSize maxCount rest (m.selectOne K maxSize s h)

/-- `get_block_transactions`: highest fee rate first. -/
def getBlockTransactions (maxSize maxCount : ℕ) : List Transaction :=
  (m.selectLoop K maxSize maxCount m.byFee.reverse {}).result

end Mempool

/-! ## Runs -/

/-- The calls that change a mempool, with what they read from outside. -/
inductive MempoolOp
  | add (tx : Transaction) (now : ℕ)
  | addWithChain (n : Node) (tx : Transaction) (now : ℕ)
  | remove (h : Hash)
  | removeConfirmed (txs : List Transaction)
  | removeConflicts (keyImages : List KeyImage)
  | setHeight (height : ℕ)
  | expireOld (maxAgeSecs now : ℕ)
  | shadowEvictInvalid (n : Node)
  | clear

/-- One call. None of them stops the node. -/
def Mempool.step (K : MempoolEnv E) (m : Mempool) : MempoolOp → Option Mempool
  | .add tx now => some (m.add K tx now).1
  | .addWithChain n tx now => some (m.addWithChain K n tx now).1
  | .remove h => some (m.remove K h)
  | .removeConfirmed txs => some (m.removeConfirmed K txs)
  | .removeConflicts images => some (m.removeConflicts K images)
  | .setHeight height => some (m.setHeight K height)
  | .expireOld maxAge now => some (m.expireOld K maxAge now)
  | .shadowEvictInvalid n => some (m.shadowEvictInvalid K n)
  | .clear => some m.clear

end CoinCync

import CoinCync.Lib.Check
import CoinCync.Utxos
import Mathlib.Data.Finset.Card
import Mathlib.Data.Finset.Union

/-!
# Validating a transaction

`validate_transaction_for_network_ctx` of `consensus/validation.rs` with its sub-checks, in the build
that carries the shielded verifier (`sketch-gk-proof` and `libspark-ffi`). Each sub-check stops at
its first error. Signatures, range proofs and libspark proofs are parameters (`Crypto`). A commitment
is given by its opening, so it always is a curve point; `0` is the identity, for commitments and for
keys. The verification caches only remember verdicts and are left out.
-/

namespace CoinCync

open Check

/-! ## Height-keyed rules -/

namespace NetworkType

/-- `v1_0_12_rules_active`. -/
def v1012RulesActive (net : NetworkType) (height : ℕ) : Bool :=
  match net with
  | .mainnet | .regtest => true
  | .testnet | .beta => 13000 ≤ height

/-- `shielded_activation_height`. -/
def shieldedActivationHeight : NetworkType → ℕ
  | .mainnet => 2 ^ 64 - 1
  | .testnet => 29000
  | .regtest => 100
  | .beta => 5

/-- `shielded_tx_active_at_height`. -/
def shieldedTxActiveAtHeight (net : NetworkType) (height : ℕ) : Bool :=
  net.shieldedActivationHeight ≤ height

/-- Networks with the bridge from the start. -/
def regtestBridgeEnabled : NetworkType → Bool
  | .regtest | .beta => true
  | .mainnet | .testnet => false

/-- Whether the bridge is open. -/
def shieldBridgeEnabled (net : NetworkType) (height : ℕ) : Bool :=
  net.regtestBridgeEnabled || (net = .testnet && net.shieldedTxActiveAtHeight height)

/-- Where the age of a coinbase is raised. -/
def minOutputAgeHardforkHeight : NetworkType → ℕ
  | .mainnet => 0
  | .testnet | .regtest | .beta => 2 ^ 64 - 1

/-- The age a coinbase must have. -/
def minOutputAge (net : NetworkType) (height : ℕ) : ℕ :=
  if height < net.minOutputAgeHardforkHeight then 10 else 100

end NetworkType

/-- `ring_size_at_height`. -/
def ringSizeAtHeight (height : ℕ) : ℕ := if height < 10000 then 11 else 16

/-- `effective_ring_size`. -/
def effectiveRingSize (height availableOutputs : ℕ) : ℕ :=
  let target := ringSizeAtHeight height
  if target ≤ availableOutputs then target
  else if 10000 ≤ height then target
  else min (max availableOutputs 2) target

/-! ## What the validator calls -/

/-- The third-party verifiers of a transaction. -/
structure Crypto where
  /-- `PublicPoint::from_bytes(..).is_some()`. -/
  isPoint : PublicKey → Bool
  /-- `Transaction::signing_hash`. -/
  signingHash : Transaction → Hash
  /-- `clsag_verify message ring pseudo_output signature`. -/
  clsagVerify : Hash → List RingMemberRef → Commitment → ClsagSignature → Bool
  /-- Parsing of the aggregated range proof and `verify_range_proofs_dispatch`; the proof format
  that depends on the height has been active since height zero. -/
  verifyRangeProofs : Bytes → List Commitment → Bool
  /-- `shielded_connector::verify_bundle`, the libspark verdict on a version 1 bundle. -/
  verifyBundle : Bytes → Bool
  /-- `verify_spend_batch` over a cover set, with bundle, fee and value balance of every spend: the
  linking tags of each. -/
  verifySpendBatch : List Bytes → List (Bytes × ℕ × ℤ) → Option (List (List Tag))

/-- `u64::from_le_bytes` of the first eight bytes. -/
def leU64 (bytes : List ℕ) : ℕ := (bytes.take 8).foldr (fun b acc => b % 256 + 256 * acc) 0

namespace UtxoCore

/-- `get_output_by_stealth`. -/
def getOutputByStealth (u : UtxoCore) (x : PublicKey) : Option OutputRef :=
  (u.stealthIndex x).bind u.outputs

/-- The keys of the outputs made up to a height. -/
def keysThrough (u : UtxoCore) (height : ℕ) : Finset OutputKey :=
  (Finset.range (height + 1)).biUnion u.heightIndex

end UtxoCore

namespace UtxoSet

/-- `get_output_index_entry`: memory, then disk; a bad row reads as none. -/
def getOutputIndexEntry (u : UtxoSet) (x : PublicKey) : Option OutputIndexEntry :=
  (u.outputIndex x).or ((u.db x).filter (·.validate))

/-- `output_count` of a set made up to `height`. -/
def outputCount (u : UtxoSet) (height : ℕ) : ℕ := (u.keysThrough height).card

end UtxoSet

/-- Why a transaction is refused. -/
inductive TxError
  | invalidTxVersion (version : ℕ)
  | shieldedNotActive
  | notPureShielded
  | valueBalanceGated
  | valueBalanceV1
  | undecodablePayload
  | bundleRejected
  | v2NotActive (height : ℕ)
  | stealthZero
  | stealthNotPoint
  | txPublicKeyZero
  | txPublicKeyNotPoint
  | commitmentZero
  | invalidInputCount (count : ℕ)
  | invalidOutputCount (count : ℕ)
  | encryptedAmountLength (output length : ℕ)
  | encryptedMemoLength (output length : ℕ)
  | inputOutputRatio
  | outputInputRatio
  | uniformInputs (count : ℕ)
  | uniformOutputs (count : ℕ)
  | churnOutputs (count : ℕ)
  | duplicateKeyImage
  | duplicateStealth (output : ℕ)
  | stealthCollides (output : ℕ)
  | ringCommitmentMismatch (input member : ℕ)
  | spentCommitmentMismatch (input member : ℕ)
  | ringMemberImmature (input member height : ℕ)
  | ringMemberLocked (input member lockHeight : ℕ)
  | ringMemberUnknown (input member : ℕ)
  | invalidRingSize (expected got : ℕ)
  | duplicateRingMember (input : ℕ)
  | ringSignature (input : ℕ)
  | rangeProofInvalid
  | commitmentMismatch
  | revealedAmountLength (output length : ℕ)
  | revealedCommitment (output : ℕ)
deriving DecidableEq

/-! ## Shape checks -/

/-- `check_tx_version_range`. -/
def checkTxVersionRange (tx : Transaction) : Except TxError Unit :=
  require (tx.version ≠ 0 ∧ tx.version ≤ 2) (.invalidTxVersion tx.version)

/-- `check_tx_v2_activation`. -/
def checkTxV2Activation (tx : Transaction) (currentHeight : ℕ) : Except TxError Unit :=
  require (¬ (2 ≤ tx.version ∧ currentHeight < 50000)) (.v2NotActive currentHeight)

/-- Every output has points other than the identity. -/
def checkOutputCurvePoints (C : Crypto) (tx : Transaction) : Except TxError Unit :=
  all tx.outputs fun o => do
    require (o.stealthAddress ≠ 0) .stealthZero
    require (C.isPoint o.stealthAddress) .stealthNotPoint
    require (o.txPublicKey ≠ 0) .txPublicKeyZero
    require (C.isPoint o.txPublicKey) .txPublicKeyNotPoint
    require (o.commitment ≠ 0) .commitmentZero

/-- `MAX_TX_INPUTS`. -/
def maxTxInputs : ℕ := 256

/-- `MAX_TX_OUTPUTS`. -/
def maxTxOutputs : ℕ := 16

/-- `MAX_OUTPUT_MEMO_SIZE`. -/
def maxOutputMemoSize : ℕ := 256

/-- `check_tx_input_output_counts`. -/
def checkTxInputOutputCounts (tx : Transaction) (v1012Active : Bool) : Except TxError Unit := do
  require (tx.inputs ≠ []) (.invalidInputCount 0)
  require (tx.outputs ≠ []) (.invalidOutputCount 0)
  when v1012Active <| forIdx tx.outputs fun i o => do
    require (o.encryptedAmount.length = 8) (.encryptedAmountLength i o.encryptedAmount.length)
    require (o.encryptedMemo.length ≤ maxOutputMemoSize)
      (.encryptedMemoLength i o.encryptedMemo.length)
  require (tx.inputs.length ≤ maxTxInputs) (.invalidInputCount tx.inputs.length)
  require (tx.outputs.length ≤ maxTxOutputs) (.invalidOutputCount tx.outputs.length)

/-- `check_tx_io_ratio_legacy`. -/
def checkTxIoRatioLegacy (tx : Transaction) : Except TxError Unit := do
  require (tx.inputs.length ≤ tx.outputs.length * 32) .inputOutputRatio
  require (tx.outputs.length ≤ tx.inputs.length * 32) .outputInputRatio

/-- Two inputs and two outputs, for an asset transfer three. -/
def checkTxUniformShape (tx : Transaction) : Except TxError Unit :=
  when (tx.txType = .transfer ∨ tx.txType = .churn) do
    require (tx.inputs.length = 2) (.uniformInputs tx.inputs.length)
    require (tx.outputs.length = 2 ∨ tx.outputs.length = 3) (.uniformOutputs tx.outputs.length)
    require (tx.txType = .churn → tx.outputs.length = 2) (.churnOutputs tx.outputs.length)

/-! ## Checks against the UTXO set -/

/-- No key image is repeated, or spent on the chain. -/
def checkTxNoDoubleSpend (tx : Transaction) (utxos : UtxoSet) : Except TxError Unit :=
  forIdx tx.inputs fun i input => do
    require (input.keyImage ∉ (tx.inputs.take i).map (·.keyImage)) .duplicateKeyImage
    require (input.keyImage ∉ utxos.keyImages) .duplicateKeyImage

/-- `check_ring_member_coinbase_maturity`. -/
def checkRingMemberCoinbaseMaturity (net : NetworkType) (isCoinbase : Bool)
    (outputHeight currentHeight input member : ℕ) : Except TxError Unit :=
  require (isCoinbase → net.minOutputAge currentHeight ≤ currentHeight - outputHeight)
    (.ringMemberImmature input member outputHeight)

/-- `check_ring_member_time_lock`. -/
def checkRingMemberTimeLock (lockHeight : Option ℕ) (currentHeight input member : ℕ) :
    Except TxError Unit :=
  require (lockHeight.getD 0 ≤ currentHeight) (.ringMemberLocked input member (lockHeight.getD 0))

/-- An output of the set or a row of the index has the commitment. -/
def checkRingMember (net : NetworkType) (utxos : UtxoSet) (currentHeight input member : ℕ)
    (m : RingMemberRef) : Except TxError Unit :=
  match utxos.getOutputByStealth m.publicKey with
  | some r => do
    require (m.commitment = r.output.commitment) (.ringCommitmentMismatch input member)
    checkRingMemberCoinbaseMaturity net r.isCoinbase r.height currentHeight input member
    checkRingMemberTimeLock r.output.lockHeight currentHeight input member
  | none =>
    match utxos.getOutputIndexEntry m.publicKey with
    | some e => do
      require (m.commitment = e.commitment) (.spentCommitmentMismatch input member)
      checkRingMemberCoinbaseMaturity net e.isCoinbase e.height currentHeight input member
      checkRingMemberTimeLock e.lockHeight currentHeight input member
    | none => .error (.ringMemberUnknown input member)

/-- New addresses are distinct and unknown (from 1.0.12), ring members exist. -/
def checkTxRingMembers (net : NetworkType) (tx : Transaction) (utxos : UtxoSet)
    (currentHeight : ℕ) (v1012Active : Bool) : Except TxError Unit := do
  when v1012Active <| forIdx tx.outputs fun i o => do
    require (o.stealthAddress ∉ (tx.outputs.take i).map (·.stealthAddress)) (.duplicateStealth i)
    require ((utxos.getOutputIndexEntry o.stealthAddress).isNone) (.stealthCollides i)
  forIdx tx.inputs fun i input =>
    forIdx input.ringMembers fun j m => checkRingMember net utxos currentHeight i j m

/-- The outputs a ring may be drawn from. -/
def availableOutputs (utxos : UtxoSet) (currentHeight : ℕ) (v1012Active : Bool) : ℕ :=
  if v1012Active then utxos.totalOutputsEver - utxos.reorgDisconnectsTotal
  else utxos.outputCount currentHeight

/-- `check_tx_ring_size_and_unique_members`. -/
def checkTxRingSizeAndUniqueMembers (tx : Transaction) (utxos : UtxoSet) (currentHeight : ℕ)
    (v1012Active : Bool) : Except TxError Unit :=
  let ringSize := effectiveRingSize currentHeight (availableOutputs utxos currentHeight v1012Active)
  forIdx tx.inputs fun i input => do
    require (input.ringMembers.length = ringSize)
      (.invalidRingSize ringSize input.ringMembers.length)
    require (input.ringMembers.map (·.publicKey)).Nodup (.duplicateRingMember i)

/-! ## Signatures and proofs -/

/-- `MAX_RING_SIZE`. -/
def maxRingSize : ℕ := 32

/-- `check_tx_ring_size_cap`. -/
def checkTxRingSizeCap (tx : Transaction) : Except TxError Unit :=
  all tx.inputs fun input => require (input.ringMembers.length ≤ maxRingSize)
    (.invalidRingSize maxRingSize input.ringMembers.length)

/-- `verify_ring_signature`, about the input's own key image. -/
def verifyRingSignature (C : Crypto) (tx : Transaction) (input : TxInput) : Bool :=
  input.signature.keyImage = input.keyImage ∧
    (∀ m ∈ input.ringMembers, C.isPoint m.publicKey) ∧
    C.clsagVerify (C.signingHash tx) input.ringMembers input.pseudoOutputCommitment input.signature

/-- `check_tx_ring_signatures`. -/
def checkTxRingSignatures (C : Crypto) (tx : Transaction) : Except TxError Unit :=
  forIdx tx.inputs fun i input => require (verifyRingSignature C tx input) (.ringSignature i)

/-- `verify_output_range_proofs`. -/
def verifyOutputRangeProofs (C : Crypto) (tx : Transaction) : Bool :=
  tx.isCoinbase || C.verifyRangeProofs tx.rangeProof (tx.outputs.map (·.commitment))

/-- `check_tx_range_proofs`. -/
def checkTxRangeProofs (C : Crypto) (tx : Transaction) : Except TxError Unit :=
  require (verifyOutputRangeProofs C tx) .rangeProofInvalid

/-- `verify_balance_proof`: pseudo-outputs are outputs and fee. -/
def verifyBalanceProof (tx : Transaction) : Bool :=
  tx.isCoinbase || decide (tx.inputs ≠ [] ∧ tx.outputs ≠ [] ∧
    (∀ input ∈ tx.inputs, input.pseudoOutputCommitment ≠ 0) ∧
    (tx.inputs.map (·.pseudoOutputCommitment)).sum
      = (tx.outputs.map (·.commitment)).sum + Commitment.commit tx.fee)

/-- `check_tx_balance_proof`. -/
def checkTxBalanceProof (tx : Transaction) : Except TxError Unit :=
  require (verifyBalanceProof tx) .commitmentMismatch

/-! ## Shielded transactions -/

/-- No transparent side. -/
def requirePureShieldedShape (tx : Transaction) : Except TxError Unit :=
  require (tx.inputs = [] ∧ tx.outputs = []) .notPureShielded

/-- Outputs without inputs open to their declared amounts. -/
def checkUnshieldOutputsRevealed (tx : Transaction) : Except TxError Unit :=
  when (tx.inputs = [] ∧ tx.outputs ≠ []) <| forIdx tx.outputs fun i o => do
    require (o.encryptedAmount.length = 8) (.revealedAmountLength i o.encryptedAmount.length)
    require (o.commitment = Commitment.commit (leU64 o.encryptedAmount)) (.revealedCommitment i)

/-- `check_shielded_tx`. Version 2 proofs are left to the block gate; a version 1 bundle is verified
without its fee. -/
def checkShieldedTx (C : Crypto) (tx : Transaction) (net : NetworkType) (currentHeight : ℕ) :
    Except TxError Unit := do
  require (net.shieldedTxActiveAtHeight currentHeight) .shieldedNotActive
  when (!net.shieldBridgeEnabled currentHeight) (requirePureShieldedShape tx)
  match tx.extra with
  | .sparkV2 payload =>
    require (payload.valueBalance = 0 ∨ net.shieldBridgeEnabled currentHeight) .valueBalanceGated
  | .shieldedV1 payload => do
    requirePureShieldedShape tx
    require (payload.valueBalance = 0) .valueBalanceV1
    require (C.verifyBundle payload.balanceProof) .bundleRejected
  | .bytes _ => .error .undecodablePayload

/-! ## The transaction -/

/-- The transparent side of a bridge transaction. -/
def checkBridgeSide (C : Crypto) (tx : Transaction) (utxos : UtxoSet) (currentHeight : ℕ)
    (net : NetworkType) : Except TxError Unit := do
  checkOutputCurvePoints C tx
  when (tx.inputs ≠ []) do
    checkTxNoDoubleSpend tx utxos
    checkTxRingMembers net tx utxos currentHeight (net.v1012RulesActive currentHeight)
    checkTxRingSizeAndUniqueMembers tx utxos currentHeight (net.v1012RulesActive currentHeight)
    checkTxRingSizeCap tx
    checkTxRingSignatures C tx
    checkTxRangeProofs C tx
  checkUnshieldOutputsRevealed tx

/-- The checks of a transfer or churn. -/
def checkTransparentTx (C : Crypto) (tx : Transaction) (utxos : UtxoSet) (currentHeight : ℕ)
    (net : NetworkType) (contextual : Bool) : Except TxError Unit := do
  checkTxV2Activation tx currentHeight
  checkOutputCurvePoints C tx
  checkTxInputOutputCounts tx (net.v1012RulesActive currentHeight)
  checkTxIoRatioLegacy tx
  checkTxUniformShape tx
  -- skipped for a fork block, whose transactions belong to the set at its fork point
  when contextual do
    checkTxNoDoubleSpend tx utxos
    checkTxRingMembers net tx utxos currentHeight (net.v1012RulesActive currentHeight)
    checkTxRingSizeAndUniqueMembers tx utxos currentHeight (net.v1012RulesActive currentHeight)
  checkTxRingSizeCap tx
  checkTxRingSignatures C tx
  checkTxRangeProofs C tx
  checkTxBalanceProof tx

/-- `validate_transaction_for_network_ctx`. -/
def validateTransactionForNetworkCtx (C : Crypto) (tx : Transaction) (utxos : UtxoSet)
    (currentHeight : ℕ) (net : NetworkType) (contextual : Bool) : Except TxError Unit := do
  checkTxVersionRange tx
  if tx.isCoinbase then .ok ()
  else if tx.isShielded then do
    checkShieldedTx C tx net currentHeight
    when (contextual ∧ net.shieldBridgeEnabled currentHeight ∧ (tx.inputs ≠ [] ∨ tx.outputs ≠ []))
      (checkBridgeSide C tx utxos currentHeight net)
  else checkTransparentTx C tx utxos currentHeight net contextual

/-- `validate_transaction_for_network`, for mempool and template. -/
def validateTransaction (C : Crypto) (tx : Transaction) (utxos : UtxoSet) (currentHeight : ℕ)
    (net : NetworkType) : Except TxError Unit :=
  validateTransactionForNetworkCtx C tx utxos currentHeight net true

/-! ## What the checks establish -/

section Specs

variable {height : ℕ} {active : Bool}

/-- What the check establishes. -/
lemma checkTxNoDoubleSpend_eq_ok :
    checkTxNoDoubleSpend tx utxos = .ok () ↔
      (tx.inputs.map (·.keyImage)).Nodup ∧ ∀ input ∈ tx.inputs, input.keyImage ∉ utxos.keyImages :=
  forIdx_distinct_eq_ok fun i input => by simp

/-- What is known of an address: live output, or index row. -/
def resolveRingMember (utxos : UtxoSet) (x : PublicKey) : Option OutputIndexEntry :=
  match utxos.getOutputByStealth x with
  | some r => some ⟨r.output.commitment, r.height, r.isCoinbase, r.output.lockHeight⟩
  | none => utxos.getOutputIndexEntry x

/-- The member resolves to its commitment, mature and unlocked. -/
def RingMemberOk (net : NetworkType) (utxos : UtxoSet) (height : ℕ) (m : RingMemberRef) : Prop :=
  ∃ e, resolveRingMember utxos m.publicKey = some e ∧ m.commitment = e.commitment ∧
    (e.isCoinbase → net.minOutputAge height ≤ height - e.height) ∧ e.lockHeight.getD 0 ≤ height

/-- The check says just that. -/
lemma checkRingMember_eq_ok :
    checkRingMember net utxos height input member m = .ok () ↔ RingMemberOk net utxos height m := by
  unfold checkRingMember RingMemberOk resolveRingMember checkRingMemberCoinbaseMaturity
    checkRingMemberTimeLock
  cases utxos.getOutputByStealth m.publicKey with
  | some r => simp
  | none =>
    cases utxos.getOutputIndexEntry m.publicKey with
    | some e => simp
    | none => simp

lemma checkTxRingMembers_eq_ok :
    checkTxRingMembers net tx utxos height active = .ok () ↔
      (active → (tx.outputs.map (·.stealthAddress)).Nodup ∧
        ∀ o ∈ tx.outputs, utxos.getOutputIndexEntry o.stealthAddress = none) ∧
      ∀ input ∈ tx.inputs, ∀ m ∈ input.ringMembers, RingMemberOk net utxos height m := by
  rw [checkTxRingMembers, seq_eq_ok, when_eq_ok, forIdx_distinct_eq_ok (g := (·.stealthAddress))
    (P := fun o => utxos.getOutputIndexEntry o.stealthAddress = none) (fun i o => by simp),
    forIdx_eq_ok_iff (P := fun input => ∀ m ∈ input.ringMembers, RingMemberOk net utxos height m)
      (fun _ _ => forIdx_eq_ok_iff (P := RingMemberOk net utxos height)
        fun _ _ => checkRingMember_eq_ok)]

lemma checkTxRingSizeAndUniqueMembers_eq_ok :
    checkTxRingSizeAndUniqueMembers tx utxos height active = .ok () ↔
      ∀ input ∈ tx.inputs,
        input.ringMembers.length = effectiveRingSize height (availableOutputs utxos height active) ∧
        (input.ringMembers.map (·.publicKey)).Nodup := by
  unfold checkTxRingSizeAndUniqueMembers
  exact forIdx_eq_ok_iff fun i input => by simp

lemma checkTxRingSignatures_eq_ok :
    checkTxRingSignatures C tx = .ok () ↔ ∀ input ∈ tx.inputs, verifyRingSignature C tx input :=
  forIdx_eq_ok_iff fun i input => by simp

/-- The path of a transfer or churn. -/
lemma validate_transparent (hcb : tx.isCoinbase = false) (hsh : tx.isShielded = false) :
    validateTransactionForNetworkCtx C tx utxos height net contextual = .ok () ↔
      checkTxVersionRange tx = .ok () ∧
        checkTransparentTx C tx utxos height net contextual = .ok () := by
  rw [validateTransactionForNetworkCtx, seq_eq_ok]
  simp only [hcb, hsh, Bool.false_eq_true, if_false]

/-- The path of a shielded transaction. -/
lemma validate_shielded (hcb : tx.isCoinbase = false) (hsh : tx.isShielded = true) :
    validateTransactionForNetworkCtx C tx utxos height net contextual = .ok () ↔
      checkTxVersionRange tx = .ok () ∧ checkShieldedTx C tx net height = .ok () ∧
        (contextual ∧ net.shieldBridgeEnabled height ∧ (tx.inputs ≠ [] ∨ tx.outputs ≠ []) →
          checkBridgeSide C tx utxos height net = .ok ()) := by
  unfold validateTransactionForNetworkCtx
  simp only [hcb, hsh, Bool.false_eq_true, if_false, if_true, seq_eq_ok, when_eq_ok]

/-- With a transparent side it is a bridge transaction. -/
lemma bridge_of_checkShieldedTx (h : checkShieldedTx C tx net height = .ok ())
    (hside : tx.inputs ≠ [] ∨ tx.outputs ≠ []) : net.shieldBridgeEnabled height = true := by
  unfold checkShieldedTx requirePureShieldedShape at h
  simp only [seq_eq_ok, when_eq_ok, require_eq_ok] at h
  by_contra hb
  obtain ⟨hin, hout⟩ := h.2.1 (by simpa using hb)
  rcases hside with hside | hside
  · exact hside hin
  · exact hside hout

/-- No transparent side without a version 2 payload. -/
lemma pure_of_checkShieldedTx (h : checkShieldedTx C tx net height = .ok ())
    (hsh : tx.isShielded = true) (hv1 : tx.sparkPayload = none) :
    tx.inputs = [] ∧ tx.outputs = [] := by
  unfold checkShieldedTx requirePureShieldedShape at h
  unfold Transaction.sparkPayload at hv1
  cases hx : tx.extra with
  | bytes b => simp [hx] at h
  | shieldedV1 p =>
    simp only [hx, seq_eq_ok, require_eq_ok] at h
    exact h.2.2.1
  | sparkV2 p => simp [hx, hsh] at hv1

/-- The checks of spent inputs, whatever the transaction's kind. -/
structure InputsChecked (C : Crypto) (tx : Transaction) (utxos : UtxoSet) (height : ℕ)
    (net : NetworkType) : Prop where
  doubleSpend : checkTxNoDoubleSpend tx utxos = .ok ()
  ringMembers : checkTxRingMembers net tx utxos height (net.v1012RulesActive height) = .ok ()
  ringSizes :
    checkTxRingSizeAndUniqueMembers tx utxos height (net.v1012RulesActive height) = .ok ()
  signatures : checkTxRingSignatures C tx = .ok ()

/-- Every accepted transaction with inputs passed them. -/
lemma inputsChecked_of_validate (hcb : tx.isCoinbase = false)
    (h : validateTransactionForNetworkCtx C tx utxos height net true = .ok ())
    (hin : tx.inputs ≠ []) : InputsChecked C tx utxos height net := by
  cases hsh : tx.isShielded with
  | false =>
    have ht := ((validate_transparent hcb hsh).mp h).2
    simp only [checkTransparentTx, seq_eq_ok, when_eq_ok, forall_const] at ht
    obtain ⟨-, -, -, -, -, ⟨hds, hrm, hsize⟩, -, hsig, -⟩ := ht
    exact ⟨hds, hrm, hsize, hsig⟩
  | true =>
    obtain ⟨-, hspark, hside⟩ := (validate_shielded hcb hsh).mp h
    have hbridge := bridge_of_checkShieldedTx hspark (.inl hin)
    have hb := hside ⟨rfl, hbridge, .inl hin⟩
    simp only [checkBridgeSide, seq_eq_ok, when_eq_ok] at hb
    obtain ⟨hds, hrm, hsize, -, hsig, -⟩ := hb.2.1 hin
    exact ⟨hds, hrm, hsize, hsig⟩

/-- An accepted transfer balances. -/
lemma balance_of_validate (hcb : tx.isCoinbase = false) (hsh : tx.isShielded = false)
    (h : validateTransactionForNetworkCtx C tx utxos height net contextual = .ok ()) :
    (tx.inputs.map (·.pseudoOutputCommitment)).sum
      = (tx.outputs.map (·.commitment)).sum + Commitment.commit tx.fee := by
  have ht := ((validate_transparent hcb hsh).mp h).2
  unfold checkTransparentTx checkTxBalanceProof verifyBalanceProof at ht
  simp only [seq_eq_ok, require_eq_ok, hcb, Bool.false_or, decide_eq_true_eq] at ht
  exact ht.2.2.2.2.2.2.2.2.2.2.2.2

end Specs

end CoinCync

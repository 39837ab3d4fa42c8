import CoinCync.Swap.Contract

/-!
# The safety evidence of a swap

`safety.rs`: the check of the evidence before the CYNC side is locked, the two spends of the Bitcoin
lock that the evidence commits to, and the verification of a signed spend, which recovers the CYNC
share its adaptor signature reveals.

The cross-curve proof is a function with its soundness (`SwapEnv.sound`). Where the source has the two
paths side by side, one definition has the path as an argument.
-/

namespace CoinCync.AtomicSwap

open Check Transaction Bytes

/-- `MAX_LOCK_TX_BYTES`. -/
def maxLockTxBytes : ℕ := 4000000

/-- `MAX_SPEND_TX_BYTES`. -/
def maxSpendTxBytes : ℕ := 1000000

/-- The least output. -/
def dustThresholdSats : UInt64 := 330

/-- `PRE_LOCK_DLEQ_CONTEXT`. -/
def preLockDleqContext : String := "coincync-swap pre-cync-lock v2"

/-- `CrossCurveProof::ENCODED_LEN`. -/
def proofEncodedLen : ℕ := 1 + 31 + 32 + 32 + 252 * (33 + 32 + 31 + 4 * 32) + 32 + 32

/-- `SafeSpendBase`. -/
structure SafeSpendBase where
  lockTxid : String
  lockVout : UInt32
  lockValueSats : UInt64
  contract : SwapTaprootContract
  destAddress : String
  feeSats : UInt64
deriving DecidableEq

/-- `ShareBindingEvidence`. -/
structure ShareBindingEvidence where
  btcAdaptorPointHex : String
  cyncSpendShareHex : String
  strictDleqProofHex : String
deriving DecidableEq

/-- A pre-signature in hexadecimal. -/
structure AdaptorPreSignatureEvidence where
  rPointHex : String
  sPreHex : String
deriving DecidableEq

/-- `PreCyncLockSafetyEvidence`. -/
structure PreCyncLockSafetyEvidence where
  version : ℕ
  swapId : String
  btcNetwork : String
  lockTxHex : String
  lockVout : UInt32
  contract : SwapTaprootContract
  claimDestination : String
  claimFeeSats : UInt64
  refundDestination : String
  refundFeeSats : UInt64
  aliceShare : ShareBindingEvidence
  bobShare : ShareBindingEvidence
  claimAdaptor : AdaptorPreSignatureEvidence
  refundAdaptor : AdaptorPreSignatureEvidence
  sharedViewPublicHex : String
  cyncAmountAtomic : UInt64
deriving DecidableEq

/-- What was agreed on. -/
structure SwapParameters where
  cyncAmount : UInt64
  btcAmountSats : UInt64
  btcTimeoutBlocks : UInt32
  btcNetwork : String
deriving DecidableEq

/-- A swap. -/
structure Swap where
  id : String
  parameters : SwapParameters
deriving DecidableEq

/-- `VerifiedPreCyncLock`. -/
structure VerifiedPreCyncLock where
  swapId : String
  fingerprint : ℕ
  lockTxid : String
  lockVout : UInt32
  recipient : SwapLockRecipient
deriving DecidableEq

/-- `RevealedParty`. -/
inductive RevealedParty
  | alice
  | bob
deriving DecidableEq

/-- `VerifiedShareReveal`. -/
structure VerifiedShareReveal where
  swapId : String
  party : RevealedParty
  secret : ℕ
deriving DecidableEq

/-- Bitcoin, cross-curve proofs and the evidence digest. -/
structure SwapEnv (n m : ℕ) (P Q : Type) [AddCommGroup P] [Module (ZMod n) P] [AddCommGroup Q]
    [Module (ZMod m) Q] extends Bitcoin n m P Q where
  proofFromBytes : List UInt8 → Except Error Unit
  /-- The verification of a decoded proof for a point of each curve and a context. -/
  verifyProof : List UInt8 → P → Q → String → Except Error Unit
  /-- A proof is accepted only for points that have one positive secret, below both orders. -/
  sound : ∀ {proof p q context}, verifyProof proof p q context = .ok () →
    ∃ t : ℕ, 0 < t ∧ t < n ∧ t < m ∧ (t : ZMod n) • btc.base = p ∧ (t : ZMod m) • cync.base = q
  evidenceDigest : PreCyncLockSafetyEvidence → ℕ

variable {n m : ℕ} {P Q : Type} [AddCommGroup P] [Module (ZMod n) P] [AddCommGroup Q]
  [Module (ZMod m) Q] (E : SwapEnv n m P Q)

/-! ## Points and hexadecimal fields -/

/-- `PublicKey::serialize`. -/
def encodePoint (G : XOnlyGroup n P) (p : P) : List UInt8 :=
  (if G.even p then 2 else 3) :: toBe 32 (G.x p)

/-- `PublicKey::from_slice`, for 33 bytes. -/
def decodePoint (G : XOnlyGroup n P) : List UInt8 → Option P
  | 2 :: l => if l.length = 32 then G.lift (ofBe l) else none
  | 3 :: l => if l.length = 32 then (G.lift (ofBe l)).map (-·) else none
  | _ => none

lemma encodePoint_of_decodePoint {G : XOnlyGroup n P} (h : decodePoint G bytes = some p) :
    p ≠ 0 ∧ encodePoint G p = bytes := by
  unfold decodePoint at h
  split at h
  · obtain ⟨hlen, h⟩ := Option.ite_none_right_eq_some.mp h
    obtain ⟨hne, heven, hx⟩ := G.lift_eq_some.mp h
    refine ⟨hne, ?_⟩
    rw [encodePoint, heven, hx, toBe_ofBe hlen]
    rfl
  · obtain ⟨hlen, h⟩ := Option.ite_none_right_eq_some.mp h
    obtain ⟨q, hq, rfl⟩ := Option.map_eq_some_iff.mp h
    obtain ⟨hne, heven, hx⟩ := G.lift_eq_some.mp hq
    refine ⟨neg_ne_zero.mpr hne, ?_⟩
    rw [encodePoint, G.even_neg hne, heven, XOnlyGroup.x_neg hne, hx, toBe_ofBe hlen]
    rfl
  · exact absurd h (by simp)

lemma decodePoint_encodePoint (G : XOnlyGroup n P) (hp : p ≠ 0) :
    decodePoint G (encodePoint G p) = some p := by
  have hx := ofBe_toBe (G.x_lt p)
  have hlen := length_toBe 32 (G.x p)
  cases heven : G.even p with
  | true =>
    rw [encodePoint, heven, if_pos rfl, decodePoint, hx]
    exact G.lift_eq_some.mpr ⟨hp, heven, rfl⟩
  | false =>
    rw [encodePoint, heven, if_neg Bool.false_ne_true, decodePoint, if_pos hlen, hx,
      XOnlyGroup.lift_x_of_odd hp heven, Option.map_some, neg_neg]

/-- `parse_hex_array`. -/
def parseHexArray (size : ℕ) (value label : String) : Except Error (List UInt8) := do
  verify (value.utf8ByteSize = size * 2) label
  let bytes ← expect (Hex.decode value) label
  -- a fixed-size array takes exactly as many bytes
  verify (bytes.length = size) label
  return bytes

lemma parseHexArray_encode (h : bytes.length = size) (label : String) :
    parseHexArray size (Hex.encode bytes) label = .ok bytes := by
  have hsize : (Hex.encode bytes).utf8ByteSize = size * 2 := by
    rw [Hex.utf8ByteSize_encode, h, mul_comm]
  simp only [parseHexArray, bind_eq_ok, verify_eq_ok, expect_eq_ok]
  exact ⟨(), hsize, bytes, Hex.decode_encode bytes, (), h, rfl⟩

/-- `parse_network`. -/
def parseNetwork (name : String) : Except Error Network :=
  expect
    (if name = "mainnet" then some .bitcoin
      else if name = "testnet" then some .testnet
      else if name = "regtest" then some .regtest
      else if name = "signet" then some .signet
      else none)
    "Bitcoin network must be mainnet/testnet/regtest/signet"

/-- `parse_adaptor`. -/
def parseAdaptor (evidence : AdaptorPreSignatureEvidence) : Except Error (BtcAdaptorSig P) := do
  let rBytes ← parseHexArray 33 evidence.rPointHex
    "adaptor r_point must be 33-byte compressed point hex"
  let rPoint ← expect (decodePoint E.btc rBytes) "adaptor r_point is invalid"
  let sPre ← parseHexArray 32 evidence.sPreHex "adaptor s_pre must be 32-byte scalar hex"
  return { rPoint, sPre := ofBe sPre }

/-- `CrossCurveStatement::new`. -/
def crossCurveStatement [DecidableEq Q] (btcPub cyncPub : List UInt8) : Except Error (P × Q) := do
  let btcPoint ← expect (decodePoint E.btc btcPub) "cross-curve BTC public key is invalid"
  let cyncPoint ← expect (E.cync.decompress cyncPub) "cross-curve CYNC public key is invalid"
  verify (cyncPoint ≠ 0) "cross-curve CYNC public key must not be identity"
  return (btcPoint, cyncPoint)

/-- `verify_share_binding`. -/
def verifyShareBinding [DecidableEq Q] (evidence : ShareBindingEvidence) :
    Except Error (List UInt8 × List UInt8) := do
  let btcPoint ← parseHexArray 33 evidence.btcAdaptorPointHex
    "share BTC adaptor point must be 33-byte compressed point hex"
  let cyncPoint ← parseHexArray 32 evidence.cyncSpendShareHex
    "share CYNC point must be 32-byte compressed point hex"
  verify (evidence.strictDleqProofHex.utf8ByteSize = proofEncodedLen * 2)
    "cross-curve DLEQ proof hex has wrong length"
  let proofBytes ← expect (Hex.decode evidence.strictDleqProofHex)
    "cross-curve DLEQ proof is not valid hex"
  E.proofFromBytes proofBytes
  let statement ← crossCurveStatement E btcPoint cyncPoint
  E.verifyProof proofBytes statement.1 statement.2 preLockDleqContext
  return (btcPoint, cyncPoint)

/-- `decode_lock_transaction`. -/
def decodeLockTransaction (value : String) : Except Error Transaction := do
  verify (value.utf8ByteSize % 2 = 0 ∧ value.utf8ByteSize ≤ maxLockTxBytes * 2)
    "Bitcoin lock transaction hex length is invalid"
  let bytes ← expect (Hex.decode value) "Bitcoin lock transaction is not valid hex"
  verify (bytes ≠ []) "Bitcoin lock transaction is empty"
  expect (deserialize bytes) "Bitcoin lock transaction decode failed"

lemma decodeLockTransaction_encode (hfits : tx.Fits)
    (hsize : tx.serialize.length ≤ maxLockTxBytes) :
    decodeLockTransaction (Hex.encode tx.serialize) = .ok tx := by
  simp only [decodeLockTransaction, bind_eq_ok, verify_eq_ok, expect_eq_ok, Hex.utf8ByteSize_encode]
  exact ⟨(), by omega, _, Hex.decode_encode _, (),
    serialize_ne_nil hfits, deserialize_serialize hfits⟩

/-! ## The two spends -/

/-- `PreparedSpend`. -/
structure PreparedSpend where
  tx : Transaction
  prevout : TxOut
  script : List UInt8
  spendInfo : SpendInfo

/-- Replaceable, or the relative lock. -/
def spendSequence (contract : SwapTaprootContract) : SpendPath → UInt32
  | .claim => 0xfffffffd
  | .refund => contract.refundCsvBlocks.toUInt32

/-- `build_spend_internal`. -/
def buildSpendInternal (network : String) (base : SafeSpendBase) (path : SpendPath) :
    Except Error PreparedSpend := do
  let network ← parseNetwork network
  verify (base.feeSats < base.lockValueSats) "spend fee leaves no output"
  let outputValue := base.lockValueSats - base.feeSats
  verify (dustThresholdSats ≤ outputValue) "spend output is below dust threshold"
  let destination ← expect (E.parseAddress base.destAddress) "spend destination parse failed"
  verify (destination.validFor network = true) "spend destination network mismatch"
  let lockTxid ← expect (E.txidFromStr base.lockTxid) "lock_txid is not valid Bitcoin txid hex"
  let spendInfo ← contractSpendInfo E.toBitcoin base.contract
  return {
    tx := {
      version := 2
      lockTime := 0
      input := [⟨⟨lockTxid, base.lockVout⟩, [], spendSequence base.contract path, []⟩]
      output := [⟨outputValue, destination.scriptPubkey⟩] }
    prevout := ⟨base.lockValueSats, spendInfo.scriptPubkey⟩
    script := base.contract.script path
    spendInfo }

/-- What is signed. -/
def spendSighash (prepared : PreparedSpend) : ℕ :=
  E.sighash (prepared.tx.sighashData [prepared.prevout] 0 none prepared.script 0)

/-- `safe_claim_sighash` and `safe_refund_sighash`. -/
def safeSighash (network : String) (base : SafeSpendBase) (path : SpendPath) : Except Error ℕ := do
  let prepared ← buildSpendInternal E network base path
  return spendSighash E prepared

/-- `verify_signature`. -/
def verifySignature [DecidableEq P] (signature : Signature) (sighash pubkey : ℕ) (label : String) :
    Except Error Unit := do
  let _ ← parseXonly E.toBitcoin pubkey label
  verify (verifySchnorr E.toBitcoin signature sighash pubkey = true) label

/-- The signed transaction of a prepared spend. -/
def PreparedSpend.signed (prepared : PreparedSpend) (control : List UInt8)
    (alice bob : Signature) : Transaction :=
  { prepared.tx with
    input := prepared.tx.input.map fun i =>
      { i with witness := [bob.bytes, alice.bytes, prepared.script, control] } }

/-- `build_signed_spend`. -/
def buildSignedSpend [DecidableEq P] (network : String) (base : SafeSpendBase) (path : SpendPath)
    (alice bob : Signature) : Except Error (List UInt8) := do
  let prepared ← buildSpendInternal E network base path
  let sighash := spendSighash E prepared
  verifySignature E alice sighash (base.contract.aliceKey path)
    "Alice signature does not verify for the selected swap path"
  verifySignature E bob sighash (base.contract.bobKey path)
    "Bob signature does not verify for the selected swap path"
  let control ← expect (prepared.spendInfo.controlBlock E.toBitcoin prepared.script)
    "Taproot control block lookup failed"
  return (prepared.signed control alice bob).serialize

/-- The 64 bytes of a signature. -/
def signatureOfBytes (bytes : List UInt8) : Option Signature :=
  if h : bytes.length = 64 then some ⟨bytes, h⟩ else none

/-- Alice's and Bob's signature in the witness. -/
def signedSpendSignatures (txBytes : List UInt8) : Except Error (Signature × Signature) := do
  verify (txBytes ≠ [] ∧ txBytes.length ≤ maxSpendTxBytes)
    "signed Bitcoin spend transaction length is invalid"
  let tx ← expect (deserialize txBytes) "signed Bitcoin spend transaction decode failed"
  let input ← expect (if tx.input.length = 1 then tx.input.head? else none)
    "safe Bitcoin spend must have one input and a four-element script-path witness"
  verify (input.witness.length = 4)
    "safe Bitcoin spend must have one input and a four-element script-path witness"
  let bobBytes ← expect input.witness[0]? "safe Bitcoin spend is missing Bob's signature"
  let aliceBytes ← expect input.witness[1]? "safe Bitcoin spend is missing Alice's signature"
  let text := "safe Bitcoin spend signatures must use 64-byte SIGHASH_DEFAULT encoding"
  let alice ← expect (signatureOfBytes aliceBytes) text
  let bob ← expect (signatureOfBytes bobBytes) text
  return (alice, bob)

/-! ## The evidence -/

/-- The evidence's spend of the lock through a path. -/
def spendBase (evidence : PreCyncLockSafetyEvidence) (lockTxid : String) (value : UInt64) :
    SpendPath → SafeSpendBase
  | .claim => {
      lockTxid, lockVout := evidence.lockVout, lockValueSats := value
      contract := evidence.contract
      destAddress := evidence.claimDestination
      feeSats := evidence.claimFeeSats }
  | .refund => {
      lockTxid, lockVout := evidence.lockVout, lockValueSats := value
      contract := evidence.contract
      destAddress := evidence.refundDestination
      feeSats := evidence.refundFeeSats }

/-- The share a path reveals. -/
def revealedShare (evidence : PreCyncLockSafetyEvidence) : SpendPath → ShareBindingEvidence
  | .claim => evidence.aliceShare
  | .refund => evidence.bobShare

/-- The pre-signature a path completes. -/
def pathAdaptor (evidence : PreCyncLockSafetyEvidence) : SpendPath → AdaptorPreSignatureEvidence
  | .claim => evidence.claimAdaptor
  | .refund => evidence.refundAdaptor

/-- The key of the party whose signature is pre-signed. -/
def presignerKey (contract : SwapTaprootContract) : SpendPath → ℕ
  | .claim => contract.bobClaimPubkey
  | .refund => contract.aliceRefundPubkey

/-- The error for its key. -/
def presignerText : SpendPath → String
  | .claim => "bob_claim_pubkey is invalid"
  | .refund => "alice_refund_pubkey is invalid"

/-- The error for its signature. -/
def presigText : SpendPath → String
  | .claim => "claim adaptor pre-signature verification failed"
  | .refund => "refund adaptor pre-signature verification failed"

/-- The evidence is for this swap, and its contract is one. -/
def checkAgreement (evidence : PreCyncLockSafetyEvidence) (swap : Swap) : Except Error Unit := do
  verify (evidence.version = 1) "unsupported pre-CYNC safety evidence version"
  verify (evidence.swapId = swap.id) "safety evidence belongs to a different swap"
  verify (evidence.btcNetwork = swap.parameters.btcNetwork)
    "safety evidence Bitcoin network mismatch"
  let _ ← parseNetwork evidence.btcNetwork
  verify (evidence.cyncAmountAtomic = swap.parameters.cyncAmount)
    "safety evidence CYNC amount mismatch"
  verify (swap.parameters.btcTimeoutBlocks ≤ 65535 ∧
      evidence.contract.refundCsvBlocks.toUInt32 = swap.parameters.btcTimeoutBlocks)
    "Bitcoin refund CSV does not match swap parameters"
  evidence.contract.validateContract E.toBitcoin

/-- The lock output, with the agreed amount and the contract's script. -/
def lockedOutput (evidence : PreCyncLockSafetyEvidence) (swap : Swap) :
    Except Error (Transaction × TxOut) := do
  let lockTx ← decodeLockTransaction evidence.lockTxHex
  let lockOutput ← expect lockTx.output[evidence.lockVout.toNat]? "Bitcoin lock vout does not exist"
  verify (lockOutput.value = swap.parameters.btcAmountSats) "Bitcoin lock amount mismatch"
  let lockScript ← safeLockScriptPubkey E.toBitcoin evidence.contract
  verify (lockOutput.scriptPubkey = lockScript)
    "Bitcoin lock output is not the required two-leaf share-reveal contract"
  return (lockTx, lockOutput)

variable [DecidableEq P]

/-- A path's pre-signature is for the adaptor point and the sighash. -/
def verifyPathPresig (evidence : PreCyncLockSafetyEvidence) (path : SpendPath) (adaptorPoint : P)
    (sighash : ℕ) : Except Error Unit := do
  let key ← parseXonly E.toBitcoin (presignerKey evidence.contract path) (presignerText path)
  let adaptor ← parseAdaptor E (pathAdaptor evidence path)
  (verifyPreSig E.toCurves adaptor key adaptorPoint sighash).mapError
    fun _ => .verification (presigText path)

variable [DecidableEq Q]

/-- `verify_pre_cync_lock`. -/
def verifyPreCyncLock (evidence : PreCyncLockSafetyEvidence) (swap : Swap) :
    Except Error VerifiedPreCyncLock := do
  checkAgreement E evidence swap
  let lock ← lockedOutput E evidence swap
  let lockTxid := E.txidToString (E.computeTxid lock.1)
  let claimHash ← safeSighash E evidence.btcNetwork
    (spendBase evidence lockTxid lock.2.value .claim) .claim
  let refundHash ← safeSighash E evidence.btcNetwork
    (spendBase evidence lockTxid lock.2.value .refund) .refund
  let aliceShare ← verifyShareBinding E evidence.aliceShare
  let bobShare ← verifyShareBinding E evidence.bobShare
  let aliceAdaptorPoint ← expect (decodePoint E.btc aliceShare.1)
    "Alice BTC adaptor point is invalid"
  let bobAdaptorPoint ← expect (decodePoint E.btc bobShare.1) "Bob BTC adaptor point is invalid"
  verifyPathPresig E evidence .claim aliceAdaptorPoint claimHash
  verifyPathPresig E evidence .refund bobAdaptorPoint refundHash
  let sharedViewPublic ← parseHexArray 32 evidence.sharedViewPublicHex
    "shared CYNC view public key must be 32-byte point hex"
  let recipient ← computeSwapLockRecipient E.toCurves aliceShare.2 bobShare.2 sharedViewPublic
    evidence.cyncAmountAtomic
  return {
    swapId := swap.id
    fingerprint := E.evidenceDigest evidence
    lockTxid
    lockVout := evidence.lockVout
    recipient }

/-- `RevealContext`. -/
structure RevealContext (P : Type) where
  base : SafeSpendBase
  btcPoint : List UInt8
  cyncPoint : List UInt8
  adaptor : BtcAdaptorSig P

/-- What a reveal is checked with. -/
def revealContext (evidence : PreCyncLockSafetyEvidence) (swap : Swap) (path : SpendPath) :
    Except Error (RevealContext P) := do
  let _ ← verifyPreCyncLock E evidence swap
  let lockTx ← decodeLockTransaction evidence.lockTxHex
  let lockOutput ← expect lockTx.output[evidence.lockVout.toNat]? "Bitcoin lock vout does not exist"
  let share ← verifyShareBinding E (revealedShare evidence path)
  let adaptor ← parseAdaptor E (pathAdaptor evidence path)
  return {
    base := spendBase evidence (E.txidToString (E.computeTxid lockTx)) lockOutput.value path
    btcPoint := share.1
    cyncPoint := share.2
    adaptor }

omit [DecidableEq P] [DecidableEq Q] in
/-- `verify_recovered_share`. -/
def verifyRecoveredShare (recovered : ℕ) (expectedBtc expectedCync : List UInt8) :
    Except Error Unit := do
  let secret ← secretKey n recovered "recovered share is not a secp256k1 scalar"
  let recoveredBtc := encodePoint E.btc ((secret : ZMod n) • E.btc.base)
  let recoveredCync ← cyncAdaptorPoint E.toCurves recovered
  verify (recoveredBtc = expectedBtc ∧ recoveredCync = expectedCync)
    "final Bitcoin signature revealed a different CYNC share"

/-- The party whose share a path reveals. -/
def revealedParty : SpendPath → RevealedParty
  | .claim => .alice
  | .refund => .bob

/-- The error for the final signature. -/
def finalSignatureText : SpendPath → String
  | .claim => "final Bitcoin claim signature is invalid"
  | .refund => "final Bitcoin refund signature is invalid"

/-- `verify_claim_share_reveal` and `verify_refund_share_reveal`. -/
def verifyShareReveal (evidence : PreCyncLockSafetyEvidence) (swap : Swap) (path : SpendPath)
    (finalSignature : Signature) : Except Error VerifiedShareReveal := do
  let ctx ← revealContext E evidence swap path
  let sighash ← safeSighash E evidence.btcNetwork ctx.base path
  verifySignature E finalSignature sighash (presignerKey evidence.contract path)
    (finalSignatureText path)
  let recovered ← recoverSecretFromBtcSig n ctx.adaptor finalSignature
  verifyRecoveredShare E recovered ctx.btcPoint ctx.cyncPoint
  return { swapId := swap.id, party := revealedParty path, secret := recovered }

/-- The pre-signing party's signature, of Alice's and Bob's. -/
def presigner (alice bob : Signature) : SpendPath → Signature
  | .claim => bob
  | .refund => alice

/-- The error for another spend. -/
def mismatchText : SpendPath → String
  | .claim => "signed Bitcoin claim does not match the safety evidence"
  | .refund => "signed Bitcoin refund does not match the safety evidence"

/-- The verification of a signed spend of a path. -/
def verifySafeTransaction (path : SpendPath) (evidence : PreCyncLockSafetyEvidence) (swap : Swap)
    (txBytes : List UInt8) : Except Error VerifiedShareReveal := do
  let signatures ← signedSpendSignatures txBytes
  let ctx ← revealContext E evidence swap path
  let expected ← buildSignedSpend E evidence.btcNetwork ctx.base path signatures.1 signatures.2
  verify (expected = txBytes) (mismatchText path)
  verifyShareReveal E evidence swap path (presigner signatures.1 signatures.2 path)

/-- `verify_safe_claim_transaction`. -/
def verifySafeClaimTransaction := verifySafeTransaction E .claim

/-- `verify_safe_refund_transaction`. -/
def verifySafeRefundTransaction := verifySafeTransaction E .refund

end CoinCync.AtomicSwap

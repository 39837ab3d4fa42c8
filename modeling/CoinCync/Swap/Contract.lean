import CoinCync.Swap.Adaptor
import CoinCync.Swap.BitcoinTx

/-!
# The Taproot contract of a swap

The output that locks the bitcoin (`safety.rs`): no key path, and two leaves that both need a signature
of either party. Hashes, addresses and transaction ids are functions of `Bitcoin`; scripts and control
blocks are bytes. `SpendsLeaf` is Bitcoin's side of it.
-/

namespace CoinCync.AtomicSwap

open Check Bytes

/-- `SwapTaprootContract`. -/
structure SwapTaprootContract where
  aliceClaimPubkey : ℕ
  bobClaimPubkey : ℕ
  aliceRefundPubkey : ℕ
  bobRefundPubkey : ℕ
  refundCsvBlocks : UInt16
deriving DecidableEq

/-- A bitcoin network. -/
inductive Network
  | bitcoin
  | testnet
  | regtest
  | signet
deriving DecidableEq

/-- A parsed address: its possible networks and its script. -/
structure Address where
  validFor : Network → Bool
  scriptPubkey : List UInt8
  length_scriptPubkey : scriptPubkey.length ≤ 42

/-- What a script-path signature commits to under `hashType` 0, others in part. -/
structure SighashData where
  hashType : ℕ
  version : UInt32
  lockTime : UInt32
  inputs : List (OutPoint × UInt32)
  outputs : List TxOut
  prevouts : List TxOut
  inputIndex : ℕ
  annex : Option (List UInt8)
  leaf : List UInt8
deriving DecidableEq

/-- The curves, and what the contract needs of Bitcoin. -/
structure Bitcoin (n m : ℕ) (P Q : Type) [AddCommGroup P] [Module (ZMod n) P] [AddCommGroup Q]
    [Module (ZMod m) Q] extends Curves n m P Q where
  /-- The digest of `NUMS_DOMAIN`, the contract's bytes and a counter. -/
  numsHash : List UInt8 → ℕ → ℕ
  leafHash : List UInt8 → ℕ
  branchHash : ℕ → ℕ → ℕ
  /-- The output key of an internal key and a Merkle root, and the parity of its point. -/
  tapTweak : ℕ → ℕ → ℕ × Bool
  sighash : SighashData → ℕ
  computeTxid : Transaction → ℕ
  computeTxid_lt : ∀ tx, computeTxid tx < 256 ^ 32
  txidToString : ℕ → String
  txidFromStr : String → Option ℕ
  txidFromStr_toString : ∀ txid, txidFromStr (txidToString txid) = some txid
  parseAddress : String → Option Address

variable {n m : ℕ} {P Q : Type} [AddCommGroup P] [Module (ZMod n) P] [AddCommGroup Q]
  [Module (ZMod m) Q]

/-! ## Scripts -/

/-- Push a key. -/
def pushXOnlyKey (key : ℕ) : List UInt8 := 0x20 :: toBe 32 key

/-- `Builder::push_int`, for the numbers of 16 bits. -/
def pushInt (k : UInt16) : List UInt8 :=
  if k = 0 then [0]
  else if k ≤ 16 then [0x50 + k.toUInt8]
  else
    let bytes := if k < 256 then [k.toUInt8] else [k.toUInt8, (k >>> 8).toUInt8]
    -- the top bit of the last byte is the sign
    let bytes := if bytes.getLast? |>.any (128 ≤ ·) then bytes ++ [0] else bytes
    UInt8.ofNat bytes.length :: bytes

/-- `<alice> OP_CHECKSIG <bob> OP_CHECKSIGADD 2 OP_NUMEQUAL`. -/
def bothSign (alice bob : ℕ) : List UInt8 :=
  pushXOnlyKey alice ++ 0xac :: (pushXOnlyKey bob ++ [0xba, 0x52, 0x9c])

/-- `parse_xonly`. -/
def parseXonly (B : Bitcoin n m P Q) (key : ℕ) (label : String) : Except Error P :=
  expect (B.btc.lift key) label

namespace SwapTaprootContract

variable (B : Bitcoin n m P Q) (c : SwapTaprootContract)

/-- `validate_contract`. -/
def validateContract : Except Error Unit := do
  let _ ← parseXonly B c.aliceClaimPubkey "alice_claim_pubkey is not a valid x-only key"
  let _ ← parseXonly B c.bobClaimPubkey "bob_claim_pubkey is not a valid x-only key"
  let _ ← parseXonly B c.aliceRefundPubkey "alice_refund_pubkey is not a valid x-only key"
  let _ ← parseXonly B c.bobRefundPubkey "bob_refund_pubkey is not a valid x-only key"
  verify (c.refundCsvBlocks ≠ 0) "refund_csv_blocks must be non-zero"

/-- The bytes of the contract. -/
def commitmentBytes : List UInt8 :=
  toBe 32 c.aliceClaimPubkey ++ toBe 32 c.bobClaimPubkey ++
    toBe 32 c.aliceRefundPubkey ++ toBe 32 c.bobRefundPubkey ++
    toLe 2 c.refundCsvBlocks.toNat

/-- The first key of `fuel` candidates from `counter` on. -/
def numsKeyFrom : ℕ → ℕ → Option ℕ
  | 0, _ => none
  | fuel + 1, counter =>
    let candidate := B.numsHash c.commitmentBytes counter
    if (B.btc.lift candidate).isSome then some candidate else numsKeyFrom fuel (counter + 1)

/-- A key without a secret. -/
def numsInternalKey : Except Error ℕ :=
  expect (c.numsKeyFrom B (2 ^ 32) 0) "failed to derive Taproot NUMS internal key"

/-- The leaf of the claim. -/
def successScript : List UInt8 := bothSign c.aliceClaimPubkey c.bobClaimPubkey

/-- The leaf of the refund. -/
def refundScript : List UInt8 :=
  pushInt c.refundCsvBlocks ++ 0xb2 :: 0x75 :: bothSign c.aliceRefundPubkey c.bobRefundPubkey

end SwapTaprootContract

/-- A two-leaf Taproot output. -/
structure SpendInfo where
  internalKey : ℕ
  success : List UInt8
  refund : List UInt8
  outputKey : ℕ
  outputParity : Bool
deriving DecidableEq

namespace SpendInfo

variable (B : Bitcoin n m P Q)

/-- The output of two leaves. -/
def finalize (internalKey : ℕ) (success refund : List UInt8) : SpendInfo :=
  let root := B.branchHash (B.leafHash success) (B.leafHash refund)
  { internalKey, success, refund,
    outputKey := (B.tapTweak internalKey root).1,
    outputParity := (B.tapTweak internalKey root).2 }

/-- Its script. -/
def scriptPubkey (i : SpendInfo) : List UInt8 := 0x51 :: pushXOnlyKey i.outputKey

/-- The control block of a leaf with its sibling's hash. -/
def controlBytes (i : SpendInfo) (sibling : ℕ) : List UInt8 :=
  (if i.outputParity then 0xc1 else 0xc0) :: (toBe 32 i.internalKey ++ toBe 32 sibling)

/-- The proof of a leaf. -/
def controlBlock (i : SpendInfo) (script : List UInt8) : Option (List UInt8) :=
  if script = i.success then some (i.controlBytes (B.leafHash i.refund))
  else if script = i.refund then some (i.controlBytes (B.leafHash i.success))
  else none

end SpendInfo

/-- `contract_spend_info`; two leaves of depth one cannot fail. -/
def contractSpendInfo (B : Bitcoin n m P Q) (c : SwapTaprootContract) : Except Error SpendInfo := do
  c.validateContract B
  let internalKey ← c.numsInternalKey B
  return SpendInfo.finalize B internalKey c.successScript c.refundScript

/-- `safe_lock_script_pubkey`. -/
def safeLockScriptPubkey (B : Bitcoin n m P Q) (c : SwapTaprootContract) :
    Except Error (List UInt8) := do
  let info ← contractSpendInfo B c
  return info.scriptPubkey

/-! ## Spending a leaf -/

/-- Which leaf. -/
inductive SpendPath
  | claim
  | refund
deriving DecidableEq

namespace SwapTaprootContract

/-- The leaf's script. -/
def script (c : SwapTaprootContract) : SpendPath → List UInt8
  | .claim => c.successScript
  | .refund => c.refundScript

/-- Alice's key in it. -/
def aliceKey (c : SwapTaprootContract) : SpendPath → ℕ
  | .claim => c.aliceClaimPubkey
  | .refund => c.aliceRefundPubkey

/-- Bob's key in it. -/
def bobKey (c : SwapTaprootContract) : SpendPath → ℕ
  | .claim => c.bobClaimPubkey
  | .refund => c.bobRefundPubkey

end SwapTaprootContract

/-- What a signature of the input commits to. -/
def Transaction.sighashData (tx : Transaction) (prevouts : List TxOut) (index : ℕ)
    (annex : Option (List UInt8)) (leaf : List UInt8) (hashType : ℕ) : SighashData where
  hashType
  version := tx.version
  lockTime := tx.lockTime
  inputs := tx.input.map fun i => (i.previousOutput, i.sequence)
  outputs := tx.output
  prevouts
  inputIndex := index
  annex
  leaf

/-- BIP-340 verification under an x-only key. -/
def verifySchnorr (B : Bitcoin n m P Q) [DecidableEq P] (σ : Signature) (msg key : ℕ) : Bool :=
  match B.btc.lift key with
  | none => false
  | some X => decide (B.btc.Valid (B.challenge σ.r key msg : ZMod n) X σ.r σ.s)

/-- The explicit hash types of BIP-341. -/
def explicitHashTypes : List UInt8 := [0x01, 0x02, 0x03, 0x81, 0x82, 0x83]

/-- A signature of 64 bytes for the default hash type, or of 65. -/
def SignatureAccepted (B : Bitcoin n m P Q) [DecidableEq P] (key : ℕ) (data : ℕ → SighashData)
    (bytes : List UInt8) : Prop :=
  (∃ σ : Signature, bytes = σ.bytes ∧ verifySchnorr B σ (B.sighash (data 0)) key = true) ∨
    ∃ (σ : Signature) (h : UInt8), bytes = σ.bytes ++ [h] ∧ h ∈ explicitHashTypes ∧
      verifySchnorr B σ (B.sighash (data h.toNat)) key = true

/-- `OP_CSV`: version 2, and a sequence without flags (bits 31 and 22) that counts enough blocks. -/
def CsvMet (tx : Transaction) (sequence : UInt32) (blocks : UInt16) : Prop :=
  2 ≤ tx.version ∧ sequence.toNat / 2 ^ 31 = 0 ∧ sequence.toNat / 2 ^ 22 % 2 = 0 ∧
    blocks.toNat ≤ sequence.toNat % 2 ^ 16

/-- An input spends the output through a leaf of the contract. -/
structure SpendsLeaf (B : Bitcoin n m P Q) [DecidableEq P] (c : SwapTaprootContract)
    (path : SpendPath) (outpoint : OutPoint) (output : TxOut) (tx : Transaction)
    (prevouts : List TxOut) (index : ℕ) (annex : Option (List UInt8))
    (bob alice : List UInt8) : Prop where
  /-- The other inputs spend some outputs of their own. -/
  length_prevouts : prevouts.length = tx.input.length
  prevout : prevouts[index]? = some output
  annexTag : ∀ a ∈ annex, a.head? = some 0x50
  input : ∃ info control sequence, contractSpendInfo B c = .ok info ∧
    info.controlBlock B (c.script path) = some control ∧
    tx.input[index]? = some ⟨outpoint, [], sequence,
      [bob, alice, c.script path, control] ++ annex.toList⟩ ∧
    (path = .refund → CsvMet tx sequence c.refundCsvBlocks)
  bobSigned : SignatureAccepted B (c.bobKey path)
    (tx.sighashData prevouts index annex (c.script path)) bob
  aliceSigned : SignatureAccepted B (c.aliceKey path)
    (tx.sighashData prevouts index annex (c.script path)) alice

end CoinCync.AtomicSwap

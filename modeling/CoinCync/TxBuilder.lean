import CoinCync.WalletScan

/-!
# Building a transaction

`TransactionBuilder`: inputs with their rings, payments, the change and dummy outputs, and `build`, which
checks that the amounts balance in exact arithmetic before it signs. Random scalars are arguments.
-/

namespace CoinCync.Wallet

open Check

open MachineInt (checkedAdd checkedSum)

/-- `MAX_TX_INPUTS`. -/
def maxTxInputs : ℕ := 256

/-- `MAX_TX_OUTPUTS`. -/
def maxTxOutputs : ℕ := 16

/-- `MIN_OUTPUT_AMOUNT`. -/
def minOutputAmount : ℕ := 1000000

/-- `Recipient`. -/
structure Recipient where
  spendPublic : PublicKey
  viewPublic : PublicKey
  amount : ℕ
  lockHeight : Option ℕ
deriving DecidableEq

/-- An output under construction with its transaction secret. -/
structure OutputBuilder (F : Type) where
  stealthAddress : StealthAddress
  amount : ℕ
  commitment : PublicKey
  blinding : F
  encryptedAmount : List UInt8
  viewTag : UInt8
  lockHeight : Option ℕ
  recipientViewPublic : Option PublicKey
  txSecret : SecretKey

/-- An input under construction. -/
structure InputBuilder (F : Type) where
  realIndex : ℕ
  ring : List RingMember
  oneTimeSecret : SecretKey
  amount : ℕ
  blinding : F

/-- `TransactionBuilder`. -/
structure TransactionBuilder (F : Type) where
  txType : TxType
  inputs : List (InputBuilder F)
  outputs : List (OutputBuilder F)
  fee : ℕ
  targetHeight : ℕ
  memo : Option (List UInt8)
  extra : List UInt8
  paymentId : Option (List UInt8)
  txVersion : ℕ
  valueBalance : ℤ

/-- Why nothing is built. -/
inductive BuildError
  | key (e : KeyError)
  | crypto (message : String)
  | invalidRingSize (expected got : ℕ)
  | invalidInputCount (count max : ℕ)
  | invalidOutputCount (count max : ℕ)
  | outputTooSmall (amount min : ℕ)
  | amountOverflow
  | unbalanced (inputs outputs : ℕ)
  | memo
  | rangeProof
  | signature
deriving DecidableEq

/-- Proof systems and ciphers, with their randomness. -/
structure BuildEnv (F : Type) where
  encryptMemo : List UInt8 → SecretKey → PublicKey → Option (List UInt8)
  rangeProof : List ℕ → List F → ℕ → Option CoinCync.Bytes
  /-- Of the transaction without its signatures. -/
  signingHash : Transaction → Hash
  /-- Message, ring, position, secret, difference of the blindings and pseudo-output. -/
  signClsag : Hash → List RingMember → ℕ → SecretKey → F → PublicKey → Option CoinCync.Bytes

/-- `V2_TX_ACTIVATION_HEIGHT`. -/
def v2TxActivationHeight : ℕ := 50000

/-- `block_version_at_height`. -/
def blockVersionAtHeight (height : ℕ) : ℕ := if v2TxActivationHeight ≤ height then 2 else 1

/-- `TransactionBuilder::transfer`. -/
def TransactionBuilder.transfer (F : Type) : TransactionBuilder F where
  txType := .transfer
  inputs := []
  outputs := []
  fee := 0
  targetHeight := 0
  memo := none
  extra := []
  paymentId := none
  txVersion := 1
  valueBalance := 0

/-- The output of the transaction. -/
def OutputBuilder.txOutput {F : Type} (o : OutputBuilder F) (memo : List UInt8) : TxOutput where
  stealthAddress := o.stealthAddress.publicKey
  txPublicKey := o.stealthAddress.txPublicKey
  commitment := o.commitment
  encryptedAmount := o.encryptedAmount
  viewTag := o.viewTag
  lockHeight := o.lockHeight
  encryptedMemo := memo

namespace TransactionBuilder

section Parts

variable {F : Type} (b : TransactionBuilder F)

/-- `with_target_height`. -/
def withTargetHeight (height : ℕ) : TransactionBuilder F :=
  { b with targetHeight := height, txVersion := blockVersionAtHeight height }

/-- `set_fee`. -/
def setFee (fee : ℕ) : TransactionBuilder F := { b with fee }

/-- More inputs. -/
def appendInputs (inputs : List (InputBuilder F)) : TransactionBuilder F :=
  { b with inputs := b.inputs ++ inputs }

/-- More outputs. -/
def appendOutputs (outputs : List (OutputBuilder F)) : TransactionBuilder F :=
  { b with outputs := b.outputs ++ outputs }

@[simp] lemma appendInputs_nil : b.appendInputs [] = b := by simp [appendInputs]

@[simp] lemma appendOutputs_nil : b.appendOutputs [] = b := by simp [appendOutputs]

@[simp] lemma appendInputs_appendInputs (l m : List (InputBuilder F)) :
    (b.appendInputs l).appendInputs m = b.appendInputs (l ++ m) := by simp [appendInputs]

@[simp] lemma appendOutputs_appendOutputs (l m : List (OutputBuilder F)) :
    (b.appendOutputs l).appendOutputs m = b.appendOutputs (l ++ m) := by simp [appendOutputs]

@[simp] lemma outputs_appendOutputs (l : List (OutputBuilder F)) :
    (b.appendOutputs l).outputs = b.outputs ++ l := rfl

end Parts

variable {F G : Type} [CommRing F] [AddCommGroup G] [Module F G] (C : Curve F G) (B : BuildEnv F)
  (b : TransactionBuilder F)

/-! ## Inputs -/

/-- Both parts of a ring member decode to points. -/
def checkRingMember (kind : String) (m : RingMember) : Except BuildError Unit := do
  require (C.decompress m.publicKey).isSome (.crypto ("invalid " ++ kind ++ " public key point"))
  require (C.decompress m.commitment).isSome (.crypto ("invalid " ++ kind ++ " commitment point"))

/-- `add_input_at_position`. -/
def addInputAtPosition (input : SpendableInput F) (decoys : List RingMember) (realPosition : ℕ) :
    Except BuildError (TransactionBuilder F) := do
  let ringSize := decoys.length + 1
  require (2 ≤ ringSize) (.invalidRingSize 2 ringSize)
  require (realPosition < ringSize) (.invalidRingSize ringSize (realPosition + 1))
  let real : RingMember := ⟨C.publicKey input.oneTimeSecret, C.commit input.amount input.blinding⟩
  let ring := decoys.insertIdx realPosition real
  forIdx ring fun i m => checkRingMember C (if i = realPosition then "real" else "decoy") m
  let entry : InputBuilder F :=
    ⟨realPosition, ring, input.oneTimeSecret, input.amount, input.blinding⟩
  return b.appendInputs [entry]

/-! ## Outputs -/

/-- A recipient's output, given the stealth address. -/
def recipientOutput (recipient : Recipient) (index : ℕ) (stealth : StealthAddress)
    (txSecret : SecretKey) (viewPoint : G) : OutputBuilder F :=
  -- the recipient derives the same blinding from the shared secret
  let blinding := C.blinding (C.sharedSecret (C.fromBytes txSecret • viewPoint) index)
  { stealthAddress := stealth
    amount := recipient.amount
    commitment := C.commit recipient.amount blinding
    blinding
    encryptedAmount := C.encryptAmount recipient.amount txSecret recipient.viewPublic index
    viewTag := C.senderViewTag txSecret recipient.viewPublic index
    lockHeight := recipient.lockHeight
    recipientViewPublic := some recipient.viewPublic
    txSecret }

/-- `add_output_ext`. -/
def addOutputExt (recipient : Recipient) (index : ℕ) (isSubaddress : Bool) (r : F) :
    Except BuildError (TransactionBuilder F) := do
  require (b.outputs.length < maxTxOutputs)
    (.invalidOutputCount (b.outputs.length + 1) maxTxOutputs)
  require (minOutputAmount ≤ recipient.amount)
    (.outputTooSmall recipient.amount minOutputAmount)
  let stealth ← (C.generateStealthAddressCheckedExt recipient.spendPublic recipient.viewPublic index
    isSubaddress r).mapError .key
  let viewPoint ← fromSome (C.decompress recipient.viewPublic)
    (.crypto "invalid recipient view public key for blinding derivation")
  return b.appendOutputs [recipientOutput C recipient index stealth.1 stealth.2 viewPoint]

/-- `add_change`. -/
def addChange (spendPublic viewPublic : PublicKey) (amount index : ℕ) (r : F) :
    Except BuildError (TransactionBuilder F) :=
  addOutputExt C b ⟨spendPublic, viewPublic, amount, none⟩ index false r

/-- The random values of a dummy output. -/
structure DummyDraw (F : Type) where
  spendSecret : SecretKey
  viewSecret : SecretKey
  txSecret : F
  blinding : F

/-- A dummy output once the stealth address is there. -/
def dummyOutput (draw : DummyDraw F) (index : ℕ) (stealth : StealthAddress) (txSecret : SecretKey) :
    OutputBuilder F where
  stealthAddress := stealth
  amount := 0
  commitment := C.commit 0 draw.blinding
  blinding := draw.blinding
  encryptedAmount := C.encryptAmount 0 txSecret (C.publicKey draw.viewSecret) index
  viewTag := C.senderViewTag txSecret (C.publicKey draw.viewSecret) index
  lockHeight := none
  recipientViewPublic := none
  txSecret := txSecret

/-- At the limit of outputs it adds nothing. -/
def addDummyOutput (draw : DummyDraw F) : Except BuildError (TransactionBuilder F) :=
  if maxTxOutputs ≤ b.outputs.length then .ok b
  else do
    let index := b.outputs.length
    let stealth ← (C.generateStealthAddressCheckedExt (C.publicKey draw.spendSecret)
      (C.publicKey draw.viewSecret) index false draw.txSecret).mapError .key
    return b.appendOutputs [dummyOutput C draw index stealth.1 stealth.2]

/-! ## Building -/

/-- The first output with a recipient, for memo and payment id. -/
def firstRecipient : Option (ℕ × SecretKey × PublicKey) :=
  b.outputs.zipIdx.findSome? fun entry =>
    entry.1.recipientViewPublic.map fun viewPublic => (entry.2, entry.1.txSecret, viewPublic)

/-- The encrypted memo and the output that carries it. -/
def encryptedMemo : Except BuildError (Option (ℕ × List UInt8)) :=
  match b.memo, b.firstRecipient with
  | some memo, some (index, txSecret, viewPublic) => do
    let encrypted ← fromSome (B.encryptMemo memo txSecret viewPublic) .memo
    return some (index, encrypted)
  | _, _ => .ok none

/-- `payment_id::encode_extra`. -/
def encodeExtra (encrypted : List UInt8) : List UInt8 :=
  0x9D :: UInt8.ofNat encrypted.length :: encrypted

/-- The extra bytes, then the encrypted payment id. -/
def fullExtra : Except BuildError (List UInt8) :=
  match b.paymentId, b.firstRecipient with
  | some paymentId, some (_, txSecret, viewPublic) => do
    let encrypted ← fromSome (B.encryptMemo paymentId txSecret viewPublic) .memo
    return b.extra ++ encodeExtra encrypted
  | _, _ => .ok b.extra

/-- The memo at an output. -/
def memoAt (memo : Option (ℕ × List UInt8)) (index : ℕ) : List UInt8 :=
  match memo with
  | some (carrier, encrypted) => if carrier = index then encrypted else []
  | none => []

/-- The outputs of the transaction. -/
def txOutputs (memo : Option (ℕ × List UInt8)) : List TxOutput :=
  b.outputs.mapIdx fun index o => o.txOutput (memoAt memo index)

/-- Random blindings, and a last one that makes up the outputs' sum. -/
def pseudoBlindings (draws : ℕ → F) : List F :=
  match b.inputs.length with
  | 0 => []
  | n + 1 =>
    let random := (List.range n).map draws
    random ++ [(b.outputs.map (·.blinding)).sum - random.sum]

/-- An input unsigned, as the signing hash covers it. -/
def unsignedInput (entry : InputBuilder F × F) : TxInput where
  keyImage := C.keyImage entry.1.oneTimeSecret
  ringMembers := entry.1.ring
  signature := 0
  pseudoOutputCommitment := C.commit entry.1.amount entry.2

/-- One input. -/
def signInput (message : Hash) (entry : InputBuilder F × F) : Except BuildError TxInput := do
  let unsigned := unsignedInput C entry
  require (C.decompress unsigned.pseudoOutputCommitment).isSome
    (.crypto "invalid pseudo-output commitment")
  let signature ← fromSome (B.signClsag message entry.1.ring entry.1.realIndex
    entry.1.oneTimeSecret (entry.1.blinding - entry.2) unsigned.pseudoOutputCommitment) .signature
  return { unsigned with signature }

/-- What comes in. -/
def inputSum : ℕ := (b.inputs.map (·.amount)).sum

/-- What goes out. -/
def outputSum : ℕ := (b.outputs.map (·.amount)).sum

/-- The exact balance check of `build_with_signer`. -/
def checkBalance : Except BuildError Unit := do
  let inputSum ← fromSome (checkedSum 64 (b.inputs.map (·.amount))) .amountOverflow
  let outputSum ← fromSome (checkedSum 64 (b.outputs.map (·.amount))) .amountOverflow
  let outputsPlusFee ← fromSome (checkedAdd 64 outputSum b.fee) .amountOverflow
  require ((inputSum : ℤ) + b.valueBalance = outputsPlusFee)
    (.unbalanced inputSum outputsPlusFee)

/-- `build_with_signer` with the signer of the process. -/
def build (draws : ℕ → F) : Except BuildError Transaction := do
  require (b.txType = .coinbase ∨ b.inputs.isEmpty = false) (.invalidInputCount 0 maxTxInputs)
  require (b.outputs.isEmpty = false) (.invalidOutputCount 0 maxTxOutputs)
  b.checkBalance
  let memo ← b.encryptedMemo B
  let extra ← b.fullExtra B
  let rangeProof ← fromSome
    (B.rangeProof (b.outputs.map (·.amount)) (b.outputs.map (·.blinding)) b.targetHeight) .rangeProof
  let entries := b.inputs.zip (b.pseudoBlindings draws)
  let unsigned : Transaction :=
    { version := b.txVersion
      txType := b.txType
      inputs := entries.map (unsignedInput C)
      outputs := b.txOutputs memo
      fee := b.fee
      rangeProof
      extra }
  let inputs ← entries.mapM (signInput C B (B.signingHash unsigned))
  return { unsigned with inputs }

/-! ## What the operations leave -/

variable {C B b}

/-- What an accepted input appends. -/
lemma addInputAtPosition_eq_ok (h : addInputAtPosition C b input decoys realPosition = .ok b') :
    ∃ entry : InputBuilder F, b' = b.appendInputs [entry] ∧
      entry.amount = input.amount ∧ entry.oneTimeSecret = input.oneTimeSecret := by
  simp only [addInputAtPosition, seq_eq_ok] at h
  obtain ⟨-, -, -, h⟩ := h
  cases h
  exact ⟨_, rfl, rfl, rfl⟩

/-- What an accepted dummy appends. -/
lemma addDummyOutput_eq_ok (h : addDummyOutput C b draw = .ok b') :
    b' = b ∨ ∃ stealth,
      C.generateStealthAddressCheckedExt (C.publicKey draw.spendSecret) (C.publicKey draw.viewSecret)
        b.outputs.length false draw.txSecret = .ok stealth ∧
      b' = b.appendOutputs [dummyOutput C draw b.outputs.length stealth.1 stealth.2] := by
  unfold addDummyOutput at h
  split_ifs at h
  · exact .inl (Except.ok.inj h).symm
  · obtain ⟨stealth, hstealth, h⟩ := bind_eq_ok.mp h
    exact .inr ⟨stealth, mapError_eq_ok.mp hstealth, (Except.ok.inj h).symm⟩

omit [CommRing F] in
lemma checkBalance_eq_ok :
    b.checkBalance = .ok u ↔
      b.inputSum < 2 ^ 64 ∧ b.outputSum + b.fee < 2 ^ 64 ∧
      (b.inputSum : ℤ) + b.valueBalance = b.outputSum + b.fee := by
  unfold checkBalance inputSum outputSum
  simp only [bind_eq_ok, fromSome_eq_ok, require_eq_ok,
    MachineInt.checkedSum_eq_some, MachineInt.checkedAdd_eq_some]
  constructor
  · rintro ⟨_, ⟨hin, rfl⟩, _, ⟨-, rfl⟩, _, ⟨hsum, rfl⟩, hbalance⟩
    exact ⟨hin, hsum, hbalance⟩
  · rintro ⟨hin, hsum, hbalance⟩
    exact ⟨_, ⟨hin, rfl⟩, _, ⟨by omega, rfl⟩, _, ⟨hsum, rfl⟩, hbalance⟩

lemma length_pseudoBlindings (draws : ℕ → F) :
    (b.pseudoBlindings draws).length = b.inputs.length := by
  unfold pseudoBlindings
  split <;> simp_all

lemma signInput_eq_ok (h : signInput C B message entry = .ok input) :
    ∃ signature, input = { unsignedInput C entry with signature } := by
  simp only [signInput, seq_eq_ok] at h
  obtain ⟨signature, -, h⟩ := bind_eq_ok.mp h.2
  exact ⟨signature, (Except.ok.inj h).symm⟩

/-- What a built transaction has from its builder. -/
structure Built (C : Curve F G) (b : TransactionBuilder F) (tx : Transaction) : Prop where
  txType_eq : tx.txType = b.txType
  fee_eq : tx.fee = b.fee
  keyImages_eq : tx.inputs.map (·.keyImage) = b.inputs.map fun input => C.keyImage input.oneTimeSecret
  outputs_eq : ∃ memo, tx.outputs = b.txOutputs memo
  outputs_fit : b.outputSum + b.fee < 2 ^ 64
  balance : (b.inputSum : ℤ) + b.valueBalance = b.outputSum + b.fee

/-- A transaction that was built. -/
lemma built_of_build (h : build C B b draws = .ok tx) : Built C b tx := by
  simp only [build, seq_eq_ok] at h
  obtain ⟨-, -, hbalance, h⟩ := h
  obtain ⟨memo, -, h⟩ := bind_eq_ok.mp h
  obtain ⟨extra, -, h⟩ := bind_eq_ok.mp h
  obtain ⟨rangeProof, -, h⟩ := bind_eq_ok.mp h
  obtain ⟨inputs, hinputs, h⟩ := bind_eq_ok.mp h
  cases h
  obtain ⟨-, hfit, hsum⟩ := checkBalance_eq_ok.mp hbalance
  refine ⟨rfl, rfl, ?_, ⟨memo, rfl⟩, hfit, hsum⟩
  -- signing leaves the key image, and every input has its own blinding
  have himages := map_eq_of_mapM hinputs (g := fun input : TxInput => input.keyImage)
    (by
      intro entry input hinput
      obtain ⟨signature, rfl⟩ := signInput_eq_ok hinput
      rfl)
  have hfst : (b.inputs.zip (b.pseudoBlindings draws)).map Prod.fst = b.inputs :=
    List.map_fst_zip (length_pseudoBlindings draws).ge
  calc inputs.map (·.keyImage)
      = (b.inputs.zip (b.pseudoBlindings draws)).map fun entry => C.keyImage entry.1.oneTimeSecret :=
        himages
    _ = ((b.inputs.zip (b.pseudoBlindings draws)).map Prod.fst).map
          fun input => C.keyImage input.oneTimeSecret := by rw [List.map_map]; rfl
    _ = b.inputs.map fun input => C.keyImage input.oneTimeSecret := by rw [hfst]

end TransactionBuilder

end CoinCync.Wallet

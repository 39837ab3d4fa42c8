import CoinCync.WalletBalance

/-!
# Scanning for the outputs of a wallet

`WalletScanner`: `scanOutput` tries the key sets in turn, on the public amount of a coinbase or unshield
output or on the hidden amount of any other; `scanTransaction` and `scanBlock` go over the outputs and
fill in where an output stands on the chain. Whatever is found can be spent: the secret that
`prepareInput` derives belongs to the address on the chain.
-/

namespace CoinCync.Wallet

/-! ## Transactions as the wallet reads them -/

/-- A member of a ring. -/
structure RingMember where
  publicKey : PublicKey
  commitment : PublicKey
deriving DecidableEq

/-- An input. -/
structure TxInput where
  keyImage : KeyImage
  ringMembers : List RingMember
  signature : CoinCync.Bytes
  pseudoOutputCommitment : PublicKey
deriving DecidableEq

/-- An output. -/
structure TxOutput where
  stealthAddress : PublicKey
  txPublicKey : PublicKey
  commitment : PublicKey
  encryptedAmount : List UInt8
  viewTag : UInt8
  lockHeight : Option ℕ
  encryptedMemo : List UInt8
deriving DecidableEq

/-- A transaction. -/
structure Transaction where
  version : ℕ
  txType : TxType
  inputs : List TxInput
  outputs : List TxOutput
  fee : ℕ
  rangeProof : CoinCync.Bytes
  extra : List UInt8
deriving DecidableEq

/-- Public amounts: a coinbase, or shielded without inputs. -/
def Transaction.isRevealed (tx : Transaction) : Bool :=
  tx.txType = .coinbase || (tx.txType = .shielded && tx.inputs.isEmpty)

/-- A header. -/
structure BlockHeader where
  height : ℕ
  prevHash : Hash
  timestamp : ℕ
deriving DecidableEq

/-- A block. -/
structure Block where
  header : BlockHeader
  transactions : List Transaction
deriving DecidableEq

/-- Its height. -/
def Block.height (b : Block) : ℕ := b.header.height

/-- Digests, and the decryption of a memo. -/
structure ScanEnv where
  txHash : Transaction → Hash
  blockHash : BlockHeader → Hash
  decryptMemo : List UInt8 → SecretKey → PublicKey → Option (List UInt8)

/-- The search of `find_encrypted`, past recovery entries. -/
def findEncryptedFrom : ℕ → List UInt8 → Option (List UInt8)
  | 0, _ | _, [] => none
  | fuel + 1, tag :: rest =>
    if tag = 0x9D then
      match rest with
      | [] => none
      | len :: value => if value.length < len.toNat then none else some (value.take len.toNat)
    else if tag = 0xDE ∧ 41 ≤ rest.length then findEncryptedFrom fuel (rest.drop 41)
    else findEncryptedFrom fuel rest

/-- `payment_id::find_encrypted`. -/
def findEncrypted (extra : List UInt8) : Option (List UInt8) := findEncryptedFrom extra.length extra

/-- `PAYMENT_ID_LEN`. -/
def paymentIdLen : ℕ := 8

/-! ## The position of an output -/

/-- The order of a transaction hash and an index. -/
def UtxoKey.lt (a b : UtxoKey) : Bool := a.1 < b.1 || (a.1 = b.1 && a.2 < b.2)

/-- `canonical_output_locators`: the place of a key in its block. -/
def canonicalOutputLocators (height : ℕ) (keys : List UtxoKey) (key : UtxoKey) : Option OutputLocator :=
  if key ∈ keys then some ⟨height, (keys.dedup.filter fun k => UtxoKey.lt k key).length % 2 ^ 32⟩
  else none

/-! ## The scanner -/

/-- One key set. -/
structure ScanKeys where
  viewSecret : SecretKey
  spendPublic : PublicKey
  epoch : ℕ
  /-- Account, index and spend key. -/
  subaddressKeys : List (ℕ × ℕ × PublicKey)
deriving DecidableEq

/-- `DecryptedOutput`. -/
structure DecryptedOutput (F : Type) where
  txHash : Hash
  outputIndex : ℕ
  outputLocator : Option OutputLocator
  output : TxOutput
  amount : ℕ
  blindingFactor : F
  sharedSecret : Hash
  keyEpoch : ℕ
  subaddressIndex : Option (ℕ × ℕ)
  paymentId : Option (List UInt8)
deriving DecidableEq

variable {F G : Type} [CommRing F] [AddCommGroup G] [Module F G] (C : Curve F G)
variable {output : TxOutput} {which : Option (ℕ × ℕ)} {index : ℕ} {stealth : StealthAddress}
  {locator : OutputLocator} {txHash : Hash}

/-- An output of ours with a public amount. -/
def revealedOutput (keys : ScanKeys) (output : TxOutput) (index : ℕ) (txHash : Hash) :
    Option (DecryptedOutput F) :=
  let amount := Curve.plainAmount output.encryptedAmount
  if C.commit amount 0 ≠ output.commitment then none
  else some
    { txHash
      outputIndex := index
      outputLocator := none
      output
      amount
      blindingFactor := 0
      sharedSecret := 0
      keyEpoch := keys.epoch
      subaddressIndex := none
      paymentId := none }

/-- The coinbase path of `scan_output`, old and new format. -/
def scanRevealed (keys : ScanKeys) (output : TxOutput) (index : ℕ) (txHash : Hash) :
    Option (DecryptedOutput F) :=
  if output.stealthAddress = keys.spendPublic then revealedOutput C keys output index txHash
  else if C.isOutputOurs ⟨output.stealthAddress, output.txPublicKey⟩ keys.viewSecret keys.spendPublic
      index then
    revealedOutput C keys output index txHash
  else none

/-- The address an output was sent to; `some none` is the main one. -/
def matchedAddress (keys : ScanKeys) (stealth : StealthAddress) (index : ℕ) :
    Option (Option (ℕ × ℕ)) :=
  if C.isOutputOurs stealth keys.viewSecret keys.spendPublic index then some none
  else (keys.subaddressKeys.find? fun sub =>
      C.isOutputOurs stealth keys.viewSecret sub.2.2 index).map
    fun sub => some (sub.1, sub.2.1)

/-- An output with a hidden amount, the address known. -/
def confidentialOutput (keys : ScanKeys) (output : TxOutput) (index : ℕ) (txHash : Hash)
    (subaddress : Option (ℕ × ℕ)) : Option (DecryptedOutput F) :=
  let sharedSecret := C.computeSharedSecret keys.viewSecret output.txPublicKey index
  let decrypted := C.decryptAmount output.encryptedAmount sharedSecret
  if C.commit decrypted.1 decrypted.2 ≠ output.commitment then none
  else some
    { txHash
      outputIndex := index
      outputLocator := none
      output
      amount := decrypted.1
      blindingFactor := decrypted.2
      sharedSecret
      keyEpoch := keys.epoch
      subaddressIndex := subaddress
      paymentId := none }

/-- The other path of `scan_output` for one key set. -/
def scanConfidential (keys : ScanKeys) (output : TxOutput) (index : ℕ) (txHash : Hash) :
    Option (DecryptedOutput F) :=
  (matchedAddress C keys ⟨output.stealthAddress, output.txPublicKey⟩ index).bind
    (confidentialOutput C keys output index txHash)

/-- `scan_output`. -/
def scanOutput (keys : List ScanKeys) (output : TxOutput) (index : ℕ) (txHash : Hash)
    (isRevealed : Bool) : Option (DecryptedOutput F) :=
  keys.findSome? fun keySet =>
    if isRevealed then scanRevealed C keySet output index txHash
    else scanConfidential C keySet output index txHash

variable (S : ScanEnv)

/-- The payment id, read with the first found output's channel. -/
def recoverPaymentId (keys : List ScanKeys) (tx : Transaction) (found : List (DecryptedOutput F)) :
    Option (List UInt8) := do
  let first ← found.head?
  let encrypted ← findEncrypted tx.extra
  keys.findSome? fun keySet =>
    (S.decryptMemo encrypted keySet.viewSecret first.output.txPublicKey).filter
      (·.length = paymentIdLen)

/-- What `scan_output` finds in a transaction; indices are bytes. -/
def scanOutputs (keys : List ScanKeys) (tx : Transaction) : List (DecryptedOutput F) :=
  (tx.outputs.take 256).zipIdx.filterMap fun entry =>
    scanOutput C keys entry.1 entry.2 (S.txHash tx) tx.isRevealed

/-- `scan_transaction`. -/
def scanTransaction (keys : List ScanKeys) (tx : Transaction) : List (DecryptedOutput F) :=
  let found := scanOutputs C S keys tx
  match recoverPaymentId S keys tx found with
  | some paymentId => found.map fun d => { d with paymentId := some paymentId }
  | none => found

/-- The keys of a transaction's outputs. -/
def outputKeys (tx : Transaction) : List UtxoKey :=
  (List.range (min tx.outputs.length 256)).map fun i => (S.txHash tx, i)

/-- The positions in a block. -/
def blockLocators (block : Block) : UtxoKey → Option OutputLocator :=
  canonicalOutputLocators block.height (block.transactions.flatMap (outputKeys S))

/-- With its position. -/
def DecryptedOutput.locate (locators : UtxoKey → Option OutputLocator) (d : DecryptedOutput F) :
    DecryptedOutput F :=
  { d with outputLocator := locators (d.txHash, d.outputIndex) }

/-- What a scan finds in one transaction of a block. -/
def scanBlockTransaction (keys : List ScanKeys) (block : Block) (tx : Transaction) :
    List (DecryptedOutput F) :=
  (scanTransaction C S keys tx).map (DecryptedOutput.locate (blockLocators S block))

/-- What `scan_block_with_result` reports. -/
def scanBlock (keys : List ScanKeys) (block : Block) : List (DecryptedOutput F) :=
  block.transactions.flatMap (scanBlockTransaction C S keys block)

/-! ## From an output to an input -/

/-- Why an output cannot be used. -/
inductive WalletError
  | key (e : KeyError)
  | commitmentMismatch (txHash : Hash) (outputIndex : ℕ)
  | missingLocator
deriving DecidableEq

/-- The spend secret for the address an output was sent to. -/
def effectiveSpend (spendSecret viewSecret : SecretKey) : Option (ℕ × ℕ) → SecretKey
  | some (account, index) => C.computeSubaddressSpendSecret spendSecret viewSecret account index
  | none => spendSecret

/-- The balance row of an output with its one-time secret. -/
def DecryptedOutput.utxo (d : DecryptedOutput F) (height : ℕ) (oneTimeSecret : SecretKey) : Utxo where
  txHash := d.txHash
  outputIndex := d.outputIndex
  outputLocator := d.outputLocator
  amount := d.amount
  height := height
  keyImage := C.keyImage oneTimeSecret
  spent := false
  amountBlindingBytes := C.toBytes d.blindingFactor
  txPublicKey := d.output.txPublicKey
  lockHeight := d.output.lockHeight
  subaddressAccount := d.subaddressIndex.map (·.1)
  subaddressIndex := d.subaddressIndex.map (·.2)
  paymentId := d.paymentId
  keyEpoch := d.keyEpoch

/-- `decrypted_to_utxo`. -/
def decryptedToUtxo (decrypted : DecryptedOutput F) (viewSecret spendSecret : SecretKey) (height : ℕ) :
    Except WalletError Utxo := do
  Check.require (C.commit decrypted.amount decrypted.blindingFactor = decrypted.output.commitment)
    (.commitmentMismatch decrypted.txHash decrypted.outputIndex)
  let oneTimeSecret ← (C.computeOneTimeSecret
    ⟨decrypted.output.stealthAddress, decrypted.output.txPublicKey⟩ viewSecret
    (effectiveSpend C spendSecret viewSecret decrypted.subaddressIndex)
    decrypted.outputIndex).mapError .key
  return decrypted.utxo C height oneTimeSecret

/-- The output behind an input, as to be found on the chain. -/
structure RealOutputIdentity where
  locator : OutputLocator
  publicKey : PublicKey
  commitment : PublicKey
deriving DecidableEq

/-- `SpendableInput`. -/
structure SpendableInput (F : Type) where
  txHash : Hash
  outputIndex : ℕ
  amount : ℕ
  oneTimeSecret : SecretKey
  blinding : F
  height : ℕ
deriving DecidableEq

/-- `PreparedInput`. -/
structure PreparedInput (F : Type) where
  input : SpendableInput F
  realOutput : RealOutputIdentity
deriving DecidableEq

/-- The address in the two fields of a row. -/
def Utxo.subaddress (u : Utxo) : Option (ℕ × ℕ) :=
  u.subaddressAccount.bind fun account => u.subaddressIndex.map fun index => (account, index)

/-- The input that spends a row with its one-time secret. -/
def Utxo.input (u : Utxo) (locator : OutputLocator) (oneTimeSecret : SecretKey) : PreparedInput F where
  realOutput :=
    ⟨locator, C.publicKey oneTimeSecret, C.commit u.amount (C.fromBytes u.amountBlindingBytes)⟩
  input :=
    { txHash := u.txHash
      outputIndex := u.outputIndex
      amount := u.amount
      oneTimeSecret
      blinding := C.fromBytes u.amountBlindingBytes
      height := u.height }

/-- `prepare_input`. -/
def prepareInput (utxo : Utxo) (keys : KeyEpoch C) : Except WalletError (PreparedInput F) := do
  let locator ← Check.fromSome utxo.outputLocator .missingLocator
  let oneTimeSecret ← (C.computeOneTimeSecret ⟨utxo.txPublicKey, utxo.txPublicKey⟩ keys.viewSecret
    (effectiveSpend C keys.spendSecret keys.viewSecret utxo.subaddress) utxo.outputIndex).mapError .key
  return utxo.input C locator oneTimeSecret

/-! ## What is found can be spent -/

variable {C} {S}

namespace KeyEpoch

/-- The key set of an epoch. -/
def scanKeys (k : KeyEpoch C) (table : List (ℕ × ℕ × PublicKey)) : ScanKeys :=
  ⟨k.viewSecret, k.spendPublic, k.epoch, table⟩

/-- The subaddress keys are those of the wallet. -/
def Registers (k : KeyEpoch C) (table : List (ℕ × ℕ × PublicKey)) : Prop :=
  ∀ sub ∈ table, sub.2.2 = k.subaddressSpend sub.1 sub.2.1

/-- The spend key of an address. -/
def spendKey (k : KeyEpoch C) (which : Option (ℕ × ℕ)) : PublicKey :=
  C.compress (k.spendScalar which • C.generator)

variable {k : KeyEpoch C} {table : List (ℕ × ℕ × PublicKey)}

lemma fromBytes_effectiveSpend (which : Option (ℕ × ℕ)) :
    C.fromBytes (effectiveSpend C k.spendSecret k.viewSecret which) = k.spendScalar which := by
  cases which with
  | none => rfl
  | some sub => exact k.fromBytes_computeSubaddressSpendSecret sub.1 sub.2

/-- A matched address owns the output. -/
lemma owns_of_matchedAddress (hregisters : k.Registers table)
    (h : matchedAddress C (k.scanKeys table) stealth index = some which) :
    C.isOutputOurs stealth k.viewSecret (k.spendKey which) index = true := by
  unfold matchedAddress at h
  split_ifs at h with hmain
  · cases h
    rwa [spendKey, ← k.spendPublic_eq_compress]
  · obtain ⟨sub, hsub, rfl⟩ := Option.map_eq_some_iff.mp h
    have hours := List.find?_some hsub
    rw [hregisters sub (List.mem_of_find?_eq_some hsub), k.subaddressSpend_eq] at hours
    exact hours

/-- The owner derives the secret of the address. -/
lemma secret_of_owns (h : C.isOutputOurs stealth k.viewSecret (k.spendKey which) index = true) :
    ∃ secret, C.publicKey secret = stealth.publicKey ∧
      ∀ key, C.computeOneTimeSecret ⟨key, stealth.txPublicKey⟩ k.viewSecret
        (effectiveSpend C k.spendSecret k.viewSecret which) index = .ok secret := by
  obtain ⟨txPoint, spendPoint, htx, hspend, hkey⟩ := Curve.isOutputOurs_eq_true.mp h
  have hpoint : spendPoint = k.spendScalar which • C.generator := by
    rw [spendKey, Curve.decompress_compress] at hspend
    exact (Option.some.inj hspend).symm
  refine ⟨C.toBytes (C.hashToScalar (C.compress (C.fromBytes k.viewSecret • txPoint)) index
    + k.spendScalar which), ?_, ?_⟩
  · rw [hkey, Curve.publicKey, C.fromBytes_toBytes, add_smul, hpoint]
    rfl
  · intro key
    rw [Curve.computeOneTimeSecret, htx, fromBytes_effectiveSpend]
    rfl

end KeyEpoch

/-- What is reported fits the commitment. -/
lemma confidentialOutput_eq_some
    (h : confidentialOutput C keys output index txHash which = some d) :
    d.txHash = txHash ∧ d.outputIndex = index ∧ d.output = output ∧ d.subaddressIndex = which ∧
      C.commit d.amount d.blindingFactor = output.commitment := by
  simp only [confidentialOutput, ne_eq] at h
  split_ifs at h with hcommit
  cases h
  exact ⟨rfl, rfl, rfl, rfl, hcommit⟩

/-- What `scan_output` reports of a hidden amount. -/
structure Reports (C : Curve F G) (k : KeyEpoch C) (output : TxOutput) (index : ℕ)
    (d : DecryptedOutput F) : Prop where
  output_eq : d.output = output
  index_eq : d.outputIndex = index
  opens : C.commit d.amount d.blindingFactor = output.commitment
  owns : C.isOutputOurs ⟨output.stealthAddress, output.txPublicKey⟩ k.viewSecret
    (k.spendKey d.subaddressIndex) index = true

lemma reports_of_scanOutput {table : List (ℕ × ℕ × PublicKey)} (hregisters : k.Registers table)
    (h : scanOutput C [k.scanKeys table] output index txHash false = some d) :
    d.txHash = txHash ∧ Reports C k output index d := by
  simp only [scanOutput, List.findSome?_singleton] at h
  obtain ⟨which, hwhich, h⟩ := Option.bind_eq_some_iff.mp h
  obtain ⟨hhash, hindex, houtput, hsub, hcommit⟩ := confidentialOutput_eq_some h
  refine ⟨hhash, houtput, hindex, hcommit, ?_⟩
  rw [hsub]
  exact KeyEpoch.owns_of_matchedAddress hregisters hwhich

lemma subaddress_utxo (d : DecryptedOutput F) (height : ℕ) (secret : SecretKey) :
    (d.utxo C height secret).subaddress = d.subaddressIndex := by
  unfold Utxo.subaddress DecryptedOutput.utxo
  cases d.subaddressIndex <;> rfl

lemma decryptedToUtxo_eq_ok (hcommit : C.commit d.amount d.blindingFactor = d.output.commitment)
    (hsecret : C.computeOneTimeSecret ⟨d.output.stealthAddress, d.output.txPublicKey⟩ viewSecret
      (effectiveSpend C spendSecret viewSecret d.subaddressIndex) d.outputIndex = .ok secret)
    (height : ℕ) :
    decryptedToUtxo C d viewSecret spendSecret height = .ok (d.utxo C height secret) := by
  rw [decryptedToUtxo, (Check.require_eq_ok (u := ())).mpr hcommit, hsecret]
  rfl

/-- A row becomes an input. -/
lemma prepareInput_eq_ok (hlocator : utxo.outputLocator = some locator)
    (hsecret : C.computeOneTimeSecret ⟨utxo.txPublicKey, utxo.txPublicKey⟩ k.viewSecret
      (effectiveSpend C k.spendSecret k.viewSecret utxo.subaddress) utxo.outputIndex = .ok secret) :
    prepareInput C utxo k = .ok (utxo.input C locator secret) := by
  rw [prepareInput, hlocator, hsecret]
  rfl

/-- A reported output becomes an input with its address' secret, by the balance's key image. -/
lemma spends_of_reports (h : Reports C k output index d)
    (hlocator : d.outputLocator = some locator) (height : ℕ) :
    ∃ utxo input, decryptedToUtxo C d k.viewSecret k.spendSecret height = .ok utxo ∧
      prepareInput C utxo k = .ok input ∧
      C.publicKey input.input.oneTimeSecret = output.stealthAddress ∧
      C.keyImage input.input.oneTimeSecret = utxo.keyImage := by
  obtain ⟨secret, hpublic, hsecret⟩ := KeyEpoch.secret_of_owns h.owns
  obtain ⟨rfl, rfl, hopens, -⟩ := h
  refine ⟨d.utxo C height secret, (d.utxo C height secret).input C locator secret,
    decryptedToUtxo_eq_ok hopens (hsecret _) height, prepareInput_eq_ok hlocator ?_, hpublic, rfl⟩
  rw [subaddress_utxo]
  exact hsecret _

lemma outputIndex_scanOutput (h : scanOutput C keys output index txHash isRevealed = some d) :
    d.txHash = txHash ∧ d.outputIndex = index := by
  obtain ⟨keySet, -, h⟩ := List.exists_of_findSome?_eq_some h
  have hrevealed : revealedOutput C keySet output index txHash = some d →
      d.txHash = txHash ∧ d.outputIndex = index := by
    intro h
    simp only [revealedOutput] at h
    split_ifs at h
    cases h
    exact ⟨rfl, rfl⟩
  cases isRevealed with
  | true =>
    simp only [if_true, scanRevealed] at h
    split_ifs at h
    · exact hrevealed h
    · exact hrevealed h
  | false =>
    obtain ⟨which, -, h⟩ := Option.bind_eq_some_iff.mp h
    obtain ⟨hhash, hindex, -⟩ := confidentialOutput_eq_some h
    exact ⟨hhash, hindex⟩

/-- An output with what its block and its transaction add. -/
def DecryptedOutput.complete (locators : UtxoKey → Option OutputLocator)
    (paymentId : Option (List UInt8)) (d : DecryptedOutput F) : DecryptedOutput F :=
  { d with
    outputLocator := locators (d.txHash, d.outputIndex)
    paymentId := paymentId.or d.paymentId }

lemma scanBlockTransaction_eq (keys : List ScanKeys) (block : Block) (tx : Transaction) :
    ∃ paymentId, scanBlockTransaction C S keys block tx =
      (scanOutputs C S keys tx).map (DecryptedOutput.complete (blockLocators S block) paymentId) := by
  refine ⟨recoverPaymentId S keys tx (scanOutputs C S keys tx), ?_⟩
  simp only [scanBlockTransaction, scanTransaction]
  cases recoverPaymentId S keys tx (scanOutputs C S keys tx) with
  | none => rfl
  | some paymentId =>
    rw [List.map_map]
    rfl

/-- What a scan reports at one position. -/
lemma filter_scanBlockTransaction (keys : List ScanKeys) (block : Block) (tx : Transaction)
    (hi : i < 256) :
    ∃ paymentId, (scanBlockTransaction C S keys block tx).filter (fun d => d.outputIndex = i) =
      ((tx.outputs[i]?.bind fun output =>
        scanOutput C keys output i (S.txHash tx) tx.isRevealed).toList).map
          (DecryptedOutput.complete (blockLocators S block) paymentId) := by
  obtain ⟨paymentId, heq⟩ := scanBlockTransaction_eq (C := C) keys block tx
  refine ⟨paymentId, ?_⟩
  have hposition := Check.filter_filterMap_zipIdx
    (f := fun entry => scanOutput C keys entry.1 entry.2 (S.txHash tx) tx.isRevealed)
    (fun entry d h => (outputIndex_scanOutput h).2) (tx.outputs.take 256) 0 i
  rw [zero_add, List.getElem?_take_of_lt hi] at hposition
  rw [heq, List.filter_map, ← hposition]
  rfl

/-- Every output has a position. -/
lemma locator_isSome (htx : tx ∈ block.transactions) (hi : i < tx.outputs.length)
    (hbyte : i < 256) : ∃ locator, blockLocators S block (S.txHash tx, i) = some locator := by
  have hmem : (S.txHash tx, i) ∈ block.transactions.flatMap (outputKeys S) := by
    apply List.mem_flatMap_of_mem htx
    apply List.mem_map_of_mem
    exact List.mem_range.mpr (Nat.lt_min.mpr ⟨hi, hbyte⟩)
  unfold blockLocators canonicalOutputLocators
  rw [if_pos hmem]
  exact ⟨_, rfl⟩

end CoinCync.Wallet

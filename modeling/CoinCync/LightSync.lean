import CoinCync.PaymentFound

/-!
# Light sync

`LightWalletSync` scans digests of blocks, which keep of an output what ownership and amount need and one flag
for the outputs of a coinbase. The same keys are tried as by the full scanner, behind a filter by view tag.
The flag leaves out unshield outputs, whose amount is public too. A batch that is linked gives what one
digest after the other gives, and any other batch changes nothing.
-/

namespace CoinCync.Wallet

open List DecryptedOutput Curve

/-! ## Digests -/

/-- `OutputDigest`. -/
structure OutputDigest where
  txPublicKey : PublicKey
  viewTag : UInt8
  stealthAddress : PublicKey
  commitment : PublicKey
  encryptedAmount : List UInt8
  txHash : Hash
  outputIndex : ℕ
  encryptedPaymentId : List UInt8
  isCoinbase : Bool
deriving DecidableEq

/-- `from_output`. -/
def OutputDigest.fromOutput (output : TxOutput) (txHash : Hash) (outputIndex : ℕ) : OutputDigest where
  txPublicKey := output.txPublicKey
  viewTag := output.viewTag
  stealthAddress := output.stealthAddress
  commitment := output.commitment
  encryptedAmount := output.encryptedAmount
  txHash := txHash
  outputIndex := outputIndex
  encryptedPaymentId := []
  isCoinbase := false

/-- `BlockDigest`. -/
structure BlockDigest where
  height : ℕ
  hash : Hash
  prevHash : Hash
  timestamp : ℕ
  outputCount : ℕ
  outputs : List OutputDigest
deriving DecidableEq

/-- In bytes. -/
def BlockDigest.estimatedSize (digest : BlockDigest) : ℕ := 82 + digest.outputs.length * 147

/-- The digest of one output, with the payment id. -/
def outputDigest (S : ScanEnv) (tx : Transaction) (output : TxOutput) (index : ℕ) : OutputDigest :=
  { OutputDigest.fromOutput output (S.txHash tx) index with
    isCoinbase := tx.txType = .coinbase
    encryptedPaymentId := (findEncrypted tx.extra).getD [] }

/-- The digests of a transaction. -/
def transactionDigests (S : ScanEnv) (tx : Transaction) : List OutputDigest :=
  (tx.outputs.take 256).zipIdx.map fun entry => outputDigest S tx entry.1 entry.2

/-- `from_block`. -/
def BlockDigest.fromBlock (S : ScanEnv) (block : Block) : BlockDigest :=
  let outputs := block.transactions.flatMap (transactionDigests S)
  { height := block.height
    hash := S.blockHash block.header
    prevHash := block.header.prevHash
    timestamp := block.header.timestamp
    outputCount := outputs.length % 2 ^ 16
    outputs }

/-- The output as far as a digest has it. -/
def OutputDigest.txOutput (digest : OutputDigest) : TxOutput where
  stealthAddress := digest.stealthAddress
  txPublicKey := digest.txPublicKey
  commitment := digest.commitment
  encryptedAmount := digest.encryptedAmount
  viewTag := digest.viewTag
  lockHeight := none
  encryptedMemo := []

/-! ## The light scanner -/

/-- `LightSyncStats`. -/
structure LightSyncStats where
  digestsScanned : ℕ
  outputsScanned : ℕ
  viewTagMatches : ℕ
  outputsFound : ℕ
  totalAmount : ℕ
  bytesProcessed : ℕ
  scanTimeMs : ℕ
deriving DecidableEq

/-- `LightWalletSync`. -/
structure LightWalletSync where
  scanKeys : List ScanKeys
  lastScanned : ℕ
  stats : LightSyncStats
deriving DecidableEq

/-- `new`. -/
def LightWalletSync.new (keys : List ScanKeys) : LightWalletSync := ⟨keys, 0, ⟨0, 0, 0, 0, 0, 0, 0⟩⟩

/-- `DigestSequenceError`. -/
inductive DigestSequenceError
  | nonContiguous (expected got : ℕ)
  | brokenLink (height : ℕ)
deriving DecidableEq

/-- `validate_digest_sequence`. -/
def validateDigestSequence : List BlockDigest → Except DigestSequenceError Unit
  | prev :: cur :: rest => do
    Check.require (cur.height = (prev.height + 1) % 2 ^ 64)
      (.nonContiguous ((prev.height + 1) % 2 ^ 64) cur.height)
    Check.require (cur.prevHash = prev.hash) (.brokenLink cur.height)
    validateDigestSequence (cur :: rest)
  | _ => .ok ()

variable {F G : Type} [CommRing F] [AddCommGroup G] [Module F G] (C : Curve F G) (S : ScanEnv)
variable {shared : Transaction → ℕ → G} {block : Block}

/-- A public amount. -/
def detectCoinbaseDigest (digest : OutputDigest) (keys : ScanKeys) : Option (DecryptedOutput F) :=
  let owned := digest.stealthAddress = keys.spendPublic ∨
    C.isOutputOurs ⟨digest.stealthAddress, digest.txPublicKey⟩ keys.viewSecret keys.spendPublic
      digest.outputIndex = true
  if ¬owned then none
  else
    let amount := plainAmount digest.encryptedAmount
    if C.commit amount 0 ≠ digest.commitment then none
    else some
      { txHash := digest.txHash
        outputIndex := digest.outputIndex
        outputLocator := none
        output := digest.txOutput
        amount
        blindingFactor := 0
        sharedSecret := 0
        keyEpoch := keys.epoch
        subaddressIndex := none
        paymentId := none }

/-- The payment id over the channel of this output. -/
def digestPaymentId (digest : OutputDigest) (keys : ScanKeys) : Option (List UInt8) :=
  if digest.encryptedPaymentId.isEmpty then none
  else (S.decryptMemo digest.encryptedPaymentId keys.viewSecret digest.txPublicKey).filter
    (·.length = paymentIdLen)

/-- A hidden amount, once the address is known. -/
def openDigest (digest : OutputDigest) (keys : ScanKeys) (subaddress : Option (ℕ × ℕ)) :
    Option (DecryptedOutput F) :=
  let sharedSecret := C.computeSharedSecret keys.viewSecret digest.txPublicKey digest.outputIndex
  let decrypted := C.decryptAmount digest.encryptedAmount sharedSecret
  if C.commit decrypted.1 decrypted.2 ≠ digest.commitment then none
  else some
    { txHash := digest.txHash
      outputIndex := digest.outputIndex
      outputLocator := none
      output := digest.txOutput
      amount := decrypted.1
      blindingFactor := decrypted.2
      sharedSecret
      keyEpoch := keys.epoch
      subaddressIndex := subaddress
      paymentId := digestPaymentId S digest keys }

/-- One key set of `scan_output_digest_with_keys`. -/
def scanDigestWith (digest : OutputDigest) (keys : ScanKeys) : Option (DecryptedOutput F) :=
  if digest.isCoinbase then detectCoinbaseDigest C digest keys
  else if digest.viewTag ≠ C.computeViewTag keys.viewSecret digest.txPublicKey digest.outputIndex then none
  else (matchedAddress C keys ⟨digest.stealthAddress, digest.txPublicKey⟩ digest.outputIndex).bind
    (openDigest C S digest keys)

/-- `scan_output_digest_with_keys`. -/
def scanOutputDigestWithKeys (digest : OutputDigest) (keys : List ScanKeys) :
    Option (DecryptedOutput F) :=
  keys.findSome? (scanDigestWith C S digest)

/-- The positions in a digest. -/
def digestLocators (digest : BlockDigest) : UtxoKey → Option OutputLocator :=
  canonicalOutputLocators digest.height (digest.outputs.map fun o => (o.txHash, o.outputIndex))

/-- What is found in a digest, with the place on the chain. -/
def foundInDigest (keys : List ScanKeys) (digest : BlockDigest) : List (DecryptedOutput F) :=
  digest.outputs.filterMap fun o =>
    (scanOutputDigestWithKeys C S o keys).map (locate (digestLocators digest))

namespace LightWalletSync

variable (sync : LightWalletSync)

/-- `scan_output_digest`: the same steps over the keys of the scanner. -/
def scanOutputDigest (digest : OutputDigest) : Option (DecryptedOutput F) :=
  scanOutputDigestWithKeys C S digest sync.scanKeys

/-- Some key set passes the filter. -/
def viewTagMatch (digest : OutputDigest) : Bool :=
  sync.scanKeys.any fun keys =>
    digest.viewTag = C.computeViewTag keys.viewSecret digest.txPublicKey digest.outputIndex

/-- `scan_digest`. -/
def scanDigest (digest : BlockDigest) : LightWalletSync × List (DecryptedOutput F) :=
  let found := digest.outputs.filterMap fun o =>
    (sync.scanOutputDigest C S o).map (locate (digestLocators digest))
  ({ sync with
      lastScanned := digest.height
      stats := { sync.stats with
        digestsScanned := (sync.stats.digestsScanned + 1) % 2 ^ 64
        outputsScanned := (sync.stats.outputsScanned + digest.outputs.length) % 2 ^ 64
        viewTagMatches :=
          (sync.stats.viewTagMatches + digest.outputs.countP (sync.viewTagMatch C)) % 2 ^ 64
        outputsFound := (sync.stats.outputsFound + found.length) % 2 ^ 64
        totalAmount := (sync.stats.totalAmount + (found.map (·.amount)).sum) % 2 ^ 128
        bytesProcessed := (sync.stats.bytesProcessed + digest.estimatedSize) % 2 ^ 64 } },
    found)

/-- One digest after the other. -/
def scanDigests : LightWalletSync → List BlockDigest → LightWalletSync × List (DecryptedOutput F)
  | sync, [] => (sync, [])
  | sync, digest :: rest =>
    let first := sync.scanDigest C S digest
    let others := scanDigests first.1 rest
    (others.1, first.2 ++ others.2)

/-- The statistics after a batch of `elapsed` milliseconds. -/
def batchStats (digests : List BlockDigest) (found : List (DecryptedOutput F)) (elapsed : ℕ) :
    LightSyncStats :=
  { sync.stats with
    digestsScanned := (sync.stats.digestsScanned + digests.length) % 2 ^ 64
    outputsScanned := (sync.stats.outputsScanned + (digests.map (·.outputs.length)).sum) % 2 ^ 64
    outputsFound := (sync.stats.outputsFound + found.length) % 2 ^ 64
    totalAmount := (sync.stats.totalAmount + (found.map (·.amount)).sum) % 2 ^ 128
    bytesProcessed := (sync.stats.bytesProcessed + (digests.map (·.estimatedSize)).sum) % 2 ^ 64
    scanTimeMs := (sync.stats.scanTimeMs + elapsed) % 2 ^ 64 }

/-- `scan_digests_parallel`. -/
def scanDigestsParallel (digests : List BlockDigest) (elapsed : ℕ) :
    LightWalletSync × Except DigestSequenceError (List (DecryptedOutput F)) :=
  match validateDigestSequence digests with
  | .error e => (sync, .error e)
  | .ok () =>
    let found := (digests.map (foundInDigest C S sync.scanKeys)).flatten
    ({ sync with
        lastScanned := (digests.getLast?.map (·.height)).getD sync.lastScanned
        stats := sync.batchStats digests found elapsed },
      .ok found)

end LightWalletSync

/-! ## Batches -/

/-- Heights follow each other and the hashes link. -/
def Linked (digests : List BlockDigest) : Prop :=
  digests.IsChain fun prev cur => cur.height = (prev.height + 1) % 2 ^ 64 ∧ cur.prevHash = prev.hash

/-- The check is linkage. -/
lemma validateDigestSequence_eq_ok : validateDigestSequence digests = .ok u ↔ Linked digests := by
  unfold Linked
  induction digests with
  | nil => simp [validateDigestSequence]
  | cons prev rest ih =>
    cases rest with
    | nil => simp [validateDigestSequence]
    | cons cur rest =>
      simp only [validateDigestSequence, Check.seq_eq_ok, Check.require_eq_ok, ih,
        isChain_cons_cons, and_assoc]

variable {C} {S}

namespace LightWalletSync

/-- Scanning in turn depends on the keys only. -/
lemma found_scanDigests (sync : LightWalletSync) (digests : List BlockDigest) :
    (sync.scanDigests C S digests).2
      = (digests.map (foundInDigest C S sync.scanKeys)).flatten := by
  induction digests generalizing sync with
  | nil => rfl
  | cons digest rest ih =>
    exact congrArg (foundInDigest C S sync.scanKeys digest ++ ·) (ih _)

end LightWalletSync

/-! ## Honest blocks -/

variable {keys : List ScanKeys} {ks : ScanKeys} {tx : Transaction} {o : TxOutput} {i : ℕ}

/-- `build_revealed_output` with the random transaction secret. -/
def buildRevealedOutput (C : Curve F G) (spendPub viewPub : PublicKey) (value index : ℕ) (r : F) :
    Except KeyError TxOutput := do
  let stealth ← C.generateStealthAddressCheckedExt spendPub viewPub index false r
  return {
    stealthAddress := stealth.1.publicKey
    txPublicKey := stealth.1.txPublicKey
    commitment := C.commit value 0
    encryptedAmount := Bytes.toLe 8 value
    viewTag := C.senderViewTag stealth.2 viewPub index
    lockHeight := none
    encryptedMemo := [] }

/-- Address, transaction key and view tag are derived for these keys with the scalar `r`, at this
index, over the point `shared`. -/
def MadeFor (C : Curve F G) (spendPub viewPub : PublicKey) (isSubaddress : Bool) (r : F) (index : ℕ)
    (o : TxOutput) (shared : G) : Prop :=
  ∃ stealth viewPoint,
    C.generateStealthAddressCheckedExt spendPub viewPub index isSubaddress r = .ok stealth ∧
    C.decompress viewPub = some viewPoint ∧
    o.stealthAddress = stealth.1.publicKey ∧ o.txPublicKey = stealth.1.txPublicKey ∧
    o.viewTag = C.senderViewTag stealth.2 viewPub index ∧
    shared = C.fromBytes stealth.2 • viewPoint

/-- Some sender made the output over this shared point. -/
def MadeWith (C : Curve F G) (o : TxOutput) (index : ℕ) (shared : G) : Prop :=
  ∃ spendPub viewPub isSubaddress r, MadeFor C spendPub viewPub isSubaddress r index o shared

lemma MadeWith.viewTag_eq {shared : G} (h : MadeWith C o i shared) :
    o.viewTag = C.viewTag shared i := by
  obtain ⟨spendPub, viewPub, isSubaddress, r, stealth, viewPoint, -, hview, -, -, htag, rfl⟩ := h
  rw [htag, senderViewTag, hview]

lemma PaidTo.madeFor {r : F} (h : PaidTo C recipient i isSubaddress r b) (memo : List UInt8) :
    ∃ shared, MadeFor C recipient.spendPublic recipient.viewPublic isSubaddress r i (b.txOutput memo)
      shared := by
  obtain ⟨-, stealth, viewPoint, hstealth, hview, rfl⟩ := h
  exact ⟨_, stealth, viewPoint, hstealth, hview, rfl, rfl, rfl, rfl⟩

lemma IsDummy.madeFor {d : TransactionBuilder.DummyDraw F} (h : IsDummy C i d b)
    (memo : List UInt8) :
    ∃ shared, MadeFor C (C.publicKey d.spendSecret) (C.publicKey d.viewSecret) false d.txSecret i
      (b.txOutput memo) shared := by
  obtain ⟨stealth, hstealth, rfl⟩ := h
  exact ⟨_, stealth, _, hstealth, decompress_compress _, rfl, rfl, rfl, rfl⟩

/-- The number of change outputs of a prepared transaction. -/
def PreparedPrivacyTransaction.changeCount (prepared : PreparedPrivacyTransaction F) : ℕ :=
  if prepared.shape ≠ .uniformDripPair ∧ minOutputAmount ≤ prepared.changeAmount then 1 else 0

/-- Change is one output if large enough and not a drip pair. -/
lemma Change.length_eq {r : F} (h : Change C prepared r change fee) :
    change.length = prepared.changeCount := by
  unfold PreparedPrivacyTransaction.changeCount
  cases h with
  | output o room hshape paid =>
    have hmin : minOutputAmount ≤ prepared.changeAmount := paid.1
    rw [if_pos ⟨hshape, hmin⟩]
    rfl
  | folded h =>
    have hnone : ¬(prepared.shape ≠ .uniformDripPair ∧ minOutputAmount ≤ prepared.changeAmount) := by
      rintro ⟨hshape, hmin⟩
      rcases h with hsmall | ⟨hdrip, -⟩
      · omega
      · exact hshape hdrip
    rw [if_neg hnone]
    rfl

/-- In a transfer that was built, the output at the position of a payment was made for its keys, the
change behind them for the wallet's own, and every further output for the keys of a dummy, each with
the scalar drawn for it and for its own position. -/
theorem madeFor_of_build (h : buildPreparedPrivacyTransaction C B prepared rings draw = .ok tx) :
    (∀ i p, prepared.payments[i]? = some p → ∃ o shared, tx.outputs[i]? = some o ∧
      MadeFor C p.spendPublic p.viewPublic p.isSubaddress (draw.payment i) i o shared) ∧
    (prepared.changeCount = 1 → ∃ o shared, tx.outputs[prepared.payments.length]? = some o ∧
      MadeFor C prepared.spendPublic prepared.viewPublic false draw.change prepared.payments.length o
        shared) ∧
    ∀ i o, tx.outputs[i]? = some o → prepared.payments.length + prepared.changeCount ≤ i →
      ∃ j shared, MadeFor C (C.publicKey (draw.dummy j).spendSecret)
        (C.publicKey (draw.dummy j).viewSecret) false (draw.dummy j).txSecret i o shared := by
  obtain ⟨paid, change, dummies, hassembled⟩ := assembled_of_build h
  have hpaid := hassembled.paid_length
  have hchange := hassembled.change_fee.length_eq
  refine ⟨?_, ?_, ?_⟩
  · intro i p hp
    obtain ⟨hi, -⟩ := List.getElem?_eq_some_iff.mp hp
    have hi' : i < paid.length := hpaid.symm ▸ hi
    have hget : paid[i]? = some paid[i] := getElem?_eq_getElem hi'
    obtain ⟨memo, houtput⟩ := hassembled.output_at (by
      rw [append_assoc, getElem?_append_left hi', hget])
    obtain ⟨shared, hmade⟩ := (hassembled.paid_to i p _ hp hget).madeFor memo
    exact ⟨_, shared, houtput, hmade⟩
  · intro hone
    obtain ⟨o, rfl⟩ := length_eq_one_iff.mp (hchange.trans hone)
    obtain ⟨memo, houtput⟩ := hassembled.output_at (i := prepared.payments.length) (o := o) (by
      rw [← hpaid]
      simp)
    have hfee := hassembled.change_fee
    generalize tx.fee = fee at hfee
    cases hfee with
    | output _ _ _ hmade =>
      obtain ⟨shared, hmade⟩ := hmade.madeFor memo
      exact ⟨_, shared, houtput, hmade⟩
  · intro i o ho hi
    obtain ⟨memo, houtputs⟩ := hassembled.outputs
    rw [houtputs, getElem?_mapIdx, Option.map_eq_some_iff] at ho
    obtain ⟨b, hb, rfl⟩ := ho
    -- behind the payments and the change
    have hback : (paid ++ change).length ≤ i := by rwa [length_append, hpaid, hchange]
    rw [getElem?_append_right hback] at hb
    obtain ⟨j, hdummy⟩ := hassembled.dummies_made _ b hb
    rw [Nat.add_sub_cancel' hback] at hdummy
    exact ⟨j, hdummy.madeFor (memo i)⟩

/-- A payment to a subaddress with scalar 2, and the change with scalar 3. -/
theorem madeFor_of_build_small : ∃ tx o change, buildPreparedPrivacyTransaction Curve.small smallBuild
    smallPrepared (smallRings smallPrepared) smallDraw = .ok tx ∧ tx.outputs[0]? = some o ∧
      tx.outputs[1]? = some change ∧
      (∃ shared, MadeFor Curve.small (smallKeys.subaddressSpend 0 1) (smallKeys.subaddressView 0 1) true 2
        0 o shared) ∧
      ∃ shared, MadeFor Curve.small smallKeys.spendPublic smallKeys.viewPublic false 3 1 change
        shared := by
  have hok : (buildPreparedPrivacyTransaction Curve.small smallBuild smallPrepared
      (smallRings smallPrepared) smallDraw).toBool = true := by decide +kernel
  cases hbuild : buildPreparedPrivacyTransaction Curve.small smallBuild smallPrepared
      (smallRings smallPrepared) smallDraw with
  | error e =>
    rw [hbuild] at hok
    cases hok
  | ok tx =>
    obtain ⟨hpayments, hchange, -⟩ := madeFor_of_build hbuild
    obtain ⟨o, shared, ho, hmade⟩ := hpayments 0 _ rfl
    obtain ⟨change, shared', hc, hmade'⟩ := hchange (by decide)
    exact ⟨tx, o, change, rfl, ho, hc, ⟨shared, hmade⟩, shared', hmade'⟩

/-- The transactions come from the builders: coinbase, unshield with public amounts, or hidden
amounts. -/
def Block.Built (C : Curve F G) (block : Block) (shared : Transaction → ℕ → G) : Prop :=
  ∀ tx ∈ block.transactions, tx.txType ≠ .coinbase → ∀ i o, tx.outputs[i]? = some o →
    if tx.isRevealed then ∃ spendPub viewPub value r, value < 2 ^ 64 ∧
      buildRevealedOutput C spendPub viewPub value i r = .ok o
    else MadeWith C o i (shared tx i)

/-- No key set matches by a coincidence of hashes: hidden amounts only over the shared point of the
sender, and public amounts never as hidden ones. -/
structure NoCoincidence (C : Curve F G) (keys : List ScanKeys) (block : Block)
    (shared : Transaction → ℕ → G) : Prop where
  owned : ∀ tx ∈ block.transactions, tx.isRevealed = false → ∀ i o, tx.outputs[i]? = some o →
    ∀ ks ∈ keys, (matchedAddress C ks ⟨o.stealthAddress, o.txPublicKey⟩ i).isSome →
      ∃ txPoint, C.decompress o.txPublicKey = some txPoint ∧
        C.fromBytes ks.viewSecret • txPoint = shared tx i
  revealed : ∀ tx ∈ block.transactions, tx.isRevealed = true → ∀ i o, tx.outputs[i]? = some o →
    ∀ ks ∈ keys,
      let opened := C.decryptAmount o.encryptedAmount (C.computeSharedSecret ks.viewSecret o.txPublicKey i)
      C.commit opened.1 opened.2 ≠ o.commitment

/-- A main address of the keys owns a public output. -/
def OwnsRevealed (C : Curve F G) (ks : ScanKeys) (o : TxOutput) (i : ℕ) : Prop :=
  o.stealthAddress = ks.spendPublic ∨
    C.isOutputOurs ⟨o.stealthAddress, o.txPublicKey⟩ ks.viewSecret ks.spendPublic i = true

/-- An unshield transaction pays into a main address of the keys. -/
def PaysUnshield (C : Curve F G) (keys : List ScanKeys) (block : Block) : Prop :=
  ∃ tx ∈ block.transactions, (tx.txType = .shielded ∧ tx.inputs = []) ∧
    ∃ i o, i < 256 ∧ tx.outputs[i]? = some o ∧ ∃ ks ∈ keys, OwnsRevealed C ks o i

/-! ## Output by output -/

/-- What the two scanners have to agree on. -/
structure Finding (F : Type) where
  txHash : Hash
  outputIndex : ℕ
  outputLocator : Option OutputLocator
  amount : ℕ
  blindingFactor : F
  keyEpoch : ℕ
  subaddressIndex : Option (ℕ × ℕ)
deriving DecidableEq

/-- The part they agree on. -/
def DecryptedOutput.finding (d : DecryptedOutput F) : Finding F :=
  ⟨d.txHash, d.outputIndex, d.outputLocator, d.amount, d.blindingFactor, d.keyEpoch, d.subaddressIndex⟩

lemma finding_detectCoinbaseDigest (S : ScanEnv) (tx : Transaction) (o : TxOutput) (i : ℕ)
    (ks : ScanKeys) :
    (detectCoinbaseDigest C (outputDigest S tx o i) ks).map finding
      = (scanRevealed C ks o i (S.txHash tx)).map finding := by
  unfold detectCoinbaseDigest scanRevealed revealedOutput
  by_cases hcommit : C.commit (plainAmount o.encryptedAmount) 0 = o.commitment
  · by_cases hold : o.stealthAddress = ks.spendPublic
    · simp [outputDigest, OutputDigest.fromOutput, hold, finding]
    · by_cases hours : C.isOutputOurs ⟨o.stealthAddress, o.txPublicKey⟩ ks.viewSecret ks.spendPublic i
          = true
      · simp [outputDigest, OutputDigest.fromOutput, hours, hcommit, finding]
      · simp [outputDigest, OutputDigest.fromOutput, hold, hours]
  · simp [outputDigest, OutputDigest.fromOutput, hcommit]

lemma finding_openDigest (S : ScanEnv) (tx : Transaction) (o : TxOutput) (i : ℕ) (ks : ScanKeys)
    (which : Option (ℕ × ℕ)) :
    (openDigest C S (outputDigest S tx o i) ks which).map finding
      = (confidentialOutput C ks o i (S.txHash tx) which).map finding := by
  unfold openDigest confidentialOutput
  by_cases hcommit : C.commit (C.decryptAmount o.encryptedAmount (C.computeSharedSecret ks.viewSecret
      o.txPublicKey i)).1 (C.decryptAmount o.encryptedAmount (C.computeSharedSecret ks.viewSecret
      o.txPublicKey i)).2 = o.commitment
  · simp [outputDigest, OutputDigest.fromOutput, hcommit, finding]
  · simp [outputDigest, OutputDigest.fromOutput, hcommit]

omit [CommRing F] in
lemma finding_findSome? {g : ScanKeys → Option (DecryptedOutput F)}
    (h : ∀ ks ∈ keys, (f ks).map finding = (g ks).map finding) :
    (keys.findSome? f).map finding
      = (keys.findSome? g).map finding := by
  rw [map_findSome?, map_findSome?, ← head?_filterMap, ← head?_filterMap]
  exact congrArg head? (filterMap_congr h)

/-- The light scan of an output. -/
def lightAt (C : Curve F G) (S : ScanEnv) (keys : List ScanKeys) (tx : Transaction) (o : TxOutput)
    (i : ℕ) : Option (DecryptedOutput F) :=
  scanOutputDigestWithKeys C S (outputDigest S tx o i) keys

/-- The full scan of an output. -/
def fullAt (C : Curve F G) (S : ScanEnv) (keys : List ScanKeys) (tx : Transaction) (o : TxOutput)
    (i : ℕ) : Option (DecryptedOutput F) :=
  scanOutput C keys o i (S.txHash tx) tx.isRevealed

/-- The outputs of a coinbase are treated alike. -/
lemma lightAt_coinbase (htype : tx.txType = .coinbase) :
    (lightAt C S keys tx o i).map finding
      = (fullAt C S keys tx o i).map finding := by
  apply finding_findSome?
  intro ks _
  have hrevealed : tx.isRevealed = true := by simp [Transaction.isRevealed, htype]
  have hcoinbase : (outputDigest S tx o i).isCoinbase = true := by simp [outputDigest, htype]
  rw [if_pos hrevealed, scanDigestWith, if_pos hcoinbase]
  exact finding_detectCoinbaseDigest S tx o i ks

/-- The view tag of the sender passes every matching key set. -/
lemma lightAt_hidden {shared : G} (htype : tx.txType ≠ .coinbase) (hhidden : tx.isRevealed = false)
    (hmade : MadeWith C o i shared)
    (howned : ∀ ks ∈ keys, (matchedAddress C ks ⟨o.stealthAddress, o.txPublicKey⟩ i).isSome →
      ∃ txPoint, C.decompress o.txPublicKey = some txPoint ∧
        C.fromBytes ks.viewSecret • txPoint = shared) :
    (lightAt C S keys tx o i).map finding
      = (fullAt C S keys tx o i).map finding := by
  apply finding_findSome?
  intro ks hks
  have hcoinbase : ¬(outputDigest S tx o i).isCoinbase = true := by simp [outputDigest, htype]
  rw [scanDigestWith, if_neg hcoinbase, hhidden]
  simp only [scanConfidential]
  show Option.map _ (if o.viewTag ≠ C.computeViewTag ks.viewSecret o.txPublicKey i then none
    else (matchedAddress C ks ⟨o.stealthAddress, o.txPublicKey⟩ i).bind _) = _
  cases hmatched : matchedAddress C ks ⟨o.stealthAddress, o.txPublicKey⟩ i with
  | none => simp
  | some which =>
    obtain ⟨txPoint, htx, hshared⟩ := howned ks hks (by rw [hmatched]; rfl)
    have htag : ¬o.viewTag ≠ C.computeViewTag ks.viewSecret o.txPublicKey i := by
      rw [hmade.viewTag_eq, computeViewTag, htx, ← hshared]
      exact not_not.mpr rfl
    rw [if_neg htag]
    exact finding_openDigest S tx o i ks which

/-- The light scan never finds a public amount outside a coinbase. -/
lemma lightAt_unshield (htype : tx.txType ≠ .coinbase) (hopened : ∀ ks ∈ keys,
      let opened := C.decryptAmount o.encryptedAmount (C.computeSharedSecret ks.viewSecret o.txPublicKey i)
      C.commit opened.1 opened.2 ≠ o.commitment) :
    lightAt C S keys tx o i = none := by
  unfold lightAt scanOutputDigestWithKeys
  rw [findSome?_eq_none_iff]
  intro ks hks
  have hcoinbase : ¬(outputDigest S tx o i).isCoinbase = true := by simp [outputDigest, htype]
  rw [scanDigestWith]
  split_ifs
  · rfl
  · apply Option.bind_eq_none_iff.mpr
    intro which _
    exact if_pos (hopened ks hks)

/-- The full scan finds a public amount iff a main address owns it. -/
lemma fullAt_unshield_eq_none (hvalue : value < 2 ^ 64)
    (hbuilt : buildRevealedOutput C spendPub viewPub value i r = .ok o)
    (hrevealed : tx.isRevealed = true) :
    fullAt C S keys tx o i = none ↔ ∀ ks ∈ keys, ¬OwnsRevealed C ks o i := by
  obtain ⟨stealth, -, h⟩ := Check.bind_eq_ok.mp hbuilt
  have hamount : o.encryptedAmount = Bytes.toLe 8 value := by rw [← Except.ok.inj h]
  have hcommit : o.commitment = C.commit value 0 := by rw [← Except.ok.inj h]
  have hplain : plainAmount o.encryptedAmount = value := by
    rw [plainAmount, hamount, Bytes.length_toLe, if_pos le_rfl, take_of_length_le (by simp),
      Bytes.ofLe_toLe (by simpa using hvalue)]
  unfold fullAt scanOutput
  rw [findSome?_eq_none_iff]
  simp only [hrevealed, if_true, scanRevealed, revealedOutput, hplain, hcommit, OwnsRevealed, ne_eq,
    not_true_eq_false, if_false]
  refine forall₂_congr fun ks _ => ?_
  by_cases hold : o.stealthAddress = ks.spendPublic
  · simp [hold]
  · simp [hold]

/-! ## Blocks -/

/-- The scanned outputs, with transaction and index. -/
def Block.slots (block : Block) : List (Transaction × TxOutput × ℕ) :=
  block.transactions.flatMap fun tx => (tx.outputs.take 256).zipIdx.map fun entry => (tx, entry)

lemma mem_slots {block : Block} :
    (tx, o, i) ∈ block.slots ↔ tx ∈ block.transactions ∧ i < 256 ∧ tx.outputs[i]? = some o := by
  simp only [Block.slots, mem_flatMap, List.mem_map, Prod.mk.injEq, Prod.exists]
  constructor
  · rintro ⟨tx, htx, o, i, hentry, rfl, rfl, rfl⟩
    have hget := mem_zipIdx_iff_getElem?.mp hentry
    rw [getElem?_take] at hget
    split_ifs at hget with hi
    exact ⟨htx, hi, hget⟩
  · rintro ⟨htx, hi, hget⟩
    refine ⟨tx, htx, o, i, mem_zipIdx_iff_getElem?.mpr ?_, rfl, rfl, rfl⟩
    rw [getElem?_take_of_lt hi]
    exact hget

/-- With its position. -/
def Finding.locate (locators : UtxoKey → Option OutputLocator) (f : Finding F) : Finding F :=
  { f with outputLocator := locators (f.txHash, f.outputIndex) }

lemma outputs_fromBlock (S : ScanEnv) (block : Block) :
    (BlockDigest.fromBlock S block).outputs
      = block.slots.map fun slot => outputDigest S slot.1 slot.2.1 slot.2.2 := by
  show block.transactions.flatMap (transactionDigests S) = _
  unfold Block.slots transactionDigests
  rw [map_flatMap]
  simp only [map_map]
  rfl

lemma keys_transactionDigests (S : ScanEnv) (tx : Transaction) :
    (transactionDigests S tx).map (fun o => (o.txHash, o.outputIndex)) = outputKeys S tx := by
  unfold transactionDigests outputKeys
  rw [map_map]
  have hindices : (tx.outputs.take 256).zipIdx.map Prod.snd = range (min tx.outputs.length 256) := by
    rw [zipIdx_map_snd, length_take, Nat.min_comm, range_eq_range']
  rw [← hindices, map_map]
  rfl

lemma digestLocators_fromBlock (S : ScanEnv) (block : Block) :
    digestLocators (BlockDigest.fromBlock S block) = blockLocators S block := by
  have hkeys : (BlockDigest.fromBlock S block).outputs.map (fun o => (o.txHash, o.outputIndex))
      = block.transactions.flatMap (outputKeys S) := by
    show (block.transactions.flatMap (transactionDigests S)).map _ = _
    rw [map_flatMap]
    simp only [keys_transactionDigests]
  unfold digestLocators blockLocators
  rw [hkeys]
  rfl

/-- The light scan of a block. -/
lemma findings_light (keys : List ScanKeys) (block : Block) :
    (foundInDigest C S keys (BlockDigest.fromBlock S block)).map finding
      = block.slots.filterMap fun slot =>
          ((lightAt C S keys slot.1 slot.2.1 slot.2.2).map finding).map
            (Finding.locate (blockLocators S block)) := by
  rw [foundInDigest, outputs_fromBlock, digestLocators_fromBlock, filterMap_map, List.map_filterMap]
  simp only [Function.comp_def, Option.map_map]
  rfl

/-- The full scan of a block. -/
lemma findings_full (keys : List ScanKeys) (block : Block) :
    (scanBlock C S keys block).map finding
      = block.slots.filterMap fun slot =>
          ((fullAt C S keys slot.1 slot.2.1 slot.2.2).map finding).map
            (Finding.locate (blockLocators S block)) := by
  unfold scanBlock Block.slots
  rw [map_flatMap, filterMap_flatMap]
  congr 1
  funext tx
  obtain ⟨paymentId, heq⟩ := scanBlockTransaction_eq (C := C) keys block tx
  rw [heq, filterMap_map, map_map, scanOutputs, List.map_filterMap]
  simp only [Option.map_map]
  rfl

lemma isRevealed_iff (htype : tx.txType ≠ .coinbase) :
    tx.isRevealed = true ↔ tx.txType = .shielded ∧ tx.inputs = [] := by
  simp [Transaction.isRevealed, htype]

/-- The light scan agrees, or misses an unshield output. -/
lemma lightAt_cases {block : Block} {shared : Transaction → ℕ → G} (hbuilt : block.Built C shared)
    (hsound : NoCoincidence C keys block shared) (hslot : (tx, o, i) ∈ block.slots) :
    (lightAt C S keys tx o i).map finding
        = (fullAt C S keys tx o i).map finding ∧
        ¬(tx.txType = .shielded ∧ tx.inputs = []) ∨
      lightAt C S keys tx o i = none ∧ (tx.txType = .shielded ∧ tx.inputs = []) ∧
        (fullAt C S keys tx o i = none ↔ ∀ ks ∈ keys, ¬OwnsRevealed C ks o i) := by
  obtain ⟨htx, hi, hget⟩ := mem_slots.mp hslot
  by_cases htype : tx.txType = .coinbase
  · exact .inl ⟨lightAt_coinbase htype, fun h => by simp [htype] at h⟩
  · have hmade := hbuilt tx htx htype i o hget
    by_cases hrevealed : tx.isRevealed = true
    · rw [if_pos hrevealed] at hmade
      obtain ⟨spendPub, viewPub, value, r, hvalue, houtput⟩ := hmade
      exact .inr ⟨lightAt_unshield htype (hsound.revealed tx htx hrevealed i o hget),
        (isRevealed_iff htype).mp hrevealed, fullAt_unshield_eq_none hvalue houtput hrevealed⟩
    · rw [if_neg hrevealed] at hmade
      have hhidden : tx.isRevealed = false := by simpa using hrevealed
      refine .inl ⟨lightAt_hidden htype hhidden hmade (hsound.owned tx htx hhidden i o hget), ?_⟩
      rwa [← isRevealed_iff htype]

/-- The scans of a block agree iff no unshield pays into a main address. -/
lemma scans_agree_iff {block : Block} {shared : Transaction → ℕ → G} (hbuilt : block.Built C shared)
    (hsound : NoCoincidence C keys block shared) :
    (foundInDigest C S keys (BlockDigest.fromBlock S block)).map finding
      = (scanBlock C S keys block).map finding ↔ ¬PaysUnshield C keys block := by
  rw [findings_light, findings_full, Check.filterMap_eq_filterMap_iff]
  · constructor
    · rintro hagree ⟨tx, htx, hunshield, i, o, hi, hget, ks, hks, howns⟩
      have hslot : (tx, o, i) ∈ block.slots := mem_slots.mpr ⟨htx, hi, hget⟩
      rcases lightAt_cases (S := S) hbuilt hsound hslot with ⟨-, hnot⟩ | ⟨hlight, -, hfull⟩
      · exact hnot hunshield
      · have heq := hagree _ hslot
        simp only [hlight] at heq
        exact hfull.mp (by simpa using heq.symm) ks hks howns
    · rintro hpays ⟨tx, o, i⟩ hslot
      rcases lightAt_cases hbuilt hsound hslot with ⟨hagree, -⟩ | ⟨hlight, hunshield, hfull⟩
      · rw [hagree]
      · obtain ⟨htx, hi, hget⟩ := mem_slots.mp hslot
        have hnone : fullAt C S keys tx o i = none := hfull.mpr fun ks hks howns =>
          hpays ⟨tx, htx, hunshield, i, o, hi, hget, ks, hks, howns⟩
        rw [hlight, hnone]
  · rintro ⟨tx, o, i⟩ hslot
    rcases lightAt_cases hbuilt hsound hslot with ⟨hagree, -⟩ | ⟨hlight, -⟩
    · exact .inl (by rw [hagree])
    · exact .inr (by rw [hlight]; rfl)

/-- Light sync finds what the full scan finds iff no unshield pays into a main address of the keys;
and a batch of digests gives what they give in turn. -/
theorem light_sync_iff (C : Curve F G) (S : ScanEnv) (sync : LightWalletSync) :
    (∀ (block : Block) (shared : Transaction → ℕ → G), block.Built C shared →
      NoCoincidence C sync.scanKeys block shared →
      ((sync.scanDigest C S (BlockDigest.fromBlock S block)).2.map finding
        = (scanBlock C S sync.scanKeys block).map finding ↔
          ¬PaysUnshield C sync.scanKeys block)) ∧
    ∀ (digests : List BlockDigest) (elapsed : ℕ),
      (Linked digests → (sync.scanDigestsParallel C S digests elapsed).2
        = .ok (sync.scanDigests C S digests).2) ∧
      (¬Linked digests → (sync.scanDigestsParallel C S digests elapsed).1 = sync ∧
        ∃ e, (sync.scanDigestsParallel C S digests elapsed).2 = .error e) := by
  constructor
  · intro block shared hbuilt hsound
    exact scans_agree_iff hbuilt hsound
  · intro digests elapsed
    unfold LightWalletSync.scanDigestsParallel
    cases hvalid : validateDigestSequence digests with
    | ok u =>
      have hlinked := validateDigestSequence_eq_ok.mp hvalid
      exact ⟨fun _ => by rw [LightWalletSync.found_scanDigests], fun h => absurd hlinked h⟩
    | error e =>
      refine ⟨fun hlinked => ?_, fun _ => ⟨rfl, e, rfl⟩⟩
      rw [(validateDigestSequence_eq_ok (u := ())).mpr hlinked] at hvalid
      cases hvalid

/-! ## Two blocks -/

/-- A new light wallet. -/
def smallSync : LightWalletSync := .new [smallKeys.scanKeys smallTable]

/-- A block of one transaction. -/
def smallBlock (tx : Transaction) : Block := ⟨⟨1000, 0, 0⟩, [tx]⟩

attribute [local instance] atLeastTwo_two atLeastTwo_three

/-- The stealth address made with the secret 3. -/
def smallStealth : StealthAddress where
  publicKey := small.compress (small.oneTimeKey ((3 : ZMod 7) • 3) 0 2)
  txPublicKey := 3

/-- A hidden payment to the main address. -/
def smallHidden : Transaction where
  version := 1
  txType := .transfer
  inputs := []
  outputs := [(TransactionBuilder.recipientOutput small
    ⟨smallKeys.spendPublic, smallKeys.viewPublic, 5000000, none⟩ 0 smallStealth 3 3).txOutput []]
  fee := 0
  rangeProof := 0
  extra := []

/-- Both scans find it. -/
theorem light_sync_small :
    (smallSync.scanDigest small smallScan
        (BlockDigest.fromBlock smallScan (smallBlock smallHidden))).2.map finding
      = (scanBlock small smallScan smallSync.scanKeys (smallBlock smallHidden)).map
        finding ∧
    (scanBlock small smallScan smallSync.scanKeys (smallBlock smallHidden)).map (·.amount)
      = [5000000] := by
  refine ⟨?_, by decide +kernel⟩
  have hagree := (light_sync_iff small smallScan smallSync).1 (smallBlock smallHidden)
    (fun _ _ => (3 : ZMod 7) • 3) ?_ ?_
  · refine hagree.mpr ?_
    rintro ⟨tx, htx, hunshield, -⟩
    obtain rfl := mem_singleton.mp htx
    exact absurd hunshield.1 (by decide)
  · intro tx htx _ i o ho
    obtain rfl := mem_singleton.mp htx
    cases i with
    | succ i => simp [smallHidden] at ho
    | zero =>
      cases ho
      exact ⟨smallKeys.spendPublic, smallKeys.viewPublic, false, 3, (smallStealth, 3), 3, rfl, rfl, rfl, rfl,
        rfl, rfl⟩
  · refine ⟨?_, ?_⟩
    · intro tx htx _ i o ho ks hks _
      obtain rfl := mem_singleton.mp htx
      obtain rfl := mem_singleton.mp hks
      cases i with
      | succ i => simp [smallHidden] at ho
      | zero =>
        cases ho
        exact ⟨3, rfl, rfl⟩
    · intro tx htx hrevealed
      obtain rfl := mem_singleton.mp htx
      exact absurd hrevealed (by decide)

/-- An unshield of 500 to the main address. -/
def smallUnshield : Transaction where
  version := 1
  txType := .shielded
  inputs := []
  outputs := [{
    stealthAddress := smallStealth.publicKey
    txPublicKey := 3
    commitment := small.commit 500 0
    encryptedAmount := Bytes.toLe 8 500
    viewTag := small.senderViewTag 3 smallKeys.viewPublic 0
    lockHeight := none
    encryptedMemo := [] }]
  fee := 0
  rangeProof := 0
  extra := []

/-- The output is as the builder makes it, the full scan finds it and the light scan does not. -/
theorem light_sync_misses_unshield :
    (∃ o, smallUnshield.outputs = [o] ∧
      buildRevealedOutput small smallKeys.spendPublic smallKeys.viewPublic 500 0 3 = .ok o) ∧
    (smallSync.scanDigest small smallScan
      (BlockDigest.fromBlock smallScan (smallBlock smallUnshield))).2.length = 0 ∧
    (scanBlock small smallScan smallSync.scanKeys (smallBlock smallUnshield)).map (·.amount)
      = [500] := by
  refine ⟨⟨_, rfl, rfl⟩, by decide +kernel, by decide +kernel⟩

end CoinCync.Wallet

import CoinCync.Swap.Safety

/-!
# A spend of the Bitcoin lock reveals the share

`Gate` collects what evidence accepted by `verifyPreCyncLock` holds for one of the two paths, and
`Gate.Spends` is Bitcoin's view of a spend through it. A completed pre-signature is valid for one
challenge only, so a spend that carries it is the evidence's own transaction. The verification then
reads the two signatures back from its bytes, and the scalar by which the completed signature exceeds
the pre-signature is the secret of the share.
-/

namespace CoinCync.AtomicSwap

open Check List Except Transaction Bytes

variable {n m : ℕ} {P Q : Type} [AddCommGroup P] [Module (ZMod n) P] [AddCommGroup Q]
  [Module (ZMod m) Q] {E : SwapEnv n m P Q}
  {evidence : PreCyncLockSafetyEvidence} {swap : Swap} {v : VerifiedPreCyncLock} {path : SpendPath}
variable {reveal : VerifiedShareReveal} {control : List UInt8} {B : Bitcoin n m P Q}
  {c : SwapTaprootContract}

/-! ## What accepted evidence holds -/

/-- A bound share: one secret behind its two points. -/
structure Bound (E : SwapEnv n m P Q) (share : List UInt8 × List UInt8) (t : ℕ) : Prop where
  pos : 0 < t
  lt_btc : t < n
  lt_cync : t < m
  btc : decodePoint E.btc share.1 = some ((t : ZMod n) • E.btc.base)
  cync : E.cync.compress ((t : ZMod m) • E.cync.base) = share.2
  cync_ne_zero : (t : ZMod m) • E.cync.base ≠ 0

/-- An accepted binding has one. -/
lemma bound_of_verifyShareBinding [DecidableEq Q] (h : verifyShareBinding E ev = .ok share) :
    ∃ t, Bound E share t := by
  simp only [verifyShareBinding, crossCurveStatement, bind_eq_ok, expect_eq_ok, verify_eq_ok, pure_eq_ok] at h
  obtain ⟨btcBytes, -, cyncBytes, -, -, -, proof, -, -, -, statement,
    ⟨p, hp, q, hq, -, hne, rfl⟩, _, hverify, rfl⟩ := h
  obtain ⟨t, hpos, hn, hm, rfl, rfl⟩ := E.sound hverify
  exact ⟨t, hpos, hn, hm, hp, E.cync.decompress_eq_some.mp hq, hne⟩

lemma contractSpendInfo_eq_ok (h : contractSpendInfo B c = .ok info) :
    info.success = c.successScript ∧ info.refund = c.refundScript := by
  simp only [contractSpendInfo, bind_eq_ok, pure_eq_ok] at h
  obtain ⟨_, -, key, -, rfl⟩ := h
  exact ⟨rfl, rfl⟩

lemma length_bothSign (alice bob : ℕ) : (bothSign alice bob).length = 70 := by
  simp [bothSign, pushXOnlyKey]

lemma length_pushInt_le (k : UInt16) : (pushInt k).length ≤ 4 := by
  unfold pushInt
  simp only
  split_ifs <;> simp

lemma SwapTaprootContract.length_script_le (c : SwapTaprootContract) (path : SpendPath) :
    (c.script path).length ≤ 200 := by
  cases path with
  | claim =>
    show (bothSign _ _).length ≤ 200
    rw [length_bothSign]
    decide
  | refund =>
    have := length_pushInt_le c.refundCsvBlocks
    show (pushInt _ ++ 0xb2 :: 0x75 :: bothSign _ _).length ≤ 200
    rw [length_append, length_cons, length_cons, length_bothSign]
    omega

/-- Both leaves have one. -/
lemma exists_controlBlock (h : contractSpendInfo B c = .ok info) (path : SpendPath) :
    ∃ control, info.controlBlock B (c.script path) = some control ∧ control.length = 65 := by
  obtain ⟨hsuccess, hrefund⟩ := contractSpendInfo_eq_ok h
  have hlen : ∀ sibling, (info.controlBytes sibling).length = 65 := by
    simp [SpendInfo.controlBytes]
  unfold SpendInfo.controlBlock
  split_ifs with h1 h2
  · exact ⟨_, rfl, hlen _⟩
  · exact ⟨_, rfl, hlen _⟩
  · cases path with
    | claim => exact absurd hsuccess.symm h1
    | refund => exact absurd hrefund.symm h2

/-- The spend a base describes. -/
structure Prepared (E : SwapEnv n m P Q) (base : SafeSpendBase) (path : SpendPath) (txid : ℕ)
    (prepared : PreparedSpend) : Prop where
  info : contractSpendInfo E.toBitcoin base.contract = .ok prepared.spendInfo
  script : prepared.script = base.contract.script path
  prevout : prepared.prevout = ⟨base.lockValueSats, prepared.spendInfo.scriptPubkey⟩
  tx : ∃ script : List UInt8, script.length ≤ 42 ∧ prepared.tx = {
    version := 2
    lockTime := 0
    input := [⟨⟨txid, base.lockVout⟩, [], spendSequence base.contract path, []⟩]
    output := [⟨base.lockValueSats - base.feeSats, script⟩] }

lemma prepared_of_buildSpendInternal (htxid : base.lockTxid = E.txidToString txid)
    (h : buildSpendInternal E network base path = .ok prepared) :
    Prepared E base path txid prepared := by
  simp only [buildSpendInternal, bind_eq_ok, pure_eq_ok] at h
  obtain ⟨_, -, _, -, _, -, dest, -, _, -, lockTxid, htx, info, hinfo, rfl⟩ := h
  rw [htxid, E.txidFromStr_toString] at htx
  cases htx
  exact ⟨hinfo, rfl, rfl, dest.scriptPubkey, dest.length_scriptPubkey, rfl⟩

/-- The output of the evidence. -/
lemma lockedOutput_eq_ok (h : lockedOutput E evidence swap = .ok lock) :
    decodeLockTransaction evidence.lockTxHex = .ok lock.1 ∧
      lock.1.output[evidence.lockVout.toNat]? = some lock.2 ∧
      safeLockScriptPubkey E.toBitcoin evidence.contract = .ok lock.2.scriptPubkey := by
  simp only [lockedOutput, bind_eq_ok, expect_eq_ok, verify_eq_ok, pure_eq_ok] at h
  obtain ⟨lockTx, htx, output, houtput, _, -, script, hscript, _, rfl, rfl⟩ := h
  exact ⟨htx, houtput, hscript⟩

lemma verifySignature_eq_ok [DecidableEq P] :
    verifySignature E σ msg key label = .ok u ↔ verifySchnorr E.toBitcoin σ msg key = true := by
  simp only [verifySignature, parseXonly, bind_eq_ok, verify_eq_ok]
  constructor
  · rintro ⟨_, -, hv⟩
    exact hv
  · intro hv
    cases hlift : E.btc.lift key with
    | none => simp [verifySchnorr, hlift] at hv
    | some X => exact ⟨X, rfl, hv⟩

/-- An accepted pre-signature. -/
lemma verifyPathPresig_eq_ok [DecidableEq P] {hash : ℕ}
    (h : verifyPathPresig E evidence path T hash = .ok ()) :
    ∃ key adaptor, E.btc.lift (presignerKey evidence.contract path) = some key ∧
      parseAdaptor E (pathAdaptor evidence path) = .ok adaptor ∧
      verifyPreSig E.toCurves adaptor key T hash = .ok () := by
  simp only [verifyPathPresig, parseXonly, bind_eq_ok, expect_eq_ok, mapError_eq_ok] at h
  obtain ⟨key, hkey, adaptor, hadaptor, hsig⟩ := h
  exact ⟨key, adaptor, hkey, hadaptor, hsig⟩

/-- Of 64 bytes Bitcoin takes the default hash type. -/
lemma verifySchnorr_of_accepted [DecidableEq P] (h : SignatureAccepted B key data σ.bytes) :
    verifySchnorr B σ (B.sighash (data 0)) key = true := by
  obtain ⟨σ', hbytes, hv⟩ | ⟨σ', b, hbytes, -⟩ := h
  · obtain rfl : σ = σ' := by
      cases σ
      cases σ'
      simpa using hbytes
    exact hv
  · have hlen := congrArg length hbytes
    rw [length_append, σ.length_bytes, σ'.length_bytes] at hlen
    simp at hlen

/-- Verification on the curve. -/
lemma verifySchnorr_iff [DecidableEq P] (hkey : B.btc.lift key = some X) :
    verifySchnorr B σ msg key = true ↔ B.btc.Valid (B.challenge σ.r key msg : ZMod n) X σ.r σ.s := by
  rw [verifySchnorr, hkey]
  exact decide_eq_true_iff

variable [DecidableEq P] [DecidableEq Q]

/-- What passing the gate says of one path. -/
structure Gate (E : SwapEnv n m P Q) (evidence : PreCyncLockSafetyEvidence) (path : SpendPath) where
  lockTx : Transaction
  lockOutput : TxOut
  prepared : PreparedSpend
  share : List UInt8 × List UInt8
  adaptor : BtcAdaptorSig P
  /-- The key of the pre-signing party. -/
  key : P
  /-- The adaptor point. -/
  point : P
  lockTx_eq : decodeLockTransaction evidence.lockTxHex = .ok lockTx
  lockOutput_eq : lockTx.output[evidence.lockVout.toNat]? = some lockOutput
  lockScript_eq : safeLockScriptPubkey E.toBitcoin evidence.contract = .ok lockOutput.scriptPubkey
  prepared_eq : buildSpendInternal E evidence.btcNetwork
    (spendBase evidence (E.txidToString (E.computeTxid lockTx)) lockOutput.value path) path
      = .ok prepared
  share_eq : verifyShareBinding E (revealedShare evidence path) = .ok share
  point_eq : decodePoint E.btc share.1 = some point
  key_eq : E.btc.lift (presignerKey evidence.contract path) = some key
  adaptor_eq : parseAdaptor E (pathAdaptor evidence path) = .ok adaptor
  presigned : verifyPreSig E.toCurves adaptor key point (spendSighash E prepared) = .ok ()

/-- The gate, and the shares of the recipient's key. -/
lemma gate_of_verifyPreCyncLock (h : verifyPreCyncLock E evidence swap = .ok v) :
    (∀ path, Nonempty (Gate E evidence path)) ∧
    ∃ aliceShare bobShare, verifyShareBinding E evidence.aliceShare = .ok aliceShare ∧
      verifyShareBinding E evidence.bobShare = .ok bobShare ∧
      combineSpendPublicShares E.toCurves aliceShare.2 bobShare.2 = .ok v.recipient.spendPublic := by
  simp only [verifyPreCyncLock, safeSighash, computeSwapLockRecipient, bind_eq_ok, expect_eq_ok,
    verify_eq_ok, pure_eq_ok] at h
  obtain ⟨_, -, lock, hlock, claimHash, ⟨claim, hclaim, rfl⟩, refundHash, ⟨refund, hrefund, rfl⟩,
    aliceShare, halice, bobShare, hbob, aliceT, haliceT, bobT, hbobT, _, hclaimSig, _, hrefundSig,
    _, -, recipient, ⟨_, -, joint, hjoint, _, -, rfl⟩, rfl⟩ := h
  obtain ⟨htx, houtput, hscript⟩ := lockedOutput_eq_ok hlock
  refine ⟨fun path => ?_, aliceShare, bobShare, halice, hbob, hjoint⟩
  cases path with
  | claim =>
    obtain ⟨key, adaptor, hkey, hadaptor, hsig⟩ := verifyPathPresig_eq_ok hclaimSig
    exact ⟨⟨lock.1, lock.2, claim, aliceShare, adaptor, key, aliceT, htx, houtput, hscript, hclaim,
      halice, haliceT, hkey, hadaptor, hsig⟩⟩
  | refund =>
    obtain ⟨key, adaptor, hkey, hadaptor, hsig⟩ := verifyPathPresig_eq_ok hrefundSig
    exact ⟨⟨lock.1, lock.2, refund, bobShare, adaptor, key, bobT, htx, houtput, hscript, hrefund,
      hbob, hbobT, hkey, hadaptor, hsig⟩⟩

/-- The pre-signing party's entry in the witness. -/
def presignerBytes (alice bob : List UInt8) : SpendPath → List UInt8
  | .claim => bob
  | .refund => alice

/-- The other party's entry. -/
def cosignerBytes (alice bob : List UInt8) : SpendPath → List UInt8
  | .claim => alice
  | .refund => bob

namespace Gate

variable (g : Gate E evidence path)

/-- The spend the evidence commits to. -/
def base : SafeSpendBase :=
  spendBase evidence (E.txidToString (E.computeTxid g.lockTx)) g.lockOutput.value path

/-- The output spent. -/
def outpoint : OutPoint := ⟨E.computeTxid g.lockTx, evidence.lockVout⟩

/-- What the pre-signature signs. -/
def data : SighashData :=
  g.prepared.tx.sighashData [g.lockOutput] 0 none (evidence.contract.script path) 0

lemma fields_base : g.base.contract = evidence.contract ∧
    g.base.lockValueSats = g.lockOutput.value ∧ g.base.lockVout = evidence.lockVout := by
  cases path <;> exact ⟨rfl, rfl, rfl⟩

lemma prepared_base : Prepared E g.base path (E.computeTxid g.lockTx) g.prepared := by
  refine prepared_of_buildSpendInternal ?_ g.prepared_eq
  cases path <;> rfl

lemma script_prepared : g.prepared.script = evidence.contract.script path := by
  rw [g.prepared_base.script, g.fields_base.1]

lemma info_prepared :
    contractSpendInfo E.toBitcoin evidence.contract = .ok g.prepared.spendInfo := by
  have hinfo := g.prepared_base.info
  rwa [g.fields_base.1] at hinfo

/-- The output spent is the one the evidence shows. -/
lemma prevout_prepared : g.prepared.prevout = g.lockOutput := by
  have hscript : safeLockScriptPubkey E.toBitcoin evidence.contract
      = .ok g.prepared.spendInfo.scriptPubkey := by
    rw [safeLockScriptPubkey, g.info_prepared]
    rfl
  have heq := ok.inj (hscript.symm.trans g.lockScript_eq)
  rw [g.prepared_base.prevout, heq, g.fields_base.2.1]

lemma spendSighash_prepared : spendSighash E g.prepared = E.sighash g.data := by
  rw [spendSighash, g.prevout_prepared, g.script_prepared]
  rfl

lemma safeSighash_base : safeSighash E evidence.btcNetwork g.base path = .ok (E.sighash g.data) := by
  have h : buildSpendInternal E evidence.btcNetwork g.base path = .ok g.prepared := g.prepared_eq
  rw [safeSighash, h, ← g.spendSighash_prepared]
  rfl

/-- The context is that of the gate. -/
lemma revealContext_eq (h : verifyPreCyncLock E evidence swap = .ok v) :
    revealContext E evidence swap path = .ok ⟨g.base, g.share.1, g.share.2, g.adaptor⟩ := by
  rw [revealContext, h, g.lockTx_eq]
  have hout : expect g.lockTx.output[evidence.lockVout.toNat]? "Bitcoin lock vout does not exist"
      = .ok g.lockOutput := expect_eq_ok.mpr g.lockOutput_eq
  simp only [bind, Except.bind, hout, g.share_eq, g.adaptor_eq]
  rfl

/-- The adaptor point and the CYNC share have one secret. -/
lemma exists_bound : ∃ t, Bound E g.share t ∧ (t : ZMod n) • E.btc.base = g.point := by
  obtain ⟨t, ht⟩ := bound_of_verifyShareBinding g.share_eq
  exact ⟨t, ht, Option.mem_unique ht.btc g.point_eq⟩

/-- The control block that proves the path's script. -/
abbrev HasControl (control : List UInt8) : Prop :=
  g.prepared.spendInfo.controlBlock E.toBitcoin (evidence.contract.script path) = some control

/-- Both signatures are valid for the pre-signed message. -/
abbrev BothSigned (alice bob : Signature) : Prop :=
  verifySchnorr E.toBitcoin alice (E.sighash g.data) (evidence.contract.aliceKey path) = true ∧
  verifySchnorr E.toBitcoin bob (E.sighash g.data) (evidence.contract.bobKey path) = true

/-- The evidence's spend with two signature entries. -/
def filled (control alice bob : List UInt8) : Transaction :=
  { g.prepared.tx with
    input := g.prepared.tx.input.map fun i =>
      { i with witness := [bob, alice, evidence.contract.script path, control] } }

lemma signed_eq (control : List UInt8) (alice bob : Signature) :
    g.prepared.signed control alice bob = g.filled control alice.bytes bob.bytes := by
  rw [PreparedSpend.signed, g.script_prepared]
  rfl

lemma filled_eq (control alice bob : List UInt8) :
    ∃ (value : UInt64) (script : List UInt8), script.length ≤ 42 ∧
      g.filled control alice bob = ⟨2, 0,
        [⟨g.outpoint, [], spendSequence evidence.contract path,
          [bob, alice, evidence.contract.script path, control]⟩], [⟨value, script⟩]⟩ := by
  obtain ⟨script, hlen, htx⟩ := g.prepared_base.tx
  refine ⟨g.base.lockValueSats - g.base.feeSats, script, hlen, ?_⟩
  rw [filled, htx, g.fields_base.1, g.fields_base.2.2]
  rfl

lemma input_filled (control alice bob : List UInt8) :
    (g.filled control alice bob).input = [⟨g.outpoint, [], spendSequence evidence.contract path,
      [bob, alice, evidence.contract.script path, control]⟩] := by
  obtain ⟨value, script, -, heq⟩ := g.filled_eq control alice bob
  rw [heq]

/-- It can be written and read back. -/
lemma fits_filled (hcontrol : control.length = 65)
    (halice : alice.length ≤ 65) (hbob : bob.length ≤ 65) :
    (g.filled control alice bob).Fits ∧
      (g.filled control alice bob).serialize.length ≤ maxSpendTxBytes := by
  have hscript := evidence.contract.length_script_le path
  have hwit : ∀ w ∈ [bob, alice, evidence.contract.script path, control], w.length ≤ 200 := by
    simp only [mem_cons, not_mem_nil, or_false]
    rintro w (rfl | rfl | rfl | rfl) <;> omega
  obtain ⟨value, script, hlen, heq⟩ := g.filled_eq control alice bob
  rw [heq]
  refine ⟨fits_single (E.computeTxid_lt _) rfl (le_refl 4) hwit hlen, ?_⟩
  apply le_trans (length_serialize_single_le rfl ?_ hwit hlen)
  · decide
  · exact le_refl 4

lemma signedSpendSignatures_filled (hcontrol : control.length = 65) (alice bob : Signature) :
    signedSpendSignatures (g.filled control alice.bytes bob.bytes).serialize = .ok (alice, bob) := by
  obtain ⟨hfits, hsize⟩ := g.fits_filled hcontrol (alice.length_bytes.trans_le (by decide))
    (bob.length_bytes.trans_le (by decide))
  have hinput := g.input_filled control alice.bytes bob.bytes
  have hsig : ∀ σ : Signature, signatureOfBytes σ.bytes = some σ := fun σ =>
    dif_pos σ.length_bytes
  simp only [signedSpendSignatures, bind_eq_ok, expect_eq_ok, verify_eq_ok]
  refine ⟨(), ⟨serialize_ne_nil hfits, hsize⟩, _, deserialize_serialize hfits,
    _, by rw [hinput]; rfl, (), rfl, bob.bytes, rfl, alice.bytes, rfl, alice, hsig alice, bob, hsig bob,
    rfl⟩

/-- Alice's entry must have 64 bytes. -/
lemma signedSpendSignatures_of_length_ne
    (hcontrol : control.length = 65) (halice : alice.length ≤ 65) (hbob : bob.length ≤ 65)
    (hne : alice.length ≠ 64) :
    signedSpendSignatures (g.filled control alice bob).serialize = .error (.verification
      "safe Bitcoin spend signatures must use 64-byte SIGHASH_DEFAULT encoding") := by
  obtain ⟨hfits, hsize⟩ := g.fits_filled hcontrol halice hbob
  have hinput := g.input_filled control alice bob
  generalize g.filled control alice bob = tx at *
  have hlength : verify (tx.serialize ≠ [] ∧ tx.serialize.length ≤ maxSpendTxBytes)
      "signed Bitcoin spend transaction length is invalid" = .ok () :=
    verify_eq_ok.mpr ⟨serialize_ne_nil hfits, hsize⟩
  have hsig : signatureOfBytes alice = none := dif_neg hne
  rw [signedSpendSignatures, hlength, deserialize_serialize hfits]
  show (expect (if tx.input.length = 1 then tx.input.head? else none) _ >>= _) = _
  rw [hinput]
  show (expect (signatureOfBytes alice) _ >>= _) = _
  rw [hsig]
  rfl

lemma key_ne_zero : g.key ≠ 0 := (E.btc.lift_eq_some.mp g.key_eq).1

lemma x_key : E.btc.x g.key = presignerKey evidence.contract path :=
  (E.btc.lift_eq_some.mp g.key_eq).2.2

/-- What is built when both have signed. -/
lemma buildSignedSpend_eq_ok {alice bob : Signature} :
    buildSignedSpend E evidence.btcNetwork g.base path alice bob = .ok bytes ↔ g.BothSigned alice bob ∧
      ∃ control, g.HasControl control ∧ (g.prepared.signed control alice bob).serialize = bytes := by
  have hbuild : buildSpendInternal E evidence.btcNetwork g.base path = .ok g.prepared :=
    g.prepared_eq
  rw [buildSignedSpend, bind_of_eq_ok hbuild, g.spendSighash_prepared, g.script_prepared,
    g.fields_base.1]
  simp only [bind_eq_ok, exists_const, verifySignature_eq_ok, expect_eq_ok, pure_eq_ok, and_assoc]

/-- The signature is the pre-signature plus the share's secret. -/
structure Recovers (σ : Signature) (reveal : VerifiedShareReveal) : Prop where
  secret : recoverSecretFromBtcSig n g.adaptor σ = .ok reveal.secret
  btc : encodePoint E.btc ((reveal.secret : ZMod n) • E.btc.base) = g.share.1
  lt : reveal.secret < m
  cync : E.cync.compress ((reveal.secret : ZMod m) • E.cync.base) = g.share.2
  party : reveal.party = revealedParty path

/-- What an accepted reveal is. -/
lemma verifyShareReveal_eq_ok (h : verifyPreCyncLock E evidence swap = .ok v)
    : verifyShareReveal E evidence swap path σ = .ok reveal ↔
      verifySchnorr E.toBitcoin σ (E.sighash g.data) (presignerKey evidence.contract path) = true ∧
      g.Recovers σ reveal ∧ reveal.swapId = swap.id := by
  rw [verifyShareReveal, bind_of_eq_ok (g.revealContext_eq h), bind_of_eq_ok g.safeSighash_base]
  simp only [verifyRecoveredShare, bind_eq_ok, exists_const, verifySignature_eq_ok, secretKey_eq_ok,
    cyncAdaptorPoint_eq_ok, verify_eq_ok, pure_eq_ok]
  constructor
  · rintro ⟨hv, t, ht, ⟨_, ⟨-, rfl⟩, _, ⟨hlt, rfl⟩, hbtc, hcync⟩, rfl⟩
    exact ⟨hv, ⟨ht, hbtc, hlt, hcync, rfl⟩, rfl⟩
  · rintro ⟨hv, hr, hid⟩
    obtain ⟨-, -, ht, -⟩ := recoverSecretFromBtcSig_eq_ok.mp hr.secret
    refine ⟨hv, reveal.secret, hr.secret, ⟨_, ⟨ht, rfl⟩, _, ⟨hr.lt, rfl⟩, hr.btc, hr.cync⟩, ?_⟩
    rw [← hid, ← hr.party]

/-- Accepted iff it is the evidence's own spend, signed by both, and reveals the share. -/
lemma verifySafeTransaction_eq_ok (h : verifyPreCyncLock E evidence swap = .ok v) :
    verifySafeTransaction E path evidence swap bytes = .ok reveal ↔ ∃ alice bob control,
      g.HasControl control ∧ g.BothSigned alice bob ∧
      (g.prepared.signed control alice bob).serialize = bytes ∧
      g.Recovers (presigner alice bob path) reveal ∧ reveal.swapId = swap.id := by
  unfold verifySafeTransaction
  simp only [bind_of_eq_ok (g.revealContext_eq h), bind_eq_ok, exists_const, g.buildSignedSpend_eq_ok, verify_eq_ok,
    g.verifyShareReveal_eq_ok h]
  constructor
  · rintro ⟨⟨alice, bob⟩, -, _, ⟨hsigned, control, hcontrol, rfl⟩, rfl, -, hr, hid⟩
    exact ⟨alice, bob, control, hcontrol, hsigned, rfl, hr, hid⟩
  · rintro ⟨alice, bob, control, hcontrol, hsigned, rfl, hr, hid⟩
    have hlen : control.length = 65 := by
      obtain ⟨control', hcontrol', hlen⟩ := exists_controlBlock g.info_prepared path
      obtain rfl := Option.mem_unique hcontrol hcontrol'
      exact hlen
    have hsignatures := g.signedSpendSignatures_filled hlen alice bob
    rw [← g.signed_eq] at hsignatures
    refine ⟨(alice, bob), hsignatures, _,
      ⟨hsigned, control, hcontrol, rfl⟩, rfl, ?_, hr, hid⟩
    cases path with
    | claim => exact hsigned.2
    | refund => exact hsigned.1

/-! ## Spends of the lock -/

variable {tx : Transaction} {prevouts : List TxOut} {index : ℕ}
  {annex : Option (List UInt8)} {alice bob : List UInt8} {secret : ℕ} {σ : Signature}

/-- The pre-signature completed with the adaptor secret. -/
structure Completion (secret : ℕ) (σ : Signature) : Prop where
  point : (secret : ZMod n) • E.btc.base = g.point
  decrypt : decryptBtcAdaptor E.toCurves g.adaptor secret g.point = .ok σ

/-- A bitcoin spend of the lock through the path. -/
abbrev Spends (tx : Transaction) (prevouts : List TxOut) (index : ℕ) (annex : Option (List UInt8))
    (alice bob : List UInt8) : Prop :=
  SpendsLeaf E.toBitcoin evidence.contract path g.outpoint g.lockOutput tx prevouts index annex bob
    alice

variable {g}

lemma Spends.accepted_presigner (h : g.Spends tx prevouts index annex alice bob) :
    SignatureAccepted E.toBitcoin (presignerKey evidence.contract path)
      (tx.sighashData prevouts index annex (evidence.contract.script path))
      (presignerBytes alice bob path) := by
  cases path with
  | claim => exact h.bobSigned
  | refund => exact h.aliceSigned

/-- The pre-signature is one in the sense of the curve. -/
lemma presigned_btc : E.btc.Presigned
    (E.challenge (E.btc.x (g.adaptor.rPoint + g.point)) (presignerKey evidence.contract path)
      (E.sighash g.data) : ZMod n) g.key g.adaptor.rPoint g.point g.adaptor.sPre := by
  have h := (verifyPreSig_eq_ok.mp g.presigned).2.2.2
  rw [BtcAdaptorSig.challenge, g.x_key, g.spendSighash_prepared] at h
  exact h

/-- A completed signature is for its own challenge only. -/
lemma Completion.challenge_eq [Fact n.Prime] (h : g.Completion secret σ)
    (hspend : g.Spends tx prevouts index annex alice bob)
    (hσ : presignerBytes alice bob path = σ.bytes) :
    (E.challenge σ.r (presignerKey evidence.contract path)
      (E.sighash (tx.sighashData prevouts index annex (evidence.contract.script path) 0)) : ZMod n)
    = E.challenge σ.r (presignerKey evidence.contract path) (E.sighash g.data) := by
  have haccepted := hspend.accepted_presigner
  rw [hσ] at haccepted
  have hvalid := (verifySchnorr_iff g.key_eq).mp (verifySchnorr_of_accepted haccepted)
  obtain ⟨hr, -, hs⟩ := decryptBtcAdaptor_parts h.decrypt
  rw [hr] at hvalid ⊢
  exact presigned_btc.challenge_eq h.point hs g.key_ne_zero hvalid

/-- A spend that commits to the same data is the evidence's own. -/
lemma Spends.eq_of_data (h : g.Spends tx prevouts index annex alice bob)
    (hdata : tx.sighashData prevouts index annex (evidence.contract.script path) 0 = g.data) :
    ∃ control, g.HasControl control ∧ tx = g.filled control alice bob := by
  obtain ⟨info, control, sequence, hinfo, hcontrol, hinput, -⟩ := h.input
  obtain rfl : info = g.prepared.spendInfo := ok.inj (hinfo.symm.trans g.info_prepared)
  refine ⟨control, hcontrol, ?_⟩
  simp only [sighashData, data, SighashData.mk.injEq] at hdata
  obtain ⟨-, hversion, hlock, hinputs, houtputs, -, rfl, rfl, -⟩ := hdata
  obtain ⟨script, -, hprepared⟩ := g.prepared_base.tx
  rw [filled]
  rw [hprepared] at hversion hlock hinputs houtputs
  -- one input, which is the one that spends the lock
  obtain ⟨i, hi⟩ : ∃ i, tx.input = [i] := by
    have hlen := congrArg length hinputs
    simp only [length_map] at hlen
    exact length_eq_one_iff.mp hlen
  cases tx
  simp_all

/-- A completed signature reveals the share. -/
lemma Completion.recovers [Fact n.Prime] (h : g.Completion secret σ) :
    g.Recovers σ ⟨swap.id, revealedParty path, secret⟩ := by
  obtain ⟨hpre, hsecret, -⟩ := decryptBtcAdaptor_eq_ok.mp h.decrypt
  obtain ⟨-, hs⟩ := decryptBtcAdaptor_parts h.decrypt
  obtain ⟨t, ht, hpoint⟩ := g.exists_bound
  -- both are below the order, and have one point
  obtain rfl : secret = t := by
    have hcast : (secret : ZMod n) = t :=
      smul_left_injective _ E.btc.base_ne_zero (h.point.trans hpoint.symm)
    exact ((ZMod.natCast_eq_natCast_iff _ _ _).mp hcast).eq_of_lt_of_lt hsecret.2 ht.lt_btc
  refine ⟨recoverSecretFromBtcSig_eq_ok.mpr ⟨hs.1, hpre, hsecret, hs.2⟩, ?_, ht.lt_cync, ht.cync, rfl⟩
  exact (encodePoint_of_decodePoint ht.btc).2

/-- The scalar is the pre-signature's plus the adaptor secret. -/
structure Exceeds (g : Gate E evidence path) (secret : ℕ) (σ : Signature) : Prop where
  point : (secret : ZMod n) • E.btc.base = g.point
  scalar : (σ.s : ZMod n) = g.adaptor.sPre + secret

/-- So does what is recovered. -/
lemma Recovers.exceeds [Fact m.Prime] (h : g.Recovers σ reveal) : g.Exceeds reveal.secret σ := by
  obtain ⟨-, -, -, hscalar⟩ := recoverSecretFromBtcSig_eq_ok.mp h.secret
  obtain ⟨t, ht, hpoint⟩ := g.exists_bound
  obtain hsecret : reveal.secret = t := by
    have hcast : (reveal.secret : ZMod m) = t := by
      exact smul_left_injective _ E.cync.base_ne_zero
        (E.cync.compress_injective (h.cync.trans ht.cync.symm))
    exact ((ZMod.natCast_eq_natCast_iff _ _ _).mp hcast).eq_of_lt_of_lt h.lt ht.lt_cync
  exact ⟨by rw [hsecret, hpoint], hscalar⟩

/-- No other even nonce point gives the completed signature's point. -/
def NonceUnique (g : Gate E evidence path) : Prop :=
  ∀ R, R ≠ 0 → E.btc.even R = true →
    R + (E.challenge (E.btc.x R) (presignerKey evidence.contract path) (E.sighash g.data) : ZMod n)
        • g.key
      = g.adaptor.rPoint + g.point
        + (E.challenge (E.btc.x (g.adaptor.rPoint + g.point)) (presignerKey evidence.contract path)
          (E.sighash g.data) : ZMod n) • g.key →
    R = g.adaptor.rPoint + g.point

/-- What reveals is a completion. -/
lemma Recovers.completion [Fact m.Prime] (h : g.Recovers σ reveal) (hunique : g.NonceUnique)
    (hv : verifySchnorr E.toBitcoin σ (E.sighash g.data) (presignerKey evidence.contract path)
      = true) : g.Completion reveal.secret σ := by
  have hexceeds := h.exceeds
  obtain ⟨hs, hpre, hsecret, hscalar⟩ := recoverSecretFromBtcSig_eq_ok.mp h.secret
  obtain ⟨-, hne, heven, hx⟩ := (verifySchnorr_iff g.key_eq).mp hv
  -- the nonce point of the signature is `R + T`
  have hnonce : E.btc.nonce (E.challenge σ.r (presignerKey evidence.contract path)
      (E.sighash g.data) : ZMod n) g.key σ.s = g.adaptor.rPoint + g.point := by
    apply hunique _ hne heven
    rw [hx, XOnlyGroup.nonce, hscalar, add_smul, presigned_btc.eq, hexceeds.point]
    abel
  have hr : σ.r = E.btc.x (g.adaptor.rPoint + g.point) := by rw [← hnonce, hx]
  have hmod : σ.s = (g.adaptor.sPre + reveal.secret) % n := by
    rw [← Nat.cast_add, ZMod.natCast_eq_natCast_iff', Nat.mod_eq_of_lt hs.2] at hscalar
    exact hscalar
  refine ⟨hexceeds.point, decryptBtcAdaptor_eq_ok.mpr ⟨hpre, hsecret, by omega,
    presigned_btc.ne_zero, ?_⟩⟩
  rw [← hr, ← hmod]
  exact σ.eq_mk'.symm

variable (g) in
/-- The witness is not part of what is signed. -/
lemma sighashData_filled (control alice bob : List UInt8) :
    (g.filled control alice bob).sighashData [g.lockOutput] 0 none (evidence.contract.script path) 0
      = g.data := by
  simp [data, Transaction.sighashData, filled, Function.comp_def]

lemma csvMet_filled (control alice bob : List UInt8) :
    CsvMet (g.filled control alice bob) (spendSequence evidence.contract .refund)
      evidence.contract.refundCsvBlocks := by
  obtain ⟨value, script, -, heq⟩ := g.filled_eq control alice bob
  have hseq : (spendSequence evidence.contract .refund).toNat
      = evidence.contract.refundCsvBlocks.toNat := UInt16.toNat_toUInt32 _
  have hlt := evidence.contract.refundCsvBlocks.toNat_lt
  rw [CsvMet, heq]
  refine ⟨UInt32.le_refl _, ?_, ?_, ?_⟩ <;> omega

variable (g) in
/-- Two signatures that Bitcoin takes spend the lock. -/
lemma spends_filled (hcontrol : g.HasControl control)
    (halice : SignatureAccepted E.toBitcoin (evidence.contract.aliceKey path)
      ((g.filled control alice bob).sighashData [g.lockOutput] 0 none
        (evidence.contract.script path)) alice)
    (hbob : SignatureAccepted E.toBitcoin (evidence.contract.bobKey path)
      ((g.filled control alice bob).sighashData [g.lockOutput] 0 none
        (evidence.contract.script path)) bob) :
    g.Spends (g.filled control alice bob) [g.lockOutput] 0 none alice bob where
  length_prevouts := by
    rw [g.input_filled]
    rfl
  prevout := rfl
  annexTag a ha := by cases ha
  input := by
    refine ⟨g.prepared.spendInfo, control, spendSequence evidence.contract path, g.info_prepared,
      hcontrol, by rw [g.input_filled]; rfl, ?_⟩
    rintro rfl
    exact csvMet_filled control alice bob
  bobSigned := hbob
  aliceSigned := halice

/-- The signed transaction is a spend of the lock. -/
lemma spends_signed {alice bob : Signature} (hcontrol : g.HasControl control)
    (hsigned : g.BothSigned alice bob) :
    g.Spends (g.prepared.signed control alice bob) [g.lockOutput] 0 none alice.bytes bob.bytes := by
  rw [g.signed_eq]
  rw [BothSigned, ← g.sighashData_filled control alice.bytes bob.bytes] at hsigned
  exact g.spends_filled hcontrol (Or.inl ⟨alice, rfl, hsigned.1⟩) (Or.inl ⟨bob, rfl, hsigned.2⟩)

/-- A spend with a completed pre-signature and 64 bytes is accepted. -/
lemma Spends.accepted [Fact n.Prime] (h : verifyPreCyncLock E evidence swap = .ok v)
    (hspend : g.Spends tx prevouts index annex alice bob) (hcomp : g.Completion secret σ)
    (hσ : presignerBytes alice bob path = σ.bytes) (hlen : (cosignerBytes alice bob path).length = 64)
    (hdata : tx.sighashData prevouts index annex (evidence.contract.script path) 0 = g.data) :
    verifySafeTransaction E path evidence swap tx.serialize
      = .ok ⟨swap.id, revealedParty path, secret⟩ := by
  obtain ⟨control, hcontrol, htx⟩ := hspend.eq_of_data hdata
  obtain ⟨σa, σb, rfl, rfl, hpick⟩ : ∃ σa σb : Signature, alice = σa.bytes ∧ bob = σb.bytes ∧
      presigner σa σb path = σ := by
    cases path with
    | claim => exact ⟨⟨alice, hlen⟩, σ, rfl, hσ, rfl⟩
    | refund => exact ⟨σ, ⟨bob, hlen⟩, hσ, rfl, rfl⟩
  have halice := verifySchnorr_of_accepted hspend.aliceSigned
  have hbob := verifySchnorr_of_accepted hspend.bobSigned
  rw [hdata] at halice hbob
  refine (g.verifySafeTransaction_eq_ok h).mpr ⟨σa, σb, control, hcontrol, ⟨halice, hbob⟩, ?_, ?_, rfl⟩
  · rw [htx, g.signed_eq]
  · rw [hpick]
    exact hcomp.recovers

end Gate

/-! ## What is revealed -/

/-- The other path. -/
def SpendPath.other : SpendPath → SpendPath
  | .claim => .refund
  | .refund => .claim

/-- The scalar is the secret of the share; with the other's it gives the recipient's. -/
structure Reveals (E : SwapEnv n m P Q) (evidence : PreCyncLockSafetyEvidence) (path : SpendPath)
    (recipient : SwapLockRecipient) (reveal : VerifiedShareReveal) : Prop where
  party : reveal.party = revealedParty path
  lt : reveal.secret < m
  share : ∃ share, verifyShareBinding E (revealedShare evidence path) = .ok share ∧
    E.cync.compress ((reveal.secret : ZMod m) • E.cync.base) = share.2
  joint : ∀ own share, own < m → verifyShareBinding E (revealedShare evidence path.other) = .ok share →
    E.cync.compress ((own : ZMod m) • E.cync.base) = share.2 →
    ∃ k, combineSpendSecretShares m own reveal.secret = .ok k ∧
      E.cync.compress ((k : ZMod m) • E.cync.base) = recipient.spendPublic

/-- What is recovered reveals. -/
lemma reveals_of_recovers [Fact m.Prime] (h : verifyPreCyncLock E evidence swap = .ok v)
    {g : Gate E evidence path}
    (hr : g.Recovers σ reveal) : Reveals E evidence path v.recipient reveal := by
  refine ⟨hr.party, hr.lt, ⟨g.share, g.share_eq, hr.cync⟩, fun own share hown hshare hcompress => ?_⟩
  obtain ⟨-, aliceShare, bobShare, halice, hbob, hjoint⟩ := gate_of_verifyPreCyncLock h
  obtain ⟨p, q, ⟨hp, hp0⟩, ⟨hq, hq0⟩, hne, hsum⟩ := combineSpendPublicShares_eq_ok.mp hjoint
  have hgshare := g.share_eq
  rw [← hsum]
  cases path with
  | claim =>
    obtain rfl : g.share = aliceShare := ok.inj (hgshare.symm.trans halice)
    obtain rfl : share = bobShare := ok.inj (hshare.symm.trans hbob)
    have hsecret := E.cync.compress_injective (hr.cync.trans hp.symm)
    have hself := E.cync.compress_injective (hcompress.trans hq.symm)
    obtain ⟨k, hk, hkey⟩ := combine_spend_shares hown hr.lt hself hsecret hq0 hp0
      (by rwa [add_comm])
    exact ⟨k, hk, by rw [hkey, add_comm]⟩
  | refund =>
    obtain rfl : g.share = bobShare := ok.inj (hgshare.symm.trans hbob)
    obtain rfl : share = aliceShare := ok.inj (hshare.symm.trans halice)
    have hsecret := E.cync.compress_injective (hr.cync.trans hq.symm)
    have hself := E.cync.compress_injective (hcompress.trans hp.symm)
    obtain ⟨k, hk, hkey⟩ := combine_spend_shares hown hr.lt hself hsecret hp0 hq0 hne
    exact ⟨k, hk, by rw [hkey]⟩

/-! ## A small swap -/

/-- The integers modulo 11; a coordinate is a residue up to sign. -/
def smallBtc : XOnlyGroup 11 (ZMod 11) where
  base := 1
  base_ne_zero := by decide
  exists_log p := ⟨p, by simp⟩
  x p := min p.val (11 - p.val)
  even p := decide (p.val ≤ 5)
  x_eq_iff {p q} := by
    revert p q
    decide
  even_neg {p} := by
    revert p
    decide
  lift r := if 1 ≤ r ∧ r ≤ 5 then some (r : ZMod 11) else none
  lift_eq_some {r p} := by
    by_cases hr : 1 ≤ r ∧ r ≤ 5
    · rw [if_pos hr]
      obtain ⟨h1, h5⟩ := hr
      interval_cases r <;> revert p <;> decide
    · rw [if_neg hr]
      constructor
      · intro h
        cases h
      · rintro ⟨hp, he, rfl⟩
        exfalso
        revert p
        decide
  x_lt p := by
    have := p.val_lt
    omega

/-- The same with encodings. -/
def smallCync : EncodedGroup 11 (ZMod 11) where
  base := 1
  base_ne_zero := by decide
  exists_log p := ⟨p, by simp⟩
  compress q := toLe 32 q.val
  length_compress q := length_toLe 32 _
  decompress b := if b.length = 32 ∧ ofLe b < 11 then some (ofLe b : ZMod 11) else none
  decompress_eq_some {b q} := by
    have hlt := q.val_lt
    constructor
    · intro h
      obtain ⟨⟨hlen, hb⟩, h⟩ := Option.ite_none_right_eq_some.mp h
      cases h
      rw [ZMod.val_natCast_of_lt hb, ← hlen, toLe_ofLe]
    · rintro rfl
      have hval : ofLe (toLe 32 q.val) = q.val := ofLe_toLe (by omega)
      rw [hval, if_pos ⟨length_toLe 32 _, hlt⟩, ZMod.natCast_zmod_val]

lemma smallOrder_le : 11 ≤ 256 ^ 32 := by decide

/-- Constant hashes, and proofs for pairs of equal points. -/
def smallEnv : SwapEnv 11 11 (ZMod 11) (ZMod 11) where
  btc := smallBtc
  order_le := smallOrder_le
  cync := smallCync
  challenge _ _ _ := 1
  numsHash _ _ := 1
  leafHash _ := 0
  branchHash _ _ := 0
  tapTweak _ _ := (1, false)
  sighash _ := 0
  computeTxid _ := 7
  computeTxid_lt _ := by decide
  txidToString k := String.ofList (List.replicate k 'x')
  txidFromStr s := some s.length
  txidFromStr_toString k := by simp
  parseAddress _ := some ⟨fun _ => true, [0x51], by decide⟩
  proofFromBytes _ := .ok ()
  verifyProof _ p q _ := if p = q ∧ p ≠ 0 then .ok () else .error (.verification "no proof")
  sound {proof p q context} h := by
    split_ifs at h with hpq
    obtain ⟨rfl, hp⟩ := hpq
    refine ⟨p.val, ?_, p.val_lt, p.val_lt, ?_, ?_⟩
    · exact pos_of_ne_zero fun h0 => hp ((ZMod.val_eq_zero p).mp h0)
    · show ((p.val : ℕ) : ZMod 11) * 1 = p
      rw [mul_one, ZMod.natCast_zmod_val]
    · show ((p.val : ℕ) : ZMod 11) * 1 = p
      rw [mul_one, ZMod.natCast_zmod_val]
  evidenceDigest _ := 0

/-- A share of a secret. -/
def smallShare (t : ZMod 11) : ShareBindingEvidence where
  btcAdaptorPointHex := Hex.encode (encodePoint smallBtc t)
  cyncSpendShareHex := Hex.encode (smallCync.compress t)
  strictDleqProofHex := Hex.encode (List.replicate proofEncodedLen 0)

/-- A pre-signature. -/
def smallPresig (R : ZMod 11) (sPre : ℕ) : AdaptorPreSignatureEvidence where
  rPointHex := Hex.encode (encodePoint smallBtc R)
  sPreHex := Hex.encode (toBe 32 sPre)

/-- Four keys and a day. -/
def smallContract : SwapTaprootContract := ⟨1, 4, 5, 3, 144⟩

/-- The lock. -/
def smallLock : Transaction :=
  ⟨2, 0, [⟨⟨9, 0⟩, [], 0, []⟩], [⟨100000, 0x51 :: pushXOnlyKey 1⟩]⟩

/-- Alice's share is 2 and Bob's is 3. -/
def smallEvidence : PreCyncLockSafetyEvidence where
  version := 1
  swapId := "swap"
  btcNetwork := "regtest"
  lockTxHex := Hex.encode smallLock.serialize
  lockVout := 0
  contract := smallContract
  claimDestination := "bob"
  claimFeeSats := 1000
  refundDestination := "alice"
  refundFeeSats := 1000
  aliceShare := smallShare 2
  bobShare := smallShare 3
  claimAdaptor := smallPresig 1 5
  refundAdaptor := smallPresig 1 6
  sharedViewPublicHex := Hex.encode (smallCync.compress 1)
  cyncAmountAtomic := 50

/-- The swap. -/
def smallSwap : Swap := ⟨"swap", ⟨50, 100000, 144, "regtest"⟩⟩

lemma verifyShareBinding_smallShare (ht : t ≠ 0) :
    verifyShareBinding smallEnv (smallShare t)
      = .ok (encodePoint smallBtc t, smallCync.compress t) := by
  have hproof : (Hex.encode (replicate proofEncodedLen 0)).utf8ByteSize = proofEncodedLen * 2 := by
    rw [Hex.utf8ByteSize_encode, length_replicate, mul_comm]
  simp only [verifyShareBinding, crossCurveStatement, bind_eq_ok, verify_eq_ok, expect_eq_ok]
  have hcync : smallCync.decompress (smallCync.compress t) = some t :=
    smallCync.decompress_eq_some.mpr rfl
  exact ⟨_, parseHexArray_encode rfl _, _, parseHexArray_encode rfl _, (), hproof, _,
    Hex.decode_encode _, (), rfl, (t, t), ⟨t, decodePoint_encodePoint _ ht, t, hcync, (), ht, rfl⟩, (),
    if_pos ⟨rfl, ht⟩, rfl⟩

lemma smallLock_decoded : decodeLockTransaction smallEvidence.lockTxHex = .ok smallLock := by
  have hwit : ∀ w ∈ ([] : List (List UInt8)), w.length ≤ 200 := by simp
  refine decodeLockTransaction_encode ?_ ?_
  · exact fits_single (by decide) rfl (by decide) hwit (by decide)
  · decide

lemma smallEvidence_agrees : checkAgreement smallEnv smallEvidence smallSwap = .ok () := by
  rfl

lemma smallEvidence_locked :
    lockedOutput smallEnv smallEvidence smallSwap
      = .ok (smallLock, ⟨100000, 0x51 :: pushXOnlyKey 1⟩) := by
  simp only [lockedOutput, bind_eq_ok, pure_eq_ok]
  exact ⟨smallLock, smallLock_decoded, _, rfl, (), rfl, _, rfl, (), rfl, rfl⟩

lemma parseAdaptor_smallPresig (hR : R ≠ 0) (hs : sPre < 256 ^ 32) :
    parseAdaptor smallEnv (smallPresig R sPre) = .ok ⟨R, sPre⟩ := by
  simp only [parseAdaptor, bind_eq_ok, expect_eq_ok, pure_eq_ok]
  exact ⟨_, parseHexArray_encode rfl _, R, decodePoint_encodePoint _ hR, _,
    parseHexArray_encode (length_toBe _ _) _, by rw [ofBe_toBe hs]⟩

lemma smallEvidence_sighash (path : SpendPath) : safeSighash smallEnv "regtest"
    (spendBase smallEvidence (smallEnv.txidToString 7) 100000 path) path = .ok 0 := by
  cases path <;> rfl

lemma smallEvidence_presigned :
    verifyPathPresig smallEnv smallEvidence .claim 2 0 = .ok () ∧
    verifyPathPresig smallEnv smallEvidence .refund 3 0 = .ok () := by
  have hclaim := parseAdaptor_smallPresig (R := 1) (by decide) (show 5 < 256 ^ 32 by decide)
  have hrefund := parseAdaptor_smallPresig (R := 1) (by decide) (show 6 < 256 ^ 32 by decide)
  simp only [verifyPathPresig, parseXonly, bind_eq_ok]
  exact ⟨⟨4, rfl, _, hclaim, by rfl⟩, 5, rfl, _, hrefund, by rfl⟩

lemma smallEvidence_accepted : ∃ v, verifyPreCyncLock smallEnv smallEvidence smallSwap = .ok v := by
  simp only [verifyPreCyncLock, bind_eq_ok, expect_eq_ok]
  exact ⟨_, (), smallEvidence_agrees, _, smallEvidence_locked, 0, smallEvidence_sighash .claim, 0,
    smallEvidence_sighash .refund, _, verifyShareBinding_smallShare (by decide), _,
    verifyShareBinding_smallShare (by decide), 2, decodePoint_encodePoint _ (by decide), 3,
    decodePoint_encodePoint _ (by decide), (), smallEvidence_presigned.1, (),
    smallEvidence_presigned.2, _, parseHexArray_encode rfl _, _, rfl, rfl⟩

/-- The secret 2 of Alice's share completes the claim. -/
lemma smallGate_completion (g : Gate smallEnv smallEvidence .claim) :
    g.Completion 2 (Signature.mk' 3 7) := by
  have hshare := ok.inj (g.share_eq.symm.trans (verifyShareBinding_smallShare (by decide)))
  have hpoint : 2 = g.point := by
    have h := g.point_eq
    rw [hshare] at h
    exact Option.some.inj ((decodePoint_encodePoint smallBtc (by decide)).symm.trans h)
  have hadaptor := ok.inj (g.adaptor_eq.symm.trans
    (parseAdaptor_smallPresig (by decide) (by decide)))
  refine ⟨?_, ?_⟩
  · rw [← hpoint]
    rfl
  · rw [← hpoint, hadaptor]
    rfl

/-- Bitcoin takes the claim. -/
lemma smallGate_spends (g : Gate smallEnv smallEvidence .claim)
    (hcontrol : g.HasControl control) {alice : List UInt8}
    (halice : alice = (Signature.mk' 2 3).bytes ∨ alice = (Signature.mk' 2 3).bytes ++ [1]) :
    g.Spends (g.filled control alice (Signature.mk' 3 7).bytes) [g.lockOutput] 0 none alice
      (Signature.mk' 3 7).bytes := by
  have hvalid : verifySchnorr smallEnv.toBitcoin (Signature.mk' 2 3) 0 1 = true := by decide +kernel
  refine Gate.spends_filled g hcontrol ?_ (Or.inl ⟨Signature.mk' 3 7, rfl, ?_⟩)
  · obtain rfl | rfl := halice
    · exact Or.inl ⟨_, rfl, hvalid⟩
    · exact Or.inr ⟨_, 1, rfl, by decide, hvalid⟩
  · show verifySchnorr smallEnv.toBitcoin (Signature.mk' 3 7) 0 4 = true
    decide +kernel

/-! ## The lock and its spends -/

/-- Evidence that passed the gate, and a path of the contract. A spend of the lock in which the
pre-signing party's signature completes its pre-signature, and the other has 64 bytes too, is
accepted and reveals the committed share, provided that its sighash does not collide with the
evidence's under the challenge hash. What is accepted is such a spend. -/
theorem lock_spend_reveals_share [Fact n.Prime] [Fact m.Prime]
    (h : verifyPreCyncLock E evidence swap = .ok v) (path : SpendPath) :
    ∃ g : Gate E evidence path,
      (∀ tx prevouts index annex alice bob secret σ, g.Spends tx prevouts index annex alice bob →
        g.Completion secret σ → presignerBytes alice bob path = σ.bytes →
        (cosignerBytes alice bob path).length = 64 →
        ((E.challenge σ.r (presignerKey evidence.contract path) (E.sighash
            (tx.sighashData prevouts index annex (evidence.contract.script path) 0)) : ZMod n)
          = E.challenge σ.r (presignerKey evidence.contract path) (E.sighash g.data) →
          tx.sighashData prevouts index annex (evidence.contract.script path) 0 = g.data) →
        ∃ reveal, verifySafeTransaction E path evidence swap tx.serialize = .ok reveal ∧
          Reveals E evidence path v.recipient reveal) ∧
      ∀ bytes reveal, verifySafeTransaction E path evidence swap bytes = .ok reveal →
        Reveals E evidence path v.recipient reveal ∧
        ∃ tx, ∃ alice bob : Signature, bytes = tx.serialize ∧
          g.Spends tx [g.lockOutput] 0 none alice.bytes bob.bytes ∧
          g.Exceeds reveal.secret (presigner alice bob path) ∧
          (g.NonceUnique → g.Completion reveal.secret (presigner alice bob path)) := by
  obtain ⟨g⟩ := (gate_of_verifyPreCyncLock h).1 path
  refine ⟨g, ?_, ?_⟩
  · intro tx prevouts index annex alice bob secret σ hspend hcomp hσ hlen hbinds
    have hdata := hbinds (hcomp.challenge_eq hspend hσ)
    have hrecovers : g.Recovers σ ⟨swap.id, revealedParty path, secret⟩ := hcomp.recovers
    exact ⟨_, hspend.accepted h hcomp hσ hlen hdata, reveals_of_recovers h hrecovers⟩
  · intro bytes reveal hok
    obtain ⟨alice, bob, control, hcontrol, hsigned, rfl, hr, -⟩ :=
      (g.verifySafeTransaction_eq_ok h).mp hok
    refine ⟨reveals_of_recovers h hr, _, alice, bob, rfl, Gate.spends_signed hcontrol hsigned,
      hr.exceeds, fun hunique => hr.completion hunique ?_⟩
    cases path with
    | claim => exact hsigned.2
    | refund => exact hsigned.1

/-- The claim reveals Alice's share. -/
theorem lock_spend_reveals_share_small : ∃ v,
    verifyPreCyncLock smallEnv smallEvidence smallSwap = .ok v ∧
    ∃ (g : Gate smallEnv smallEvidence .claim) (tx : Transaction) (reveal : VerifiedShareReveal),
      g.Spends tx [g.lockOutput] 0 none (Signature.mk' 2 3).bytes (Signature.mk' 3 7).bytes ∧
      g.Completion 2 (Signature.mk' 3 7) ∧ g.NonceUnique ∧
      verifySafeClaimTransaction smallEnv smallEvidence smallSwap tx.serialize = .ok reveal ∧
      Reveals smallEnv smallEvidence .claim v.recipient reveal := by
  have : Fact (Nat.Prime 11) := ⟨by decide⟩
  obtain ⟨v, hv⟩ := smallEvidence_accepted
  obtain ⟨g, hforward, -⟩ := lock_spend_reveals_share hv .claim
  obtain ⟨control, hcontrol, -⟩ := exists_controlBlock g.info_prepared .claim
  have hspend := smallGate_spends g hcontrol (Or.inl rfl)
  have hcomp := smallGate_completion g
  obtain ⟨reveal, hok, hreveals⟩ := hforward _ _ 0 none _ _ 2 _ hspend hcomp rfl rfl
    fun _ => g.sighashData_filled control _ _
  exact ⟨v, hv, g, _, reveal, hspend, hcomp, fun R _ _ h => add_right_cancel h, hok, hreveals⟩

/-- The same spend with the hash type of Alice's signature spelled out is valid, and is rejected. -/
theorem explicit_hash_type_rejected : ∃ v,
    verifyPreCyncLock smallEnv smallEvidence smallSwap = .ok v ∧
    ∃ (g : Gate smallEnv smallEvidence .claim) (tx : Transaction) (alice : List UInt8),
      g.Spends tx [g.lockOutput] 0 none alice (Signature.mk' 3 7).bytes ∧
      g.Completion 2 (Signature.mk' 3 7) ∧
      tx.sighashData [g.lockOutput] 0 none (smallEvidence.contract.script .claim) 0 = g.data ∧
      verifySafeClaimTransaction smallEnv smallEvidence smallSwap tx.serialize
        = .error (.verification
          "safe Bitcoin spend signatures must use 64-byte SIGHASH_DEFAULT encoding") := by
  obtain ⟨v, hv⟩ := smallEvidence_accepted
  obtain ⟨g⟩ := (gate_of_verifyPreCyncLock hv).1 .claim
  obtain ⟨control, hcontrol, hlen⟩ := exists_controlBlock g.info_prepared .claim
  have hreject := g.signedSpendSignatures_of_length_ne hlen
    (show ((Signature.mk' 2 3).bytes ++ [1]).length ≤ 65 by decide)
    (show (Signature.mk' 3 7).bytes.length ≤ 65 by decide) (by decide)
  refine ⟨v, hv, g, _, _, smallGate_spends g hcontrol (Or.inr rfl), smallGate_completion g,
    g.sighashData_filled control _ _, ?_⟩
  rw [verifySafeClaimTransaction, verifySafeTransaction, hreject]
  rfl

end CoinCync.AtomicSwap

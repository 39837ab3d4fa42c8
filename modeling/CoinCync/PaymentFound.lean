import CoinCync.SendAssembly

/-!
# A payment is found and can be spent

Sender, scanner and spender derive the same values for an output that was made for an address. The
hashes are arbitrary. Two addresses of a wallet that match one output therefore have the same spend key,
which need not mean that they have the same index.
-/

namespace CoinCync.Wallet

open List Option Curve

section Found

variable {F G : Type} [CommRing F] [AddCommGroup G] [Module F G] {C : Curve F G} {k : KeyEpoch C}
  {table : List (ℕ × ℕ × PublicKey)}
variable {which : Option (ℕ × ℕ)} {o : OutputBuilder F} {stealth : StealthAddress}
  {tx : Transaction} {isSubaddress : Bool} {index : ℕ}

/-- The main address, or a subaddress in the table. -/
def Registered (table : List (ℕ × ℕ × PublicKey)) : Option (ℕ × ℕ) → Prop
  | none => True
  | some (account, index) => ∃ sub ∈ table, sub.1 = account ∧ sub.2.1 = index

/-- The addresses a scan can report, `0/0` the main one. -/
def Reportable (table : List (ℕ × ℕ × PublicKey)) (which : Option (ℕ × ℕ)) : Prop :=
  Registered table which ∧ which ≠ some (0, 0)

/-! ## One output -/

lemma KeyEpoch.Address.ne_zero (h : k.Address spendPub viewPub isSubaddress which) :
    which ≠ some (0, 0) := by
  cases h with
  | main => nofun
  | subaddress account index hmain =>
    intro hzero
    exact hmain (Prod.mk.inj (some.inj hzero))

/-- Addresses that own one output share the spend key. -/
lemma KeyEpoch.spendKey_eq_of_owns
    (hv : C.isOutputOurs stealth k.viewSecret (k.spendKey v) index = true)
    (hw : C.isOutputOurs stealth k.viewSecret (k.spendKey w) index = true) :
    k.spendKey v = k.spendKey w := by
  obtain ⟨txPoint, spendPoint, htx, hspend, hkey⟩ := isOutputOurs_eq_true.mp hv
  obtain ⟨txPoint', spendPoint', htx', hspend', hkey'⟩ := isOutputOurs_eq_true.mp hw
  obtain rfl := mem_unique htx htx'
  have hpoint : spendPoint = spendPoint' := by
    have := compress_injective (hkey.symm.trans hkey')
    exact add_left_cancel this
  rw [C.decompress_eq_some] at hspend hspend'
  rw [← hspend, ← hspend', hpoint]

/-- An amount hidden with the shared secret is read back and opened. -/
lemma confidentialOutput_of_hidden (keys : ScanKeys) (output : TxOutput) {index : ℕ}
    {sharedSecret : Hash} (txHash : Hash) (which : Option (ℕ × ℕ))
    (hsecret : C.computeSharedSecret keys.viewSecret output.txPublicKey index = sharedSecret)
    (hencrypted : output.encryptedAmount = xorBytes (Bytes.toLe 8 amount) (C.amountKey sharedSecret))
    (hcommit : output.commitment = C.commit amount (C.blinding sharedSecret))
    (hamount : amount < 2 ^ 64) :
    ∃ d, confidentialOutput C keys output index txHash which = some d ∧ d.amount = amount ∧
      d.subaddressIndex = which := by
  simp only [confidentialOutput, hsecret, hencrypted, decryptAmount_xorBytes hamount, hcommit, ne_eq,
    not_true_eq_false, if_false]
  exact ⟨_, rfl, rfl, rfl⟩

variable (hregisters : k.Registers table)
include hregisters

/-- What matches can be reported. -/
lemma KeyEpoch.reportable_of_matchedAddress
    (h : matchedAddress C (k.scanKeys table) stealth index = some w) : Reportable table w := by
  unfold matchedAddress at h
  split_ifs at h with hmain
  · cases h
    exact ⟨trivial, nofun⟩
  · obtain ⟨sub, hsub, rfl⟩ := map_eq_some_iff.mp h
    have hmem : sub ∈ table := mem_of_find?_eq_some hsub
    refine ⟨⟨sub, hmem, rfl, rfl⟩, ?_⟩
    -- the key of 0/0 was tried before the table
    intro hzero
    obtain ⟨haccount, hindex⟩ := Prod.mk.inj (some.inj hzero)
    have hours := find?_some hsub
    rw [hregisters sub hmem, subaddressSpend, if_pos ⟨haccount, hindex⟩] at hours
    exact hmain hours

/-- The scanner matches an output of a registered address. -/
lemma KeyEpoch.matchedAddress_of_owns
    (hwhich : Registered table which)
    (howns : C.isOutputOurs stealth k.viewSecret (k.spendKey which) index = true) :
    ∃ w, matchedAddress C (k.scanKeys table) stealth index = some w ∧
      k.spendKey w = k.spendKey which := by
  cases hmatched : matchedAddress C (k.scanKeys table) stealth index with
  | some w => exact ⟨w, rfl, spendKey_eq_of_owns (owns_of_matchedAddress hregisters hmatched) howns⟩
  | none =>
    unfold matchedAddress at hmatched
    split_ifs at hmatched with hmain
    rw [map_eq_none_iff, find?_eq_none] at hmatched
    cases which with
    | none =>
      rw [spendKey, ← k.spendPublic_eq_compress] at howns
      exact absurd howns hmain
    | some sub =>
      obtain ⟨account, subIndex⟩ := sub
      obtain ⟨entry, hentry, rfl, rfl⟩ := hwhich
      refine absurd ?_ (hmatched entry hentry)
      rw [hregisters entry hentry, k.subaddressSpend_eq]
      exact howns

/-- The scan of an output made for a registered address. -/
lemma scanOutput_paidTo {r : F}
    (hpaid : PaidTo C recipient index isSubaddress r o)
    (haddress : k.Address recipient.spendPublic recipient.viewPublic isSubaddress which)
    (hwhich : Registered table which) (hamount : recipient.amount < 2 ^ 64) (memo : List UInt8)
    (txHash : Hash) :
    ∃ d, scanOutput C [k.scanKeys table] (o.txOutput memo) index txHash false = some d ∧
      d.amount = recipient.amount ∧ k.spendKey d.subaddressIndex = recipient.spendPublic ∧
      Reportable table d.subaddressIndex := by
  obtain ⟨-, stealth, viewPoint, hstealth, hview, rfl⟩ := hpaid
  obtain ⟨viewPoint', txPoint, hview', hshared, hgenerate⟩ := haddress.shared index r
  obtain rfl := mem_unique hview hview'
  have hpair := Except.ok.inj (hstealth.symm.trans hgenerate)
  have howns : C.isOutputOurs stealth.1 k.viewSecret (k.spendKey which) index = true := by
    rw [hpair]
    exact isOutputOurs_eq_true.mpr ⟨txPoint, k.spendScalar which • C.generator,
      decompress_compress _, decompress_compress _, rfl⟩
  obtain ⟨w, hmatched, hkey⟩ := KeyEpoch.matchedAddress_of_owns hregisters hwhich howns
  -- the recipient's shared secret is the sender's
  have hsecret : C.computeSharedSecret k.viewSecret stealth.1.txPublicKey index
      = C.sharedSecret (C.fromBytes stealth.2 • viewPoint) index := by
    rw [computeSharedSecret, hpair, decompress_compress, C.fromBytes_toBytes, hshared]
    rfl
  have hencrypted : C.encryptAmount recipient.amount stealth.2 recipient.viewPublic index
      = xorBytes (Bytes.toLe 8 recipient.amount)
        (C.amountKey (C.sharedSecret (C.fromBytes stealth.2 • viewPoint) index)) := by
    rw [encryptAmount, hview]
  obtain ⟨d, hd, hdamount, hdwhich⟩ := confidentialOutput_of_hidden (k.scanKeys table)
    ((TransactionBuilder.recipientOutput C recipient index stealth.1 stealth.2 viewPoint).txOutput memo)
    txHash w hsecret hencrypted rfl hamount
  refine ⟨d, ?_, hdamount, ?_, ?_⟩
  · simp only [scanOutput, findSome?_singleton]
    exact bind_eq_some_iff.mpr ⟨w, hmatched, hd⟩
  · rw [hdwhich, hkey, haddress.spendPub_eq]
    rfl
  · rw [hdwhich]
    exact KeyEpoch.reportable_of_matchedAddress hregisters hmatched

/-! ## A transaction -/

/-- A block scan reports one output at a position of a transaction: this amount, for the address
with this spend key, and an opening of its commitment. -/
def Finds (C : Curve F G) (S : ScanEnv) (k : KeyEpoch C) (table : List (ℕ × ℕ × PublicKey))
    (block : Block) (tx : Transaction) (i amount : ℕ) (which : Option (ℕ × ℕ)) : Prop :=
  ∃ d output, tx.outputs[i]? = some output ∧
    (scanBlockTransaction C S [k.scanKeys table] block tx).filter (fun d => d.outputIndex = i) = [d] ∧
    d.amount = amount ∧ C.commit d.amount d.blindingFactor = output.commitment ∧
    k.spendKey d.subaddressIndex = k.spendKey which ∧
    (Set.InjOn k.spendKey {w | Reportable table w} → d.subaddressIndex = which)

/-- The recipient finds it. -/
lemma finds_of_paidTo {r : F} (hi : i < 256)
    (hpaid : PaidTo C recipient i isSubaddress r o)
    (haddress : k.Address recipient.spendPublic recipient.viewPublic isSubaddress which)
    (hwhich : Registered table which) (hamount : recipient.amount < 2 ^ 64)
    (houtput : tx.outputs[i]? = some (o.txOutput memo)) (htransfer : tx.txType = .transfer) :
    Finds C S k table block tx i recipient.amount which := by
  obtain ⟨d, hd, hdamount, hdkey, hreportable⟩ :=
    scanOutput_paidTo hregisters hpaid haddress hwhich hamount memo (S.txHash tx)
  have hrevealed : tx.isRevealed = false := by simp [Transaction.isRevealed, htransfer]
  obtain ⟨paymentId, hfilter⟩ := filter_scanBlockTransaction (C := C) [k.scanKeys table] block tx hi
  rw [houtput, hrevealed, bind_some, hd] at hfilter
  obtain ⟨-, hreports⟩ := reports_of_scanOutput hregisters hd
  have hkey : k.spendKey d.subaddressIndex = k.spendKey which :=
    hdkey.trans haddress.spendPub_eq
  refine ⟨d.complete (blockLocators S block) paymentId, o.txOutput memo, houtput, hfilter, hdamount,
    hreports.opens, hkey, ?_⟩
  intro hinj
  exact hinj hreportable ⟨hwhich, haddress.ne_zero⟩ hkey

/-- What a block scan reports can be spent. -/
lemma spends_of_mem_scan (htx : tx ∈ block.transactions)
    (htransfer : tx.txType = .transfer)
    (hd : d ∈ scanBlockTransaction C S [k.scanKeys table] block tx) (height : ℕ) :
    ∃ output utxo input, tx.outputs[d.outputIndex]? = some output ∧
      decryptedToUtxo C d k.viewSecret k.spendSecret height = .ok utxo ∧
      prepareInput C utxo k = .ok input ∧
      C.publicKey input.input.oneTimeSecret = output.stealthAddress ∧
      C.keyImage input.input.oneTimeSecret = utxo.keyImage := by
  have hrevealed : tx.isRevealed = false := by simp [Transaction.isRevealed, htransfer]
  obtain ⟨paymentId, heq⟩ := scanBlockTransaction_eq (C := C) [k.scanKeys table] block tx
  rw [heq] at hd
  obtain ⟨found, hfound, rfl⟩ := mem_map.mp hd
  obtain ⟨⟨output, i⟩, hentry, hscan⟩ := mem_filterMap.mp hfound
  rw [hrevealed] at hscan
  obtain ⟨hhash, hreports⟩ := reports_of_scanOutput hregisters hscan
  have hget := mem_zipIdx_iff_getElem?.mp hentry
  rw [getElem?_take] at hget
  split_ifs at hget with hbyte
  obtain ⟨hlength, -⟩ := List.getElem?_eq_some_iff.mp hget
  obtain ⟨locator, hlocator⟩ := locator_isSome htx hlength hbyte
  have hcomplete : Reports C k output i (found.complete (blockLocators S block) paymentId) :=
    ⟨hreports.output_eq, hreports.index_eq, hreports.opens, hreports.owns⟩
  have hlocated : (found.complete (blockLocators S block) paymentId).outputLocator = some locator := by
    show blockLocators S block (found.txHash, found.outputIndex) = some locator
    rw [hhash, hreports.index_eq]
    exact hlocator
  obtain ⟨utxo, input, hutxo, hinput, hpublic, himage⟩ := spends_of_reports hcomplete hlocated height
  refine ⟨output, utxo, input, ?_, hutxo, hinput, hpublic, himage⟩
  show tx.outputs[found.outputIndex]? = some output
  rw [hreports.index_eq]
  exact hget

omit hregisters

/-- Its outputs in order. -/
lemma Assembled.output_at (h : Assembled C prepared draw tx paid change dummies)
    {i : ℕ} (ho : (paid ++ change ++ dummies)[i]? = some o) :
    ∃ memo, tx.outputs[i]? = some (o.txOutput memo) := by
  obtain ⟨memo, houtputs⟩ := h.outputs
  refine ⟨memo i, ?_⟩
  rw [houtputs, getElem?_mapIdx, ho, map_some]

/-- Output amounts of a built transaction fit 64 bits. -/
lemma Assembled.amount_lt (h : Assembled C prepared draw tx paid change dummies)
    (ho : o ∈ paid ++ change ++ dummies) : o.amount < 2 ^ 64 := by
  have hle := le_sum_of_mem (mem_map_of_mem (f := fun o : OutputBuilder F => o.amount) ho)
  have hfit := h.fit
  omega

/-- Large enough change is an output, unless a drip pair is sent. -/
lemma Change.output_of_min {r : F} (h : Change C prepared r change fee)
    (hshape : prepared.shape ≠ .uniformDripPair) (hmin : minOutputAmount ≤ prepared.changeAmount) :
    ∃ o, change = [o] ∧ prepared.payments.length < maxTxOutputs ∧
      PaidTo C ⟨prepared.spendPublic, prepared.viewPublic, prepared.changeAmount, none⟩
        prepared.payments.length false r o := by
  cases h with
  | output o room _ paid => exact ⟨o, rfl, room, paid⟩
  | folded h =>
    rcases h with hsmall | ⟨hdrip, -⟩
    · omega
    · exact absurd hdrip hshape

/-- In a transaction that was built, a wallet finds the payments to its addresses and its own change
at their positions, and can spend whatever it finds. -/
theorem payment_found (C : Curve F G) (B : BuildEnv F) (S : ScanEnv)
    (prepared : PreparedPrivacyTransaction F) (rings : AllocatedRings) (draw : AssemblyDraw F)
    (tx : Transaction) (hbuild : buildPreparedPrivacyTransaction C B prepared rings draw = .ok tx)
    (block : Block) (htx : tx ∈ block.transactions) (k : KeyEpoch C)
    (table : List (ℕ × ℕ × PublicKey)) (hregisters : k.Registers table) :
    (∀ i p which, prepared.payments[i]? = some p →
      k.Address p.spendPublic p.viewPublic p.isSubaddress which → Registered table which →
      Finds C S k table block tx i p.amount which) ∧
    (k.spendPublic = prepared.spendPublic → k.viewPublic = prepared.viewPublic →
      prepared.shape ≠ .uniformDripPair → minOutputAmount ≤ prepared.changeAmount →
      Finds C S k table block tx prepared.payments.length prepared.changeAmount none) ∧
    ∀ d ∈ scanBlockTransaction C S [k.scanKeys table] block tx, ∀ height,
      ∃ output utxo input, tx.outputs[d.outputIndex]? = some output ∧
        decryptedToUtxo C d k.viewSecret k.spendSecret height = .ok utxo ∧
        prepareInput C utxo k = .ok input ∧
        C.publicKey input.input.oneTimeSecret = output.stealthAddress ∧
        C.keyImage input.input.oneTimeSecret = utxo.keyImage := by
  obtain ⟨paid, change, dummies, hassembled⟩ := assembled_of_build hbuild
  have hcount := hassembled.payments_le
  unfold maxTxOutputs at hcount
  refine ⟨?_, ?_, ?_⟩
  · intro i p which hp haddress hwhich
    obtain ⟨hi, -⟩ := List.getElem?_eq_some_iff.mp hp
    have hi' : i < paid.length := hassembled.paid_length.symm ▸ hi
    have hget : paid[i]? = some paid[i] := getElem?_eq_getElem hi'
    have hpaid := hassembled.paid_to i p _ hp hget
    obtain ⟨memo, houtput⟩ := hassembled.output_at (by
      rw [append_assoc, getElem?_append_left hi', hget])
    have hamount : p.recipient.amount < 2 ^ 64 := by
      rw [← hpaid.amount_eq]
      exact hassembled.amount_lt (by simp)
    exact finds_of_paidTo hregisters (by omega) hpaid haddress hwhich hamount houtput hassembled.transfer
  · intro hspend hview hshape hmin
    obtain ⟨o, rfl, room, hpaid⟩ := hassembled.change_fee.output_of_min hshape hmin
    obtain ⟨memo, houtput⟩ := hassembled.output_at (i := prepared.payments.length) (o := o) (by
      rw [← hassembled.paid_length]
      simp)
    have hamount : prepared.changeAmount < 2 ^ 64 := by
      rw [← show o.amount = prepared.changeAmount from hpaid.amount_eq]
      exact hassembled.amount_lt (by simp)
    have haddress : k.Address prepared.spendPublic prepared.viewPublic false none := by
      rw [← hspend, ← hview]
      exact .main
    exact finds_of_paidTo hregisters (by omega) hpaid haddress trivial hamount houtput
      hassembled.transfer
  · intro d hd height
    exact spends_of_mem_scan hregisters htx hassembled.transfer hd height

end Found

/-! ## A payment to a subaddress -/

/-- Constant digests. -/
def smallScan : ScanEnv := ⟨fun _ => 9, fun _ => 0, fun _ _ _ => none⟩

/-- One subaddress. -/
def smallTable : List (ℕ × ℕ × PublicKey) := [(0, 1, smallKeys.subaddressSpend 0 1)]

/-- The wallet pays its own subaddress and gets change. -/
def smallPrepared : PreparedPrivacyTransaction (ZMod 7) where
  inputs := [(smallUtxo 0 10).input Curve.small ⟨10, 0⟩ 3]
  payments := [⟨smallKeys.subaddressSpend 0 1, smallKeys.subaddressView 0 1, 500000000, true⟩]
  changeAmount := 490000000
  estimatedFee := 10000000
  context := .forTargetHeight 0 1000
  shape := .uniformStandard
  spendPublic := smallKeys.spendPublic
  viewPublic := smallKeys.viewPublic
  memo := none
  extra := []
  paymentId := none

/-- Payment and change are found. -/
theorem payment_found_small :
    ∃ tx, buildPreparedPrivacyTransaction Curve.small smallBuild smallPrepared (smallRings smallPrepared)
        smallDraw = .ok tx ∧
      Finds Curve.small smallScan smallKeys smallTable ⟨⟨1000, 0, 0⟩, [tx]⟩ tx 0 500000000 (some (0, 1)) ∧
      Finds Curve.small smallScan smallKeys smallTable ⟨⟨1000, 0, 0⟩, [tx]⟩ tx 1 490000000 none := by
  have hok : (buildPreparedPrivacyTransaction Curve.small smallBuild smallPrepared
      (smallRings smallPrepared) smallDraw).toBool = true := by decide +kernel
  cases hbuild : buildPreparedPrivacyTransaction Curve.small smallBuild smallPrepared
      (smallRings smallPrepared) smallDraw with
  | error e =>
    rw [hbuild] at hok
    cases hok
  | ok tx =>
    have hregisters : smallKeys.Registers smallTable := by
      intro sub hsub
      obtain rfl := mem_singleton.mp hsub
      rfl
    obtain ⟨hpayments, hchange, -⟩ := payment_found Curve.small smallBuild smallScan smallPrepared
      (smallRings smallPrepared) smallDraw tx hbuild ⟨⟨1000, 0, 0⟩, [tx]⟩ mem_cons_self smallKeys
      smallTable hregisters
    refine ⟨tx, rfl, ?_, hchange rfl rfl (by decide) (by decide)⟩
    exact hpayments 0 _ (some (0, 1)) rfl (.subaddress 0 1 (by decide)) ⟨_, mem_cons_self, rfl, rfl⟩

end CoinCync.Wallet

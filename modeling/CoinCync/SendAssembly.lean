import CoinCync.Send

/-!
# What the assembly of a send puts into a transaction

Every prepared transaction that is built has the payments in front, then the change if it is large enough,
then dummies of amount zero, for each of the three shapes. The amounts balance in exact arithmetic, since
the builder checks them so. `PaidTo` is what the recipient of an output relies on: the output was made
for these keys at this index.
-/

namespace CoinCync.Wallet

open List Check

open MachineInt (satAdd)
open TransactionBuilder

section Assembly

variable {F G : Type} [CommRing F] [AddCommGroup G] [Module F G] {C : Curve F G} {B : BuildEnv F}
  {b b' : TransactionBuilder F} {prepared : PreparedPrivacyTransaction F} {draw : AssemblyDraw F}
variable {o : OutputBuilder F} {rings : AllocatedRings} {index : ℕ}

/-- The output was made for a recipient, index and random scalar. -/
def PaidTo (C : Curve F G) (recipient : Recipient) (index : ℕ) (isSubaddress : Bool) (r : F)
    (o : OutputBuilder F) : Prop :=
  minOutputAmount ≤ recipient.amount ∧ ∃ stealth viewPoint,
    C.generateStealthAddressCheckedExt recipient.spendPublic recipient.viewPublic index isSubaddress r
      = .ok stealth ∧
    C.decompress recipient.viewPublic = some viewPoint ∧
    o = recipientOutput C recipient index stealth.1 stealth.2 viewPoint

lemma PaidTo.amount_eq {r : F} (h : PaidTo C recipient index isSubaddress r o) :
    o.amount = recipient.amount := by
  obtain ⟨-, stealth, viewPoint, -, -, rfl⟩ := h
  rfl

/-- What an accepted output appends. -/
lemma paidTo_of_addOutputExt (h : addOutputExt C b recipient index isSubaddress r = .ok b') :
    b.outputs.length < maxTxOutputs ∧
      ∃ o, PaidTo C recipient index isSubaddress r o ∧ b' = b.appendOutputs [o] := by
  simp only [addOutputExt, seq_eq_ok, require_eq_ok] at h
  obtain ⟨hcount, hamount, h⟩ := h
  obtain ⟨stealth, hstealth, h⟩ := bind_eq_ok.mp h
  obtain ⟨viewPoint, hview, h⟩ := bind_eq_ok.mp h
  exact ⟨hcount, _, ⟨hamount, stealth, viewPoint, mapError_eq_ok.mp hstealth,
    fromSome_eq_ok.mp hview, rfl⟩, (Except.ok.inj h).symm⟩

/-! ## The parts -/

/-- Inputs keep amounts and secrets. -/
lemma addInputs_eq_ok (h : addInputs C b entries = .ok b') :
    ∃ added : List (InputBuilder F), b' = b.appendInputs added ∧
      added.map (·.amount) = entries.map (·.1.input.amount) ∧
      added.map (·.oneTimeSecret) = entries.map (·.1.input.oneTimeSecret) := by
  induction entries generalizing b with
  | nil =>
    obtain rfl := Except.ok.inj h
    exact ⟨[], b.appendInputs_nil.symm, rfl, rfl⟩
  | cons entry entries ih =>
    obtain ⟨b1, h1, h⟩ := bind_eq_ok.mp h
    obtain ⟨first, rfl, hamount, hsecret⟩ := addInputAtPosition_eq_ok (mapError_eq_ok.mp h1)
    obtain ⟨added, rfl, hamounts, hsecrets⟩ := ih h
    refine ⟨first :: added, by simp, ?_, ?_⟩
    · rw [map_cons, map_cons, hamount, hamounts]
    · rw [map_cons, map_cons, hsecret, hsecrets]

/-- With the rings checked. -/
lemma addPreparedInputs_eq_ok {inputs : List (PreparedInput F)}
    (h : addPreparedInputs C b inputs rings size = .ok b') :
    ∃ added : List (InputBuilder F), b' = b.appendInputs added ∧
      added.map (·.amount) = inputs.map (·.input.amount) ∧
      added.map (·.oneTimeSecret) = inputs.map (·.input.oneTimeSecret) := by
  simp only [addPreparedInputs, seq_eq_ok, require_eq_ok] at h
  obtain ⟨hcount, -, -, h⟩ := h
  obtain ⟨added, rfl, hamounts, hsecrets⟩ := addInputs_eq_ok h
  -- there is a ring for every input
  have hfst {β : Type} (g : PreparedInput F → β) :
      (inputs.zip rings.rings).map (fun entry => g entry.1) = inputs.map g := by
    rw [← Function.comp_def g Prod.fst, ← map_map, map_fst_zip hcount.le]
  exact ⟨added, rfl, hamounts.trans (hfst fun p => p.input.amount),
    hsecrets.trans (hfst fun p => p.input.oneTimeSecret)⟩

/-- The payments become the next outputs, in their order. -/
lemma addPayments_eq_ok (hindex : index = b.outputs.length)
    (h : addPayments C d b index payments = .ok b') :
    ∃ paid : List (OutputBuilder F), b' = b.appendOutputs paid ∧
      paid.length = payments.length ∧
      (index ≤ maxTxOutputs → index + payments.length ≤ maxTxOutputs) ∧
      ∀ j p o, payments[j]? = some p → paid[j]? = some o →
        PaidTo C p.recipient (index + j) p.isSubaddress (d (index + j)) o := by
  induction payments generalizing b index with
  | nil =>
    obtain rfl := Except.ok.inj h
    exact ⟨[], b.appendOutputs_nil.symm, rfl, id, by simp⟩
  | cons p payments ih =>
    obtain ⟨b1, h1, h⟩ := bind_eq_ok.mp h
    obtain ⟨hcount, o, ho, rfl⟩ := paidTo_of_addOutputExt (mapError_eq_ok.mp h1)
    -- an index that was accepted is a byte
    have hbyte : index % 256 = index := by
      unfold maxTxOutputs at hcount
      omega
    rw [hbyte] at ho
    obtain ⟨paid, rfl, hlength, hbound, hpaid⟩ := ih (by simp [hindex]) h
    refine ⟨o :: paid, by simp, by simp [hlength], ?_, ?_⟩
    · rw [length_cons]
      omega
    · intro j q o' hq ho'
      cases j with
      | zero =>
        obtain rfl : p = q := by simpa using hq
        obtain rfl : o = o' := by simpa using ho'
        exact ho
      | succ j =>
        have := hpaid j q o' hq ho'
        rwa [add_right_comm] at this

/-- The output was made for random keys. -/
def IsDummy (C : Curve F G) (index : ℕ) (d : DummyDraw F) (o : OutputBuilder F) : Prop :=
  ∃ stealth : StealthAddress × SecretKey,
    C.generateStealthAddressCheckedExt (C.publicKey d.spendSecret) (C.publicKey d.viewSecret) index false
      d.txSecret = .ok stealth ∧
    o = dummyOutput C d index stealth.1 stealth.2

lemma IsDummy.amount_eq {d : DummyDraw F} (h : IsDummy C index d o) : o.amount = 0 := by
  obtain ⟨stealth, -, rfl⟩ := h
  rfl

/-- Dummies from a position on, each with one of the draws. -/
def Dummies (C : Curve F G) (d : ℕ → DummyDraw F) (start : ℕ) (outputs : List (OutputBuilder F)) :
    Prop := ∀ j o, outputs[j]? = some o → ∃ k, IsDummy C (start + j) (d k) o

variable {d : ℕ → DummyDraw F}

lemma dummies_nil (start : ℕ) : Dummies C d start [] := by simp [Dummies]

lemma Dummies.cons {outputs : List (OutputBuilder F)} (ho : IsDummy C start (d k) o)
    (h : Dummies C d (start + 1) outputs) : Dummies C d start (o :: outputs) := by
  intro j o' ho'
  cases j with
  | zero =>
    obtain rfl : o = o' := by simpa using ho'
    exact ⟨k, ho⟩
  | succ j =>
    have := h j o' (by simpa using ho')
    rwa [add_right_comm] at this

lemma dummies_of_addDummyOutput (h : addDummyOutput C b (d k) = .ok b') :
    ∃ dummies, b' = b.appendOutputs dummies ∧ Dummies C d b.outputs.length dummies := by
  rcases addDummyOutput_eq_ok h with rfl | ⟨stealth, hstealth, rfl⟩
  · exact ⟨[], b'.appendOutputs_nil.symm, dummies_nil _⟩
  · exact ⟨_, rfl, .cons ⟨stealth, hstealth, rfl⟩ (dummies_nil _)⟩

/-- Dummies are appended. -/
lemma addDummies_eq_ok (h : addDummies C d b n = .ok b') :
    ∃ dummies, b' = b.appendOutputs dummies ∧ Dummies C d b.outputs.length dummies := by
  induction n generalizing b with
  | zero =>
    obtain rfl := Except.ok.inj h
    exact ⟨[], b.appendOutputs_nil.symm, dummies_nil _⟩
  | succ n ih =>
    obtain ⟨b1, hfirst, h⟩ := bind_eq_ok.mp h
    obtain ⟨dummies, hb', hdummies⟩ := ih h
    rcases addDummyOutput_eq_ok (mapError_eq_ok.mp hfirst) with rfl | ⟨stealth, hstealth, rfl⟩
    · exact ⟨dummies, hb', hdummies⟩
    · refine ⟨_ :: dummies, by rw [hb', appendOutputs_appendOutputs, singleton_append], ?_⟩
      refine .cons ⟨stealth, hstealth, rfl⟩ ?_
      rwa [outputs_appendOutputs, length_append, length_singleton] at hdummies

/-! ## The shapes -/

/-- The change becomes an output, or goes into the fee if too small or a drip pair is sent. -/
inductive Change (C : Curve F G) (prepared : PreparedPrivacyTransaction F) (r : F) :
    List (OutputBuilder F) → ℕ → Prop
  | output (o : OutputBuilder F) (room : prepared.payments.length < maxTxOutputs)
      (shape : prepared.shape ≠ .uniformDripPair)
      (paid : PaidTo C ⟨prepared.spendPublic, prepared.viewPublic, prepared.changeAmount, none⟩
        prepared.payments.length false r o) : Change C prepared r [o] prepared.estimatedFee
  | folded (h : prepared.changeAmount < minOutputAmount ∨ prepared.shape = .uniformDripPair ∧
        prepared.changeAmount ≤ sumWith (satAdd 64) (prepared.payments.map (·.amount))) :
      Change C prepared r [] (satAdd 64 prepared.estimatedFee prepared.changeAmount)

lemma change_of_addPreparedChange (hlength : b.outputs.length = prepared.payments.length)
    (hshape : prepared.shape ≠ .uniformDripPair) (h : addPreparedChange C b prepared r = .ok b') :
    ∃ change, Change C prepared r change prepared.estimatedFee ∧
      b' = b.appendOutputs change := by
  obtain ⟨hcount, o, ho, rfl⟩ := paidTo_of_addOutputExt (mapError_eq_ok.mp h)
  have hbyte : prepared.payments.length % 256 = prepared.payments.length := by
    unfold maxTxOutputs at hcount
    omega
  rw [hbyte] at ho
  exact ⟨[o], .output o (hlength ▸ hcount) hshape ho, rfl⟩

lemma settle_eq_ok (hlength : b.outputs.length = prepared.payments.length)
    (h : settle C b prepared draw = .ok settled) :
    ∃ change dummies, Change C prepared draw.change change settled.2 ∧
      Dummies C draw.dummy (b.outputs ++ change).length dummies ∧
      settled.1 = b.appendOutputs (change ++ dummies) := by
  unfold settle at h
  cases hshape : prepared.shape with
  | uniformDripPair =>
    simp only [hshape] at h
    obtain ⟨fee, hfee, h⟩ := bind_eq_ok.mp h
    cases h
    simp only [dripPairFinalFee, seq_eq_ok, require_eq_ok] at hfee
    obtain ⟨hle, hfee⟩ := hfee
    cases hfee
    exact ⟨[], [], .folded (.inr ⟨hshape, hle⟩), dummies_nil _, by simp⟩
  | uniformStandard =>
    simp only [hshape] at h
    split_ifs at h with hmin
    · obtain ⟨b1, h1, h⟩ := bind_eq_ok.mp h
      cases h
      obtain ⟨change, hchange, rfl⟩ := change_of_addPreparedChange hlength (by simp [hshape]) h1
      exact ⟨change, [], hchange, dummies_nil _, by simp⟩
    · obtain ⟨b1, h1, h⟩ := bind_eq_ok.mp h
      cases h
      obtain ⟨dummies, rfl, hdummies⟩ := dummies_of_addDummyOutput (mapError_eq_ok.mp h1)
      exact ⟨[], dummies, .folded (.inl (by omega)), by simpa using hdummies, rfl⟩
  | legacy =>
    simp only [hshape] at h
    split_ifs at h with hmin
    · obtain ⟨b1, h1, h⟩ := bind_eq_ok.mp h
      obtain ⟨b2, h2, h⟩ := bind_eq_ok.mp h
      cases h
      obtain ⟨change, hchange, rfl⟩ := change_of_addPreparedChange hlength (by simp [hshape]) h1
      obtain ⟨dummies, rfl, hdummies⟩ := addDummies_eq_ok h2
      exact ⟨change, dummies, hchange, hdummies, by simp⟩
    · obtain ⟨b1, h1, h⟩ := bind_eq_ok.mp h
      cases h
      obtain ⟨dummies, rfl, hdummies⟩ := addDummies_eq_ok h1
      exact ⟨[], dummies, .folded (.inl (by omega)), by simpa using hdummies, rfl⟩

/-! ## The whole -/

/-- A transaction built from a prepared one and the random draws. -/
structure Assembled (C : Curve F G) (prepared : PreparedPrivacyTransaction F) (draw : AssemblyDraw F)
    (tx : Transaction) (paid change dummies : List (OutputBuilder F)) : Prop where
  transfer : tx.txType = .transfer
  keyImages : tx.inputs.map (·.keyImage) =
    prepared.inputs.map fun input => C.keyImage input.input.oneTimeSecret
  outputs : ∃ memo : ℕ → List UInt8,
    tx.outputs = (paid ++ change ++ dummies).mapIdx fun i o => o.txOutput (memo i)
  paid_length : paid.length = prepared.payments.length
  payments_le : prepared.payments.length ≤ maxTxOutputs
  paid_to : ∀ j p o, prepared.payments[j]? = some p → paid[j]? = some o →
    PaidTo C p.recipient j p.isSubaddress (draw.payment j) o
  change_fee : Change C prepared draw.change change tx.fee
  dummies_made : Dummies C draw.dummy (paid ++ change).length dummies
  fit : ((paid ++ change ++ dummies).map (·.amount)).sum + tx.fee < 2 ^ 64
  balance : (prepared.inputs.map (·.input.amount)).sum
    = ((paid ++ change ++ dummies).map (·.amount)).sum + tx.fee

/-- A send that was built. -/
lemma assembled_of_build (h : buildPreparedPrivacyTransaction C B prepared rings draw = .ok tx) :
    ∃ paid change dummies, Assembled C prepared draw tx paid change dummies := by
  obtain ⟨_, hinputs, h⟩ := bind_eq_ok.mp h
  obtain ⟨_, hpayments, h⟩ := bind_eq_ok.mp h
  obtain ⟨⟨last, fee⟩, hsettle, hbuild⟩ := bind_eq_ok.mp h
  obtain ⟨inputs, rfl, hamounts, hsecrets⟩ := addPreparedInputs_eq_ok hinputs
  obtain ⟨paid, rfl, hlength, hbound, hpaid⟩ :=
    addPayments_eq_ok (show 0 = _ from rfl) hpayments
  obtain ⟨change, dummies, hchange, hdummies, hlast⟩ := settle_eq_ok hlength hsettle
  obtain ⟨htype, hfee, himages, ⟨memo, houtputs⟩, hfit, hbalance⟩ :=
    built_of_build (mapError_eq_ok.mp hbuild)
  -- the builder that is built, part by part
  have hlast : last = _ := hlast
  have hin : (last.setFee fee).inputs = inputs := by rw [hlast]; rfl
  have hzero : (last.setFee fee).valueBalance = 0 := by rw [hlast]; rfl
  have htransfer : (last.setFee fee).txType = .transfer := by rw [hlast]; rfl
  have hall : (last.setFee fee).outputs = paid ++ change ++ dummies := by
    rw [hlast, append_assoc]
    rfl
  rw [txOutputs, hall] at houtputs
  rw [outputSum, hall, ← hfee] at hfit
  rw [outputSum, inputSum, hall, hin, hzero, ← hfee, hamounts] at hbalance
  refine ⟨paid, change, dummies, htype.trans htransfer, ?_, ⟨memoAt memo, houtputs⟩, hlength, ?_, ?_,
    ?_, hdummies, hfit, by exact_mod_cast hbalance⟩
  · rw [himages, hin]
    have := congrArg (map C.keyImage) hsecrets
    simpa only [map_map, Function.comp_def] using this
  · have := hbound (Nat.zero_le _)
    rwa [zero_add] at this
  · intro j p o hp ho
    have := hpaid j p o hp ho
    rwa [zero_add] at this
  · rw [hfee]
    exact hchange

end Assembly

/-! ## A small wallet to evaluate on -/

/-- A build in which every proof succeeds. -/
def smallBuild : BuildEnv (ZMod 7) where
  encryptMemo _ _ _ := some []
  rangeProof _ _ _ := some 0
  signingHash _ := 0
  signClsag _ _ _ _ _ _ := some 0

/-- A mature output. -/
def smallUtxo (index height : ℕ) : Utxo where
  txHash := 1
  outputIndex := index
  outputLocator := some ⟨height, index⟩
  amount := 1000000000
  height := height
  keyImage := index
  spent := false
  amountBlindingBytes := 4
  txPublicKey := 5
  lockHeight := none
  subaddressAccount := none
  subaddressIndex := none
  paymentId := none
  keyEpoch := 0

attribute [local instance] atLeastTwo_two atLeastTwo_three

/-- Fixed draws. -/
def smallDraw : AssemblyDraw (ZMod 7) := ⟨fun _ => 2, 3, fun _ => ⟨1, 1, 1, 1⟩, 0, fun _ => 1⟩

/-- Rings of one decoy over and over. -/
def smallRings (prepared : PreparedPrivacyTransaction (ZMod 7)) : AllocatedRings where
  ringSize := prepared.context.ringSize
  realOutputs := prepared.inputs.map (·.realOutput)
  rings := prepared.inputs.map fun _ => ⟨List.replicate (prepared.context.ringSize - 1) ⟨1, 2⟩, 0⟩

end CoinCync.Wallet

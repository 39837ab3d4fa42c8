import Mathlib.Data.ZMod.Basic
import CoinCync.Block
import CoinCync.Lib.Bytes
import CoinCync.Lib.Check

/-!
# Wallet keys, stealth addresses and hidden amounts

The curve is a group of points with scalars that act on it, and the hashes are functions; keys and
commitments are bytes, which need not decode to a point. Over it stand the derivations that sender,
scanner and spender each make for themselves. They agree because they all start from one shared
point: the sender's `r • V` is the recipient's `a • R`, for the main address (`R = r • G`) and for a
subaddress (`R = r • D`) alike.
-/

namespace CoinCync.Wallet

/-- A secret of 32 bytes, which need not be reduced. -/
abbrev SecretKey := ℕ

/-- Ristretto and the hashes. -/
structure Curve (F G : Type) [CommRing F] [AddCommGroup G] [Module F G] where
  generator : G
  /-- The generator of the values in a commitment. -/
  generatorH : G
  compress : G → PublicKey
  decompress : PublicKey → Option G
  /-- Encodings are canonical. -/
  decompress_eq_some : ∀ {k p}, decompress k = some p ↔ compress p = k
  toBytes : F → SecretKey
  /-- Reduction modulo the group order. -/
  fromBytes : SecretKey → F
  fromBytes_toBytes : ∀ x, fromBytes (toBytes x) = x
  /-- Of a compressed point and an index byte. -/
  hashToScalar : PublicKey → ℕ → F
  hashToPoint : PublicKey → G
  /-- `hash_domain` of the domain and the fields of its input. -/
  hashDomain : String → List ℕ → Hash

/-- `StealthAddress`. -/
structure StealthAddress where
  publicKey : PublicKey
  txPublicKey : PublicKey
deriving DecidableEq

/-- A key that is no point. -/
inductive KeyError
  | invalidSpendKey
  | invalidViewKey
  | invalidTxPublicKey
deriving DecidableEq

/-- The first eight bytes of a digest. -/
def firstBytes (h : Hash) : List UInt8 :=
  (List.range 8).map fun i => UInt8.ofNat (h / 256 ^ (31 - i))

/-- Bytewise. -/
def xorBytes (a b : List UInt8) : List UInt8 := List.zipWith (· ^^^ ·) a b

lemma xorBytes_xorBytes (h : a.length ≤ b.length) : xorBytes (xorBytes a b) b = a := by
  induction a generalizing b with
  | nil => rfl
  | cons x a ih =>
    cases b with
    | nil => simp at h
    | cons y b =>
      have hxy : x ^^^ y ^^^ y = x := by rw [UInt8.xor_assoc, UInt8.xor_self, UInt8.xor_zero]
      have htail : xorBytes (xorBytes a b) b = a := ih (by simpa using h)
      simp only [xorBytes, List.zipWith_cons_cons, hxy] at htail ⊢
      rw [htail]

@[simp] lemma length_xorBytes (a b : List UInt8) :
    (xorBytes a b).length = min a.length b.length := List.length_zipWith

@[simp] lemma length_firstBytes (h : Hash) : (firstBytes h).length = 8 := by simp [firstBytes]

variable {F G : Type} [CommRing F] [AddCommGroup G] [Module F G]

namespace Curve

variable (C : Curve F G)

/-- `SecretKey::public_key`. -/
def publicKey (secret : SecretKey) : PublicKey := C.compress (C.fromBytes secret • C.generator)

/-- `PedersenCommitment::commit`. -/
def commit (value : ℕ) (blinding : F) : PublicKey :=
  C.compress ((value : F) • C.generatorH + blinding • C.generator)

/-- The one-time key of an output with this shared point. -/
def oneTimeKey (shared : G) (index : ℕ) (spend : G) : G :=
  C.hashToScalar (C.compress shared) index • C.generator + spend

/-- `generate_stealth_address_checked_ext`, given the secret. -/
def generateStealthAddressCheckedExt (spendPub viewPub : PublicKey) (index : ℕ) (isSubaddress : Bool)
    (txSecret : F) : Except KeyError (StealthAddress × SecretKey) := do
  let spendPoint ← Check.fromSome (C.decompress spendPub) .invalidSpendKey
  let txPublic := if isSubaddress then txSecret • spendPoint else txSecret • C.generator
  let viewPoint ← Check.fromSome (C.decompress viewPub) .invalidViewKey
  let shared := txSecret • viewPoint
  return (⟨C.compress (C.oneTimeKey shared index spendPoint), C.compress txPublic⟩,
    C.toBytes txSecret)

/-- `is_output_ours`. -/
def isOutputOurs (stealth : StealthAddress) (viewSecret : SecretKey) (spendPub : PublicKey)
    (index : ℕ) : Bool :=
  match C.decompress stealth.txPublicKey with
  | none => false
  | some txPoint =>
    if (C.decompress stealth.publicKey).isNone then false
    else match C.decompress spendPub with
      | none => false
      | some spendPoint =>
        let shared := C.fromBytes viewSecret • txPoint
        stealth.publicKey = C.compress (C.oneTimeKey shared index spendPoint)

/-- `compute_one_time_secret`. -/
def computeOneTimeSecret (stealth : StealthAddress) (viewSecret spendSecret : SecretKey) (index : ℕ) :
    Except KeyError SecretKey := do
  let txPoint ← Check.fromSome (C.decompress stealth.txPublicKey) .invalidTxPublicKey
  let shared := C.fromBytes viewSecret • txPoint
  return C.toBytes (C.hashToScalar (C.compress shared) index + C.fromBytes spendSecret)

/-- `KeyImage::from_secret`. -/
def keyImage (secret : SecretKey) : KeyImage :=
  let public' := C.fromBytes secret • C.generator
  C.compress (C.fromBytes secret • C.hashToPoint (C.compress public'))

/-- The scalar of a subaddress. -/
def subaddressScalar (viewSecret : SecretKey) (account index : ℕ) : F :=
  C.fromBytes (C.hashDomain "COINCYNC_SUBADDR_v1" [viewSecret, account, index])

/-- `compute_subaddress_spend_secret`; the main address has the secret itself. -/
def computeSubaddressSpendSecret (spendSecret viewSecret : SecretKey) (account index : ℕ) :
    SecretKey :=
  if account = 0 ∧ index = 0 then spendSecret
  else C.toBytes (C.fromBytes spendSecret + C.subaddressScalar viewSecret account index)

/-! ## What hides an amount -/

/-- The shared secret of an output, from its shared point. -/
def sharedSecret (shared : G) (index : ℕ) : Hash :=
  C.hashDomain "COINCYNC_SHARED_v2" [C.compress shared, index]

/-- The blinding factor. -/
def blinding (sharedSecret : Hash) : F := C.fromBytes (C.hashDomain "COINCYNC_BLINDING" [sharedSecret])

/-- The key that hides the amount. -/
def amountKey (sharedSecret : Hash) : List UInt8 :=
  firstBytes (C.hashDomain "COINCYNC_AMOUNT_KEY" [sharedSecret])

/-- The first byte of the digest. -/
def viewTag (shared : G) (index : ℕ) : UInt8 :=
  UInt8.ofNat (C.hashDomain "COINCYNC_VIEWTAG_v2" [C.compress shared, index] / 256 ^ 31)

/-- `encrypt_amount` of the builder. -/
def encryptAmount (amount : ℕ) (txSecret : SecretKey) (viewPub : PublicKey) (index : ℕ) : List UInt8 :=
  match C.decompress viewPub with
  | none => List.replicate 8 0
  | some viewPoint =>
    let shared := C.sharedSecret (C.fromBytes txSecret • viewPoint) index
    xorBytes (Bytes.toLe 8 amount) (C.amountKey shared)

/-- `compute_view_tag` of the builder. -/
def senderViewTag (txSecret : SecretKey) (viewPub : PublicKey) (index : ℕ) : UInt8 :=
  match C.decompress viewPub with
  | none => 0
  | some viewPoint => C.viewTag (C.fromBytes txSecret • viewPoint) index

/-- `compute_view_tag`; a key that is no point has the tag 255. -/
def computeViewTag (viewSecret : SecretKey) (txPublic : PublicKey) (index : ℕ) : UInt8 :=
  match C.decompress txPublic with
  | none => 255
  | some txPoint => C.viewTag (C.fromBytes viewSecret • txPoint) index

/-- `compute_shared_secret` of the scanners. -/
def computeSharedSecret (viewSecret : SecretKey) (txPublic : PublicKey) (index : ℕ) : Hash :=
  match C.decompress txPublic with
  | none => 0
  | some txPoint => C.sharedSecret (C.fromBytes viewSecret • txPoint) index

/-- `decrypt_amount` of the scanners. -/
def decryptAmount (encrypted : List UInt8) (sharedSecret : Hash) : ℕ × F :=
  (if 8 ≤ encrypted.length then Bytes.ofLe (xorBytes (encrypted.take 8) (C.amountKey sharedSecret))
    else 0,
    C.blinding sharedSecret)

/-- The amount of a coinbase or unshield output. -/
def plainAmount (encrypted : List UInt8) : ℕ :=
  if 8 ≤ encrypted.length then Bytes.ofLe (encrypted.take 8) else 0

variable {C}

@[simp] lemma decompress_compress (p : G) : C.decompress (C.compress p) = some p :=
  C.decompress_eq_some.mpr rfl

lemma compress_injective : Function.Injective C.compress := by
  intro p q h
  have hp : C.decompress (C.compress p) = some q := by rw [h, decompress_compress]
  exact Option.some.inj ((decompress_compress p).symm.trans hp)

lemma length_amountKey (s : Hash) : (C.amountKey s).length = 8 := length_firstBytes _

/-- A 64-bit amount is read back. -/
lemma decryptAmount_xorBytes (h : amount < 2 ^ 64) (s : Hash) :
    C.decryptAmount (xorBytes (Bytes.toLe 8 amount) (C.amountKey s)) s = (amount, C.blinding s) := by
  have hlen : (xorBytes (Bytes.toLe 8 amount) (C.amountKey s)).length = 8 := by
    simp [length_amountKey]
  unfold decryptAmount
  rw [if_pos hlen.ge, List.take_of_length_le hlen.le, xorBytes_xorBytes (by simp [length_amountKey]),
    Bytes.ofLe_toLe (by simpa using h)]

lemma isOutputOurs_eq_true :
    C.isOutputOurs stealth viewSecret spendPub index = true ↔
      ∃ txPoint spendPoint, C.decompress stealth.txPublicKey = some txPoint ∧
        C.decompress spendPub = some spendPoint ∧
        stealth.publicKey =
          C.compress (C.oneTimeKey (C.fromBytes viewSecret • txPoint) index spendPoint) := by
  unfold isOutputOurs
  cases htx : C.decompress stealth.txPublicKey with
  | none => simp
  | some txPoint =>
    cases hspend : C.decompress spendPub with
    | none => simp
    | some spendPoint =>
      by_cases heq : stealth.publicKey =
          C.compress (C.oneTimeKey (C.fromBytes viewSecret • txPoint) index spendPoint)
      · simp [heq]
      · simp [heq]

end Curve

/-! ## Addresses -/

/-- The keys of a wallet in one epoch. -/
structure KeyEpoch (C : Curve F G) where
  epoch : ℕ
  spendSecret : SecretKey
  viewSecret : SecretKey
  spendPublic : PublicKey
  viewPublic : PublicKey
  spendPublic_eq : spendPublic = C.publicKey spendSecret
  viewPublic_eq : viewPublic = C.publicKey viewSecret

namespace KeyEpoch

variable {C : Curve F G} (k : KeyEpoch C)

/-- The view secret as a scalar. -/
def view : F := C.fromBytes k.viewSecret

/-- The spend secret of the main address or a subaddress. -/
def spendScalar : Option (ℕ × ℕ) → F
  | none => C.fromBytes k.spendSecret
  | some (account, index) =>
    if account = 0 ∧ index = 0 then C.fromBytes k.spendSecret
    else C.fromBytes k.spendSecret + C.subaddressScalar k.viewSecret account index

/-- The point of the spend key. -/
def spendPoint : G := C.fromBytes k.spendSecret • C.generator

/-- The point of a subaddress other than `0/0`. -/
def subaddressPoint (account index : ℕ) : G :=
  k.spendPoint + C.subaddressScalar k.viewSecret account index • C.generator

/-- `SubaddressManager::generate_at`; `0/0` is the main spend key. -/
def subaddressSpend (account index : ℕ) : PublicKey :=
  if account = 0 ∧ index = 0 then k.spendPublic else C.compress (k.subaddressPoint account index)

/-- The view key that a subaddress publishes. -/
def subaddressView (account index : ℕ) : PublicKey :=
  if account = 0 ∧ index = 0 then k.viewPublic
  else C.compress (k.view • k.subaddressPoint account index)

lemma spendPublic_eq_compress :
    k.spendPublic = C.compress (k.spendScalar none • C.generator) := k.spendPublic_eq

lemma viewPublic_eq_compress : k.viewPublic = C.compress (k.view • C.generator) := k.viewPublic_eq

lemma subaddressPoint_eq (h : ¬(account = 0 ∧ index = 0)) :
    k.subaddressPoint account index = k.spendScalar (some (account, index)) • C.generator := by
  unfold subaddressPoint spendPoint
  rw [← add_smul]
  simp only [spendScalar, if_neg h]

/-- Its secret is `spendScalar`. -/
lemma subaddressSpend_eq (account index : ℕ) :
    k.subaddressSpend account index
      = C.compress (k.spendScalar (some (account, index)) • C.generator) := by
  unfold subaddressSpend
  split_ifs with h
  · rw [k.spendPublic_eq_compress]
    simp only [spendScalar, if_pos h]
  · rw [k.subaddressPoint_eq h]

/-- As the wallet computes it. -/
lemma fromBytes_computeSubaddressSpendSecret (account index : ℕ) :
    C.fromBytes (C.computeSubaddressSpendSecret k.spendSecret k.viewSecret account index)
      = k.spendScalar (some (account, index)) := by
  unfold Curve.computeSubaddressSpendSecret
  by_cases h : account = 0 ∧ index = 0
  · simp only [spendScalar, if_pos h]
  · simp only [spendScalar, if_neg h, C.fromBytes_toBytes]

/-- The published keys, and the flag a sender sets for them. -/
inductive Address : PublicKey → PublicKey → Bool → Option (ℕ × ℕ) → Prop
  | main : Address k.spendPublic k.viewPublic false none
  | subaddress (account index : ℕ) (h : ¬(account = 0 ∧ index = 0)) :
      Address (k.subaddressSpend account index) (k.subaddressView account index) true
        (some (account, index))

variable {k}

lemma Address.spendPub_eq (h : k.Address spendPub viewPub isSubaddress which) :
    spendPub = C.compress (k.spendScalar which • C.generator) := by
  cases h with
  | main => exact k.spendPublic_eq_compress
  | subaddress account index => exact k.subaddressSpend_eq account index

/-- Sender and recipient compute one shared point. -/
lemma Address.shared (h : k.Address spendPub viewPub isSubaddress which) (index : ℕ)
    (txSecret : F) :
    ∃ viewPoint txPoint, C.decompress viewPub = some viewPoint ∧
      txSecret • viewPoint = k.view • txPoint ∧
      C.generateStealthAddressCheckedExt spendPub viewPub index isSubaddress txSecret =
        .ok (⟨C.compress (C.oneTimeKey (k.view • txPoint) index (k.spendScalar which • C.generator)),
          C.compress txPoint⟩, C.toBytes txSecret) := by
  have hspend := h.spendPub_eq
  unfold Curve.generateStealthAddressCheckedExt
  cases h with
  | main =>
    refine ⟨k.view • C.generator, txSecret • C.generator, ?_, smul_comm .., ?_⟩
    · rw [k.viewPublic_eq_compress, Curve.decompress_compress]
    · rw [hspend, k.viewPublic_eq_compress, Curve.decompress_compress, Curve.decompress_compress,
        smul_comm k.view txSecret]
      rfl
  | subaddress account index hmain =>
    have hview : k.subaddressView account index =
        C.compress (k.view • k.spendScalar (some (account, index)) • C.generator) := by
      rw [subaddressView, if_neg hmain, k.subaddressPoint_eq hmain]
    refine ⟨k.view • k.spendScalar (some (account, index)) • C.generator,
      txSecret • k.spendScalar (some (account, index)) • C.generator, ?_, smul_comm .., ?_⟩
    · rw [hview, Curve.decompress_compress]
    · rw [hspend, hview, Curve.decompress_compress, Curve.decompress_compress,
        smul_comm k.view txSecret]
      rfl

end KeyEpoch

/-! ## A small curve to evaluate on -/

lemma atLeastTwo_two : Nat.AtLeastTwo 2 := ⟨le_refl 2⟩

lemma atLeastTwo_three : Nat.AtLeastTwo 3 := ⟨by decide⟩

attribute [local instance] atLeastTwo_three

/-- The group of order 7 with residues as encodings. -/
def Curve.small : Curve (ZMod 7) (ZMod 7) where
  generator := 1
  generatorH := 3
  compress := ZMod.val
  decompress k := if k < 7 then some (k : ZMod 7) else none
  decompress_eq_some := by
    intro k p
    constructor
    · intro h
      split_ifs at h with hk
      cases h
      exact ZMod.val_natCast_of_lt hk
    · rintro rfl
      rw [if_pos (ZMod.val_lt p), ZMod.natCast_zmod_val]
  toBytes := ZMod.val
  fromBytes n := (n : ZMod 7)
  fromBytes_toBytes x := ZMod.natCast_zmod_val x
  hashToScalar k i := ((k + 2 * i + 1 : ℕ) : ZMod 7)
  hashToPoint k := ((k + 1 : ℕ) : ZMod 7)
  hashDomain _ fields := fields.foldl (fun a x => 31 * a + x + 1) 7

/-- A wallet on it. -/
def smallKeys : KeyEpoch Curve.small where
  epoch := 0
  spendSecret := 2
  viewSecret := 3
  spendPublic := Curve.small.publicKey 2
  viewPublic := Curve.small.publicKey 3
  spendPublic_eq := rfl
  viewPublic_eq := rfl

end CoinCync.Wallet

import CoinCync.Lib.Bytes
import CoinCync.Lib.Check
import CoinCync.Lib.Schnorr

/-!
# Adaptor signatures and key shares

The primitives of a swap (`adaptor.rs`, and the key shares of `cync.rs`): secp256k1 as a group of prime
order with x-only points, Ristretto as a group of prime order with canonical encodings, and the BIP-340
challenge as a function. A scalar in 32 bytes is its value, in whichever byte order the source has it.
-/

namespace CoinCync.AtomicSwap

open Check Option Bytes

/-- `Error::Verification`. -/
inductive Error
  | verification (text : String)
deriving DecidableEq

/-- A check that fails with `Error::Verification`. -/
def verify (c : Prop) [Decidable c] (text : String) : Except Error Unit :=
  require c (.verification text)

@[simp] lemma verify_eq_ok [Decidable c] : verify c text = .ok u ↔ c := require_eq_ok

/-- A value, or `Error::Verification`. -/
def expect {α : Type} (o : Option α) (text : String) : Except Error α :=
  fromSome o (.verification text)

@[simp] lemma expect_eq_ok {α : Type} {o : Option α} {a : α} :
    expect o text = .ok a ↔ o = some a := fromSome_eq_ok

/-- The two curves and the challenge hash of BIP-340. -/
structure Curves (n m : ℕ) (P Q : Type) [AddCommGroup P] [Module (ZMod n) P] [AddCommGroup Q]
    [Module (ZMod m) Q] where
  btc : XOnlyGroup n P
  /-- Scalars have 32 bytes. -/
  order_le : n ≤ 256 ^ 32
  cync : EncodedGroup m Q
  challenge : ℕ → ℕ → ℕ → ℕ

/-- The 64 bytes of a BIP-340 signature. -/
structure Signature where
  bytes : List UInt8
  length_bytes : bytes.length = 64
deriving DecidableEq

namespace Signature

/-- The coordinate of the nonce point. -/
def r (σ : Signature) : ℕ := ofBe (σ.bytes.take 32)

/-- The scalar. -/
def s (σ : Signature) : ℕ := ofBe (σ.bytes.drop 32)

/-- A signature of two numbers. -/
def mk' (r s : ℕ) : Signature := ⟨toBe 32 r ++ toBe 32 s, by simp⟩

lemma r_mk' {r s : ℕ} (hr : r < 256 ^ 32) : (mk' r s).r = r := by
  have htake : (mk' r s).bytes.take 32 = toBe 32 r := List.take_left' (by simp)
  rw [Signature.r, htake, ofBe_toBe hr]

lemma s_mk' {r s : ℕ} (hs : s < 256 ^ 32) : (mk' r s).s = s := by
  have hdrop : (mk' r s).bytes.drop 32 = toBe 32 s := List.drop_left' (by simp)
  rw [Signature.s, hdrop, ofBe_toBe hs]

lemma eq_mk' (σ : Signature) : σ = mk' σ.r σ.s := by
  have hlen := σ.length_bytes
  have htake : toBe 32 σ.r = σ.bytes.take 32 := toBe_ofBe (by simp [hlen])
  have hdrop : toBe 32 σ.s = σ.bytes.drop 32 := toBe_ofBe (by simp [hlen])
  cases σ
  simp only [mk', mk.injEq]
  rw [htake, hdrop, List.take_append_drop]

end Signature

/-- A pre-signature. -/
structure BtcAdaptorSig (P : Type) where
  /-- The nonce point, without the adaptor point. -/
  rPoint : P
  sPre : ℕ

/-- The joint recipient of the CYNC lock. -/
structure SwapLockRecipient where
  spendPublic : List UInt8
  viewPublic : List UInt8
  amountAtomic : UInt64
deriving DecidableEq

variable {n m : ℕ} {P Q : Type} [AddCommGroup P] [Module (ZMod n) P] [AddCommGroup Q]
  [Module (ZMod m) Q]
variable {text : String}

/-! ## The Bitcoin side -/

section Btc

variable [DecidableEq P] (C : Curves n m P Q)

/-- `SecretKey::from_slice`. -/
def secretKey (n v : ℕ) (text : String) : Except Error ℕ :=
  expect (if 0 < v ∧ v < n then some v else none) text

@[simp] lemma secretKey_eq_ok {v w : ℕ} : secretKey n v text = .ok w ↔ (0 < v ∧ v < n) ∧ v = w := by
  rw [secretKey, expect_eq_ok, ite_none_right_eq_some, some_inj]

/-- `PublicKey::combine`: the sum must not be the point at infinity. -/
def combine (p q : P) (text : String) : Except Error P :=
  expect (if p + q ≠ 0 then some (p + q) else none) text

@[simp] lemma combine_eq_ok {p q : P} : combine p q text = .ok r ↔ p + q ≠ 0 ∧ p + q = r := by
  rw [combine, expect_eq_ok, ite_none_right_eq_some, some_inj]

/-- `SecretKey::add_tweak`: the sum must not be zero. -/
def addTweak (n a b : ℕ) (text : String) : Except Error ℕ :=
  expect (if (a + b) % n ≠ 0 then some ((a + b) % n) else none) text

@[simp] lemma addTweak_eq_ok {a b : ℕ} :
    addTweak n a b text = .ok c ↔ (a + b) % n ≠ 0 ∧ (a + b) % n = c := by
  rw [addTweak, expect_eq_ok, ite_none_right_eq_some, some_inj]

/-- The digest has to be below the group order already. -/
def bip340Challenge (r p : P) (msg : ℕ) : Except Error ℕ :=
  let e := C.challenge (C.btc.x r) (C.btc.x p) msg
  expect (if e < n then some e else none) "BIP-340 challenge outside scalar range â€” retry"

/-- `verify_pre_sig`, for the even point of the signer's key. -/
def verifyPreSig (adaptor : BtcAdaptorSig P) (signer adaptorPt : P) (msg : ℕ) :
    Except Error Unit := do
  let rPlusT ← combine adaptor.rPoint adaptorPt "R + T combine failed"
  verify (C.btc.even rPlusT = true)
    "R + T has odd y; pre-signature can never be completed under BIP-340"
  let e ← bip340Challenge C rPlusT signer msg
  let sPre ← secretKey n adaptor.sPre "invalid s_pre scalar"
  verify (e ≠ 0) "eÂ·X scalar mul failed"
  let rhs ← combine adaptor.rPoint ((e : ZMod n) • signer) "R + eÂ·X combine failed"
  verify ((sPre : ZMod n) • C.btc.base = rhs) "pre-signature verification failed"

/-- `decrypt_btc_adaptor`. -/
def decryptBtcAdaptor (adaptor : BtcAdaptorSig P) (secret : ℕ) (adaptorPt : P) :
    Except Error Signature := do
  let sPre ← secretKey n adaptor.sPre "invalid s_pre scalar"
  let t ← secretKey n secret "invalid adaptor secret"
  let s ← addTweak n sPre t "s_pre + t failed"
  let rPlusT ← combine adaptor.rPoint adaptorPt "R + T combine failed"
  return Signature.mk' (C.btc.x rPlusT) s

/-- The published scalar less the pre-signature's. -/
def recoverSecretFromBtcSig (n : ℕ) (adaptor : BtcAdaptorSig P) (finalSig : Signature) :
    Except Error ℕ := do
  let sReal ← secretKey n finalSig.s "invalid s in final sig"
  let sPre ← secretKey n adaptor.sPre "invalid s_pre scalar"
  let t ← addTweak n sReal (n - sPre) "s_real - s_pre failed"
  secretKey n t "adaptor secret out of secp256k1 range"

end Btc

/-! ## The CYNC side -/

section Cync

variable [DecidableEq Q] (C : Curves n m P Q)

/-- `cync_adaptor_point`. -/
def cyncAdaptorPoint (secret : ℕ) : Except Error (List UInt8) := do
  verify (secret < m) "non-canonical Ristretto scalar"
  return C.cync.compress ((secret : ZMod m) • C.cync.base)

/-- `decode_public_share`. -/
def decodePublicShare (bytes : List UInt8) (name : String) : Except Error Q := do
  let point ← expect (C.cync.decompress bytes) name
  verify (point ≠ 0) "CYNC key share must not be identity"
  return point

/-- `combine_spend_public_shares`. -/
def combineSpendPublicShares (aliceShare bobShare : List UInt8) : Except Error (List UInt8) := do
  let alice ← decodePublicShare C aliceShare "alice spend share decode"
  let bob ← decodePublicShare C bobShare "bob spend share decode"
  verify (alice + bob ≠ 0) "joint CYNC spend key must not be identity"
  return C.cync.compress (alice + bob)

/-- `decode_secret_share`. -/
def decodeSecretShare (m secret : ℕ) (name : String) : Except Error ℕ := do
  verify (secret < m) name
  verify (secret ≠ 0) "CYNC secret share must not be zero"
  return secret

/-- `combine_spend_secret_shares`. -/
def combineSpendSecretShares (m localShare revealedShare : ℕ) : Except Error ℕ := do
  let own ← decodeSecretShare m localShare "local spend share out of range"
  let revealed ← decodeSecretShare m revealedShare "revealed spend share out of range"
  verify ((own + revealed) % m ≠ 0) "joint CYNC spend secret must not be zero"
  return (own + revealed) % m

/-- `compute_swap_lock_recipient`. -/
def computeSwapLockRecipient (aliceSpendShare bobSpendShare sharedViewPub : List UInt8)
    (amountAtomic : UInt64) : Except Error SwapLockRecipient := do
  verify (amountAtomic ≠ 0) "swap lock amount must be > 0"
  let spendPublic ← combineSpendPublicShares C aliceSpendShare bobSpendShare
  let _ ← decodePublicShare C sharedViewPub "shared view key decode"
  return { spendPublic, viewPublic := sharedViewPub, amountAtomic }

end Cync

/-! ## What the functions do -/

variable {C : Curves n m P Q} {adaptor : BtcAdaptorSig P}

/-- The challenge an adaptor signature answers. -/
def BtcAdaptorSig.challenge (C : Curves n m P Q) (adaptor : BtcAdaptorSig P) (X T : P) (msg : ℕ) : ℕ :=
  C.challenge (C.btc.x (adaptor.rPoint + T)) (C.btc.x X) msg

/-- What an accepted pre-signature is. -/
lemma verifyPreSig_eq_ok [DecidableEq P] {u : Unit} : verifyPreSig C adaptor X T msg = .ok u ↔
    (0 < adaptor.sPre ∧ adaptor.sPre < n) ∧
    (adaptor.challenge C X T msg < n ∧ adaptor.challenge C X T msg ≠ 0) ∧
    adaptor.rPoint + (adaptor.challenge C X T msg : ZMod n) • X ≠ 0 ∧
    C.btc.Presigned (adaptor.challenge C X T msg) X adaptor.rPoint T adaptor.sPre := by
  simp only [verifyPreSig, bip340Challenge, bind_eq_ok, combine_eq_ok, verify_eq_ok, expect_eq_ok,
    ite_none_right_eq_some, some_inj, secretKey_eq_ok]
  constructor
  · rintro ⟨_, ⟨hne, rfl⟩, _, heven, _, ⟨hlt, rfl⟩, _, ⟨hpre, rfl⟩, _, hzero, _, ⟨hsum, rfl⟩, heq⟩
    exact ⟨hpre, ⟨hlt, hzero⟩, hsum, heq, hne, heven⟩
  · rintro ⟨hpre, ⟨hlt, hzero⟩, hsum, heq, hne, heven⟩
    exact ⟨_, ⟨hne, rfl⟩, (), heven, _, ⟨hlt, rfl⟩, _, ⟨hpre, rfl⟩, (), hzero, _, ⟨hsum, rfl⟩, heq⟩

/-- When a pre-signature is completed. -/
lemma decryptBtcAdaptor_eq_ok [DecidableEq P] : decryptBtcAdaptor C adaptor secret T = .ok σ ↔
    (0 < adaptor.sPre ∧ adaptor.sPre < n) ∧ (0 < secret ∧ secret < n) ∧
    (adaptor.sPre + secret) % n ≠ 0 ∧ adaptor.rPoint + T ≠ 0 ∧
    Signature.mk' (C.btc.x (adaptor.rPoint + T)) ((adaptor.sPre + secret) % n) = σ := by
  simp only [decryptBtcAdaptor, bind_eq_ok, combine_eq_ok, secretKey_eq_ok, addTweak_eq_ok, pure_eq_ok]
  constructor
  · rintro ⟨_, ⟨hpre, rfl⟩, _, ⟨ht, rfl⟩, _, ⟨hs, rfl⟩, _, ⟨hne, rfl⟩, rfl⟩
    exact ⟨hpre, ht, hs, hne, rfl⟩
  · rintro ⟨hpre, ht, hs, hne, rfl⟩
    exact ⟨_, ⟨hpre, rfl⟩, _, ⟨ht, rfl⟩, _, ⟨hs, rfl⟩, _, ⟨hne, rfl⟩, rfl⟩

/-- The nonce point is `R + T`, and the scalar exceeds the pre-signature's by the secret. -/
lemma decryptBtcAdaptor_parts [DecidableEq P] (h : decryptBtcAdaptor C adaptor secret T = .ok σ) :
    σ.r = C.btc.x (adaptor.rPoint + T) ∧ (0 < σ.s ∧ σ.s < n) ∧
      (σ.s : ZMod n) = adaptor.sPre + secret := by
  obtain ⟨hpre, -, hne, -, rfl⟩ := decryptBtcAdaptor_eq_ok.mp h
  have hlt : (adaptor.sPre + secret) % n < n := Nat.mod_lt _ (by omega)
  rw [Signature.r_mk' (C.btc.x_lt _), Signature.s_mk' (hlt.trans_le C.order_le), ZMod.natCast_mod,
    Nat.cast_add]
  exact ⟨rfl, ⟨pos_of_ne_zero hne, hlt⟩, rfl⟩

/-- Subtraction modulo `n`, by the negated scalar. -/
lemma add_sub_mod_eq_iff (hp : p < n) (ht : t < n) :
    (s + (n - p)) % n = t ↔ (s : ZMod n) = p + t := by
  rw [← Nat.cast_add, ZMod.natCast_eq_natCast_iff']
  have hsum : p + (n - p) = n := by omega
  constructor
  · intro h
    calc s % n = (s + (p + (n - p))) % n := by rw [hsum, Nat.add_mod_right]
      _ = (p + (s + (n - p))) % n := by rw [add_left_comm]
      _ = (p + t) % n := by rw [← h, Nat.add_mod_mod]
  · intro h
    calc (s + (n - p)) % n = (p + t + (n - p)) % n := Nat.ModEq.add_right _ h
      _ = (t + n) % n := by rw [add_right_comm, hsum, add_comm]
      _ = t := by rw [Nat.add_mod_right, Nat.mod_eq_of_lt ht]

omit [AddCommGroup P] [Module (ZMod n) P] in
/-- The published scalar is the pre-signature's plus the secret. -/
lemma recoverSecretFromBtcSig_eq_ok : recoverSecretFromBtcSig n adaptor σ = .ok t ↔
    (0 < σ.s ∧ σ.s < n) ∧ (0 < adaptor.sPre ∧ adaptor.sPre < n) ∧ (0 < t ∧ t < n) ∧
    (σ.s : ZMod n) = adaptor.sPre + t := by
  simp only [recoverSecretFromBtcSig, bind_eq_ok, secretKey_eq_ok, addTweak_eq_ok]
  constructor
  · rintro ⟨_, ⟨hs, rfl⟩, _, ⟨hpre, rfl⟩, _, ⟨-, rfl⟩, ht, rfl⟩
    exact ⟨hs, hpre, ht, (add_sub_mod_eq_iff hpre.2 ht.2).mp rfl⟩
  · rintro ⟨hs, hpre, ht, heq⟩
    have hsub := (add_sub_mod_eq_iff hpre.2 ht.2).mpr heq
    exact ⟨_, ⟨hs, rfl⟩, _, ⟨hpre, rfl⟩, t, ⟨by omega, hsub⟩, ht, rfl⟩

lemma cyncAdaptorPoint_eq_ok : cyncAdaptorPoint C secret = .ok point ↔
    secret < m ∧ C.cync.compress ((secret : ZMod m) • C.cync.base) = point := by
  simp [cyncAdaptorPoint, pure, Except.pure]

lemma decodePublicShare_eq_ok [DecidableEq Q] {bytes : List UInt8} {name : String} :
    decodePublicShare C bytes name = .ok q ↔ C.cync.compress q = bytes ∧ q ≠ 0 := by
  simp only [decodePublicShare, bind_eq_ok, expect_eq_ok, verify_eq_ok, C.cync.decompress_eq_some,
    pure_eq_ok]
  constructor
  · rintro ⟨_, hq, _, hne, rfl⟩
    exact ⟨hq, hne⟩
  · rintro ⟨hq, hne⟩
    exact ⟨q, hq, (), hne, rfl⟩

lemma combineSpendPublicShares_eq_ok [DecidableEq Q] :
    combineSpendPublicShares C a b = .ok joint ↔ ∃ p q : Q, (C.cync.compress p = a ∧ p ≠ 0) ∧
      (C.cync.compress q = b ∧ q ≠ 0) ∧ p + q ≠ 0 ∧ C.cync.compress (p + q) = joint := by
  simp only [combineSpendPublicShares, bind_eq_ok, decodePublicShare_eq_ok, verify_eq_ok, pure_eq_ok]
  constructor
  · rintro ⟨p, hp, q, hq, _, hne, hjoint⟩
    exact ⟨p, q, hp, hq, hne, hjoint⟩
  · rintro ⟨p, q, hp, hq, hne, hjoint⟩
    exact ⟨p, hp, q, hq, (), hne, hjoint⟩

lemma combineSpendSecretShares_eq_ok :
    combineSpendSecretShares m own revealed = .ok k ↔ (own < m ∧ own ≠ 0) ∧
      (revealed < m ∧ revealed ≠ 0) ∧ (own + revealed) % m ≠ 0 ∧ (own + revealed) % m = k := by
  simp [combineSpendSecretShares, decodeSecretShare, pure, Except.pure, bind_eq_ok, and_assoc]

/-- The secrets of two shares add up to that of the joint key. -/
lemma combine_spend_shares [Fact m.Prime] (hown : own < m) (hrev : revealed < m)
    (hp : (own : ZMod m) • C.cync.base = p) (hq : (revealed : ZMod m) • C.cync.base = q)
    (hp0 : p ≠ 0) (hq0 : q ≠ 0) (hne : p + q ≠ 0) :
    ∃ k, combineSpendSecretShares m own revealed = .ok k ∧
      (k : ZMod m) • C.cync.base = p + q := by
  have hcast : (((own + revealed) % m : ℕ) : ZMod m) • C.cync.base = p + q := by
    rw [ZMod.natCast_mod, Nat.cast_add, add_smul, hp, hq]
  have hzero : ∀ k : ℕ, (k : ZMod m) • C.cync.base ≠ 0 → k ≠ 0 := by
    rintro k hk rfl
    rw [Nat.cast_zero, zero_smul] at hk
    exact hk rfl
  refine ⟨_, combineSpendSecretShares_eq_ok.mpr ⟨⟨hown, hzero _ (hp ▸ hp0)⟩,
    ⟨hrev, hzero _ (hq ▸ hq0)⟩, hzero _ (hcast ▸ hne), rfl⟩, hcast⟩

end CoinCync.AtomicSwap

import CoinCync.Swap.ShareReveal

/-!
# Making, completing and revealing an adaptor signature

`create_pre_sig_bip340` with its search for a nonce, and adaptor secrets in the byte order they were
made in. A pre-signature that is accepted is completed to a BIP-340 signature by the secret of its
adaptor point, and every such signature with a scalar other than zero gives the secret back; one that
is made is accepted.
-/

namespace CoinCync.AtomicSwap

open Check Signature

/-! ## Secrets -/

/-- A byte order. -/
inductive SecretEncoding
  | secp256k1BigEndian
  | ristrettoLittleEndian
deriving DecidableEq

/-- `AdaptorSecret`. -/
structure AdaptorSecret where
  bytes : List UInt8
  encoding : SecretEncoding
  length_bytes : bytes.length = 32
deriving DecidableEq

namespace AdaptorSecret

/-- `secp256k1_bytes`. -/
def secp256k1Bytes (t : AdaptorSecret) : List UInt8 :=
  match t.encoding with
  | .secp256k1BigEndian => t.bytes
  | .ristrettoLittleEndian => t.bytes.reverse

/-- The number `SecretKey::from_slice` reads. -/
def scalar (t : AdaptorSecret) : ℕ := Bytes.ofBe t.secp256k1Bytes

/-- `PartialEq`: the same scalar, whatever the stored form. -/
def Same (t t' : AdaptorSecret) : Prop := t.secp256k1Bytes = t'.secp256k1Bytes

/-- `from_secp256k1_bytes` of the bytes of a secret key. -/
def ofSecretKey (v : ℕ) : AdaptorSecret := ⟨Bytes.toBe 32 v, .secp256k1BigEndian, by simp⟩

lemma same_ofSecretKey_scalar (t : AdaptorSecret) : (ofSecretKey t.scalar).Same t := by
  refine Bytes.toBe_ofBe ?_
  unfold secp256k1Bytes
  split <;> simp [t.length_bytes]

end AdaptorSecret

variable {n m : ℕ} {P Q : Type} [AddCommGroup P] [Module (ZMod n) P] [AddCommGroup Q]
  [Module (ZMod m) Q]

/-- The secret in its own form. -/
def recoverAdaptorSecret (n : ℕ) (adaptor : BtcAdaptorSig P) (finalSig : Signature) :
    Except Error AdaptorSecret :=
  (recoverSecretFromBtcSig n adaptor finalSig).map .ofSecretKey

/-! ## Making a pre-signature -/

section Create

variable [DecidableEq P] (C : Curves n m P Q)
-- the nonce hash, of the even secret, the randomness, the message, the key's coordinate, the adaptor
-- point and the counter
variable (H : ℕ → ℕ → ℕ → ℕ → P → ℕ → ℕ)

/-- `SecretKey::mul_tweak`: the product must not be zero. -/
def mulTweak (n a b : ℕ) (text : String) : Except Error ℕ :=
  expect (if a * b % n ≠ 0 then some (a * b % n) else none) text

/-- One try: sums infinite or odd are passed over. -/
def tryNonce (dEven auxRand msg signerX : ℕ) (adaptorPt : P) (counter : ℕ) : Option ℕ :=
  match secretKey n (H dEven auxRand msg signerX adaptorPt counter)
    "derived nonce out of secp256k1 scalar range" with
  | .error _ => none
  | .ok k =>
    match combine ((k : ZMod n) • C.btc.base) adaptorPt "" with
    | .error _ => none
    | .ok rPlusT => if C.btc.even rPlusT then some k else none

/-- The pre-signature and the signer's x-only key. -/
def createPreSigBip340 (seckey msg : ℕ) (adaptorPt : P) (auxRand : ℕ) :
    Except Error (BtcAdaptorSig P × ℕ) := do
  let signer := (seckey : ZMod n) • C.btc.base
  let signerX := C.btc.x signer
  let dEven := if C.btc.even signer then seckey else n - seckey
  let nonce ← expect ((List.range 8).findSome? (tryNonce C H dEven auxRand msg signerX adaptorPt))
    "BIP-340 nonce parity miss Ã— 8 â€” rotate aux_rand and retry"
  let rPoint := (nonce : ZMod n) • C.btc.base
  let rPlusT ← combine rPoint adaptorPt "R + T combine failed"
  let e ← bip340Challenge C rPlusT signer msg
  let eD ← mulTweak n dEven e "eÂ·d_even multiplication failed"
  let sPre ← addTweak n nonce eD "nonce + eÂ·d_even addition failed"
  return (⟨rPoint, sPre⟩, signerX)

end Create

section Accepted

variable {C : Curves n m P Q} {T : P}

/-- The even secret is that of the key's even point. -/
lemma lift_signer [Fact n.Prime] (hd : 0 < d ∧ d < n) :
    C.btc.lift (C.btc.x ((d : ZMod n) • C.btc.base))
      = some (((if C.btc.even ((d : ZMod n) • C.btc.base) then d else n - d : ℕ) : ZMod n)
        • C.btc.base) := by
  have hne : (d : ZMod n) • C.btc.base ≠ 0 := XOnlyGroup.smul_base_ne_zero hd
  split_ifs with heven
  · exact C.btc.lift_eq_some.mpr ⟨hne, heven, rfl⟩
  · rw [XOnlyGroup.lift_x_of_odd hne (by simpa using heven), Nat.cast_sub hd.2.le, ZMod.natCast_self,
      zero_sub, neg_smul]

variable [DecidableEq P] {H : ℕ → ℕ → ℕ → ℕ → P → ℕ → ℕ}

lemma even_of_tryNonce (h : tryNonce C H d aux msg x T counter = some k) :
    C.btc.even ((k : ZMod n) • C.btc.base + T) = true := by
  unfold tryNonce at h
  split at h
  · simp at h
  split at h
  · simp at h
  rename_i hsum
  obtain ⟨heven, hk⟩ := Option.ite_none_right_eq_some.mp h
  obtain rfl := Option.some.inj hk
  obtain ⟨-, rfl⟩ := combine_eq_ok.mp hsum
  exact heven

/-- A pre-signature that is made is accepted. -/
lemma verifyPreSig_of_createPreSigBip340 [Fact n.Prime] (hd : 0 < d ∧ d < n)
    (h : createPreSigBip340 C H d msg T aux = .ok (adaptor, key)) :
    ∃ X, C.btc.lift key = some X ∧ verifyPreSig C adaptor X T msg = .ok () := by
  simp only [createPreSigBip340, bip340Challenge, mulTweak, bind_eq_ok, combine_eq_ok, expect_eq_ok,
    addTweak_eq_ok, Option.ite_none_right_eq_some, Option.some_inj, pure_eq_ok, Prod.mk.injEq] at h
  obtain ⟨k, hfind, _, ⟨hne, rfl⟩, _, ⟨he, rfl⟩, _, ⟨hmul, rfl⟩, _, ⟨hs, rfl⟩, rfl, rfl⟩ := h
  obtain ⟨i, -, htry⟩ := List.exists_of_findSome?_eq_some hfind
  refine ⟨_, lift_signer hd, verifyPreSig_eq_ok.mpr ?_⟩
  obtain ⟨-, -, hx⟩ := C.btc.lift_eq_some.mp (lift_signer hd)
  rw [BtcAdaptorSig.challenge, hx]
  set e := C.challenge (C.btc.x ((k : ZMod n) • C.btc.base + T))
    (C.btc.x ((d : ZMod n) • C.btc.base)) msg
  set dEven := if C.btc.even ((d : ZMod n) • C.btc.base) then d else n - d
  have hrange := And.intro (pos_of_ne_zero hs) (Nat.mod_lt (k + dEven * e % n) (hd.1.trans hd.2))
  have heq : (((k + dEven * e % n) % n : ℕ) : ZMod n) • C.btc.base
      = (k : ZMod n) • C.btc.base + (e : ZMod n) • (dEven : ZMod n) • C.btc.base := by
    rw [ZMod.natCast_mod, Nat.cast_add, ZMod.natCast_mod, Nat.cast_mul, add_smul, mul_comm, mul_smul]
  refine ⟨hrange, ⟨he, ?_⟩, ?_, heq, hne, even_of_tryNonce htry⟩
  · intro h0
    rw [h0] at hmul
    exact hmul rfl
  · rw [← heq]
    exact XOnlyGroup.smul_base_ne_zero hrange

end Accepted

/-! ## Completing and revealing -/

omit [AddCommGroup P] [Module (ZMod n) P] in
/-- What is recovered is the secret. -/
lemma recoverAdaptorSecret_same (h : recoverSecretFromBtcSig n adaptor σ = .ok t.scalar) :
    ∃ t', recoverAdaptorSecret n adaptor σ = .ok t' ∧ t'.Same t := by
  refine ⟨_, ?_, t.same_ofSecretKey_scalar⟩
  rw [recoverAdaptorSecret, h]
  rfl

variable [DecidableEq P] [Fact n.Prime]

/-- Let a pre-signature be accepted for a key, an adaptor point and a message, and let `t` be the
secret of the point. If it can be completed with `t`, the result is a BIP-340 signature of the
message, and `t` is recovered from it, and from every signature of the message with the nonce point
`R + T` and a scalar other than zero. Every pre-signature that is made is accepted. -/
theorem adaptor_completes_and_reveals (B : Bitcoin n m P Q) (H : ℕ → ℕ → ℕ → ℕ → P → ℕ → ℕ) :
    (∀ (adaptor : BtcAdaptorSig P) (X T : P) (msg key : ℕ) (t : AdaptorSecret) (σ : Signature),
      B.btc.lift key = some X → verifyPreSig B.toCurves adaptor X T msg = .ok () →
      (t.scalar : ZMod n) • B.btc.base = T →
      (decryptBtcAdaptor B.toCurves adaptor t.scalar T = .ok σ →
        verifySchnorr B σ msg key = true ∧
        ∃ t', recoverAdaptorSecret n adaptor σ = .ok t' ∧ t'.Same t) ∧
      (T ≠ 0 → t.scalar < n → verifySchnorr B σ msg key = true →
        σ.r = B.btc.x (adaptor.rPoint + T) → σ.s ≠ 0 →
        ∃ t', recoverAdaptorSecret n adaptor σ = .ok t' ∧ t'.Same t)) ∧
    ∀ (seckey msg auxRand key : ℕ) (T : P) (adaptor : BtcAdaptorSig P), 0 < seckey → seckey < n →
      createPreSigBip340 B.toCurves H seckey msg T auxRand = .ok (adaptor, key) →
      ∃ X, B.btc.lift key = some X ∧ verifyPreSig B.toCurves adaptor X T msg = .ok () := by
  refine ⟨?_, fun d msg aux key T adaptor hpos hlt h =>
    verifyPreSig_of_createPreSigBip340 ⟨hpos, hlt⟩ h⟩
  intro adaptor X T msg key t σ hkey hpre hT
  obtain ⟨hspre, -, -, hsigned⟩ := verifyPreSig_eq_ok.mp hpre
  obtain ⟨-, -, hx⟩ := B.btc.lift_eq_some.mp hkey
  rw [BtcAdaptorSig.challenge, hx] at hsigned
  constructor
  · intro hdecrypt
    obtain ⟨-, ht, -⟩ := decryptBtcAdaptor_eq_ok.mp hdecrypt
    obtain ⟨hr, hs, hcast⟩ := decryptBtcAdaptor_parts hdecrypt
    refine ⟨(verifySchnorr_iff hkey).mpr ?_,
      recoverAdaptorSecret_same (recoverSecretFromBtcSig_eq_ok.mpr ⟨hs, hspre, ht, hcast⟩)⟩
    rw [hr]
    exact hsigned.valid hT hcast hs.2
  · intro hT0 hlt hverify hr hs0
    have hvalid := (verifySchnorr_iff hkey).mp hverify
    rw [hr] at hvalid
    have ht : 0 < t.scalar := by
      refine pos_of_ne_zero fun h0 => hT0 ?_
      rw [← hT, h0, Nat.cast_zero, zero_smul]
    exact recoverAdaptorSecret_same (recoverSecretFromBtcSig_eq_ok.mpr
      ⟨⟨pos_of_ne_zero hs0, hvalid.1⟩, hspre, ⟨ht, hlt⟩, hsigned.extract hT hvalid⟩)

/-- Key 1, secret 2 and nonce 1, with all hashes 1. -/
theorem adaptor_completes_and_reveals_small :
    createPreSigBip340 smallEnv.toCurves (fun _ _ _ _ _ _ => 1) 1 0 2 0 = .ok (⟨1, 2⟩, 1) ∧
    decryptBtcAdaptor smallEnv.toCurves ⟨1, 2⟩ (AdaptorSecret.ofSecretKey 2).scalar 2
      = .ok (mk' 3 4) ∧
    verifySchnorr smallEnv.toBitcoin (mk' 3 4) 0 1 = true ∧
    ∃ t, recoverAdaptorSecret 11 (⟨1, 2⟩ : BtcAdaptorSig (ZMod 11)) (mk' 3 4) = .ok t ∧
      t.Same (.ofSecretKey 2) := by
  have : Fact (Nat.Prime 11) := ⟨by decide⟩
  obtain ⟨hreveal, hmade⟩ := adaptor_completes_and_reveals smallEnv.toBitcoin
    fun _ _ _ _ (_ : ZMod 11) _ => 1
  obtain ⟨X, hkey, hpre⟩ := hmade 1 0 0 1 2 ⟨1, 2⟩ (by decide) (by decide) rfl
  obtain rfl : 1 = X := Option.some.inj hkey
  exact ⟨rfl, rfl, (hreveal _ 1 2 0 1 _ _ hkey hpre rfl).1 rfl⟩

/-- The small curve with a challenge that is always -1. -/
def negatedChallenge : Bitcoin 11 11 (ZMod 11) (ZMod 11) :=
  { smallEnv.toBitcoin with challenge := fun _ _ _ => 10 }

/-- A signature whose scalar is zero is valid, and nothing is recovered from it. -/
theorem zero_scalar_not_recovered :
    verifyPreSig negatedChallenge.toCurves ⟨1, 10⟩ 2 1 0 = .ok () ∧
    verifySchnorr negatedChallenge (mk' 2 0) 0 2 = true ∧
    (mk' 2 0).r = negatedChallenge.btc.x (1 + 1) ∧
    recoverAdaptorSecret 11 (⟨1, 10⟩ : BtcAdaptorSig (ZMod 11)) (mk' 2 0)
      = .error (.verification "invalid s in final sig") := by
  refine ⟨rfl, ?_, ?_, rfl⟩ <;> decide +kernel

end CoinCync.AtomicSwap

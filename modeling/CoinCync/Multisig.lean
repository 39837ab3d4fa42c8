import CoinCync.Lib.Bytes
import CoinCync.Lib.Check
import Mathlib.Algebra.Field.ZMod
import Mathlib.LinearAlgebra.Lagrange
import Mathlib.Tactic.NormNum.Prime

/-!
# The group secret of a multisig wallet

`reconstruct_group_secret` of `wallet/multisig.rs` and the signing with what it returns, over the
scalars modulo a prime `n`. The signing by a secret is a parameter: `clsag_sign_multisig` passes the
secret on to it. The two loops compute Lagrange's polynomial at zero.
-/

namespace CoinCync.Multisig

open List Check Polynomial

variable {n t : ℕ} {F : Type} [Field F] [DecidableEq F] {ids scalars : Fin t → F}

/-- A share: its wallet's threshold, its participant and its bytes. -/
structure KeyShare where
  threshold : ℕ
  participantId : UInt16
  signingShareBytes : List UInt8

namespace KeyShare

/-- A share has the 32 bytes of a canonical scalar. -/
def check (n : ℕ) (share : KeyShare) : Except String Unit := do
  require (share.signingShareBytes.length = 32)
    ("signing share has unexpected length " ++ toString share.signingShareBytes.length ++
      " (must be exactly 32 bytes; FROST-ed25519 SigningShare serializes to a 32-byte canonical Scalar)")
  require (Bytes.ofLe share.signingShareBytes < n) "invalid scalar in signing share"

/-- Its scalar. -/
def scalar (n : ℕ) (share : KeyShare) : ZMod n := Bytes.ofLe share.signingShareBytes

/-- Its participant as a scalar. -/
def id (n : ℕ) (share : KeyShare) : ZMod n := share.participantId.toNat

end KeyShare

/-- One turn of the inner loop. -/
def multiply (ids : Fin t → F) (i : Fin t) (lambda : F) (j : Fin t) : Except String F :=
  if i = j then return lambda
  else do
    require (ids j - ids i ≠ 0) "duplicate participant IDs"
    return lambda * (ids j * (ids j - ids i)⁻¹)

/-- One turn of the outer loop. -/
def accumulate (ids scalars : Fin t → F) (secret : F) (i : Fin t) : Except String F := do
  let lambda ← (finRange t).foldlM (multiply ids i) 1
  return secret + lambda * scalars i

/-- The two loops. -/
def interpolate (ids scalars : Fin t → F) : Except String F :=
  (finRange t).foldlM (accumulate ids scalars) 0

/-- `reconstruct_group_secret`. -/
def reconstructGroupSecret (n : ℕ) [Fact n.Prime] (shares : List KeyShare) :
    Except String (ZMod n) := do
  let first ← fromSome shares.head? "no shares provided"
  require (first.threshold ≤ shares.length)
    ("need " ++ toString first.threshold ++ " shares, got " ++ toString shares.length)
  let active := shares.take first.threshold
  all active (KeyShare.check n)
  interpolate (fun i : Fin active.length => active[i].id n) fun i => active[i].scalar n

/-- `clsag_sign_multisig`, with `sign` for the signing. -/
def clsagSignMultisig {σ : Type} [Fact n.Prime] (sign : ZMod n → Except String σ)
    (shares : List KeyShare) : Except String σ := do
  sign (← reconstructGroupSecret n shares)

/-! ## The loops -/

/-- A loop that stops where `P` fails, and otherwise folds. -/
lemma foldlM_eq_ok_iff {β ι : Type} {f : β → ι → Except ε β} {P : ι → Prop} {op : β → ι → β}
    {l : List ι} {b c : β} (hf : ∀ i b c, f b i = .ok c ↔ P i ∧ op b i = c) :
    l.foldlM f b = .ok c ↔ (∀ i ∈ l, P i) ∧ l.foldl op b = c := by
  induction l generalizing b with
  | nil => simp [pure_eq_ok]
  | cons i l ih =>
    simp only [foldlM_cons, bind_eq_ok, hf, ih, forall_mem_cons]
    constructor
    · rintro ⟨_, ⟨hi, rfl⟩, hl, hc⟩
      exact ⟨⟨hi, hl⟩, hc⟩
    · rintro ⟨⟨hi, hl⟩, hc⟩
      exact ⟨_, ⟨hi, rfl⟩, hl, hc⟩

/-- The factor of `j` in the coefficient of `i`. -/
def factor (ids : Fin t → F) (i j : Fin t) : F := if i = j then 1 else ids j * (ids j - ids i)⁻¹

lemma multiply_eq_ok_iff : multiply ids i b j = .ok c ↔
    (ids i = ids j → i = j) ∧ b * factor ids i j = c := by
  by_cases hij : i = j
  · simp [multiply, factor, hij, pure_eq_ok]
  · simp only [multiply, factor, if_neg hij, seq_eq_ok, pure_eq_ok, sub_ne_zero]
    simp [hij, eq_comm]

lemma accumulate_eq_ok_iff : accumulate ids scalars b i = .ok c ↔
    (∀ j, ids i = ids j → i = j) ∧ b + (∏ j, factor ids i j) * scalars i = c := by
  have hloop : ∀ a, (finRange t).foldlM (multiply ids i) 1 = .ok a ↔
      (∀ j, ids i = ids j → i = j) ∧ ∏ j, factor ids i j = a := fun a => by
    rw [foldlM_eq_ok_iff fun _ _ _ => multiply_eq_ok_iff, Fin.prod_univ_def, prod_eq_foldl, foldl_map]
    simp
  simp only [accumulate, bind_eq_ok, pure_eq_ok, hloop]
  constructor
  · rintro ⟨_, ⟨h, rfl⟩, hc⟩
    exact ⟨h, hc⟩
  · rintro ⟨h, hc⟩
    exact ⟨_, ⟨h, rfl⟩, hc⟩

lemma interpolate_eq_ok_iff : interpolate ids scalars = .ok c ↔
    Function.Injective ids ∧ ∑ i, (∏ j, factor ids i j) * scalars i = c := by
  rw [interpolate, foldlM_eq_ok_iff fun _ _ _ => accumulate_eq_ok_iff, Fin.sum_univ_def, sum_eq_foldl,
    foldl_map]
  simp [Function.Injective]

/-- The factors are those of Lagrange's basis at zero. -/
lemma interpolate_eval (hids : Function.Injective ids) {f : F[X]} (hf : f.degree < t) :
    interpolate ids (fun i => f.eval (ids i)) = .ok (f.eval 0) := by
  have hbasis : ∀ i, (Lagrange.basis Finset.univ ids i).eval 0 = ∏ j, factor ids i j := by
    intro i
    rw [← Finset.prod_erase _ (show factor ids i i = 1 from if_pos rfl), Lagrange.basis, eval_prod]
    refine Finset.prod_congr rfl fun j hj => ?_
    rw [factor, if_neg (Finset.ne_of_mem_erase hj).symm, Lagrange.basisDivisor, ← neg_sub, inv_neg]
    simp [mul_comm]
  have hf' := Lagrange.eq_interpolate (s := Finset.univ) hids.injOn (by simpa using hf)
  rw [Lagrange.interpolate_apply] at hf'
  rw [interpolate_eq_ok_iff]
  refine ⟨hids, ?_⟩
  conv_rhs => rw [hf', eval_finsetSum]
  simp only [eval_mul, eval_C, hbasis, mul_comm]

/-! ## Quorums -/

/-- The bytes of a canonical scalar. -/
def KeyShare.Canonical (n : ℕ) (share : KeyShare) : Prop :=
  share.signingShareBytes.length = 32 ∧ Bytes.ofLe share.signingShareBytes < n

/-- The first `t` shares are of `f`, for distinct participants. -/
structure Quorum (t : ℕ) (f : (ZMod n)[X]) (shares : List KeyShare) : Prop where
  length : t ≤ shares.length
  threshold : ∀ s ∈ shares.take t, s.threshold = t
  distinct : ((shares.take t).map KeyShare.participantId).Nodup
  bytes : ∀ s ∈ shares.take t, s.signingShareBytes = Bytes.toLe 32 (f.eval (s.id n)).val

lemma reconstructGroupSecret_eq_ok_iff [Fact n.Prime] (hfirst : shares.head? = some first)
    (hactive : shares.take first.threshold = active) : reconstructGroupSecret n shares = .ok x ↔
      first.threshold ≤ shares.length ∧ (∀ s ∈ active, s.Canonical n) ∧
      interpolate (fun i : Fin active.length => active[i].id n) (fun i => active[i].scalar n)
        = .ok x := by
  subst hactive
  rw [reconstructGroupSecret, bind_of_eq_ok (fromSome_eq_ok.mpr hfirst)]
  simp only [seq_eq_ok, require_eq_ok, all_eq_ok, KeyShare.check, KeyShare.Canonical]

lemma injective_id_iff (hn : 2 ^ 16 ≤ n) {l : List KeyShare} :
    Function.Injective (fun i : Fin l.length => l[i].id n) ↔
      (l.map KeyShare.participantId).Nodup := by
  have hinj : Function.Injective fun i : UInt16 => (i.toNat : ZMod n) := by
    intro i j h
    have hi := i.toNat_lt
    have hj := j.toNat_lt
    rw [ZMod.natCast_eq_natCast_iff] at h
    exact UInt16.toNat_inj.mp (h.eq_of_lt_of_lt (by omega) (by omega))
  rw [← nodup_ofFn, ← nodup_map_iff hinj, map_map]
  exact iff_of_eq (congrArg Nodup (ofFn_getElem_eq_map l (KeyShare.id n)))

/-- Every quorum of a polynomial reconstructs its value at zero, and signs as that value does.
Shares that repeat a participant, or are no canonical scalar, are refused. -/
theorem quorum_reconstructs [Fact n.Prime] (hn : 2 ^ 16 ≤ n) (hn' : n ≤ 256 ^ 32) :
    (∀ t ≥ 2, ∀ (f : (ZMod n)[X]) shares, f.degree < (t : ℕ) → Quorum t f shares →
      reconstructGroupSecret n shares = .ok (f.eval 0) ∧
      ∀ {σ : Type} (sign : ZMod n → Except String σ) (verify : σ → Prop),
        (∃ s, sign (f.eval 0) = .ok s ∧ verify s) →
          ∃ s, clsagSignMultisig sign shares = .ok s ∧ verify s) ∧
    ∀ shares first, shares.head? = some first →
      ¬ ((shares.take first.threshold).map KeyShare.participantId).Nodup ∨
        (∃ s ∈ shares.take first.threshold, ¬ s.Canonical n) →
      ∃ e, reconstructGroupSecret n shares = .error e := by
  constructor
  · intro t ht f shares hf hq
    have hscalar : ∀ s ∈ shares.take t, s.Canonical n ∧ s.scalar n = f.eval (s.id n) := by
      intro s hs
      have hlt := (f.eval (s.id n)).val_lt
      have hval : Bytes.ofLe s.signingShareBytes = (f.eval (s.id n)).val := by
        rw [hq.bytes s hs, Bytes.ofLe_toLe (hlt.trans_le hn')]
      refine ⟨⟨?_, hval ▸ hlt⟩, ?_⟩
      · rw [hq.bytes s hs, Bytes.length_toLe]
      · rw [KeyShare.scalar, hval, ZMod.natCast_val, ZMod.cast_id]
    have hlength : (shares.take t).length = t := length_take_of_le hq.length
    obtain ⟨first, hfirst⟩ : ∃ first, (shares.take t).head? = some first := by
      rw [← Option.isSome_iff_exists, isSome_head?, ← length_pos_iff]
      omega
    obtain rfl := hq.threshold first (mem_of_head? hfirst)
    rw [head?_take, if_neg (by omega)] at hfirst
    have hsecret : reconstructGroupSecret n shares = .ok (f.eval 0) := by
      rw [reconstructGroupSecret_eq_ok_iff hfirst rfl]
      refine ⟨hq.length, fun s hs => (hscalar s hs).1, ?_⟩
      have heval := interpolate_eval ((injective_id_iff hn).mpr hq.distinct) (by rwa [hlength])
      exact (congrArg _ (funext fun i => (hscalar _ (getElem_mem i.isLt)).2)).trans heval
    refine ⟨hsecret, fun sign verify h => ?_⟩
    rwa [clsagSignMultisig, bind_of_eq_ok hsecret]
  · intro shares first hfirst hbad
    cases h : reconstructGroupSecret n shares with
    | error e => exact ⟨e, rfl⟩
    | ok x =>
      obtain ⟨-, hcanonical, hx⟩ := (reconstructGroupSecret_eq_ok_iff hfirst rfl).mp h
      have hids := (injective_id_iff hn).mp (interpolate_eq_ok_iff.mp hx).1
      obtain hrepeat | ⟨s, hs, hnot⟩ := hbad
      · exact absurd hids hrepeat
      · exact absurd (hcanonical s hs) hnot

instance fact_prime_65537 : Fact (Nat.Prime 65537) := ⟨by norm_num⟩

/-- Two shares of `X + 5`. -/
def twoShares : List KeyShare := [⟨2, 1, Bytes.toLe 32 6⟩, ⟨2, 7, Bytes.toLe 32 12⟩]

/-- They give the secret. -/
theorem two_reconstruct : reconstructGroupSecret 65537 twoShares = .ok 5 := by
  have hq : Quorum 2 (X + C 5 : (ZMod 65537)[X]) twoShares := by
    refine ⟨le_rfl, by decide, by decide, ?_⟩
    intro s hs
    fin_cases hs
    · simp
      decide
    · simp
      decide
  have hdegree : (X + C 5 : (ZMod 65537)[X]).degree < (2 : ℕ) := by
    rw [degree_X_add_C]
    decide
  have hfive := ((quorum_reconstructs (by decide) (by decide)).1 2 le_rfl _ _ hdegree hq).1
  simpa using hfive

end CoinCync.Multisig

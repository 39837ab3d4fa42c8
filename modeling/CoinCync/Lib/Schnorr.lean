import Mathlib.Algebra.Field.ZMod
import Mathlib.Algebra.Module.Torsion.Field
import Mathlib.Tactic.Abel

/-!
# Schnorr signatures over x-only points

A group of prime order with a generator, whose points other than zero are known by a coordinate `x`
that a point shares with its negative only, and by a parity. A signature is the coordinate of its
nonce point, which has to be even, and a scalar; the challenge is a scalar of the caller's. An
adaptor pre-signature for the point `T` is the scalar of a signature whose nonce point lacks `T`.
-/

/-- A prime-order group with x-only coordinates. -/
structure XOnlyGroup (n : ℕ) (P : Type*) [AddCommGroup P] [Module (ZMod n) P] where
  base : P
  base_ne_zero : base ≠ 0
  exists_log : ∀ p, ∃ k : ZMod n, k • base = p
  x : P → ℕ
  even : P → Bool
  x_eq_iff : ∀ {p q}, p ≠ 0 → q ≠ 0 → (x p = x q ↔ p = q ∨ p = -q)
  even_neg : ∀ {p}, p ≠ 0 → even (-p) = !even p
  /-- The even point of a coordinate. -/
  lift : ℕ → Option P
  lift_eq_some : ∀ {r p}, lift r = some p ↔ p ≠ 0 ∧ even p = true ∧ x p = r
  x_lt : ∀ p, x p < 256 ^ 32

namespace XOnlyGroup

variable {n : ℕ} {P : Type*} [AddCommGroup P] [Module (ZMod n) P] {G : XOnlyGroup n P}

/-- An even point is known by its coordinate. -/
lemma eq_of_x_eq (hp : p ≠ 0) (hq : q ≠ 0) (hpe : G.even p = true) (hqe : G.even q = true)
    (hx : G.x p = G.x q) : p = q := by
  obtain h | h := (G.x_eq_iff hp hq).mp hx
  · exact h
  · rw [h, G.even_neg hq, hqe] at hpe
    exact absurd hpe Bool.false_ne_true

lemma x_neg (hp : p ≠ 0) : G.x (-p) = G.x p :=
  (G.x_eq_iff (neg_ne_zero.mpr hp) hp).mpr (.inr rfl)

/-- The even point with an odd point's coordinate is its negative. -/
lemma lift_x_of_odd (hp : p ≠ 0) (hodd : G.even p = false) : G.lift (G.x p) = some (-p) := by
  refine G.lift_eq_some.mpr ⟨neg_ne_zero.mpr hp, ?_, x_neg hp⟩
  rw [G.even_neg hp, hodd]
  rfl

/-- A scalar below the order gives a point. -/
lemma smul_base_ne_zero [Fact n.Prime] (hk : 0 < k ∧ k < n) : (k : ZMod n) • G.base ≠ 0 := by
  have hcast : (k : ZMod n) ≠ 0 := by
    rw [Ne, ZMod.natCast_eq_zero_iff]
    exact Nat.not_dvd_of_pos_of_lt hk.1 hk.2
  exact smul_ne_zero hcast G.base_ne_zero

/-- The nonce point of a scalar, a challenge and a key. -/
def nonce (G : XOnlyGroup n P) (e : ZMod n) (X : P) (s : ℕ) : P := (s : ZMod n) • G.base - e • X

/-- BIP-340 verification of `(r, s)` for the key `X` and the challenge `e`. -/
def Valid (G : XOnlyGroup n P) (e : ZMod n) (X : P) (r s : ℕ) : Prop :=
  s < n ∧ G.nonce e X s ≠ 0 ∧ G.even (G.nonce e X s) = true ∧ G.x (G.nonce e X s) = r

instance [DecidableEq P] (e : ZMod n) (X : P) (r s : ℕ) : Decidable (G.Valid e X r s) :=
  inferInstanceAs (Decidable (_ ∧ _))

/-- `sPre` pre-signs with the nonce point `R` for the adaptor point `T`. -/
structure Presigned (G : XOnlyGroup n P) (e : ZMod n) (X R T : P) (sPre : ZMod n) : Prop where
  eq : sPre • G.base = R + e • X
  ne_zero : R + T ≠ 0
  even : G.even (R + T) = true

namespace Presigned

variable {e e' sPre t : ZMod n} {X R T : P} {s : ℕ}

variable (h : G.Presigned e X R T sPre)
include h

/-- The completed scalar leaves the nonce point `R + T`. -/
lemma nonce_eq (hT : t • G.base = T) (hs : (s : ZMod n) = sPre + t) : G.nonce e X s = R + T := by
  rw [nonce, hs, add_smul, h.eq, hT]
  abel

/-- A signature with the coordinate of `R + T` has that nonce point. -/
lemma nonce_eq_of_valid (hv : G.Valid e' X (G.x (R + T)) s) : G.nonce e' X s = R + T :=
  eq_of_x_eq hv.2.1 h.ne_zero hv.2.2.1 h.even hv.2.2.2

/-- With the logarithm of `T` added it is a signature. -/
lemma valid (hT : t • G.base = T) (hs : (s : ZMod n) = sPre + t)
    (hlt : s < n) : G.Valid e X (G.x (R + T)) s := by
  rw [Valid, h.nonce_eq hT hs]
  exact ⟨hlt, h.ne_zero, h.even, rfl⟩

/-- A signature with the nonce point `R + T` differs by that logarithm. -/
lemma extract [Fact n.Prime] (hT : t • G.base = T)
    (hv : G.Valid e X (G.x (R + T)) s) : (s : ZMod n) = sPre + t := by
  have hnonce := h.nonce_eq_of_valid hv
  rw [nonce, sub_eq_iff_eq_add] at hnonce
  apply smul_left_injective _ G.base_ne_zero
  show _ • _ = _ • _
  rw [add_smul, h.eq, hT, hnonce]
  abel

/-- A completed pre-signature signs its own challenge only. -/
lemma challenge_eq [Fact n.Prime] (hT : t • G.base = T)
    (hs : (s : ZMod n) = sPre + t) (hX : X ≠ 0) (hv : G.Valid e' X (G.x (R + T)) s) : e' = e := by
  have hnonce : G.nonce e' X s = G.nonce e X s :=
    (h.nonce_eq_of_valid hv).trans (h.nonce_eq hT hs).symm
  exact smul_left_injective _ hX (sub_right_injective hnonce)

end Presigned

end XOnlyGroup

/-- A group of prime order with canonical encodings. -/
structure EncodedGroup (m : ℕ) (Q : Type*) [AddCommGroup Q] [Module (ZMod m) Q] where
  base : Q
  base_ne_zero : base ≠ 0
  exists_log : ∀ q, ∃ k : ZMod m, k • base = q
  compress : Q → List UInt8
  length_compress : ∀ q, (compress q).length = 32
  decompress : List UInt8 → Option Q
  decompress_eq_some : ∀ {b q}, decompress b = some q ↔ compress q = b

/-- Encodings are canonical. -/
lemma EncodedGroup.compress_injective {Q : Type*} [AddCommGroup Q] [Module (ZMod m) Q]
    (G : EncodedGroup m Q) : Function.Injective G.compress := by
  intro p q h
  have hp := G.decompress_eq_some.mpr h
  have hq := G.decompress_eq_some.mpr (rfl : G.compress q = G.compress q)
  exact Option.mem_unique hp hq

import CoinCync.Lib.MachineInt
import Mathlib.Data.List.DropRight
import Mathlib.Tactic.Ring

/-!
# Decimal text

The value of a list of digits, reading one with an overflow check at every digit as parsers of machine
integers do, and the value of a numeral with a fraction, scaled by a power of ten and rounded down.
-/

namespace Decimal

open MachineInt List Option

/-- Only digits. -/
def Digits (l : List Char) : Prop := ∀ c ∈ l, c.isDigit = true

instance (l : List Char) : Decidable (Digits l) := inferInstanceAs (Decidable (∀ c ∈ l, _))

/-- The number they say. -/
def value (l : List Char) : ℕ := Nat.ofDigitChars 10 l 0

lemma value_append (l m : List Char) : value (l ++ m) = 10 ^ m.length * value l + value m := by
  rw [value, Nat.ofDigitChars_append, Nat.ofDigitChars_eq_ofDigitChars_zero]
  rfl

lemma value_replicate_zero (k : ℕ) : value (List.replicate k '0') = 0 := by
  rw [value, Nat.ofDigitChars_replicate_zero, mul_zero]

/-- The digits of a number say it. -/
lemma value_toDigits (k : ℕ) : value (Nat.toDigits 10 k) = k := Nat.ofDigitChars_ten_toDigits

lemma digits_toDigits (k : ℕ) : Digits (Nat.toDigits 10 k) := fun _ hc =>
  Nat.isDigit_of_mem_toDigits (by decide) (by decide) hc

lemma digit_lt {c : Char} (h : c.isDigit = true) : c.toNat - '0'.toNat < 10 := by
  obtain ⟨-, hle⟩ := Char.isDigit_iff_toNat.mp h
  have hzero : '0'.toNat = 48 := rfl
  have hnine : '9'.toNat = 57 := rfl
  omega

lemma value_lt (h : Digits l) : value l < 10 ^ l.length := by
  induction l using reverseRecOn with
  | nil => exact zero_lt_one
  | append_singleton l c ih =>
    have hl := ih fun d hd => h d (mem_append_left _ hd)
    have hc := digit_lt (h c (mem_append_right _ mem_cons_self))
    have hone : value [c] = c.toNat - '0'.toNat := by
      rw [value, Nat.ofDigitChars_cons, Nat.ofDigitChars_nil, mul_zero, zero_add]
    rw [value_append, hone, length_append, length_singleton]
    omega

/-! ## Reading a machine integer -/

/-- The digits of `l` appended to a number read before. -/
def readDigits (w : ℕ) : ℕ → List Char → Option ℕ
  | acc, [] => some acc
  | acc, c :: rest =>
    if c.isDigit then
      ((checkedMul w acc 10).bind (checkedAdd w · (c.toNat - '0'.toNat))).bind (readDigits w · rest)
    else none

/-- Every prefix of a number that fits fits. -/
lemma readDigits_eq_some (hacc : acc < 2 ^ w) :
    readDigits w acc l = some v ↔ Digits l ∧ v = Nat.ofDigitChars 10 l acc ∧ v < 2 ^ w := by
  induction l generalizing acc with
  | nil =>
    rw [readDigits, some_inj]
    constructor
    · rintro rfl
      exact ⟨fun _ hc => absurd hc not_mem_nil, rfl, hacc⟩
    · rintro ⟨-, rfl, -⟩
      rfl
  | cons c rest ih =>
    rw [readDigits, Nat.ofDigitChars_cons]
    generalize c.toNat - '0'.toNat = d
    by_cases hc : c.isDigit = true
    · have hdigits : Digits (c :: rest) ↔ Digits rest := by simp [Digits, hc]
      rw [if_pos hc, hdigits, bind_eq_some_iff]
      constructor
      · rintro ⟨next, hnext, hrest⟩
        obtain ⟨tens, htens, hadd⟩ := bind_eq_some_iff.mp hnext
        obtain ⟨hlt, rfl⟩ := checkedAdd_eq_some.mp hadd
        obtain ⟨-, htens⟩ := ite_none_right_eq_some.mp htens
        cases htens
        rw [mul_comm 10 acc]
        exact (ih hlt).mp hrest
      · rintro ⟨hrest, rfl, hv⟩
        have hge : 10 * acc + d ≤ Nat.ofDigitChars 10 rest (10 * acc + d) := by
          rw [Nat.ofDigitChars_eq_ofDigitChars_zero]
          have := Nat.mul_le_mul_right (10 * acc + d) (Nat.one_le_pow rest.length 10 (by decide))
          omega
        have hlt : 10 * acc + d < 2 ^ w := hge.trans_lt hv
        refine ⟨10 * acc + d, ?_, (ih hlt).mpr ⟨hrest, rfl, hv⟩⟩
        rw [checkedMul, mul_comm acc 10, if_pos (by omega)]
        exact checkedAdd_eq_some.mpr ⟨hlt, rfl⟩
    · have hdigits : ¬ Digits (c :: rest) := fun h => hc (h c mem_cons_self)
      simp [hc, hdigits]

/-- An unsigned integer of width `w`, after at most one plus sign. -/
def parse (w : ℕ) : List Char → Option ℕ
  | [] => none
  | ['+'] => none
  | ['-'] => none
  | '+' :: rest => readDigits w 0 rest
  | l => readDigits w 0 l

lemma parse_eq_some : parse w l = some v ↔
    ∃ ds, (l = ds ∨ l = '+' :: ds) ∧ ds ≠ [] ∧ Digits ds ∧ v = value ds ∧ v < 2 ^ w := by
  have hread : ∀ ds, readDigits w 0 ds = some v ↔ Digits ds ∧ v = value ds ∧ v < 2 ^ w :=
    fun ds => readDigits_eq_some (Nat.two_pow_pos w)
  have hplus : ¬ ('+' : Char).isDigit = true := by decide
  have hminus : ¬ ('-' : Char).isDigit = true := by decide
  unfold parse
  split
  · simp
  · constructor
    · rintro ⟨⟩
    · rintro ⟨ds, rfl | h, hne, hds, -⟩
      · exact absurd (hds _ mem_cons_self) hplus
      · exact absurd (cons.inj h).2.symm hne
  · constructor
    · rintro ⟨⟩
    · rintro ⟨ds, rfl | h, hne, hds, -⟩
      · exact absurd (hds _ mem_cons_self) hminus
      · exact absurd (cons.inj h).1 (by decide)
  · rename_i rest hrest
    rw [hread]
    constructor
    · intro h
      exact ⟨rest, Or.inr rfl, fun hnil => hrest (by rw [hnil]), h⟩
    · rintro ⟨ds, rfl | h, hne, hds, hv⟩
      · exact absurd (hds _ mem_cons_self) hplus
      · obtain rfl := (cons.inj h).2
        exact ⟨hds, hv⟩
  · rename_i hnil _ _ hcons
    rw [hread]
    constructor
    · intro h
      exact ⟨l, Or.inl rfl, hnil, h⟩
    · rintro ⟨ds, rfl | rfl, hne, hds, hv⟩
      · exact ⟨hds, hv⟩
      · exact absurd rfl (hcons ds)

/-! ## Fractions -/

/-- The numeral `ds.fs` times `10 ^ k`, rounded down. -/
def scaled (k : ℕ) (ds fs : List Char) : ℕ := value (ds ++ fs) * 10 ^ k / 10 ^ fs.length

/-- The first `k` digits of the fraction, filled up with zeros. -/
lemma scaled_eq (hfs : Digits fs) :
    scaled k ds fs = value ds * 10 ^ k + value ((fs.take k).rightpad k '0') := by
  have hpos : 0 < 10 ^ fs.length := Nat.pow_pos (by decide)
  have hsplit : value (ds ++ fs) * 10 ^ k
      = value fs * 10 ^ k + 10 ^ fs.length * (value ds * 10 ^ k) := by
    rw [value_append]
    ring
  rw [scaled, hsplit, Nat.add_mul_div_left _ _ hpos, add_comm]
  congr 1
  rcases le_total fs.length k with hle | hle
  · -- a short fraction is filled up
    have hpow : 10 ^ k = 10 ^ (k - fs.length) * 10 ^ fs.length := by
      rw [← pow_add, Nat.sub_add_cancel hle]
    rw [take_of_length_le hle, rightpad, value_append, value_replicate_zero,
      length_replicate, hpow, ← mul_assoc, Nat.mul_div_cancel _ hpos, add_zero,
      mul_comm]
  · -- a long one is cut
    have hlen : (fs.take k).length = k := by rw [length_take, min_eq_left hle]
    have hdrop : value (fs.drop k) < 10 ^ (fs.length - k) := by
      have := value_lt (l := fs.drop k) fun c hc => hfs c (mem_of_mem_drop hc)
      rwa [length_drop] at this
    have hfull : value fs = 10 ^ (fs.length - k) * value (fs.take k) + value (fs.drop k) := by
      have := value_append (fs.take k) (fs.drop k)
      rwa [take_append_drop, length_drop] at this
    have hpow : 10 ^ fs.length = 10 ^ (fs.length - k) * 10 ^ k := by
      rw [← pow_add, Nat.sub_add_cancel hle]
    have hpad : (fs.take k).rightpad k '0' = fs.take k := by
      rw [rightpad, hlen, Nat.sub_self, replicate_zero, append_nil]
    rw [hpad, hpow, Nat.mul_div_mul_right _ _ (Nat.pow_pos (by decide)), hfull, add_comm,
      Nat.add_mul_div_left _ _ (Nat.pow_pos (by decide)), Nat.div_eq_of_lt hdrop, zero_add]

/-- Trailing zeros that were cut off are filled up again. -/
lemma rightpad_rdropWhile {α : Type*} [DecidableEq α] (a : α) (l : List α) :
    (l.rdropWhile (· = a)).rightpad l.length a = l := by
  have hsplit := rdropWhile_append_rtakeWhile (p := (· = a)) (l := l)
  have hlen := congrArg length hsplit
  rw [length_append] at hlen
  have hzeros : l.rtakeWhile (fun x => decide (x = a))
      = replicate (l.length - (l.rdropWhile (fun x => decide (x = a))).length) a := by
    rw [eq_replicate_iff]
    refine ⟨by omega, fun b hb => ?_⟩
    simpa using mem_rtakeWhile_imp hb
  rw [rightpad, ← hzeros, hsplit]

end Decimal

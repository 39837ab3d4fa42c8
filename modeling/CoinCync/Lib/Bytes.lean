import Mathlib.Data.List.Basic
import Mathlib.Data.Nat.ModEq
import Mathlib.Data.String.Basic
import Mathlib.Tactic.IntervalCases

/-!
# Byte strings

Little- and big-endian numbers and the reading of fixed-size fields off the front of a byte string,
and text of two hexadecimal digits a byte.
-/

namespace Bytes

/-- The number of the bytes, least significant first. -/
def ofLe : List UInt8 → ℕ
  | [] => 0
  | b :: bs => b.toNat + 256 * ofLe bs

/-- The lowest `k` bytes of a number, least significant first. -/
def toLe : ℕ → ℕ → List UInt8
  | 0, _ => []
  | k + 1, n => UInt8.ofNat n :: toLe k (n / 256)

@[simp] lemma length_toLe (k n : ℕ) : (toLe k n).length = k := by
  induction k generalizing n with
  | zero => rfl
  | succ k ih => rw [toLe, List.length_cons, ih]

/-- A number of at most `k` bytes is read back. -/
lemma ofLe_toLe (h : n < 256 ^ k) : ofLe (toLe k n) = n := by
  induction k generalizing n with
  | zero =>
    have hn : n = 0 := by simpa using h
    rw [hn]
    rfl
  | succ k ih =>
    have hdiv : n / 256 < 256 ^ k := by
      rw [Nat.div_lt_iff_lt_mul (by omega)]
      rwa [pow_succ] at h
    have hbyte : (UInt8.ofNat n).toNat = n % 256 := by simp
    rw [toLe, ofLe, ih hdiv]
    omega

lemma toLe_ofLe (l : List UInt8) : toLe l.length (ofLe l) = l := by
  induction l with
  | nil => rfl
  | cons b l ih =>
    have hb := b.toNat_lt
    have hmod : UInt8.ofNat (b.toNat + 256 * ofLe l) = b := by
      apply UInt8.toNat_inj.mp
      rw [UInt8.toNat_ofNat']
      omega
    have hdiv : (b.toNat + 256 * ofLe l) / 256 = ofLe l := by omega
    rw [ofLe, List.length_cons, toLe, hmod, hdiv, ih]

/-- The first `n` bytes and the rest, if there are as many. -/
def split (n : ℕ) (l : List UInt8) : Option (List UInt8 × List UInt8) :=
  if n ≤ l.length then some (l.take n, l.drop n) else none

/-- A field of the right size in front is read. -/
lemma split_append (h : a.length = n) (l : List UInt8) : split n (a ++ l) = some (a, l) := by
  subst h
  simp [split]

/-- The number of the bytes, most significant first. -/
def ofBe (l : List UInt8) : ℕ := ofLe l.reverse

/-- The lowest `k` bytes of a number, most significant first. -/
def toBe (k n : ℕ) : List UInt8 := (toLe k n).reverse

@[simp] lemma length_toBe (k n : ℕ) : (toBe k n).length = k := by
  rw [toBe, List.length_reverse, length_toLe]

lemma toBe_ofBe (h : l.length = k) : toBe k (ofBe l) = l := by
  rw [toBe, ofBe, ← h, ← List.length_reverse, toLe_ofLe, List.reverse_reverse]

lemma ofBe_toBe (h : n < 256 ^ k) : ofBe (toBe k n) = n := by
  rw [ofBe, toBe, List.reverse_reverse, ofLe_toLe h]

end Bytes

/-! ## Hexadecimal text -/

namespace Hex

/-- The value of a digit. -/
def digit (c : Char) : Option ℕ :=
  if '0' ≤ c ∧ c ≤ '9' then some (c.toNat - 48)
  else if 'a' ≤ c ∧ c ≤ 'f' then some (c.toNat - 87)
  else if 'A' ≤ c ∧ c ≤ 'F' then some (c.toNat - 55)
  else none

/-- Two digits a byte. -/
def decodeChars : List Char → Option (List UInt8)
  | [] => some []
  | [_] => none
  | a :: b :: l => (digit a).bind fun x => (digit b).bind fun y =>
    (decodeChars l).map (UInt8.ofNat (16 * x + y) :: ·)

/-- Reading text. -/
def decode (s : String) : Option (List UInt8) := decodeChars s.toList

/-- The lower-case digit of a value. -/
def char (k : ℕ) : Char := Char.ofNat (if k < 10 then 48 + k else 87 + k)

/-- Two digits for each byte. -/
def encodeChars : List UInt8 → List Char
  | [] => []
  | b :: l => char (b.toNat / 16) :: char (b.toNat % 16) :: encodeChars l

/-- Writing text. -/
def encode (l : List UInt8) : String := String.ofList (encodeChars l)

/-- Digits are read back. -/
lemma digit_char (h : k < 16) : digit (char k) = some k := by
  interval_cases k <;> rfl

lemma decodeChars_encodeChars (l : List UInt8) : decodeChars (encodeChars l) = some l := by
  induction l with
  | nil => rfl
  | cons b l ih =>
    have hb := b.toNat_lt
    have hbyte : 16 * (b.toNat / 16) + b.toNat % 16 = b.toNat := Nat.div_add_mod _ _
    rw [encodeChars, decodeChars, digit_char (by omega), Option.bind_some, digit_char (by omega),
      Option.bind_some, ih, Option.map_some, hbyte, UInt8.ofNat_toNat]

/-- What is encoded is decoded. -/
lemma decode_encode (l : List UInt8) : decode (encode l) = some l := by
  rw [decode, encode, String.toList_ofList, decodeChars_encodeChars]

lemma utf8Size_char (h : k < 16) : (char k).utf8Size = 1 := by
  interval_cases k <;> rfl

/-- Two bytes of text a byte. -/
lemma utf8ByteSize_encode (l : List UInt8) : (encode l).utf8ByteSize = 2 * l.length := by
  rw [encode, String.utf8ByteSize_ofList]
  induction l with
  | nil => rfl
  | cons b l ih =>
    have hb := b.toNat_lt
    rw [encodeChars, String.utf8Len_cons, String.utf8Len_cons, ih, utf8Size_char (by omega),
      utf8Size_char (by omega), List.length_cons]
    omega

end Hex

import CoinCync.Lib.Bytes

/-!
# Formats

A format says how a value is written and how one is read off the front of a byte string; what is
written is read back (`Codec.read_write`). Formats are put together from fixed-size numbers, length
prefixes in the variable-size form, pairs and counted lists.
-/

/-- A format and the values it has room for. -/
structure Codec (α : Type*) where
  write : α → List UInt8
  read : List UInt8 → Option (α × List UInt8)
  /-- The values the format has room for. -/
  fits : α → Prop
  read_write : ∀ {a : α}, fits a → ∀ rest, read (write a ++ rest) = some (a, rest)

namespace Codec

open Bytes List Option

variable {α β : Type*}
variable {as : List α}

/-- A little-endian number of `k` bytes. -/
def le (k : ℕ) : Codec ℕ where
  write := toLe k
  read l := (split k l).map fun p => (ofLe p.1, p.2)
  fits n := n < 256 ^ k
  read_write h rest := by
    rw [split_append (length_toLe k _), map_some, ofLe_toLe h]

/-- Exactly `k` bytes. -/
def fixed (k : ℕ) : Codec (List UInt8) where
  write l := l
  read := split k
  fits l := l.length = k
  read_write h rest := split_append h rest

/-- The values of another type, written as those of this one. -/
def map (c : Codec α) (f : α → β) (g : β → α) (hfg : ∀ b, f (g b) = b) : Codec β where
  write b := c.write (g b)
  read l := (c.read l).map fun p => (f p.1, p.2)
  fits b := c.fits (g b)
  read_write h rest := by
    rw [c.read_write h, map_some, hfg]

/-- One value after another. -/
def pair (c : Codec α) (d : Codec β) : Codec (α × β) where
  write p := c.write p.1 ++ d.write p.2
  read l := (c.read l).bind fun p => (d.read p.2).map fun q => ((p.1, q.1), q.2)
  fits p := c.fits p.1 ∧ d.fits p.2
  read_write h rest := by
    rw [append_assoc, c.read_write h.1, bind_some, d.read_write h.2, map_some]

/-- A value whose format depends on the one before it. -/
def depPair (c : Codec α) (d : α → Codec β) (first : β → α) : Codec β where
  write b := c.write (first b) ++ (d (first b)).write b
  read l := (c.read l).bind fun p => (d p.1).read p.2
  fits b := c.fits (first b) ∧ (d (first b)).fits b
  read_write h rest := by
    rw [append_assoc, c.read_write h.1, bind_some, (d _).read_write h.2]

/-- Reading `k` values. -/
def readMany (c : Codec α) : ℕ → List UInt8 → Option (List α × List UInt8)
  | 0, l => some ([], l)
  | k + 1, l => (c.read l).bind fun p => (readMany c k p.2).map fun q => (p.1 :: q.1, q.2)

/-- What is written one after the other. -/
lemma readMany_flatMap (c : Codec α) (h : ∀ a ∈ as, c.fits a)
    (rest : List UInt8) : c.readMany as.length (as.flatMap c.write ++ rest) = some (as, rest) := by
  induction as with
  | nil => rfl
  | cons a as ih =>
    rw [length_cons, readMany, flatMap_cons, append_assoc,
      c.read_write (h a mem_cons_self), bind_some,
      ih fun a' ha' => h a' (mem_cons_of_mem a ha'), map_some]

/-- `k` values. -/
def many (c : Codec α) (k : ℕ) : Codec (List α) where
  write as := as.flatMap c.write
  read := c.readMany k
  fits as := as.length = k ∧ ∀ a ∈ as, c.fits a
  read_write h rest := by
    rw [← h.1]
    exact c.readMany_flatMap h.2 rest

/-- The width after a byte of 253, 254 or 255, and the least number of that width. -/
def wide (b : UInt8) : ℕ × ℕ :=
  if b = 253 then (2, 253) else if b = 254 then (4, 256 ^ 2) else (8, 256 ^ 4)

/-- Reading a number in its shortest form. -/
def readCompactSize : List UInt8 → Option (ℕ × List UInt8)
  | [] => none
  | b :: l =>
    if b.toNat < 253 then some (b.toNat, l)
    else ((le (wide b).1).read l).bind fun p => if (wide b).2 ≤ p.1 then some p else none

lemma readCompactSize_wide (hb : ¬ b.toNat < 253) (hwide : wide b = (k, m)) (hm : m ≤ n)
    (hn : n < 256 ^ k) (rest : List UInt8) :
    readCompactSize (b :: toLe k n ++ rest) = some (n, rest) := by
  have hread : (le k).read (toLe k n ++ rest) = some (n, rest) := (le k).read_write hn rest
  rw [cons_append, readCompactSize, if_neg hb, hwide, hread, bind_some, if_pos hm]

/-- One byte, or two, four or eight after a leading byte, in the shortest form. -/
def compactSize : Codec ℕ where
  write n :=
    if n < 253 then [UInt8.ofNat n]
    else if n < 256 ^ 2 then 253 :: toLe 2 n
    else if n < 256 ^ 4 then 254 :: toLe 4 n
    else 255 :: toLe 8 n
  read := readCompactSize
  fits n := n < 256 ^ 8
  read_write {n} h rest := by
    split_ifs with h1 h2 h4
    · have hb : (UInt8.ofNat n).toNat = n := by
        rw [UInt8.toNat_ofNat']
        omega
      simp [readCompactSize, hb, h1]
    · have hwide : wide 253 = (2, 253) := rfl
      exact readCompactSize_wide (by decide) hwide (by omega) h2 rest
    · have hwide : wide 254 = (4, 256 ^ 2) := rfl
      exact readCompactSize_wide (by decide) hwide (by omega) h4 rest
    · have hwide : wide 255 = (8, 256 ^ 4) := rfl
      exact readCompactSize_wide (by decide) hwide (by omega) h rest

/-- Bytes behind their number. -/
def varBytes : Codec (List UInt8) := compactSize.depPair fixed List.length

/-- Values behind their number. -/
def vec (c : Codec α) : Codec (List α) := compactSize.depPair c.many List.length

lemma length_compactSize_write_le (n : ℕ) : (compactSize.write n).length ≤ 9 := by
  unfold compactSize
  simp only
  split_ifs <;> simp

lemma length_varBytes_write_le (l : List UInt8) : (varBytes.write l).length ≤ 9 + l.length := by
  have := length_compactSize_write_le l.length
  show (compactSize.write l.length ++ l).length ≤ _
  rw [length_append]
  omega

lemma varBytes_fits (h : l.length < 256 ^ 8) : varBytes.fits l := ⟨h, rfl⟩

lemma vec_fits (hlen : as.length < 256 ^ 8) (h : ∀ a ∈ as, c.fits a) :
    (vec c).fits as := ⟨hlen, rfl, h⟩

lemma length_vec_write_le (h : ∀ a ∈ as, (c.write a).length ≤ k) :
    ((vec c).write as).length ≤ 9 + as.length * k := by
  have hcount := length_compactSize_write_le as.length
  have hitems : (as.flatMap c.write).length ≤ as.length * k := by
    induction as with
    | nil => simp
    | cons a as ih =>
      have := h a mem_cons_self
      have := ih (fun a' ha' => h a' (mem_cons_of_mem a ha'))
        (length_compactSize_write_le as.length)
      rw [flatMap_cons, length_append, length_cons, Nat.succ_mul]
      omega
  show (compactSize.write as.length ++ as.flatMap c.write).length ≤ _
  rw [length_append]
  omega

end Codec

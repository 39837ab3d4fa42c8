import CoinCync.Emission
import CoinCync.Lib.Check
import CoinCync.Lib.Decimal
import Mathlib.Data.Nat.Digits.Defs

/-!
# Amounts as text

`Amount::format` and `FromStr for Amount` of `primitives/amount.rs`, over lists of characters. A text
is in whole CYNC, with up to twelve decimals that count. White space around is trimmed, the integer
parser of the standard library takes one plus sign, and nothing need follow the dot.
-/

namespace CoinCync.Amount

open Check Decimal List

/-- The errors of `from_str`. -/
inductive AmountError
  | invalidAddress (text : String)
  | amountUnderflow
  | amountOverflow
deriving DecidableEq

/-! ## The functions -/

/-- `char::is_whitespace`. -/
def isWhitespace (c : Char) : Bool :=
  let n := c.toNat
  (9 ≤ n ∧ n ≤ 13) ∨ n = 0x20 ∨ n = 0x85 ∨ n = 0xa0 ∨ n = 0x1680 ∨ (0x2000 ≤ n ∧ n ≤ 0x200a) ∨
    n = 0x2028 ∨ n = 0x2029 ∨ n = 0x202f ∨ n = 0x205f ∨ n = 0x3000

/-- `str::trim`. -/
def trim (l : List Char) : List Char := (l.dropWhile isWhitespace).rdropWhile isWhitespace

/-- The text before the first dot, and the text behind it. -/
def splitDot (l : List Char) : List Char × Option (List Char) :=
  match l.dropWhile (· ≠ '.') with
  | [] => (l, none)
  | _ :: rest => (l.takeWhile (· ≠ '.'), some rest)

/-- The fraction in atomic units; `invalid` is its error. -/
def parseFrac (invalid : AmountError) : Option (List Char) → Except AmountError ℕ
  | none => .ok 0
  | some frac =>
    if frac = [] then .ok 0
    else do
      require (Digits frac) invalid
      fromSome (parse 128 ((frac.take 12).rightpad 12 '0')) invalid

/-- `from_str` of a trimmed text. -/
def fromTrimmed (s : List Char) : Except AmountError UInt64 := do
  require (s ≠ []) (.invalidAddress "empty amount")
  require (s.head? ≠ some '-') .amountUnderflow
  let invalid := .invalidAddress ("invalid amount: " ++ String.ofList s)
  let intPart ← fromSome (parse 128 (splitDot s).1) invalid
  let maxInt := (2 ^ 64 - 1) / coin
  require (intPart ≤ maxInt) .amountOverflow
  let intSyncs := intPart * coin
  let fracSyncs ← parseFrac invalid (splitDot s).2
  let total ← fromSome (MachineInt.checkedAdd 128 intSyncs fracSyncs) .amountOverflow
  require (total ≤ 2 ^ 64 - 1) .amountOverflow
  return UInt64.ofNat total

/-- `from_str`. -/
def fromStr (s : String) : Except AmountError UInt64 := fromTrimmed (trim s.toList)

/-- Whole units and the decimals without trailing zeros. -/
def formatChars (a : UInt64) (decimals : ℕ) : List Char :=
  let whole := a.toNat / coin
  let frac := a.toNat % coin
  if decimals = 0 then Nat.toDigits 10 whole
  else
    let fracStr := (Nat.toDigits 10 frac).leftpad 12 '0'
    let trimmed := (fracStr.take (min decimals 12)).rdropWhile (· = '0')
    if trimmed = [] then Nat.toDigits 10 whole
    else Nat.toDigits 10 whole ++ '.' :: trimmed

/-- `format`. -/
def format (a : UInt64) (decimals : ℕ) : String := String.ofList (formatChars a decimals)

/-! ## What is read -/

/-- A text that is read as the numeral `ds.fs`. -/
structure Numeral (l ds fs : List Char) : Prop where
  ne_nil : ds ≠ []
  whole : Digits ds
  frac : Digits fs
  /-- An optional sign, and no dot only for an empty fraction. -/
  text : (l = ds ∨ l = '+' :: ds) ∧ fs = [] ∨ (l = ds ++ '.' :: fs ∨ l = '+' :: (ds ++ '.' :: fs))

lemma dot_notMem_of_digits (h : Digits l) : '.' ∉ l := fun hmem =>
  absurd (h _ hmem) (by decide)

lemma splitDot_of_notMem (h : '.' ∉ l) : splitDot l = (l, none) := by
  have hdrop : l.dropWhile (· ≠ '.') = [] := by
    rw [dropWhile_eq_nil_iff]
    intro c hc
    simp only [decide_not, Bool.not_eq_eq_eq_not, Bool.not_true, decide_eq_false_iff_not]
    rintro rfl
    exact h hc
  rw [splitDot, hdrop]

lemma splitDot_append (h : '.' ∉ i) : splitDot (i ++ '.' :: f) = (i, some f) := by
  have hall : ∀ c ∈ i, decide (c ≠ '.') = true := by
    intro c hc
    rw [decide_eq_true_iff]
    rintro rfl
    exact h hc
  have hdrop : (i ++ '.' :: f).dropWhile (· ≠ '.') = '.' :: f := by
    rw [dropWhile_append_of_pos hall, dropWhile_cons_of_neg (by simp)]
  have htake : (i ++ '.' :: f).takeWhile (· ≠ '.') = i := by
    rw [takeWhile_append_of_pos hall, takeWhile_cons_of_neg (by simp), append_nil]
  rw [splitDot, hdrop, htake]

/-- The first dot, if there is one. -/
lemma splitDot_cases (l : List Char) : splitDot l = (l, none) ∨
    ∃ i f, '.' ∉ i ∧ l = i ++ '.' :: f ∧ splitDot l = (i, some f) := by
  by_cases h : '.' ∈ l
  · obtain ⟨i, f, rfl, hi⟩ := eq_append_cons_of_mem h
    exact Or.inr ⟨i, f, hi, rfl, splitDot_append hi⟩
  · exact Or.inl (splitDot_of_notMem h)

/-- It starts with a digit or the plus sign. -/
lemma Numeral.head (h : Numeral l ds fs) : l ≠ [] ∧ l.head? ≠ some '-' := by
  obtain ⟨c, rest, rfl⟩ := exists_cons_of_ne_nil h.ne_nil
  have hc : c ≠ '-' := by
    rintro rfl
    exact absurd (h.whole _ mem_cons_self) (by decide)
  rcases h.text with ⟨rfl | rfl, -⟩ | rfl | rfl <;> simp [hc]

/-- In terms of the two parts. -/
lemma numeral_iff : Numeral l ds fs ↔
    ((splitDot l).1 = ds ∨ (splitDot l).1 = '+' :: ds) ∧ (splitDot l).2.getD [] = fs ∧
      ds ≠ [] ∧ Digits ds ∧ Digits fs := by
  constructor
  · rintro ⟨hne, hds, hfs, htext⟩
    have hdot := dot_notMem_of_digits hds
    have hplus : '.' ∉ '+' :: ds := by simp [hdot]
    rcases htext with ⟨rfl | rfl, rfl⟩ | rfl | rfl
    · rw [splitDot_of_notMem hdot]
      exact ⟨Or.inl rfl, rfl, hne, hds, hfs⟩
    · rw [splitDot_of_notMem hplus]
      exact ⟨Or.inr rfl, rfl, hne, hds, hfs⟩
    · rw [splitDot_append hdot]
      exact ⟨Or.inl rfl, rfl, hne, hds, hfs⟩
    · rw [← cons_append, splitDot_append hplus]
      exact ⟨Or.inr rfl, rfl, hne, hds, hfs⟩
  · rintro ⟨hint, rfl, hne, hds, hfs⟩
    refine ⟨hne, hds, hfs, ?_⟩
    obtain hsplit | ⟨i, f, -, rfl, hsplit⟩ := splitDot_cases l
    · rw [hsplit] at hint ⊢
      exact Or.inl ⟨hint, rfl⟩
    · rw [hsplit] at hint ⊢
      rcases hint with rfl | rfl
      · exact Or.inr (Or.inl rfl)
      · exact Or.inr (Or.inr rfl)

lemma digits_rightpad (h : Digits l) (k : ℕ) : Digits (l.rightpad k '0') := by
  intro c hc
  rw [rightpad, mem_append, mem_replicate] at hc
  rcases hc with hc | ⟨-, rfl⟩
  · exact h c hc
  · decide

/-- A list of digits is read as its value. -/
lemma parse_digits (hne : ds ≠ []) (h : Digits ds) (hlt : value ds < 2 ^ w) :
    parse w ds = some (value ds) :=
  parse_eq_some.mpr ⟨ds, Or.inl rfl, hne, h, rfl, hlt⟩

lemma value_zeros : value ((([] : List Char).take 12).rightpad 12 '0') = 0 :=
  value_replicate_zero 12

/-- The fraction is digits, cut and padded to twelve. -/
lemma parseFrac_eq_ok :
    parseFrac invalid f = .ok v ↔
      Digits (f.getD []) ∧ value (((f.getD []).take 12).rightpad 12 '0') = v := by
  have hnil : Digits [] := fun _ hc => absurd hc not_mem_nil
  cases f with
  | none => rw [parseFrac, Option.getD_none, value_zeros, Except.ok.injEq, and_iff_right hnil]
  | some frac =>
    rw [parseFrac, Option.getD_some]
    split_ifs with hempty
    · subst hempty
      rw [value_zeros, Except.ok.injEq, and_iff_right hnil]
    · rw [seq_eq_ok, require_eq_ok, fromSome_eq_ok]
      refine and_congr_right fun hdigits => ?_
      have hpadded : Digits ((frac.take 12).rightpad 12 '0') :=
        digits_rightpad (fun c hc => hdigits c (mem_of_mem_take hc)) 12
      have hlen : ((frac.take 12).rightpad 12 '0').length = 12 := by
        rw [length_rightpad, length_take]
        omega
      have hlt : value ((frac.take 12).rightpad 12 '0') < 2 ^ 128 :=
        (value_lt hpadded).trans (by rw [hlen]; decide)
      have hne : (frac.take 12).rightpad 12 '0' ≠ [] := ne_nil_of_length_pos (by omega)
      rw [parse_digits hne hpadded hlt, Option.some_inj]

/-- The parser reads exactly the numerals, rounded down to atomic units. -/
lemma fromTrimmed_eq_ok :
    fromTrimmed s = .ok a ↔ ∃ ds fs, Numeral s ds fs ∧ a.toNat = scaled 12 ds fs := by
  have hcoin : coin = 10 ^ 12 := rfl
  simp only [fromTrimmed, bind_eq_ok, require_eq_ok, fromSome_eq_ok, parse_eq_some, parseFrac_eq_ok,
    MachineInt.checkedAdd_eq_some, pure_eq_ok, exists_const]
  constructor
  · rintro ⟨-, -, _, ⟨ds, hint, hne, hds, rfl, -⟩, hmax, _, ⟨hfs, rfl⟩, _, ⟨-, rfl⟩, hfits, rfl⟩
    refine ⟨ds, _, numeral_iff.mpr ⟨hint, rfl, hne, hds, hfs⟩, ?_⟩
    rw [scaled_eq hfs]
    exact UInt64.toNat_ofNat_of_lt' (lt_of_le_of_lt hfits (by decide))
  · rintro ⟨ds, fs, hnum, hvalue⟩
    obtain ⟨hint, rfl, hne, hds, hfs⟩ := numeral_iff.mp hnum
    have hlt := a.toNat_lt
    rw [scaled_eq hfs, ← hcoin] at hvalue
    refine ⟨hnum.head.1, hnum.head.2, value ds, ⟨ds, hint, hne, hds, rfl, ?_⟩, ?_, _, ⟨hfs, rfl⟩, _,
      ⟨?_, rfl⟩, ?_, ?_⟩
    · rw [coin] at hvalue
      omega
    · rw [coin] at hvalue ⊢
      omega
    · omega
    · omega
    · rw [← hvalue]
      exact UInt64.ofNat_toNat

/-! ## What is written -/

lemma trim_eq_self (h : ∀ c ∈ l, isWhitespace c = false) : trim l = l := by
  have hdrop : l.dropWhile isWhitespace = l := by
    cases l with
    | nil => rfl
    | cons c rest => exact dropWhile_cons_of_neg (by simp [h c mem_cons_self])
  rw [trim, hdrop, rdropWhile_eq_self_iff]
  intro hne
  simp [h _ (getLast_mem hne)]

lemma isWhitespace_of_isDigit (h : c.isDigit = true) : isWhitespace c = false := by
  obtain ⟨hge, hle⟩ := Char.isDigit_iff_toNat.mp h
  have hzero : '0'.toNat = 48 := rfl
  have hnine : '9'.toNat = 57 := rfl
  simp only [isWhitespace, decide_eq_false_iff_not]
  omega

/-- A numeral without a sign is not trimmed. -/
lemma trim_numeral (hds : Digits ds) (hfs : Digits fs) :
    trim ds = ds ∧ trim (ds ++ '.' :: fs) = ds ++ '.' :: fs := by
  constructor
  · exact trim_eq_self fun c hc => isWhitespace_of_isDigit (hds c hc)
  · apply trim_eq_self
    intro c hc
    rcases mem_append.mp hc with hc | hc
    · exact isWhitespace_of_isDigit (hds c hc)
    · rcases mem_cons.mp hc with rfl | hc
      · decide
      · exact isWhitespace_of_isDigit (hfs c hc)

/-- The twelve decimals of an amount. -/
def fracChars (a : UInt64) : List Char := (Nat.toDigits 10 (a.toNat % coin)).leftpad 12 '0'

lemma length_fracChars (a : UInt64) : (fracChars a).length = 12 := by
  have hle : (Nat.toDigits 10 (a.toNat % coin)).length ≤ 12 :=
    Nat.toDigits_length 10 _ 12 (by decide) (Nat.mod_lt _ (by decide))
  rw [fracChars, length_leftpad]
  omega

lemma digits_fracChars (a : UInt64) : Digits (fracChars a) := by
  intro c hc
  rw [fracChars, leftpad, mem_append, mem_replicate] at hc
  rcases hc with ⟨-, rfl⟩ | hc
  · decide
  · exact digits_toDigits _ c hc

/-- They are the fraction. -/
lemma value_fracChars (a : UInt64) : value (fracChars a) = a.toNat % coin := by
  rw [fracChars, leftpad, value_append, value_replicate_zero, value_toDigits, mul_zero,
    zero_add]

/-- The text of an amount is a numeral of its value. -/
lemma numeral_formatChars (a : UInt64) : ∃ ds fs, Numeral (formatChars a 12) ds fs ∧
    scaled 12 ds fs = a.toNat ∧ trim (formatChars a 12) = formatChars a 12 := by
  have hwhole := digits_toDigits (a.toNat / coin)
  have hne : Nat.toDigits 10 (a.toNat / coin) ≠ [] := Nat.toDigits_ne_nil
  have htake : ((Nat.toDigits 10 (a.toNat % coin)).leftpad 12 '0').take (min 12 12) = fracChars a :=
    take_of_length_le (length_fracChars a).le
  have hpad : ((fracChars a).rdropWhile (· = '0')).rightpad 12 '0' = fracChars a := by
    have h := rightpad_rdropWhile '0' (fracChars a)
    rwa [length_fracChars] at h
  have hfrac : Digits ((fracChars a).rdropWhile (· = '0')) := fun c hc =>
    digits_fracChars a c ((List.rdropWhile_prefix _ _).subset hc)
  have hshort : ((fracChars a).rdropWhile (· = '0')).take 12
      = (fracChars a).rdropWhile (· = '0') :=
    take_of_length_le ((List.rdropWhile_prefix _ _).length_le.trans (length_fracChars a).le)
  have hvalue : scaled 12 (Nat.toDigits 10 (a.toNat / coin)) ((fracChars a).rdropWhile (· = '0'))
      = a.toNat := by
    rw [scaled_eq hfrac, hshort, hpad, value_fracChars, value_toDigits]
    exact Nat.div_add_mod' _ _
  simp only [formatChars, htake, OfNat.ofNat_ne_zero, if_false]
  refine ⟨_, (fracChars a).rdropWhile (· = '0'), ?_, hvalue, ?_⟩
  · split_ifs with hempty
    · exact ⟨hne, hwhole, hfrac, Or.inl ⟨Or.inl rfl, hempty⟩⟩
    · exact ⟨hne, hwhole, hfrac, Or.inr (Or.inl rfl)⟩
  · obtain ⟨hint, hboth⟩ := trim_numeral hwhole hfrac
    split_ifs
    · exact hint
    · exact hboth

/-- Formatting with twelve decimals and parsing gives the amount back, and parsing succeeds exactly
on the numerals whose value in atomic units, rounded down, fits `u64`. -/
theorem amount_text_round_trip :
    (∀ a, fromStr (format a 12) = .ok a) ∧
    ∀ s a, fromStr s = .ok a ↔
      ∃ ds fs, Numeral (trim s.toList) ds fs ∧ a.toNat = scaled 12 ds fs := by
  refine ⟨fun a => ?_, fun s a => fromTrimmed_eq_ok⟩
  obtain ⟨ds, fs, hnum, hvalue, htrim⟩ := numeral_formatChars a
  rw [fromStr, format, String.toList_ofList, htrim]
  exact fromTrimmed_eq_ok.mpr ⟨ds, fs, hnum, hvalue.symm⟩

/-- Digits, optionally one dot and digits. -/
def PlainNumeral (l : List Char) : Prop :=
  ∃ ds fs, ds ≠ [] ∧ Digits ds ∧ Digits fs ∧ (l = ds ∨ l = ds ++ '.' :: fs)

/-- It starts with a digit. -/
lemma PlainNumeral.head (h : PlainNumeral (c :: l)) : c.isDigit = true := by
  obtain ⟨ds, fs, hne, hds, -, hl⟩ := h
  obtain ⟨d, rest, rfl⟩ := exists_cons_of_ne_nil hne
  have hd := hds d mem_cons_self
  rcases hl with hl | hl
  · rwa [(cons.inj hl).1]
  · rwa [(cons.inj hl).1]

/-- White space and a plus sign are accepted. -/
theorem spaced_and_signed_accepted :
    fromStr " 5\n" = .ok 5000000000000 ∧ ¬ PlainNumeral " 5\n".toList ∧
    fromStr "+5" = .ok 5000000000000 ∧ ¬ PlainNumeral "+5".toList := by
  have hspace : " 5\n".toList = [' ', '5', '\n'] := by decide +kernel
  have hplus : "+5".toList = ['+', '5'] := by decide +kernel
  refine ⟨by decide +kernel, fun h => ?_, by decide +kernel, fun h => ?_⟩
  · rw [hspace] at h
    exact absurd h.head (by decide)
  · rw [hplus] at h
    exact absurd h.head (by decide)

end CoinCync.Amount

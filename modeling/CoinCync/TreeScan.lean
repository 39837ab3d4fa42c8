import Mathlib.Data.List.Lex
import Mathlib.Data.List.TakeWhile
import Mathlib.Data.UInt

/-!
# Scans of a tree of the database

`Tree::scan_prefix` and `Tree::range` of `db/shim.rs`, over a column family as RocksDB keeps it: rows in
bytewise order of their keys, and an iterator that starts at the first key not below its start and
stops below its upper bound. For a prefix without a byte below `0xFF`, `upper_bound` answers the
prefix itself, and the scan is empty.
-/

namespace CoinCync.Db

open List

/-- Keys and values. -/
abbrev Bytes := List UInt8

/-- Rows in the order of their keys. -/
structure ColumnFamily where
  rows : List (Bytes × Bytes)
  sorted : rows.Pairwise (·.1 < ·.1)

/-- `upper_bound`: the last byte that can is bumped, the rest cut off. -/
def bump : Bytes → Option Bytes
  | [] => none
  | b :: l => ((bump l).map (b :: ·)).or (if b < 0xFF then some [b + 1] else none)

/-- `upper_bound`. -/
def upperBound (p : Bytes) : Bytes := (bump p).getD p

/-- An end of a range. -/
inductive Bound
  | included (key : Bytes)
  | excluded (key : Bytes)
  | unbounded

/-- `range.start_bound()` as the first key of an iterator. -/
def Bound.start : Bound → Option Bytes
  | included v => some v
  | excluded v => some (v ++ [0])
  | unbounded => none

/-- `range.end_bound()` as the upper bound of an iterator. -/
def Bound.upper : Bound → Option Bytes
  | included v => some (v ++ [0])
  | excluded v => some v
  | unbounded => none

namespace ColumnFamily

/-- `iterator_cf_opt`. -/
def iterator (cf : ColumnFamily) (start upper : Option Bytes) : List (Bytes × Bytes) :=
  (cf.rows.dropWhile fun r => start.any (r.1 < ·)).takeWhile fun r => upper.all (r.1 < ·)

/-- `scan_prefix`. -/
def scanPrefix (cf : ColumnFamily) (p : Bytes) : List (Bytes × Bytes) :=
  (cf.iterator (some p) (some (upperBound p))).takeWhile fun r => p.isPrefixOf r.1

/-- `range`. -/
def range (cf : ColumnFamily) (lo hi : Bound) : List (Bytes × Bytes) :=
  cf.iterator lo.start hi.upper

end ColumnFamily

/-- Calls of `next` and `next_back`: from the front, left, from the back. -/
def drain : List Bool → List α → List α × List α × List α
  | [], l => ([], l, [])
  | true :: calls, l =>
    let (front, rest, back) := drain calls l.tail
    (l.head?.toList ++ front, rest, back)
  | false :: calls, l =>
    let (front, rest, back) := drain calls l.dropLast
    (front, rest, back ++ l.getLast?.toList)

/-- The key is not before the bound. -/
def Bound.below (key : Bytes) : Bound → Bool
  | .included v => v ≤ key
  | .excluded v => v < key
  | .unbounded => true

/-- The key is not behind the bound. -/
def Bound.above (key : Bytes) : Bound → Bool
  | .included v => key ≤ v
  | .excluded v => key < v
  | .unbounded => true

/-! ## The bound of a prefix -/

/-- No byte can be bumped. -/
lemma bump_eq_none : bump p = none ↔ ∀ b ∈ p, ¬ b < 0xFF := by
  induction p with
  | nil => simp [bump]
  | cons b l ih =>
    rw [bump, Option.or_eq_none_iff, Option.map_eq_none_iff, ih, and_comm]
    simp

/-- Extensions of a prefix are the keys from it to its bump, if it has one. -/
lemma prefix_iff {p key : Bytes} : p <+: key ↔ ¬ key < p ∧ ∀ u ∈ bump p, key < u := by
  induction p generalizing key with
  | nil => simp [bump]
  | cons b l ih =>
    cases key with
    | nil => simp
    | cons c key =>
      rw [cons_prefix_cons, ih, bump, cons_lt_cons_iff]
      cases bump l with
      | some v =>
        simp only [Option.map_some, Option.some_or, Option.mem_some_iff, forall_eq', cons_lt_cons_iff]
        grind
      | none =>
        -- a byte of `0xFF` has none above it, another has its bump next
        by_cases hb : b < 0xFF
        · have hnext : c < b + 1 ↔ ¬ b < c := by grind
          simp only [Option.map_none, Option.none_or, if_pos hb, Option.mem_some_iff, forall_eq',
            cons_lt_cons_iff, hnext, not_lt_nil]
          grind
        · grind

/-- The first key above `v` is `v` with a zero byte. -/
lemma lt_append_zero {key v : Bytes} : key < v ++ [0] ↔ key ≤ v := by
  rw [← List.not_lt]
  induction v generalizing key with
  | nil =>
    cases key with
    | nil => simp
    | cons c key => simp [cons_lt_cons_iff]
  | cons b l ih =>
    cases key with
    | nil => simp
    | cons c key =>
      rw [cons_append, cons_lt_cons_iff, cons_lt_cons_iff]
      grind

lemma Bound.below_eq (key : Bytes) (lo : Bound) : lo.below key = !lo.start.any (key < ·) := by
  cases lo with
  | excluded v =>
    have h : v < key ↔ ¬ key < v ++ [0] := by rw [lt_append_zero, List.not_le]
    simp only [below, start, Option.any_some, decide_eq_decide.mpr h, decide_not]
  | _ => simp [below, start, ← List.not_lt]

lemma Bound.above_eq (key : Bytes) (hi : Bound) : hi.above key = hi.upper.all (key < ·) := by
  cases hi <;> simp [above, upper, lt_append_zero]

/-! ## Scans -/

/-- A predicate that fails from some place on: stopping is filtering. -/
lemma while_eq_filter {q : α → Bool} {l : List α}
    (hq : l.Pairwise fun a b => q b = true → q a = true) :
    l.takeWhile q = l.filter q ∧ l.dropWhile q = l.filter (!q ·) := by
  induction hq with
  | nil => exact ⟨rfl, rfl⟩
  | @cons a l ha _ ih =>
    cases h : q a with
    | true => simp [h, ih]
    | false =>
      have hrest : ∀ b ∈ l, q b = false := fun b hb => by simpa [h] using ha b hb
      rw [takeWhile_cons_of_neg (by simp [h]), dropWhile_cons_of_neg (by simp [h])]
      constructor
      · exact (filter_eq_nil_iff.mpr (by simpa [h] using hrest)).symm
      · exact (filter_eq_self.mpr (by simpa [h] using hrest)).symm

namespace ColumnFamily

lemma iterator_eq (cf : ColumnFamily) (start upper : Option Bytes) :
    cf.iterator start upper =
      cf.rows.filter fun r => !start.any (r.1 < ·) && upper.all (r.1 < ·) := by
  have hbelow : cf.rows.Pairwise fun a b => ∀ v, b.1 < v → a.1 < v :=
    cf.sorted.imp fun hab _ hb => List.lt_trans hab hb
  have hstart : cf.rows.Pairwise fun a b => start.any (b.1 < ·) → start.any (a.1 < ·) :=
    hbelow.imp fun h => by cases start <;> simp_all
  have hupper : cf.rows.Pairwise fun a b => upper.all (b.1 < ·) → upper.all (a.1 < ·) :=
    hbelow.imp fun h => by cases upper <;> simp_all
  rw [iterator, (while_eq_filter hstart).2, (while_eq_filter (hupper.filter _)).1, filter_filter]
  simp only [Bool.and_comm]

lemma range_eq (cf : ColumnFamily) (lo hi : Bound) :
    cf.range lo hi = cf.rows.filter fun r => lo.below r.1 && hi.above r.1 := by
  rw [range, iterator_eq]
  simp only [Bound.below_eq, Bound.above_eq]

/-- A prefix scan with a bump is exact. -/
lemma scanPrefix_of_bump (cf : ColumnFamily) (h : bump p = some u) :
    cf.scanPrefix p = cf.rows.filter fun r => p.isPrefixOf r.1 := by
  have hrows : cf.iterator (some p) (some (upperBound p)) =
      cf.rows.filter fun r => p.isPrefixOf r.1 := by
    rw [iterator_eq, upperBound]
    apply filter_congr
    intro r _
    rw [Bool.eq_iff_iff, isPrefixOf_iff_prefix, prefix_iff]
    simp [h]
  rw [scanPrefix, hrows, takeWhile_eq_self_iff]
  intro r hr
  exact (mem_filter.mp hr).2

/-- Without one it is empty. -/
lemma scanPrefix_of_bump_eq_none (cf : ColumnFamily) (h : bump p = none) :
    cf.scanPrefix p = [] := by
  rw [scanPrefix, iterator_eq, upperBound, h]
  simp

end ColumnFamily

/-- Nothing is lost between the ends. -/
lemma drain_eq (calls : List Bool) (l : List α) :
    (drain calls l).1 ++ (drain calls l).2.1 ++ (drain calls l).2.2 = l := by
  induction calls generalizing l with
  | nil => simp [drain]
  | cons c calls ih =>
    cases c with
    | true =>
      simp only [drain, append_assoc]
      rw [← append_assoc (drain calls l.tail).1, ih]
      cases l <;> rfl
    | false =>
      simp only [drain]
      rw [← append_assoc, ih]
      cases l using reverseRecOn <;> simp

/-- A prefix scan has exactly the rows of the prefix iff some byte of it is below `0xFF` or there
are no such rows. A range always has exactly the rows between its ends. Calls at either end split
what a scan has. -/
theorem scans_exact_iff (cf : ColumnFamily) :
    (∀ p, cf.scanPrefix p = cf.rows.filter (fun r => p.isPrefixOf r.1) ↔
      (∃ b ∈ p, b < 0xFF) ∨ ∀ r ∈ cf.rows, ¬ p <+: r.1) ∧
    (∀ lo hi, cf.range lo hi = cf.rows.filter fun r => lo.below r.1 && hi.above r.1) ∧
    ∀ (calls : List Bool) (items : List (Bytes × Bytes)),
      (drain calls items).1 ++ (drain calls items).2.1 ++ (drain calls items).2.2 = items := by
  refine ⟨fun p => ?_, cf.range_eq, drain_eq⟩
  cases h : bump p with
  | some u =>
    refine iff_of_true (cf.scanPrefix_of_bump h) (.inl ?_)
    by_contra hnone
    simp_all [bump_eq_none.mpr fun b hb hlt => hnone ⟨b, hb, hlt⟩]
  | none =>
    have hbytes : ¬ ∃ b ∈ p, b < 0xFF := fun ⟨b, hb, hlt⟩ => bump_eq_none.mp h b hb hlt
    rw [cf.scanPrefix_of_bump_eq_none h, eq_comm]
    simp [hbytes]

/-- The empty prefix and `0xFF` find nothing. -/
theorem prefix_rows_missed :
    ∃ cf : ColumnFamily, cf.rows = [([0xFE], []), ([0xFF, 1], [])] ∧ cf.scanPrefix [] = [] ∧
      cf.scanPrefix [0xFF] = [] := by
  exact ⟨⟨_, by decide⟩, rfl, by decide, by decide⟩

end CoinCync.Db

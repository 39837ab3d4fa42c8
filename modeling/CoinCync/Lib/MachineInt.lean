import Mathlib.Algebra.BigOperators.Group.List.Basic
import Mathlib.Algebra.Order.Ring.Int

/-!
# Fixed-width unsigned arithmetic on naturals

Unsigned machine integers are naturals here and every operation names its width. Saturating and
checked operations have names; wrapping addition is written `(a + b) % 2 ^ w` where it is used.
-/

namespace MachineInt

/-- Saturating addition at width `w`. -/
def satAdd (w a b : ℕ) : ℕ := min (a + b) (2 ^ w - 1)

/-- Addition that fails when the sum does not fit `w` bits. -/
def checkedAdd (w a b : ℕ) : Option ℕ := if a + b < 2 ^ w then some (a + b) else none

/-- The product, if it fits `w` bits. -/
def checkedMul (w a b : ℕ) : Option ℕ := if a * b < 2 ^ w then some (a * b) else none

/-- Saturating multiplication at width `w`. -/
def satMul (w a b : ℕ) : ℕ := min (a * b) (2 ^ w - 1)

/-- Subtraction that fails below zero. -/
def checkedSub (a b : ℕ) : Option ℕ := if b ≤ a then some (a - b) else none

/-- Saturating sum of a list, from the left. -/
def satSum (w : ℕ) (l : List ℕ) : ℕ := l.foldl (satAdd w) 0

/-- Sum of a list, if every partial sum fits `w` bits. -/
def checkedSum (w : ℕ) (l : List ℕ) : Option ℕ := l.foldlM (checkedAdd w) 0

/-- It succeeds where the sum fits. -/
lemma checkedAdd_eq_some : checkedAdd w a b = some c ↔ a + b < 2 ^ w ∧ c = a + b := by
  unfold checkedAdd
  split
  · simp only [Option.some.injEq]
    omega
  · simp only [reduceCtorEq, false_iff]
    omega

lemma checkedSub_eq_some : checkedSub a b = some c ↔ a = c + b := by
  unfold checkedSub
  split
  · simp only [Option.some.injEq]
    omega
  · simp only [reduceCtorEq, false_iff]
    omega

/-- Exact where the sum fits. -/
lemma satAdd_of_lt (h : a + b < 2 ^ w) : satAdd w a b = a + b := by
  unfold satAdd
  omega

lemma satAdd_le (w a b : ℕ) : satAdd w a b ≤ 2 ^ w - 1 := min_le_right _ _

/-- Saturating after a clamp is clamping the exact sum. -/
lemma satAdd_min (w a b : ℕ) : satAdd w (min a (2 ^ w - 1)) b = min (a + b) (2 ^ w - 1) := by
  unfold satAdd
  omega

/-- A saturating fold is the exact sum, clamped at the end. -/
lemma foldl_satAdd (w : ℕ) (l : List ℕ) (a : ℕ) :
    l.foldl (satAdd w) (min a (2 ^ w - 1)) = min (a + l.sum) (2 ^ w - 1) := by
  induction l generalizing a with
  | nil => simp
  | cons x l ih =>
    rw [List.foldl_cons, satAdd_min, ih (a + x), List.sum_cons, add_assoc]

lemma satSum_eq_min (w : ℕ) (l : List ℕ) : satSum w l = min l.sum (2 ^ w - 1) := by
  have h := foldl_satAdd w l 0
  simpa [satSum] using h

/-- A checked fold succeeds where the sum fits. -/
lemma foldlM_checkedAdd_eq_some {l : List ℕ} (ha : a < 2 ^ w) :
    l.foldlM (checkedAdd w) a = some s ↔ a + l.sum < 2 ^ w ∧ s = a + l.sum := by
  induction l generalizing a with
  | nil =>
    simp only [List.foldlM_nil, List.sum_nil, Option.pure_def, Option.some.injEq]
    omega
  | cons x l ih =>
    rw [List.foldlM_cons, Option.bind_eq_bind, Option.bind_eq_some_iff, List.sum_cons]
    constructor
    · rintro ⟨b, hb, hs⟩
      obtain ⟨hlt, rfl⟩ := checkedAdd_eq_some.mp hb
      have hsum := (ih hlt).mp hs
      omega
    · rintro ⟨hlt, rfl⟩
      have hhead : a + x < 2 ^ w := by omega
      refine ⟨a + x, checkedAdd_eq_some.mpr ⟨hhead, rfl⟩, (ih hhead).mpr ?_⟩
      omega

lemma checkedSum_eq_some : checkedSum w l = some s ↔ l.sum < 2 ^ w ∧ s = l.sum := by
  rw [checkedSum, foldlM_checkedAdd_eq_some (Nat.two_pow_pos w), zero_add]

end MachineInt

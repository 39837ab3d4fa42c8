import Mathlib.Data.List.MinMax
import Mathlib.Data.List.Sort

/-!
# The two ends of a stable sort

`List.insertionSort` by a key, greatest key first.
-/

namespace CoinCync.StableSort

open List

variable {α : Type*} {f : α → ℕ} {l : List α} {a b : α}

/-- Stable sort by `f`, greatest first. -/
def byKey (f : α → ℕ) (l : List α) : List α := l.insertionSort fun a b => f b ≤ f a

lemma byKey_perm (f : α → ℕ) (l : List α) : (byKey f l).Perm l := perm_insertionSort _ _

@[simp] lemma byKey_eq_nil : byKey f l = [] ↔ l = [] := by
  rw [← length_eq_zero_iff, ← length_eq_zero_iff, (byKey_perm f l).length_eq]

lemma pairwise_byKey (f : α → ℕ) (l : List α) : (byKey f l).Pairwise fun a b => f b ≤ f a := by
  exact pairwise_insertionSort _ l

lemma byKey_cons (f : α → ℕ) (a : α) (l : List α) :
    byKey f (a :: l) = (byKey f l).orderedInsert (fun a b => f b ≤ f a) a := rfl

/-- First comes the greatest, listed first. -/
lemma head?_byKey (f : α → ℕ) (l : List α) : (byKey f l).head? = l.argmax f := by
  induction l with
  | nil => rfl
  | cons a l ih =>
    rw [byKey_cons, argmax_cons, ← ih]
    cases byKey f l with
    | nil => rfl
    | cons b t =>
      rw [orderedInsert_cons, head?_cons]
      dsimp only
      split_ifs
      · omega
      · rfl
      · rfl
      · omega

/-- A new element comes last if its key is the least. -/
lemma getLast?_orderedInsert (h : (t ++ [b]).Pairwise fun a b => f b ≤ f a) :
    ((t ++ [b]).orderedInsert (fun a b => f b ≤ f a) a).getLast?
      = if f a < f b then some a else some b := by
  induction t with
  | nil =>
    rw [nil_append, orderedInsert_cons]
    split_ifs <;> first | omega | rfl
  | cons c t ih =>
    obtain ⟨hc, ht⟩ := pairwise_cons.mp h
    have hcb : f b ≤ f c := hc b (by simp)
    rw [cons_append, orderedInsert_cons]
    by_cases hca : f c ≤ f a
    · rw [if_pos hca, if_neg (by omega), ← cons_append, ← cons_append, getLast?_concat]
    · rw [if_neg hca, getLast?_cons, ih ht]
      split_ifs <;> rfl

/-- Last comes the least, listed last. -/
lemma getLast?_byKey (f : α → ℕ) (l : List α) : (byKey f l).getLast? = l.reverse.argmin f := by
  induction l with
  | nil => rfl
  | cons a l ih =>
    rw [byKey_cons, reverse_cons, argmin_concat, ← ih]
    have hsorted := pairwise_byKey f l
    rcases eq_nil_or_concat' (byKey f l) with hnil | ⟨t, b, heq⟩
    · rw [hnil]
      rfl
    · rw [heq] at hsorted ⊢
      rw [getLast?_orderedInsert hsorted, getLast?_concat]

end CoinCync.StableSort

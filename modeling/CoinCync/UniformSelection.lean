import CoinCync.SendConservation

/-!
# Uniform selections are near-optimal

`select_utxos_uniform` compares every pair of outputs, with sums that stop at the largest amount. It
fails exactly if no pair covers the target, and for every random choice it takes a pair whose excess
is close to the least one.
-/

namespace CoinCync.Wallet

open List Option CoinSelection

open MachineInt (satAdd)

variable {a b : Utxo}

/-- Two outputs at different positions cover the target. -/
def Covers (utxos : List Utxo) (target : ℕ) (a b : Utxo) : Prop :=
  [a, b] <+~ utxos ∧ target ≤ a.amount + b.amount

/-- What a pair has over the target, with sums capped. -/
def cappedExcess (target : ℕ) (a b : Utxo) : ℕ := satAdd 64 a.amount b.amount - target

/-- A pair that covers the target is a candidate, in some order. -/
lemma exists_candidate (htarget : target < 2 ^ 64) (h : Covers utxos target a b) :
    ∃ c ∈ candidates (satAdd 64) (largestFirst.sort utxos) target,
      c.excess = cappedExcess target a b := by
  obtain ⟨l, hperm, hsub⟩ := h.1.trans (sort_perm .largestFirst utxos).symm.subperm
  have hreached : target ≤ satAdd 64 a.amount b.amount := by
    have := h.2
    unfold satAdd
    omega
  have hcomm : satAdd 64 b.amount a.amount = satAdd 64 a.amount b.amount := by
    rw [satAdd, add_comm]
    rfl
  obtain rfl | rfl := perm_pair.mp hperm
  · exact ⟨⟨a, b, cappedExcess target a b⟩,
      mem_candidates.mpr ⟨mem_pairs_iff.mpr hsub, hreached, rfl⟩, rfl⟩
  · exact ⟨⟨b, a, cappedExcess target a b⟩,
      mem_candidates.mpr ⟨mem_pairs_iff.mpr hsub, hcomm ▸ hreached, by rw [hcomm]; rfl⟩, rfl⟩

/-- No pair has more than the first two sorted outputs. -/
lemma le_largestPair (hsorted : largestFirst.sort utxos = first :: second :: rest)
    (h : [a, b] <+ first :: second :: rest) :
    a.amount ≤ first.amount ∧ b.amount ≤ second.amount := by
  have hpairwise : (first :: second :: rest).Pairwise fun a b => b.amount ≤ a.amount :=
    hsorted ▸ pairwise_insertionSort _ utxos
  obtain ⟨hfirst, hrest⟩ := pairwise_cons.mp hpairwise
  have hmem : b ∈ second :: rest := by
    rcases sublist_cons_iff.mp h with h | ⟨r, heq, h⟩
    · exact h.subset (by simp)
    · cases heq
      exact singleton_sublist.mp h
  constructor
  · rcases mem_cons.mp (h.subset mem_cons_self) with rfl | ha
    · exact le_rfl
    · exact hfirst a ha
  · rcases mem_cons.mp hmem with rfl | hb
    · exact le_rfl
    · exact (pairwise_cons.mp hrest).1 b hb

/-- Fewer than two outputs are an error, and so are two or more of which no pair covers the target,
with an exact total if it fits 64 bits. Otherwise a pair at two positions that covers the target is
returned, its excess at most a fifth or one above that of any other. -/
theorem selectUtxosUniform_near_optimal (utxos : List Utxo) (target : ℕ) (draw : SelectionDraw)
    (htarget : target < 2 ^ 64) :
    (utxos.length < standardInputCount → selectUtxosUniform (satAdd 64) utxos target draw
      = .error (.insufficientInputs utxos.length standardInputCount)) ∧
    (standardInputCount ≤ utxos.length → (∀ a b, ¬Covers utxos target a b) →
      ∃ total largest, selectUtxosUniform (satAdd 64) utxos target draw = .error
          (.noUtxoPairCovers target utxos.length total largest (largest - uniformPairFeeReserve)) ∧
        ((utxos.map (·.amount)).sum < 2 ^ 64 → total = (utxos.map (·.amount)).sum)) ∧
    ∀ c d, Covers utxos target c d → ∃ a b,
      selectUtxosUniform (satAdd 64) utxos target draw = .ok [a, b] ∧ Covers utxos target a b ∧
        cappedExcess target a b ≤ max (cappedExcess target c d + cappedExcess target c d / 5)
          (cappedExcess target c d + 1) := by
  have hlength : (largestFirst.sort utxos).length = utxos.length :=
    (sort_perm ..).length_eq
  unfold selectUtxosUniform
  split
  case h_2 hshort =>
    have hlt : utxos.length < standardInputCount := by
      rw [← hlength]
      match hs : largestFirst.sort utxos with
      | [] | [_] => simp [standardInputCount]
      | first :: second :: rest => exact absurd hs (hshort first second rest)
    exact ⟨fun _ => rfl, fun h => absurd hlt h.not_gt,
      fun c d h => absurd hlt (h.1.length_le.not_gt)⟩
  case h_1 first second rest hsorted =>
    refine ⟨fun h => ?_, fun _ hnone => ?_, fun c d hcovers => ?_⟩
    · rw [← hlength, hsorted] at h
      exact absurd h (by simp [standardInputCount])
    · rw [if_pos]
      · exact ⟨_, _, rfl, Nat.mod_eq_of_lt⟩
      · -- the first two would cover the target themselves
        by_contra hreached
        have hpair : [first, second] <+ first :: second :: rest := by simp
        refine hnone first second ⟨?_, (not_lt.mp hreached).trans (min_le_left _ _)⟩
        exact (hsorted ▸ hpair.subperm).trans (sort_perm .largestFirst utxos).subperm
    · obtain ⟨e, he, heq⟩ := exists_candidate htarget hcovers
      rw [hsorted] at he
      obtain ⟨hpair, hreached, -⟩ := mem_candidates.mp he
      obtain ⟨hleft, hright⟩ := le_largestPair hsorted (mem_pairs_iff.mp hpair)
      have hlargest : ¬satAdd 64 first.amount second.amount < target := by
        unfold satAdd at hreached ⊢
        omega
      dsimp only
      rw [if_neg hlargest]
      split
      case h_2 hnone =>
        obtain ⟨-, hnone⟩ := or_eq_none_iff.mp hnone
        rw [head?_eq_none_iff] at hnone
        rw [hnone] at he
        cases he
      case h_1 best hbest =>
        obtain ⟨hmem, hthreshold⟩ := mem_filter.mp (mem_goodCandidates_of_chosen hbest)
        obtain ⟨hchosen, hcover, hexcess⟩ := mem_candidates.mp hmem
        refine ⟨best.left, best.right, rfl, ⟨?_, hcover.trans (min_le_left _ _)⟩, ?_⟩
        · rw [← hsorted] at hchosen
          exact (mem_pairs_iff.mp hchosen).subperm.trans
            (sort_perm .largestFirst utxos).subperm
        · have hleast := (le_bestExcess_iff.mp le_rfl).2 e he
          rw [heq] at hleast
          calc cappedExcess target best.left best.right = best.excess := hexcess.symm
            _ ≤ excessThreshold (satAdd 64) _ := by simpa using hthreshold
            _ ≤ _ := excessThreshold_le hleast

/-- Outputs of these amounts. -/
def withAmounts (amounts : List ℕ) : List Utxo :=
  amounts.map fun amount => { smallUtxo 0 0 with amount }

/-- Two outputs that cover together. -/
theorem selectUtxosUniform_near_optimal_pair :
    ∃ a b, selectUtxosUniform (satAdd 64) (withAmounts [5, 7]) 10 (smallDraws 0) = .ok [a, b] ∧
      Covers (withAmounts [5, 7]) 10 a b := by
  obtain ⟨-, -, h⟩ := selectUtxosUniform_near_optimal (withAmounts [5, 7]) 10 (smallDraws 0) (by decide)
  obtain ⟨a, b, hab, hcovers, -⟩ := h _ _ ⟨.refl _, by decide⟩
  exact ⟨a, b, hab, hcovers⟩

/-- Beyond 64 bits a pair of exact excess 2^64 - 1 is taken although another has none, and the total
of an error wraps. -/
theorem saturated_pair_taken :
    ((selectUtxosUniform (satAdd 64) (withAmounts [2 ^ 64 - 1, 2 ^ 64 - 1, 0]) (2 ^ 64 - 1)
      (smallDraws 0)).toOption.map fun l => l.map (·.amount)) = some [2 ^ 64 - 1, 2 ^ 64 - 1] ∧
    selectUtxosUniform (satAdd 64) (withAmounts (replicate 3 (2 ^ 63 - 1))) (2 ^ 64 - 1) (smallDraws 0)
      = .error (.noUtxoPairCovers (2 ^ 64 - 1) 3 (2 ^ 63 - 3) (2 ^ 64 - 2) (2 ^ 64 - 50000002)) := by
  refine ⟨by decide +kernel, rfl⟩

end CoinCync.Wallet

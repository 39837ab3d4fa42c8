import CoinCync.TxValidation
import CoinCync.UtxosTheorems
import Mathlib.Algebra.BigOperators.Group.Finset.Basic

/-!
# The unspent value of the UTXO set

A spend does not name the output it spends, it only marks a key image. Under an ideal ring signature
the key image is a function `keyImageOf` of the address, and the output that owns the address in
`stealthIndex` is spent once that image is marked. An output shadowed by an older one with the same
address can never be spent and keeps counting as unspent.
-/

namespace CoinCync

open List Option Function

variable (keyImageOf : PublicKey → KeyImage)

namespace UtxoCore

/-- The output owns its address, whose key image is marked. -/
def SpentAt (u : UtxoCore) (k : OutputKey) (r : OutputRef) : Prop :=
  u.stealthIndex r.output.stealthAddress = some k ∧ keyImageOf r.output.stealthAddress ∈ u.keyImages

instance (u : UtxoCore) (k : OutputKey) (r : OutputRef) : Decidable (u.SpentAt keyImageOf k r) :=
  inferInstanceAs (Decidable (_ ∧ _))

/-- The unspent value at a key. -/
def unspentAt (u : UtxoCore) (k : OutputKey) : ℤ :=
  match u.outputs k with
  | none => 0
  | some r => if u.SpentAt keyImageOf k r then 0 else r.output.commitment.value

/-- The unspent value of all outputs made up to a height. -/
def unspentValue (u : UtxoCore) (height : ℕ) : ℤ :=
  ∑ k ∈ u.keysThrough height, u.unspentAt keyImageOf k

/-- The tables agree with each other at a tip height. -/
structure Sound (u : UtxoCore) (height : ℕ) : Prop where
  wellFormed : u.WellFormed
  /-- The owner of an address is an output with that address. -/
  owner : ∀ x k, u.stealthIndex x = some k →
    ∃ r, u.outputs k = some r ∧ r.output.stealthAddress = x
  /-- Only outputs of the set have been spent. -/
  spent : ∀ x, keyImageOf x ∈ u.keyImages → (u.stealthIndex x).isSome
  indexed : ∀ k, u.outputs k ≠ none → k ∈ u.keysThrough height

lemma sound_empty (height : ℕ) : empty.Sound keyImageOf height where
  wellFormed := wellFormed_empty
  owner := nofun
  spent _ h := absurd h (Finset.notMem_empty _)
  indexed _ h := absurd rfl h

variable {keyImageOf} {u : UtxoCore} {height : ℕ}

lemma Unused.notMem_keysThrough (hk : u.Unused k) (height : ℕ) : k ∉ u.keysThrough height := by
  rw [keysThrough, Finset.mem_biUnion]
  rintro ⟨h, -, hmem⟩
  exact hk.heightIndex h hmem

lemma keysThrough_mono (u : UtxoCore) (hle : h ≤ h') : u.keysThrough h ⊆ u.keysThrough h' :=
  Finset.biUnion_subset_biUnion_of_subset_left _ (Finset.range_subset_range.mpr (by omega))

/-! ## Adding an output -/

lemma keysThrough_addOutput (ha : a.height ≤ height) :
    (u.addOutput a).keysThrough height = insert a.key (u.keysThrough height) := by
  ext k
  unfold keysThrough
  simp only [Finset.mem_biUnion, Finset.mem_insert, Finset.mem_range, addOutput, update_apply]
  constructor
  · rintro ⟨h, hlt, hmem⟩
    split at hmem
    · rename_i heq
      rcases Finset.mem_insert.mp hmem with hk | hmem
      · exact .inl hk
      · exact .inr ⟨h, hlt, heq ▸ hmem⟩
    · exact .inr ⟨h, hlt, hmem⟩
  · rintro (rfl | ⟨h, hlt, hmem⟩)
    · exact ⟨a.height, by omega, by simp⟩
    · refine ⟨h, hlt, ?_⟩
      split
      · rename_i heq
        exact Finset.mem_insert_of_mem (heq ▸ hmem)
      · exact hmem

/-- An address keeps its owner when outputs are added. -/
lemma stealthIndex_addOutput (h : u.stealthIndex x = some k) :
    (u.addOutput a).stealthIndex x = some k := by
  simp only [addOutput, update_apply]
  split
  · rename_i hx
    rw [← hx, h, getD_some]
  · exact h

/-- An addition gives an address to nobody else. -/
lemma stealthIndex_addOutput_eq_some (hk : k ≠ a.key) :
    (u.addOutput a).stealthIndex x = some k ↔ u.stealthIndex x = some k := by
  constructor
  · intro h
    simp only [addOutput, update_apply] at h
    split at h
    · rename_i hx
      cases hs : u.stealthIndex a.address with
      | none =>
        rw [hs] at h
        exact absurd (some.inj h).symm hk
      | some k' =>
        rw [hs, getD_some] at h
        rw [hx, hs, h]
    · exact h
  · exact stealthIndex_addOutput

/-- Another output is as unspent as before. -/
lemma unspentAt_addOutput_of_ne (hk : k ≠ a.key) :
    (u.addOutput a).unspentAt keyImageOf k = u.unspentAt keyImageOf k := by
  have hout : (u.addOutput a).outputs k = u.outputs k := update_of_ne hk _ _
  unfold unspentAt SpentAt
  simp only [hout, stealthIndex_addOutput_eq_some hk]
  rfl

section

variable (hu : u.Sound keyImageOf height)
include hu

/-- A new output is unspent: only owned addresses are marked. -/
lemma unspentAt_addOutput_self (hkey : u.Unused a.key) :
    (u.addOutput a).unspentAt keyImageOf a.key = a.output.commitment.value := by
  have hout : (u.addOutput a).outputs a.key = some a.ref := update_self _ _ _
  simp only [unspentAt, hout]
  apply if_neg
  rintro ⟨howner, hmarked⟩
  obtain ⟨k, hk⟩ := isSome_iff_exists.mp (hu.spent a.address hmarked)
  have hsame : (u.addOutput a).stealthIndex a.address = some k := stealthIndex_addOutput hk
  have heq : some k = some a.key := hsame.symm.trans howner
  exact hkey.stealthIndex a.address (hk.trans heq)

/-- An addition adds its value. -/
lemma unspentValue_addOutput (hkey : u.outputs a.key = none) (ha : a.height ≤ height) :
    (u.addOutput a).unspentValue keyImageOf height
      = u.unspentValue keyImageOf height + a.output.commitment.value := by
  have hun := hu.wellFormed a.key hkey
  rw [unspentValue, keysThrough_addOutput ha, Finset.sum_insert (hun.notMem_keysThrough height),
    unspentAt_addOutput_self hu hun, add_comm]
  congr 1
  refine Finset.sum_congr rfl fun k hk => ?_
  have hne : k ≠ a.key := fun h => hun.notMem_keysThrough height (h ▸ hk)
  exact unspentAt_addOutput_of_ne hne

/-- And keeps the tables in agreement. -/
lemma Sound.addOutput (hkey : u.outputs a.key = none)
    (ha : a.height ≤ height) : (u.addOutput a).Sound keyImageOf height where
  wellFormed := hu.wellFormed.addOutput a
  owner x k hk := by
    by_cases hne : k = a.key
    · subst hne
      refine ⟨a.ref, update_self _ _ _, ?_⟩
      simp only [UtxoCore.addOutput, update_apply] at hk
      split at hk
      · rename_i hx
        exact hx.symm
      · exact absurd hk ((hu.wellFormed a.key hkey).stealthIndex x)
    · obtain ⟨r, hr, hx⟩ := hu.owner x k ((stealthIndex_addOutput_eq_some hne).mp hk)
      exact ⟨r, (update_of_ne hne _ _).trans hr, hx⟩
  spent x hx := by
    obtain ⟨k, hk⟩ := isSome_iff_exists.mp (hu.spent x hx)
    rw [stealthIndex_addOutput hk]
    rfl
  indexed k hk := by
    rw [keysThrough_addOutput ha, Finset.mem_insert]
    by_cases hne : k = a.key
    · exact .inl hne
    · right
      apply hu.indexed
      rwa [← update_of_ne hne (some a.ref) u.outputs]

lemma Sound.mono (hle : height ≤ height') : u.Sound keyImageOf height' :=
  { hu with indexed := fun k hk => u.keysThrough_mono hle (hu.indexed k hk) }

/-- Nothing is above the tip, however far one looks. -/
lemma Sound.unspentValue_mono (hle : height ≤ height') :
    u.unspentValue keyImageOf height' = u.unspentValue keyImageOf height := by
  refine (Finset.sum_subset (u.keysThrough_mono hle) fun k _ hk => ?_).symm
  have hnone : u.outputs k = none := by
    by_contra hsome
    exact hk (hu.indexed k hsome)
  rw [unspentAt, hnone]

end

/-! ## Marking a key image -/

variable (keyImageOf) in
/-- The key image is of an output with the value. -/
def Spendable (u : UtxoCore) (ki : KeyImage) (value : ℤ) : Prop :=
  ∃ x k r, keyImageOf x = ki ∧ u.stealthIndex x = some k ∧ u.outputs k = some r ∧
    r.output.commitment.value = value

/-- A spend takes its value. -/
lemma unspentValue_markKeyImageSpent (hinj : Function.Injective keyImageOf)
    (hu : u.Sound keyImageOf height)
    (hki : u.Spendable keyImageOf ki value) (hnew : ki ∉ u.keyImages) :
    (u.markKeyImageSpent ki).unspentValue keyImageOf height
      = u.unspentValue keyImageOf height - value := by
  obtain ⟨x, k, r, rfl, hx, hk, rfl⟩ := hki
  have haddr : r.output.stealthAddress = x := by
    obtain ⟨r', hr', hx'⟩ := hu.owner x k hx
    rw [hk] at hr'
    rwa [some.inj hr']
  have hmem : k ∈ u.keysThrough height := hu.indexed k (by simp [hk])
  have hbefore : u.unspentAt keyImageOf k = r.output.commitment.value := by
    unfold unspentAt SpentAt
    simp only [hk, haddr]
    exact if_neg fun h => hnew h.2
  have hafter : (u.markKeyImageSpent (keyImageOf x)).unspentAt keyImageOf k = 0 := by
    unfold unspentAt SpentAt markKeyImageSpent
    simp only [hk, haddr]
    exact if_pos ⟨hx, Finset.mem_insert_self _ _⟩
  have hothers : ∀ k' ≠ k,
      (u.markKeyImageSpent (keyImageOf x)).unspentAt keyImageOf k' = u.unspentAt keyImageOf k' := by
    intro k' hne
    unfold unspentAt SpentAt markKeyImageSpent
    cases hr' : u.outputs k' with
    | none => rfl
    | some r' =>
      -- an owner of `x` other than `k` does not exist, and other addresses have other images
      have hiff : (u.stealthIndex r'.output.stealthAddress = some k' ∧
            keyImageOf r'.output.stealthAddress ∈ insert (keyImageOf x) u.keyImages) ↔
          (u.stealthIndex r'.output.stealthAddress = some k' ∧
            keyImageOf r'.output.stealthAddress ∈ u.keyImages) := by
        refine and_congr_right fun howner => ?_
        rw [Finset.mem_insert, or_iff_right]
        intro heq
        rw [hinj heq, hx] at howner
        exact hne (some.inj howner).symm
      exact if_congr hiff rfl rfl
  have hkeys : (u.markKeyImageSpent (keyImageOf x)).keysThrough height = u.keysThrough height := rfl
  unfold unspentValue
  rw [hkeys, ← Finset.add_sum_erase _ _ hmem, ← Finset.add_sum_erase _ (u.unspentAt keyImageOf) hmem,
    hbefore, hafter, Finset.sum_congr rfl fun k' hk' => hothers k' (Finset.ne_of_mem_erase hk')]
  exact (Int.zero_add _).trans (add_sub_cancel_left _ _).symm

/-- And keeps the tables in agreement. -/
lemma Sound.markKeyImageSpent (hinj : Function.Injective keyImageOf)
    (hu : u.Sound keyImageOf height) (hki : u.Spendable keyImageOf ki value) :
    (u.markKeyImageSpent ki).Sound keyImageOf height where
  wellFormed k hk := by
    have hun := hu.wellFormed k hk
    exact ⟨hun.outputs, hun.locatorOutputs, hun.heightIndex, hun.locatorIndex, hun.stealthIndex⟩
  owner := hu.owner
  spent y hy := by
    obtain ⟨x, k, r, rfl, hx, -⟩ := hki
    rcases Finset.mem_insert.mp hy with heq | hy
    · rw [hinj heq]
      exact isSome_iff_exists.mpr ⟨k, hx⟩
    · exact hu.spent y hy
  indexed := hu.indexed

/-! ## The batch of a block -/

/-- What was spendable stays so. -/
lemma Spendable.addOutput (hki : u.Spendable keyImageOf ki value)
    (hkey : u.outputs a.key = none) : (u.addOutput a).Spendable keyImageOf ki value := by
  obtain ⟨x, k, r, hx, hs, hk, hv⟩ := hki
  have hne : k ≠ a.key := by
    rintro rfl
    rw [hkey] at hk
    simp at hk
  exact ⟨x, k, r, hx, stealthIndex_addOutput hs, (update_of_ne hne _ _).trans hk, hv⟩

/-- Every addition counts, and what was spendable stays so. -/
lemma Sound.foldl_addOutput (hu : u.Sound keyImageOf height) {l : List NewOutput}
    (hl : (l.map (·.key)).Nodup) (hnew : ∀ a ∈ l, u.outputs a.key = none)
    (hheight : ∀ a ∈ l, a.height ≤ height) :
    (l.foldl UtxoCore.addOutput u).Sound keyImageOf height ∧
      (l.foldl UtxoCore.addOutput u).unspentValue keyImageOf height
        = u.unspentValue keyImageOf height + (l.map (·.output.commitment.value)).sum ∧
      (∀ ki value, u.Spendable keyImageOf ki value →
        (l.foldl UtxoCore.addOutput u).Spendable keyImageOf ki value) ∧
      (l.foldl UtxoCore.addOutput u).keyImages = u.keyImages := by
  induction l generalizing u with
  | nil => exact ⟨hu, by simp, fun _ _ h => h, rfl⟩
  | cons a l ih =>
    rw [map_cons, nodup_cons] at hl
    have hkey := hnew a mem_cons_self
    have ha := hheight a mem_cons_self
    have hnext : ∀ b ∈ l, (u.addOutput a).outputs b.key = none := by
      intro b hb
      have hne : b.key ≠ a.key := fun h => hl.1 (h ▸ mem_map_of_mem hb)
      exact (update_of_ne hne _ _).trans (hnew b (mem_cons_of_mem a hb))
    obtain ⟨hs, hv, hsp, hki⟩ := ih (hu.addOutput hkey ha) hl.2 hnext
      fun b hb => hheight b (mem_cons_of_mem a hb)
    refine ⟨hs, ?_, fun ki v h => hsp ki v (h.addOutput hkey), hki⟩
    rw [foldl_cons, hv, unspentValue_addOutput hu hkey ha, map_cons, sum_cons, add_assoc]

/-- Each spend takes the value of its output. -/
lemma Sound.foldl_markKeyImageSpent (hinj : Function.Injective keyImageOf)
    (hu : u.Sound keyImageOf height) {l : List (KeyImage × ℤ)} (hl : (l.map (·.1)).Nodup)
    (hnew : ∀ p ∈ l, p.1 ∉ u.keyImages) (hsp : ∀ p ∈ l, u.Spendable keyImageOf p.1 p.2) :
    ((l.map (·.1)).foldl UtxoCore.markKeyImageSpent u).Sound keyImageOf height ∧
      ((l.map (·.1)).foldl UtxoCore.markKeyImageSpent u).unspentValue keyImageOf height
        = u.unspentValue keyImageOf height - (l.map (·.2)).sum := by
  induction l generalizing u with
  | nil => exact ⟨hu, by simp⟩
  | cons p l ih =>
    rw [map_cons, nodup_cons] at hl
    have hp := hsp p mem_cons_self
    have hnext : ∀ q ∈ l, q.1 ∉ (u.markKeyImageSpent p.1).keyImages := by
      intro q hq hmem
      rcases Finset.mem_insert.mp hmem with heq | hmem
      · exact hl.1 (heq ▸ mem_map_of_mem hq)
      · exact hnew q (mem_cons_of_mem p hq) hmem
    obtain ⟨hs, hv⟩ := ih (hu.markKeyImageSpent hinj hp) hl.2 hnext
      fun q hq => hsp q (mem_cons_of_mem p hq)
    refine ⟨hs, ?_⟩
    rw [map_cons, foldl_cons, hv,
      unspentValue_markKeyImageSpent hinj hu hp (hnew p mem_cons_self), map_cons,
      sum_cons]
    omega

end UtxoCore

/-- The value a transaction puts into the set. -/
def Transaction.outValue (tx : Transaction) : ℤ := (tx.outputs.map (·.commitment.value)).sum

/-- The spent key images, with their pseudo-outputs' values. -/
def Transaction.spends (tx : Transaction) : List (KeyImage × ℤ) :=
  if tx.isCoinbase then []
  else tx.inputs.map fun input => (input.keyImage, input.pseudoOutputCommitment.value)

/-- The value a transaction takes out of the set. -/
def Transaction.inValue (tx : Transaction) : ℤ := (tx.spends.map (·.2)).sum

lemma map_fst_spends (tx : Transaction) : tx.spends.map (·.1) = spentKeyImages tx := by
  unfold Transaction.spends spentKeyImages
  split
  · rfl
  · rw [List.map_map]
    rfl

/-- The outputs of a transaction are worth that. -/
lemma newOutputs_value (E : Env) (height : ℕ) (tx : Transaction) :
    ((newOutputs E height tx).map (·.output.commitment.value)).sum = tx.outValue := by
  have hmap : (newOutputs E height tx).map (·.output.commitment.value)
      = tx.outputs.map (·.commitment.value) := by
    apply ext_getElem
    · simp [newOutputs]
    · simp [newOutputs]
  rw [hmap, Transaction.outValue]

lemma height_of_mem_newOutputs {height : ℕ} (ha : a ∈ newOutputs E height tx) :
    a.height = height := by
  obtain ⟨i, h, rfl⟩ := mem_mapIdx.mp ha
  rfl

lemma sum_flatMap {α : Type} (f : α → List ℤ) (l : List α) :
    (l.flatMap f).sum = (l.map fun x => (f x).sum).sum := by
  rw [flatMap_def, sum_flatten, List.map_map]
  rfl

/-- A fresh block changes the unspent value by outputs less inputs. -/
lemma UtxoCore.Sound.connectBlock {keyImageOf : PublicKey → KeyImage}
    (hinj : Function.Injective keyImageOf) {u : UtxoCore} {tip height : ℕ}
    (hu : u.Sound keyImageOf tip) (htip : tip ≤ height) (hf : FreshFor E txs u)
    (hnd : (txs.flatMap spentKeyImages).Nodup)
    (hsp : ∀ tx ∈ txs, ∀ p ∈ tx.spends, u.Spendable keyImageOf p.1 p.2) :
    (u.connectBlock E height txs).Sound keyImageOf height ∧
      (u.connectBlock E height txs).unspentValue keyImageOf height
        = u.unspentValue keyImageOf tip + (txs.map (·.outValue)).sum
          - (txs.map (·.inValue)).sum := by
  set adds := txs.flatMap (newOutputs E height) with hadds
  set spends := txs.flatMap (·.spends) with hspends
  have hkeys : adds.map (·.key) = txs.flatMap (removedKeys E) := map_key_adds E height txs
  have hfst : spends.map (·.1) = txs.flatMap spentKeyImages := by
    rw [map_flatMap]
    simp only [map_fst_spends]
  have hout : (adds.map (·.output.commitment.value)).sum = (txs.map (·.outValue)).sum := by
    rw [map_flatMap, sum_flatMap]
    simp only [newOutputs_value]
  have hin : (spends.map (·.2)).sum = (txs.map (·.inValue)).sum := by
    rw [map_flatMap, sum_flatMap]
    rfl
  obtain ⟨hs, hv, hspend, hki⟩ := (hu.mono htip).foldl_addOutput (hkeys ▸ hf.nodup)
    (fun a ha => hf.outputs _ (hkeys ▸ mem_map_of_mem ha))
    (fun a ha => by
      obtain ⟨tx, -, ha⟩ := mem_flatMap.mp ha
      exact (height_of_mem_newOutputs ha).le)
  have hmem : ∀ p ∈ spends, ∃ tx ∈ txs, p ∈ tx.spends := fun p hp => mem_flatMap.mp hp
  obtain ⟨hs', hv'⟩ := hs.foldl_markKeyImageSpent hinj (hfst ▸ hnd)
    (fun p hp => by
      rw [hki]
      exact hf.keyImages _ (hfst ▸ mem_map_of_mem hp))
    (fun p hp => by
      obtain ⟨tx, htx, hp⟩ := hmem p hp
      exact hspend _ _ (hsp tx htx p hp))
  have hblock : u.connectBlock E height txs
      = (spends.map (·.1)).foldl UtxoCore.markKeyImageSpent (adds.foldl UtxoCore.addOutput u) := by
    rw [hfst]
    rfl
  rw [hblock]
  refine ⟨hs', ?_⟩
  rw [hv', hv, hout, hin, hu.unspentValue_mono htip]

end CoinCync

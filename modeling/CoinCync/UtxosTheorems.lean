import CoinCync.Lib.Table
import CoinCync.Utxos
import Mathlib.Data.Finset.Lattice.Lemmas

/-!
# Connecting and disconnecting a block on the UTXO set

What the additions of a batch leave behind (`foldl_addOutput`), and that removing the same keys in
the same order undoes them (`foldl_removeOutput`): on a well-formed set that a block is fresh for,
disconnecting the block undoes connecting it (`disconnectBlock_connectBlock`).
-/

namespace CoinCync

open List Function

/-! ## The set and its core -/

namespace UtxoSet

/-- A loop on the set is the loop on its core. -/
lemma toUtxoCore_foldl {ι : Type} {f : UtxoSet → ι → UtxoSet} {g : UtxoCore → ι → UtxoCore}
    (hfg : ∀ u i, (f u i).toUtxoCore = g u.toUtxoCore i) (l : List ι) (u : UtxoSet) :
    (l.foldl f u).toUtxoCore = l.foldl g u.toUtxoCore :=
  (foldl_hom toUtxoCore fun u i => (hfg u i).symm).symm

/-- Operations on the core leave the rest of the set alone. -/
lemma foldl_core {ι : Type} (f : UtxoCore → ι → UtxoCore) (l : List ι) (u : UtxoSet) :
    l.foldl (fun u i => ({ u with toUtxoCore := f u.toUtxoCore i } : UtxoSet)) u
      = { u with toUtxoCore := l.foldl f u.toUtxoCore } := by
  induction l generalizing u with
  | nil => rfl
  | cons i l ih => exact ih _

/-- What additions change outside the core. -/
lemma foldl_addOutputExt (l : List NewOutput) (u : UtxoSet) :
    l.foldl addOutputExt u
      = { toUtxoCore := l.foldl UtxoCore.addOutput u.toUtxoCore
          outputIndex := fun x =>
            (u.outputIndex x).or ((l.map fun a => (a.address, a.entry)).lookup x)
          db := u.db
          totalOutputsEver := u.totalOutputsEver + l.length
          reorgDisconnectsTotal := u.reorgDisconnectsTotal } := by
  simp only [← Table.foldl_update_getD]
  induction l generalizing u with
  | nil => rfl
  | cons a l ih =>
    rw [foldl_cons, ih, length_cons, add_comm l.length, ← add_assoc]
    rfl

@[simp] lemma toUtxoCore_applyBatch (u : UtxoSet) (b : UtxoBatch) :
    (u.applyBatch b).toUtxoCore = u.toUtxoCore.applyBatch b := by
  rw [applyBatch, UtxoCore.applyBatch, toUtxoCore_foldl (g := UtxoCore.removeKeyImage) fun _ _ => rfl,
    toUtxoCore_foldl (g := UtxoCore.removeOutput) fun _ _ => rfl,
    toUtxoCore_foldl (g := UtxoCore.markKeyImageSpent) fun _ _ => rfl,
    toUtxoCore_foldl (g := UtxoCore.addOutput) fun _ _ => rfl]

@[simp] lemma toUtxoCore_evictOldOutputs (u : UtxoSet) (h k : ℕ) :
    (u.evictOldOutputs h k).toUtxoCore = u.toUtxoCore := by
  unfold evictOldOutputs
  split <;> rfl

@[simp] lemma db_evictOldOutputs (u : UtxoSet) (h k : ℕ) : (u.evictOldOutputs h k).db = u.db := by
  unfold evictOldOutputs
  split <;> rfl

end UtxoSet

/-! ## Additions and the removal of the same keys -/

namespace UtxoCore

lemma lawfulBEq_outputKey : LawfulBEq OutputKey := inferInstance

attribute [local instance] lawfulBEq_outputKey

/-- Midway in a disconnection: `u` with the outputs `added`, those in `left` still there. -/
def midway (u : UtxoCore) (added left : List NewOutput) : UtxoCore where
  outputs k := match left.find? (·.key = k) with
    | some a => some a.ref
    | none => u.outputs k
  keyImages := u.keyImages
  heightIndex h := u.heightIndex h ∪ ((left.filter (·.height = h)).map (·.key)).toFinset
  locatorIndex h := u.locatorIndex h ∪ ((left.filter (·.height = h)).map (·.key)).toFinset
  locatorOutputs k := match left.find? (·.key = k) with
    | some a => some a.locator
    | none => u.locatorOutputs k
  stealthIndex x := match u.stealthIndex x with
    | some k => some k
    | none => match added.find? (·.address = x) with
      | some a => if a.key ∈ left.map (·.key) then some a.key else none
      | none => none

lemma find?_key_eq_none {l : List NewOutput} : l.find? (·.key = k) = none ↔ k ∉ l.map (·.key) := by
  simp only [find?_eq_none, decide_eq_true_eq, mem_map, not_exists, not_and]

/-- One more addition, at a key not yet used. -/
lemma addOutput_midway (u : UtxoCore) (l : List NewOutput) (a : NewOutput)
    (hnew : a.key ∉ l.map (·.key)) :
    addOutput (midway u l l) a = midway u (l ++ [a]) (l ++ [a]) := by
  have hfind : l.find? (·.key = a.key) = none := find?_key_eq_none.mpr hnew
  have hlookup : ∀ {β : Type} (f : NewOutput → β) (g : OutputKey → Option β),
      update
          (fun k => match l.find? (·.key = k) with | some c => some (f c) | none => g k)
          a.key (some (f a))
        = fun k => match (l ++ [a]).find? (·.key = k) with | some c => some (f c) | none => g k := by
    intro β f g
    funext k
    rw [update_apply]
    split_ifs with hk
    · simp [hk, hfind]
    · simp [Ne.symm hk]
  have hindex : ∀ g : ℕ → Finset OutputKey,
      update (fun h => g h ∪ ((l.filter (·.height = h)).map (·.key)).toFinset) a.height
          (insert a.key (g a.height ∪ ((l.filter (·.height = a.height)).map (·.key)).toFinset))
        = fun h => g h ∪ (((l ++ [a]).filter (·.height = h)).map (·.key)).toFinset := by
    intro g
    funext h
    rw [update_apply]
    split_ifs with hh
    · simp [hh]
    · simp [Ne.symm hh]
  refine UtxoCore.ext (hlookup _ _) rfl (hindex _) (hindex _) (hlookup _ _) ?_
  funext x
  simp only [addOutput, midway, find?_append, update_apply]
  have hmem : ∀ c, l.find? (·.address = x) = some c → c.key ∈ l.map (·.key) :=
    fun c hc => mem_map_of_mem (mem_of_find?_eq_some hc)
  split_ifs with hx
  · subst hx
    cases u.stealthIndex a.address <;> cases hl : l.find? (·.address = a.address) <;> simp_all
  · cases u.stealthIndex x <;> cases hl : l.find? (·.address = x) <;> simp_all [Ne.symm hx]

/-- At the end of a disconnection the set is as before. -/
lemma midway_nil_left (u : UtxoCore) (added : List NewOutput) : midway u added [] = u := by
  refine UtxoCore.ext rfl rfl ?_ ?_ rfl ?_
  · simp [midway]
  · simp [midway]
  · funext x
    simp only [midway, map_nil]
    cases u.stealthIndex x with
    | some k => rfl
    | none => cases added.find? (·.address = x) <;> rfl

/-- The additions of a batch with distinct keys. -/
lemma foldl_addOutput (u : UtxoCore) (l : List NewOutput) (hl : (l.map (·.key)).Nodup) :
    l.foldl addOutput u = midway u l l := by
  induction l using reverseRecOn with
  | nil => exact (midway_nil_left u []).symm
  | append_singleton l a ih =>
    rw [map_append, nodup_append] at hl
    obtain ⟨hnd, -, hdisj⟩ := hl
    have hnew : a.key ∉ l.map (·.key) := fun h => hdisj _ h _ (by simp) rfl
    rw [foldl_append, ih hnd, foldl_cons, foldl_nil, addOutput_midway u l a hnew]

/-! ## Well-formed sets -/

/-- No table of the set mentions the key. -/
structure Unused (u : UtxoCore) (k : OutputKey) : Prop where
  outputs : u.outputs k = none
  locatorOutputs : u.locatorOutputs k = none
  heightIndex : ∀ h, k ∉ u.heightIndex h
  locatorIndex : ∀ h, k ∉ u.locatorIndex h
  stealthIndex : ∀ x, u.stealthIndex x ≠ some k

/-- Every index refers to outputs of the set only. -/
def WellFormed (u : UtxoCore) : Prop := ∀ k, u.outputs k = none → u.Unused k

/-- The empty set is well formed. -/
lemma wellFormed_empty : empty.WellFormed := fun _ _ =>
  ⟨rfl, rfl, fun _ => Finset.notMem_empty _, fun _ => Finset.notMem_empty _,
    fun _ => nofun⟩

/-- An addition keeps that. -/
lemma WellFormed.addOutput {u : UtxoCore} (hu : u.WellFormed) (a : NewOutput) :
    (u.addOutput a).WellFormed := by
  intro k hk
  have hne : k ≠ a.key := by
    rintro rfl
    simp [UtxoCore.addOutput] at hk
  simp only [UtxoCore.addOutput, update_of_ne hne] at hk
  have hun := hu k hk
  refine ⟨?_, ?_, ?_, ?_, ?_⟩
  · simp only [UtxoCore.addOutput, update_of_ne hne, hk]
  · simp only [UtxoCore.addOutput, update_of_ne hne, hun.locatorOutputs]
  · intro h
    simp only [UtxoCore.addOutput, update_apply]
    split <;> simp [hne, hun.heightIndex]
  · intro h
    simp only [UtxoCore.addOutput, update_apply]
    split <;> simp [hne, hun.locatorIndex]
  · intro x
    simp only [UtxoCore.addOutput, update_apply]
    split
    · cases hs : u.stealthIndex a.address with
      | none => simpa using Ne.symm hne
      | some k' =>
        have := hun.stealthIndex a.address
        simpa [hs] using this
    · exact hun.stealthIndex x

lemma WellFormed.foldl_addOutput {u : UtxoCore} (hu : u.WellFormed) (l : List NewOutput) :
    (l.foldl UtxoCore.addOutput u).WellFormed := by
  induction l generalizing u with
  | nil => exact hu
  | cons a l ih => exact ih (hu.addOutput a)

/-- One removal in the middle of a disconnection. -/
lemma removeOutput_midway {added : List NewOutput} (hadd : (added.map (·.key)).Nodup)
    (hmem : a ∈ added) (hnot : a.key ∉ left.map (·.key)) (hun : u.Unused a.key) :
    removeOutput (midway u added (a :: left)) a.key = midway u added left := by
  have hfind : left.find? (·.key = a.key) = none := find?_key_eq_none.mpr hnot
  have hlookup : ∀ {β : Type} (f : NewOutput → β) (g : OutputKey → Option β), g a.key = none →
      update
          (fun k => match (a :: left).find? (·.key = k) with | some c => some (f c) | none => g k)
          a.key none
        = fun k => match left.find? (·.key = k) with | some c => some (f c) | none => g k := by
    intro β f g hg
    funext k
    rw [update_apply]
    split_ifs with hk
    · simp [hk, hfind, hg]
    · simp [Ne.symm hk]
  have hindex : ∀ g : ℕ → Finset OutputKey, (∀ h, a.key ∉ g h) →
      update (fun h => g h ∪ (((a :: left).filter (·.height = h)).map (·.key)).toFinset)
          a.height
          ((g a.height ∪
            (((a :: left).filter (·.height = a.height)).map (·.key)).toFinset).erase a.key)
        = fun h => g h ∪ ((left.filter (·.height = h)).map (·.key)).toFinset := by
    intro g hg
    funext h
    rw [update_apply]
    split_ifs with hh
    · have hleft : a.key ∉ (left.filter (·.height = h)).map (·.key) := fun hc =>
        hnot (map_subset _ filter_sublist.subset hc)
      rw [← hh, filter_cons_of_pos (by simp [hh]), map_cons, toFinset_cons, Finset.union_insert,
        Finset.erase_insert (by simpa [hg] using hleft)]
    · simp [Ne.symm hh]
  have hout : (midway u added (a :: left)).outputs a.key = some a.ref := by simp [midway]
  have hloc : (midway u added (a :: left)).locatorOutputs a.key = some a.locator := by
    simp [midway]
  refine UtxoCore.ext (hlookup _ _ hun.outputs) rfl ?_ ?_ (hlookup _ _ hun.locatorOutputs) ?_
  · simp only [removeOutput, hout]
    exact hindex _ hun.heightIndex
  · simp only [removeOutput, hloc]
    exact hindex _ hun.locatorIndex
  · funext x
    have haddr : (midway u added (a :: left)).addressOf a.key = some a.address := by
      rw [addressOf, hout]
      rfl
    simp only [removeOutput, owns, haddr]
    -- the entry of `x` changes only where `a` is the first output added with that address
    cases hu : u.stealthIndex x with
    | some k =>
      have hk : k ≠ a.key := fun e => hun.stealthIndex x (e ▸ hu)
      simp [midway, hu, hk]
    | none =>
      cases hl : added.find? (·.address = x) with
      | none => simp [midway, hu, hl]
      | some c =>
        have hcx : c.address = x := by simpa using find?_some hl
        by_cases hca : c.key = a.key
        · obtain rfl : c = a := inj_on_of_nodup_map hadd (mem_of_find?_eq_some hl) hmem hca
          simpa [midway, hu, hl, hcx] using hnot
        · simp [midway, hu, hl, hca]

/-- Removing the added outputs, in the order of addition. -/
lemma foldl_removeOutput (hadd : (added.map (·.key)).Nodup) (hun : ∀ a ∈ added, u.Unused a.key)
    (left : List NewOutput) (hsub : left.Sublist added) :
    (left.map (·.key)).foldl removeOutput (midway u added left) = u := by
  induction left with
  | nil => exact midway_nil_left u added
  | cons a left ih =>
    have hmem : a ∈ added := hsub.subset mem_cons_self
    have hnd : ((a :: left).map (·.key)).Nodup := hadd.sublist (hsub.map _)
    have hnot : a.key ∉ left.map (·.key) := (nodup_cons.mp hnd).1
    rw [map_cons, foldl_cons, removeOutput_midway hadd hmem hnot (hun a hmem)]
    exact ih ((sublist_cons_self a left).trans hsub)

/-! ## Key images -/

/-- Marking adds to the spent images. -/
lemma foldl_markKeyImageSpent (u : UtxoCore) (l : List KeyImage) :
    l.foldl markKeyImageSpent u = { u with keyImages := u.keyImages ∪ l.toFinset } := by
  induction l generalizing u with
  | nil => simp
  | cons k l ih =>
    rw [foldl_cons, ih, markKeyImageSpent]
    simp

/-- Removing takes them off again. -/
lemma foldl_removeKeyImage (u : UtxoCore) (l : List KeyImage) :
    l.foldl removeKeyImage u = { u with keyImages := u.keyImages \ l.toFinset } := by
  induction l generalizing u with
  | nil => simp
  | cons k l ih =>
    rw [foldl_cons, ih, removeKeyImage]
    simp [Finset.sdiff_insert, Finset.erase_sdiff_comm]

/-- Removals do not touch the key images. -/
lemma foldl_removeOutput_keyImages (u : UtxoCore) (s : Finset KeyImage) (l : List OutputKey) :
    l.foldl removeOutput { u with keyImages := s }
      = { l.foldl removeOutput u with keyImages := s } := by
  induction l generalizing u with
  | nil => rfl
  | cons k l ih => exact ih (u.removeOutput k)

/-! ## What additions leave -/

/-- Other keys are left alone. -/
lemma outputs_foldl_addOutput {l : List NewOutput} (hk : k ∉ l.map (·.key)) :
    (l.foldl addOutput u).outputs k = u.outputs k := by
  induction l generalizing u with
  | nil => rfl
  | cons a l ih =>
    rw [map_cons, mem_cons, not_or] at hk
    rw [foldl_cons, ih hk.2]
    exact update_of_ne hk.1 _ _

/-- An addition with a key of its own is found. -/
lemma outputs_foldl_addOutput_of_mem {l : List NewOutput} (ha : a ∈ l)
    (hkey : ∀ a' ∈ l, a'.key = a.key → a' = a) :
    (l.foldl addOutput u).outputs a.key = some a.ref := by
  induction l generalizing u with
  | nil => simp at ha
  | cons x l ih =>
    rw [foldl_cons]
    by_cases hl : a ∈ l
    · exact ih hl fun a' ha' => hkey a' (mem_cons_of_mem x ha')
    · obtain rfl : a = x := (mem_cons.mp ha).resolve_right hl
      have hnot : a.key ∉ l.map (·.key) := by
        intro hmem
        obtain ⟨a', ha', hk⟩ := mem_map.mp hmem
        exact hl (hkey a' (mem_cons_of_mem a ha') hk ▸ ha')
      rw [outputs_foldl_addOutput hnot]
      exact update_self _ _ _

/-- An address keeps its oldest output, or goes to its first addition. -/
lemma stealthIndex_foldl_addOutput_eq (l : List NewOutput) (u : UtxoCore) (x : PublicKey) :
    (l.foldl addOutput u).stealthIndex x
      = (u.stealthIndex x).or ((l.map fun a => (a.address, a.key)).lookup x) := by
  rw [← Table.foldl_update_getD]
  induction l generalizing u with
  | nil => rfl
  | cons a l ih => exact ih (u.addOutput a)

end UtxoCore

/-! ## A block and its disconnection -/

section Blocks

variable (E : Env)

/-- Removal and addition batch have the same keys. -/
lemma map_key_newOutputs (height : ℕ) (tx : Transaction) :
    (newOutputs E height tx).map (·.key) = removedKeys E tx := by
  apply ext_getElem
  · simp [newOutputs, removedKeys]
  · simp [newOutputs, removedKeys, NewOutput.key]

/-- The same for a whole block. -/
lemma map_key_adds (height : ℕ) (txs : List Transaction) :
    (txs.flatMap (newOutputs E height)).map (·.key) = txs.flatMap (removedKeys E) := by
  rw [map_flatMap]
  simp only [map_key_newOutputs]

variable {E} in
/-- A key names its transaction. -/
lemma mem_removedKeys (hk : k ∈ removedKeys E tx) : k.1 = E.txHash tx := by
  obtain ⟨i, -, rfl⟩ := mem_map.mp hk
  rfl

/-- Output keys are distinct and unused, key images unspent. -/
structure FreshFor (txs : List Transaction) (u : UtxoCore) : Prop where
  nodup : (txs.flatMap (removedKeys E)).Nodup
  outputs : ∀ k ∈ txs.flatMap (removedKeys E), u.outputs k = none
  keyImages : ∀ ki ∈ txs.flatMap spentKeyImages, ki ∉ u.keyImages

variable {E}

lemma UtxoCore.connectBlock_eq (u : UtxoCore) (height : ℕ) (txs : List Transaction) :
    u.connectBlock E height txs
      = { (txs.flatMap (newOutputs E height)).foldl addOutput u with
          keyImages := ((txs.flatMap (newOutputs E height)).foldl addOutput u).keyImages
            ∪ (txs.flatMap spentKeyImages).toFinset } := by
  simp only [connectBlock, applyBatch, batchFromBlock, foldl_nil, foldl_markKeyImageSpent]

lemma UtxoCore.WellFormed.connectBlock {u : UtxoCore} (hu : u.WellFormed) (height : ℕ)
    (txs : List Transaction) : (u.connectBlock E height txs).WellFormed := by
  have hadd := hu.foldl_addOutput (txs.flatMap (newOutputs E height))
  rw [connectBlock_eq]
  intro k hk
  have hun := hadd k hk
  exact ⟨hun.outputs, hun.locatorOutputs, hun.heightIndex, hun.locatorIndex, hun.stealthIndex⟩

/-- Disconnecting undoes connecting a fresh block. -/
lemma UtxoCore.disconnectBlock_connectBlock (hu : u.WellFormed) (height : ℕ)
    (hf : FreshFor E txs u) : (u.connectBlock E height txs).disconnectBlock E txs = u := by
  set added := txs.flatMap (newOutputs E height) with hadded
  have hkeys : added.map (·.key) = txs.flatMap (removedKeys E) := map_key_adds E height txs
  have hnd : (added.map (·.key)).Nodup := hkeys ▸ hf.nodup
  have hun : ∀ a ∈ added, u.Unused a.key := fun a ha =>
    hu _ (hf.outputs _ (hkeys ▸ mem_map_of_mem ha))
  have hdisj : (u.keyImages ∪ (txs.flatMap spentKeyImages).toFinset)
      \ (txs.flatMap spentKeyImages).toFinset = u.keyImages := by
    rw [Finset.union_sdiff_right, Finset.sdiff_eq_self_iff_disjoint, Finset.disjoint_left]
    intro ki hki hmem
    exact hf.keyImages ki (mem_toFinset.mp hmem) hki
  rw [connectBlock_eq, foldl_addOutput u added hnd]
  simp only [disconnectBlock, applyBatch, batchDisconnectBlock, foldl_nil]
  rw [← hkeys, foldl_removeOutput_keyImages,
    foldl_removeOutput hnd hun added (List.Sublist.refl _), foldl_removeKeyImage]
  exact UtxoCore.ext rfl hdisj rfl rfl rfl rfl

@[simp] lemma UtxoSet.toUtxoCore_connectBlock (u : UtxoSet) (height : ℕ) (txs : List Transaction) :
    (u.connectBlock E height txs).toUtxoCore = u.toUtxoCore.connectBlock E height txs :=
  toUtxoCore_applyBatch u _

@[simp] lemma UtxoSet.toUtxoCore_disconnectBlock (u : UtxoSet) (txs : List Transaction) :
    (u.disconnectBlock E txs).toUtxoCore = u.toUtxoCore.disconnectBlock E txs :=
  toUtxoCore_applyBatch u _

/-- Outside the core only the output index and its counter grow. -/
lemma UtxoSet.connectBlock_eq (u : UtxoSet) (height : ℕ) (txs : List Transaction) :
    u.connectBlock E height txs
      = { (txs.flatMap (newOutputs E height)).foldl addOutputExt u with
          keyImages := ((txs.flatMap (newOutputs E height)).foldl addOutputExt u).keyImages
            ∪ (txs.flatMap spentKeyImages).toFinset } := by
  refine (foldl_core UtxoCore.markKeyImageSpent (txs.flatMap spentKeyImages)
    ((txs.flatMap (newOutputs E height)).foldl addOutputExt u)).trans ?_
  rw [UtxoCore.foldl_markKeyImageSpent]

@[simp] lemma UtxoSet.db_connectBlock (u : UtxoSet) (height : ℕ) (txs : List Transaction) :
    (u.connectBlock E height txs).db = u.db := by
  rw [connectBlock_eq, foldl_addOutputExt]

/-- Key images play no part in the removals. -/
lemma UtxoSet.disconnectBlock_eq (u : UtxoSet) (txs : List Transaction) (s : Finset KeyImage) :
    ∃ t, u.disconnectBlock E txs
      = { (txs.flatMap (removedKeys E)).foldl removeOutput { u with keyImages := s } with
          keyImages := t } := by
  have hremove : ∀ (ks : List OutputKey) (u : UtxoSet) (t : Finset KeyImage),
      ({ ks.foldl removeOutput { u with keyImages := s } with keyImages := t } : UtxoSet)
        = { ks.foldl removeOutput u with keyImages := t } := by
    intro ks
    induction ks with
    | nil => exact fun _ _ => rfl
    | cons k ks ih => exact fun u => ih (u.removeOutput k)
  have hfold := foldl_core UtxoCore.removeKeyImage (txs.flatMap spentKeyImages)
    ((txs.flatMap (removedKeys E)).foldl removeOutput u)
  rw [UtxoCore.foldl_removeKeyImage] at hfold
  exact ⟨_, hfold.trans (hremove _ _ _).symm⟩

end Blocks

end CoinCync

import CoinCync.NeverExtended

/-!
# Undoing the blocks of a chain

`batch_disconnect_block` against `batch_from_block`, without eviction and without a database. Blocks
that pass `validate_block_ctx` are connected one after the other, and a stretch of them is
disconnected newest first. No removal is counted twice, so a repeated key leaves the two counters
apart: a stretch is undone exactly iff each of its blocks was `FirstSeen`.
-/

namespace CoinCync

open List Option UtxoSet UtxoCore Run

variable {E : Env}
variable {bs : List Block} {k : OutputKey}

/-! ## Connecting and disconnecting -/

/-- A UTXO set, and the block connected to it last. -/
structure Tables where
  tip : Option Block := none
  utxos : UtxoSet := UtxoSet.empty

/-- Before any block, or after the genesis of `init_genesis`. -/
def Tables.initial (E : Env) : Option Block → Tables
  | none => {}
  | some genesis => ⟨some genesis, UtxoSet.empty.connectBlock E 0 genesis.transactions⟩

/-- Connect a block that passes full verification on its predecessors. -/
def connectValid (W : Validator E) (s : Tables) (b : Block) : Option Tables :=
  if validateBlockCtx W b s.tip s.utxos none true = [] then
    some ⟨some b, s.utxos.connectBlock E b.height b.transactions⟩
  else none

/-- Disconnect the blocks of a stretch, the newest first. -/
def UtxoSet.undo (E : Env) (u : UtxoSet) (bs : List Block) : UtxoSet :=
  bs.foldr (fun b u => u.disconnectBlock E b.transactions) u

/-- The same tables, and as many outputs still connected. -/
structure Undone (u w : UtxoSet) : Prop where
  core : w.toUtxoCore = u.toUtxoCore
  outputIndex : w.outputIndex = u.outputIndex
  connected : (w.totalOutputsEver : ℤ) - w.reorgDisconnectsTotal
    = u.totalOutputsEver - u.reorgDisconnectsTotal

/-- The block brings output keys that the set lacks, each once. -/
@[mk_iff] structure FirstSeen (E : Env) (s : Tables) (b : Block) : Prop where
  indices : ∀ tx ∈ b.transactions, tx.outputs.length ≤ 256
  outputs : ∀ k ∈ b.transactions.flatMap (removedKeys E), s.utxos.outputs k = none

instance (s : Tables) (b : Block) : Decidable (FirstSeen E s b) :=
  decidable_of_iff _ (firstSeen_iff E s b).symm

variable {W : Validator E} {s t : Tables} {b : Block} {u w : UtxoSet}

/-- What was checked, and what is left. -/
lemma connectValid_eq_some (h : connectValid W s b = some t) :
    validateBlockCtx W b s.tip s.utxos none true = [] ∧
      t = ⟨some b, s.utxos.connectBlock E b.height b.transactions⟩ := by
  unfold connectValid at h
  split at h
  · exact ⟨‹_›, (some.inj h).symm⟩
  · contradiction

/-! ## Sets that only grew -/

/-- What connecting blocks keeps without eviction or disconnection. -/
structure Grown (u : UtxoSet) : Prop where
  wellFormed : u.toUtxoCore.WellFormed
  indexed : ∀ x, u.outputIndex x = none ↔ u.stealthIndex x = none
  disconnects : u.reorgDisconnectsTotal = 0

lemma grown_empty : Grown UtxoSet.empty :=
  ⟨wellFormed_empty, fun _ => iff_of_true rfl rfl, rfl⟩

lemma Grown.connectBlock (hu : Grown u) (h : ℕ) (b : Block) :
    Grown (u.connectBlock E h b.transactions) where
  wellFormed := by
    rw [toUtxoCore_connectBlock]
    exact hu.wellFormed.connectBlock h b.transactions
  indexed x := by
    have hstealth : (u.connectBlock E h b.transactions).stealthIndex x = none ↔
        u.stealthIndex x = none ∧
          x ∉ (b.transactions.flatMap (newOutputs E h)).map (·.address) := by
      rw [← stealthIndex_foldl_addOutput, toUtxoCore_connectBlock, UtxoCore.connectBlock_eq]
    rw [hstealth, outputIndex_connectBlock_eq, or_eq_none_iff, hu.indexed x,
      Table.lookup_eq_none_iff_notMem, ← map_address_adds]
  disconnects := (counters_connectBlock u h b).2.trans hu.disconnects

/-- With or without genesis. -/
lemma grown_initial (genesis : Option Block) : Grown (Tables.initial E genesis).utxos := by
  cases genesis with
  | none => exact grown_empty
  | some g => exact grown_empty.connectBlock 0 g

lemma Grown.connectValid (hs : Grown s.utxos) (h : CoinCync.connectValid W s b = some t) :
    Grown t.utxos := by
  obtain ⟨-, rfl⟩ := connectValid_eq_some h
  exact hs.connectBlock b.height b

/-! ## Removals -/

/-- The output keys of a stretch of blocks. -/
def outputKeys (E : Env) (bs : List Block) : List OutputKey :=
  bs.flatMap fun b => b.transactions.flatMap (removedKeys E)

/-- Apart from key images, undoing a stretch removes its output keys. -/
lemma undo_eq_foldl (E : Env) (u : UtxoSet) (bs : List Block) :
    ∃ (l : List OutputKey) (kis : Finset KeyImage),
      u.undo E bs = { l.foldl UtxoSet.removeOutput u with keyImages := kis } ∧
      ∀ k, k ∈ l ↔ k ∈ outputKeys E bs := by
  induction bs with
  | nil => exact ⟨[], u.keyImages, rfl, fun _ => Iff.rfl⟩
  | cons b bs ih =>
    obtain ⟨l, _, heq, hl⟩ := ih
    obtain ⟨kis, hkis⟩ := disconnectBlock_eq (u.undo E bs) b.transactions
      (l.foldl UtxoSet.removeOutput u).keyImages
    refine ⟨l ++ b.transactions.flatMap (removedKeys E), kis, ?_, fun k => ?_⟩
    · rw [foldl_append]
      refine hkis.trans ?_
      rw [heq]
    · rw [mem_append, hl, or_comm, outputKeys, outputKeys, flatMap_cons, mem_append]

lemma totalOutputsEver_undo (u : UtxoSet) (bs : List Block) :
    (u.undo E bs).totalOutputsEver = u.totalOutputsEver := by
  obtain ⟨l, kis, heq, -⟩ := undo_eq_foldl E u bs
  rw [heq]
  exact foldlRecOn (motive := fun w : UtxoSet => w.totalOutputsEver = u.totalOutputsEver) l
    removeOutput rfl fun _ h _ _ => h

/-- A row of the output index goes with its stealth entry. -/
lemma outputIndex_foldl_removeOutput {rows : PublicKey → Option OutputIndexEntry}
    (l : List OutputKey)
    (hw : ∀ x, w.outputIndex x = if w.stealthIndex x = none then none else rows x) (x : PublicKey) :
    (l.foldl UtxoSet.removeOutput w).outputIndex x
      = if (l.foldl UtxoSet.removeOutput w).stealthIndex x = none then none else rows x := by
  refine foldlRecOn (motive := fun w : UtxoSet => ∀ x, w.outputIndex x
    = if w.stealthIndex x = none then none else rows x) l _ hw (fun w hw k _ x => ?_) x
  show (if w.owns k x then none else w.outputIndex x)
    = if (if w.owns k x then none else w.stealthIndex x) = none then none else rows x
  split
  · simp
  · exact hw x

/-! ## A block of new outputs -/

/-- A valid block that is first seen is fresh. -/
lemma FirstSeen.freshFor (hb : FirstSeen E s b)
    (hvalid : validateBlockCtx W b s.tip s.utxos none true = []) :
    FreshFor E b.transactions s.utxos.toUtxoCore := by
  obtain ⟨coinbase, rest, hblock⟩ := validateBlockCtx_eq_nil rfl hvalid
  exact ⟨nodup_removedKeys hblock.txHashes hb.indices, hb.outputs, hblock.spentKeyImages.2⟩

/-- Disconnecting restores the set before the block. -/
lemma Undone.disconnect (hu : Grown u) (hf : FreshFor E b.transactions u.toUtxoCore)
    (hw : Undone (u.connectBlock E h b.transactions) w)
    (hfits : w.reorgDisconnectsTotal + b.outputs.length < 2 ^ 64) :
    Undone u (w.disconnectBlock E b.transactions) := by
  have hcore : (w.disconnectBlock E b.transactions).toUtxoCore = u.toUtxoCore := by
    rw [toUtxoCore_disconnectBlock, hw.core, toUtxoCore_connectBlock]
    exact disconnectBlock_connectBlock hu.wellFormed h hf
  refine ⟨hcore, ?_, ?_⟩
  · obtain ⟨kis, hkis⟩ := disconnectBlock_eq w b.transactions w.keyImages
    have hgrown := hu.connectBlock (E := E) h b
    have hindexed : ∀ x, w.outputIndex x
        = if w.stealthIndex x = none then none else w.outputIndex x := by
      intro x
      split
      · rename_i hx
        rw [hw.core] at hx
        rw [hw.outputIndex]
        exact (hgrown.indexed x).mpr hx
      · rfl
    funext x
    have hx := outputIndex_foldl_removeOutput (b.transactions.flatMap (removedKeys E)) hindexed x
    rw [hkis] at hcore ⊢
    have hstealth := congrArg (·.stealthIndex x) hcore
    refine hx.trans ?_
    rw [show (_ : UtxoSet).stealthIndex x = u.stealthIndex x from hstealth]
    split
    · rename_i hnone
      exact ((hu.indexed x).mpr hnone).symm
    · rename_i hsome
      obtain ⟨e, he⟩ := ne_none_iff_exists'.mp (mt (hu.indexed x).mp hsome)
      rw [hw.outputIndex, outputIndex_connectBlock_eq, he, some_or]
  · obtain ⟨kis, hkis⟩ := disconnectBlock_eq w b.transactions u.keyImages
    have hkeys := map_key_adds E h b.transactions
    have hnd := hkeys ▸ hf.nodup
    have hmid : ({ w with keyImages := u.keyImages } : UtxoSet).toUtxoCore
        = midway u.toUtxoCore (b.transactions.flatMap (newOutputs E h))
          (b.transactions.flatMap (newOutputs E h)) := by
      rw [hw.core, toUtxoCore_connectBlock, UtxoCore.connectBlock_eq, foldl_addOutput _ _ hnd]
      rfl
    have hun : ∀ a ∈ b.transactions.flatMap (newOutputs E h), u.toUtxoCore.Unused a.key :=
      fun a ha => hu.wellFormed _ (hf.outputs _ (hkeys ▸ mem_map_of_mem ha))
    have hlen := length_adds (E := E) h b
    obtain ⟨hever, hdisc⟩ := counters_foldl_removeOutput hmid hnd hun
      (List.Sublist.refl _) (by rw [hlen]; exact hfits)
    rw [hkeys] at hever hdisc
    obtain ⟨hever', hdisc'⟩ := counters_connectBlock (E := E) u h b
    have hconn := hw.connected
    rw [hkis]
    rw [hever, hdisc]
    push_cast at hconn ⊢
    omega

/-- A stretch of blocks with new outputs, undone. -/
lemma undone_undo (hs : Grown s.utxos)
    (hrun : exec (guarded (connectValid W) (FirstSeen E)) s bs = some t)
    (hfits : t.utxos.totalOutputsEver < 2 ^ 64) : Undone s.utxos (t.utxos.undo E bs) := by
  induction bs generalizing s with
  | nil =>
    cases hrun
    exact ⟨rfl, rfl, rfl⟩
  | cons b bs ih =>
    obtain ⟨s', hb, hrun⟩ := exec_cons_eq_some.mp hrun
    obtain ⟨hseen, hb⟩ := guarded_eq_some.mp hb
    have hrest := ih (hs.connectValid hb) hrun
    obtain ⟨hvalid, rfl⟩ := connectValid_eq_some hb
    refine hrest.disconnect hs (hseen.freshFor hvalid) ?_
    show (t.utxos.undo E bs).reorgDisconnectsTotal + b.outputs.length < 2 ^ 64
    -- what has been disconnected is what was connected above `b`
    have hconn := hrest.connected
    rw [totalOutputsEver_undo, (hs.connectBlock b.height b).disconnects,
      (counters_connectBlock s.utxos b.height b).1] at hconn
    omega

/-! ## A key used before -/

/-- What was removed is gone. -/
lemma outputs_foldl_removeOutput (l : List OutputKey)
    (hk : k ∈ l ∨ w.outputs k = none) : (l.foldl UtxoSet.removeOutput w).outputs k = none := by
  induction l generalizing w with
  | nil => exact hk.resolve_left not_mem_nil
  | cons k' l ih =>
    refine ih ?_
    by_cases hk' : k = k'
    · subst hk'
      exact .inr (Function.update_self _ _ _)
    · refine hk.imp (fun hmem => (mem_cons.mp hmem).resolve_left hk') fun hnone => ?_
      exact (Function.update_of_ne hk' _ _).trans hnone

/-- So are the outputs of a stretch that was undone. -/
lemma outputs_undo (hk : k ∈ outputKeys E bs) : (w.undo E bs).outputs k = none := by
  obtain ⟨l, kis, heq, hl⟩ := undo_eq_foldl E w bs
  rw [heq]
  exact outputs_foldl_removeOutput l (.inl ((hl k).mpr hk))

/-- Removals so far and to come, of the keys in `ks`. -/
def removalBudget (ks : Finset OutputKey) (u : UtxoSet) : ℕ :=
  u.reorgDisconnectsTotal + (ks.filter fun k => (u.addressOf k).isSome).card

/-- A removal does not raise the budget. -/
lemma removalBudget_removeOutput_le (hk : k ∈ ks) :
    removalBudget ks (u.removeOutput k) ≤ removalBudget ks u := by
  have haddress : ∀ k', (u.removeOutput k).addressOf k'
      = if k' = k then none else u.addressOf k' := by
    intro k'
    unfold addressOf
    by_cases hk' : k' = k
    · subst hk'
      simp [UtxoSet.removeOutput, UtxoCore.removeOutput]
    · simp [UtxoSet.removeOutput, UtxoCore.removeOutput, hk']
  have hfilter : (ks.filter fun k' => ((u.removeOutput k).addressOf k').isSome)
      = (ks.filter fun k' => (u.addressOf k').isSome).erase k := by
    ext k'
    simp only [haddress]
    by_cases hk' : k' = k <;> simp [hk']
  unfold removalBudget
  rw [hfilter]
  show (if (u.addressOf k).isSome then MachineInt.satAdd 64 u.reorgDisconnectsTotal 1
    else u.reorgDisconnectsTotal) + _ ≤ _
  split
  · rename_i hsome
    have hmem : k ∈ ks.filter fun k' => (u.addressOf k').isSome := Finset.mem_filter.mpr ⟨hk, hsome⟩
    have hcard := Finset.card_erase_add_one hmem
    have hsat : MachineInt.satAdd 64 u.reorgDisconnectsTotal 1 ≤ u.reorgDisconnectsTotal + 1 :=
      min_le_left _ _
    omega
  · exact Nat.add_le_add_left (Finset.card_erase_le) _

lemma removalBudget_undo_le (hbs : ∀ k ∈ outputKeys E bs, k ∈ ks) :
    removalBudget ks (u.undo E bs) ≤ removalBudget ks u := by
  obtain ⟨l, kis, heq, hl⟩ := undo_eq_foldl E u bs
  rw [heq]
  refine foldlRecOn (motive := fun w => removalBudget ks w ≤ removalBudget ks u) l
    removeOutput le_rfl fun w hw k hk => ?_
  exact (removalBudget_removeOutput_le (hbs k ((hl k).mp hk))).trans hw

/-- No removal is counted twice. -/
lemma reorgDisconnectsTotal_undo_le (u : UtxoSet) (bs : List Block) :
    (u.undo E bs).reorgDisconnectsTotal
      ≤ u.reorgDisconnectsTotal + (outputKeys E bs).toFinset.card := by
  have hle : removalBudget (outputKeys E bs).toFinset (u.undo E bs) ≤ removalBudget _ u :=
    removalBudget_undo_le fun _ hk => mem_toFinset.mpr hk
  unfold removalBudget at hle
  have hcard := Finset.card_filter_le (outputKeys E bs).toFinset fun k => (u.addressOf k).isSome
  omega

/-- Every output added is counted. -/
lemma totalOutputsEver_connect (hrun : exec (connectValid W) s bs = some t) :
    t.utxos.totalOutputsEver = s.utxos.totalOutputsEver + (outputKeys E bs).length := by
  induction bs generalizing s with
  | nil =>
    cases hrun
    rfl
  | cons b bs ih =>
    obtain ⟨s', hb, hrun⟩ := exec_cons_eq_some.mp hrun
    obtain ⟨-, rfl⟩ := connectValid_eq_some hb
    have hlen := length_adds (E := E) b.height b
    rw [← length_map, map_key_adds] at hlen
    rw [ih hrun, (counters_connectBlock s.utxos b.height b).1, outputKeys, outputKeys,
      flatMap_cons, length_append, hlen, add_assoc]

/-- Transactions with distinct keys have at most 256 outputs. -/
lemma length_le_of_nodup_removedKeys (h : (removedKeys E tx).Nodup) : tx.outputs.length ≤ 256 := by
  by_contra hlong
  have hinj := inj_on_of_nodup_map h (mem_range.mpr (show 0 < tx.outputs.length by omega))
    (mem_range.mpr (show 256 < tx.outputs.length by omega)) rfl
  omega

/-- Blocks with distinct new keys are each first seen. -/
lemma exec_guarded_firstSeen (hrun : exec (connectValid W) s bs = some t)
    (hnd : (outputKeys E bs).Nodup) (hnew : ∀ k ∈ outputKeys E bs, s.utxos.outputs k = none) :
    exec (guarded (connectValid W) (FirstSeen E)) s bs = some t := by
  induction bs generalizing s with
  | nil => exact hrun
  | cons b bs ih =>
    obtain ⟨s', hb, hrun⟩ := exec_cons_eq_some.mp hrun
    simp only [outputKeys, flatMap_cons, mem_append] at hnew
    obtain ⟨hndb, hndbs, hdisj⟩ := nodup_append.mp hnd
    have hseen : FirstSeen E s b := by
      refine ⟨fun tx htx => ?_, fun k hk => hnew k (.inl hk)⟩
      exact length_le_of_nodup_removedKeys ((nodup_flatMap.mp hndb).1 tx htx)
    refine exec_cons_eq_some.mpr ⟨s', guarded_eq_some.mpr ⟨hseen, hb⟩, ih hrun hndbs ?_⟩
    intro k hk
    obtain ⟨-, rfl⟩ := connectValid_eq_some hb
    have hnot : k ∉ (b.transactions.flatMap (newOutputs E b.height)).map (·.key) := by
      rw [map_key_adds]
      exact fun hmem => hdisj k hmem k hk rfl
    rw [toUtxoCore_connectBlock, UtxoCore.connectBlock_eq]
    exact (outputs_foldl_addOutput hnot).trans (hnew k (.inr hk))

/-- In every chain of valid blocks, a stretch is undone exactly iff each block brought output keys
that the set did not have. -/
theorem undo_restores_iff {genesis : Option Block} {bs : List Block}
    (hs : Run.Reaches (connectValid W) (fun _ _ => True) (Tables.initial E genesis) s)
    (hrun : exec (connectValid W) s bs = some t) (hfits : t.utxos.totalOutputsEver < 2 ^ 64) :
    Undone s.utxos (t.utxos.undo E bs) ↔
      exec (guarded (connectValid W) (FirstSeen E)) s bs = some t := by
  have hgrown : ∀ {r r' : Tables}, Grown r.utxos →
      Run.Reaches (connectValid W) (fun _ _ => True) r r' → Grown r'.utxos := fun hr h =>
    h.invariant (P := fun r => Grown r.utxos) hr fun _ _ _ hr _ hb => hr.connectValid hb
  have hs := hgrown (grown_initial genesis) hs
  refine ⟨fun h => ?_, fun h => undone_undo hs h hfits⟩
  have hnew : ∀ k ∈ outputKeys E bs, s.utxos.outputs k = none := by
    intro k hk
    rw [← h.core]
    exact outputs_undo hk
  refine exec_guarded_firstSeen hrun ?_ hnew
  -- all outputs are counted as disconnected, and none of them twice
  have ht := hgrown hs (reaches_of_exec hrun)
  have hdisc := reorgDisconnectsTotal_undo_le (E := E) t.utxos bs
  have hconn := h.connected
  rw [totalOutputsEver_undo, totalOutputsEver_connect hrun] at hconn
  rw [ht.disconnects] at hdisc
  have hcard : (outputKeys E bs).length ≤ (outputKeys E bs).toFinset.card := by
    omega
  rw [← Multiset.coe_nodup, ← Multiset.toFinset_card_eq_card_iff_nodup]
  exact le_antisymm (toFinset_card_le _) hcard

/-! ## Concrete chains

On regtest, where the rules of version 1.0.12 hold from the start. -/

/-- A chain of `n` empty blocks, before and after the blocks above it. -/
def connectAbove (n : ℕ) (bs : List Block) : Option (Tables × Tables) :=
  (exec (connectValid (sampleValidator (sampleEnv .regtest 1)))
    (Tables.initial (sampleEnv .regtest 1) (some (fundedGenesis 30000000))) (emptyBlocks n)).bind
  fun s => (exec (connectValid (sampleValidator (sampleEnv .regtest 1))) s bs).map fun t => (s, t)

lemma connectAbove_eq_some (h : connectAbove n bs = some (s, t)) :
    Run.Reaches (connectValid (sampleValidator (sampleEnv .regtest 1))) (fun _ _ => True)
        (Tables.initial (sampleEnv .regtest 1) (some (fundedGenesis 30000000))) s ∧
      exec (connectValid (sampleValidator (sampleEnv .regtest 1))) s bs = some t := by
  obtain ⟨s', hs, h⟩ := bind_eq_some_iff.mp h
  obtain ⟨t', ht, heq⟩ := map_eq_some_iff.mp h
  cases heq
  exact ⟨reaches_of_exec hs, ht⟩

/-- Two blocks, two more, and back. -/
theorem undo_restores_two :
    ∃ s t, connectAbove 2 [minedBlock 3 0 [], minedBlock 4 0 []] = some (s, t) ∧
      t.utxos.totalOutputsEver = 15 ∧
      Undone s.utxos
        (t.utxos.undo (sampleEnv .regtest 1) [minedBlock 3 0 [], minedBlock 4 0 []]) := by
  have hrun : ∃ p ∈ connectAbove 2 [minedBlock 3 0 [], minedBlock 4 0 []],
      p.2.utxos.totalOutputsEver = 15 ∧
      ∀ k ∈ outputKeys (sampleEnv .regtest 1) [minedBlock 3 0 [], minedBlock 4 0 []],
        p.1.utxos.outputs k = none := by
    decide +kernel
  obtain ⟨⟨s, t⟩, hp, hever, hnew⟩ := hrun
  obtain ⟨hs, ht⟩ := connectAbove_eq_some hp
  exact ⟨s, t, hp, hever, (undo_restores_iff hs ht (by simp only at hever; omega)).mpr
    (exec_guarded_firstSeen ht (by decide) hnew)⟩

/-- A transfer whose fee makes up for the lower reward of height ten. -/
def toppingUpTransfer : Transaction :=
  let fee := calculateBlockReward 9 - calculateBlockReward 10
  { txType := .transfer
    inputs := [3, 4].map fun ki => {
      keyImage := ki
      ringMembers := (List.range 11).map fun i => ⟨i + 1, Commitment.commit 30000000⟩
      signature := { keyImage := ki }
      pseudoOutputCommitment := Commitment.commit 30000000 }
    outputs := [revealedOutput 501 30000000, revealedOutput 502 (30000000 - fee)]
    fee := fee
    extra := .bytes 9999 }

/-- A block of height ten with the coinbase of `minedBlock 9`. -/
def repeatedCoinbaseBlock : Block :=
  sampleBlock 10 0 9000 (2 ^ 255)
    [coinbaseTx 9 [revealedOutput 1009 (calculateBlockReward 9)], toppingUpTransfer]

/-- The block that repeats the coinbase of block nine is valid, and undoing it takes the output of
block nine along. -/
theorem undo_drops_repeated_coinbase :
    (∀ h, NetworkType.regtest.v1012RulesActive h = true) ∧
    ∃ s t, connectAbove 9 [repeatedCoinbaseBlock] = some (s, t) ∧
      t.utxos.totalOutputsEver = 23 ∧
      (s.utxos.outputs (27, 0)).isSome ∧
      (t.utxos.undo (sampleEnv .regtest 1) [repeatedCoinbaseBlock]).outputs (27, 0) = none ∧
      (s.utxos.outputIndex 1009).isSome ∧
      (t.utxos.undo (sampleEnv .regtest 1) [repeatedCoinbaseBlock]).outputIndex 1009 = none ∧
      ¬ Undone s.utxos (t.utxos.undo (sampleEnv .regtest 1) [repeatedCoinbaseBlock]) := by
  have hrun : ∃ p ∈ connectAbove 9 [repeatedCoinbaseBlock], p.2.utxos.totalOutputsEver = 23 ∧
      (p.1.utxos.outputs (27, 0)).isSome ∧
      (p.2.utxos.undo (sampleEnv .regtest 1) [repeatedCoinbaseBlock]).outputs (27, 0) = none ∧
      (p.1.utxos.outputIndex 1009).isSome ∧
      (p.2.utxos.undo (sampleEnv .regtest 1) [repeatedCoinbaseBlock]).outputIndex 1009 = none := by
    decide +kernel
  obtain ⟨⟨s, t⟩, hp, hever, hsome, hnone, hsome', hnone'⟩ := hrun
  refine ⟨fun _ => rfl, s, t, hp, hever, hsome, hnone, hsome', hnone', fun h => ?_⟩
  rw [h.outputIndex] at hnone'
  simp [hnone'] at hsome'

end CoinCync

import CoinCync.Books

/-!
# Rolling back is never having extended

`rollback_to_height` is meant to leave the state of a node that only ever received the blocks up to
the target. Along extensions and rollbacks every part of the state is a function of the canonical
chain (`Reflects`), so two nodes with one canonical chain agree. A rollback undoes a block only if
the block could be told apart from its past (`Undoable`). Validation gives none of it for a coinbase
transaction, which may be repeated word for word.
-/

namespace CoinCync

open List Option UtxoSet Run Table

variable {E : Env} {R : Rules E} {W : Validator E} {n n' m : Node} {b : Block} {c : List Block}
variable {u : UtxoSet}

/-! ## Extensions -/

/-- A block delivered on the tip and connected. -/
def extendBy (R : Rules E) (n : Node) (b : Block) : Option Node :=
  if b.prevHash = n.tip.hash then
    match addBlock R n b with
    | some (n', .ok .accepted) => some n'
    | _ => none
  else none

/-- What such a delivery does. -/
lemma extendBy_eq_some (hn : ChainInv R n c) (h : extendBy R n b = some n') :
    Added R n c b n' (.ok .accepted) (b :: c) ∧ Passed R n b ∧ b.prevHash = n.tip.hash ∧
      n'.utxos = n.utxos.extend E b ∧ ∃ l,
        Forgets (((n.storeBlock E b).extendedWith E b l).commitBlock E b) n' := by
  unfold extendBy at h
  split at h
  · rename_i hprev
    split at h
    · rename_i m hadd
      cases h
      have hmain : n.isMainChain b = true := by simp [Node.isMainChain, hprev]
      obtain ⟨c', hadded⟩ := addBlock_added hn (ReorgCached.of_isMainChain hmain) hadd
      cases hadded with
      | stopped hpre => exact absurd rfl (preCheck_ne_accepted hpre).1
      | stored _ _ hno => exact absurd rfl hno
      | extended hb hprev hl hforget =>
        refine ⟨.extended hb hprev hl hforget, hb, hprev, ?_, _, hforget⟩
        obtain ⟨-, -, hlu, -⟩ := Ledger.connect_eq_some hl
        rw [hforget.eq]
        exact congrArg (fun u : UtxoSet => ({ u.evictOldOutputs b.height 1000 with
          db := commitRows (u.evictOldOutputs b.height 1000).db
            (outputRows b.height b.transactions) } : UtxoSet)) hlu
    · simp at h
  · simp at h

/-! ## What the state is a function of -/

/-- The place of a transaction on a chain, newest block first. -/
def txLocation (E : Env) : List Block → Hash → Option (ℕ × ℕ)
  | [], _ => none
  | b :: c, k =>
    (((txRows E b.height b.transactions).reverse.find? (·.1 = k)).map (·.2)).or (txLocation E c k)

/-- The outputs of a block in the order they are added. -/
def Block.outputs (b : Block) : List TxOutput := b.transactions.flatMap (·.outputs)

/-- No block above genesis repeats a transaction of its past. -/
def DistinctTxs (E : Env) (c : List Block) : Prop :=
  ∀ b r, b :: r <:+ c → r ≠ [] → ∀ tx ∈ b.transactions, txLocation E r (E.txHash tx) = none

/-- Rows in memory are on disk, and every row on disk reads back. -/
structure UtxoSet.IndexCached (u : UtxoSet) : Prop where
  onDisk : ∀ x e, u.outputIndex x = some e → u.db x = some e
  readable : ∀ x e, u.db x = some e → e.validate

/-- Made were the outputs of the chain and the disconnected ones. -/
def UtxoSet.Counts (u : UtxoSet) (c : List Block) : Prop :=
  u.totalOutputsEver = (c.map (·.outputs.length)).sum + u.reorgDisconnectsTotal ∧
    (1 < c.length → u.totalOutputsEver < 2 ^ 64)

/-- The state of the node is that of the chain. -/
structure Reflects (E : Env) (n : Node) (c : List Block) : Prop where
  replayed : Ledger.Replayed E n.ledger c
  fresh : FreshChain E c
  rows : n.ledger.RowsOf c
  cached : n.utxos.IndexCached
  counts : n.utxos.Counts c
  totals : Totals E n c
  totalBlocks : n.stats.totalBlocks = c.length
  totalTransactions : n.stats.totalTransactions = (c.map (·.transactions.length)).sum
  txIndex : ∀ k : Hash, n.db.txIndex[k]? = txLocation E c k
  distinct : DistinctTxs E c

/-- What a block must bring to be taken off again. -/
@[mk_iff] structure Undoable (E : Env) (n : Node) (b : Block) : Prop where
  newTxs : ∀ tx ∈ b.transactions, n.db.txIndex[E.txHash tx]? = none
  indices : ∀ tx ∈ b.transactions, tx.outputs.length ≤ 256
  outputs : n.utxos.totalOutputsEver + b.outputs.length < 2 ^ 64
  work : n.stats.totalDifficulty + b.work < 2 ^ 128
  window : ∀ r ∈ outputRows b.height b.transactions,
    n.utxos.db r.1 = none ∨ n.utxos.outputIndex r.1 ≠ none
  agree : RowsAgree (outputRows b.height b.transactions) fun x => n.utxos.db x = none
  readable : ∀ r ∈ outputRows b.height b.transactions, r.2.validate

instance (E : Env) (n : Node) (b : Block) : Decidable (Undoable E n b) :=
  decidable_of_iff _ (undoable_iff E n b).symm

/-! ## Freshness from validation -/

/-- Distinct transactions of at most 256 outputs have distinct output keys. -/
lemma nodup_removedKeys {txs : List Transaction} (hhash : (txs.map E.txHash).Nodup)
    (hlen : ∀ tx ∈ txs, tx.outputs.length ≤ 256) : (txs.flatMap (removedKeys E)).Nodup := by
  rw [nodup_flatMap]
  constructor
  · intro tx htx
    refine List.Nodup.map_on ?_ nodup_range
    intro i hi j hj hij
    have hle := hlen tx htx
    rw [mem_range] at hi hj
    have := (Prod.mk.inj hij).2
    omega
  · refine (pairwise_map.mp hhash).imp ?_
    intro tx tx' hne k hk hk'
    obtain ⟨i, -, rfl⟩ := mem_map.mp hk
    obtain ⟨j, -, hkey⟩ := mem_map.mp hk'
    exact hne (Prod.mk.inj hkey).1.symm

/-- The transactions of a block have a row. -/
lemma txLocation_ne_none (htx : tx ∈ b.transactions) :
    txLocation E (b :: c) (E.txHash tx) ≠ none := by
  obtain ⟨i, hi, rfl⟩ := getElem_of_mem htx
  have hrow : (E.txHash b.transactions[i], b.height, i) ∈ txRows E b.height b.transactions :=
    mem_mapIdx.mpr ⟨i, hi, rfl⟩
  have hsome : ((txRows E b.height b.transactions).reverse.find?
      (·.1 = E.txHash b.transactions[i])).isSome := by
    rw [find?_isSome]
    exact ⟨_, mem_reverse.mpr hrow, by simp⟩
  obtain ⟨r, hr⟩ := isSome_iff_exists.mp hsome
  simp [txLocation, hr]

/-- Outputs of the replay are of transactions of the chain. -/
lemma replayUtxos_outputs_eq_none (hk : txLocation E c k.1 = none) :
    (replayUtxos E c).outputs k = none := by
  induction c with
  | nil => rfl
  | cons b c ih =>
    have hnot : k ∉ (b.transactions.flatMap (newOutputs E b.height)).map (·.key) := by
      rw [map_key_adds]
      intro hmem
      obtain ⟨tx, htx, hktx⟩ := mem_flatMap.mp hmem
      exact txLocation_ne_none htx (mem_removedKeys hktx ▸ hk)
    rw [replayUtxos_cons, UtxoCore.connectBlock_eq]
    rw [UtxoCore.outputs_foldl_addOutput hnot]
    exact ih (or_eq_none_iff.mp hk).2

/-- An undoable block that passes on the tip is fresh for the chain. -/
lemma Reflects.freshFor (hm : Reflects E n c) (hR : RunsValidator R W) (hb : Passed R n b)
    (hprev : b.prevHash = n.tip.hash) (hu : Undoable E n b) :
    FreshFor E b.transactions (replayUtxos E c) := by
  have hvalid := hb.valid_tip hprev
  rw [hR.validate, validateBlockCtx_checkpoint hR.fullVerification] at hvalid
  obtain ⟨coinbase, rest, hv⟩ := validateBlockCtx_eq_nil rfl hvalid
  have hcore : n.utxos.toUtxoCore = replayUtxos E c := hm.replayed
  refine ⟨nodup_removedKeys hv.txHashes hu.indices, ?_, ?_⟩
  · intro k hk
    obtain ⟨tx, htx, hktx⟩ := mem_flatMap.mp hk
    apply replayUtxos_outputs_eq_none
    rw [mem_removedKeys hktx, ← hm.txIndex]
    exact hu.newTxs tx htx
  · rw [← hcore]
    exact hv.spentKeyImages.2

/-! ## The memory of the output index -/

lemma UtxoSet.outputIndex_of_evictOldOutputs (he : (u.evictOldOutputs h k).outputIndex x = some e) :
    u.outputIndex x = some e := by
  unfold evictOldOutputs at he
  split at he
  · exact he
  · exact (filter_eq_some_iff.mp he).1

/-- Memory and disk agree if each address is new or in memory. -/
lemma UtxoSet.IndexCached.connectBlock (hu : u.IndexCached)
    (hwindow : ∀ r ∈ outputRows b.height b.transactions, u.db r.1 = none ∨ u.outputIndex r.1 ≠ none)
    (he : (u.connectBlock E b.height b.transactions).outputIndex x = some e) :
    (u.db x).or ((outputRows b.height b.transactions).lookup x) = some e := by
  rw [outputIndex_connectBlock_eq] at he
  cases hx : u.outputIndex x with
  | some e' =>
    rw [hx] at he
    rw [hu.onDisk x e' hx]
    exact he
  | none =>
    rw [hx] at he
    -- the address is not in memory, so it is new
    have hin : x ∈ (outputRows b.height b.transactions).map (·.1) := by
      by_contra hnot
      rw [lookup_eq_none_iff_notMem.mpr hnot] at he
      simp at he
    obtain ⟨r, hr, rfl⟩ := mem_map.mp hin
    rcases hwindow r hr with hnew | hold
    · rw [hnew]
      exact he
    · exact absurd hx hold

/-- Readable rows of a block and of the disk. -/
lemma UtxoSet.IndexCached.readable_or {rows : Rows} (hu : u.IndexCached)
    (hrows : ∀ r ∈ rows, r.2.validate)
    (he : (u.db x).or (rows.lookup x) = some e) : e.validate := by
  rcases or_eq_some_iff.mp he with hdb | ⟨-, hlookup⟩
  · exact hu.readable x e hdb
  · exact hrows _ (mem_of_lookup_eq_some hlookup)

/-- An extension keeps memory and disk in agreement. -/
lemma UtxoSet.IndexCached.extend (hu : u.IndexCached)
    (hwindow : ∀ r ∈ outputRows b.height b.transactions, u.db r.1 = none ∨ u.outputIndex r.1 ≠ none)
    (hagree : RowsAgree (outputRows b.height b.transactions) fun x => u.db x = none)
    (hread : ∀ r ∈ outputRows b.height b.transactions, r.2.validate) :
    (u.extend E b).IndexCached where
  onDisk x e he := by
    rw [db_extend, commitRows_eq hagree]
    exact hu.connectBlock hwindow (outputIndex_of_evictOldOutputs he)
  readable x e he := by
    rw [db_extend, commitRows_eq hagree] at he
    exact hu.readable_or hread he

/-- A removal takes the row out of memory and off the disk. -/
lemma UtxoSet.IndexCached.disconnectBlock (hu : u.IndexCached)
    (txs : List Transaction) : (u.disconnectBlock E txs).IndexCached := by
  obtain ⟨t, ht⟩ := disconnectBlock_eq u txs u.keyImages
  have hremoved : ((txs.flatMap (removedKeys E)).foldl removeOutput u).IndexCached := by
    refine foldlRecOn (motive := UtxoSet.IndexCached) _ removeOutput hu fun u h k _ => ⟨?_, ?_⟩
    · intro x e he
      change (if u.owns k x then none else u.outputIndex x) = some e at he
      show (if u.owns k x then none else u.db x) = some e
      split_ifs at he ⊢
      exact h.onDisk x e he
    · intro x e he
      change (if u.owns k x then none else u.db x) = some e at he
      split_ifs at he
      exact h.readable x e he
  rw [ht]
  exact ⟨hremoved.onDisk, hremoved.readable⟩

/-! ## Counting outputs -/

lemma length_adds (h : ℕ) (b : Block) :
    (b.transactions.flatMap (newOutputs E h)).length = b.outputs.length := by
  rw [Block.outputs, length_flatMap, length_flatMap]
  congr 1
  apply map_congr_left
  intro tx _
  exact length_mapIdx

lemma UtxoSet.counters_connectBlock (u : UtxoSet) (h : ℕ) (b : Block) :
    (u.connectBlock E h b.transactions).totalOutputsEver = u.totalOutputsEver + b.outputs.length ∧
      (u.connectBlock E h b.transactions).reorgDisconnectsTotal = u.reorgDisconnectsTotal := by
  rw [connectBlock_eq, foldl_addOutputExt, ← length_adds h]
  exact ⟨rfl, rfl⟩

/-- Midway every removal finds its output, and is counted. -/
lemma UtxoSet.counters_foldl_removeOutput (hcore : u.toUtxoCore = UtxoCore.midway u0 added left)
    (hadd : (added.map (·.key)).Nodup) (hun : ∀ a ∈ added, u0.Unused a.key)
    (hsub : left.Sublist added) (hfits : u.reorgDisconnectsTotal + left.length < 2 ^ 64) :
    ((left.map (·.key)).foldl removeOutput u).totalOutputsEver = u.totalOutputsEver ∧
      ((left.map (·.key)).foldl removeOutput u).reorgDisconnectsTotal
        = u.reorgDisconnectsTotal + left.length := by
  induction left generalizing u with
  | nil => exact ⟨rfl, rfl⟩
  | cons a left ih =>
    obtain ⟨hcore', haddr⟩ := removeOutput_midway hcore hadd hun hsub
    rw [length_cons] at hfits
    have hone : (u.removeOutput a.key).reorgDisconnectsTotal = u.reorgDisconnectsTotal + 1 := by
      show (if (u.addressOf a.key).isSome then _ else _) = _
      rw [haddr]
      exact MachineInt.satAdd_of_lt (by omega)
    obtain ⟨hever, hdisc⟩ := ih hcore' ((sublist_cons_self a left).trans hsub)
      (by rw [hone]; omega)
    rw [length_cons]
    refine ⟨hever, hdisc.trans ?_⟩
    omega

/-- An extension keeps the count. -/
lemma UtxoSet.Counts.extend (hu : u.Counts c)
    (hfits : u.totalOutputsEver + b.outputs.length < 2 ^ 64) : (u.extend E b).Counts (b :: c) := by
  obtain ⟨hever, hdisc⟩ := counters_extend u b
  rw [length_adds] at hever
  refine ⟨?_, fun _ => hever ▸ hfits⟩
  rw [hever, hu.1, map_cons, sum_cons]
  omega

/-- So does a disconnection. -/
lemma Ledger.Replayed.counts_disconnect (hl : Ledger.Replayed E l (b :: c))
    (hf : FreshFor E b.transactions (replayUtxos E c)) (hc : c ≠ [])
    (hcounts : l.utxos.Counts (b :: c)) (hd : l.disconnect E h b = some l') :
    l'.utxos.Counts c := by
  obtain ⟨-, -, hu, -⟩ := disconnect_eq_some hd
  obtain ⟨t, ht⟩ := disconnectBlock_eq l.utxos b.transactions
    (replayUtxos E c).keyImages
  obtain ⟨hsum, hbound⟩ := hcounts
  have hpos := length_pos_of_ne_nil hc
  have hbound := hbound (by rw [length_cons]; omega)
  rw [map_cons, sum_cons] at hsum
  have hlen := length_adds (E := E) b.height b
  have hkeys := map_key_adds E b.height b.transactions
  obtain ⟨hever, hdisc⟩ := counters_foldl_removeOutput
    (toUtxoCore_eq_midway hl hf.nodup)
    (hkeys ▸ hf.nodup) hf.unused (List.Sublist.refl _)
    (by rw [hlen]; show l.utxos.reorgDisconnectsTotal + _ < _; omega)
  rw [hkeys] at hever hdisc
  rw [hlen] at hdisc
  have hever' : l'.utxos.totalOutputsEver = l.utxos.totalOutputsEver := by
    rw [hu, ht]
    exact hever
  have hdisc' : l'.utxos.reorgDisconnectsTotal
      = l.utxos.reorgDisconnectsTotal + b.outputs.length := by
    rw [hu, ht]
    exact hdisc
  refine ⟨?_, fun _ => hever' ▸ hbound⟩
  omega

/-! ## The state along extensions and rollbacks -/

/-- An undoable extension keeps it. -/
lemma Reflects.extended (hm : Reflects E n c) (hR : RunsValidator R W) (hn : ChainInv R n c)
    (hu : Undoable E n b) (h : extendBy R n b = some n') : Reflects E n' (b :: c) := by
  obtain ⟨hadded, hb, hprev, hutxos, l, hforget⟩ := extendBy_eq_some hn h
  have hfresh := hm.freshFor hR hb hprev hu
  have hcore : n.utxos.toUtxoCore = replayUtxos E c := hm.replayed
  have hfits : WorkFits E n b := by
    refine hn.workFits_of_tip hprev ?_
    have hheight : b.height = c.length := (hn.lineage_tip hb hprev).height_head
    have hpos := length_pos_of_ne_nil hn.chain.ne_nil
    have hw : b.weight = b.work := if_neg (by omega)
    have hwork := hu.work
    rw [hm.totals.work] at hwork
    rw [chainWork_cons]
    omega
  exact {
    replayed := by
      show n'.utxos.toUtxoCore = _
      rw [hutxos, toUtxoCore_extend, hcore, replayUtxos_cons]
    fresh := hm.fresh.cons hfresh
    rows := by
      intro x
      show n'.utxos.db x = _
      rw [hutxos, db_extend, commitRows_eq hu.agree, oldestRow_reverse_cons, ← hm.rows x]
      rfl
    cached := by
      rw [hutxos]
      exact hm.cached.extend hu.window hu.agree hu.readable
    counts := by
      rw [hutxos]
      exact hm.counts.extend hu.outputs
    totals := hadded.totals hn hm.totals hfits
    totalBlocks := by
      rw [hforget.eq]
      show n.stats.totalBlocks + 1 = _
      rw [hm.totalBlocks, length_cons]
    totalTransactions := by
      rw [hforget.eq]
      show n.stats.totalTransactions + b.transactions.length = _
      rw [hm.totalTransactions, map_cons, sum_cons, add_comm]
    txIndex := by
      intro k
      rw [hforget.eq]
      show (insertAll n.db.txIndex (txRows E b.height b.transactions))[k]? = _
      rw [getElem?_insertAll, hm.txIndex, txLocation]
    distinct := by
      intro x r hx hne tx htx
      rcases suffix_cons_iff.mp hx with heq | hx
      · obtain ⟨rfl, rfl⟩ := cons.inj heq
        rw [← hm.txIndex]
        exact hu.newTxs tx htx
      · exact hm.distinct x r hx hne tx htx }

/-- The index rows of the blocks above `t` go with them. -/
lemma DistinctTxs.txLocation_append (hd : DistinctTxs E (o ++ t :: s)) (k : Hash) :
    (if k ∈ o.flatMap (·.transactions.map E.txHash) then none else txLocation E (o ++ t :: s) k)
      = txLocation E (t :: s) k := by
  induction o with
  | nil => simp
  | cons x o ih =>
    have hrest := ih fun b r hb => hd b r (hb.trans (suffix_cons x _))
    have hx := hd x (o ++ t :: s) (suffix_refl _) (by simp)
    rw [flatMap_cons, ← hrest]
    by_cases hin : k ∈ x.transactions.map E.txHash
    · obtain ⟨tx, htx, rfl⟩ := mem_map.mp hin
      rw [if_pos (mem_append_left _ hin), hx tx htx, ite_self]
    · have hnone : (txRows E x.height x.transactions).reverse.find? (·.1 = k) = none := by
        rw [find?_eq_none]
        rintro ⟨k', p⟩ hmem
        rw [mem_reverse, txRows, mem_mapIdx] at hmem
        obtain ⟨i, hi, heq⟩ := hmem
        obtain ⟨rfl, -⟩ := Prod.mk.inj heq
        simp only [decide_eq_true_eq]
        rintro rfl
        exact hin (mem_map_of_mem (getElem_mem hi))
      rw [cons_append, txLocation, hnone, map_none, none_or]
      simp only [mem_append, hin, false_or]

lemma Reflects.rolledBack (hm : Reflects E n (o ++ t :: s)) (hn : ChainInv R n (o ++ t :: s))
    (hl : Ledger.disconnectAll E o n.ledger = some l) :
    Reflects E (n.rolledBack E o t l) (t :: s) := by
  -- what the disconnect loop keeps of the UTXO set
  have hutxos := Ledger.disconnectAll_rule
    (P := fun l r => Ledger.Replayed E l r ∧ l.utxos.IndexCached ∧ l.utxos.Counts r) ?_
    ⟨hm.replayed, hm.cached, hm.counts⟩ hl
  · exact {
      replayed := hutxos.1
      fresh := hm.fresh.suffix (suffix_append _ _)
      rows := hm.rows.disconnectAll hm.replayed hm.fresh hl
      cached := hutxos.2.1
      counts := hutxos.2.2
      totals := hm.totals.rolledBack hn hl
      totalBlocks := by
        show n.stats.totalBlocks - o.length = _
        rw [hm.totalBlocks, length_append, Nat.add_sub_cancel_left]
      totalTransactions := by
        show n.stats.totalTransactions - (o.map (·.transactions.length)).sum = _
        rw [hm.totalTransactions, map_append, sum_append, Nat.add_sub_cancel_left]
      txIndex := by
        intro k
        show (eraseAll (eraseAll n.db.txIndex (o.flatMap (·.transactions.map E.txHash)))
          ((o.flatMap (·.transactions)).map E.txHash))[k]? = _
        rw [getElem?_eraseAll, getElem?_eraseAll, hm.txIndex, map_flatMap,
          ← hm.distinct.txLocation_append]
        -- the loop and the end of the call drop the same rows
        split <;> rfl
      distinct := fun b r hb => hm.distinct b r (hb.trans (suffix_append _ _)) }
  rintro l l' x r hsuf hts ⟨hrep, hcached, hcounts⟩ hd
  have hne : r ≠ [] := hts.ne_nil (cons_ne_nil _ _)
  have hf := hm.fresh x r hsuf hne
  refine ⟨hrep.disconnect hf hd, ?_, hrep.counts_disconnect hf hne hcounts hd⟩
  rw [(Ledger.disconnect_eq_some hd).2.2.1]
  exact hcached.disconnectBlock x.transactions

/-! ## The rollback of a grown chain -/

/-- Then the index answers with the disk. -/
lemma UtxoSet.IndexCached.getOutputIndexEntry_eq (hu : u.IndexCached) :
    u.getOutputIndexEntry = u.db := by
  funext x
  have hread : (u.db x).filter (·.validate) = u.db x := by
    cases hdb : u.db x with
    | none => rfl
    | some e => rw [filter_some, if_pos (hu.readable x e hdb)]
  rw [getOutputIndexEntry, hread]
  cases hx : u.outputIndex x with
  | none => rfl
  | some e => rw [hu.onDisk x e hx, some_or]

end CoinCync

import CoinCync.Rollback
import CoinCync.Transitions

/-!
# Rolling back an intact chain

On a node with a canonical chain every height of the rollback loop resolves, so the loop runs
`Ledger.disconnectAll` over the blocks above the target.
-/

namespace CoinCync

open List Option Table Node Ledger

variable {E : Env} {R : Rules E} {n : Node} {t : Block} {c o s : List Block} {l : Ledger}

/-! ## The loop -/

/-- Cache and database resolve heights and bodies of `o`. -/
def Resolved (E : Env) (n : Node) (o : List Block) : Prop :=
  ∀ x ∈ o, n.getBlockHash x.height = some (E.blockHash x) ∧ n.getBlock (E.blockHash x) = some x

/-- The node with `o` taken off, and ledger `l`. -/
def Node.rolledOff (E : Env) (n : Node) (o : List Block) (l : Ledger) : Node :=
  { n with
    heightToHash := eraseAll n.heightToHash (o.map (·.height))
    stats := { n.stats with
      totalSupply := l.supply
      totalBurned := l.burned
      totalDifficulty := n.stats.totalDifficulty - (o.map Block.work).sum
      totalBlocks := n.stats.totalBlocks - o.length
      totalTransactions := n.stats.totalTransactions - (o.map (·.transactions.length)).sum }
    utxos := l.utxos
    sparkPool := l.pool
    db := { n.db with
      txIndex := eraseAll n.db.txIndex (o.flatMap (·.transactions.map E.txHash)) } }

lemma Node.rolledOff_cons (n : Node) (x : Block) (o : List Block) (l1 l : Ledger) :
    (n.rolledOff E [x] l1).rolledOff E o l = n.rolledOff E (x :: o) l := by
  have htx : eraseAll n.db.txIndex ((x :: o).flatMap (·.transactions.map E.txHash))
      = eraseAll (eraseAll n.db.txIndex (x.transactions.map E.txHash))
        (o.flatMap (·.transactions.map E.txHash)) := by
    exact foldl_append
  simp only [rolledOff, htx, flatMap_singleton, map_cons, map_nil, sum_cons,
    sum_nil, length_cons, length_nil, add_zero, zero_add, Nat.sub_sub,
    add_comm o.length]
  rfl

/-- One iteration on the ledger. -/
lemma Node.rollbackBlock_eq (n : Node) (x : Block) :
    (n.rollbackBlock E x.height x).map (·.unmapHeight x.height)
      = (n.ledger.disconnect E x.height x).map (n.rolledOff E [x]) := by
  rw [rollbackBlock, disconnectState_eq]
  cases n.ledger.disconnect E x.height x with
  | none => rfl
  | some l =>
    simp only [map_some, bind_eq_bind, bind_some, rolledOff,
      flatMap_singleton, map_cons, map_nil, sum_cons, sum_nil,
      add_zero]
    rfl

/-- The other blocks stay resolved. -/
lemma Resolved.rolledOff (hres : Resolved E n (x :: o)) (hne : x.height ∉ o.map (·.height)) :
    Resolved E (n.rolledOff E [x] l1) o := by
  intro y hy
  refine ⟨?_, (hres y (mem_cons_of_mem _ hy)).2⟩
  have hyx : y.height ≠ x.height := fun e => hne (e ▸ mem_map_of_mem hy)
  have hmap : (n.rolledOff E [x] l1).heightToHash[y.height]? = n.heightToHash[y.height]? := by
    change (eraseAll n.heightToHash [x.height])[y.height]? = _
    rw [getElem?_eraseAll, if_neg (by simpa using hyx)]
  have hy' := (hres y (mem_cons_of_mem _ hy)).1
  unfold getBlockHash at hy' ⊢
  rw [hmap]
  exact hy'

/-- The loop over resolved blocks. -/
lemma rollbackLoop_eq (hres : Resolved E n o) (hnd : (o.map (·.height)).Nodup)
    (orphaned : List Transaction) :
    rollbackLoop E (o.map (·.height)) n orphaned
      = (disconnectAll E o n.ledger).map fun l =>
        (n.rolledOff E o l, .ok (orphaned ++ o.flatMap (·.transactions))) := by
  induction o generalizing n orphaned with
  | nil =>
    simp only [map_nil, disconnectAll_nil, flatMap_nil, append_nil]
    rfl
  | cons x o ih =>
    obtain ⟨hhash, hbody⟩ := hres x (by simp)
    rw [map_cons, nodup_cons] at hnd
    have hstep : rollbackLoop E ((x :: o).map (·.height)) n orphaned
        = ((n.rollbackBlock E x.height x).map (·.unmapHeight x.height)).bind fun m =>
          rollbackLoop E (o.map (·.height)) m (orphaned ++ x.transactions) := by
      rw [map_cons, rollbackLoop]
      simp only [hhash, hbody, bind_map]
      rfl
    rw [hstep, rollbackBlock_eq, disconnectAll_cons]
    cases n.ledger.disconnect E x.height x with
    | none => rfl
    | some l1 =>
      rw [map_some, bind_some, ih (hres.rolledOff hnd.1) hnd.2]
      simp only [rolledOff_cons, append_assoc]
      rfl

/-- Canonical blocks resolve. -/
lemma ChainInv.resolved (hn : ChainInv R n c) (hsub : ∀ x ∈ o, x ∈ c) : Resolved E n o := by
  intro x hx
  rw [hn.getBlockHash_eq, hn.atHeight_of_mem (hsub x hx), hn.getBlock_eq]
  exact ⟨rfl, hn.get_of_mem (hsub x hx)⟩

/-! ## The call -/

/-- The node rolled back to `t`, with ledger `l`. -/
def Node.rolledBack (E : Env) (n : Node) (o : List Block) (t : Block) (l : Ledger) : Node :=
  persistRollback E
    { n.rolledOff E o l with
      tip := chainTip E t
      stats := { (n.rolledOff E o l).stats with height := t.height, tipHash := E.blockHash t } }
    t.height (o.flatMap (·.transactions))

/-- The canonical chain at a height. -/
lemma ChainInv.exists_split (hn : ChainInv R n c) (hh : h ≤ n.tip.height) :
    ∃ o t s, c = o ++ t :: s ∧ t.height = h := by
  obtain ⟨a, r, rfl, -, -, ha⟩ := hn.exists_head
  obtain ⟨t, ht⟩ := hn.chain.exists_atHeight (by change h ≤ a.height; omega)
  obtain ⟨hmem, hth⟩ := hn.mem_of_atHeight ht
  obtain ⟨o, s, hc⟩ := append_of_mem hmem
  exact ⟨o, t, s, hc, hth⟩

/-- The target is still resolved, so the tip moves to it. -/
lemma ChainInv.moveTipTo_rolledOff (hn : ChainInv R n (o ++ t :: s)) (l : Ledger) :
    (n.rolledOff E o l).moveTipTo t.height
      = { n.rolledOff E o l with
          tip := chainTip E t
          stats := { (n.rolledOff E o l).stats with
            height := t.height, tipHash := E.blockHash t } } := by
  obtain ⟨hhash, hbody⟩ := hn.resolved (o := [t]) (fun x hx => by simp_all) t (by simp)
  have hkeep : (n.rolledOff E o l).heightToHash[t.height]? = n.heightToHash[t.height]? := by
    have := hn.heightToHash_disconnected l t.height
    rwa [if_neg (lt_irrefl _)] at this
  have hhash' : (n.rolledOff E o l).getBlockHash t.height = some (E.blockHash t) := by
    unfold getBlockHash at hhash ⊢
    rw [hkeep]
    exact hhash
  have hbody' : (n.rolledOff E o l).getBlock (E.blockHash t) = some t := hbody
  simp only [moveTipTo, hhash', hbody']
  rfl

/-- A rollback not refused takes off the blocks above. -/
lemma rollbackToHeight_taken (hn : ChainInv R n (o ++ t :: s)) (hlt : t.height < n.tip.height)
    (hcheckpoint : n.db.lastCheckpoint ≤ t.height)
    (h : rollbackToHeight E n t.height = some (n', r)) :
    ∃ l, disconnectAll E o n.ledger = some l ∧ n' = n.rolledBack E o t l ∧
      r = .ok ((o.flatMap (·.transactions)).filter (!·.isCoinbase)) := by
  have hres : Resolved E n o := hn.resolved fun x hx => mem_append_left _ hx
  rw [rollbackToHeight, if_neg (by omega), if_neg (by omega), hn.heightsAbove_eq,
    rollbackLoop_eq hres hn.nodup_above] at h
  cases hl : disconnectAll E o n.ledger with
  | none =>
    rw [hl] at h
    simp at h
  | some l =>
    rw [hl] at h
    cases h
    refine ⟨l, rfl, ?_, rfl⟩
    rw [hn.moveTipTo_rolledOff]
    rfl

/-- A rollback refuses, has nothing to do, or takes off the blocks above. -/
lemma rollbackToHeight_cases (hn : ChainInv R n c)
    (h : rollbackToHeight E n target = some (n', r)) :
    n' = n ∨ ∃ o t s l, c = o ++ t :: s ∧ t.height = target ∧
      disconnectAll E o n.ledger = some l ∧ n' = n.rolledBack E o t l ∧
      r = .ok ((o.flatMap (·.transactions)).filter (!·.isCoinbase)) := by
  by_cases hlt : n.tip.height ≤ target
  · rw [rollbackToHeight, if_pos hlt] at h
    exact .inl (Prod.mk.inj (some.inj h)).1.symm
  by_cases hcp : target < n.db.lastCheckpoint
  · rw [rollbackToHeight, if_neg hlt, if_pos hcp] at h
    exact .inl (Prod.mk.inj (some.inj h)).1.symm
  obtain ⟨o, t, s, rfl, rfl⟩ := hn.exists_split (Nat.le_of_not_le hlt)
  obtain ⟨l, hl, hn', hr⟩ := rollbackToHeight_taken hn (by omega) (by omega) h
  exact .inr ⟨o, t, s, l, rfl, rfl, hl, hn', hr⟩

/-! ## The chain it leaves -/

lemma Database.heightIndex_removeHeightsAbove (db : Database) (target h : ℕ) :
    (db.removeHeightsAbove target).heightIndex[h]?
      = if target < h then none else db.heightIndex[h]? := by
  change (eraseAll db.heightIndex (db.heightIndex.keys.filter (target < ·)))[h]? = _
  rw [getElem?_eraseAll]
  by_cases hlo : target < h
  · rw [if_pos hlo]
    by_cases hmem : h ∈ db.heightIndex
    · rw [if_pos (by simpa [hlo] using hmem)]
    · rw [Std.TreeMap.getElem?_eq_none hmem, ite_self]
  · rw [if_neg hlo, if_neg (by simp [hlo])]

/-- The canonical chain after a rollback. -/
lemma ChainInv.rolledBack (hn : ChainInv R n (o ++ t :: s)) (l : Ledger) :
    ChainInv R (n.rolledBack E o t l) (t :: s) := by
  have hindex : ∀ h : ℕ, (n.rolledBack E o t l).db.heightIndex[h]?
      = (atHeight E.linking (t :: s) h).map E.blockHash := by
    intro h
    change (n.db.removeHeightsAbove t.height).heightIndex[h]? = _
    rw [Database.heightIndex_removeHeightsAbove, hn.index]
    by_cases hlo : t.height < h
    · obtain ⟨k, hk⟩ := hn.chain.suffix
      rw [if_pos hlo, hk.atHeight_eq_none hlo]
      rfl
    · have hle : h ≤ E.linking.height t := Nat.le_of_not_lt hlo
      rw [if_neg hlo, (hn.chain.atHeight_append_of_le hle).2]
  have hts := hn.chain.suffix_hash hn.key
  exact { hn with
    chain := hts
    tip_height := congrArg (· + 1) hts.height_head
    index := hindex
    height_map := by
      intro h k hk
      have hk' : (n.disconnected o l).heightToHash[h]? = some k := hk
      rw [hn.heightToHash_disconnected] at hk'
      split at hk'
      · simp at hk'
      · rename_i hlo
        change (n.db.removeHeightsAbove t.height).heightIndex[h]? = some k
        rw [Database.heightIndex_removeHeightsAbove, if_neg hlo]
        exact hn.height_map h k hk'
    stats_height := rfl
    stats_hash := rfl
    saved := ⟨_, rfl, rfl, rfl⟩ }

end CoinCync

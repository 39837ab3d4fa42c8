import CoinCync.ReorgPhases
import Mathlib.Data.List.MinMax

/-!
# The reorganisation as a whole

From a node whose canonical chain is `o ++ t :: s`, with `o` cached, a reorganisation to the branch
`f ++ t :: s` below `b` either fails and leaves the old node up to what its ledger went through
(`Restored`), or ends on `b :: f ++ t :: s` (`Node.reorged`, which keeps `ChainInv`).
-/

namespace CoinCync

open List Option Function Table Node Ledger

variable {E : Env} {R : Rules E} {n n' : Node} {b t : Block} {c o f g s : List Block}
  {l l1 l2 l3 : Ledger}

lemma Node.forkChainLoop_congr {m : Node} (hm : ∀ k, m.getBlock k = n.getBlock k) (fp fuel : ℕ)
    (visited : List Hash) (k : Hash) :
    m.forkChainLoop fp fuel visited k = n.forkChainLoop fp fuel visited k := by
  induction fuel generalizing visited k with
  | zero => rfl
  | succ fuel ih =>
    simp only [forkChainLoop, hm]
    split
    · rfl
    · cases n.getBlock k with
      | none => rfl
      | some x =>
        simp only
        rw [ih]

/-- Collecting the fork finds the same before and after disconnecting. -/
lemma ForkAt.collectForkChain_eq (hf : ForkAt E n c b o f t s) (hn : ChainInv R n c) :
    (n.disconnected o l).collectForkChain b t.height = f.reverse := by
  have hcongr : (n.disconnected o l).collectForkChain b t.height
      = n.collectForkChain b t.height := by
    have hget : ∀ k, (n.disconnected o l).getBlock k = n.getBlock k := fun _ => rfl
    exact congrArg reverse (forkChainLoop_congr hget _ _ _ _)
  rw [hcongr, hn.collectForkChain_eq hf.branch]

/-! ## Failure -/

/-- After a failure: the old node, with `o` put back on the ledger `l`. -/
structure Restored (E : Env) (n : Node) (o : List Block) (l : Ledger) (n' : Node) : Prop where
  eq : n' = { n with
    heightToHash := n'.heightToHash
    utxos := (o.reverse.foldl (reapply E) l).utxos
    sparkPool := (o.reverse.foldl (reapply E) l).pool }
  heights : ∀ h : ℕ, n'.heightToHash[h]? = n.heightToHash[h]?

/-- The common end of both rollback paths. -/
lemma restoreMainChain_restored (hn : ChainInv R n (o ++ t :: s)) (hcov : Covered E n o)
    (hg : ∀ x ∈ g, t.height < x.height ∧ x.height ≤ top) :
    Restored E n o l3 (restoreMainChain E n (((n.disconnected o l1).connected E g l2).withLedger l3)
      t.height top (({} : Disconnected).pushAll E o)) := by
  set m : Node := { ((n.disconnected o l1).connected E g l2).withLedger l3 with
    heightToHash := eraseAll ((n.disconnected o l1).connected E g l2).heightToHash
      (heightsAbove t.height top) }
  have hloop : (({} : Disconnected).pushAll E o).heights.reverse.foldl (reapplyMainBlock E) m
      = m.connected E o.reverse (o.reverse.foldl (reapply E) m.ledger) := by
    rw [show (({} : Disconnected).pushAll E o).heights.reverse
      = o.reverse.map fun x => (x.height, E.blockHash x) by simp [Disconnected.pushAll]]
    exact reapplyLoop_eq fun x hx => (hcov x (mem_reverse.mp hx)).2
  have heq : restoreMainChain E n (((n.disconnected o l1).connected E g l2).withLedger l3)
      t.height top (({} : Disconnected).pushAll E o)
      = { m.connected E o.reverse (o.reverse.foldl (reapply E) m.ledger) with
          tip := n.tip, stats := n.stats } := by
    rw [← hloop]
    rfl
  rw [heq]
  refine ⟨rfl, fun h => ?_⟩
  -- the fork's entries are gone, and so are those of the disconnected blocks
  have hm : m.heightToHash[h]? = if t.height < h then none else n.heightToHash[h]? := by
    change (eraseAll (insertAll (n.disconnected o l1).heightToHash
      (g.map fun x => (x.height, E.blockHash x))) (heightsAbove t.height top))[h]? = _
    rw [getElem?_eraseAll_heightsAbove, getElem?_insertAll_heights, hn.heightToHash_disconnected]
    by_cases hin : t.height < h ∧ h ≤ top
    · rw [if_pos hin, if_pos hin.1]
    · have hnone : atHeight E.linking g.reverse h = none := by
        rw [atHeight_eq_none_iff]
        rintro x hx rfl
        exact hin (hg x (mem_reverse.mp hx))
      rw [if_neg hin, hnone]
      rfl
  change (insertAll m.heightToHash (o.reverse.map fun x => (x.height, E.blockHash x)))[h]? = _
  rw [getElem?_insertAll_heights, reverse_reverse, hm]
  split_ifs with hlo
  · -- above the fork: the disconnected blocks are mapped again, nothing else is
    rw [← hn.chain.atHeight_append_of_lt hlo]
    cases hat : atHeight E.linking (o ++ t :: s) h with
    | none =>
      refine (eq_none_iff_forall_ne_some.mpr fun k hk => ?_).symm
      have hidx := hn.height_map h k hk
      rw [hn.index, hat] at hidx
      cases hidx
    | some x =>
      have hxo : x ∈ o := mem_of_find?_eq_some ((hn.chain.atHeight_append_of_lt hlo).symm.trans hat)
      obtain ⟨-, rfl⟩ := hn.mem_of_atHeight hat
      rw [(hcov x hxo).1]
      rfl
  · rw [(hn.chain.atHeight_append_of_le (Nat.le_of_not_lt hlo)).1]
    rfl

section Rollback

variable {rest : List Block}

/-- The branch lies above the fork and below the block. -/
lemma ForkAt.height_of_mem (hf : ForkAt E n c b o f t s) (hx : x ∈ f) :
    t.height < x.height ∧ x.height < b.height := by
  refine ⟨hf.branch.height_lt_of_mem_above hx, ?_⟩
  rw [hf.height]
  exact hf.branch.height_lt_length (mem_append_left _ hx)

lemma ForkAt.nodup_heights (hf : ForkAt E n c b o f t s) : (f.map (·.height)).Nodup := by
  have h : ((f ++ t :: s).map (·.height)).Nodup := hf.branch.nodup_map_height
  exact ((sublist_append_left _ _).map _).nodup h

/-- Path A undoes the connected part of the fork. -/
lemma rollbackA_restored (hn : ChainInv R n c) (hf : ForkAt E n c b o f t s)
    (hcov : Covered E n o) (hg : f.reverse = g ++ rest)
    (h : rollbackA E n ((n.disconnected o l1).connected E g l2) t.height f.reverse
      (({} : Disconnected).pushAll E o) = some n') :
    ∃ l3, disconnectAll E g.reverse l2 = some l3 ∧ Restored E n o l3 n' := by
  have hc : c = o ++ t :: s := hf.chain
  subst hc
  have hfg : f = rest.reverse ++ g.reverse := by
    rw [← reverse_append, ← hg, reverse_reverse]
  have hnd := hf.nodup_heights
  rw [hfg, map_append, nodup_append] at hnd
  obtain ⟨-, hndg, hdisj⟩ := hnd
  have hmemf : ∀ x ∈ g, x ∈ f := fun x hx => by
    rw [hfg]
    exact mem_append_right _ (mem_reverse.mpr hx)
  set m := (n.disconnected o l1).connected E g l2
  have hlook : ∀ h : ℕ, m.heightToHash[h]? = ((atHeight E.linking g.reverse h).map E.blockHash).or
      (if t.height < h then none else n.heightToHash[h]?) := by
    intro h
    rw [← hn.heightToHash_disconnected l1]
    exact getElem?_insertAll_heights _ _ _
  have hskip : rest.reverse.foldlM (undoIfMapped E) m = some m := by
    apply undoIfMapped_skip
    intro x hx
    have hxf : x ∈ f := by
      rw [hfg]
      exact mem_append_left _ hx
    have hnone : atHeight E.linking g.reverse x.height = none := by
      rw [atHeight_eq_none_iff]
      intro y hy
      exact fun e => hdisj _ (mem_map_of_mem hx) _ (mem_map_of_mem hy) e.symm
    rw [hlook, hnone, if_pos (hf.height_of_mem hxf).1]
    simp
  have hundo : g.reverse.foldlM (undoIfMapped E) m
      = (disconnectAll E g.reverse m.ledger).map m.withLedger := by
    apply undoIfMapped_eq
    intro x hx
    have hat : atHeight E.linking g.reverse x.height = some x :=
      (atHeight_eq_some_of_nodup hndg).mpr ⟨hx, rfl⟩
    rw [hlook, hat]
    rfl
  rw [rollbackA, reverse_reverse, hfg, foldlM_append, hskip] at h
  simp only [bind_eq_bind, bind_some, hundo, bind_map,
    bind_eq_some_iff, comp_apply, some.injEq] at h
  obtain ⟨l3, hl3, rfl⟩ := h
  refine ⟨l3, hl3, restoreMainChain_restored hn hcov fun x hx => ⟨(hf.height_of_mem (hmemf x hx)).1, ?_⟩⟩
  refine le_trans ?_ (le_max_right _ _)
  have hmem : x.height ∈ (rest.reverse ++ g.reverse).reverse.map (·.height) := by
    refine mem_map_of_mem ?_
    simpa using Or.inl hx
  exact le_max_of_le' _ hmem le_rfl

/-- Path B undoes the whole fork. -/
lemma rollbackB_restored (hn : ChainInv R n c) (hf : ForkAt E n c b o f t s) (hcov : Covered E n o)
    (h : rollbackB E n ((n.disconnected o l1).connected E f.reverse l2) t.height f.reverse b
      (({} : Disconnected).pushAll E o) = some n') :
    ∃ l3, disconnectAll E f.reverse.reverse l2 = some l3 ∧ Restored E n o l3 n' := by
  have hc : c = o ++ t :: s := hf.chain
  subst hc
  simp only [rollbackB, undoForkBlocks_eq, bind_eq_bind, bind_map, bind_eq_some_iff,
    comp_apply, some.injEq] at h
  obtain ⟨l3, hl3, rfl⟩ := h
  refine ⟨l3, hl3, restoreMainChain_restored hn hcov fun x hx => ?_⟩
  obtain ⟨hlo, hhi⟩ := hf.height_of_mem (mem_reverse.mp hx)
  exact ⟨hlo, le_trans (le_of_lt hhi) (le_max_right _ _)⟩

end Rollback

/-! ## Success -/

/-- The blocks a reorganisation connects, ascending. -/
def newBranch (f : List Block) (b : Block) : List Block := f.reverse ++ [b]

lemma reverse_newBranch (f : List Block) (b : Block) : (newBranch f b).reverse = b :: f := by
  simp [newBranch]

/-- The node with `o` taken off, `f` and `b` put on, and ledger `l`. -/
def Node.reorged (E : Env) (n : Node) (b : Block) (o f : List Block) (l : Ledger) : Node :=
  let connected := newBranch f b
  let heights := connected.map fun x => (x.height, E.blockHash x)
  { n with
    heightToHash := insertAll (eraseAll n.heightToHash (o.map (·.height))) heights
    tip := chainTip E b
    stats := {
      height := b.height
      totalBlocks := reorgCounter n.stats.totalBlocks o.length connected.length
      totalTransactions := reorgCounter n.stats.totalTransactions
        (o.map (·.transactions.length)).sum (connected.map (·.transactions.length)).sum
      totalSupply := l.supply
      totalBurned := l.burned
      difficulty := b.work
      tipHash := E.blockHash b
      totalDifficulty := n.calculateForkCumulativeWork b }
    utxos := { l.utxos with
      db := reorgRows l.utxos.db (removedAddresses (o.map (·.transactions)))
        (connected.flatMap fun x => outputRows x.height x.transactions) }
    sparkPool := l.pool
    db := { n.db with
      heightIndex := eraseAll (insertAll n.db.heightIndex heights)
        (heightsAbove b.height n.tip.height)
      state := some {
        tipHash := E.blockHash b
        height := b.height
        totalDifficulty := n.calculateForkCumulativeWork b
        totalSupply := l.supply
        totalBurned := l.burned % 2 ^ 64
        lastCheckpoint := n.db.lastCheckpoint }
      txIndex := insertAll
        (eraseAll n.db.txIndex ((o.map (·.transactions)).flatMap (·.map E.txHash)))
        (connected.flatMap fun x => txRows E x.height x.transactions) } }

/-- The end of a successful one. -/
lemma applyReorgTip_commitReorg (hwork : work = n.calculateForkCumulativeWork b)
    (h : ((n.disconnected o l1).connected E f.reverse l2).applyReorgTip E b f.reverse work
      (({} : Disconnected).pushAll E o) = some n3) :
    ∃ l3, l2.connect E b = some l3 ∧
      n3.commitReorg E b f.reverse n.tip.height (({} : Disconnected).pushAll E o)
        = n.reorged E b o f l3 := by
  unfold applyReorgTip at h
  simp only [connectState_eq, bind_eq_bind, bind_map, bind_eq_some_iff, comp_apply, some.injEq] at h
  obtain ⟨l3, hl3, rfl⟩ := h
  refine ⟨l3, hl3, ?_⟩
  subst hwork
  have hmap : insertAll (eraseAll n.heightToHash (o.map (·.height)))
      ((newBranch f b).map fun x => (x.height, E.blockHash x))
      = (insertAll (eraseAll n.heightToHash (o.map (·.height)))
        (f.reverse.map fun x => (x.height, E.blockHash x))).insert b.height (E.blockHash b) := by
    simp [newBranch, insertAll]
  simp only [reorged, hmap]
  simp only [commitReorg, connected, disconnected, withLedger, mapHeight,
    Disconnected.pushAll, stateFor, newBranch, nil_append, zero_add,
    length_append, length_reverse, length_singleton]

/-- The canonical chain after a reorganisation. -/
lemma ChainInv.reorged (hn : ChainInv R n c) (hf : ForkAt E n c b o f t s)
    (hb : n.db.get (E.blockHash b) = some b) (l : Ledger) :
    ChainInv R (n.reorged E b o f l) (b :: f ++ t :: s) := by
  have hc : c = o ++ t :: s := hf.chain
  subst hc
  have hchain : Lineage E.linking n.db.get (E.blockHash b) (b :: f ++ t :: s) :=
    hf.branch.cons hb hf.height
  have ht : t.height < b.height := hchain.height_lt_of_mem (by simp)
  have hindex : ∀ h : ℕ, (n.reorged E b o f l).db.heightIndex[h]?
      = (atHeight E.linking (b :: f ++ t :: s) h).map E.blockHash := by
    intro h
    change (eraseAll (insertAll n.db.heightIndex
      ((newBranch f b).map fun x => (x.height, E.blockHash x)))
        (heightsAbove b.height n.tip.height))[h]? = _
    rw [getElem?_eraseAll_heightsAbove, getElem?_insertAll_heights, reverse_newBranch, hn.index]
    by_cases hlo : t.height < h
    · -- above the fork the new branch decides; a longer old chain is cut off
      rw [hchain.atHeight_append_of_lt hlo]
      by_cases hhi : b.height < h
      · have hnone : atHeight E.linking (b :: f) h = none := by
          rw [← hchain.atHeight_append_of_lt hlo]
          exact hchain.atHeight_eq_none hhi
        have hold : n.tip.height < h → atHeight E.linking (o ++ t :: s) h = none :=
          hn.atHeight_eq_none
        split
        · rw [hnone]
          rfl
        · rw [hnone, hold (by omega)]
          rfl
      · rw [if_neg (by omega)]
        obtain ⟨x, hx⟩ : ∃ x, atHeight E.linking (b :: f ++ t :: s) h = some x :=
          hchain.exists_atHeight (Nat.le_of_not_lt hhi)
        rw [hchain.atHeight_append_of_lt hlo] at hx
        rw [hx]
        rfl
    · -- at or below it nothing changed
      have hle : h ≤ E.linking.height t := Nat.le_of_not_lt hlo
      rw [if_neg (by omega), (hchain.atHeight_append_of_le hle).1,
        (hchain.atHeight_append_of_le hle).2, (hn.chain.atHeight_append_of_le hle).2]
      rfl
  exact { hn with
    chain := hchain
    tip_height := congrArg (· + 1) hf.height
    index := hindex
    height_map := by
      intro h k hk
      rw [hindex]
      change (insertAll (n.disconnected o l).heightToHash
        ((newBranch f b).map fun x => (x.height, E.blockHash x)))[h]? = some k at hk
      rw [getElem?_insertAll_heights, reverse_newBranch, hn.heightToHash_disconnected] at hk
      by_cases hlo : t.height < h
      · rw [hchain.atHeight_append_of_lt hlo]
        rwa [if_pos hlo, or_none] at hk
      · have hle : h ≤ E.linking.height t := Nat.le_of_not_lt hlo
        rw [if_neg hlo, (hchain.atHeight_append_of_le hle).1] at hk
        have hidx := hn.height_map h k hk
        rwa [hn.index, (hn.chain.atHeight_append_of_le hle).2,
          ← (hchain.atHeight_append_of_le hle).2] at hidx
    stats_height := rfl
    stats_hash := rfl
    saved := ⟨_, rfl, rfl, rfl⟩ }

/-! ## Both outcomes -/

/-- The check that failed, to `fs` on `t :: s`; `l` is the disconnected ledger. -/
inductive ReorgFails (R : Rules E) (n : Node) (b t : Block) (s fs : List Block) (l : Ledger)
    (e : ReorgFailure) : Prop
  | fork (n₁ n₂ : Node) : n₁.blocks = n.blocks → n₁.db = n.db → n₁.ledger = l →
      connectForkBlocks R t.height [] fs n₁ = some (n₂, some e) → ReorgFails R n b t s fs l e
  | tip (n₂ : Node) : n₂.blocks = n.blocks → Ledger.Connects R (t :: s) fs l n₂.ledger →
      checkReorgTip R n₂ b = some e → ReorgFails R n b t s fs l e
  | target (n₂ : Node) : n₂.db = n.db → checkReorgTipTarget R t.height fs n₂ b = some e →
      ReorgFails R n b t s fs l e

/-- It fails and restores, or it ends on the new branch. -/
lemma reorganize_cases (hn : ChainInv R n c) (hf : ForkAt E n c b o f t s) (hcov : Covered E n o)
    (hb : n.db.get (E.blockHash b) = some b)
    (h : reorganize R n b t.height = some (n', r)) :
    ∃ l1, disconnectAll E o n.ledger = some l1 ∧
      ((∃ e g rest l2 l3, f.reverse = g ++ rest ∧ Ledger.Connects R (t :: s) g l1 l2 ∧
          disconnectAll E g.reverse l2 = some l3 ∧ r = .ok (.invalid (.reorg e)) ∧
          ReorgFails R n b t s f.reverse l1 e ∧ Restored E n o l3 n') ∨
        (∃ l2 txs, Ledger.Connects R (t :: s) (newBranch f b) l1 l2 ∧
          r = .ok (.acceptedReorg txs) ∧ n' = n.reorged E b o f l2)) := by
  have hc : c = o ++ t :: s := hf.chain
  subst hc
  simp only [reorganize, disconnectTo_eq hn hcov, bind_eq_bind, bind_map,
    bind_eq_some_iff, comp_apply, hf.collectForkChain_eq hn] at h
  obtain ⟨l1, hl1, ⟨n2, failure⟩, hconn, h⟩ := h
  refine ⟨l1, hl1, ?_⟩
  have hlin : Lineage E.linking n.db.get b.prevHash (f.reverse.reverse ++ t :: s) := by
    rw [reverse_reverse]
    exact hf.branch
  obtain ⟨g, rest, l2, hg, hl2, rfl, hall⟩ :=
    connectForkBlocks_cases (n := n.disconnected o l1) hn.cache_sub hlin (cons_ne_nil _ _) hconn
  split at h
  · -- path A: a fork block failed, or the tip did
    rename_i e he
    simp only [bind_eq_some_iff] at h
    obtain ⟨n3, hroll, rfl, rfl⟩ := h
    obtain ⟨l3, hl3, hres⟩ := rollbackA_restored hn hf hcov hg hroll
    refine .inl ⟨e, g, rest, l2, l3, hg, hl2, hl3, rfl, ?_, hres⟩
    cases failure with
    | some e' =>
      obtain rfl : e' = e := by simpa using he
      exact .fork (n.disconnected o l1) _ rfl rfl rfl hconn
    | none =>
      obtain rfl := hall rfl
      obtain rfl : f.reverse = g := by simpa using hg
      exact .tip ((n.disconnected o l1).connected E f.reverse l2) rfl hl2 (by simpa using he)
  · rename_i hnone
    have hfail : failure = none := by
      cases failure <;> simp_all
    obtain rfl := hall hfail
    obtain rfl : f.reverse = g := by simpa using hg
    split at h
    · -- path B: the exact target of the tip failed
      rename_i e he
      simp only [bind_eq_some_iff] at h
      obtain ⟨n3, hroll, rfl, rfl⟩ := h
      obtain ⟨l3, hl3, hres⟩ := rollbackB_restored hn hf hcov hroll
      exact .inl ⟨e, f.reverse, [], l2, l3, hg, hl2, hl3, rfl,
        .target ((n.disconnected o l1).connected E f.reverse l2) rfl he, hres⟩
    · simp only [bind_eq_some_iff] at h
      obtain ⟨n3, htip, rfl, rfl⟩ := h
      obtain ⟨l3, hl3, heq⟩ := applyReorgTip_commitReorg rfl htip
      refine .inr ⟨l3, _, ?_, rfl, heq⟩
      have htipValid := checkReorgTip_eq_none (by simpa [hfail] using hnone)
      rw [parent_of_valid (n := (n.disconnected o l1).connected E f.reverse l2) hn.cache_sub
        (hf.branch.cons hb hf.height) (append_ne_nil_of_right_ne_nil _ (cons_ne_nil _ _))
        htipValid] at htipValid
      refine hl2.append (.cons ?_ hl3 .nil)
      rw [reverse_reverse]
      exact htipValid

end CoinCync

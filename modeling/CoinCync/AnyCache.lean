import CoinCync.System

/-!
# The canonical chain whatever the cache holds

What a reorganisation does to supply, UTXO set and pool depends on what is cached. The canonical
chain does not: each phase is followed here in what it keeps of bodies, height index and tip, and
`ChainInv` is preserved by every operation without a guard (`step_chain`).
-/

namespace CoinCync

open List Option Node

variable {E : Env} {R : Rules E} {n n' m : Node} {b t : Block} {c o f s : List Block}
variable {forkPoint : ℕ} {failure : Option ReorgFailure} {d : Disconnected}
  {earlier fork : List Block} {r : AddResult}

/-- Bodies, indexes and database are the same. -/
structure Kept (n m : Node) : Prop where
  blocks : m.blocks = n.blocks
  db : m.db = n.db

lemma Kept.refl (n : Node) : Kept n n := ⟨rfl, rfl⟩

lemma Kept.trans (h : Kept n m) (h' : Kept m k) : Kept n k :=
  ⟨h'.blocks.trans h.blocks, h'.db.trans h.db⟩

lemma Kept.getBlock_eq (h : Kept n m) (k : Hash) : m.getBlock k = n.getBlock k := by
  rw [getBlock, getBlock, h.blocks, h.db]

/-- And so does the fork collected. -/
lemma Kept.collectForkChain_eq (h : Kept n m) (b : Block) (forkPoint : ℕ) :
    m.collectForkChain b forkPoint = n.collectForkChain b forkPoint := by
  have hfuel : m.walkFuel b = n.walkFuel b := by
    rw [walkFuel, walkFuel, h.blocks, h.db]
  unfold collectForkChain
  rw [hfuel, forkChainLoop_congr h.getBlock_eq]

/-- Connecting or disconnecting state changes the ledger only. -/
lemma withLedger_kept (n : Node) (l : Ledger) :
    Kept n (n.withLedger l) ∧ (n.withLedger l).heightToHash = n.heightToHash := ⟨⟨rfl, rfl⟩, rfl⟩

lemma connectState_kept (h : n.connectState E b = some m) :
    Kept n m ∧ m.heightToHash = n.heightToHash := by
  rw [connectState_eq, map_eq_some_iff] at h
  obtain ⟨l, -, rfl⟩ := h
  exact withLedger_kept n l

lemma disconnectState_kept (h : n.disconnectState E k b = some m) :
    Kept n m ∧ m.heightToHash = n.heightToHash := by
  rw [disconnectState_eq, map_eq_some_iff] at h
  obtain ⟨l, -, rfl⟩ := h
  exact withLedger_kept n l

/-! ## Disconnecting -/

/-- One iteration takes its height out of the height map. -/
lemma disconnectHeight_kept (hp : disconnectHeight E p h = some p') :
    Kept p.1 p'.1 ∧
      (∀ x : ℕ, p'.1.heightToHash[x]? = if x = h then none else p.1.heightToHash[x]?) ∧
      ∀ e ∈ p'.2.heights, e ∈ p.2.heights ∨ p.1.heightToHash[e.1]? = some e.2 := by
  have hunmap : ∀ (n : Node) (x : ℕ), (n.unmapHeight h).heightToHash[x]? =
      if x = h then none else n.heightToHash[x]? := fun n x => Table.getElem?_erase _ _ _
  unfold disconnectHeight at hp
  cases hk : p.1.heightToHash[h]? with
  | none =>
    rw [hk] at hp
    cases hp
    refine ⟨Kept.refl _, fun x => ?_, fun e he => .inl he⟩
    split
    · rename_i hx
      rw [hx, hk]
    · rfl
  | some k =>
    have hpush : ∀ (d : Disconnected), ∀ e ∈ (d.pushHeight h k).heights,
        e ∈ d.heights ∨ p.1.heightToHash[e.1]? = some e.2 := by
      intro d e he
      rcases mem_append.mp he with he | he
      · exact .inl he
      · rw [mem_singleton.mp he]
        exact .inr hk
    rw [hk] at hp
    simp only at hp
    cases hbody : p.1.blocks[k]? with
    | none =>
      rw [hbody] at hp
      cases hp
      exact ⟨⟨rfl, rfl⟩, hunmap p.1, hpush p.2⟩
    | some body =>
      rw [hbody] at hp
      simp only [bind_eq_bind, bind_eq_some_iff] at hp
      obtain ⟨m, hm, hp⟩ := hp
      cases hp
      obtain ⟨hkept, hmap⟩ := disconnectState_kept hm
      refine ⟨⟨hkept.blocks, hkept.db⟩, fun x => ?_, hpush (p.2.pushBlock body)⟩
      rw [hunmap, hmap]

lemma disconnectLoop_kept {hs : List ℕ} (h : hs.foldlM (disconnectHeight E) p = some p') :
    Kept p.1 p'.1 ∧
      (∀ x : ℕ, p'.1.heightToHash[x]? = if x ∈ hs then none else p.1.heightToHash[x]?) ∧
      ∀ e ∈ p'.2.heights, e ∈ p.2.heights ∨ p.1.heightToHash[e.1]? = some e.2 := by
  induction hs generalizing p with
  | nil =>
    cases h
    exact ⟨Kept.refl _, by simp, fun e he => .inl he⟩
  | cons a hs ih =>
    rw [foldlM_cons, bind_eq_bind, bind_eq_some_iff] at h
    obtain ⟨q, hq, h⟩ := h
    obtain ⟨hkept, hmap, hheights⟩ := disconnectHeight_kept hq
    obtain ⟨hkept', hmap', hheights'⟩ := ih h
    refine ⟨hkept.trans hkept', fun x => ?_, fun e he => ?_⟩
    · rw [hmap', hmap]
      by_cases hx : x = a <;> by_cases hmem : x ∈ hs <;> simp [hx]
    · rcases hheights' e he with he | he
      · exact hheights e he
      · rw [hmap] at he
        split at he
        · simp at he
        · exact .inr he

/-- The disconnect loop clears the height map above the fork point. -/
lemma disconnectTo_kept (h : disconnectTo E n forkPoint = some (m, d)) :
    Kept n m ∧
      (∀ x : ℕ, m.heightToHash[x]? =
        if forkPoint < x ∧ x ≤ n.tip.height then none else n.heightToHash[x]?) ∧
      ∀ e ∈ d.heights, n.heightToHash[e.1]? = some e.2 := by
  obtain ⟨hkept, hmap, hheights⟩ := disconnectLoop_kept h
  refine ⟨hkept, fun x => ?_, fun e he => ?_⟩
  · rw [hmap]
    simp only [mem_heightsAbove]
  · rcases hheights e he with he | he
    · simp at he
    · exact he

/-! ## Connecting and undoing -/

/-- The connect loop adds the heights of fork blocks only. -/
lemma connectForkBlocks_kept
    (h : connectForkBlocks R forkPoint earlier fork n = some (m, failure)) :
    Kept n m ∧ ∀ (x : ℕ) (k : Hash), m.heightToHash[x]? = some k →
      n.heightToHash[x]? = some k ∨ ∃ y ∈ fork, y.height = x ∧ E.blockHash y = k := by
  induction fork generalizing n earlier with
  | nil =>
    cases h
    exact ⟨Kept.refl _, fun _ _ hk => .inl hk⟩
  | cons a fork ih =>
    rw [connectForkBlocks] at h
    split at h
    · cases h
      exact ⟨Kept.refl _, fun _ _ hk => .inl hk⟩
    rw [bind_eq_bind, bind_eq_some_iff] at h
    obtain ⟨n1, h1, h⟩ := h
    obtain ⟨n2, h2, rfl⟩ := map_eq_some_iff.mp h1
    obtain ⟨hkept2, hmap2⟩ := connectState_kept h2
    obtain ⟨hkept, hmap⟩ := ih h
    refine ⟨hkept2.trans ⟨hkept.blocks, hkept.db⟩, fun x k hk => ?_⟩
    rcases hmap x k hk with hk | ⟨y, hy, hyx⟩
    · rcases Table.insert_cases hk with ⟨rfl, rfl⟩ | hk
      · exact .inr ⟨a, mem_cons_self, rfl, rfl⟩
      · exact .inl (hmap2 ▸ hk)
    · exact .inr ⟨y, mem_cons_of_mem _ hy, hyx⟩

/-- A loop of undo steps keeps bodies, database and height map. -/
lemma undoLoop_kept {fs : List Block}
    (hundo : ∀ n x m, undo n x = some m → Kept n m ∧ m.heightToHash = n.heightToHash)
    (h : fs.foldlM undo n = some m) : Kept n m ∧ m.heightToHash = n.heightToHash := by
  refine (Run.reaches_of_exec h).invariant
    (P := fun k => Kept n k ∧ k.heightToHash = n.heightToHash) ⟨Kept.refl _, rfl⟩ ?_
  intro k x k' hk _ hk'
  obtain ⟨hkept, hmap⟩ := hundo k x k' hk'
  exact ⟨hk.1.trans hkept, hmap.trans hk.2⟩

lemma undoIfMapped_kept (h : undoIfMapped E n b = some m) :
    Kept n m ∧ m.heightToHash = n.heightToHash := by
  unfold undoIfMapped at h
  split at h
  · exact disconnectState_kept h
  · cases h
    exact ⟨Kept.refl _, rfl⟩

/-- Putting blocks back enters their heights only. -/
lemma reapplyLoop_kept (entries : List (ℕ × Hash)) (n : Node) :
    Kept n (entries.foldl (reapplyMainBlock E) n) ∧
      ∀ (x : ℕ) (k : Hash), (entries.foldl (reapplyMainBlock E) n).heightToHash[x]? = some k →
        (x, k) ∈ entries ∨ n.heightToHash[x]? = some k := by
  induction entries generalizing n with
  | nil => exact ⟨Kept.refl _, fun _ _ hk => .inr hk⟩
  | cons e entries ih =>
    have hone : Kept n (reapplyMainBlock E n e) ∧
        (reapplyMainBlock E n e).heightToHash = n.heightToHash.insert e.1 e.2 := by
      unfold reapplyMainBlock
      simp only
      split <;> exact ⟨⟨rfl, rfl⟩, rfl⟩
    obtain ⟨hkept, hmap⟩ := ih (reapplyMainBlock E n e)
    refine ⟨hone.1.trans hkept, fun x k hk => ?_⟩
    rcases hmap x k hk with hk | hk
    · exact .inl (mem_cons_of_mem _ hk)
    · rw [hone.2] at hk
      rcases Table.insert_cases hk with ⟨rfl, rfl⟩ | hk
      · exact .inl mem_cons_self
      · exact .inr hk

/-- What the common end of both rollback paths leaves. -/
lemma restoreMainChain_kept (pre n : Node) (forkPoint top : ℕ) (d : Disconnected) :
    Kept n (restoreMainChain E pre n forkPoint top d) ∧
      (restoreMainChain E pre n forkPoint top d).tip = pre.tip ∧
      (restoreMainChain E pre n forkPoint top d).stats = pre.stats ∧
      ∀ (x : ℕ) (k : Hash), (restoreMainChain E pre n forkPoint top d).heightToHash[x]? = some k →
        (x, k) ∈ d.heights ∨ (¬ (forkPoint < x ∧ x ≤ top) ∧ n.heightToHash[x]? = some k) := by
  obtain ⟨hkept, hmap⟩ := reapplyLoop_kept d.heights.reverse
    { n with heightToHash := Table.eraseAll n.heightToHash (heightsAbove forkPoint top) }
  refine ⟨⟨hkept.blocks, hkept.db⟩, rfl, rfl, fun x k hk => ?_⟩
  rcases hmap x k hk with hmem | hk
  · exact .inl (mem_reverse.mp hmem)
  · rw [getElem?_eraseAll_heightsAbove] at hk
    split at hk
    · simp at hk
    · exact .inr ⟨‹_›, hk⟩

/-- A reorganisation commits, or undoes and clears the height map up to a `top`. -/
lemma reorganize_eq_some (h : reorganize R n b forkPoint = some (n', r)) :
    ∃ n1 d n2 failure, disconnectTo E n forkPoint = some (n1, d) ∧
      connectForkBlocks R forkPoint [] (n1.collectForkChain b forkPoint) n1 = some (n2, failure) ∧
      ((∃ m top e, Kept n2 m ∧ m.heightToHash = n2.heightToHash ∧
          (b.height ≤ top ∨ ∀ y ∈ n1.collectForkChain b forkPoint, y.height ≤ top) ∧
          n' = restoreMainChain E n m forkPoint top d ∧ r = .ok (.invalid (.reorg e))) ∨
        ∃ m work, n2.applyReorgTip E b (n1.collectForkChain b forkPoint) work d = some m ∧
          n' = m.commitReorg E b (n1.collectForkChain b forkPoint) n.tip.height d ∧
          r = .ok (.acceptedReorg (orphanedTxs d))) := by
  simp only [reorganize, bind_eq_bind, bind_eq_some_iff, Prod.exists] at h
  obtain ⟨n1, d, hd, n2, failure, hfork, h⟩ := h
  refine ⟨n1, d, n2, failure, hd, hfork, ?_⟩
  split at h
  · -- rollback path A
    simp only [rollbackA, bind_eq_bind, bind_assoc, bind_some, bind_eq_some_iff] at h
    obtain ⟨m, hm, h⟩ := h
    cases h
    obtain ⟨hkept, hmap⟩ := undoLoop_kept (fun _ _ _ => undoIfMapped_kept) hm
    refine .inl ⟨m, _, _, hkept, hmap, .inr fun y hy => ?_, rfl, rfl⟩
    exact (le_max_of_le' _ (mem_map_of_mem hy) le_rfl).trans (le_max_right _ _)
  split at h
  · -- rollback path B
    simp only [rollbackB, bind_eq_bind, bind_assoc, bind_some, bind_eq_some_iff] at h
    obtain ⟨m, hm, h⟩ := h
    cases h
    obtain ⟨hkept, hmap⟩ := undoLoop_kept (fun _ _ _ => disconnectState_kept) hm
    exact .inl ⟨m, _, _, hkept, hmap, .inl (le_max_right _ _), rfl, rfl⟩
  · obtain ⟨m, hm, h⟩ := bind_eq_some_iff.mp h
    cases h
    exact .inr ⟨m, _, hm, rfl, rfl⟩

/-! ## The chain of the outcome -/

/-- A rolled back reorganisation returns to the chain it left. -/
lemma ChainInv.of_restoreMainChain {forkPoint : ℕ} (hn : ChainInv R n c) (hkept : Kept n m)
    (hmap : ∀ (x : ℕ) (k : Hash), m.heightToHash[x]? = some k →
      n.heightToHash[x]? = some k ∨ forkPoint < x ∧ x ≤ top)
    (hheights : ∀ e ∈ d.heights, n.heightToHash[e.1]? = some e.2) :
    (restoreMainChain E n m forkPoint top d).db.get = n.db.get ∧
      ChainInv R (restoreMainChain E n m forkPoint top d) c := by
  obtain ⟨hkept', htip, hstats, hrestored⟩ := restoreMainChain_kept n m forkPoint top d
  have hdb : (restoreMainChain E n m forkPoint top d).db = n.db := (hkept.trans hkept').db
  refine ⟨by rw [hdb], hn.of_view (by simp only [view, hdb, htip, hstats]) ?_ ?_⟩
  · rw [(hkept.trans hkept').blocks]
    exact hn.cache_sub
  intro x k hk
  refine hn.height_map x k ?_
  rcases hrestored x k hk with hmem | ⟨hout, hk⟩
  · exact hheights (x, k) hmem
  · rcases hmap x k hk with hk | hin
    · exact hk
    · exact absurd hin hout

/-- The height map has fork blocks, and old entries outside the disconnected range. -/
lemma connectForkBlocks_heightMap (hd : disconnectTo E n forkPoint = some (n1, d))
    (hfork : connectForkBlocks R forkPoint earlier fork n1 = some (n2, failure)) :
    Kept n n2 ∧ ∀ (x : ℕ) (k : Hash), n2.heightToHash[x]? = some k →
      (¬ (forkPoint < x ∧ x ≤ n.tip.height) ∧ n.heightToHash[x]? = some k) ∨
        ∃ y ∈ fork, y.height = x ∧ E.blockHash y = k := by
  obtain ⟨hkept1, hmap1, -⟩ := disconnectTo_kept hd
  obtain ⟨hkept2, hmap2⟩ := connectForkBlocks_kept hfork
  refine ⟨hkept1.trans hkept2, fun x k hk => ?_⟩
  rcases hmap2 x k hk with hk | hy
  · rw [hmap1] at hk
    split at hk
    · simp at hk
    · exact .inl ⟨‹_›, hk⟩
  · exact .inr hy

/-- A reorganisation ends on the new branch or on the chain it left. -/
lemma ChainInv.reorganize (hn : ChainInv R n c) (hf : ForkAt E n c b o f t s)
    (hb : n.db.get (E.blockHash b) = some b) (h : reorganize R n b t.height = some (n', r)) :
    n'.db.get = n.db.get ∧
      ((ChainInv R n' c ∧ ∃ e, r = .ok (.invalid (.reorg e))) ∨
        (ChainInv R n' (b :: f ++ t :: s) ∧ ∃ txs, r = .ok (.acceptedReorg txs))) := by
  obtain ⟨n1, d, n2, failure, hd, hfork, h⟩ := reorganize_eq_some h
  have hcollect : n1.collectForkChain b t.height = f.reverse := by
    rw [(disconnectTo_kept hd).1.collectForkChain_eq, hn.collectForkChain_eq hf.branch]
  rw [hcollect] at hfork h
  obtain ⟨hkept, hmap⟩ := connectForkBlocks_heightMap hd hfork
  rcases h with ⟨m, top, e, hkept', hmap', htop, rfl, rfl⟩ | ⟨n3, work, htip, rfl, rfl⟩
  · refine (hn.of_restoreMainChain (hkept.trans hkept') ?_ (disconnectTo_kept hd).2.2).imp_right
      fun hchain => .inl ⟨hchain, _, rfl⟩
    intro x k hk
    rw [hmap'] at hk
    -- what has to be cleared lies between the fork point and the top
    rcases hmap x k hk with ⟨-, hk⟩ | ⟨y, hy, rfl, -⟩
    · exact .inl hk
    · have hheight := hf.height_of_mem (mem_reverse.mp hy)
      exact .inr ⟨hheight.1, htop.elim hheight.2.le.trans fun htop => htop y hy⟩
  · -- the new branch is committed
    simp only [applyReorgTip, bind_eq_bind, bind_eq_some_iff, some.injEq] at htip
    obtain ⟨m, hm, rfl⟩ := htip
    obtain ⟨hkept', hmap'⟩ := connectState_kept hm
    have hview := hn.reorged hf hb n.ledger
    have hdb : m.db = n.db := (hkept.trans hkept').db
    refine ⟨?_, .inr ⟨hview.of_view ?_ ?_ fun x k hk => ?_, _, rfl⟩⟩
    · funext k
      show m.db.blocks[k]? = n.db.blocks[k]?
      rw [hdb]
    · simp only [view, mapHeight, hdb]
      rfl
    · show ∀ (k : Hash) (x : Block), m.blocks[k]? = some x → n.db.get k = some x
      rw [(hkept.trans hkept').blocks]
      exact hn.cache_sub
    rw [hview.index]
    have hmem : ∀ y ∈ b :: f, y.height = x → E.blockHash y = k →
        (atHeight E.linking (b :: f ++ t :: s) x).map E.blockHash = some k := by
      intro y hy hx hyk
      have hat := hview.atHeight_of_mem (mem_append_left (t :: s) hy)
      rw [hx] at hat
      rw [hat, map_some, hyk]
    rcases Table.insert_cases hk with ⟨rfl, rfl⟩ | hk
    · exact hmem b mem_cons_self rfl rfl
    · rcases hmap x k (hmap' ▸ hk) with ⟨hout, hold⟩ | ⟨y, hy, hx, hyk⟩
      · -- An old entry that survived is at or below the fork point.
        have hle : x ≤ t.height := by
          by_contra hgt
          rw [hn.heightToHash_eq_none (by omega)] at hold
          cases hold
        have hidx := hn.height_map x k hold
        have hc := hn.chain
        rw [hn.index, hf.chain] at hidx
        rw [hf.chain] at hc
        rwa [(hc.atHeight_append_of_le hle).2,
          ← (hview.chain.atHeight_append_of_le hle).2] at hidx
      · exact hmem y (mem_cons_of_mem _ (mem_reverse.mp hy)) hx hyk

/-! ## Every operation -/

/-- No body is dropped from the block table. -/
def Grows (n n' : Node) : Prop := ∀ k x, n.db.get k = some x → n'.db.get k = some x

lemma Grows.of_eq (h : n'.db.get = n.db.get) : Grows n n' := fun k x hx => by rw [h, hx]

/-- A reorganisation ends on the branch of the block, whatever is cached. -/
lemma addBlock_chain (hn : ChainInv R n c) (h : addBlock R n b = some (n', r)) :
    ∃ c', ChainInv R n' c' ∧ Grows n n' ∧
      ∀ txs, r = .ok (.acceptedReorg txs) → ∃ o f t s, Passed R n b ∧
        ForkAt E (n.storeBlock E b) c b o f t s ∧ reorgPoint R n b = some t.height ∧
        c' = b :: f ++ t :: s := by
  rcases addBlock_cases hn h with ⟨hpre, rfl⟩ | ⟨hpass, -, rfl, -, hreorg⟩ |
    ⟨hpass, hprev, rfl, l, -, hforget⟩ | ⟨hpass, o, f, t, s, hf, hp, hr⟩
  · refine ⟨c, hn, fun _ _ hx => hx, fun txs hr => ?_⟩
    exact absurd hr ((preCheck_ne_accepted hpre).2 txs)
  · exact ⟨c, hn.stored hpass, get_storeBlock_mono hpass.new_body,
      fun txs hr => absurd hr (hreorg txs)⟩
  · refine ⟨b :: c, ((hn.stored hpass).extendedWith (hn.lineage_tip hpass hprev) _).forgets hforget,
      ?_, by simp⟩
    rw [hforget.eq]
    exact get_storeBlock_mono hpass.new_body
  · have hself : (n.storeBlock E b).db.get (E.blockHash b) = some b := by
      rw [get_storeBlock, if_pos rfl]
    obtain ⟨hget, hcase⟩ := (hn.stored hpass).reorganize hf hself hr
    have hgrows : Grows n n' := by
      intro k x hx
      rw [hget]
      exact get_storeBlock_mono hpass.new_body k x hx
    rcases hcase with ⟨hchain, e, rfl⟩ | ⟨hchain, txs, rfl⟩
    · exact ⟨c, hchain, hgrows, by simp⟩
    · exact ⟨_, hchain, hgrows, fun _ _ => ⟨o, f, t, s, hpass, hf, hp, rfl⟩⟩

/-- Every operation keeps a canonical chain and all bodies. -/
lemma step_chain (hn : ChainInv R n c) (h : step R n op = some n') :
    ∃ c', ChainInv R n' c' ∧ Grows n n' := by
  cases op with
  | addBlock b =>
    obtain ⟨⟨m, r⟩, hadd, rfl⟩ := map_eq_some_iff.mp h
    obtain ⟨c', hc', hgrows, -⟩ := addBlock_chain hn hadd
    exact ⟨c', hc', hgrows⟩
  | rollback target =>
    obtain ⟨⟨m, r⟩, hroll, rfl⟩ := map_eq_some_iff.mp h
    rcases rollbackToHeight_cases hn hroll with rfl | ⟨o, t, s, l, hc, rfl, -, rfl, -⟩
    · exact ⟨c, hn, fun _ _ hx => hx⟩
    · subst hc
      exact ⟨t :: s, hn.rolledBack l, fun _ _ hx => hx⟩
  | restart =>
    obtain ⟨st, hst⟩ := hn.restarted h
    refine ⟨c, hst.chainInv, Grows.of_eq ?_⟩
    funext k
    rw [Database.get, Database.get, hst.bodies]

/-- Every reachable state has a canonical chain and all its bodies. -/
lemma reaches_chain (hn : ChainInv R n c) (h : Run.Reaches (step R) ok n n') :
    ∃ c', ChainInv R n' c' ∧ Grows n n' := by
  refine h.invariant (P := fun m => ∃ c', ChainInv R m c' ∧ Grows n m) ⟨c, hn, fun _ _ hx => hx⟩ ?_
  rintro m op m' ⟨q, hq, hgrows⟩ - hm
  obtain ⟨q', hq', hgrows'⟩ := step_chain hq hm
  exact ⟨q', hq', fun k x hx => hgrows' k x (hgrows k x hx)⟩

end CoinCync

import CoinCync.BlockTree

/-!
# Delivering the blocks of a tree

`Delivered` is the invariant while a node is handed the blocks of a tree, parents first: it has
stored every delivered block whose chain is valid, its canonical chain is valid, and no stored valid
chain outranks it. A stored valid chain was compared with the tip when its last block arrived, and a
chain that outranks the tip always gets through: the window keeps it inside the unconditional depth
and inside the cache.
-/

namespace CoinCync

open List Option Node Table

variable {E : Env} {R : Rules E} {V : Block → Bool} {T D : List Block} {n : Node} {b : Block}
  {c : List Block}

/-! ## The invariant -/

/-- Bodies and canonical heights down to 200 below `M` are cached. -/
structure CachedFrom (n : Node) (M : ℕ) : Prop where
  blocks : ∀ (k : Hash) (x : Block), n.db.get k = some x → M ≤ x.height + 200 →
    n.blocks[k]? = some x
  heights : ∀ h : ℕ, M ≤ h + 200 → h ≤ n.tip.height → (n.heightToHash[h]?).isSome

/-- Fewer blocks are asked for. -/
lemma CachedFrom.mono (h : CachedFrom n M) (hle : M ≤ M') : CachedFrom n M' :=
  ⟨fun k x hx hM => h.blocks k x hx (by omega), fun i hM hi => h.heights i (by omega) hi⟩

lemma CachedFrom.blocks_storeBlock (h : CachedFrom n M)
    (hx : (n.storeBlock E b).db.get k = some x) (hM : M ≤ x.height + 200) :
    (n.storeBlock E b).blocks[k]? = some x := by
  rw [get_storeBlock] at hx
  rw [Node.blocks_storeBlock]
  split at hx
  · rw [if_pos ‹_›]
    exact hx
  · rw [if_neg ‹_›]
    exact h.blocks k x hx hM

/-- The node after the blocks `D` of the tree `T` were delivered. -/
structure Delivered (R : Rules E) (V : Block → Bool) (T D : List Block) (n : Node)
    (c : List Block) : Prop where
  fed : ∃ pool, deliver R pool D = some n
  chainInv : ChainInv R n c
  utxoInv : UtxoInv R n c
  totals : Totals E n c
  stored : ∀ k x, n.db.get k = some x → x ∈ R.genesis :: D
  kept : ∀ x ∈ D, ∀ q, TreeChain R T (E.blockHash x) (x :: q) → ValidChain R V (x :: q) →
    n.db.get (E.blockHash x) = some x
  valid : ValidChain R V c
  best : ∀ k q, Lineage E.linking n.db.get k q → ValidChain R V q → rank q k ≤ rank c n.tip.hash
  childless : ∀ k x, n.db.get k = some x → x.height ≠ 0 → x.prevHash ≠ n.tip.hash
  /-- Eviction was measured against tips no higher than a stored valid chain. -/
  cached : ∃ k a r, Lineage E.linking n.db.get k (a :: r) ∧ ValidChain R V (a :: r) ∧
    n.tip.height ≤ a.height ∧ CachedFrom n a.height

lemma genesisNode_delivered (R : Rules E) (V : Block → Bool) (T : List Block)
    (pool : Option SparkPool) : Delivered R V T [] (genesisNode R pool) [R.genesis] := by
  have hn := genesisNode_chainInv R pool
  have hget : ∀ k x, (genesisNode R pool).db.get k = some x →
      x = R.genesis ∧ k = E.blockHash R.genesis :=
    fun k x hx => (get_genesisNode.mp hx).symm
  have hvalid : ValidChain R V [R.genesis] := fun x hx => .inl (mem_singleton.mp hx)
  exact {
    fed := ⟨pool, rfl⟩
    chainInv := hn
    utxoInv := genesisNode_utxoInv R pool
    totals := genesisNode_totals R pool
    stored := fun k x hx => by simp [(hget k x hx).1]
    kept := by simp
    valid := hvalid
    best := by
      intro k q hq _
      obtain ⟨a, r, rfl⟩ := exists_cons_of_ne_nil hq.ne_nil
      obtain ⟨-, rfl⟩ := hget k a hq.get_head
      rw [hq.unique hn.chain]
      rfl
    childless := by
      intro k x hx h0
      rw [(hget k x hx).1] at h0
      exact absurd R.genesis_height h0
    cached := by
      refine ⟨_, _, _, hn.chain, hvalid, ?_, ?_, ?_⟩
      · exact Nat.zero_le _
      · intro k x hx _
        obtain ⟨rfl, rfl⟩ := hget k x hx
        show (Std.TreeMap.insert (∅ : Std.TreeMap Hash Block) (E.blockHash R.genesis)
          R.genesis)[E.blockHash R.genesis]? = _
        rw [Table.getElem?_insert, if_pos rfl]
      · intro h _ hh
        obtain rfl : h = 0 := Nat.le_zero.mp hh
        rfl }

/-! ## Where a delivered block stands -/

section Delivery

variable (hV : ValidityIs R V T) (hT : BlockTree R V T) (hP : ParentFirst R T)
  (hI : Delivered R V T D n c) {rest : List Block} (hD : T = D ++ b :: rest)

include hD in
lemma delivered_subset : R.genesis :: D ⊆ R.genesis :: T := by
  rw [hD]
  exact cons_subset_cons _ (subset_append_left _ _)

include hI hP hD in
/-- The node was handed blocks of the tree only. -/
lemma Delivered.fedFrom : Fed R T n := by
  obtain ⟨pool, hn⟩ := hI.fed
  refine ⟨pool, D, by rw [hD]; exact subset_append_left _ _, fun D' x rest' h => ?_, hn⟩
  exact hP D' x (rest' ++ b :: rest) (by rw [hD, h, append_assoc, cons_append])

include hI hP hD in
/-- Its ledger is one for the canonical chain. -/
lemma Delivered.held : Held R T c n.ledger := .node (hI.fedFrom hP hD) hI.chainInv

include hI hT in
/-- Stored lineages are chains of the tree. -/
lemma Delivered.treeChain (hsub : R.genesis :: D ⊆ R.genesis :: T)
    (hq : Lineage E.linking n.db.get k q) : TreeChain R T k q :=
  hq.mono fun k x hx => (treeGet_eq_some hT.distinct).mpr
    ⟨hsub (hI.stored k x hx), hI.chainInv.key k x hx⟩

include hI hT hP hD in
/-- The block sits on its lineage. -/
lemma Delivered.height_eq (hq : Lineage E.linking n.db.get b.prevHash q) : b.height = q.length := by
  obtain ⟨p, hp, hhash, hheight⟩ := hP D b rest hD
  obtain ⟨x, r, rfl⟩ := exists_cons_of_ne_nil hq.ne_nil
  have hmem := delivered_subset (R := R) hD
  have hx := hI.stored _ _ hq.get_head
  have hkey := hI.chainInv.key _ _ hq.get_head
  obtain rfl := hT.distinct x (hmem hx) p (hmem hp) (hkey.trans hhash.symm)
  have hlen : x.height = r.length := hq.height_head
  rw [hheight, hlen, length_cons]

include hI hT hP hD in
/-- So is the lineage of the delivered block. -/
lemma Delivered.treeChain_cons
    (hq : Lineage E.linking n.db.get b.prevHash q) : TreeChain R T (E.blockHash b) (b :: q) := by
  have hlen := hI.height_eq hT hP hD hq
  have hq' := hI.treeChain hT (delivered_subset hD) hq
  have hself : treeGet R T (E.blockHash b) = some b :=
    (treeGet_eq_some hT.distinct).mpr ⟨by rw [hD]; simp, rfl⟩
  exact hq'.cons hself hlen

variable (hb : Passed R n b) (hside : n.isMainChain b = false)
  (hf : ForkAt E (n.storeBlock E b) c b o f t s)

include hI hb hside hf in
/-- A side block leaves the canonical chain below the tip. -/
lemma Delivered.ne_nil_of_side : o ≠ [] := by
  rintro rfl
  have hn := hI.chainInv
  have hbranch := hn.branch_of_forkAt hb hf
  have hchain := hf.chain
  subst hchain
  have htip : E.blockHash t = n.tip.hash := hn.key _ _ hn.chain.get_head
  -- the block is no child of the tip, and neither is the start of its branch
  rcases eq_nil_or_concat' f with rfl | ⟨f, x, rfl⟩
  · have hkey : E.blockHash t = b.prevHash := hn.key _ _ hbranch.get_head
    rw [htip] at hkey
    simp [isMainChain, hkey] at hside
  · rw [append_assoc] at hbranch
    obtain ⟨k, hk⟩ := hbranch.suffix
    have hx : x.height = t.height + 1 := by
      cases hk with
      | step _ hs => exact hs
    have hprev : E.blockHash t = x.prevHash := hn.key _ _ hk.tail.get_head
    exact hI.childless k x hk.get_head (by omega) (hprev.symm.trans htip)

include hI hT hP hD hb hside hf in
/-- At the fork both branches are short, and nothing near it was evicted. -/
lemma Delivered.near : o.length ≤ reorgUnconditionalDepth ∧ f.length + 1 ≤ reorgUnconditionalDepth ∧
      CachedFrom n (t.height + 20) := by
  have hn := hI.chainInv
  have hbranch := hn.branch_of_forkAt hb hf
  have hcons : TreeChain R T (E.blockHash b) (b :: f ++ t :: s) :=
    hI.treeChain_cons hT hP hD hbranch
  have hnew : ∀ {k : Hash} {q : List Block}, Lineage E.linking n.db.get k q → b ∉ q := by
    intro k q hq hmem
    have := hq.get_of_mem hn.key hmem
    rw [show E.linking.hash b = E.blockHash b from rfl, hb.new_body] at this
    simp at this
  have ho := hI.ne_nil_of_side hb hside hf
  have hchain := hf.chain
  subst hchain
  have hshort : o.length ≤ reorgUnconditionalDepth ∧
      (b :: f).length ≤ reorgUnconditionalDepth := by
    refine hT.window _ _ o (b :: f) t s (hI.treeChain hT (delivered_subset hD) hn.chain) hI.valid hcons ?_ ho (by simp)
    intro x hx
    rcases mem_cons.mp hx with rfl | hx
    · exact hnew hn.chain
    · exact hf.side x hx
  refine ⟨hshort.1, hshort.2, ?_⟩
  -- the highest tip so far against the branch of the block
  obtain ⟨k, a, r, ha, hva, -, hcached⟩ := hI.cached
  have ht : (t :: s).length = t.height + 1 := congrArg (· + 1) hbranch.height_suffix.symm
  have hbh : b.height ≤ t.height + reorgUnconditionalDepth := by
    have := hf.height
    rw [length_append] at this
    have := hshort.2
    rw [length_cons] at this
    omega
  have hbound : a.height ≤ t.height + 20 := by
    obtain ⟨o', f', t', s', hac, hqf, hdisj⟩ := hT.exists_fork hP (hI.treeChain hT (delivered_subset hD) ha) hcons
    have hlen : a.height + 1 = (o' ++ t' :: s').length := by
      have : a.height = r.length := ha.height_head
      rw [← hac, length_cons, this]
    have hlen' : b.height + 1 = (f' ++ t' :: s').length := by
      have : b.height = (f ++ t :: s).length := hf.height
      rw [← hqf, cons_append, length_cons, this]
    have hf' : f' ≠ [] := by
      rintro rfl
      obtain rfl : b = t' := (cons.inj hqf).1
      exact hnew ha (by rw [hac]; simp)
    rw [length_append] at hlen hlen'
    by_cases ho' : o' = []
    · subst ho'
      rw [length_nil] at hlen
      unfold reorgUnconditionalDepth at hbh
      omega
    · rw [hac] at ha hva hdisj
      rw [hqf] at hcons
      have := (hT.window _ _ o' f' t' s' (hI.treeChain hT (delivered_subset hD) ha) hva hcons hdisj ho' hf').1
      unfold reorgUnconditionalDepth at this hbh
      omega
  exact ⟨fun k x hx hle => hcached.blocks k x hx (by omega),
    fun h hle hh => hcached.heights h (by omega) hh⟩

include hI hT hP hD in
/-- What a reorganisation has to disconnect is cached. -/
lemma Delivered.reorgCached : ReorgCached R n b := by
  intro forkPoint hpoint
  obtain ⟨hb, hside, hdec⟩ := reorgPoint_eq_some.mp hpoint
  have hn := hI.chainInv
  obtain ⟨q, hq, hbq⟩ := hn.parent_lineage hb
  have hn1 := hn.storeBlock hb.new_body hq hbq
  obtain ⟨o, f, t, s, hf⟩ := hn1.exists_forkAt (hq.mono (get_storeBlock_mono hb.new_body)) hbq
  obtain ⟨-, hfp, -⟩ := forkDecision_eq_reorg.mp hdec
  rw [hf.findForkPoint_eq hn1] at hfp
  cases hfp
  have hcached := (hI.near hT hP hD hb hside hf).2.2
  intro h hlo hhi
  obtain ⟨k, hk⟩ := isSome_iff_exists.mp (hcached.heights h (by omega) hhi)
  obtain ⟨x, hx, hxh, rfl⟩ := hn.heightToHash_eq_some hk
  rw [cachedBlock, hk, bind_some, hcached.blocks _ x (hn.get_of_mem hx) (by omega)]
  rfl

include hI hT hP hD hb hf in
/-- The work the fork walk finds is that of the branch. -/
lemma Delivered.forkWork_eq :
    (n.storeBlock E b).calculateForkCumulativeWork b = chainWork (b :: f ++ t :: s) := by
  have hn := hI.chainInv
  have hfits := hT.fits _ _ (hI.treeChain_cons hT hP hD (hn.branch_of_forkAt hb hf))
  rw [(hn.stored hb).calculateForkCumulativeWork_eq hf.branch hf.height]
  rw [cons_append]
  omega

include hI hT hP hD hb hf in
/-- Fork choice compares ranks. -/
lemma Delivered.takesFork_iff : (n.storeBlock E b).takesFork E b = true ↔
      rank c n.tip.hash < rank (b :: f ++ t :: s) (E.blockHash b) := by
  have htotal : (n.storeBlock E b).stats.totalDifficulty = chainWork c := hI.totals.work
  rw [takesFork, rank_lt_iff, hI.forkWork_eq hT hP hD hb hf, htotal, decide_eq_true_iff,
    eq_comm]
  rfl

include hI hT hP hD hb hside hf in
/-- A stored block that outranks the tip passes both gates. -/
lemma Delivered.reorgPoint_eq (hlt : rank c n.tip.hash < rank (b :: f ++ t :: s) (E.blockHash b)) :
    reorgPoint R n b = some t.height := by
  have hn := hI.chainInv
  have hn1 := hn.stored hb
  obtain ⟨hofits, hffits, -⟩ := hI.near hT hP hD hb hside hf
  have hbranch := hn.branch_of_forkAt hb hf
  have hwork := hI.forkWork_eq hT hP hD hb hf
  have htotal : (n.storeBlock E b).stats.totalDifficulty = chainWork c := hI.totals.work
  have htakes := (hI.takesFork_iff hT hP hD hb hf).mpr hlt
  have hmore : chainWork c ≤ chainWork (b :: f ++ t :: s) := by
    rcases rank_lt_iff.mp hlt with h | ⟨h, -⟩
    · exact le_of_lt h
    · exact le_of_eq h
  have ht : t.height + 1 = (t :: s).length := congrArg (· + 1) hbranch.height_suffix
  have hdepth : b.height - t.height = f.length + 1 := by
    have := hf.height
    rw [length_append] at this
    omega
  have htip : n.tip.height ≤ t.height + reorgUnconditionalDepth := by
    have := hn.tip_height
    rw [hf.chain, length_append] at this
    omega
  have hgate : (n.storeBlock E b).reorgGate E b t.height = none := by
    have hmax : reorgUnconditionalDepth ≤ E.network.maxReorgDepth := by
      cases E.network <;> decide
    simp only [reorgGate, hwork, htotal, hdepth]
    have haccept : evaluateReorgAcceptability (f.length + 1) (chainWork (b :: f ++ t :: s))
        (chainWork c) (n.storeBlock E b).tip.height E.network.maxReorgDepth = none := by
      rw [evaluateReorgAcceptability, if_neg (by omega), if_pos hffits, if_pos hmore]
    rw [haccept, if_neg (by simp), if_neg]
    rintro ⟨-, hfloor⟩
    have hfloor : t.height < n.tip.height - checkpointInterval := hfloor
    unfold reorgUnconditionalDepth at htip
    unfold checkpointInterval at hfloor
    omega
  have hdec : (n.storeBlock E b).forkDecision E b = .reorg t.height :=
    forkDecision_eq_reorg.mpr ⟨htakes, hf.findForkPoint_eq hn1, hgate⟩
  exact reorgPoint_eq_some.mpr ⟨hb, hside, hdec⟩

include hV in
/-- Valid fork blocks with cached parents all connect. -/
lemma connectForkBlocks_ne_error (hfed : Fed R T n) (hn : ChainInv R n (o ++ t :: s))
    (hq : TreeChain R T k (fs.reverse ++ (earlier.reverse ++ t :: s)))
    (hvalid : ∀ x ∈ fs, V x = true)
    (hparent : ∀ x ∈ fs, ∃ p, m.blocks[x.prevHash]? = some p ∧ treeGet R T x.prevHash = some p)
    (hdb : m.db = (n.storeBlock E b).db) (hheld : Held R T (earlier.reverse ++ t :: s) m.ledger)
    (h : connectForkBlocks R t.height earlier fs m = some (m', some e)) : False := by
  induction fs generalizing earlier m with
  | nil => simp [connectForkBlocks] at h
  | cons x fs ih =>
    have hx := hvalid x mem_cons_self
    obtain ⟨p, hp, hpt⟩ := hparent x mem_cons_self
    rw [reverse_cons, append_assoc, singleton_append] at hq
    obtain ⟨k', hxq⟩ := hq.suffix
    have hne : earlier.reverse ++ t :: s ≠ [] := by simp
    have hhead : (earlier.reverse ++ t :: s).head? = some p := (hxq.head?_of_cons hne).trans hpt
    have hctx := (hV.context _ x _ m.ledger none hxq hne hheld).mpr hx
    have hvx : R.validateBlockCtx x (some p) m.utxos none true = .valid := hhead ▸ hctx
    have hcheck : checkForkBlock R t.height earlier m x = none := by
      rw [checkForkBlock, hp, hvx, hdb]
      simp [hV.reorgTarget _ _ x _ _ _ _ hfed hn hxq hx, hV.spark m _ x _ hxq hne hheld hx,
        hV.commitment m _ x _ hxq hne hheld hx]
    rw [connectForkBlocks, hcheck] at h
    simp only [connectForkBlock_eq, bind_eq_bind, bind_map, bind_eq_some_iff] at h
    obtain ⟨l, hl, h⟩ := h
    have hsnoc : (earlier ++ [x]).reverse ++ t :: s = x :: (earlier.reverse ++ t :: s) := by simp
    rw [← hsnoc] at hq
    refine ih (m := (m.withLedger l).mapHeight x.height (E.blockHash x)) hq
      (fun y hy => hvalid y (mem_cons_of_mem _ hy)) (fun y hy => hparent y (mem_cons_of_mem _ hy))
      hdb ?_ h
    rw [hsnoc]
    exact hheld.connect hxq hctx hl

include hI hT hD in
/-- What is stored with the block is in the tree. -/
lemma Delivered.treeGet_of_stored (hx : (n.storeBlock E b).db.get k = some x) :
    treeGet R T k = some x := by
  have hmem := delivered_subset (R := R) hD
  refine (treeGet_eq_some hT.distinct).mpr ?_
  rcases insert_cases hx with ⟨hk, rfl⟩ | hx
  · exact ⟨by rw [hD]; simp, hk.symm⟩
  · exact ⟨hmem (hI.stored k x hx), hI.chainInv.key k x hx⟩

include hV hI hT hP hD hb hside hf in
/-- A reorganisation to a valid chain does not fail. -/
lemma Delivered.not_reorgFails (hvalid : ∀ x ∈ b :: f, V x = true)
    (hl : Ledger.disconnectAll E o n.ledger = some l) :
    ¬ ReorgFails R (n.storeBlock E b) b t s f.reverse l e := by
  have hn := hI.chainInv
  have hfed := hI.fedFrom hP hD
  have hcached := (hI.near hT hP hD hb hside hf).2.2
  have hchain : Lineage E.linking (n.storeBlock E b).db.get (E.blockHash b) (b :: f ++ t :: s) :=
    hf.branch.cons (by rw [get_storeBlock, if_pos rfl]) hf.height
  have htree : TreeChain R T (E.blockHash b) (b :: (f ++ t :: s)) :=
    hI.treeChain_cons hT hP hD (hn.branch_of_forkAt hb hf)
  have hparents : ∀ x ∈ b :: f, ∃ p, (n.storeBlock E b).blocks[x.prevHash]? = some p ∧
      treeGet R T x.prevHash = some p := by
    intro x hx
    obtain ⟨y, hy, (hle : t.height ≤ y.height)⟩ := hchain.prev_of_mem_above hx
    exact ⟨y, hcached.blocks_storeBlock hy (by omega), hI.treeGet_of_stored hT hD hy⟩
  have hVb := hvalid b mem_cons_self
  -- the ledger the disconnect loop leaves is one for the fork point
  have hheld := hI.held hP hD
  rw [hf.chain] at hheld hn
  have hmid := hheld.disconnectAll hl
  intro hfail
  cases hfail with
  | fork n1 n2 hblocks hdb hledger hconn =>
    subst hledger
    have hbranch : TreeChain R T b.prevHash (f.reverse.reverse ++ ([].reverse ++ t :: s)) := by
      rw [reverse_reverse]
      exact hI.treeChain hT (delivered_subset hD) (hI.chainInv.branch_of_forkAt hb hf)
    refine connectForkBlocks_ne_error hV hfed hn hbranch (fun x hx => ?_) (fun x hx => ?_) hdb hmid
      hconn
    · exact hvalid x (mem_cons_of_mem _ (mem_reverse.mp hx))
    · rw [hblocks]
      exact hparents x (mem_cons_of_mem _ (mem_reverse.mp hx))
  | tip n2 hblocks hconn hcheck =>
    have hend := hmid.connects (o := [b]) (by rw [reverse_reverse]; exact htree) hconn
    rw [reverse_reverse] at hend
    obtain ⟨p, hp, hpt⟩ := hparents b mem_cons_self
    have hne : f ++ t :: s ≠ [] := by simp
    have hhead : (f ++ t :: s).head? = some p := (htree.head?_of_cons hne).trans hpt
    have hctx := (hV.context _ b _ n2.ledger none htree hne hend).mpr hVb
    have hvb : R.validateBlockCtx b (some p) n2.utxos none true = .valid := hhead ▸ hctx
    rw [checkReorgTip, hblocks, hp, hvb] at hcheck
    simp [hV.spark n2 _ b _ htree hne hend hVb, hV.commitment n2 _ b _ htree hne hend hVb] at hcheck
  | target n2 hdb hcheck =>
    rw [checkReorgTipTarget, hdb] at hcheck
    rw [← reverse_reverse f] at htree
    simp [hV.reorgTarget _ _ b _ _ _ _ hfed hn htree hVb] at hcheck

/-! ## One delivery -/

include hP hD in
/-- A block of the tree on the main chain names the tip. -/
lemma prevHash_of_isMainChain (hmain : n.isMainChain b = true) : b.prevHash = n.tip.hash := by
  have hne : b.height ≠ 0 := hP.height_ne_zero (by rw [hD]; simp)
  simpa [isMainChain, hne] using hmain

include hI hP hD in
/-- Then its ancestors are the canonical chain. -/
lemma Delivered.eq_of_isMainChain (hq : Lineage E.linking n.db.get b.prevHash q)
    (hmain : n.isMainChain b = true) : q = c := by
  rw [prevHash_of_isMainChain hP hD hmain] at hq
  exact hq.unique hI.chainInv.chain

include hI hP hT hD in
/-- A block with a valid chain passes the checks, unless it is stored. -/
lemma Delivered.passed_of_valid (hV : ValidityIs R V T)
    (hq : TreeChain R T (E.blockHash b) (b :: q)) (hvalid : ValidChain R V (b :: q)) :
    Passed R n b ∨ n.db.get (E.blockHash b) = some b := by
  have hn := hI.chainInv
  have hbT : b ∈ T := by rw [hD]; simp
  have hne : b.height ≠ 0 := hP.height_ne_zero hbT
  have hmem := delivered_subset (R := R) hD
  cases hstored : n.db.get (E.blockHash b) with
  | some y =>
    have hy := hI.stored _ _ hstored
    have hkey := hn.key _ _ hstored
    rw [hT.distinct y (hmem hy) b (mem_cons_of_mem _ hbT) hkey]
    exact .inr rfl
  | none =>
    left
    have hVb : V b = true := by
      rcases hvalid b mem_cons_self with h | h
      · exact absurd (h ▸ R.genesis_height) hne
      · exact h
    -- the parent is delivered, hence stored
    obtain ⟨p, hp, hhash, hheight⟩ := hP D b rest hD
    have hparent : n.db.get b.prevHash = some p := by
      rcases mem_cons.mp hp with rfl | hpD
      · obtain ⟨o, g, -, hg0, k, hg⟩ := hn.chain.exists_root
        have hgen := hn.genesis _ _ hg hg0
        rw [← hhash, ← hgen, hn.key _ _ hg]
        exact hg
      · have hpq : ∃ r, q = p :: r := by
          cases hq with
          | root _ h0 => exact absurd h0 hne
          | @step _ _ x r _ _ hx =>
            have hxp := hT.distinct x ((treeGet_eq_some hT.distinct).mp hx.get_head).1 p (hmem hp)
              ((hT.key _ _ hx.get_head).trans hhash.symm)
            exact ⟨r, by rw [hxp]⟩
        obtain ⟨r, rfl⟩ := hpq
        rw [← hhash]
        refine hI.kept p hpD r ?_ (hvalid.suffix (suffix_cons _ _))
        rw [hhash]
        exact hq.tail
    have hget : n.getBlock b.prevHash = some p := by rw [hn.getBlock_eq, hparent]
    obtain ⟨r, hr⟩ := hn.rooted _ _ hparent
    have hqr : q = r := by
      have := hI.treeChain_cons hT hP hD hr
      exact (cons.inj (hq.unique this)).2
    subst hqr
    have hhead : q.head? = some p := by
      rw [hq.head?_of_cons hr.ne_nil]
      exact (treeGet_eq_some hT.distinct).mpr ⟨hmem hp, hhash⟩
    exact {
      new_cache := by
        cases hc : n.blocks[E.blockHash b]? with
        | none => rfl
        | some x =>
          rw [hn.cache_sub _ _ hc] at hstored
          simp at hstored
      new_body := hstored
      parent := fun _ => by simp [hget]
      height := by
        rw [hget, expectedHeight, if_neg hne]
        exact hheight
      checkpoint := hV.checkpoint b hbT hVb
      timestamp := fun _ => hV.timestamp n b q (hI.fedFrom hP hD) hr hbT hVb
      target := fun _ => hV.target n b q (hI.fedFrom hP hD) hr hbT hVb
      valid := by
        rw [hget, ← hhead]
        cases hmain : n.isMainChain b with
        | true =>
          rw [hI.eq_of_isMainChain hP hD hr hmain] at hq ⊢
          exact (hV.context _ b _ _ _ hq hn.chain.ne_nil (hI.held hP hD)).mpr hVb
        | false => exact hV.noContext n _ b q _ (hI.fedFrom hP hD) hq hr.ne_nil hVb
      commitment := fun hmain => by
        rw [hI.eq_of_isMainChain hP hD hr hmain] at hq
        exact hV.commitment n _ b _ hq hn.chain.ne_nil (hI.held hP hD) hVb }

include hV hI hT hP hD in
/-- A block that passed on the tip is valid. -/
lemma Delivered.valid_of_tip (hb : Passed R n b) (hprev : b.prevHash = n.tip.hash) : V b = true :=
  (hV.context _ b c _ _ (hI.treeChain_cons hT hP hD (hprev ▸ hI.chainInv.chain))
    hI.chainInv.chain.ne_nil (hI.held hP hD)).mp (hI.chainInv.valid_head hb hprev)

include hI hT hP hD in
lemma Delivered.workFits : WorkFits E n b :=
  fun _ hq => hT.fits _ _ (hI.treeChain_cons hT hP hD hq)

include hI hT hP hD in
/-- It is fresh where it is valid. -/
lemma Delivered.deliversFresh (hF : FreshTree R T) : DeliversFresh R n b :=
  fun q hq => hF _ b q (hI.treeChain_cons hT hP hD hq) hq.ne_nil

/-- A block on the tip that passes is accepted if its shielded part is. -/
lemma addBlock_accepted (hb : Passed R n b) (hmain : n.isMainChain b = true)
    (hspark : R.sparkOk (n.storeBlock E b) b = true) (h : addBlock R n b = some (n', r)) :
    r = .ok .accepted := by
  rw [addBlock, preCheck_eq_none.mpr hb] at h
  simp only [if_pos hmain, connectTip, hspark, Bool.not_true] at h
  obtain ⟨m, -, hm⟩ := map_eq_some_iff.mp h
  exact (Prod.mk.inj hm).2.symm

include hV hI hT hP hD hb in
/-- A body that is only stored is on a side branch. -/
lemma Delivered.side_of_stored
    (h : addBlock R n b = some (n', r)) (hr : r ≠ .ok .accepted) : n.isMainChain b = false := by
  rw [← Bool.not_eq_true]
  intro hmain
  have hprev := prevHash_of_isMainChain hP hD hmain
  have hVb := hI.valid_of_tip hV hT hP hD hb hprev
  have hheld : Held R T c (n.storeBlock E b).ledger := by
    rw [ledger_storeBlock]
    exact hI.held hP hD
  have hspark := hV.spark _ _ b c (hI.treeChain_cons hT hP hD (hprev ▸ hI.chainInv.chain))
    hI.chainInv.chain.ne_nil hheld hVb
  exact hr (addBlock_accepted hb hmain hspark h)

include hI hT hP hD in
/-- The rank of the tip never falls. -/
lemma Delivered.rank_le (h : Added R n c b n' r c') : rank c n.tip.hash ≤ rank c' n'.tip.hash := by
  cases h with
  | stopped _ | stored => exact le_refl _
  | extended _ _ _ hforget => exact le_of_lt (rank_lt_cons _ _ _)
  | failed _ _ _ _ _ _ _ _ _ hres =>
    rw [hres.eq]
    exact le_refl _
  | reorged hb hf hpoint =>
    obtain ⟨-, -, hdec⟩ := reorgPoint_eq_some.mp hpoint
    obtain ⟨htakes, -⟩ := forkDecision_eq_reorg.mp hdec
    exact le_of_lt ((hI.takesFork_iff hT hP hD hb hf).mp htakes)

include hV hI hT hP hD hb in
/-- After the block of a valid chain, the tip ranks at least as high. -/
lemma Delivered.rank_new_le (hadd : addBlock R n b = some (n', r)) (h : Added R n c b n' r c')
    (hq : Lineage E.linking n.db.get b.prevHash q) (hvalid : ValidChain R V (b :: q)) :
    rank (b :: q) (E.blockHash b) ≤ rank c' n'.tip.hash := by
  have hn := hI.chainInv
  have hbranch : ∀ {o f s : List Block} {t : Block},
      ForkAt E (n.storeBlock E b) c b o f t s → q = f ++ t :: s := fun hf =>
    hq.unique (hn.branch_of_forkAt hb hf)
  cases h with
  | stopped hpre =>
    rw [preCheck_eq_none.mpr hb] at hpre
    simp at hpre
  | stored _ hpoint hr =>
    have hside := hI.side_of_stored hV hT hP hD hb hadd hr
    obtain ⟨o, f, t, s, hf⟩ := (hn.stored hb).exists_forkAt
      (hq.mono (get_storeBlock_mono hb.new_body)) (hI.height_eq hT hP hD hq)
    rw [hbranch hf]
    by_contra hlt
    rw [hI.reorgPoint_eq hT hP hD hb hside hf (not_le.mp hlt)] at hpoint
    simp at hpoint
  | extended _ hprev _ hforget =>
    rw [hprev] at hq
    rw [hq.unique hn.chain, hforget.eq]
    exact le_refl _
  | @failed _ o f _ _ s t _ _ _ _ _ hf hpoint _ _ hl1 _ _ hfail =>
    obtain ⟨-, hside, -⟩ := reorgPoint_eq_some.mp hpoint
    refine absurd hfail (hI.not_reorgFails hV hT hP hD hb hside hf (fun x hx => ?_) hl1)
    have hgen : x ≠ R.genesis := by
      rintro rfl
      have h0 := R.genesis_height
      rcases mem_cons.mp hx with rfl | hx
      · exact hP.height_ne_zero (by rw [hD]; simp) h0
      · have := (hf.height_of_mem hx).1
        omega
    have hx' : x ∈ b :: q := by
      rw [hbranch hf]
      exact mem_append_left _ hx
    exact (hvalid x hx').resolve_left hgen
  | reorged _ hf =>
    rw [hbranch hf]
    exact le_refl _

include hV hI hT hP hD in
/-- What joins the canonical chain is valid. -/
lemma Delivered.validChain (h : Added R n c b n' r c') : ValidChain R V c' := by
  have hn := hI.chainInv
  cases h with
  | stopped _ | stored _ | failed => exact hI.valid
  | extended hb hprev =>
    intro x hx
    rcases mem_cons.mp hx with rfl | hx
    · exact .inr (hI.valid_of_tip hV hT hP hD hb hprev)
    · exact hI.valid x hx
  | @reorged o f s t l1 _ _ hb hf _ _ hl1 hl2 =>
    have htree : TreeChain R T (E.blockHash b) (b :: f ++ t :: s) :=
      hI.treeChain_cons hT hP hD (hn.branch_of_forkAt hb hf)
    have hheld := hI.held hP hD
    have hvalid := hI.valid
    rw [hf.chain] at hheld hvalid
    -- each block was valid on the ledger of its own past
    have hend := Ledger.Connects.rule (P := fun l r => (Held R T r l ∧ r ≠ []) ∧
      ValidChain R V r) ?_ ⟨⟨hheld.disconnectAll hl1, cons_ne_nil _ _⟩,
        hvalid.suffix (suffix_append _ _)⟩ hl2
    · rw [reverse_newBranch] at hend
      exact hend.2
    · rintro l l' x r hsuf ⟨⟨hl, hne⟩, hr⟩ hv hc
      rw [reverse_newBranch] at hsuf
      obtain ⟨o', ho'⟩ := hsuf
      rw [← ho'] at htree
      obtain ⟨k', hx⟩ := htree.suffix
      refine ⟨⟨hl.connect hx hv hc, cons_ne_nil _ _⟩, fun y hy => ?_⟩
      rcases mem_cons.mp hy with rfl | hy
      · exact .inr ((hV.context _ y r _ _ hx hne hl).mp hv)
      · exact hr y hy

/-- A block that was just stored has no stored child. -/
lemma ChainInv.childless_storeBlock (hn : ChainInv R n c) (hb : Passed R n b)
    (hx : (n.storeBlock E b).db.get k = some x) (hne : x.height ≠ 0) :
    x.prevHash ≠ E.blockHash b := by
  intro hprev
  have hnone := hb.new_body
  obtain ⟨q, hq⟩ := (hn.stored hb).rooted k x hx
  obtain ⟨y, q, rfl⟩ := exists_cons_of_ne_nil hq.ne_nil
  obtain rfl := mem_unique hq.get_head hx
  have hlen : y.height = q.length := hq.height_head
  obtain ⟨p, q, rfl⟩ := exists_cons_of_ne_nil (ne_nil_of_length_pos (by omega : 0 < q.length))
  rcases hn.lineage_of_storeBlock hb hq with ⟨rfl, hold⟩ | hold
  · rw [← hprev, hold.get_head] at hnone
    simp at hnone
  · have hp := hold.tail.get_head
    rw [show E.linking.prev y = y.prevHash from rfl, hprev, hnone] at hp
    simp at hp

include hV hI hT hP hD in
/-- The new tip has no stored child. -/
lemma Delivered.childless_added (hadd : addBlock R n b = some (n', r))
    (h : Added R n c b n' r c') (hx : n'.db.get k = some x)
    (hne : x.height ≠ 0) : x.prevHash ≠ n'.tip.hash := by
  have hn := hI.chainInv
  -- where the tip stays, the new body is on a side branch
  have hsame : n.isMainChain b = false → (n.storeBlock E b).db.get k = some x →
      x.prevHash ≠ n.tip.hash := by
    intro hside hx
    rcases insert_cases hx with ⟨-, rfl⟩ | hx
    · intro hprev
      simp [isMainChain, hprev] at hside
    · exact hI.childless k x hx hne
  cases h with
  | stopped => exact hI.childless k x hx hne
  | stored hb _ hr => exact hsame (hI.side_of_stored hV hT hP hD hb hadd hr) hx
  | extended hb _ _ hforget =>
    rw [hforget.eq] at hx ⊢
    exact hn.childless_storeBlock hb hx hne
  | failed hb _ hpoint _ _ _ _ _ _ hres =>
    rw [hres.eq] at hx ⊢
    exact hsame (reorgPoint_eq_some.mp hpoint).2.1 hx
  | reorged hb => exact hn.childless_storeBlock hb hx hne

end Delivery

/-! ### The cache -/

/-- A call that ends at most at `M` evicts nothing from 200 below on. -/
lemma Added.cachedFrom (h : Added R n c b n' r c') (hn : ChainInv R n c) (hM : CachedFrom n M)
    (htip : n'.tip.height ≤ M) : CachedFrom n' M := by
  cases h with
  | stopped => exact hM
  | stored => exact ⟨fun k x => hM.blocks_storeBlock, hM.heights⟩
  | @extended _ l hb hprev _ hforget =>
    have hmid := (hn.stored hb).extendedWith (hn.lineage_tip hb hprev) l
    have htip' : n'.tip.height = b.height := by
      rw [hforget.eq]
      rfl
    refine ⟨fun k x hx hle => ?_, fun i hle hi => ?_⟩
    · rw [hforget.eq] at hx
      refine hforget.keeps_blocks k x (hM.blocks_storeBlock hx hle) fun i hi => ?_
      -- a height that maps to the hash is the height of the body
      obtain ⟨y, hy, hyi, hk⟩ := hmid.heightToHash_eq_some hi
      have hyx : y = x := by
        have hget := hmid.get_of_mem hy
        rw [hk] at hget
        exact mem_unique hget hx
      subst hyx hyi
      show b.height ≤ _
      omega
    · have hmap : ((((n.storeBlock E b).extendedWith E b l).commitBlock E b).heightToHash[i]?).isSome
          := by
        show ((n.heightToHash.insert b.height (E.blockHash b))[i]?).isSome
        rw [Table.getElem?_insert]
        split
        · rfl
        · refine hM.heights i hle ?_
          have hbh : b.height = c.length := hmid.chain.height_head
          have := hn.tip_height
          omega
      obtain ⟨k, hk⟩ := isSome_iff_exists.mp hmap
      rw [hforget.keeps_heights i k hk (by show b.height ≤ _; omega)]
      rfl
  | failed _ _ _ _ _ _ _ _ _ hres =>
    have hheights := hres.heights
    rw [hres.eq]
    refine ⟨fun k x => hM.blocks_storeBlock, fun i hle hi => ?_⟩
    rw [hheights i]
    exact hM.heights i hle hi
  | @reorged o f s t _ l2 _ hb hf =>
    have hmid := (hn.stored hb).reorged hf (by rw [get_storeBlock, if_pos rfl]) l2
    refine ⟨fun k x => hM.blocks_storeBlock, fun i hle hi => ?_⟩
    have hn' := hn.stored hb
    rw [hf.chain] at hn'
    have hdisc := hn'.heightToHash_disconnected l2 i
    show ((insertAll (eraseAll (n.storeBlock E b).heightToHash (o.map (·.height)))
      ((newBranch f b).map fun x => (x.height, E.blockHash x)))[i]?).isSome
    rw [getElem?_insertAll_heights, reverse_newBranch]
    by_cases hlow : i ≤ t.height
    · -- at or below the fork the old mapping is still there
      have hti : t.height ≤ n.tip.height := by
        have := hn.tip_height
        rw [hf.chain, length_append, length_cons] at this
        have ht : t.height = s.length := hf.branch.height_suffix
        omega
      rw [if_neg (by omega)] at hdisc
      have hold := hM.heights i hle (by omega)
      rw [isSome_or, Bool.or_eq_true]
      right
      rw [show (eraseAll (n.storeBlock E b).heightToHash (o.map (·.height)))[i]?
        = n.heightToHash[i]? from hdisc]
      exact hold
    · rw [isSome_or, Bool.or_eq_true]
      left
      obtain ⟨x, hx⟩ := hmid.chain.exists_atHeight hi
      have hx : atHeight E.linking (b :: f ++ t :: s) i = some x := hx
      have hlow : E.linking.height t < i := not_le.mp hlow
      rw [← hmid.chain.atHeight_append_of_lt hlow, hx]
      rfl

/-! ### The step -/

/-- Delivering the next block of the tree. -/
lemma Delivered.step {rest : List Block} (hV : ValidityIs R V T)
    (hT : BlockTree R V T) (hF : FreshTree R T) (hP : ParentFirst R T)
    (hI : Delivered R V T D n c) (hD : T = D ++ b :: rest) (hadd : addBlock R n b = some (n', r)) :
    ∃ c', Delivered R V T (D ++ [b]) n' c' := by
  have hn := hI.chainInv
  obtain ⟨c', h⟩ := addBlock_added hn (hI.reorgCached hT hP hD) hadd
  have hn' := h.chainInv hn
  have hvalid := hI.validChain hV hT hP hD h
  have hmono : ∀ k x, n.db.get k = some x → n'.db.get k = some x := by
    intro k x hx
    rcases h.get_eq with ⟨rfl, -⟩ | ⟨hb, hget⟩
    · exact hx
    · rw [hget]
      exact get_storeBlock_mono hb.new_body k x hx
  refine ⟨c', ?_⟩
  exact {
    fed := by
      obtain ⟨pool, hn⟩ := hI.fed
      refine ⟨pool, ?_⟩
      rw [deliver, map_append]
      refine Run.exec_append_eq_some.mpr ⟨n, hn, Run.exec_cons_eq_some.mpr ⟨n', ?_, rfl⟩⟩
      show (addBlock R n b).map Prod.fst = some n'
      rw [hadd]
      rfl
    chainInv := hn'
    utxoInv := h.utxoInv hn hI.utxoInv (hI.deliversFresh hT hP hD hF)
    totals := h.totals hn hI.totals (hI.workFits hT hP hD)
    stored := by
      intro k x hx
      rcases h.get_eq with ⟨rfl, -⟩ | ⟨hb, hget⟩
      · exact mem_append_left _ (hI.stored k x hx)
      · rw [hget] at hx
        rcases insert_cases hx with ⟨-, rfl⟩ | hx
        · simp
        · exact mem_append_left _ (hI.stored k x hx)
    kept := by
      intro x hx q hq hvq
      rcases mem_append.mp hx with hx | hx
      · exact hmono _ _ (hI.kept x hx q hq hvq)
      · obtain rfl := mem_singleton.mp hx
        rcases hI.passed_of_valid hT hP hD hV hq hvq with hb | hknown
        · rcases h.get_eq with ⟨-, -, hnot⟩ | ⟨-, hget⟩
          · exact absurd hb hnot
          · rw [hget, get_storeBlock, if_pos rfl]
        · exact hmono _ _ hknown
    valid := hvalid
    best := by
      intro k q hq hvq
      have hle := hI.rank_le hT hP hD h
      rcases h.get_eq with ⟨rfl, rfl, -⟩ | ⟨hb, hget⟩
      · exact hI.best k q hq hvq
      · rw [hget] at hq
        obtain ⟨x, q, rfl⟩ := exists_cons_of_ne_nil hq.ne_nil
        rcases hn.lineage_of_storeBlock hb hq with ⟨rfl, hold⟩ | hold
        · obtain rfl : E.blockHash x = k := (hn.stored hb).key _ _ hq.get_head
          exact hI.rank_new_le hV hT hP hD hb hadd h hold hvq
        · exact le_trans (hI.best k _ hold hvq) hle
    childless := fun k x hx hne => hI.childless_added hV hT hP hD hadd h hx hne
    cached := by
      obtain ⟨k, a, q, ha, hva, -, hcached⟩ := hI.cached
      by_cases htip : n'.tip.height ≤ a.height
      · exact ⟨k, a, q, ha.mono hmono, hva, htip, h.cachedFrom hn hcached htip⟩
      · -- the tip is the highest valid chain now
        obtain ⟨x, q, rfl, -, -, hx⟩ := hn'.exists_head
        exact ⟨_, x, q, hn'.chain, hvalid, by omega,
          h.cachedFrom hn (hcached.mono (by omega)) (by omega)⟩ }

end CoinCync

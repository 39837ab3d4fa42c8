import CoinCync.Totals

/-!
# The UTXO set is the replay of the canonical chain

`UtxoInv R n c`: the UTXO tables are what applying `c` from genesis gives. Connecting a block extends
the replay; disconnecting one shortens it only if the block was fresh, that is, if its output keys
and key images were new to its own past. Validation does not give that for coinbase outputs, so it
is a condition on the blocks delivered (`DeliversFresh`).
-/

namespace CoinCync

open List UtxoCore

variable {E : Env} {R : Rules E} {n n' : Node} {b : Block}

/-! ## Freshness -/

/-- If valid in context on the chain `q`, the block is fresh there. -/
def ValidFresh (R : Rules E) (b : Block) (q : List Block) : Prop :=
  ∀ u cp, u.toUtxoCore = replayUtxos E q → R.validateBlockCtx b q.head? u cp true = .valid →
    FreshFor E b.transactions (replayUtxos E q)

/-- The block is fresh on its own branch, if valid there. -/
def DeliversFresh (R : Rules E) (n : Node) (b : Block) : Prop :=
  ∀ q, Lineage E.linking n.db.get b.prevHash q → ValidFresh R b q

/-- The same for every stored block above genesis. -/
def StoredFresh (R : Rules E) (n : Node) : Prop :=
  ∀ k x q, Lineage E.linking n.db.get k (x :: q) → q ≠ [] → ValidFresh R x q

/-- A lineage is the stored block's own, or was there. -/
lemma ChainInv.lineage_of_storeBlock (hn : ChainInv R n c) (hb : Passed R n b)
    (hq : Lineage E.linking (n.storeBlock E b).db.get k (x :: q)) :
    (x = b ∧ Lineage E.linking n.db.get b.prevHash q) ∨ Lineage E.linking n.db.get k (x :: q) := by
  have hmono := Node.get_storeBlock_mono hb.new_body
  rcases Table.insert_cases hq.get_head with ⟨rfl, rfl⟩ | hget
  · left
    obtain ⟨r, hr, hlen⟩ := hn.parent_lineage hb
    have hown := ChainInv.lineage_storeBlock hb.new_body hr hlen
    rw [tail_eq_of_cons_eq (hq.unique hown)]
    exact ⟨rfl, hr⟩
  · right
    obtain ⟨r, hr⟩ := hn.rooted _ _ hget
    rw [← (hr.mono hmono).unique hq]
    exact hr

/-- Storing a fresh block keeps that. -/
lemma StoredFresh.storeBlock (hs : StoredFresh R n) (hn : ChainInv R n c) (hb : Passed R n b)
    (hfresh : DeliversFresh R n b) : StoredFresh R (n.storeBlock E b) := by
  intro k x q hq hne
  rcases hn.lineage_of_storeBlock hb hq with ⟨rfl, hold⟩ | hold
  · exact hfresh q hold
  · exact hs k x q hold hne

/-! ## The invariant -/

/-- The tables are the replay of a fresh chain. -/
structure UtxoInv (R : Rules E) (n : Node) (c : List Block) : Prop where
  replayed : Ledger.Replayed E n.ledger c
  fresh : FreshChain E c
  stored : StoredFresh R n

lemma genesisNode_utxoInv (R : Rules E) (pool : Option SparkPool) :
    UtxoInv R (genesisNode R pool) [R.genesis] where
  replayed := by
    show (UtxoSet.connectBlock E _ 0 R.genesis.transactions).toUtxoCore = _
    rw [UtxoSet.toUtxoCore_connectBlock, replayUtxos_cons, R.genesis_height]
    rfl
  fresh := by
    intro b r hb hne
    rcases suffix_cons_iff.mp hb with heq | hb
    · exact absurd (cons.inj heq).2 hne
    · simp at hb
  stored := by
    -- only genesis is stored, and it has no past
    intro k x q hq hne
    obtain ⟨-, hx⟩ := get_genesisNode.mp hq.get_head
    have hlen : x.height = q.length := hq.height_head
    rw [hx, R.genesis_height] at hlen
    exact absurd (length_eq_zero_iff.mp hlen.symm) hne

/-- Disconnecting a fresh chain's newest blocks. -/
lemma Ledger.Replayed.disconnectAll (hl : Ledger.Replayed E l (o ++ t :: s))
    (hfresh : FreshChain E (o ++ t :: s)) (h : Ledger.disconnectAll E o l = some l') :
    Ledger.Replayed E l' (t :: s) := by
  refine Ledger.disconnectAll_rule ?_ hl h
  intro l l' x r hsuf hts hP hd
  exact hP.disconnect (hfresh x r hsuf (hts.ne_nil (cons_ne_nil _ _))) hd

/-- Connecting a fresh branch extends the replay. -/
lemma Ledger.Replayed.connects (hl : Ledger.Replayed E l (t :: s)) (hfresh : FreshChain E (t :: s))
    (hvalid : ∀ x r, x :: r <:+ g.reverse ++ t :: s → r ≠ [] → ValidFresh R x r)
    (h : Ledger.Connects R (t :: s) g l l') :
    Ledger.Replayed E l' (g.reverse ++ t :: s) ∧ FreshChain E (g.reverse ++ t :: s) := by
  have hend := Ledger.Connects.rule
    (P := fun l r => (Ledger.Replayed E l r ∧ FreshChain E r) ∧ r ≠ []) ?_
    ⟨⟨hl, hfresh⟩, cons_ne_nil _ _⟩ h
  · exact hend.1
  rintro l l' x r hsuf ⟨⟨hrep, hfr⟩, hne⟩ hv hc
  have hx : FreshFor E x.transactions (replayUtxos E r) :=
    hvalid x r hsuf hne l.utxos none hrep hv
  exact ⟨⟨hrep.connect hc, hfr.cons hx⟩, cons_ne_nil _ _⟩

/-- Re-applied blocks give their replay again. -/
lemma Ledger.Replayed.reapply (hl : Ledger.Replayed E l s) :
    Ledger.Replayed E (o.reverse.foldl (Ledger.reapply E) l) (o ++ s) := by
  induction o with
  | nil => exact hl
  | cons x o ih =>
    rw [reverse_cons, foldl_append]
    show (UtxoSet.connectBlock E _ x.height x.transactions).toUtxoCore = _
    rw [UtxoSet.toUtxoCore_connectBlock, ih, cons_append, replayUtxos_cons]

/-! ## Adding a block -/

/-- Blocks of a stored branch are fresh where valid. -/
lemma StoredFresh.of_suffix (hs : StoredFresh R n) (hq : Lineage E.linking n.db.get k q)
    (hx : x :: r <:+ q) (hne : r ≠ []) : ValidFresh R x r := by
  obtain ⟨o, rfl⟩ := hx
  obtain ⟨k', hk'⟩ := hq.suffix
  exact hs k' x r hk' hne

/-- The connected part of a fork is the replay on the fork point's own. -/
lemma UtxoInv.connects (hu : UtxoInv R n c) (hstored : StoredFresh R (n.storeBlock E b))
    (hf : ForkAt E (n.storeBlock E b) c b o f t s) (hg : f.reverse = g ++ rest)
    (hl1 : Ledger.disconnectAll E o n.ledger = some l1) (hl2 : Ledger.Connects R (t :: s) g l1 l2) :
    Ledger.Replayed E l2 (g.reverse ++ t :: s) ∧ FreshChain E (g.reverse ++ t :: s) := by
  have hrep := hu.replayed
  have hfr := hu.fresh
  rw [hf.chain] at hrep hfr
  have hsub : g.reverse ++ t :: s <:+ f ++ t :: s := by
    have hfg : f = rest.reverse ++ g.reverse := by
      rw [← reverse_append, ← hg, reverse_reverse]
    rw [hfg, append_assoc]
    exact suffix_append _ _
  exact (hrep.disconnectAll hfr hl1).connects (hfr.suffix (suffix_append _ _))
    (fun x r hx hne => hstored.of_suffix hf.branch (hx.trans hsub) hne) hl2

/-- Adding a block keeps the replay. -/
lemma Added.utxoInv (h : Added R n c b n' r c') (hn : ChainInv R n c) (hu : UtxoInv R n c)
    (hfresh : DeliversFresh R n b) : UtxoInv R n' c' := by
  cases h with
  | stopped => exact hu
  | stored hb => exact ⟨hu.replayed, hu.fresh, hu.stored.storeBlock hn hb hfresh⟩
  | @extended _ l hb hprev hl hforget =>
    have hstored := hu.stored.storeBlock hn hb hfresh
    have hx : FreshFor E b.transactions (replayUtxos E c) :=
      hfresh c (hprev ▸ hn.chain) n.utxos _ hu.replayed (hn.valid_head hb hprev)
    have hrep := hu.replayed.connect hl
    rw [hforget.eq]
    refine ⟨?_, hu.fresh.cons hx, hstored⟩
    show (l.utxos.evictOldOutputs b.height 1000).toUtxoCore = _
    rw [UtxoSet.toUtxoCore_evictOldOutputs]
    exact hrep
  | @failed _ o f g rest s t l1 l2 l3 e hb hf _ _ hg hl1 hl2 hl3 _ hres =>
    have hstored := hu.stored.storeBlock hn hb hfresh
    obtain ⟨hrep2, hfr2⟩ := hu.connects hstored hf hg hl1 hl2
    have hback : Ledger.Replayed E (o.reverse.foldl (Ledger.reapply E) l3) c := by
      rw [hf.chain]
      exact (hrep2.disconnectAll hfr2 hl3).reapply
    rw [hres.eq]
    exact ⟨hback, hu.fresh, hstored⟩
  | @reorged o f s t l1 l2 txs hb hf _ _ hl1 hl2 =>
    have hstored := hu.stored.storeBlock hn hb hfresh
    have hrep := hu.replayed
    have hfr := hu.fresh
    rw [hf.chain] at hrep hfr
    have hmid := hrep.disconnectAll hfr hl1
    have hfrt : FreshChain E (t :: s) := hfr.suffix (suffix_append _ _)
    have hlin := ((hn.stored hb).reorged hf (by rw [Node.get_storeBlock, if_pos rfl]) l2).chain
    obtain ⟨hrep2, hfr2⟩ := hmid.connects hfrt
      (fun x r hx hne => hstored.of_suffix hlin (by rwa [reverse_newBranch] at hx) hne) hl2
    rw [reverse_newBranch] at hrep2 hfr2
    exact ⟨hrep2, hfr2, hstored⟩

/-! ## Every run -/

/-- Steps that keep the UTXO set the replay of the chain. -/
def UtxoGuard (R : Rules E) (n : Node) : Op → Prop
  | .addBlock b => ReorgCached R n b ∧ DeliversFresh R n b
  | _ => True

lemma Stepped.utxoInv (h : Stepped R n c op n' c') (hn : ChainInv R n c) (hu : UtxoInv R n c)
    (hok : UtxoGuard R n op) : UtxoInv R n' c' := by
  cases h with
  | added _ hadded => exact hadded.utxoInv hn hu hok.2
  | unchanged => exact hu
  | rolledBack hc hl =>
    subst hc
    exact ⟨hu.replayed.disconnectAll hu.fresh hl, hu.fresh.suffix (suffix_append _ _),
      hu.stored⟩
  | restarted hst =>
    refine ⟨hst.utxos, hu.fresh, ?_⟩
    have hget : n'.db.get = n.db.get := by
      funext k
      show n'.db.blocks[k]? = n.db.blocks[k]?
      rw [hst.bodies]
    rw [StoredFresh, hget]
    exact hu.stored

/-- So it holds in every run. -/
lemma utxoInv_of_reaches (h : Run.Reaches (step R) (UtxoGuard R) (genesisNode R pool) n) :
    ∃ c, ChainInv R n c ∧ UtxoInv R n c :=
  reaches_invariant (fun m op hok => by cases op <;> first | exact hok.1 | trivial)
    (genesisNode_utxoInv R pool) (fun m m' q q' op hq hP hok hs => hs.utxoInv hq hP hok) h

/-! ## What a reorganisation disconnects -/

/-- What a disconnect loop takes off. -/
lemma Ledger.disconnectAll_eq_some (h : Ledger.disconnectAll E o l = some l') :
    l.supply = l'.supply + chainEmission o ∧ l.burned = l'.burned + chainBurn E o ∧
      l'.pool = rewindPool^[o.length] l.pool := by
  induction o generalizing l with
  | nil =>
    cases h
    exact ⟨rfl, rfl, rfl⟩
  | cons b o ih =>
    rw [Ledger.disconnectAll_cons, Option.bind_eq_some_iff] at h
    obtain ⟨l1, h1, h⟩ := h
    obtain ⟨hs1, hb1, -, hp1⟩ := Ledger.disconnect_eq_some h1
    obtain ⟨hs, hb, hp⟩ := ih h
    refine ⟨?_, ?_, ?_⟩
    · rw [chainEmission_cons]
      omega
    · rw [chainBurn_cons]
      omega
    · rw [hp, hp1, length_cons, Function.iterate_succ_apply]

/-- The loop from `n` to `n'` took every block above the fork point off once. -/
structure ReorgComplete (E : Env) (n : Node) (b : Block) (n' : Node) (forkPoint : ℕ) (mid : Node)
    (d : Disconnected) : Prop where
  forkPoint_eq : (n.storeBlock E b).findForkPoint b = some forkPoint
  loop : disconnectTo E (n.storeBlock E b) forkPoint = some (mid, d)
  heights : d.heights.map (·.1) = heightsAbove forkPoint n.tip.height
  bodies : d.txLists = (n.blocksAt (heightsAbove forkPoint n.tip.height)).map (·.transactions)
  supply : n.stats.totalSupply = mid.stats.totalSupply
    + ((heightsAbove forkPoint n.tip.height).map calculateBlockReward).sum
  burned : n.stats.totalBurned = mid.stats.totalBurned
    + ((n.blocksAt (heightsAbove forkPoint n.tip.height)).map (blockFeeBurn E)).sum
  rewinds : mid.sparkPool = rewindPool^[n.tip.height - forkPoint] n.sparkPool
  atFork : mid.utxos.toUtxoCore
    = replayFrom E 0 (n.blocksAt (List.range (forkPoint + 1))) empty
  replayed : n'.utxos.toUtxoCore
    = replayFrom E 0 (n'.blocksAt (List.range (n'.tip.height + 1))) empty

/-- In every run whose reorganisations stay inside the cache and whose blocks are fresh on their own
branch, a successful reorganisation disconnects everything above the fork point, and leaves the
replay of the new chain. -/
theorem reorg_disconnects_all {pool : Option SparkPool} {txs : List Transaction}
    (h : Run.Reaches (step R) (UtxoGuard R) (genesisNode R pool) n)
    (hok : UtxoGuard R n (.addBlock b))
    (hadd : addBlock R n b = some (n', .ok (.acceptedReorg txs))) :
    ∃ forkPoint mid d, ReorgComplete E n b n' forkPoint mid d := by
  obtain ⟨c, hn, hu⟩ := utxoInv_of_reaches h
  obtain ⟨c', hadded⟩ := addBlock_added hn hok.1 hadd
  have hn' := hadded.chainInv hn
  have hu' := hadded.utxoInv hn hu hok.2
  have hend : n'.utxos.toUtxoCore
      = replayFrom E 0 (n'.blocksAt (range (n'.tip.height + 1))) empty := by
    rw [hn'.blocksAt_eq, replayFrom_reverse hn'.chain]
    exact hu'.replayed
  cases hadded with
  | stopped hpre => exact absurd rfl ((preCheck_ne_accepted hpre).2 txs)
  | stored _ _ _ hno => exact absurd rfl (hno txs)
  | @reorged o f s t l1 l2 _ hb hf _ hcov hl1 hl2 =>
    have hn1 := hn.stored hb
    have hrep := hu.replayed
    have hfr := hu.fresh
    have hc := hf.chain
    subst hc
    obtain ⟨hsup, hburn, hpool⟩ := Ledger.disconnectAll_eq_some hl1
    have hheights : heightsAbove t.height n.tip.height = o.map (·.height) := hn.heightsAbove_eq
    have hblocks : n.blocksAt (heightsAbove t.height n.tip.height) = o := by
      rw [hheights]
      exact hn.blocksAt_map_height fun x hx => mem_append_left _ hx
    refine ⟨t.height, (n.storeBlock E b).disconnected o l1, ({} : Disconnected).pushAll E o, ?_⟩
    exact {
      forkPoint_eq := hf.findForkPoint_eq hn1
      loop := by
        rw [disconnectTo_eq hn1 hcov, Node.ledger_storeBlock, hl1]
        rfl
      heights := by
        rw [hheights]
        simp [Disconnected.pushAll]
      bodies := by
        rw [hblocks]
        simp [Disconnected.pushAll]
      supply := by
        rw [hheights, map_map]
        exact hsup
      burned := by
        rw [hblocks]
        exact hburn
      rewinds := by
        rw [← hn.length_above]
        exact hpool
      atFork := by
        obtain ⟨k, hk⟩ := hn.chain.suffix
        rw [hn.blocksAt_range, replayFrom_reverse hk]
        exact hrep.disconnectAll hfr hl1
      replayed := hend }

/-- A coinbase with one output, told apart by its `extra`. -/
def payTo (address extra : ℕ) : Transaction :=
  { txType := .coinbase, outputs := [{ stealthAddress := address }], extra := .bytes extra }

/-- On an empty genesis, distinct output keys are fresh. -/
lemma freshFor_on_genesis (hempty : R.genesis.transactions = [])
    (hnodup : (b.transactions.flatMap (removedKeys E)).Nodup) :
    FreshFor E b.transactions (replayUtxos E [R.genesis]) := by
  rw [replayUtxos_cons, hempty]
  exact ⟨hnodup, fun _ _ => rfl, fun ki _ => Finset.notMem_empty ki⟩

lemma deliversFresh_on_genesis (hprev : n.db.get b.prevHash = some R.genesis)
    (hempty : R.genesis.transactions = [])
    (hnodup : (b.transactions.flatMap (removedKeys E)).Nodup) : DeliversFresh R n b := by
  intro q hq u cp _ _
  rw [hq.eq_singleton hprev R.genesis_height]
  exact freshFor_on_genesis hempty hnodup

/-- A block without transactions is fresh anywhere. -/
lemma deliversFresh_of_no_txs (hb : b.transactions = []) : DeliversFresh R n b := by
  intro q _ u cp _ _
  rw [hb]
  exact ⟨nodup_nil, by simp, by simp⟩

/-- On genesis, a block with a heavier sibling. -/
theorem reorg_disconnects_all_sibling :
    ∃ n n' b txs, Run.Reaches (step openMainnet) (UtxoGuard openMainnet)
        (genesisNode openMainnet none) n ∧
      UtxoGuard openMainnet n (.addBlock b) ∧
      addBlock openMainnet n b = some (n', .ok (.acceptedReorg txs)) ∧
      ∃ forkPoint mid d, ReorgComplete (sampleEnv .mainnet 0) n b n' forkPoint mid d := by
  set R := openMainnet
  set a1 := sampleBlock 1 1 0 (2 ^ 255) [payTo 5 1]
  set b1 := sampleBlock 1 2 0 (2 ^ 130) [payTo 6 2]
  have hrun : ∃ n ∈ step R (genesisNode R none) (.addBlock a1), ReorgCached R n b1 ∧
      n.db.get b1.prevHash = some R.genesis ∧ ∃ p ∈ addBlock R n b1, p.2 = .ok (.acceptedReorg []) := by
    decide +kernel
  obtain ⟨n, hstep, hcached, hprev, ⟨n', r⟩, hadd, rfl⟩ := hrun
  have hok1 : UtxoGuard R (genesisNode R none) (.addBlock a1) :=
    ⟨by decide +kernel, deliversFresh_on_genesis (by decide +kernel) rfl (by decide +kernel)⟩
  have hok2 : UtxoGuard R n (.addBlock b1) :=
    ⟨hcached, deliversFresh_on_genesis hprev rfl (by decide +kernel)⟩
  have hreach : Run.Reaches (step R) (UtxoGuard R) (genesisNode R none) n :=
    .tail .refl hok1 hstep
  exact ⟨n, n', b1, [], hreach, hok2, hadd, reorg_disconnects_all hreach hok2 hadd⟩

/-! A run that evicts a canonical block from the cache and then rolls back far enough for a fork at
genesis to be allowed: 300 siblings of the first block fill the cache, the chain grows to 202 blocks,
which evicts the first, and is rolled back to the checkpoint at 144. -/

/-- The blocks of the long chain. -/
def longChainBlock (height : ℕ) : Block :=
  sampleBlock height 1 (if height = 1 then 0 else 1000 * (height - 1) + 1) (2 ^ 255)
    (if height = 1 then [payTo 5 1] else [])

/-- The run. -/
def evictingRun : List Op :=
  .addBlock (longChainBlock 1) ::
    (List.range 300).map (fun i => .addBlock (sampleBlock 1 (i + 2) 0 (2 ^ 255) [])) ++
    (List.range' 2 201).map (fun h => .addBlock (longChainBlock h)) ++ [.rollback 144]

/-- The output of the evicted block is still in the set after the reorganisation that drops it. -/
theorem evicted_block_survives_reorg :
    ∃ n n' b txs, Run.Reaches (step openMainnet) (fun _ _ => True)
        (genesisNode openMainnet none) n ∧
      addBlock openMainnet n b = some (n', .ok (.acceptedReorg txs)) ∧
      (n'.utxos.outputs (3, 0)).isSome ∧
      n'.utxos.toUtxoCore ≠ replayFrom (sampleEnv .mainnet 0) 0
        (n'.blocksAt (List.range (n'.tip.height + 1))) empty := by
  simp only [← and_assoc]
  refine Exists.imp (fun n => Exists.imp fun n' (h : _ ∧ _) =>
    ⟨sampleBlock 1 999 0 (2 ^ 130) [], [], h.1, ne_of_apply_ne (·.outputs (3, 0)) h.2⟩) ?_
  simp only [and_assoc, exists_and_left]
  apply Run.exists_reaches_of_exec evictingRun
  decide +kernel

end CoinCync

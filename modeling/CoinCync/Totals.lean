import CoinCync.System

/-!
# The running totals

`Totals` relates `total_supply`, `total_burned` and `total_difficulty` to the canonical chain, with
what the state record on disk has of them. One thing is lost: the record keeps the burn as a `u64`,
so a restart takes a burn total of `2 ^ 64` or more back modulo `2 ^ 64`.
-/

namespace CoinCync

open List Option

variable {E : Env} {R : Rules E} {n : Node}

/-! ## What the totals are measured against -/

/-- The canonical blocks of a node at the given heights. -/
def Node.blocksAt (n : Node) (heights : List ℕ) : List Block := heights.filterMap n.getBlockByHeight

/-- The totals are those of the canonical chain. -/
structure TotalsHold (E : Env) (n : Node) : Prop where
  complete : ∀ h ≤ n.tip.height, (n.getBlockByHeight h).isSome
  supply : n.stats.totalSupply = ((List.range (n.tip.height + 1)).map calculateBlockReward).sum
  burned : n.stats.totalBurned
    = ((n.blocksAt (List.range (n.tip.height + 1))).map (blockFeeBurn E)).sum
  work : n.stats.totalDifficulty = 1 + ((n.blocksAt (List.range' 1 n.tip.height)).map Block.work).sum
  height : n.stats.height = n.tip.height
  tipHash : n.stats.tipHash = n.tip.hash
  canonical : n.getBlockHash n.tip.height = some n.tip.hash

/-- The branch of the block has work that fits `u128`. -/
def WorkFits (E : Env) (n : Node) (b : Block) : Prop :=
  ∀ q, Lineage E.linking n.db.get b.prevHash q → chainWork (b :: q) < 2 ^ 128

/-- The steps along which the totals are kept. -/
def TotalsGuard (R : Rules E) (n : Node) : Op → Prop
  | .addBlock b => ReorgCached R n b ∧ WorkFits E n b
  | .rollback _ => True
  | .restart => n.stats.totalBurned < 2 ^ 64

/-- The totals against the chain, in memory and on disk. -/
structure Totals (E : Env) (n : Node) (c : List Block) : Prop where
  balanced : Ledger.Balanced E n.ledger c
  work : n.stats.totalDifficulty = chainWork c
  fits : chainWork c < 2 ^ 128
  saved : ∀ st, n.db.state = some st →
    st.totalSupply = n.stats.totalSupply ∧ st.totalBurned = n.stats.totalBurned % 2 ^ 64

/-! ## The start -/

/-- Coinbase transactions burn nothing. -/
lemma blockFeeBurn_genesis (R : Rules E) : blockFeeBurn E R.genesis = 0 := by
  have hnone : R.genesis.transactions.filter (!·.isCoinbase) = [] := by
    rw [filter_eq_nil_iff]
    intro tx htx
    simp [R.genesis_coinbase tx htx]
  rw [blockFeeBurn, hnone]
  exact if_pos (.inr rfl)

lemma genesisNode_totals (R : Rules E) (pool : Option SparkPool) :
    Totals E (genesisNode R pool) [R.genesis] where
  balanced := by
    have h0 := R.genesis_height
    constructor
    · show calculateBlockReward 0 = chainEmission [R.genesis]
      simp [chainEmission, h0]
    · show 0 = chainBurn E [R.genesis]
      simp [chainBurn, blockFeeBurn_genesis]
  work := by
    show 1 = chainWork [R.genesis]
    simp [chainWork, Block.weight, R.genesis_height]
  fits := by simp [chainWork, Block.weight, R.genesis_height]
  saved := by
    intro st hst
    cases hst
    exact ⟨rfl, rfl⟩

/-! ## Adding a block -/

/-- The branch below a passed block is stored without it. -/
lemma ChainInv.branch_of_forkAt (hn : ChainInv R n c) (hb : Passed R n b)
    (hf : ForkAt E (n.storeBlock E b) c b o f t s) :
    Lineage E.linking n.db.get b.prevHash (f ++ t :: s) := by
  obtain ⟨q, hq, -⟩ := hn.parent_lineage hb
  have heq := (hq.mono (Node.get_storeBlock_mono hb.new_body)).unique hf.branch
  rwa [← heq]

/-- Supply and burn: off with `o`, on with the branch. -/
lemma Ledger.Balanced.reorg (hl : Ledger.Balanced E l (o ++ t :: s))
    (h1 : Ledger.disconnectAll E o l = some l1) (h2 : Ledger.Connects R (t :: s) (newBranch f b) l1 l2) :
    Ledger.Balanced E l2 (b :: f ++ t :: s) := by
  have hmid : Ledger.Balanced E l1 (t :: s) :=
    Ledger.disconnectAll_rule (fun _ _ _ _ _ _ hP hd => hP.disconnect hd) hl h1
  have hend := Ledger.Connects.rule
    (fun _ _ _ _ _ hP _ hd => hP.connect hd) hmid h2
  rwa [reverse_newBranch] at hend

/-- Adding a block keeps them. -/
lemma Added.totals (h : Added R n c b n' r c') (hn : ChainInv R n c) (ht : Totals E n c)
    (hfits : WorkFits E n b) : Totals E n' c' := by
  cases h with
  | stopped => exact ht
  | stored => exact ⟨ht.balanced, ht.work, ht.fits, ht.saved⟩
  | @extended _ l hb hprev hl hforget =>
    have hlin := hn.lineage_tip hb hprev
    have hheight : b.height = c.length := hlin.height_head
    have hpos := length_pos_of_ne_nil hn.chain.ne_nil
    have hw : b.weight = b.work := if_neg (by omega)
    have hfit : chainWork (b :: c) < 2 ^ 128 := hfits c (hprev ▸ hn.chain)
    have hbal := ht.balanced.connect hl
    rw [hforget.eq]
    refine ⟨⟨hbal.1, hbal.2⟩, ?_, hfit, ?_⟩
    · show (n.stats.totalDifficulty + b.work) % 2 ^ 128 = chainWork (b :: c)
      rw [chainWork_cons, hw] at hfit ⊢
      rw [ht.work, add_comm, Nat.mod_eq_of_lt hfit]
    · intro st hst
      cases hst
      exact ⟨rfl, rfl⟩
  | failed hb _ _ _ _ _ _ _ _ hres =>
    -- the whole statistics record is put back
    rw [hres.eq]
    exact ⟨ht.balanced, ht.work, ht.fits, ht.saved⟩
  | @reorged o f s t l1 l2 txs hb hf _ _ hl1 hl2 =>
    have hfit : chainWork (b :: f ++ t :: s) < 2 ^ 128 := hfits _ (hn.branch_of_forkAt hb hf)
    have hbal := ht.balanced
    rw [hf.chain] at hbal
    have hbal' := hbal.reorg hl1 hl2
    refine ⟨⟨hbal'.1, hbal'.2⟩, ?_, hfit, ?_⟩
    · show (n.storeBlock E b).calculateForkCumulativeWork b = _
      rw [(hn.stored hb).calculateForkCumulativeWork_eq hf.branch hf.height]
      omega
    · intro st hst
      cases hst
      exact ⟨rfl, rfl⟩

/-! ## Rolling back and restarting -/

/-- Above genesis every block weighs its work. -/
lemma ChainInv.sum_weight_above (hn : ChainInv R n (o ++ t :: s)) :
    chainWork (o ++ t :: s) = (o.map Block.work).sum + chainWork (t :: s) := by
  have hweight : o.map Block.weight = o.map Block.work := by
    apply map_congr_left
    intro x hx
    have hlt : t.height < x.height := hn.chain.height_lt_of_mem_above hx
    exact if_neg (by omega)
  rw [chainWork_append]
  rw [chainWork, hweight]

lemma Totals.rolledBack (ht : Totals E n (o ++ t :: s)) (hn : ChainInv R n (o ++ t :: s))
    (hl : Ledger.disconnectAll E o n.ledger = some l) :
    Totals E (n.rolledBack E o t l) (t :: s) where
  balanced := Ledger.disconnectAll_rule (fun _ _ _ _ _ _ hP hd => hP.disconnect hd) ht.balanced hl
  work := by
    show n.stats.totalDifficulty - (o.map Block.work).sum = chainWork (t :: s)
    rw [ht.work, hn.sum_weight_above]
    omega
  fits := by
    have := ht.fits
    rw [hn.sum_weight_above] at this
    omega
  saved := by
    intro st hst
    cases hst
    exact ⟨rfl, rfl⟩

/-- So does a restart on a burn that fits. -/
lemma Totals.restarted (ht : Totals E n c) (hburn : n.stats.totalBurned < 2 ^ 64)
    (hst : Restarted R n c st n') : Totals E n' c := by
  obtain ⟨hsupply, hburned⟩ := ht.saved st hst.saved
  rw [Nat.mod_eq_of_lt hburn] at hburned
  have hsupply' : n'.stats.totalSupply = n.stats.totalSupply := hst.supply.trans hsupply
  have hburned' : n'.stats.totalBurned = n.stats.totalBurned := hst.burned.trans hburned
  refine ⟨⟨hsupply'.trans ht.balanced.1, hburned'.trans ht.balanced.2⟩, ?_, ht.fits, ?_⟩
  · have := ht.fits
    rw [hst.work]
    omega
  · intro st' hst'
    rw [hst.state, hst.saved] at hst'
    cases hst'
    rw [hsupply', hburned', Nat.mod_eq_of_lt hburn]
    exact ⟨hsupply, hburned⟩

lemma Stepped.totals (h : Stepped R n c op n' c') (hn : ChainInv R n c) (ht : Totals E n c)
    (hok : TotalsGuard R n op) : Totals E n' c' := by
  cases h with
  | added _ hadded => exact hadded.totals hn ht hok.2
  | unchanged => exact ht
  | rolledBack hc hl =>
    subst hc
    exact ht.rolledBack hn hl
  | restarted hst => exact ht.restarted hok hst

/-! ## Every run -/

/-- Canonical blocks at their own heights. -/
lemma ChainInv.blocksAt_map_height (hn : ChainInv R n c) (hsub : ∀ x ∈ q, x ∈ c) :
    n.blocksAt (q.map (·.height)) = q := by
  induction q with
  | nil => rfl
  | cons x q ih =>
    have hx : n.getBlockByHeight x.height = some x := by
      rw [hn.getBlockByHeight_eq]
      exact hn.atHeight_of_mem (hsub x mem_cons_self)
    rw [Node.blocksAt, map_cons, filterMap_cons, hx]
    exact congrArg (x :: ·) (ih fun y hy => hsub y (mem_cons_of_mem _ hy))

/-- The blocks up to a canonical one, from genesis. -/
lemma ChainInv.blocksAt_range (hn : ChainInv R n (o ++ t :: s)) :
    n.blocksAt (List.range (t.height + 1)) = (t :: s).reverse := by
  obtain ⟨k, hk⟩ := hn.chain.suffix
  have hheights : (t :: s).map (·.height) = (range (t :: s).length).reverse := hk.map_height
  have hlen : t.height = s.length := hk.height_head
  have hrange : range (t.height + 1) = (t :: s).reverse.map (·.height) := by
    rw [map_reverse, hheights, reverse_reverse, hlen, length_cons]
  rw [hrange]
  apply hn.blocksAt_map_height
  intro x hx
  exact mem_append_right _ (mem_reverse.mp hx)

/-- The canonical blocks of a node, read from genesis. -/
lemma ChainInv.blocksAt_eq (hn : ChainInv R n c) :
    n.blocksAt (List.range (n.tip.height + 1)) = c.reverse := by
  obtain ⟨a, r, rfl, -, -, ha⟩ := hn.exists_head
  rw [← ha]
  exact hn.blocksAt_range (o := [])

/-- The totals are those of the chain read by height. -/
lemma Totals.totalsHold (ht : Totals E n c) (hn : ChainInv R n c) : TotalsHold E n := by
  obtain ⟨a, r, rfl, -, hhash, hheight⟩ := hn.exists_head
  have hblocks := hn.blocksAt_eq
  have hcomplete : ∀ h ≤ n.tip.height, (n.getBlockByHeight h).isSome := by
    intro h hh
    obtain ⟨x, hx⟩ := hn.chain.exists_atHeight (by show h ≤ a.height; omega)
    rw [hn.getBlockByHeight_eq, hx]
    rfl
  exact {
    complete := hcomplete
    supply := by
      have hsum : n.stats.totalSupply = chainEmission (a :: r) := ht.balanced.1
      rw [hsum, chainEmission_eq_emittedThrough hn.chain, hheight]
      rfl
    burned := by
      have hsum : n.stats.totalBurned = chainBurn E (a :: r) := ht.balanced.2
      rw [hsum, hblocks, map_reverse, sum_reverse]
      rfl
    work := by
      -- the heights above genesis are the tail of all heights
      have htail : n.blocksAt (range' 1 n.tip.height) = (a :: r).reverse.tail := by
        obtain ⟨g, hg⟩ := isSome_iff_exists.mp (hcomplete 0 (Nat.zero_le _))
        rw [← hblocks, Node.blocksAt, Node.blocksAt, range_eq_range', range'_succ,
          filterMap_cons, hg]
        rfl
      rw [ht.work, chainWork_eq_tail hn.chain, htail]
    height := hn.stats_height
    tipHash := hn.stats_hash
    canonical := by
      have hmem : a ∈ a :: r := mem_cons_self
      rw [← hheight, hn.getBlockHash_eq, hn.atHeight_of_mem hmem, map_some, hhash] }

/-- In every run whose reorganisations stay inside the cache, whose branches have a work total that
fits, and which never restarts on a burn of `2 ^ 64` or more, the totals are those of the canonical
chain. -/
theorem totals_of_reaches {pool : Option SparkPool}
    (h : Run.Reaches (step R) (TotalsGuard R) (genesisNode R pool) n) : TotalsHold E n := by
  obtain ⟨c, hn, ht⟩ := reaches_invariant
    (fun m op hok => by cases op <;> first | exact hok.1 | trivial)
    (genesisNode_totals R pool) (fun m m' q q' op hq hP hok hs => hs.totals hq hP hok) h
  exact ht.totalsHold hn

lemma ChainInv.workFits_of_tip (hn : ChainInv R n c) (hprev : b.prevHash = n.tip.hash)
    (hfit : chainWork (b :: c) < 2 ^ 128) : WorkFits E n b := by
  intro q hq
  rw [hprev] at hq
  rwa [hq.unique hn.chain]

/-- A block on genesis, then a restart. -/
theorem totals_of_reaches_restart :
    ∃ n, Run.Reaches (step openMainnet) (TotalsGuard openMainnet) (genesisNode openMainnet none) n ∧
      n.tip.height = 1 ∧ TotalsHold (sampleEnv .mainnet 0) n := by
  set R := openMainnet
  set b := sampleBlock 1 1 0 (2 ^ 255) []
  have hrun : ∃ n1 ∈ step R (genesisNode R none) (.addBlock b), n1.stats.totalBurned < 2 ^ 64 ∧
      ∃ n2 ∈ step R n1 .restart, n2.tip.height = 1 := by
    decide +kernel
  obtain ⟨n1, hn1, hburn, n2, hn2, htip⟩ := hrun
  have hcached : ReorgCached R (genesisNode R none) b :=
    ReorgCached.of_isMainChain (by decide +kernel)
  have hfits : WorkFits (sampleEnv .mainnet 0) (genesisNode R none) b :=
    (genesisNode_chainInv R none).workFits_of_tip (by decide +kernel) (by decide +kernel)
  have hreach : Run.Reaches (step R) (TotalsGuard R) (genesisNode R none) n2 :=
    .tail (.tail .refl (i := .addBlock b) ⟨hcached, hfits⟩ hn1) (i := .restart) hburn hn2
  exact ⟨n2, hreach, htip, totals_of_reaches hreach⟩

/-- Pays a fee of `2 ^ 64 - 1`; congested, it burns half. -/
def burningBlock (height : ℕ) : Block :=
  sampleBlock height 1 (if height = 1 then 0 else 1000 * (height - 1) + 1) (2 ^ 255)
    [{ txType := .transfer, fee := 2 ^ 64 - 1, extra := .bytes height }]

/-- Two congested blocks burn `2 ^ 63` each; the restart comes back with a burn total of zero. -/
theorem restart_forgets_burn :
    ∃ n, Run.Reaches (step (sampleRules .mainnet (2 ^ 21) fun _ => true)) (fun _ _ => True)
        (genesisNode (sampleRules .mainnet (2 ^ 21) fun _ => true) none) n ∧
      n.stats.totalBurned = 0 ∧
      ((n.blocksAt (List.range (n.tip.height + 1))).map
        (blockFeeBurn (sampleEnv .mainnet (2 ^ 21)))).sum = 2 ^ 64 ∧
      ¬ TotalsHold (sampleEnv .mainnet (2 ^ 21)) n := by
  simp only [← and_assoc]
  refine Exists.imp (fun n h => ⟨h, fun hhold => ?_⟩) ?_
  · have hburned := hhold.burned
    rw [h.1.2, h.2] at hburned
    exact absurd hburned (by decide)
  · simp only [and_assoc]
    apply Run.exists_reaches_of_exec
      [.addBlock (burningBlock 1), .addBlock (burningBlock 2), .restart]
    decide +kernel

end CoinCync

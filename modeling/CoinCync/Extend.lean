import CoinCync.ChainInvariant

/-!
# Storing a block and extending the tip

A block that passes the checks has a stored parent, one below it, and a hash that is new. Storing it
keeps the canonical chain; connecting it on the tip makes it the head. Cache eviction only forgets.
-/

namespace CoinCync

open Table Node

variable {E : Env} {R : Rules E} {n n' : Node} {b : Block} {c q : List Block}

/-! ## What the checks establish -/

/-- The block passes the checks before its body is stored. -/
structure Passed (R : Rules E) (n : Node) (b : Block) : Prop where
  new_cache : n.blocks[E.blockHash b]? = none
  new_body : n.db.get (E.blockHash b) = none
  parent : 0 < b.height → n.getBlock b.prevHash ≠ none
  height : b.height = expectedHeight b (n.getBlock b.prevHash)
  checkpoint : R.verifyCheckpoint b.height (E.blockHash b) ≠ some false
  timestamp : 11 ≤ b.height → R.timestampOk n b = true
  target : 1 ≤ b.height → R.targetOk n b (n.isMainChain b) = true
  valid : R.validateBlockCtx b (n.getBlock b.prevHash) n.utxos n.db.assumeValid (n.isMainChain b)
    = .valid
  commitment : n.isMainChain b = true → R.commitmentOk n b = true

/-- A block on the tip is validated in context. -/
lemma Passed.valid_tip (hb : Passed R n b) (hprev : b.prevHash = n.tip.hash) :
    R.validateBlockCtx b (n.getBlock b.prevHash) n.utxos n.db.assumeValid true = .valid := by
  have hvalid := hb.valid
  rwa [show n.isMainChain b = true by simp [isMainChain, hprev]] at hvalid

/-- The checks pass exactly such blocks. -/
lemma preCheck_eq_none : preCheck R n b = none ↔ Passed R n b := by
  simp only [preCheck, ite_eq_iff, reduceCtorEq, and_false, false_or]
  constructor
  · rintro ⟨hknown, hparent, hheight, hcp, htime, htarget, h⟩
    rw [not_or] at hknown
    split at h
    · cases h
    · cases h
    · rename_i hvalid
      refine ⟨by simpa using hknown.1, by simpa using hknown.2, ?_, not_not.mp hheight, hcp, ?_, ?_,
        hvalid, ?_⟩
      · exact fun hpos => by simpa [hpos] using hparent
      · exact fun hle => by simpa [hle] using htime
      · exact fun hle => by simpa [hle] using htarget
      · exact fun hmain => by simpa [hmain] using h
  · intro h
    refine ⟨by simp [h.new_cache, h.new_body], ?_, not_not.mpr h.height, h.checkpoint, ?_, ?_, ?_⟩
    · exact fun hbad => h.parent hbad.2 (Option.isNone_iff_eq_none.mp hbad.1)
    · exact fun hbad => by simp [h.timestamp hbad.1] at hbad
    · exact fun hbad => by simp [h.target hbad.1] at hbad
    · rw [h.valid]
      exact if_neg fun hbad => by simp [h.commitment hbad.1] at hbad

/-- The checks themselves never accept a block. -/
lemma preCheck_ne_accepted (h : preCheck R n b = some r) :
    r ≠ .ok .accepted ∧ ∀ txs, r ≠ .ok (.acceptedReorg txs) := by
  unfold preCheck at h
  simp only at h
  repeat' split at h
  all_goals first
    | (obtain rfl := Option.some.inj h; simp)
    | simp at h

/-- A block that passes has a lineage below it, and is no second genesis. -/
lemma ChainInv.parent_lineage (hn : ChainInv R n c) (hb : Passed R n b) :
    ∃ q, Lineage E.linking n.db.get b.prevHash q ∧ b.height = q.length := by
  have hpos : 0 < b.height := by
    rw [Nat.pos_iff_ne_zero]
    intro h0
    -- height zero is pinned to the genesis hash, and genesis is stored
    have hk := R.checkpoint_genesis (E.blockHash b) (h0 ▸ hb.checkpoint)
    obtain ⟨o, g, -, hg0, kg, hg⟩ := hn.chain.exists_root
    have hgen := hn.genesis _ _ hg hg0
    have hkg := hn.key _ _ hg
    have hnone := hb.new_body
    rw [hk, ← hgen, hkg, hg] at hnone
    simp at hnone
  obtain ⟨p, hp⟩ := Option.ne_none_iff_exists'.mp (hb.parent hpos)
  have hheight := hb.height
  rw [hp, expectedHeight, if_neg (by omega)] at hheight
  have hheight : b.height = p.height + 1 := hheight
  rw [hn.getBlock_eq] at hp
  obtain ⟨q, hq⟩ := hn.rooted _ _ hp
  obtain ⟨a, r, rfl⟩ := List.exists_cons_of_ne_nil hq.ne_nil
  obtain rfl := Option.mem_unique hq.get_head hp
  have hlen : a.height = r.length := hq.height_head
  exact ⟨a :: r, hq, by rw [hheight, hlen, List.length_cons]⟩

/-! ## Storing the body -/

lemma Node.get_storeBlock (n : Node) (b : Block) (k : Hash) :
    (n.storeBlock E b).db.get k = if k = E.blockHash b then some b else n.db.get k :=
  getElem?_insert _ _ _ _

lemma Node.blocks_storeBlock (n : Node) (b : Block) (k : Hash) :
    (n.storeBlock E b).blocks[k]? = if k = E.blockHash b then some b else n.blocks[k]? :=
  getElem?_insert _ _ _ _

lemma Node.get_storeBlock_mono (hnew : n.db.get (E.blockHash b) = none) (k : Hash) (x : Block)
    (hx : n.db.get k = some x) : (n.storeBlock E b).db.get k = some x := by
  rw [get_storeBlock, if_neg, hx]
  rintro rfl
  rw [hnew] at hx
  simp at hx

/-- The stored block has a lineage. -/
lemma ChainInv.lineage_storeBlock (hnew : n.db.get (E.blockHash b) = none)
    (hq : Lineage E.linking n.db.get b.prevHash q) (hb : b.height = q.length) :
    Lineage E.linking (n.storeBlock E b).db.get (E.blockHash b) (b :: q) := by
  have hq' := hq.mono (get_storeBlock_mono hnew)
  have hself : (n.storeBlock E b).db.get (E.blockHash b) = some b := by
    rw [get_storeBlock, if_pos rfl]
  exact hq'.cons hself hb

/-- Storing keeps the canonical chain. -/
lemma ChainInv.storeBlock (hn : ChainInv R n c) (hnew : n.db.get (E.blockHash b) = none)
    (hq : Lineage E.linking n.db.get b.prevHash q) (hb : b.height = q.length) :
    ChainInv R (n.storeBlock E b) c :=
  { hn with
    chain := hn.chain.mono (get_storeBlock_mono hnew)
    cache_sub := by
      intro k x hx
      rw [blocks_storeBlock] at hx
      rw [get_storeBlock]
      split at hx
      · rwa [if_pos ‹_›]
      · rw [if_neg ‹_›]
        exact hn.cache_sub k x hx
    key := by
      intro k x hx
      rcases insert_cases hx with ⟨rfl, rfl⟩ | hx
      · rfl
      · exact hn.key k x hx
    rooted := by
      intro k x hx
      rcases insert_cases hx with ⟨rfl, -⟩ | hx
      · exact ⟨b :: q, ChainInv.lineage_storeBlock hnew hq hb⟩
      · obtain ⟨r, hr⟩ := hn.rooted k x hx
        exact ⟨r, hr.mono (get_storeBlock_mono hnew)⟩
    genesis := by
      intro k x hx h0
      rcases insert_cases hx with ⟨-, rfl⟩ | hx
      · have := List.length_pos_of_ne_nil hq.ne_nil
        omega
      · exact hn.genesis k x hx h0 }

/-! ## Eviction -/

/-- `n'` is `n` with part of its cache gone, none within 200 of the tip. -/
structure Forgets (n n' : Node) : Prop where
  eq : n' = { n with blocks := n'.blocks, heightToHash := n'.heightToHash }
  blocks : ∀ (k : Hash) (b : Block), n'.blocks[k]? = some b → n.blocks[k]? = some b
  heights : ∀ (h : ℕ) (k : Hash), n'.heightToHash[h]? = some k → n.heightToHash[h]? = some k
  keeps_blocks : ∀ (k : Hash) (b : Block), n.blocks[k]? = some b →
    (∀ h : ℕ, n.heightToHash[h]? = some k → n.tip.height ≤ h + 200) → n'.blocks[k]? = some b
  keeps_heights : ∀ (h : ℕ) (k : Hash), n.heightToHash[h]? = some k → n.tip.height ≤ h + 200 →
    n'.heightToHash[h]? = some k

/-- The eviction loop only forgets. -/
lemma Node.evictLoop_forgets (entries : List (ℕ × Hash)) (left : ℕ) (n m : Node)
    (hent : ∀ e ∈ entries, n.heightToHash[e.1]? = some e.2) (hm : Forgets n m) :
    Forgets n (evictLoop n.tip.height entries left m) := by
  induction entries generalizing left m with
  | nil => exact hm
  | cons e entries ih =>
    have hrest : ∀ e' ∈ entries, n.heightToHash[e'.1]? = some e'.2 := fun e' he =>
      hent e' (List.mem_cons_of_mem _ he)
    have hmap := hent e List.mem_cons_self
    cases left with
    | zero => exact hm
    | succ left =>
      rw [evictLoop]
      split
      · exact ih _ _ hrest hm
      · refine ih _ _ hrest ⟨?_, ?_, ?_, ?_, ?_⟩
        · rw [hm.eq]
        · intro k b hb
          rw [getElem?_erase] at hb
          split at hb
          · simp at hb
          · exact hm.blocks k b hb
        · intro h k hk
          rw [getElem?_erase] at hk
          split at hk
          · simp at hk
          · exact hm.heights h k hk
        · intro k b hb hnear
          rw [getElem?_erase, if_neg]
          · exact hm.keeps_blocks k b hb hnear
          · rintro rfl
            have := hnear e.1 hmap
            omega
        · intro h k hk hnear
          rw [getElem?_erase, if_neg]
          · exact hm.keeps_heights h k hk hnear
          · rintro rfl
            omega

lemma Node.evictBlockCache_forgets (n : Node) : Forgets n n.evictBlockCache := by
  have hrefl : Forgets n n :=
    ⟨rfl, fun _ _ h => h, fun _ _ h => h, fun _ _ h _ => h, fun _ _ h _ => h⟩
  unfold evictBlockCache
  split
  · exact hrefl
  · refine evictLoop_forgets _ _ n n ?_ hrefl
    rintro ⟨h, k⟩ he
    exact Std.TreeMap.mem_toList_iff_getElem?_eq_some.mp he

/-- Forgetting keeps the canonical chain. -/
lemma ChainInv.forgets (hn : ChainInv R n c) (hf : Forgets n n') : ChainInv R n' c :=
  hn.of_view (congrArg view hf.eq :) (fun k b hb => hn.cache_sub k b (hf.blocks k b hb))
    fun h k hk => hn.height_map h k (hf.heights h k hk)

lemma Forgets.commitBlock (hf : Forgets n n') (b : Block) :
    Forgets (n.commitBlock E b) (n'.commitBlock E b) :=
  { hf with
    eq := by
      rw [hf.eq]
      rfl }

/-! ## Extending the tip -/

/-- The node with `b` connected and ledger `l`, the cache untrimmed. -/
def Node.extendedWith (E : Env) (n : Node) (b : Block) (l : Ledger) : Node :=
  { n with
    heightToHash := n.heightToHash.insert b.height (E.blockHash b)
    tip := chainTip E b
    stats := {
      height := b.height
      totalBlocks := n.stats.totalBlocks + 1
      totalTransactions := n.stats.totalTransactions + b.transactions.length
      totalSupply := l.supply
      totalBurned := l.burned
      difficulty := b.work
      tipHash := E.blockHash b
      totalDifficulty := (n.stats.totalDifficulty + b.work) % 2 ^ 128 }
    utxos := l.utxos.evictOldOutputs b.height 1000
    sparkPool := l.pool }

lemma Node.extendTip_eq (n : Node) (b : Block) :
    n.extendTip E b
      = (n.ledger.connect E b).map fun l => (n.extendedWith E b l).evictBlockCache := by
  rw [extendTip, connectState_eq]
  cases n.ledger.connect E b <;> rfl

/-- The node after `b` was connected and committed. -/
lemma connectTip_eq_some (h : connectTip R n b = some (n', r)) :
    (n' = n ∧ r = .ok (.invalid .sparkV2)) ∨
      ∃ l, R.sparkOk n b = true ∧ n.ledger.connect E b = some l ∧ r = .ok .accepted ∧
        Forgets ((n.extendedWith E b l).commitBlock E b) n' := by
  unfold connectTip at h
  split at h
  · cases h
    exact .inl ⟨rfl, rfl⟩
  · rename_i hspark
    rw [extendTip_eq, Option.map_map, Option.map_eq_some_iff] at h
    obtain ⟨l, hl, heq⟩ := h
    obtain ⟨rfl, rfl⟩ := Prod.mk.inj heq
    exact .inr ⟨l, by simpa using hspark, hl, rfl,
      (evictBlockCache_forgets _).commitBlock b⟩

/-- A block connected on the tip heads the canonical chain. -/
lemma ChainInv.extendedWith (hn : ChainInv R n c)
    (hb : Lineage E.linking n.db.get (E.blockHash b) (b :: c)) (l : Ledger) :
    ChainInv R ((n.extendedWith E b l).commitBlock E b) (b :: c) where
  chain := hb
  tip_height := congrArg (· + 1) hb.height_head
  cache_sub := hn.cache_sub
  key := hn.key
  rooted := hn.rooted
  genesis := hn.genesis
  index := by
    intro h
    change (n.db.heightIndex.insert b.height (E.blockHash b))[h]? = _
    rw [getElem?_insert, atHeight_cons]
    by_cases hh : h = b.height
    · rw [if_pos hh, if_pos (by exact hh.symm)]
      rfl
    · rw [if_neg hh, if_neg (by exact fun e => hh e.symm)]
      exact hn.index h
  height_map := by
    intro h k hk
    change (n.db.heightIndex.insert b.height (E.blockHash b))[h]? = some k
    change (n.heightToHash.insert b.height (E.blockHash b))[h]? = some k at hk
    rw [getElem?_insert] at hk ⊢
    split
    · rwa [if_pos ‹_›] at hk
    · rw [if_neg ‹_›] at hk
      exact hn.height_map h k hk
  stats_height := rfl
  stats_hash := rfl
  network := hn.network
  saved := ⟨_, rfl, rfl, rfl⟩

end CoinCync

import CoinCync.Ledger

/-!
# The canonical chain of a node

`ChainInv R n c` says that `c` is the canonical chain of the node: the lineage of its tip in the
block table, described by the height index and the in-memory height map. Over it the fork walks of
the node are computed: against a stored branch `f ++ t :: s` that leaves the canonical chain
`o ++ t :: s` at `t`, the fork point is the height of `t`, the collected fork is `f`, and the
cumulative work is that of the branch.
-/

namespace CoinCync

open List Option Node

variable {E : Env} {R : Rules E} {n : Node} {c : List Block}
variable {q : List Block}

/-- The node's canonical chain is `c`. -/
structure ChainInv (R : Rules E) (n : Node) (c : List Block) : Prop where
  chain : Lineage E.linking n.db.get n.tip.hash c
  tip_height : n.tip.height + 1 = c.length
  cache_sub : ∀ (k : Hash) (b : Block), n.blocks[k]? = some b → n.db.get k = some b
  key : ∀ k b, n.db.get k = some b → E.blockHash b = k
  rooted : ∀ k b, n.db.get k = some b → ∃ q, Lineage E.linking n.db.get k q
  genesis : ∀ k b, n.db.get k = some b → b.height = 0 → b = R.genesis
  index : ∀ h : ℕ, n.db.heightIndex[h]? = (atHeight E.linking c h).map E.blockHash
  height_map : ∀ (h : ℕ) (k : Hash), n.heightToHash[h]? = some k → n.db.heightIndex[h]? = some k
  stats_height : n.stats.height = n.tip.height
  stats_hash : n.stats.tipHash = n.tip.hash
  network : n.db.network = some E.network
  saved : ∃ st, n.db.state = some st ∧ st.tipHash = n.tip.hash ∧ st.height = n.tip.height

/-- What the invariant reads besides cache and height map. -/
def Node.view (n : Node) :=
  (n.db.blocks, n.db.heightIndex, n.db.network,
    n.db.state.map fun st => (st.tipHash, st.height), (n.tip.hash, n.tip.height),
    n.stats.tipHash, n.stats.height)

/-- Cache and height map need only say what the tables say. -/
lemma ChainInv.of_view (hn : ChainInv R n c) (hview : m.view = n.view)
    (hcache : ∀ (k : Hash) (b : Block), m.blocks[k]? = some b → n.db.get k = some b)
    (hmap : ∀ (x : ℕ) (k : Hash), m.heightToHash[x]? = some k → n.db.heightIndex[x]? = some k) :
    ChainInv R m c := by
  simp only [view, Prod.mk.injEq] at hview
  obtain ⟨hbodies, hindex, hnetwork, hsaved, ⟨hhash, hheight⟩, hstathash, hstatheight⟩ := hview
  have hget : m.db.get = n.db.get := by
    funext k
    rw [Database.get, Database.get, hbodies]
  obtain ⟨st, hst, hsthash, hstheight⟩ := hn.saved
  rw [hst, map_some, map_eq_some_iff] at hsaved
  obtain ⟨st', hst', heq⟩ := hsaved
  obtain ⟨hhash', hheight'⟩ := Prod.mk.inj heq
  exact {
    chain := by rw [hget, hhash]; exact hn.chain
    tip_height := by rw [hheight]; exact hn.tip_height
    cache_sub := by rw [hget]; exact hcache
    key := by rw [hget]; exact hn.key
    rooted := by rw [hget]; exact hn.rooted
    genesis := by rw [hget]; exact hn.genesis
    index := by rw [hindex]; exact hn.index
    height_map := by rw [hindex]; exact hmap
    stats_height := by rw [hstatheight, hheight]; exact hn.stats_height
    stats_hash := by rw [hstathash, hhash]; exact hn.stats_hash
    network := by rw [hnetwork]; exact hn.network
    saved := ⟨st', hst', by rw [hhash, hhash', hsthash], by rw [hheight, hheight', hstheight]⟩ }

/-! ## The fork loops as walks -/

section

variable (n : Node)

/-- Where `find_fork_point` stops: at an indexed block or height zero. -/
def Node.forkStop (k : Hash) (a : Block) : Bool := n.getBlockHash a.height = some k ∨ a.height = 0

/-- The hashes under which the node holds a body. -/
def Node.bodyKeys : Finset Hash := (n.blocks.keys ++ n.db.blocks.keys).toFinset

lemma Node.mem_bodyKeys (h : n.getBlock k = some a) : k ∈ n.bodyKeys := by
  rw [bodyKeys, List.mem_toFinset, mem_append, Std.TreeMap.mem_keys, Std.TreeMap.mem_keys]
  rcases or_eq_some_iff.mp h with hcache | ⟨-, hdisk⟩
  · exact .inl (Std.TreeMap.mem_iff_isSome_getElem?.mpr (by rw [hcache]; rfl))
  · have hbody : n.db.blocks[k]? = some a := hdisk
    exact .inr (Std.TreeMap.mem_iff_isSome_getElem?.mpr (by rw [hbody]; rfl))

lemma Node.card_bodyKeys_lt (b : Block) : n.bodyKeys.card < n.walkFuel b := by
  have hle := toFinset_card_le (n.blocks.keys ++ n.db.blocks.keys)
  rw [length_append, Std.TreeMap.length_keys, Std.TreeMap.length_keys] at hle
  unfold bodyKeys walkFuel
  omega

/-- `find_fork_point` is a walk. -/
lemma Node.forkPointLoop_eq_walk (fuel : ℕ) (visited : List Hash) (k : Hash) :
    n.forkPointLoop fuel visited k =
      match (Walk.walk n.getBlock Block.prevHash n.forkStop fuel visited k).2 with
      | .stopped _ a => some a.height
      | _ => none := by
  induction fuel generalizing visited k with
  | zero => rfl
  | succ fuel ih =>
    unfold forkPointLoop Walk.walk
    split
    · rfl
    cases hget : n.getBlock k with
    | none => rfl
    | some a =>
      simp only [forkStop]
      by_cases hmain : n.getBlockHash a.height = some k
      · simp [hmain]
      by_cases hzero : a.height = 0
      · simp [hzero]
      · simp only [hmain, hzero]
        exact ih (k :: visited) a.prevHash

/-- So is `collect_fork_chain`. -/
lemma Node.forkChainLoop_eq_walk (forkPoint fuel : ℕ) (visited : List Hash) (k : Hash) :
    n.forkChainLoop forkPoint fuel visited k =
      (Walk.walk n.getBlock Block.prevHash (fun _ a => decide (a.height ≤ forkPoint)) fuel visited
        k).1.map Prod.snd := by
  induction fuel generalizing visited k with
  | zero => rfl
  | succ fuel ih =>
    unfold forkChainLoop Walk.walk
    split
    · rfl
    cases hget : n.getBlock k with
    | none => rfl
    | some a =>
      by_cases hle : a.height ≤ forkPoint
      · simp [hle]
      · simp only [hle, if_false, decide_false, Bool.false_eq_true, map_cons]
        rw [ih]

end

/-! ## The work walk -/

/-- The work walk sums a stored ancestry, clamped at `u128`. -/
lemma Node.forkWorkLoop_eq (hq : Lineage E.linking n.getBlock k q) (fuel : ℕ)
    (hfuel : q.length ≤ fuel) (a : ℕ) :
    n.forkWorkLoop fuel (min a (2 ^ 128 - 1)) k = min (a + chainWork q) (2 ^ 128 - 1) := by
  induction hq generalizing fuel a with
  | @root k b hb h0 =>
    obtain ⟨fuel, rfl⟩ : ∃ m, fuel = m + 1 := ⟨fuel - 1, by simp at hfuel; omega⟩
    have h0 : b.height = 0 := h0
    have hw : chainWork [b] = 1 := by simp [chainWork, Block.weight, h0]
    simp only [forkWorkLoop, hb, h0, if_pos, MachineInt.satAdd_min, hw]
  | @step k b p q hb hs ht ih =>
    obtain ⟨fuel, rfl⟩ : ∃ m, fuel = m + 1 := ⟨fuel - 1, by simp at hfuel; omega⟩
    have hs : b.height = p.height + 1 := hs
    have hne : b.height ≠ 0 := by omega
    have hw : b.weight = b.work := if_neg hne
    simp only [forkWorkLoop, hb, if_neg hne, MachineInt.satAdd_min]
    refine (ih fuel (by simp only [length_cons] at hfuel ⊢; omega) (a + b.work)).trans ?_
    rw [chainWork_cons b, hw, add_assoc]

lemma Node.calculateForkCumulativeWork_eq
    (hq : Lineage E.linking n.getBlock b.prevHash q) (hb : b.height = q.length) :
    n.calculateForkCumulativeWork b = min (chainWork (b :: q)) (2 ^ 128 - 1) := by
  have hne : b.height ≠ 0 := by
    have hpos := length_pos_of_ne_nil hq.ne_nil
    omega
  have hwork : b.work = min b.work (2 ^ 128 - 1) := by
    have := calculateDifficultyFromTarget_le b.header.target
    unfold Block.work
    omega
  have hw : b.weight = b.work := if_neg hne
  rw [calculateForkCumulativeWork, hwork, forkWorkLoop_eq hq _ (by omega), chainWork_cons, hw]

namespace ChainInv

section

variable (hn : ChainInv R n c)
include hn

/-- The tip is the head of the chain. -/
lemma exists_head :
    ∃ a r, c = a :: r ∧ n.db.get n.tip.hash = some a ∧ E.blockHash a = n.tip.hash ∧
      a.height = n.tip.height := by
  obtain ⟨a, r, rfl⟩ := exists_cons_of_ne_nil hn.chain.ne_nil
  have hget := hn.chain.get_head
  have hh : a.height = r.length := hn.chain.height_head
  have := hn.tip_height
  rw [length_cons] at this
  exact ⟨a, r, rfl, hget, hn.key _ _ hget, by omega⟩

/-- The cache adds nothing to the block table. -/
lemma getBlock_eq (k : Hash) : n.getBlock k = n.db.get k := by
  unfold getBlock
  cases hk : n.blocks[k]? with
  | none => rfl
  | some b => rw [hn.cache_sub k b hk]; rfl

/-- Nor does the height map to the height index. -/
lemma getBlockHash_eq (h : ℕ) : n.getBlockHash h = (atHeight E.linking c h).map E.blockHash := by
  rw [← hn.index]
  unfold getBlockHash
  cases hk : n.heightToHash[h]? with
  | none => rfl
  | some k => rw [hn.height_map h k hk]; rfl

/-- Canonical blocks are stored. -/
lemma get_of_mem (hb : b ∈ c) : n.db.get (E.blockHash b) = some b := hn.chain.get_of_mem hn.key hb

/-- Stored blocks with one hash are one block. -/
lemma eq_of_hash {b : Block} (ha : n.db.get k = some a) (hb : n.db.get k' = some b)
    (hab : E.blockHash a = E.blockHash b) : a = b := by
  have hk : k = k' := by rw [← hn.key _ _ ha, ← hn.key _ _ hb, hab]
  subst k'
  exact mem_unique ha hb

lemma atHeight_of_mem (hb : b ∈ c) :
    atHeight E.linking c b.height = some b := hn.chain.atHeight_eq_some.mpr ⟨hb, rfl⟩

/-- What the chain has at a height. -/
lemma mem_of_atHeight (hb : atHeight E.linking c h = some b) : b ∈ c ∧ b.height = h :=
  hn.chain.atHeight_eq_some.mp hb

lemma getBlockByHeight_eq (h : ℕ) : n.getBlockByHeight h = atHeight E.linking c h := by
  rw [getBlockByHeight, hn.getBlockHash_eq]
  cases hc : atHeight E.linking c h with
  | none => rfl
  | some b =>
    rw [map_some, bind_some, hn.getBlock_eq]
    exact hn.get_of_mem (hn.mem_of_atHeight hc).1

lemma getByHeight_eq (h : ℕ) : n.db.getByHeight h = atHeight E.linking c h := by
  rw [Database.getByHeight, hn.index]
  cases hc : atHeight E.linking c h with
  | none => rfl
  | some b => exact hn.get_of_mem (hn.mem_of_atHeight hc).1

/-- The height map only speaks about canonical blocks. -/
lemma heightToHash_eq_some (hk : n.heightToHash[h]? = some k) :
    ∃ b ∈ c, b.height = h ∧ E.blockHash b = k := by
  have hidx := hn.height_map h k hk
  rw [hn.index, map_eq_some_iff] at hidx
  obtain ⟨b, hb, hbk⟩ := hidx
  obtain ⟨hmem, hh⟩ := hn.mem_of_atHeight hb
  exact ⟨b, hmem, hh, hbk⟩

/-- Nothing lies above the tip. -/
lemma atHeight_eq_none (hh : n.tip.height < h) : atHeight E.linking c h = none := by
  obtain ⟨a, r, rfl, -, -, ha⟩ := hn.exists_head
  exact hn.chain.atHeight_eq_none (ha.trans_lt hh)

/-- Nothing is mapped above the tip. -/
lemma heightToHash_eq_none (hh : n.tip.height < h) : n.heightToHash[h]? = none := by
  cases hk : n.heightToHash[h]? with
  | none => rfl
  | some k =>
    have hidx := hn.height_map h k hk
    rw [hn.index, hn.atHeight_eq_none hh] at hidx
    simp at hidx

/-- A stored branch leaves the canonical chain at one block. -/
lemma exists_fork (hq : Lineage E.linking n.db.get k q) :
    ∃ o f t s, c = o ++ t :: s ∧ q = f ++ t :: s ∧ ∀ x ∈ f, x ∉ c :=
  hn.chain.exists_fork hn.key
    (fun _ _ _ _ hb hb' h0 h0' => (hn.genesis _ _ hb h0).trans (hn.genesis _ _ hb' h0').symm) hq

end

/-! ## The fork walks -/

section Walks

variable {f s : List Block} {t x b : Block}

variable (hn : ChainInv R n c)
include hn

/-- The height index names exactly the canonical blocks. -/
lemma map_atHeight_eq_iff (hx : n.db.get (E.blockHash x) = some x) :
    (atHeight E.linking c x.height).map E.blockHash = some (E.blockHash x) ↔ x ∈ c := by
  rw [map_eq_some_iff]
  constructor
  · rintro ⟨y, hy, hyx⟩
    have hmem := (hn.mem_of_atHeight hy).1
    rwa [← hn.eq_of_hash (hn.get_of_mem hmem) hx hyx]
  · exact fun hmem => ⟨x, hn.atHeight_of_mem hmem, rfl⟩

/-- Down a stored branch, a walk that `t` stops first finds it. -/
lemma found (hq : Lineage E.linking n.db.get k (f ++ t :: s)) (stop : Hash → Block → Bool)
    (hf : ∀ x ∈ f, t.height < x.height → stop (E.blockHash x) x = false)
    (ht : stop (E.blockHash t) t = true) :
    Walk.Found n.db.get Block.prevHash stop k (f.map fun x => (E.blockHash x, x)) (E.blockHash t) t :=
  hq.found hn.key (fun x hx => hf x hx (hq.height_lt_of_mem_above hx)) ht

/-- The two loops on a stored branch `f ++ t :: s` below `b`. -/
lemma findForkPoint_eq
    (hq : Lineage E.linking n.db.get b.prevHash (f ++ t :: s)) (hf : ∀ x ∈ f, x ∉ c) (ht : t ∈ c) :
    n.findForkPoint b = some t.height := by
  have hstop : ∀ x ∈ f ++ t :: s,
      n.forkStop (E.blockHash x) x = true ↔ x ∈ c ∨ x.height = 0 := by
    intro x hx
    rw [forkStop, decide_eq_true_eq, hn.getBlockHash_eq,
      hn.map_atHeight_eq_iff (hq.get_of_mem hn.key hx)]
  have hfound := hn.found hq n.forkStop
    (fun x hx hlt => by
      rw [Bool.eq_false_iff, Ne, hstop x (mem_append_left _ hx)]
      exact not_or.mpr ⟨hf x hx, by omega⟩)
    ((hstop t (by simp)).mpr (.inl ht))
  rw [← show n.getBlock = n.db.get from funext hn.getBlock_eq] at hfound
  rw [findForkPoint, forkPointLoop_eq_walk,
    hfound.walk_eq (fun _ _ => n.mem_bodyKeys) (n.card_bodyKeys_lt b)]

/-- The fork collected is `f`. -/
lemma collectForkChain_eq (hq : Lineage E.linking n.db.get b.prevHash (f ++ t :: s)) :
    n.collectForkChain b t.height = f.reverse := by
  have hfound := hn.found hq (fun _ a => decide (a.height ≤ t.height))
    (fun x _ hlt => decide_eq_false (by omega)) (by simp)
  rw [← show n.getBlock = n.db.get from funext hn.getBlock_eq] at hfound
  rw [collectForkChain, forkChainLoop_eq_walk,
    hfound.walk_eq (fun _ _ => n.mem_bodyKeys) (n.card_bodyKeys_lt b)]
  simp [Function.comp_def]

/-- The work is that of the branch. -/
lemma calculateForkCumulativeWork_eq
    (hq : Lineage E.linking n.db.get b.prevHash (f ++ t :: s)) (hb : b.height = (f ++ t :: s).length) :
    n.calculateForkCumulativeWork b = min (chainWork (b :: f ++ t :: s)) (2 ^ 128 - 1) :=
  Node.calculateForkCumulativeWork_eq
    (hq.mono fun k x hx => by rw [hn.getBlock_eq, hx]) hb

end Walks

end ChainInv

end CoinCync

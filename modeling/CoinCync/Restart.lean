import CoinCync.RecoveryTheorems
import CoinCync.SparkPoolTheorems

/-!
# Restarting a node with a canonical chain

A restart of a node with canonical chain `c` comes back with `c`: the tip that was saved, the UTXO
set, the pool and the work of `c`, and supply and burn as they were saved (`Restarted`).
-/

namespace CoinCync

open List Option SparkPool

variable {E : Env} {R : Rules E} {n n' : Node} {c : List Block}
variable {get : Hash → Option Block}

/-! ## Genesis -/

lemma get_genesisNode :
    (genesisNode R pool).db.get k = some b ↔ k = E.blockHash R.genesis ∧ b = R.genesis := by
  show (Std.TreeMap.insert (∅ : Std.TreeMap Hash Block) (E.blockHash R.genesis) R.genesis)[k]?
    = _ ↔ _
  rw [Table.getElem?_insert]
  simp [eq_comm]

/-- The chain at the start. -/
lemma genesisNode_chainInv (R : Rules E) (pool : Option SparkPool) :
    ChainInv R (genesisNode R pool) [R.genesis] := by
  have hroot : Lineage E.linking (genesisNode R pool).db.get (E.blockHash R.genesis) [R.genesis] :=
    .root (get_genesisNode.mpr ⟨rfl, rfl⟩) R.genesis_height
  exact {
    chain := hroot
    tip_height := rfl
    cache_sub := fun k b hb => hb
    key := by
      intro k b hb
      obtain ⟨rfl, rfl⟩ := get_genesisNode.mp hb
      rfl
    rooted := by
      intro k b hb
      obtain ⟨rfl, -⟩ := get_genesisNode.mp hb
      exact ⟨_, hroot⟩
    genesis := fun k b hb _ => (get_genesisNode.mp hb).2
    index := by
      intro h
      show (Std.TreeMap.insert (∅ : Std.TreeMap ℕ Hash) 0 (E.blockHash R.genesis))[h]? = _
      have h0 : E.linking.height R.genesis = 0 := R.genesis_height
      rw [atHeight_cons, h0]
      cases h <;> simp [atHeight]
    height_map := fun h k hk => hk
    stats_height := rfl
    stats_hash := rfl
    network := rfl
    saved := ⟨_, rfl, rfl, rfl⟩ }

/-! ## A chain read from its genesis -/

/-- One block more at the end. -/
lemma replayFrom_append (i : ℕ) (bs : List Block) (b : Block) (u : UtxoCore) :
    replayFrom E i (bs ++ [b]) u
      = (replayFrom E i bs u).connectBlock E (i + bs.length) b.transactions := by
  induction bs generalizing i u with
  | nil => rfl
  | cons x bs ih =>
    rw [cons_append, replayFrom, ih, add_right_comm i 1 bs.length]
    rfl

/-- Read from genesis it is the same replay. -/
lemma replayFrom_reverse (hc : Lineage E.linking get k c) :
    replayFrom E 0 c.reverse UtxoCore.empty = replayUtxos E c := by
  induction hc with
  | @root k b hb h0 =>
    have h0 : b.height = 0 := h0
    rw [replayUtxos_cons, h0]
    rfl
  | @step k b p q hb hs ht ih =>
    have hh : b.height = (p :: q).length := (Lineage.step hb hs ht).height_head
    rw [reverse_cons, replayFrom_append, ih, replayUtxos_cons b, length_reverse, zero_add, hh]

/-- Everything above genesis counts with the work of its target. -/
lemma chainWork_eq_tail (hc : Lineage E.linking get k c) :
    chainWork c = 1 + (c.reverse.tail.map Block.work).sum := by
  induction hc with
  | @root k b hb h0 =>
    have h0 : b.height = 0 := h0
    simp [chainWork, Block.weight, h0]
  | @step k b p q hb hs ht ih =>
    have hs : b.height = p.height + 1 := hs
    have hw : b.weight = b.work := if_neg (by omega)
    have hrev : (b :: p :: q).reverse.tail = (p :: q).reverse.tail ++ [b] := by
      rw [reverse_cons, tail_append_of_ne_nil (by simp)]
    rw [chainWork_cons, hrev, map_append, sum_append]
    simp only [map_cons, map_nil, sum_cons, sum_nil]
    omega

/-- Feeding the pool by height replays the chain. -/
lemma foldlM_replayHeight (hc : Lineage E.linking get k c)
    (hget : ∀ b ∈ c, n.getBlockByHeight b.height = some b) :
    (List.range c.length).foldlM (n.replayHeight E) cleared = replayPool E c := by
  induction hc with
  | @root k b hb h0 =>
    have h0 : b.height = 0 := h0
    have hg := hget b (by simp)
    rw [h0] at hg
    have hstep : n.replayHeight E cleared 0
        = cleared.applySparkV2Txs E b.transactions 0 := by
      rw [Node.replayHeight, hg]
    show (n.replayHeight E cleared 0).bind some
      = cleared.applySparkV2Txs E b.transactions b.height
    rw [hstep, h0, bind_fun_some]
  | @step k b p q hb hs ht ih =>
    have hh : b.height = (p :: q).length := (Lineage.step hb hs ht).height_head
    have hg := hget b (by simp)
    have hstep : ∀ x, n.replayHeight E x (p :: q).length
        = x.applySparkV2Txs E b.transactions b.height := by
      intro x
      rw [Node.replayHeight, ← hh, hg]
    rw [length_cons, range_succ, foldlM_append, ih fun x hx => hget x (mem_cons_of_mem _ hx)]
    simp only [foldlM_cons, foldlM_nil, hstep, bind_pure]
    rfl

/-- Feeding by height leaves the stack, and the contents of a pool alone. -/
lemma foldlM_replayHeight_alone {hs : List ℕ} {p p₀ q : SparkPool}
    (h : hs.foldlM (n.replayHeight E) p = some q)
    (hc : p.toPoolContents = p₀.toPoolContents) (h₀ : p₀.stores = []) :
    ∃ q₀, hs.foldlM (n.replayHeight E) p₀ = some q₀ ∧ q.toPoolContents = q₀.toPoolContents ∧
      q.checkpoints = p.checkpoints := by
  induction hs generalizing p p₀ with
  | nil =>
    cases h
    exact ⟨p₀, rfl, hc, rfl⟩
  | cons x hs ih =>
    rw [foldlM_cons, bind_eq_bind, bind_eq_some_iff] at h
    obtain ⟨p1, hp1, h⟩ := h
    unfold Node.replayHeight at hp1
    cases hx : n.getBlockByHeight x with
    | none =>
      rw [hx] at hp1
      cases hp1
      simpa [Node.replayHeight, hx] using ih h hc h₀
    | some b =>
      rw [hx] at hp1
      obtain ⟨q1, hq1, hc1, hq1s⟩ := applySparkV2Txs_alone hp1 hc h₀
      obtain ⟨q₀, hq₀, hcontents, hstack⟩ := ih h hc1 hq1s
      refine ⟨q₀, ?_, hcontents, hstack.trans (applySparkV2Txs_eq_some.mp hp1).2.1⟩
      simpa [Node.replayHeight, hx, hq1] using hq₀

/-! ## The restart -/

/-- What a node with canonical chain `c` comes back with. -/
structure Restarted (R : Rules E) (n : Node) (c : List Block) (st : ChainStateData) (n' : Node) :
    Prop where
  chainInv : ChainInv R n' c
  saved : n.db.state = some st
  state : n'.db.state = n.db.state
  bodies : n'.db.blocks = n.db.blocks
  supply : n'.stats.totalSupply = st.totalSupply
  burned : n'.stats.totalBurned = st.totalBurned
  work : n'.stats.totalDifficulty = min (chainWork c) (2 ^ 128 - 1)
  utxos : n'.utxos.toUtxoCore = replayUtxos E c
  rows : n'.utxos.db = n.utxos.db
  pool : match n.sparkPool with
    | none => n'.sparkPool = none
    | some _ => ∃ p q, n'.sparkPool = some p ∧ replayPool E c = some q ∧
      p.toPoolContents = q.toPoolContents ∧ p.checkpoints = []

/-- The height index of a canonical chain, read from genesis. -/
lemma ChainInv.getByHeight_reverse (hn : ChainInv R n c) (h : ℕ) :
    n.db.getByHeight h = c.reverse[h]? := by
  rw [hn.getByHeight_eq, hn.chain.getElem?_reverse]

/-- Every restart comes back so. -/
lemma ChainInv.restarted (hn : ChainInv R n c) (h : restart R n = some n') :
    ∃ st, Restarted R n c st n' := by
  unfold restart at h
  split at h
  swap
  · simp at h
  rename_i m hload
  cases h
  obtain ⟨st, hst, htip, hheight⟩ := hn.saved
  have hlen : c.reverse.length = st.height + 1 := by rw [length_reverse, ← hn.tip_height, hheight]
  have hload := loadFromDatabase_linked hst hlen
    (fun h x hx => (hn.getByHeight_reverse h).trans hx) (hn.chain.isChain_reverse hn.key) hload
  obtain ⟨index, hdb⟩ := hload.db
  have hinv : ChainInv R n' c := by
    refine hn.of_view ?_ ?_ ?_
    · simp only [Node.view, hdb, hload.tip, hload.stats, hn.network, htip, hheight, hn.stats_hash,
        hn.stats_height]
    · intro k b hb
      obtain ⟨hmem, rfl⟩ := hload.blocks k b hb
      exact hn.get_of_mem (mem_reverse.mp hmem)
    · intro h k hk
      obtain ⟨b, hb, hbk⟩ := hload.heights h k hk
      rw [hn.chain.getElem?_reverse] at hb
      rw [hn.index, hb, map_some, hbk]
  refine ⟨st, hinv, hst, by rw [hdb], by rw [hdb], hload.supply, hload.burned, ?_, ?_, hload.rows, ?_⟩
  · rw [hload.work, chainWork_eq_tail hn.chain]
  · rw [hload.utxos, replayFrom_reverse hn.chain]
  · have hreplay := foldlM_replayHeight hn.chain fun b hb => by
      rw [hinv.getBlockByHeight_eq]
      exact hinv.atHeight_of_mem hb
    have hpool := hload.pool
    rw [← hlen, length_reverse] at hpool
    cases hp : n.sparkPool with
    | none => simpa [hp] using hpool
    | some p =>
      rw [hp] at hpool
      obtain ⟨p', hp'⟩ := isSome_iff_exists.mp hpool.1
      obtain ⟨q, hq, hcontents, hstack⟩ :=
        foldlM_replayHeight_alone (hpool.2.symm.trans hp') (show _ = cleared.toPoolContents from rfl) rfl
      exact ⟨p', q, hp', hreplay.symm.trans hq, hcontents, hstack⟩

end CoinCync

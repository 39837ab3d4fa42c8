import CoinCync.AnyCache

/-!
# The work counters

The cumulative work of a chain is counted three times: forward, by every extension of the tip;
backward, by the bounded walk of `calculate_fork_cumulative_work`; and over the height index, by
`recompute_total_difficulty` at every start.
-/

namespace CoinCync

open List

variable {E : Env} {R : Rules E} {n n' : Node} {q : List Block} {b : Block}

/-- The blocks were added in turn, each on the tip. -/
inductive Extends (R : Rules E) : Node → List Block → Node → Prop
  | nil (n : Node) : Extends R n [] n
  | cons {n m n' : Node} {b : Block} {bs : List Block} :
      addBlock R n b = some (m, .ok .accepted) → Extends R m bs n' → Extends R n (b :: bs) n'

/-- The counter, modulo the width, is the work of the chain. -/
structure Counts (R : Rules E) (n : Node) (c : List Block) : Prop where
  chain : ChainInv R n c
  work : n.stats.totalDifficulty = chainWork c % 2 ^ 128

lemma genesisNode_counts (R : Rules E) (pool : Option SparkPool) :
    Counts R (genesisNode R pool) [R.genesis] := by
  refine ⟨genesisNode_chainInv R pool, ?_⟩
  have hw : chainWork [R.genesis] = 1 := by simp [chainWork, Block.weight, R.genesis_height]
  rw [hw]
  rfl

lemma Counts.extend (hn : Counts R n c) (h : addBlock R n b = some (n', .ok .accepted)) :
    Counts R n' (b :: c) := by
  rcases addBlock_cases hn.chain h with ⟨hpre, -⟩ | ⟨-, -, -, hne, -⟩ |
    ⟨hpass, hprev, -, l, -, hforget⟩ | ⟨hpass, o, f, t, s, hf, -, hr⟩
  · exact absurd rfl (preCheck_ne_accepted hpre).1
  · exact absurd rfl hne
  · have hlineage := hn.chain.lineage_tip hpass hprev
    refine ⟨((hn.chain.stored hpass).extendedWith hlineage l).forgets hforget, ?_⟩
    have hheight : b.height = c.length := hlineage.height_head
    have hne : b.height ≠ 0 := by
      have hpos := length_pos_of_ne_nil hn.chain.chain.ne_nil
      omega
    have hw : b.weight = b.work := if_neg hne
    have htotal : n'.stats.totalDifficulty = (n.stats.totalDifficulty + b.work) % 2 ^ 128 := by
      rw [hforget.eq]
      rfl
    rw [htotal, hn.work, chainWork_cons, hw, Nat.mod_add_mod, add_comm]
  · have hself : (n.storeBlock E b).db.get (E.blockHash b) = some b := by
      rw [Node.get_storeBlock, if_pos rfl]
    rcases ((hn.chain.stored hpass).reorganize hf hself hr).2 with ⟨-, e, he⟩ | ⟨-, txs, htxs⟩
    · simp at he
    · simp at htxs

lemma Extends.counts (h : Extends R n bs n') (hn : Counts R n c) :
    Counts R n' (bs.reverse ++ c) := by
  induction h generalizing c with
  | nil => exact hn
  | @cons n m n' b bs hadd _ ih =>
    have hrun := ih (hn.extend hadd)
    rwa [reverse_cons, append_assoc, singleton_append]

/-- Extending genesis along a chain ends with its work. -/
lemma Extends.counts_genesis (h : Extends R (genesisNode R pool) c.reverse.tail n)
    (hgenesis : c.getLast? = some R.genesis) : Counts R n c := by
  have hcounts := h.counts (genesisNode_counts R pool)
  obtain ⟨d, rfl⟩ := getLast?_eq_some_iff.mp hgenesis
  simpa using hcounts

/-- `recompute_total_difficulty` over the chain of a node. -/
lemma ChainInv.recomputeTotalDifficulty_eq (hn : ChainInv R n (b :: q)) :
    n.recomputeTotalDifficulty b.height = some (min (chainWork (b :: q)) (2 ^ 128 - 1)) := by
  have hheight : b.height = q.length := hn.chain.height_head
  rw [chainWork_eq_tail hn.chain]
  refine Node.recomputeTotalDifficulty_eq (by simp [hheight]) fun j x hx => ?_
  rw [hn.getBlockByHeight_eq, ← hn.chain.getElem?_reverse]
  exact hx

lemma chainWork_lt_cons (b : Block) (q : List Block) : chainWork q < chainWork (b :: q) := by
  have hw := b.weight_pos
  rw [chainWork_cons]
  omega

/-- For every block above genesis whose ancestry is stored and whose exact work fits 128 bits: the
backward walk gives the total of a node that extended genesis by that ancestry and the block one at
a time, and the total recomputed there and after a restart; it is larger than that of the parent,
the base one if that is genesis; and a stored fork is heavier than that node's chain iff its work is
larger. -/
theorem work_counters_agree {pool : Option SparkPool} {N : Node}
    (hstored : Lineage E.linking n.getBlock b.prevHash q) (hheight : b.height = q.length)
    (hgenesis : q.getLast? = some R.genesis) (hfits : chainWork (b :: q) < 2 ^ 128)
    (hext : Extends R (genesisNode R pool) (b :: q).reverse.tail N) :
    n.calculateForkCumulativeWork b = N.stats.totalDifficulty ∧
    N.recomputeTotalDifficulty b.height = some N.stats.totalDifficulty ∧
    (∀ N', restart R N = some N' → N'.stats.totalDifficulty = N.stats.totalDifficulty ∧
      N'.recomputeTotalDifficulty b.height = some N.stats.totalDifficulty) ∧
    (∀ p r, q = p :: r → p.height ≠ 0 →
      n.calculateForkCumulativeWork p < n.calculateForkCumulativeWork b) ∧
    (∀ P, Extends R (genesisNode R pool) q.reverse.tail P →
      P.stats.totalDifficulty < n.calculateForkCumulativeWork b) ∧
    (∀ b' q', Lineage E.linking n.getBlock b'.prevHash q' → b'.height = q'.length →
      chainWork (b' :: q') < 2 ^ 128 →
      (N.stats.totalDifficulty < n.calculateForkCumulativeWork b' ↔
        chainWork (b :: q) < chainWork (b' :: q'))) := by
  have hlast : (b :: q).getLast? = some R.genesis := by
    rw [getLast?_cons, hgenesis]
    rfl
  have hN := hext.counts_genesis hlast
  have hwork : n.calculateForkCumulativeWork b = chainWork (b :: q) := by
    rw [Node.calculateForkCumulativeWork_eq hstored hheight]
    omega
  have htotal : N.stats.totalDifficulty = chainWork (b :: q) := by
    rw [hN.work, Nat.mod_eq_of_lt hfits]
  have hmin : min (chainWork (b :: q)) (2 ^ 128 - 1) = chainWork (b :: q) := by omega
  have hparent := chainWork_lt_cons b q
  rw [hwork, htotal]
  refine ⟨rfl, ?_, fun N' hN' => ?_, fun p r hq hp => ?_, fun P hP => ?_,
    fun b' q' hq' hb' hfits' => ?_⟩
  · rw [hN.chain.recomputeTotalDifficulty_eq, hmin]
  · obtain ⟨st, hst⟩ := hN.chain.restarted hN'
    rw [hst.work, hst.chainInv.recomputeTotalDifficulty_eq, hmin]
    exact ⟨rfl, rfl⟩
  · subst hq
    -- The parent is stored with its own ancestry below it.
    obtain ⟨x, y, rfl⟩ : ∃ x y, r = x :: y := by
      refine exists_cons_of_ne_nil ?_
      rintro rfl
      exact hp hstored.height_head
    rw [Node.calculateForkCumulativeWork_eq hstored.tail hstored.height_head]
    omega
  · rw [(hP.counts_genesis hgenesis).work, Nat.mod_eq_of_lt (by omega)]
    exact hparent
  · rw [Node.calculateForkCumulativeWork_eq hq' hb']
    omega

/-- The counters after three blocks on genesis, walked on a node that has the first two. -/
theorem work_counters_agree_three_blocks :
    ∃ n N : Node, Extends openMainnet (genesisNode openMainnet none)
        [sampleBlock 1 1 0 (2 ^ 255) [], sampleBlock 2 1 1001 (2 ^ 254) [],
          sampleBlock 3 1 2001 (2 ^ 253) []] N ∧
      n.calculateForkCumulativeWork (sampleBlock 3 1 2001 (2 ^ 253) []) = N.stats.totalDifficulty ∧
      N.recomputeTotalDifficulty 3 = some N.stats.totalDifficulty := by
  set R := openMainnet
  set x1 := sampleBlock 1 1 0 (2 ^ 255) []
  set x2 := sampleBlock 2 1 1001 (2 ^ 254) []
  set x3 := sampleBlock 3 1 2001 (2 ^ 253) []
  have hrun : ∃ r1 ∈ addBlock R (genesisNode R none) x1, r1.2 = .ok .accepted ∧
      ∃ r2 ∈ addBlock R r1.1 x2, r2.2 = .ok .accepted ∧ ∃ r3 ∈ addBlock R r2.1 x3, r3.2 = .ok .accepted ∧
      r2.1.getBlock 2001 = some x2 ∧ r2.1.getBlock 1001 = some x1 ∧
      r2.1.getBlock 0 = some R.genesis := by
    decide +kernel
  obtain ⟨⟨n1, _⟩, h1, rfl, ⟨n2, _⟩, h2, rfl, ⟨N, _⟩, h3, rfl, hx2, hx1, hg⟩ := hrun
  have hext : Extends R (genesisNode R none) [x1, x2, x3] N := .cons h1 (.cons h2 (.cons h3 (.nil N)))
  have hq : Lineage (sampleEnv .mainnet 0).linking n2.getBlock 2001 [x2, x1, R.genesis] :=
    .step hx2 rfl (.step hx1 rfl (.root hg rfl))
  obtain ⟨hwalk, hrecompute, -⟩ := work_counters_agree (b := x3) hq rfl rfl (by decide +kernel) hext
  exact ⟨n2, N, hext, hwalk, hrecompute⟩

/-- On genesis itself the walk counts the target, not the base. -/
theorem genesis_walk_counts_target :
    ∃ g : Block, ∃ hheight : g.height = 0, ∃ hcoinbase : ∀ tx ∈ g.transactions, tx.isCoinbase,
      (genesisNode (openRules (sampleEnv .mainnet 0) g hheight hcoinbase fun _ => true)
        none).calculateForkCumulativeWork g ≠
      (genesisNode (openRules (sampleEnv .mainnet 0) g hheight hcoinbase fun _ => true)
        none).stats.totalDifficulty :=
  ⟨sampleBlock 0 0 7 (2 ^ 200) [], rfl, by simp [sampleBlock], by decide +kernel⟩

end CoinCync

import CoinCync.UtxoReplay
import Mathlib.Data.Prod.Lex

/-!
# Trees of blocks and the order on their chains

A tree of blocks is a list of blocks that all descend from genesis; its chains are the lineages in
the store that holds genesis and the list. Fork choice is meant to pick the maximum of one linear
order on chains. `ValidityIs R V T` says that the verdict on a block of the tree is `V` at every
place that asks for one; a block names its parent by hash, so `V` may depend on its ancestor chain.
-/

namespace CoinCync

open List

variable {E : Env} {R : Rules E} {T T' : List Block} {b : Block}
variable {k : Hash}

/-! ## The order -/

/-- Cumulative work first, then the smaller tip hash. -/
def rank (q : List Block) (k : Hash) : ℕ ×ₗ ℕᵒᵈ := toLex (chainWork q, OrderDual.toDual k)

/-- The order spelled out. -/
lemma rank_lt_iff :
    rank q k < rank q' k' ↔
      chainWork q < chainWork q' ∨ chainWork q = chainWork q' ∧ k' < k := by
  rw [rank, rank, Prod.Lex.toLex_lt_toLex]
  rfl

lemma eq_of_rank_eq (h : rank q k = rank q' k') : k = k' := by
  have := (Prod.mk.inj (toLex.injective h)).2
  exact OrderDual.toDual.injective this

/-- A block on top of a chain outranks it. -/
lemma rank_lt_cons (q : List Block) (k k' : Hash) : rank q k < rank (b :: q) k' := by
  have hw := b.weight_pos
  rw [rank_lt_iff, chainWork_cons]
  omega

/-! ## Trees -/

/-- Every block above genesis is valid. -/
def ValidChain (R : Rules E) (V : Block → Bool) (q : List Block) : Prop :=
  ∀ x ∈ q, x = R.genesis ∨ V x = true

/-- Its older part is valid too. -/
lemma ValidChain.suffix (hq : ValidChain R V q) (hr : r <:+ q) :
    ValidChain R V r := fun x hx => hq x (hr.subset hx)

/-- The store of genesis and the blocks of the list. -/
def treeGet (R : Rules E) (T : List Block) (k : Hash) : Option Block :=
  (R.genesis :: T).find? (E.blockHash · = k)

/-- `q` is a chain of the tree with tip `k`, newest block first. -/
abbrev TreeChain (R : Rules E) (T : List Block) (k : Hash) (q : List Block) : Prop :=
  Lineage E.linking (treeGet R T) k q

/-- Hashes identify the blocks, genesis included. -/
def DistinctHashes (R : Rules E) (T : List Block) : Prop :=
  ∀ x ∈ R.genesis :: T, ∀ y ∈ R.genesis :: T, E.blockHash x = E.blockHash y → x = y

/-- Hashes identify blocks, work fits, and branches fork within the window. -/
structure BlockTree (R : Rules E) (V : Block → Bool) (T : List Block) : Prop where
  distinct : DistinctHashes R T
  fits : ∀ k q, TreeChain R T k q → chainWork q < 2 ^ 128
  /-- A valid chain `o ++ t :: s` and a branch `f ++ t :: s` that leaves it at `t` are both at most
  the unconditional depth above `t`. -/
  window : ∀ k k' o f t s, TreeChain R T k (o ++ t :: s) → ValidChain R V (o ++ t :: s) →
    TreeChain R T k' (f ++ t :: s) → (∀ x ∈ f, x ∉ o ++ t :: s) → o ≠ [] → f ≠ [] →
    o.length ≤ reorgUnconditionalDepth ∧ f.length ≤ reorgUnconditionalDepth

/-- No block valid on its own past repeats an output key or a key image. -/
def FreshTree (R : Rules E) (T : List Block) : Prop :=
  ∀ k x q, TreeChain R T k (x :: q) → q ≠ [] → ValidFresh R x q

/-- Every block comes after its parent. -/
def ParentFirst (R : Rules E) (T : List Block) : Prop :=
  ∀ D x rest, T = D ++ x :: rest →
    ∃ p ∈ R.genesis :: D, E.blockHash p = x.prevHash ∧ x.height = p.height + 1

/-- What the store holds. -/
lemma treeGet_eq_some (hT : DistinctHashes R T) {k : Hash} :
    treeGet R T k = some b ↔ b ∈ R.genesis :: T ∧ E.blockHash b = k := by
  constructor
  · intro h
    exact ⟨mem_of_find?_eq_some h, by simpa using find?_some h⟩
  · rintro ⟨hmem, hk⟩
    obtain ⟨x, hx⟩ : ∃ x, treeGet R T k = some x := by
      rw [← Option.isSome_iff_exists, treeGet, find?_isSome]
      exact ⟨b, hmem, by simpa using hk⟩
    have hxk : E.blockHash x = k := by simpa using find?_some hx
    have hxb := hT x (mem_of_find?_eq_some hx) b hmem (hxk.trans hk.symm)
    rw [hx, hxb]

lemma BlockTree.key (hT : BlockTree R V T) (k : Hash) (x : Block)
    (hx : treeGet R T k = some x) : E.blockHash x = k := ((treeGet_eq_some hT.distinct).mp hx).2

lemma DistinctHashes.congr (hT : DistinctHashes R T) (hmem : ∀ x, x ∈ T ↔ x ∈ T') :
    DistinctHashes R T' := by
  intro x hx y hy
  rw [mem_cons, ← hmem, ← mem_cons] at hx hy
  exact hT x hx y hy

/-- The store does not depend on the order of the blocks. -/
lemma treeGet_congr (hT : DistinctHashes R T) (hmem : ∀ x, x ∈ T ↔ x ∈ T') :
    treeGet R T = treeGet R T' := by
  funext k
  apply Option.ext
  intro x
  rw [treeGet_eq_some hT, treeGet_eq_some (hT.congr hmem), mem_cons, mem_cons, hmem]

/-- A tree is its set of blocks. -/
lemma BlockTree.congr (hT : BlockTree R V T) (hmem : ∀ x, x ∈ T ↔ x ∈ T') : BlockTree R V T' := by
  have hget := treeGet_congr hT.distinct hmem
  refine ⟨hT.distinct.congr hmem, ?_, ?_⟩
  · unfold TreeChain
    rw [← hget]
    exact hT.fits
  · unfold TreeChain
    rw [← hget]
    exact hT.window

lemma FreshTree.congr (hT : DistinctHashes R T) (hF : FreshTree R T)
    (hmem : ∀ x, x ∈ T ↔ x ∈ T') : FreshTree R T' := by
  unfold FreshTree TreeChain
  rw [← treeGet_congr hT hmem]
  exact hF

/-- Above genesis every block has a height above zero. -/
lemma ParentFirst.height_ne_zero (hP : ParentFirst R T) (hx : x ∈ T) : x.height ≠ 0 := by
  obtain ⟨D, rest, rfl⟩ := append_of_mem hx
  obtain ⟨p, -, -, hp⟩ := hP D x rest rfl
  omega

/-- Only genesis has height zero. -/
lemma ParentFirst.eq_genesis (hP : ParentFirst R T) {k : Hash} (hx : treeGet R T k = some x)
    (h0 : x.height = 0) : x = R.genesis := by
  rcases mem_cons.mp (mem_of_find?_eq_some hx) with h | h
  · exact h
  · exact absurd h0 (hP.height_ne_zero h)

/-- Any two chains of a tree share a suffix. -/
lemma BlockTree.exists_fork (hT : BlockTree R V T) (hP : ParentFirst R T) (hc : TreeChain R T k c)
    (hq : TreeChain R T k' q) : ∃ o f t s, c = o ++ t :: s ∧ q = f ++ t :: s ∧ ∀ x ∈ f, x ∉ c :=
  hc.exists_fork hT.key
    (fun _ _ _ _ hx hy h0 h0' => (hP.eq_genesis hx h0).trans (hP.eq_genesis hy h0').symm) hq

/-! ## Validity -/

/-- A fresh node after the blocks were added in order. -/
def deliver (R : Rules E) (pool : Option SparkPool) (T : List Block) : Option Node :=
  Run.exec (step R) (genesisNode R pool) (T.map .addBlock)

/-- A node that was handed blocks of the tree, parents first. -/
def Fed (R : Rules E) (T : List Block) (n : Node) : Prop :=
  ∃ pool D, D ⊆ T ∧ ParentFirst R D ∧ deliver R pool D = some n

/-- The ledgers such nodes hold for a chain, also inside a reorganisation. -/
inductive Held (R : Rules E) (T : List Block) : List Block → Ledger → Prop
  | node {n : Node} {c : List Block} : Fed R T n → ChainInv R n c → Held R T c n.ledger
  | disconnect {b : Block} {q : List Block} {l l' : Ledger} :
      Held R T (b :: q) l → l.disconnect E b.height b = some l' → Held R T q l'
  | connect {k : Hash} {b : Block} {q : List Block} {l l' : Ledger} :
      Held R T q l → TreeChain R T k (b :: q) →
      R.validateBlockCtx b q.head? l.utxos none true = .valid → l.connect E b = some l' →
      Held R T (b :: q) l'

/-- The verdict on a block is `V` wherever one is asked for: against its parent, with the ledger of
its ancestors. -/
structure ValidityIs (R : Rules E) (V : Block → Bool) (T : List Block) : Prop where
  context : ∀ k b q l cp, TreeChain R T k (b :: q) → q ≠ [] → Held R T q l →
    (R.validateBlockCtx b q.head? l.utxos cp true = .valid ↔ V b = true)
  noContext : ∀ n k b q cp, Fed R T n → TreeChain R T k (b :: q) → q ≠ [] → V b = true →
    R.validateBlockCtx b q.head? n.utxos cp false = .valid
  checkpoint : ∀ b ∈ T, V b = true → R.verifyCheckpoint b.height (E.blockHash b) ≠ some false
  timestamp : ∀ n b q, Fed R T n → Lineage E.linking n.db.get b.prevHash q → b ∈ T → V b = true →
    R.timestampOk n b = true
  target : ∀ n b q, Fed R T n → Lineage E.linking n.db.get b.prevHash q → b ∈ T → V b = true →
    R.targetOk n b (n.isMainChain b) = true
  commitment : ∀ n k b q, TreeChain R T k (b :: q) → q ≠ [] → Held R T q n.ledger → V b = true →
    R.commitmentOk n b = true
  spark : ∀ n k b q, TreeChain R T k (b :: q) → q ≠ [] → Held R T q n.ledger → V b = true →
    R.sparkOk n b = true
  reorgTarget : ∀ n k b o t s earlier, Fed R T n → ChainInv R n (o ++ t :: s) →
    TreeChain R T k (b :: (earlier.reverse ++ t :: s)) → V b = true →
    ∀ x, R.reorgTargetOk (n.storeBlock E x).db t.height earlier b = true

/-- After a disconnect loop. -/
lemma Held.disconnectAll (h : Held R T (o ++ s) l) (hl : Ledger.disconnectAll E o l = some l') :
    Held R T s l' :=
  Ledger.disconnectAll_rule (P := fun l q => Held R T q l)
    (fun _ _ _ _ _ _ h hd => h.disconnect hd) h hl

/-- After a connect loop. -/
lemma Held.connects (h : Held R T s l) (hq : TreeChain R T k (o ++ (g.reverse ++ s)))
    (hl : Ledger.Connects R s g l l') : Held R T (g.reverse ++ s) l' := by
  refine Ledger.Connects.rule (P := fun l q => Held R T q l) ?_ h hl
  rintro l l' b r ⟨o', ho'⟩ hr hv hc
  rw [← ho', ← append_assoc] at hq
  obtain ⟨k', hk'⟩ := hq.suffix
  exact hr.connect hk' hv hc

/-- The order of the tree does not matter. -/
lemma Fed.congr (hmem : ∀ x, x ∈ T ↔ x ∈ T') (hn : Fed R T' n) : Fed R T n := by
  obtain ⟨pool, D, hD, hrest⟩ := hn
  exact ⟨pool, D, fun x hx => (hmem x).mpr (hD hx), hrest⟩

/-- Nor does it for the verdicts. -/
lemma ValidityIs.congr (hV : ValidityIs R V T) (hT : DistinctHashes R T)
    (hmem : ∀ x, x ∈ T ↔ x ∈ T') : ValidityIs R V T' := by
  have hchain : ∀ {k q}, TreeChain R T' k q → TreeChain R T k q := by
    intro k q hq
    rw [TreeChain, treeGet_congr hT hmem]
    exact hq
  have hheld : ∀ {q l}, Held R T' q l → Held R T q l := by
    intro q l hl
    induction hl with
    | node hn hc => exact .node (hn.congr hmem) hc
    | disconnect _ hd ih => exact ih.disconnect hd
    | connect _ hq hv hc ih => exact ih.connect (hchain hq) hv hc
  exact {
    context := fun k b q l cp hq hne hl => hV.context k b q l cp (hchain hq) hne (hheld hl)
    noContext := fun n k b q cp hn hq => hV.noContext n k b q cp (hn.congr hmem) (hchain hq)
    checkpoint := fun b hb => hV.checkpoint b ((hmem b).mpr hb)
    timestamp := fun n b q hn hq hb => hV.timestamp n b q (hn.congr hmem) hq ((hmem b).mpr hb)
    target := fun n b q hn hq hb => hV.target n b q (hn.congr hmem) hq ((hmem b).mpr hb)
    commitment := fun n k b q hq hne hl => hV.commitment n k b q (hchain hq) hne (hheld hl)
    spark := fun n k b q hq hne hl => hV.spark n k b q (hchain hq) hne (hheld hl)
    reorgTarget := fun n k b o t s earlier hn hc hq =>
      hV.reorgTarget n k b o t s earlier (hn.congr hmem) hc (hchain hq) }

/-! ## The best chain -/

/-- The valid chain of highest rank in the tree. -/
structure BestChain (R : Rules E) (V : Block → Bool) (T : List Block) (k : Hash) (q : List Block) :
    Prop where
  chain : TreeChain R T k q
  valid : ValidChain R V q
  best : ∀ k' q', TreeChain R T k' q' → ValidChain R V q' → rank q' k' ≤ rank q k

lemma BestChain.unique (h : BestChain R V T k q)
    (h' : BestChain R V T k' q') : k = k' ∧ q = q' := by
  have hk : k = k' :=
    eq_of_rank_eq (le_antisymm (h'.best k q h.chain h.valid) (h.best k' q' h'.chain h'.valid))
  subst hk
  exact ⟨rfl, h.chain.unique h'.chain⟩

end CoinCync

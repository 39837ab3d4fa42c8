import CoinCync.Extend

/-!
# The phases of a reorganisation

Each loop of `reorganize` as its effect on the ledger and on the height map, for a stored branch
`f ++ t :: s` below the block `b` against the canonical chain `o ++ t :: s`: the disconnect loop runs
`Ledger.disconnectAll` over `o`, the connect loop connects a first part of the branch
(`Ledger.Connects`), and either rollback path disconnects that part again and puts `o` back.
-/

namespace CoinCync

open List Option Ledger Table

variable {E : Env} {R : Rules E} {n n' : Node}
variable {xs : List Block} {m : Node}

/-- `b` is on the branch `f ++ t :: s`, which leaves the canonical `o ++ t :: s` at `t`. -/
structure ForkAt (E : Env) (n : Node) (c : List Block) (b : Block) (o f : List Block) (t : Block)
    (s : List Block) : Prop where
  chain : c = o ++ t :: s
  branch : Lineage E.linking n.db.get b.prevHash (f ++ t :: s)
  height : b.height = (f ++ t :: s).length
  side : ∀ x ∈ f, x ∉ c

/-- The blocks are in the cache and mapped. -/
def Covered (E : Env) (n : Node) (o : List Block) : Prop :=
  ∀ x ∈ o, n.heightToHash[x.height]? = some (E.blockHash x) ∧
    n.blocks[E.blockHash x]? = some x

/-! ## Disconnecting -/

/-- What the loop has collected after disconnecting `o`. -/
def Disconnected.pushAll (E : Env) (d : Disconnected) (o : List Block) : Disconnected where
  blocks := d.blocks + o.length
  txs := d.txs + (o.map (·.transactions.length)).sum
  txLists := d.txLists ++ o.map (·.transactions)
  heights := d.heights ++ o.map fun x => (x.height, E.blockHash x)

lemma Disconnected.pushAll_cons (d : Disconnected) (x : Block) (o : List Block) :
    d.pushAll E (x :: o)
      = ((d.pushBlock x).pushHeight x.height (E.blockHash x)).pushAll E o := by
  simp only [pushAll, pushBlock, pushHeight, length_cons, map_cons, sum_cons,
    append_assoc, singleton_append]
  congr 1 <;> omega

/-- The node after disconnecting `o` with ledger `l`. -/
def Node.disconnected (n : Node) (o : List Block) (l : Ledger) : Node :=
  { n.withLedger l with heightToHash := eraseAll n.heightToHash (o.map (·.height)) }

/-- The disconnect loop over cached blocks. -/
lemma disconnectLoop_eq (hcov : Covered E n o) (hnd : (o.map (·.height)).Nodup) (d : Disconnected) :
    (o.map (·.height)).foldlM (disconnectHeight E) (n, d)
      = (disconnectAll E o n.ledger).map fun l => (n.disconnected o l, d.pushAll E o) := by
  induction o generalizing n d with
  | nil => simp [Node.disconnected, Disconnected.pushAll, eraseAll]
  | cons x o ih =>
    obtain ⟨hmap, hbody⟩ := hcov x (by simp)
    rw [map_cons, nodup_cons] at hnd
    have hstep : disconnectHeight E (n, d) x.height
        = (n.ledger.disconnect E x.height x).map fun l =>
          ((n.withLedger l).unmapHeight x.height,
            (d.pushBlock x).pushHeight x.height (E.blockHash x)) := by
      simp only [disconnectHeight, hmap, hbody, Node.disconnectState_eq]
      cases n.ledger.disconnect E x.height x <;> rfl
    rw [map_cons, foldlM_cons, hstep, disconnectAll_cons]
    cases hl : n.ledger.disconnect E x.height x with
    | none => rfl
    | some l =>
      -- the other heights keep their mappings when this one goes
      have hcov' : Covered E ((n.withLedger l).unmapHeight x.height) o := by
        intro y hy
        refine ⟨?_, (hcov y (mem_cons_of_mem _ hy)).2⟩
        have hne : y.height ≠ x.height := fun e =>
          hnd.1 (e ▸ mem_map_of_mem hy)
        change (n.heightToHash.erase x.height)[y.height]? = _
        rw [getElem?_erase, if_neg hne]
        exact (hcov y (mem_cons_of_mem _ hy)).1
      rw [map_some, bind_eq_bind, bind_some, ih hcov' hnd.2, Disconnected.pushAll_cons]
      rfl

section

variable (hn : ChainInv R n (o ++ t :: s))
include hn

/-- The loop walks the heights of the blocks above the fork. -/
lemma ChainInv.heightsAbove_eq : heightsAbove t.height n.tip.height = o.map (·.height) := by
  have hmap : o.map (·.height) = (range' (t.height + 1) o.length).reverse :=
    hn.chain.map_height_above
  have ht : t.height = s.length := hn.chain.height_suffix
  have htip := hn.tip_height
  rw [length_append, length_cons] at htip
  rw [hmap, heightsAbove]
  congr 2
  omega

lemma ChainInv.length_above : o.length = n.tip.height - t.height := by
  have hlen := congrArg length (hn.heightsAbove_eq)
  rw [length_map, heightsAbove, length_reverse, length_range'] at hlen
  exact hlen.symm

lemma ChainInv.nodup_above : (o.map (·.height)).Nodup := by
  have h : ((o ++ t :: s).map (·.height)).Nodup := hn.chain.nodup_map_height
  rw [map_append] at h
  exact (nodup_append.mp h).1

/-- The loop of the source is that one. -/
lemma disconnectTo_eq (hcov : Covered E n o) : disconnectTo E n t.height
      = (disconnectAll E o n.ledger).map fun l =>
        (n.disconnected o l, ({} : Disconnected).pushAll E o) := by
  rw [disconnectTo, hn.heightsAbove_eq, disconnectLoop_eq hcov hn.nodup_above]

end

/-! ## Connecting -/

/-- The node with the fork blocks `g` connected, and ledger `l`. -/
def Node.connected (E : Env) (n : Node) (g : List Block) (l : Ledger) : Node :=
  { n.withLedger l with
    heightToHash := insertAll n.heightToHash (g.map fun x => (x.height, E.blockHash x)) }

lemma Node.connectForkBlock_eq (n : Node) (x : Block) :
    n.connectForkBlock E x
      = (n.ledger.connect E x).map fun l => (n.withLedger l).mapHeight x.height (E.blockHash x) := by
  rw [connectForkBlock, connectState_eq, Option.map_map]
  rfl

/-- A fork block that passes is valid in context. -/
lemma checkForkBlock_eq_none (h : checkForkBlock R fp earlier n x = none) :
    R.validateBlockCtx x n.blocks[x.prevHash]? n.utxos none true = .valid := by
  unfold checkForkBlock at h
  split at h
  · simp at h
  · simp at h
  · assumption

/-- So is the triggering block. -/
lemma checkReorgTip_eq_none (h : checkReorgTip R n b = none) :
    R.validateBlockCtx b n.blocks[b.prevHash]? n.utxos none true = .valid := by
  unfold checkReorgTip at h
  split at h
  · simp at h
  · simp at h
  · assumption

/-- A block was validated against its parent on its own chain. -/
lemma parent_of_valid {get : Hash → Option Block}
    (hcache : ∀ (k : Hash) (x : Block), n.blocks[k]? = some x → get k = some x)
    (hlin : Lineage E.linking get k (x :: s)) (hs : s ≠ [])
    (hv : R.validateBlockCtx x n.blocks[x.prevHash]? u cp true = .valid) :
    n.blocks[x.prevHash]? = s.head? := by
  have hheight : x.height = s.length := hlin.height_head
  have hpos := length_pos_of_ne_nil hs
  cases hp : n.blocks[x.prevHash]? with
  | none =>
    rw [hp] at hv
    have h0 := R.validate_parent x u cp true hv
    omega
  | some y => exact (hcache _ _ hp).symm.trans (hlin.head?_of_cons hs).symm

/-- A first part of the fork is connected, all unless a check failed. -/
lemma connectForkBlocks_cases {get : Hash → Option Block}
    (hcache : ∀ (k : Hash) (x : Block), n.blocks[k]? = some x → get k = some x)
    (hlin : Lineage E.linking get k (fs.reverse ++ s)) (hs : s ≠ [])
    (h : connectForkBlocks R fp earlier fs n = some (n', e)) :
    ∃ g rest l, fs = g ++ rest ∧ Ledger.Connects R s g n.ledger l ∧
      n' = n.connected E g l ∧ (e = none → rest = []) := by
  induction fs generalizing n earlier s with
  | nil =>
    obtain ⟨rfl, rfl⟩ := Prod.mk.inj (some.inj h)
    exact ⟨[], [], n.ledger, rfl, .nil, rfl, fun _ => rfl⟩
  | cons x fs ih =>
    rw [connectForkBlocks] at h
    cases hx : checkForkBlock R fp earlier n x with
    | some e' =>
      rw [hx] at h
      obtain ⟨rfl, rfl⟩ := Prod.mk.inj (some.inj h)
      exact ⟨[], x :: fs, n.ledger, rfl, .nil, rfl, by simp⟩
    | none =>
      rw [hx] at h
      simp only [Node.connectForkBlock_eq, bind_eq_bind, bind_map, bind_eq_some_iff] at h
      obtain ⟨l1, hl1, h⟩ := h
      rw [reverse_cons, append_assoc] at hlin
      obtain ⟨k', hlinx⟩ := hlin.suffix
      obtain ⟨g, rest, l, hfs, hl, hn', he⟩ := ih
        (n := (n.withLedger l1).mapHeight x.height (E.blockHash x)) hcache hlin (cons_ne_nil _ _) h
      refine ⟨x :: g, rest, l, by rw [hfs, cons_append], ?_, hn', he⟩
      have hv := checkForkBlock_eq_none hx
      rw [parent_of_valid hcache hlinx hs hv] at hv
      exact .cons hv hl1 hl

/-! ## Undoing and putting back -/

/-- Path B undoes every fork block. -/
lemma undoForkBlocks_eq (xs : List Block) (m : Node) :
    xs.foldlM (undoForkBlock E) m = (disconnectAll E xs m.ledger).map m.withLedger := by
  induction xs generalizing m with
  | nil => rfl
  | cons x xs ih =>
    rw [foldlM_cons, undoForkBlock, Node.disconnectState_eq, disconnectAll_cons]
    cases m.ledger.disconnect E x.height x with
    | none => rfl
    | some l => exact ih (m.withLedger l)

/-- On path A mapped blocks pass the guard. -/
lemma undoIfMapped_eq (hm : ∀ x ∈ xs, m.heightToHash[x.height]? = some (E.blockHash x)) :
    xs.foldlM (undoIfMapped E) m = (disconnectAll E xs m.ledger).map m.withLedger := by
  induction xs generalizing m with
  | nil => rfl
  | cons x xs ih =>
    rw [foldlM_cons, undoIfMapped, if_pos (hm x (by simp)), Node.disconnectState_eq,
      disconnectAll_cons]
    cases m.ledger.disconnect E x.height x with
    | none => rfl
    | some l => exact ih fun y hy => hm y (mem_cons_of_mem _ hy)

/-- And it skips blocks that are not. -/
lemma undoIfMapped_skip (hm : ∀ x ∈ xs, m.heightToHash[x.height]? ≠ some (E.blockHash x)) :
    xs.foldlM (undoIfMapped E) m = some m := by
  induction xs with
  | nil => rfl
  | cons x xs ih =>
    rw [foldlM_cons, undoIfMapped, if_neg (hm x (by simp))]
    exact ih fun y hy => hm y (mem_cons_of_mem _ hy)

/-- Re-application: UTXO set and rows, but only a checkpoint on the pool. -/
def Ledger.reapply (E : Env) (l : Ledger) (x : Block) : Ledger :=
  let utxos := l.utxos.connectBlock E x.height x.transactions
  { l with
    utxos := { utxos with db := insertRows utxos.db (outputRows x.height x.transactions) }
    pool := l.pool.map (·.checkpointAtHeight x.height) }

lemma reapplyMainBlock_eq (hx : m.blocks[E.blockHash x]? = some x) :
    reapplyMainBlock E m (x.height, E.blockHash x)
      = (m.withLedger (m.ledger.reapply E x)).mapHeight x.height (E.blockHash x) := by
  have hx' : (m.mapHeight x.height (E.blockHash x)).blocks[E.blockHash x]? = some x := hx
  simp only [reapplyMainBlock, hx']
  rfl

/-- Putting the main chain back. -/
lemma reapplyLoop_eq (hx : ∀ x ∈ xs, m.blocks[E.blockHash x]? = some x) :
    (xs.map fun x => (x.height, E.blockHash x)).foldl (reapplyMainBlock E) m
      = m.connected E xs (xs.foldl (reapply E) m.ledger) := by
  induction xs generalizing m with
  | nil => rfl
  | cons x xs ih =>
    rw [map_cons, foldl_cons, reapplyMainBlock_eq (hx x (by simp))]
    exact ih fun y hy => hx y (mem_cons_of_mem _ hy)

/-! ## The height map -/

/-- The map after connecting `g`. -/
lemma getElem?_insertAll_heights (m : Std.TreeMap ℕ Hash) (g : List Block) (h : ℕ) :
    (insertAll m (g.map fun x => (x.height, E.blockHash x)))[h]?
      = ((atHeight E.linking g.reverse h).map E.blockHash).or m[h]? := by
  rw [getElem?_insertAll, ← map_reverse, find?_map, Option.map_map]
  rfl

lemma mem_heightsAbove : h ∈ heightsAbove lo hi ↔ lo < h ∧ h ≤ hi := by
  rw [heightsAbove, mem_reverse, mem_range'_1]
  omega

/-- The map after a removal of heights. -/
lemma getElem?_eraseAll_heightsAbove (m : Std.TreeMap ℕ Hash) (lo hi h : ℕ) :
    (eraseAll m (heightsAbove lo hi))[h]? = if lo < h ∧ h ≤ hi then none else m[h]? := by
  simp only [getElem?_eraseAll, mem_heightsAbove]

/-- Nothing moves below the fork, nothing is mapped above. -/
lemma ChainInv.heightToHash_disconnected (hn : ChainInv R n (o ++ t :: s)) (l : Ledger) (h : ℕ) :
    (n.disconnected o l).heightToHash[h]? = if t.height < h then none else n.heightToHash[h]? := by
  change (eraseAll n.heightToHash (o.map (·.height)))[h]? = _
  rw [← hn.heightsAbove_eq, getElem?_eraseAll_heightsAbove]
  by_cases hlo : t.height < h
  · split
    · rfl
    · exact hn.heightToHash_eq_none (by omega)
  · rw [if_neg hlo, if_neg (by omega)]

end CoinCync

import CoinCync.Books
import CoinCync.Delivery
import Mathlib.Algebra.Group.Action.Defs
import Mathlib.Algebra.Order.BigOperators.Group.List
import Mathlib.Algebra.Order.Ring.Nat

/-!
# Arrival-order independence

Delivering a tree parents first ends in a state that its best chain determines: tip, UTXO set,
supply, burn and cumulative work are those of `BestChain R V T`. The condition is `FreshTree`. Where a
valid block repeats an output key of its own past, as a coinbase may, disconnecting it drops the
older output too, and two orders end with different UTXO sets.
-/

namespace CoinCync

open List Option

variable {E : Env} {R : Rules E} {V : Block → Bool} {T T' : List Block} {n n' : Node}
  {pool pool' : Option SparkPool}

/-! ## Whole deliveries -/

lemma Delivered.exec (hV : ValidityIs R V T) (hT : BlockTree R V T) (hF : FreshTree R T)
    (hP : ParentFirst R T) (hI : Delivered R V T D n c) (hD : T = D ++ rest)
    (h : Run.exec (CoinCync.step R) n (rest.map .addBlock) = some n') :
    ∃ c', Delivered R V T T n' c' := by
  induction rest generalizing D n c with
  | nil =>
    cases h
    rw [append_nil] at hD
    exact ⟨c, hD ▸ hI⟩
  | cons b rest ih =>
    rw [map_cons, Run.exec, foldlM_cons, bind_eq_bind, bind_eq_some_iff] at h
    obtain ⟨m, hm, h⟩ := h
    obtain ⟨⟨m, r⟩, hadd, rfl⟩ := map_eq_some_iff.mp hm
    obtain ⟨c', hI'⟩ := hI.step hV hT hF hP hD hadd
    exact ih hI' (by rw [hD, append_assoc, singleton_append]) h

/-- After the delivery every valid chain of the tree is stored. -/
lemma Delivered.lineage (hT : BlockTree R V T) (hP : ParentFirst R T) (hI : Delivered R V T T n c)
    (hq : TreeChain R T k q) (hvalid : ValidChain R V q) : Lineage E.linking n.db.get k q := by
  induction hq with
  | @root k x hx h0 =>
    have hgen := hP.eq_genesis hx h0
    have hkey := hT.key _ _ hx
    obtain ⟨o, g, -, hg0, k', hg⟩ := hI.chainInv.chain.exists_root
    have hg' := hI.chainInv.genesis _ _ hg hg0
    refine .root ?_ h0
    rw [← hkey, hgen, ← hg', hI.chainInv.key _ _ hg]
    exact hg
  | @step k x p q hx hs hp ih =>
    have hmem : x ∈ T := by
      rcases mem_cons.mp ((treeGet_eq_some hT.distinct).mp hx).1 with rfl | hmem
      · have h0 : R.genesis.height = p.height + 1 := hs
        rw [R.genesis_height] at h0
        omega
      · exact hmem
    have hkey := hT.key _ _ hx
    subst hkey
    exact .step (hI.kept x hmem _ (.step hx hs hp) hvalid) hs
      (ih (hvalid.suffix (suffix_cons _ _)))

/-- The canonical chain is the best chain of the tree. -/
lemma Delivered.bestChain (hT : BlockTree R V T) (hP : ParentFirst R T)
    (hI : Delivered R V T T n c) : BestChain R V T n.tip.hash c where
  chain := hI.treeChain hT (List.Subset.refl _) hI.chainInv.chain
  valid := hI.valid
  best := fun k q hq hvalid => hI.best k q (hI.lineage hT hP hq hvalid) hvalid

/-- Two nodes that were handed the blocks of one tree, each in an order of its own with parents
first, agree, and their tip is the valid chain of most work, then of smallest hash. -/
theorem arrival_order_independent (hV : ValidityIs R V T) (hT : BlockTree R V T)
    (hF : FreshTree R T) (hmem : ∀ x, x ∈ T ↔ x ∈ T') (hP : ParentFirst R T)
    (hP' : ParentFirst R T') (h : deliver R pool T = some n) (h' : deliver R pool' T' = some n') :
    ∃ q, BestChain R V T n.tip.hash q ∧ n.tip.hash = n'.tip.hash ∧ n.tip.height = n'.tip.height ∧
      n.utxos.toUtxoCore = n'.utxos.toUtxoCore ∧ n.utxos.toUtxoCore = replayUtxos E q ∧
      n.stats.totalSupply = n'.stats.totalSupply ∧ n.stats.totalBurned = n'.stats.totalBurned ∧
      n.stats.totalDifficulty = n'.stats.totalDifficulty := by
  have hT' := hT.congr hmem
  obtain ⟨q, hI⟩ := (genesisNode_delivered R V T pool).exec hV hT hF hP rfl h
  obtain ⟨q', hI'⟩ := (genesisNode_delivered R V T' pool').exec (hV.congr hT.distinct hmem) hT'
    (hF.congr hT.distinct hmem) hP' rfl h'
  have hbest := hI.bestChain hT hP
  have hbest' := hI'.bestChain hT' hP'
  have hsame : BestChain R V T n'.tip.hash q' := by
    refine ⟨?_, hbest'.valid, ?_⟩
    · rw [TreeChain, treeGet_congr hT.distinct hmem]
      exact hbest'.chain
    · unfold TreeChain
      rw [treeGet_congr hT.distinct hmem]
      exact hbest'.best
  obtain ⟨htip, rfl⟩ := hbest.unique hsame
  refine ⟨q, hbest, htip, ?_, ?_, hI.utxoInv.replayed, ?_, ?_, ?_⟩
  · have := hI.chainInv.tip_height
    have := hI'.chainInv.tip_height
    omega
  · exact Eq.trans hI.utxoInv.replayed hI'.utxoInv.replayed.symm
  · exact hI.totals.balanced.1.trans hI'.totals.balanced.1.symm
  · exact hI.totals.balanced.2.trans hI'.totals.balanced.2.symm
  · rw [hI.totals.work, hI'.totals.work]

/-! ## Small trees -/

lemma ParentFirst.nil : ParentFirst R [] := by
  intro D x rest h
  simp at h

/-- One block more, on a block that is there. -/
lemma ParentFirst.snoc (hT : ParentFirst R T) (hp : p ∈ R.genesis :: T)
    (hhash : E.blockHash p = x.prevHash) (hheight : x.height = p.height + 1) :
    ParentFirst R (T ++ [x]) := by
  intro D y rest h
  rcases eq_nil_or_concat rest with rfl | ⟨rest, z, rfl⟩
  · obtain ⟨rfl, hxy⟩ := append_inj' h rfl
    obtain rfl := (cons.inj hxy).1
    exact ⟨p, hp, hhash, hheight⟩
  · rw [concat_eq_append, ← cons_append, ← append_assoc] at h
    exact hT D y rest (append_inj' h rfl).1

/-- A tree below the unconditional depth, of little work. -/
lemma blockTree_of_low (hdistinct : DistinctHashes R T)
    (hlow : ∀ x ∈ R.genesis :: T, x.height ≤ reorgUnconditionalDepth)
    (hlight : ∀ x ∈ R.genesis :: T, x.weight ≤ 2 ^ 120) : BlockTree R V T := by
  have hlen : ∀ {k q}, TreeChain R T k q → q.length ≤ 11 := by
    intro k q hq
    obtain ⟨x, r, rfl⟩ := exists_cons_of_ne_nil hq.ne_nil
    have hx := hlow x (mem_of_find?_eq_some hq.get_head)
    have hh : x.height = r.length := hq.height_head
    unfold reorgUnconditionalDepth at hx
    rw [length_cons]
    omega
  refine ⟨hdistinct, fun k q hq => ?_, fun k k' o f t s ho _ hf _ _ _ => ?_⟩
  · have hweight : ∀ w ∈ q.map Block.weight, w ≤ 2 ^ 120 := by
      intro w hw
      obtain ⟨x, hx, rfl⟩ := mem_map.mp hw
      have hkey : ∀ k b, treeGet R T k = some b → E.blockHash b = k := fun _ _ h =>
        ((treeGet_eq_some hdistinct).mp h).2
      exact hlight x (mem_of_find?_eq_some (hq.get_of_mem hkey hx))
    have hsum := sum_le_card_nsmul _ _ hweight
    rw [length_map, smul_eq_mul] at hsum
    have := hlen hq
    show (q.map Block.weight).sum < 2 ^ 128
    omega
  · have ho := hlen ho
    have hf := hlen hf
    rw [length_append, length_cons] at ho hf
    unfold reorgUnconditionalDepth
    omega

/-- A tree is fresh if each block is, on a chain that ends in its parent. -/
lemma freshTree_of_chains (h : ∀ x ∈ T, ∃ q, TreeChain R T x.prevHash q ∧
    FreshFor E x.transactions (replayUtxos E q)) : FreshTree R T := by
  intro k x q hq hne u cp _ _
  obtain ⟨p, q, rfl⟩ := exists_cons_of_ne_nil hne
  have hx : x ∈ T := by
    rcases mem_cons.mp (mem_of_find?_eq_some hq.get_head) with rfl | hx
    · have hlen : R.genesis.height = (p :: q).length := hq.height_head
      rw [R.genesis_height, length_cons] at hlen
      omega
    · exact hx
  obtain ⟨q', hq', hfresh⟩ := h x hx
  rw [hq.tail.unique hq']
  exact hfresh

/-! ## The validator on trees of coinbases -/

section Coinbases

variable {W : Validator E} {b : Block}

/-- A coinbase-only block is judged without UTXO set and context. -/
lemma validateBlockCtx_of_alone (hskip : W.allowCheckpointCryptoSkip = false) (hb : b.rest = [])
    (parent : Option Block) (u : UtxoSet) (cp : Option ℕ) (contextual : Bool) :
    validateBlockCtx W b parent u cp contextual
      = validateBlockCtx W b parent UtxoSet.empty none true := by
  rw [validateBlockCtx_checkpoint hskip]
  unfold validateBlockCtx txErrors
  rw [hb]
  rfl

/-- Without payloads the Spark gate passes. -/
lemma verifyBlockSparkV2AtHeight_of_no_payload {txs : List Transaction}
    (htxs : ∀ tx ∈ txs, tx.sparkPayload = none) (C : Crypto) (p : PoolContents) (h : ℕ) :
    verifyBlockSparkV2AtHeight E C p txs h = true := by
  have hitems : sparkItems txs = [] := by
    rw [sparkItems, filterMap_eq_nil_iff]
    intro tx htx
    rw [htxs tx htx]
    rfl
  unfold verifyBlockSparkV2AtHeight gateLoop
  rw [hitems]
  rfl

/-- The block is valid against its parent in the tree. -/
def validInTree (W : Validator E) (R : Rules E) (T : List Block) (b : Block) : Bool :=
  validateBlockCtx W b (treeGet R T b.prevHash) UtxoSet.empty none true = []

/-- On coinbase-only blocks the verdict is that against the parent, on any ledger. -/
lemma Validator.validityIs_rules (hskip : W.allowCheckpointCryptoSkip = false) (g : Block)
    (hheight : g.height = 0) (hcoinbase : ∀ tx ∈ g.transactions, tx.isCoinbase)
    (hP : ParentFirst (W.rules g hheight hcoinbase) T) (hrest : ∀ b ∈ T, b.rest = [])
    (hspark : ∀ b ∈ T, ∀ tx ∈ b.transactions, tx.sparkPayload = none) :
    ValidityIs (W.rules g hheight hcoinbase) (validInTree W (W.rules g hheight hcoinbase) T) T := by
  set R := W.rules g hheight hcoinbase
  have hR := W.runsValidator_rules hskip g hheight hcoinbase
  have hmem : ∀ {k b q}, TreeChain R T k (b :: q) → q ≠ [] → b ∈ T := by
    intro k b q hq hne
    rcases mem_cons.mp (mem_of_find?_eq_some hq.get_head) with rfl | hb
    · have hlen : R.genesis.height = q.length := hq.height_head
      rw [R.genesis_height] at hlen
      exact absurd (length_eq_zero_iff.mp hlen.symm) hne
    · exact hb
  have hvalid : ∀ {k b q}, TreeChain R T k (b :: q) → q ≠ [] → ∀ u cp contextual,
      (R.validateBlockCtx b q.head? u cp contextual = .valid ↔ validInTree W R T b = true) := by
    intro k b q hq hne u cp contextual
    rw [hR.validate, validateBlockCtx_of_alone hskip (hrest b (hmem hq hne)), hq.head?_of_cons hne,
      validInTree, decide_eq_true_iff]
    rfl
  exact {
    context := fun k b q l cp hq hne _ => hvalid hq hne _ _ _
    noContext := fun n k b q cp _ hq hne hb => (hvalid hq hne _ _ _).mpr hb
    checkpoint := by
      intro b hb _
      have hb0 := hP.height_ne_zero hb
      show (if b.height = 0 then _ else none) ≠ some false
      rw [if_neg hb0]
      simp
    timestamp := fun _ _ _ _ _ _ _ => rfl
    target := fun _ _ _ _ _ _ _ => rfl
    commitment := fun _ _ _ _ _ _ _ _ => rfl
    spark := by
      intro n k b q hq hne _ _
      unfold Rules.sparkOk
      split
      · rfl
      · exact verifyBlockSparkV2AtHeight_of_no_payload (hspark b (hmem hq hne)) _ _ _
    reorgTarget := fun _ _ _ _ _ _ _ _ _ _ _ _ => rfl }

end Coinbases

/-- A chain of two blocks, and a heavier sibling of the first with an overpaid child, in two orders.
-/
theorem arrival_order_independent_siblings :
    ∃ n n', deliver ((sampleValidator (sampleEnv .mainnet 1)).rules sampleGenesis rfl (by decide)) none
        [minedBlock 1 0 [], minedBlock 2 0 [],
          sampleBlock 1 2 0 (2 ^ 200) [coinbaseTx 3 [revealedOutput 2001 (calculateBlockReward 1)]],
          sampleBlock 2 3 1002 (2 ^ 200) [coinbaseTx 4 [revealedOutput 2002 (calculateBlockReward 1)]]]
        = some n ∧
      deliver ((sampleValidator (sampleEnv .mainnet 1)).rules sampleGenesis rfl (by decide)) none
        [sampleBlock 1 2 0 (2 ^ 200) [coinbaseTx 3 [revealedOutput 2001 (calculateBlockReward 1)]],
          sampleBlock 2 3 1002 (2 ^ 200) [coinbaseTx 4 [revealedOutput 2002 (calculateBlockReward 1)]],
          minedBlock 1 0 [], minedBlock 2 0 []] = some n' ∧
      n.tip.hash = 1002 ∧ n'.tip.hash = 1002 ∧ n.utxos.toUtxoCore = n'.utxos.toUtxoCore := by
  set a := minedBlock 1 0 []
  set a2 := minedBlock 2 0 []
  set b := sampleBlock 1 2 0 (2 ^ 200) [coinbaseTx 3 [revealedOutput 2001 (calculateBlockReward 1)]]
  set b2 := sampleBlock 2 3 1002 (2 ^ 200)
    [coinbaseTx 4 [revealedOutput 2002 (calculateBlockReward 1)]]
  set W := sampleValidator (sampleEnv .mainnet 1)
  set R := W.rules sampleGenesis rfl (by decide)
  have hrun : ∃ n ∈ deliver R none [a, a2, b, b2], ∃ n' ∈ deliver R none [b, b2, a, a2],
      n.tip.hash = 1002 ∧ n'.tip.hash = 1002 := by
    decide +kernel
  obtain ⟨n, hn, n', hn', htip, htip'⟩ := hrun
  have hmem : ∀ x, x ∈ [a, a2, b, b2] ↔ x ∈ [b, b2, a, a2] := by
    intro x
    simp only [mem_cons, not_mem_nil, or_false]
    tauto
  -- two chains of two blocks, one after the other
  have hP : ∀ x x2 y y2 : Block, x.prevHash = 0 → x.height = 1 →
      (sampleEnv .mainnet 1).blockHash x = x2.prevHash → x2.height = 2 →
      y.prevHash = 0 → y.height = 1 → (sampleEnv .mainnet 1).blockHash y = y2.prevHash →
      y2.height = 2 → ParentFirst R [x, x2, y, y2] := by
    intro x x2 y y2 hx hx1 hx2 hx2h hy hy1 hy2 hy2h
    have h1 : ParentFirst R ([] ++ [x]) := ParentFirst.nil.snoc (p := R.genesis) (by simp) hx.symm hx1
    have h2 : ParentFirst R ([x] ++ [x2]) := h1.snoc (p := x) (by simp) hx2 (by rw [hx2h, hx1])
    have h3 : ParentFirst R ([x, x2] ++ [y]) := h2.snoc (p := R.genesis) (by simp) hy.symm hy1
    exact h3.snoc (T := [x, x2, y]) (p := y) (by simp) hy2 (by rw [hy2h, hy1])
  have hfirst : ParentFirst R [a, a2, b, b2] := hP _ _ _ _ rfl rfl rfl rfl rfl rfl rfl rfl
  have hV := W.validityIs_rules rfl sampleGenesis rfl (by decide) hfirst (by decide) (by decide)
  have hT : BlockTree R (validInTree W R [a, a2, b, b2]) [a, a2, b, b2] :=
    blockTree_of_low (by unfold DistinctHashes; decide +kernel) (by decide +kernel)
      (by decide +kernel)
  have hF : FreshTree R [a, a2, b, b2] := by
    have hg : TreeChain R [a, a2, b, b2] 0 [R.genesis] := .root rfl rfl
    apply freshTree_of_chains
    simp only [forall_mem_cons, not_mem_nil, false_imp_iff, implies_true, and_true]
    refine ⟨⟨_, hg, ?_⟩, ⟨_, .step (k := 1000) rfl rfl hg, ?_⟩, ⟨_, hg, ?_⟩,
      ⟨_, .step (k := 1002) rfl rfl hg, ?_⟩⟩ <;>
    exact ⟨by decide +kernel, by decide +kernel, by decide +kernel⟩
  obtain ⟨q, -, -, -, hutxos, -⟩ := arrival_order_independent hV hT hF hmem hfirst
    (hP _ _ _ _ rfl rfl rfl rfl rfl rfl rfl rfl) hn hn'
  exact ⟨n, n', hn, hn', htip, htip', hutxos⟩

/-- On the open network every block above genesis is valid. -/
lemma sampleRules_validityIs (T : List Block) :
    ValidityIs (sampleRules .mainnet 0 fun x => x.height ≠ 0) (fun x => x.height ≠ 0) T where
  context k b q l cp hq hne _ := by
    obtain ⟨p, q, rfl⟩ := exists_cons_of_ne_nil hne
    simp [sampleRules, openRules]
  noContext n k b q cp _ hq hne _ := by
    obtain ⟨p, q, rfl⟩ := exists_cons_of_ne_nil hne
    simp [sampleRules, openRules]
  checkpoint b _ hb := by
    have : b.height ≠ 0 := by simpa using hb
    simp [sampleRules, openRules, this]
  timestamp _ _ _ _ _ _ _ := rfl
  target _ _ _ _ _ _ _ := rfl
  commitment _ _ _ _ _ _ _ _ := rfl
  spark n _ _ _ _ _ _ _ := by
    unfold Rules.sparkOk
    split <;> rfl
  reorgTarget _ _ _ _ _ _ _ _ _ _ _ _ := rfl

/-- A block, its child with the same coinbase transaction, and a heavier child without one. If the
heavier one comes last, the output of the common parent is dropped. -/
theorem arrival_order_changes_outputs :
    ∃ T T' n n', ValidityIs (sampleRules .mainnet 0 fun x => x.height ≠ 0) (fun x => x.height ≠ 0) T ∧
      BlockTree (sampleRules .mainnet 0 fun x => x.height ≠ 0) (fun x => x.height ≠ 0) T ∧
      T.Perm T' ∧ ParentFirst (sampleRules .mainnet 0 fun x => x.height ≠ 0) T ∧
      ParentFirst (sampleRules .mainnet 0 fun x => x.height ≠ 0) T' ∧
      deliver (sampleRules .mainnet 0 fun x => x.height ≠ 0) none T = some n ∧
      deliver (sampleRules .mainnet 0 fun x => x.height ≠ 0) none T' = some n' ∧
      n.tip.hash = n'.tip.hash ∧ n.utxos.outputs (3, 0) = none ∧
      (n'.utxos.outputs (3, 0)).isSome := by
  set R := sampleRules .mainnet 0 fun x => x.height ≠ 0
  set a := sampleBlock 1 1 0 (2 ^ 255) [payTo 5 1]
  set b := sampleBlock 2 1 1001 (2 ^ 255) [payTo 5 1]
  set d := sampleBlock 2 2 1001 (2 ^ 200) []
  have hrun : ∃ n ∈ deliver R none [a, b, d], ∃ n' ∈ deliver R none [a, d, b],
      n.tip.hash = n'.tip.hash ∧ n.utxos.outputs (3, 0) = none ∧
      (n'.utxos.outputs (3, 0)).isSome := by
    decide +kernel
  obtain ⟨n, hn, n', hn', hends⟩ := hrun
  have hT : BlockTree R (fun x => x.height ≠ 0) [a, b, d] :=
    blockTree_of_low (by unfold DistinctHashes; decide +kernel) (by decide +kernel)
      (by decide +kernel)
  have hP : ∀ x y : Block, x = b ∧ y = d ∨ x = d ∧ y = b → ParentFirst R [a, x, y] := by
    rintro x y (⟨rfl, rfl⟩ | ⟨rfl, rfl⟩) <;>
    exact ((ParentFirst.nil.snoc (p := R.genesis) (by simp) rfl rfl).snoc (T := [a])
      (p := a) (by simp) rfl rfl).snoc (T := [a, _]) (p := a) (by simp) rfl rfl
  exact ⟨[a, b, d], [a, d, b], n, n', sampleRules_validityIs _, hT, (List.Perm.swap d b []).cons a,
    hP b d (by simp), hP d b (by simp), hn, hn', hends⟩

end CoinCync

import CoinCync.Rejection

/-!
# Key images on the canonical chain

A key image is marked when its block is connected and unmarked when it is disconnected; neither looks
at who marked it. So the set is right as long as every block that comes on was validated against the
set it comes onto, and every block that goes off was on it. The disconnect loop of a reorganisation
skips blocks that have left the cache (`ReorgCached` excludes that), and the inputs of a coinbase are
neither checked nor marked.
-/

namespace CoinCync

open List UtxoSet Block

variable {E : Env} {R : Rules E} {W : Validator E} {n n' : Node} {b : Block} {c c' : List Block}
  {l l' : Ledger}

/-- The key images a block marks. -/
def Block.keyImages (b : Block) : List KeyImage := b.transactions.flatMap spentKeyImages

/-- The key images of all inputs of a block. -/
def Block.inputImages (b : Block) : List KeyImage :=
  b.transactions.flatMap fun tx => tx.inputs.map (·.keyImage)

/-! ## Marking and unmarking -/

lemma UtxoCore.keyImages_foldl_addOutput (adds : List NewOutput) (u : UtxoCore) :
    (adds.foldl addOutput u).keyImages = u.keyImages :=
  foldlRecOn (motive := fun v => keyImages v = u.keyImages) _ _ rfl fun _ h _ _ => h

lemma UtxoCore.keyImages_foldl_removeOutput (keys : List OutputKey) (u : UtxoCore) :
    (keys.foldl removeOutput u).keyImages = u.keyImages :=
  foldlRecOn (motive := fun v => keyImages v = u.keyImages) _ _ rfl fun _ h _ _ => h

lemma UtxoCore.keyImages_connectBlock (u : UtxoCore) (b : Block) :
    (u.connectBlock E b.height b.transactions).keyImages = u.keyImages ∪ b.keyImages.toFinset := by
  rw [UtxoCore.connectBlock_eq]
  rw [keyImages_foldl_addOutput]
  rfl

/-- Connecting marks the images of the block. -/
lemma UtxoSet.keyImages_connectBlock (u : UtxoSet) (b : Block) :
    (u.connectBlock E b.height b.transactions).keyImages = u.keyImages ∪ b.keyImages.toFinset := by
  rw [toUtxoCore_connectBlock, UtxoCore.keyImages_connectBlock]

/-- Disconnecting unmarks them. -/
lemma UtxoSet.keyImages_disconnectBlock (u : UtxoSet) (b : Block) :
    (u.disconnectBlock E b.transactions).keyImages = u.keyImages \ b.keyImages.toFinset := by
  rw [toUtxoCore_disconnectBlock]
  simp only [UtxoCore.disconnectBlock, UtxoCore.applyBatch, batchDisconnectBlock, foldl_nil,
    UtxoCore.foldl_removeKeyImage, UtxoCore.keyImages_foldl_removeOutput]
  rfl

/-! ## The set of a ledger -/

/-- Marked are the key images of the chain, and no two of its inputs share one. -/
structure Ledger.Images (l : Ledger) (c : List Block) : Prop where
  exact : l.utxos.keyImages = (c.flatMap keyImages).toFinset
  nodup : (c.flatMap keyImages).Nodup

/-- A block whose key images are distinct and not marked. -/
structure FreshImages (u : UtxoSet) (b : Block) : Prop where
  nodup : b.keyImages.Nodup
  unmarked : ∀ ki ∈ b.keyImages, ki ∉ u.keyImages

/-- What validation in context says of the key images. -/
lemma freshImages_of_valid (hR : RunsValidator R W)
    (h : R.validateBlockCtx b parent u cp true = .valid) : FreshImages u b := by
  rw [hR.validate, validateBlockCtx_checkpoint hR.fullVerification] at h
  obtain ⟨coinbase, rest, hvalid⟩ := validateBlockCtx_eq_nil rfl h
  exact ⟨hvalid.spentKeyImages.1, hvalid.spentKeyImages.2⟩

namespace Ledger.Images

/-- Connecting a fresh block keeps that. -/
lemma connect (hl : l.Images c) (hb : FreshImages l.utxos b) (h : l.connect E b = some l') :
    l'.Images (b :: c) := by
  obtain ⟨-, -, hu, -⟩ := Ledger.connect_eq_some h
  constructor
  · rw [hu, keyImages_connectBlock, hl.exact, flatMap_cons, toFinset_append, Finset.union_comm]
  · rw [flatMap_cons, nodup_append']
    refine ⟨hb.nodup, hl.nodup, fun ki hki hmem => hb.unmarked ki hki ?_⟩
    rw [hl.exact]
    exact mem_toFinset.mpr hmem

/-- Unmarking the newest block's key images leaves the others. -/
lemma disconnect (hl : l.Images (b :: c)) (hd : l.disconnect E h b = some l') : l'.Images c := by
  obtain ⟨-, -, hu, -⟩ := Ledger.disconnect_eq_some hd
  have hnd := hl.nodup
  rw [flatMap_cons, nodup_append'] at hnd
  obtain ⟨-, hc, hdisj⟩ := hnd
  refine ⟨?_, hc⟩
  rw [hu, keyImages_disconnectBlock, hl.exact, flatMap_cons, toFinset_append,
    Finset.union_sdiff_left]
  apply Finset.sdiff_eq_self_of_disjoint
  rw [Finset.disjoint_right]
  intro ki hki hmem
  exact hdisj (mem_toFinset.mp hki) (mem_toFinset.mp hmem)

lemma disconnectAll (hl : l.Images (o ++ s)) (h : Ledger.disconnectAll E o l = some l') :
    l'.Images s :=
  Ledger.disconnectAll_rule (fun _ _ _ _ _ _ hP hd => hP.disconnect hd) hl h

/-- A connect loop under the real validator. -/
lemma connects (hR : RunsValidator R W) (hl : l.Images s) (h : Ledger.Connects R s g l l') :
    l'.Images (g.reverse ++ s) :=
  Ledger.Connects.rule
    (fun _ _ _ _ _ hP hv hc => hP.connect (freshImages_of_valid hR hv) hc) hl h

/-- Putting disconnected blocks back marks their key images again. -/
lemma reapply (hl : l.Images s) (hnd : ((o ++ s).flatMap keyImages).Nodup) :
    (o.reverse.foldl (Ledger.reapply E) l).Images (o ++ s) := by
  refine ⟨?_, hnd⟩
  clear hnd
  induction o with
  | nil => exact hl.exact
  | cons x o ih =>
    rw [reverse_cons, foldl_append]
    show (connectBlock E _ x.height x.transactions).keyImages = _
    rw [keyImages_connectBlock, ih, cons_append, flatMap_cons, toFinset_append, Finset.union_comm]

end Ledger.Images

/-! ## One operation -/

/-- Adding a block keeps it. -/
lemma Added.images (hR : RunsValidator R W) (h : Added R n c b n' r c') (hl : n.ledger.Images c) :
    n'.ledger.Images c' := by
  cases h with
  | stopped _ | stored => exact hl
  | @extended _ l hb hprev hconnect hforget =>
    have hnew := hl.connect (freshImages_of_valid hR (hb.valid_tip hprev)) hconnect
    rw [hforget.eq]
    refine ⟨?_, hnew.nodup⟩
    -- the commit evicts rows of the output index only
    show (l.utxos.evictOldOutputs b.height 1000).keyImages = _
    rw [toUtxoCore_evictOldOutputs]
    exact hnew.exact
  | @failed _ o f g rest s t l1 l2 l3 e _ hf _ _ _ hl1 hl2 hl3 _ hres =>
    rw [hf.chain] at hl ⊢
    have hback := ((hl.disconnectAll hl1).connects hR hl2).disconnectAll hl3
    have hagain := hback.reapply (E := E) hl.nodup
    rw [hres.eq]
    exact ⟨hagain.exact, hagain.nodup⟩
  | @reorged o f s t l1 l2 txs _ hf _ _ hl1 hl2 =>
    rw [hf.chain] at hl
    have hnew := (hl.disconnectAll hl1).connects hR hl2
    rw [reverse_newBranch] at hnew
    exact ⟨hnew.exact, hnew.nodup⟩

/-- A replay marks the images of its blocks. -/
lemma keyImages_replayUtxos (c : List Block) :
    (replayUtxos E c).keyImages = (c.flatMap keyImages).toFinset := by
  induction c with
  | nil => rfl
  | cons b c ih =>
    rw [replayUtxos_cons, UtxoCore.keyImages_connectBlock, ih, flatMap_cons,
      toFinset_append, Finset.union_comm]

lemma Stepped.images (hR : RunsValidator R W) (h : Stepped R n c op n' c')
    (hl : n.ledger.Images c) : n'.ledger.Images c' := by
  cases h with
  | added _ hadded => exact hadded.images hR hl
  | unchanged => exact hl
  | rolledBack hc hdisc =>
    subst hc
    exact hl.disconnectAll hdisc
  | restarted hst =>
    refine ⟨?_, hl.nodup⟩
    show n'.utxos.keyImages = _
    rw [hst.utxos, keyImages_replayUtxos]

lemma genesisNode_images (R : Rules E) (pool : Option SparkPool) :
    (genesisNode R pool).ledger.Images [R.genesis] := by
  have hnone : R.genesis.keyImages = [] := by
    apply flatMap_eq_nil_iff.mpr
    intro tx htx
    exact if_pos (R.genesis_coinbase tx htx)
  constructor
  · show (connectBlock E empty 0 R.genesis.transactions).keyImages = _
    rw [← R.genesis_height, keyImages_connectBlock, flatMap_singleton]
    rfl
  · rw [flatMap_singleton, hnone]
    exact nodup_nil

/-! ## Every run -/

/-- No coinbase of the block has inputs. -/
def NoCoinbaseInputs (b : Block) : Prop := ∀ tx ∈ b.transactions, tx.isCoinbase → tx.inputs = []

instance (b : Block) : Decidable (NoCoinbaseInputs b) := by
  unfold NoCoinbaseInputs
  infer_instance

/-- The steps along which key images stay unique and exact. -/
def KeyImageGuard (R : Rules E) (n : Node) : Op → Prop
  | .addBlock b => ReorgCached R n b ∧ NoCoinbaseInputs b
  | _ => True

instance (n : Node) : ∀ op, Decidable (KeyImageGuard R n op)
  | .addBlock b => inferInstanceAs (Decidable (ReorgCached R n b ∧ NoCoinbaseInputs b))
  | .rollback _ => isTrue trivial
  | .restart => isTrue trivial

/-- Then the images are those of the other inputs. -/
lemma NoCoinbaseInputs.inputImages_eq (h : NoCoinbaseInputs b) : b.inputImages = b.keyImages := by
  apply flatMap_congr
  intro tx htx
  unfold spentKeyImages
  split
  · rename_i hcb
    rw [h tx htx hcb]
    rfl
  · rfl

/-- The node only has blocks that were delivered. -/
lemma noCoinbaseInputs_of_reaches (hgenesis : NoCoinbaseInputs R.genesis)
    (h : Run.Reaches (step R) (KeyImageGuard R) (genesisNode R pool) n) :
    Bodies (fun _ x => NoCoinbaseInputs x) n := by
  refine h.invariant (bodies_genesisNode hgenesis) ?_
  intro m op m' hm hok hstep
  refine hm.step (fun _ _ hx => hx) ?_ hstep
  rintro y rfl
  exact hok.2

/-- In every run whose reorganisations stay inside the cache and whose coinbases have no inputs, no
key image occurs in two canonical inputs, and the marked ones are those of the canonical inputs. -/
theorem keyImages_unique_and_exact {pool : Option SparkPool} (hR : RunsValidator R W)
    (hgenesis : NoCoinbaseInputs R.genesis)
    (h : Run.Reaches (step R) (KeyImageGuard R) (genesisNode R pool) n) :
    ((n.blocksAt (List.range (n.tip.height + 1))).flatMap inputImages).Nodup ∧
      n.utxos.keyImages
        = ((n.blocksAt (List.range (n.tip.height + 1))).flatMap keyImages).toFinset := by
  obtain ⟨c, hn, hl⟩ := reaches_invariant
    (fun m op hok => by cases op <;> first | exact hok.1 | trivial)
    (genesisNode_images R pool) (fun m m' q q' op _ hq _ hs => hs.images hR hq) h
  have hnone := noCoinbaseInputs_of_reaches hgenesis h
  have hperm : (c.reverse.flatMap keyImages).Perm (c.flatMap keyImages) :=
    (reverse_perm c).flatMap_right _
  have hinputs : c.reverse.flatMap inputImages = c.reverse.flatMap keyImages := by
    apply flatMap_congr
    intro x hx
    exact (hnone.disk _ x (hn.get_of_mem (mem_reverse.mp hx))).inputImages_eq
  rw [hn.blocksAt_eq]
  constructor
  · rw [hinputs]
    exact hperm.nodup_iff.mpr hl.nodup
  · rw [toFinset_eq_of_perm _ _ hperm]
    exact hl.exact

/-! ## Concrete runs -/

/-- Spends the genesis outputs at addresses three and four. -/
def spendTx : Transaction :=
  { txType := .transfer
    inputs := [3, 4].map fun ki => {
      keyImage := ki
      ringMembers := (List.range 11).map fun i => ⟨i + 1, Commitment.commit 30000000⟩
      signature := { keyImage := ki }
      pseudoOutputCommitment := Commitment.commit 30000000 }
    outputs := [revealedOutput 501 30000000, revealedOutput 502 (30000000 - 1000)]
    fee := 1000
    extra := .bytes 9999 }

/-- On `minedBlock 9`: the spend, and more work than `minedBlock 10`. -/
def heavySpendingBlock : Block :=
  sampleBlock 10 1 9000 (2 ^ 130)
    [coinbaseTx 10 [revealedOutput 1010 (calculateBlockReward 10 + 1000)], spendTx]

/-- The spend is on the chain, and is again after a reorganisation to another block with it. -/
theorem keyImages_unique_and_exact_reorg :
    ∃ n, Run.Reaches (step betaRules) (KeyImageGuard betaRules) (genesisNode betaRules none) n ∧
      n.tip.hash = 10001 ∧ n.utxos.keyImages = {3, 4} := by
  refine Run.exists_reaches_of_exec_guarded
    ((emptyBlocks 9 ++ [minedBlock 10 1000 [spendTx], heavySpendingBlock]).map .addBlock)
    (P := fun n => n.tip.hash = 10001 ∧
      (n.blocksAt (List.range (n.tip.height + 1))).flatMap keyImages = [3, 4]) (by decide +kernel) ?_
  intro n hreach ⟨htip, himages⟩
  have hexact := (keyImages_unique_and_exact runsValidator_betaRules (by decide +kernel) hreach).2
  rw [himages] at hexact
  exact ⟨htip, hexact⟩

/-- A sibling of `minedBlock 1`. -/
def firstBlockRival (nonce target : ℕ) : Block :=
  sampleBlock 1 nonce 0 target [coinbaseTx 1 [revealedOutput 1001 (calculateBlockReward 1)]]

/-- Siblings fill the cache until the tenth block, with the spend, is evicted; a rollback then
allows a fork at genesis. -/
def crowdedRun : List Op :=
  (minedBlock 1 0 [] :: (List.range 300).map (fun i => firstBlockRival (i + 2) (2 ^ 255)) ++
    (List.range' 2 8).map (fun h => minedBlock h 0 []) ++ [minedBlock 10 1000 [spendTx]] ++
    (List.range' 11 201).map fun h => minedBlock h 0 []).map .addBlock ++ [.rollback 144]

/-- After the reorganisation no input is on the chain, and the key image of the evicted spend is
still marked. -/
theorem evicted_spend_stays_marked :
    RunsValidator betaRules (sampleValidator (sampleEnv .beta 1)) ∧
    ∃ n n', Run.Reaches (step betaRules) (fun _ _ => True) (genesisNode betaRules none) n ∧
      addBlock betaRules n (firstBlockRival 999 (2 ^ 130)) = some (n', .ok (.acceptedReorg [])) ∧
      (n'.blocksAt (List.range (n'.tip.height + 1))).flatMap inputImages = [] ∧
      3 ∈ n'.utxos.keyImages := by
  simp only [exists_and_left]
  refine ⟨runsValidator_betaRules, Run.exists_reaches_of_exec crowdedRun ?_⟩
  decide +kernel

end CoinCync

import CoinCync.AnyCache
import CoinCync.NeverExtended

/-!
# Rejected blocks

Gates before the body is stored leave no trace, so the block is refused again and no child finds it
as a parent. Behind the store come the Spark gate of the extend path and the gates inside a
reorganisation: a block they refuse stays stored, is already known when it is offered again, and
serves as a parent.
-/

namespace CoinCync

open Option SparkPool Node

variable {E : Env} {R : Rules E} {n n' m : Node} {b : Block}

/-! ## The bodies -/

/-- The cache and the block table. -/
def Node.bodies (n : Node) : Std.TreeMap Hash Block × Std.TreeMap Hash Block := (n.blocks, n.db.blocks)

/-- What keeps the tables keeps the bodies. -/
lemma Kept.bodies_eq (h : Kept n m) : m.bodies = n.bodies := by
  rw [bodies, bodies, h.blocks, h.db]

/-- A reorganisation moves no body. -/
lemma bodies_reorganize (h : reorganize R n b forkPoint = some (n', r)) : n'.bodies = n.bodies := by
  obtain ⟨n1, d, n2, failure, hd, hfork, h⟩ := reorganize_eq_some h
  have hkept := (disconnectTo_kept hd).1.trans (connectForkBlocks_kept hfork).1
  rcases h with ⟨m, top, e, hkept', -, -, rfl, -⟩ | ⟨m, work, htip, rfl, -⟩
  · exact ((hkept.trans hkept').trans (restoreMainChain_kept n m forkPoint top d).1).bodies_eq
  · obtain ⟨n3, hn3, htip⟩ := bind_eq_some_iff.mp htip
    cases htip
    exact (hkept.trans (connectState_kept hn3).1).bodies_eq

/-- Every body of the node has the property, with its hash. -/
structure Bodies (P : Hash → Block → Prop) (n : Node) : Prop where
  cache : ∀ (k : Hash) (x : Block), n.blocks[k]? = some x → P k x
  disk : ∀ (k : Hash) (x : Block), n.db.blocks[k]? = some x → P k x

variable {P : Hash → Block → Prop}

/-- It is about the bodies alone. -/
lemma Bodies.of_eq (h : Bodies P n) (hb : m.bodies = n.bodies) : Bodies P m := by
  obtain ⟨hblocks, hdb⟩ := Prod.mk.inj hb
  exact ⟨by rw [hblocks]; exact h.cache, by rw [hdb]; exact h.disk⟩

/-- What a lookup finds has it. -/
lemma Bodies.getBlock (h : Bodies P n) {x : Block} (hx : n.getBlock k = some x) : P k x := by
  unfold Node.getBlock at hx
  cases hk : n.blocks[k]? with
  | some x' =>
    rw [hk] at hx
    exact h.cache k x (hk.trans hx)
  | none =>
    rw [hk] at hx
    exact h.disk k x hx

/-- Storing a body that has it. -/
lemma Bodies.storeBlock (h : Bodies P n) (hy : P (E.blockHash y) y) :
    Bodies P (n.storeBlock E y) := by
  constructor <;> intro k x hx
  · rcases Table.insert_cases hx with ⟨rfl, rfl⟩ | hx
    · exact hy
    · exact h.cache k x hx
  · rcases Table.insert_cases hx with ⟨rfl, rfl⟩ | hx
    · exact hy
    · exact h.disk k x hx

/-- Adding a block brings no body but its own. -/
lemma Bodies.addBlock (h : Bodies P n) (hy : P (E.blockHash y) y)
    (hadd : addBlock R n y = some (n', r)) : Bodies P n' := by
  have hstore := h.storeBlock hy
  unfold CoinCync.addBlock at hadd
  split at hadd
  · cases hadd
    exact h
  split at hadd
  · rcases connectTip_eq_some hadd with ⟨rfl, -⟩ | ⟨l, -, -, -, hforget⟩
    · exact hstore
    · refine ⟨fun k x hx => hstore.cache k x (hforget.blocks k x hx), fun k x hx => ?_⟩
      rw [hforget.eq] at hx
      exact hstore.disk k x hx
  · unfold considerFork at hadd
    split at hadd
    · cases hadd
      exact hstore
    · cases hadd
      exact hstore
    · exact hstore.of_eq (bodies_reorganize hadd)

/-! ## Rolling back and restarting -/

lemma bodies_rollbackLoop (h : rollbackLoop E heights n orphaned = some (m, res)) :
    m.bodies = n.bodies := by
  induction heights generalizing n orphaned with
  | nil =>
    cases h
    rfl
  | cons k rest ih =>
    rw [rollbackLoop] at h
    split at h
    · exact (ih h).trans rfl
    split at h
    · cases h
      rfl
    · rw [bind_eq_bind, bind_eq_some_iff] at h
      obtain ⟨n1, h1, h⟩ := h
      rw [rollbackBlock, bind_eq_bind, bind_eq_some_iff] at h1
      obtain ⟨n2, h2, h1⟩ := h1
      cases h1
      exact (ih h).trans (disconnectState_kept h2).1.bodies_eq

/-- A rollback moves no body. -/
lemma bodies_rollbackToHeight (h : rollbackToHeight E n target = some (m, res)) :
    m.bodies = n.bodies := by
  have hmove : ∀ n : Node, (n.moveTipTo target).bodies = n.bodies := by
    intro n
    unfold moveTipTo
    split
    · rfl
    · split
      · split <;> rfl
      · rfl
  unfold rollbackToHeight at h
  split at h
  · cases h
    rfl
  split at h
  · cases h
    rfl
  · simp only [bind_eq_bind, bind_eq_some_iff, Prod.exists] at h
    obtain ⟨n1, res1, hloop, h⟩ := h
    split at h
    · cases h
      exact bodies_rollbackLoop hloop
    · cases h
      exact (hmove n1).trans (bodies_rollbackLoop hloop)

section

variable (hP : ∀ k x, P k x → P (E.blockHash x) x)
include hP

/-- The replay loop caches bodies of the block table only. -/
lemma Bodies.rebuildLoop (tipHeight cacheStart : ℕ) (heights : List ℕ) (h : Bodies P s.node) :
    Bodies P (rebuildLoop E tipHeight cacheStart heights s).node := by
  induction heights generalizing s with
  | nil => exact h
  | cons k rest ih =>
    rw [CoinCync.rebuildLoop]
    split
    · exact ih h
    · rename_i x hx
      split
      · exact ⟨h.cache, h.disk⟩
      · refine ih ?_
        unfold Rebuild.applyBlock
        simp only
        split
        · refine ⟨fun k' x' hx' => ?_, h.disk⟩
          rcases Table.insert_cases hx' with ⟨rfl, rfl⟩ | hx'
          · obtain ⟨k'', -, hget⟩ := bind_eq_some_iff.mp hx
            exact hP k'' _ (h.disk k'' _ hget)
          · exact h.cache k' x' hx'
        · exact ⟨h.cache, h.disk⟩

lemma Bodies.rebuildUtxoSet (h : Bodies P n)
    (tipHeight : ℕ) : Bodies P (n.rebuildUtxoSet E tipHeight) := by
  have hstart : Bodies P { n with utxos := { UtxoSet.empty with db := n.utxos.db } } := h.of_eq rfl
  have hloop := Bodies.rebuildLoop hP tipHeight (tipHeight - 200) (List.range (tipHeight + 1))
    (s := ⟨_, 0, 0, 0⟩) hstart
  exact ⟨hloop.cache, hloop.disk⟩

/-- A restart brings none. -/
lemma Bodies.restart (h : Bodies P n) (hm : restart R n = some m) : Bodies P m := by
  unfold CoinCync.restart at hm
  split at hm
  · rename_i n1 hload
    cases hm
    obtain ⟨st, t, r, m1, index, -, -, -, rfl, -, rfl⟩ := loadFromDatabase_loaded hload
    refine Bodies.of_eq (Bodies.rebuildUtxoSet hP (n := adoptState _ st t) ?_ st.height) rfl
    rw [adoptState_eq]
    exact ⟨fun k x hx => by simp [opened, withDatabase] at hx, h.disk⟩
  · simp at hm

/-- Only the delivery of a block brings its body. -/
lemma Bodies.step (h : Bodies P n) (hop : ∀ y, op = .addBlock y → P (E.blockHash y) y)
    (hm : step R n op = some m) : Bodies P m := by
  cases op with
  | addBlock y =>
    obtain ⟨⟨m', r⟩, hadd, rfl⟩ := map_eq_some_iff.mp hm
    exact h.addBlock (hop y rfl) hadd
  | rollback target =>
    obtain ⟨⟨m', r⟩, hroll, rfl⟩ := map_eq_some_iff.mp hm
    exact h.of_eq (bodies_rollbackToHeight hroll)
  | restart => exact h.restart hP hm

end

lemma bodies_genesisNode (h : P (E.blockHash R.genesis) R.genesis) :
    Bodies P (genesisNode R pool) := by
  have hgenesis : ∀ k x, (genesisNode R pool).db.get k = some x → P k x := by
    intro k x hx
    obtain ⟨rfl, rfl⟩ := get_genesisNode.mp hx
    exact h
  exact ⟨hgenesis, hgenesis⟩

/-- In every run the bodies are filed under their hashes. -/
lemma bodies_filed (h : Run.Reaches (step R) ok (genesisNode R pool) n) :
    Bodies (fun k x => E.blockHash x = k) n :=
  h.invariant (bodies_genesisNode rfl)
    fun _ _ _ ht _ hu => ht.step (fun _ _ _ => rfl) (fun _ _ => rfl) hu

/-! ## Rejections -/

/-- A failed check leaves the node, and fails again. -/
lemma addBlock_of_not_passed (hb : ¬ Passed R n b) (h : addBlock R n b = some (n', r)) :
    n' = n ∧ preCheck R n b = some r := by
  unfold addBlock at h
  split at h
  · rename_i r' hpre
    cases h
    exact ⟨rfl, hpre⟩
  · rename_i hpre
    exact absurd (preCheck_eq_none.mp hpre) hb

/-- A block the checks call invalid is not known. -/
lemma unknown_of_preCheck (h : preCheck R n b = some (.ok (.invalid reason))) :
    n.blocks[E.blockHash b]? = none ∧ n.db.get (E.blockHash b) = none := by
  unfold preCheck at h
  simp only at h
  split at h
  · simp at h
  · rename_i hknown
    rw [not_or] at hknown
    exact ⟨by simpa using hknown.1, by simpa using hknown.2⟩

/-- Once its body is stored a block is known. -/
lemma known_of_bodies (hm : m.bodies = (n.storeBlock E b).bodies) :
    preCheck R m b = some (.ok .alreadyKnown) := by
  obtain ⟨-, hdb⟩ := Prod.mk.inj hm
  have hget : m.db.get (E.blockHash b) = some b := by
    show m.db.blocks[E.blockHash b]? = some b
    rw [hdb]
    exact (get_storeBlock n b _).trans (if_pos rfl)
  rw [preCheck, if_pos (.inr (by rw [hget]; rfl))]

/-- An invalid block that passed the checks keeps its body. -/
lemma bodies_of_invalid (hb : Passed R n b)
    (h : addBlock R n b = some (n', .ok (.invalid reason))) :
    n'.bodies = (n.storeBlock E b).bodies := by
  rw [addBlock, preCheck_eq_none.mpr hb] at h
  simp only at h
  split at h
  · rcases connectTip_eq_some h with ⟨rfl, -⟩ | ⟨l, -, -, hr, -⟩
    · rfl
    · simp at hr
  · unfold considerFork at h
    split at h
    · simp at h
    · simp at h
    · exact bodies_reorganize h

/-- In every reachable state a rejected block is rejected again, and is no block's parent in any run
that does not offer it again, iff a check before the store rejected it. -/
theorem rejected_stays_rejected_iff {pool : Option SparkPool} {reason : InvalidReason}
    (hreach : Run.Reaches (step R) (fun _ _ => True) (genesisNode R pool) n)
    (h : addBlock R n b = some (n', .ok (.invalid reason))) :
    ((∃ n'' reason', addBlock R n' b = some (n'', .ok (.invalid reason'))) ∧
      ∀ m, Run.Reaches (step R) (fun _ op => op ≠ .addBlock b) n' m →
        m.getBlock (E.blockHash b) ≠ some b) ↔ ¬ Passed R n b := by
  constructor
  · rintro ⟨⟨n'', reason', hagain⟩, -⟩ hb
    rw [addBlock, known_of_bodies (bodies_of_invalid hb h)] at hagain
    simp at hagain
  · intro hb
    obtain ⟨rfl, hpre⟩ := addBlock_of_not_passed hb h
    obtain ⟨hcache, hdisk⟩ := unknown_of_preCheck hpre
    have hfiled := bodies_filed hreach
    have habsent : Bodies (fun _ x => x ≠ b) n' := by
      constructor
      · rintro k x hx rfl
        rw [← hfiled.cache k x hx, hcache] at hx
        simp at hx
      · rintro k x hx rfl
        rw [← hfiled.disk k x hx] at hx
        have hx : n'.db.get (E.blockHash x) = some x := hx
        rw [hdisk] at hx
        simp at hx
    refine ⟨⟨n', reason, h⟩, fun m hm hget => ?_⟩
    refine (hm.invariant habsent ?_).getBlock hget rfl
    intro t op u ht hop hu
    exact ht.step (fun _ _ hx => hx) (fun y hy e => hop (by rw [hy, e])) hu

/-! ## Concrete rejections -/

/-- A block with a height that does not follow its parent is refused before it is stored. -/
theorem rejected_stays_rejected_height :
    ∃ n', addBlock betaRules (genesisNode betaRules (some cleared)) (sampleBlock 5 0 0 0 [])
        = some (n', .ok (.invalid (.height 1 5))) ∧
      ¬ Passed betaRules (genesisNode betaRules (some cleared)) (sampleBlock 5 0 0 0 []) ∧
      ∀ m, Run.Reaches (step betaRules) (fun _ op => op ≠ .addBlock (sampleBlock 5 0 0 0 [])) n' m →
        m.getBlock 5000 ≠ some (sampleBlock 5 0 0 0 []) := by
  simp only [← and_assoc]
  refine Exists.imp (fun n' h => ⟨h, ((rejected_stays_rejected_iff .refl h.1).mpr h.2).2⟩) ?_
  simp only [← preCheck_eq_none]
  decide +kernel

/-- A shielded transaction without mint or spend: valid, but refused by the gate. -/
def idleTx : Transaction := { txType := .shielded, fee := 1000, extra := .sparkV2 { valueBalance := 0 } }

/-- The Spark gate refuses the fifth block; offered again it is already known, and its child finds
it as a parent. -/
theorem spark_rejected_block_is_known :
    ∃ n n' n'' c,
      Run.Reaches (step betaRules) (fun _ _ => True) (genesisNode betaRules (some cleared)) n ∧
      addBlock betaRules n (minedBlock 5 1000 [idleTx]) = some (n', .ok (.invalid .sparkV2)) ∧
      addBlock betaRules n' (minedBlock 5 1000 [idleTx]) = some (n'', .ok .alreadyKnown) ∧
      c.prevHash = (sampleEnv .beta 1).blockHash (minedBlock 5 1000 [idleTx]) ∧
      n'.getBlock c.prevHash = some (minedBlock 5 1000 [idleTx]) ∧
      preCheck betaRules n' c = none := by
  refine Exists.imp (fun n => Exists.imp fun n' => Exists.imp fun n'' h => ⟨minedBlock 6 0 [], h⟩) ?_
  simp only [exists_and_left]
  apply Run.exists_reaches_of_exec ((emptyBlocks 4).map .addBlock)
  decide +kernel

end CoinCync

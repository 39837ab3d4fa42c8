import CoinCync.System

/-!
# What a failed rollback leaves behind

`rollback_to_height` has two errors. The refusal at a checkpoint comes before anything is written.
The other one, a missing body, is returned from inside the loop: every block above it has been
disconnected by then. Bodies go missing through pruning, which keeps the height entry.
-/

namespace CoinCync

open Option Node

variable {E : Env} {n n' : Node}

/-- What a failed rollback has to keep. -/
structure SameAccounts (n n' : Node) : Prop where
  utxos : n'.utxos = n.utxos
  supply : n'.stats.totalSupply = n.stats.totalSupply
  burned : n'.stats.totalBurned = n.stats.totalBurned
  work : n'.stats.totalDifficulty = n.stats.totalDifficulty
  heights : ∀ h : ℕ, n'.heightToHash[h]? = n.heightToHash[h]?
  pool : n'.sparkPool = n.sparkPool
  txIndex : ∀ k : Hash, n'.db.txIndex[k]? = n.db.txIndex[k]?

lemma SameAccounts.refl (n : Node) : SameAccounts n n :=
  ⟨rfl, rfl, rfl, rfl, fun _ => rfl, rfl, fun _ => rfl⟩

/-! ## One iteration -/

/-- The highest of the heights that resolves has no body. -/
def Node.firstBodyMissing (n : Node) (heights : List ℕ) : Bool :=
  match heights.find? fun h => (n.getBlockHash h).isSome with
  | none => false
  | some h => (n.getBlockByHeight h).isNone

/-- Passing over an unresolved height changes no lookup. -/
lemma Node.heightToHash_unmapHeight (hnone : n.getBlockHash h = none) (x : ℕ) :
    (n.unmapHeight h).heightToHash[x]? = n.heightToHash[x]? := by
  have hfree : n.heightToHash[h]? = none := (or_eq_none_iff.mp hnone).1
  show (n.heightToHash.erase h)[x]? = _
  rw [Std.TreeMap.getElem?_erase]
  split
  · rename_i heq
    obtain rfl : h = x := by simpa using heq
    exact hfree.symm
  · rfl

/-- Nor does it change which body is missed first. -/
lemma Node.firstBodyMissing_unmapHeight (hnone : n.getBlockHash h = none) (heights : List ℕ) :
    (n.unmapHeight h).firstBodyMissing heights = n.firstBodyMissing (h :: heights) := by
  have hhash : (n.unmapHeight h).getBlockHash = n.getBlockHash := by
    funext x
    rw [getBlockHash, heightToHash_unmapHeight hnone]
    rfl
  have hbody : (n.unmapHeight h).getBlockByHeight = n.getBlockByHeight := by
    unfold getBlockByHeight
    rw [hhash]
    rfl
  simp only [firstBodyMissing, hhash, hbody, List.find?_cons, hnone, isSome_none]

/-- A disconnected block takes its emission with it. -/
lemma Node.totalSupply_rollbackBlock (hb : n.rollbackBlock E h body = some n') :
    n'.stats.totalSupply < n.stats.totalSupply := by
  simp only [rollbackBlock, disconnectState_eq, bind_eq_bind, bind_eq_some_iff,
    map_eq_some_iff, some.injEq] at hb
  obtain ⟨-, ⟨l, hl, rfl⟩, rfl⟩ := hb
  have hsupply : n.stats.totalSupply = l.supply + calculateBlockReward h :=
    (Ledger.disconnect_eq_some hl).1
  have hpos := calculateBlockReward_pos h
  show l.supply < n.stats.totalSupply
  omega

/-! ## The loop -/

/-- The supply never grows in the loop. -/
lemma rollbackLoop_totalSupply (h : rollbackLoop E heights n txs = some (n', r)) :
    n'.stats.totalSupply ≤ n.stats.totalSupply := by
  induction heights generalizing n txs with
  | nil =>
    cases h
    exact le_refl _
  | cons x rest ih =>
    rw [rollbackLoop] at h
    split at h
    · exact ih (n := n.unmapHeight x) h
    split at h
    · cases h
      exact le_refl _
    · simp only [bind_eq_bind, bind_eq_some_iff] at h
      obtain ⟨m, hm, h⟩ := h
      have hless := totalSupply_rollbackBlock hm
      have hrest := ih h
      exact le_trans hrest (le_of_lt hless)

/-- A failed loop keeps the state iff it failed before its first disconnect. -/
lemma rollbackLoop_error (h : rollbackLoop E heights n txs = some (n', .error e)) :
    SameAccounts n n' ↔ n.firstBodyMissing heights := by
  induction heights generalizing n txs with
  | nil => simp [rollbackLoop] at h
  | cons x rest ih =>
    rw [rollbackLoop] at h
    split at h
    · -- the height resolves to nothing and is passed over
      rename_i hnone
      rw [← firstBodyMissing_unmapHeight hnone, ← ih h]
      have hmap := heightToHash_unmapHeight hnone
      constructor
      · rintro ⟨hu, hs, hb, hw, hh, hp, ht⟩
        exact ⟨hu, hs, hb, hw, fun y => (hh y).trans (hmap y).symm, hp, ht⟩
      · rintro ⟨hu, hs, hb, hw, hh, hp, ht⟩
        exact ⟨hu, hs, hb, hw, fun y => (hh y).trans (hmap y), hp, ht⟩
    · rename_i k hk
      split at h
      · -- the missing body is the first thing the loop meets
        rename_i hbody
        obtain ⟨rfl, -⟩ := Prod.mk.inj (some.inj h)
        have hmissing : n.firstBodyMissing (x :: rest) := by
          simp [firstBodyMissing, getBlockByHeight, hk, hbody]
        exact ⟨fun _ => hmissing, fun _ => .refl n⟩
      · -- a block goes, and its emission does not come back
        rename_i body hbody
        simp only [bind_eq_bind, bind_eq_some_iff] at h
        obtain ⟨m, hm, h⟩ := h
        have hless := totalSupply_rollbackBlock hm
        have hrest : n'.stats.totalSupply ≤ m.stats.totalSupply :=
          rollbackLoop_totalSupply (n := m.unmapHeight x) h
        have hfound : n.firstBodyMissing (x :: rest) = false := by
          simp [firstBodyMissing, getBlockByHeight, hk, hbody]
        rw [hfound]
        constructor
        · intro hsame
          have := hsame.supply
          omega
        · simp

/-! ## The call -/

/-- A failed rollback keeps the accounts iff it was refused at the checkpoint, or the highest height
that resolves is the one whose body is missing. -/
theorem failed_rollback_keeps_iff {target : ℕ} {e : ChainError}
    (h : rollbackToHeight E n target = some (n', .error e)) :
    SameAccounts n n' ↔ target < n.db.lastCheckpoint ∨
      n.firstBodyMissing (heightsAbove target n.tip.height) := by
  unfold rollbackToHeight at h
  split at h
  · simp at h
  split at h
  · rename_i hcp
    cases h
    exact ⟨fun _ => .inl hcp, fun _ => .refl n⟩
  · rename_i hcp
    simp only [bind_eq_bind, bind_eq_some_iff] at h
    obtain ⟨⟨m, r⟩, hloop, h⟩ := h
    cases r with
    | ok txs => simp at h
    | error e' =>
      cases h
      rw [rollbackLoop_error hloop]
      simp [hcp]

/-- A body missing at the tip: the rollback fails at once and changes nothing. -/
theorem failed_rollback_keeps_iff_tip :
    ∃ n n' e, rollbackToHeight (sampleEnv .mainnet 0) n 0 = some (n', .error e) ∧
      SameAccounts n n' := by
  set g := genesisNode openMainnet none
  set n : Node := { g.mapHeight 1 1001 with tip := { g.tip with height := 1 } }
  have herr : (rollbackToHeight (sampleEnv .mainnet 0) n 0).map (·.2)
      = some (.error (.missingBody 1001 1)) := by decide +kernel
  obtain ⟨⟨n', r⟩, hroll, rfl⟩ := map_eq_some_iff.mp herr
  have hfirst : n.firstBodyMissing (heightsAbove 0 n.tip.height) := by decide +kernel
  exact ⟨n, n', _, hroll, (failed_rollback_keeps_iff hroll).mpr (.inr hfirst)⟩

/-! ## Pruning -/

/-- `store_pruned_and_remove`: the body goes, the height entry stays. -/
def Database.storePrunedAndRemove (db : Database) (h : ℕ) : Database :=
  match db.heightIndex[h]? with
  | none => db
  | some k => { db with blocks := db.blocks.erase k }

/-- The operations of the node, and pruning a height. -/
def prunedStep (R : Rules E) (n : Node) : Op ⊕ ℕ → Option Node
  | .inl op => step R n op
  | .inr h => some { n with db := n.db.storePrunedAndRemove h }

/-- 202 blocks that pass height 144 in a reorganisation, which records no checkpoint; then a restart
and a pruning. -/
def prunedRun (pruned : ℕ) : List (Op ⊕ ℕ) :=
  (List.range' 1 143).map (fun h =>
    .inl (.addBlock (sampleBlock h 1 (if h = 1 then 0 else 1000 * (h - 1) + 1) (2 ^ 255) []))) ++
  .inl (.addBlock (sampleBlock 143 2 142001 (2 ^ 255) [])) ::
  (List.range' 144 59).map (fun h =>
    .inl (.addBlock (sampleBlock h 2 (1000 * (h - 1) + 2) (2 ^ 255) []))) ++
  [.inl .restart, .inr pruned]

/-- The rollback past the pruned height fails with 201 blocks of emission gone. -/
theorem failed_rollback_drops_blocks :
    ∃ n n' e, Run.Reaches (prunedStep openMainnet) (fun _ _ => True)
        (genesisNode openMainnet none) n ∧
      rollbackToHeight (sampleEnv .mainnet 0) n 0 = some (n', .error e) ∧
      n'.stats.totalSupply < n.stats.totalSupply ∧ n'.tip = n.tip ∧ ¬ SameAccounts n n' := by
  simp only [← and_assoc]
  refine Exists.imp (fun n => Exists.imp fun n' h => ⟨.missingBody 1001 1, h, fun hsame => ?_⟩) ?_
  · exact absurd hsame.supply (Nat.ne_of_lt h.1.2)
  · simp only [and_assoc, exists_and_left]
    apply Run.exists_reaches_of_exec (prunedRun 1)
    decide +kernel

end CoinCync

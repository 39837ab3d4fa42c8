import CoinCync.AnyCache
import CoinCync.UtxoReplay

/-!
# Crashing in the middle of a reorganisation

`apply_reorg_atomic` is one database transaction, but the disconnect loop before it calls
`remove_output`, which deletes the row of every output that owns its address at once. `crashPoints`
lists the disk at every point between two writes.
-/

namespace CoinCync

open List Option Node UtxoSet

variable {E : Env} {R : Rules E} {n n' : Node} {b : Block} {u : UtxoSet}

/-! ## The writes -/

/-- The tables that say what the canonical chain is. -/
structure Disk where
  outputIndex : PublicKey → Option OutputIndexEntry
  heightIndex : Std.TreeMap ℕ Hash
  state : Option ChainStateData
  txIndex : Std.TreeMap Hash (ℕ × ℕ)

/-- The tables of a node. -/
def Node.disk (n : Node) : Disk := ⟨n.utxos.db, n.db.heightIndex, n.db.state, n.db.txIndex⟩

/-- The set after each removal. -/
def removalStates (u : UtxoSet) : List OutputKey → List UtxoSet
  | [] => []
  | k :: ks => u.removeOutput k :: removalStates (u.removeOutput k) ks

/-- The keys that disconnecting a block removes, in order. -/
def Block.keys (E : Env) (b : Block) : List OutputKey := b.transactions.flatMap (removedKeys E)

/-- The disk after each write of the disconnect loop. -/
def disconnectTrace (E : Env) : List ℕ → Node × Disconnected → List Disk
  | [], _ => []
  | h :: rest, s =>
    ((s.1.cachedBlock h).toList.flatMap fun body =>
      (removalStates s.1.utxos (body.keys E)).map fun u => { s.1.disk with outputIndex := u.db }) ++
    ((disconnectHeight E s h).toList.flatMap (disconnectTrace E rest))

/-- The disk wherever the process can die between `n` and `n'`. -/
def crashPoints (E : Env) (n : Node) (b : Block) (forkPoint : ℕ) (n' : Node) : List Disk :=
  n.disk :: (n.storeBlock E b).disk ::
    disconnectTrace E (heightsAbove forkPoint n.tip.height) (n.storeBlock E b, {}) ++ [n'.disk]

/-! ## One removal -/

/-- A removal takes nothing away from the other owners. -/
lemma UtxoCore.owns_removeOutput (u : UtxoCore) (k k' : OutputKey) (x : PublicKey) :
    (u.removeOutput k).owns k' x = true ↔ k' ≠ k ∧ u.owns k' x = true := by
  by_cases hk : k' = k
  · subst k'
    simp [owns, addressOf, removeOutput]
  · have haddr : (u.removeOutput k).addressOf k' = u.addressOf k' := by
      simp [addressOf, removeOutput, Function.update_of_ne hk]
    have hindex : (u.removeOutput k).stealthIndex x
        = if u.owns k x then none else u.stealthIndex x := rfl
    rw [owns, owns, decide_eq_true_eq, decide_eq_true_eq, haddr, hindex]
    constructor
    · rintro ⟨ha, hs⟩
      split at hs
      · simp at hs
      · exact ⟨hk, ha, hs⟩
    · rintro ⟨-, ha, hs⟩
      refine ⟨ha, ?_⟩
      rw [if_neg, hs]
      intro hown
      rw [owns, decide_eq_true_eq, hs] at hown
      exact hk (some.inj hown.2)

/-- No listed output owns a row, so the rows stay. -/
def UtxoSet.OwnNoRow (u : UtxoSet) (ks : List OutputKey) : Prop :=
  ∀ k ∈ ks, ∀ x, u.owns k x = true → u.db x = none

/-- When one removal writes nothing. -/
lemma UtxoSet.db_removeOutput_eq :
    (u.removeOutput k).db = u.db ↔ ∀ x, u.owns k x = true → u.db x = none := by
  constructor
  · intro h x hx
    have hrow : (if u.owns k x then none else u.db x) = u.db x := congrFun h x
    rw [if_pos hx] at hrow
    exact hrow.symm
  · intro h
    funext x
    show (if u.owns k x then none else u.db x) = u.db x
    split
    · rename_i hx
      exact (h x hx).symm
    · rfl

/-- Removals write nothing iff no listed output owns a row. -/
lemma removalStates_db_eq : (∀ u' ∈ removalStates u ks, u'.db = u.db) ↔ u.OwnNoRow ks := by
  induction ks generalizing u with
  | nil => simp [removalStates, UtxoSet.OwnNoRow]
  | cons k ks ih =>
    rw [removalStates, forall_mem_cons, db_removeOutput_eq, UtxoSet.OwnNoRow, forall_mem_cons]
    refine and_congr_right fun hk => ?_
    have hdb : (u.removeOutput k).db = u.db := db_removeOutput_eq.mpr hk
    rw [← hdb, ih]
    refine forall₂_congr fun k' _ => forall_congr' fun x => ?_
    rw [hdb]
    by_cases hkk : k' = k
    · subst k'
      exact ⟨fun _ => hk x, fun h hx => h ((UtxoCore.owns_removeOutput _ _ _ _).mp hx).2⟩
    · exact imp_congr_left
        ((UtxoCore.owns_removeOutput u.toUtxoCore k k' x).trans (and_iff_right hkk))

/-! ## The disconnect loop -/

/-- One iteration, on the parts the trace depends on. -/
lemma disconnectHeight_eq_some (hs : disconnectHeight E s h = some s') :
    s'.1.disk = { s.1.disk with outputIndex := s'.1.utxos.db } ∧
      (∀ h' ≠ h, s'.1.cachedBlock h' = s.1.cachedBlock h') ∧
      s'.1.utxos = match s.1.cachedBlock h with
        | some body => s.1.utxos.disconnectBlock E body.transactions
        | none => s.1.utxos := by
  have hunmap : ∀ (m : Node) (h' : ℕ), h' ≠ h →
      (m.unmapHeight h).cachedBlock h' = m.cachedBlock h' := by
    intro m h' hne
    unfold cachedBlock unmapHeight
    rw [Table.getElem?_erase, if_neg hne]
  unfold disconnectHeight at hs
  unfold cachedBlock at hunmap ⊢
  cases hk : s.1.heightToHash[h]? with
  | none =>
    rw [hk] at hs
    cases hs
    exact ⟨rfl, fun _ _ => rfl, rfl⟩
  | some k =>
    rw [hk] at hs
    simp only [bind_some]
    simp only at hs
    cases hbody : s.1.blocks[k]? with
    | none =>
      rw [hbody] at hs
      cases hs
      exact ⟨rfl, hunmap s.1, rfl⟩
    | some body =>
      rw [hbody] at hs
      simp only [bind_eq_bind, disconnectState_eq, bind_eq_some_iff,
        map_eq_some_iff, some.injEq] at hs
      obtain ⟨m, ⟨l, hl, rfl⟩, rfl⟩ := hs
      exact ⟨rfl, hunmap (s.1.withLedger l), (Ledger.disconnect_eq_some hl).2.2.1⟩

/-- The keys of the blocks the loop finds in the cache. -/
def Node.cachedKeys (E : Env) (n : Node) (heights : List ℕ) : List OutputKey :=
  (heights.filterMap n.cachedBlock).flatMap (Block.keys E)

lemma removalStates_append (u : UtxoSet) (ks ks' : List OutputKey) :
    removalStates u (ks ++ ks')
      = removalStates u ks ++ removalStates (ks.foldl removeOutput u) ks' := by
  induction ks generalizing u with
  | nil => rfl
  | cons k ks ih => exact congrArg (cons _) (ih (u.removeOutput k))

/-- The key images play no part in what a removal writes. -/
lemma map_db_removalStates (u : UtxoSet) (kis : Finset KeyImage) (ks : List OutputKey) :
    (removalStates { u with keyImages := kis } ks).map (·.db)
      = (removalStates u ks).map (·.db) := by
  induction ks generalizing u with
  | nil => rfl
  | cons k ks ih => exact congrArg (cons _) (ih (u.removeOutput k))

/-- The loop removes the outputs of the blocks it finds. -/
lemma disconnectTrace_eq (hnd : heights.Nodup)
    (hrun : heights.foldlM (disconnectHeight E) s = some s') :
    disconnectTrace E heights s
      = ((removalStates s.1.utxos (s.1.cachedKeys E heights)).map (·.db)).map
        fun rows => { s.1.disk with outputIndex := rows } := by
  induction heights generalizing s with
  | nil => rfl
  | cons h rest ih =>
    rw [nodup_cons] at hnd
    rw [foldlM_cons, bind_eq_bind, bind_eq_some_iff] at hrun
    obtain ⟨s1, hs1, hrun⟩ := hrun
    obtain ⟨hdisk, hcached, hutxos⟩ := disconnectHeight_eq_some hs1
    have hkeys : s1.1.cachedKeys E rest = s.1.cachedKeys E rest := by
      unfold cachedKeys
      rw [filterMap_congr fun h' hh' => hcached h' fun e => hnd.1 (e ▸ hh')]
    rw [disconnectTrace, hs1, toList_some, List.flatMap_singleton, ih hnd.2 hrun, hkeys,
      hdisk]
    cases hbody : s.1.cachedBlock h with
    | none =>
      rw [hbody] at hutxos
      have hnow : s.1.cachedKeys E (h :: rest) = s.1.cachedKeys E rest := by
        simp [cachedKeys, hbody]
      rw [hnow, hutxos]
      rfl
    | some body =>
      rw [hbody] at hutxos
      obtain ⟨kis, hkis⟩ :=
        disconnectBlock_eq s.1.utxos body.transactions s.1.utxos.keyImages
      have hnow : s.1.cachedKeys E (h :: rest) = body.keys E ++ s.1.cachedKeys E rest := by
        simp [cachedKeys, hbody]
      rw [hnow, removalStates_append, map_append, hutxos]
      simp only
      rw [hkis, map_db_removalStates]
      simp [Block.keys]

/-- The loop writes nothing iff no output it takes off owns a row. -/
lemma disconnectTrace_eq_iff (hnd : heights.Nodup)
    (hrun : heights.foldlM (disconnectHeight E) s = some s') :
    (∀ d ∈ disconnectTrace E heights s, d = s.1.disk) ↔
      s.1.utxos.OwnNoRow (s.1.cachedKeys E heights) := by
  rw [disconnectTrace_eq hnd hrun, ← removalStates_db_eq]
  simp only [List.forall_mem_map]
  refine forall₂_congr fun u' _ => ⟨fun h => congrArg Disk.outputIndex h, fun h => ?_⟩
  rw [h]
  rfl

/-! ## The whole reorganisation -/

/-- Connecting happens in memory. -/
lemma disk_connectState (h : n.connectState E x = some m) : m.disk = n.disk := by
  rw [connectState_eq, map_eq_some_iff] at h
  obtain ⟨l, hl, rfl⟩ := h
  have hdb : l.utxos.db = n.utxos.db := by
    rw [(Ledger.connect_eq_some hl).2.2.1, db_connectBlock]
    rfl
  unfold disk
  rw [← hdb]
  rfl

/-- Connecting a fork happens in memory. -/
lemma disk_connectForkBlocks {failure : Option ReorgFailure}
    (h : connectForkBlocks R forkPoint earlier fork n = some (m, failure)) : m.disk = n.disk := by
  induction fork generalizing n earlier with
  | nil =>
    cases h
    rfl
  | cons x fork ih =>
    rw [connectForkBlocks] at h
    split at h
    · cases h
      rfl
    · rw [bind_eq_bind, bind_eq_some_iff] at h
      obtain ⟨n1, h1, h⟩ := h
      obtain ⟨n2, h2, rfl⟩ := map_eq_some_iff.mp h1
      exact (ih h).trans (show n2.disk = n.disk from disk_connectState h2)

/-- The disconnect loop, work in memory, and the atomic batch. -/
lemma reorganize_writes {txs : List Transaction}
    (h : reorganize R n b forkPoint = some (n', .ok (.acceptedReorg txs))) :
    ∃ (mid m : Node) (d : Disconnected) (forkBlocks : List Block),
      disconnectTo E n forkPoint = some (mid, d) ∧ m.disk = mid.disk ∧
      n' = m.commitReorg E b forkBlocks n.tip.height d := by
  obtain ⟨mid, d, n2, failure, hd, hfork, h⟩ := reorganize_eq_some h
  rcases h with ⟨_, _, _, -, -, -, -, hr⟩ | ⟨m, work, hm, rfl, -⟩
  · simp at hr
  · refine ⟨mid, m, d, _, hd, ?_, rfl⟩
    obtain ⟨n3, hn3, hm⟩ := bind_eq_some_iff.mp hm
    cases hm
    exact (disk_connectState hn3).trans (disk_connectForkBlocks hfork)

lemma nodup_heightsAbove (lo hi : ℕ) : (heightsAbove lo hi).Nodup :=
  nodup_reverse.mpr nodup_range'

/-- The outputs that the reorganisation takes off. -/
def reorgKeys (E : Env) (n : Node) (b : Block) (forkPoint : ℕ) : List OutputKey :=
  (n.storeBlock E b).cachedKeys E (heightsAbove forkPoint n.tip.height)

/-- Whatever the state of the node: a successful reorganisation to a block that is not the saved tip
is all or nothing on disk, at every point at which the process can die, iff no output it takes off
owns a row of the output index. -/
theorem reorg_crash_consistent_iff {forkPoint : ℕ} {txs : List Transaction}
    (hsaved : ∀ st, n.db.state = some st → st.tipHash ≠ E.blockHash b)
    (hpoint : reorgPoint R n b = some forkPoint)
    (h : addBlock R n b = some (n', .ok (.acceptedReorg txs))) :
    (∀ d ∈ crashPoints E n b forkPoint n', d = n.disk ∨ d = n'.disk) ↔
      n.utxos.OwnNoRow (reorgKeys E n b forkPoint) := by
  obtain ⟨hb, hside, hdec⟩ := reorgPoint_eq_some.mp hpoint
  have hreorg : reorganize R (n.storeBlock E b) b forkPoint
      = some (n', .ok (.acceptedReorg txs)) := by
    rw [addBlock, preCheck_eq_none.mpr hb] at h
    simpa only [hside, Bool.false_eq_true, if_false, considerFork, hdec] using h
  obtain ⟨mid, m, d, forkBlocks, hloop, -, hn'⟩ := reorganize_writes hreorg
  have hiff := disconnectTrace_eq_iff (nodup_heightsAbove forkPoint n.tip.height) hloop
  have hcrash : (∀ d ∈ crashPoints E n b forkPoint n', d = n.disk ∨ d = n'.disk) ↔
      ∀ d ∈ disconnectTrace E (heightsAbove forkPoint n.tip.height) (n.storeBlock E b, {}),
        d = n.disk := by
    constructor
    · intro hall d hd
      rcases hall d (by simp [crashPoints, hd]) with hd' | hd'
      · exact hd'
      · -- the chain state still names the old tip
        exfalso
        rw [disconnectTrace_eq (nodup_heightsAbove forkPoint n.tip.height) hloop, List.mem_map] at hd
        obtain ⟨rows, -, rfl⟩ := hd
        have hstate : n.db.state = n'.db.state := congrArg Disk.state hd'
        rw [hn'] at hstate
        exact hsaved _ hstate rfl
    · intro hall d hd
      simp only [crashPoints, cons_append, mem_cons, mem_append, not_mem_nil, or_false] at hd
      rcases hd with rfl | rfl | hd | rfl
      · exact .inl rfl
      · exact .inl rfl
      · exact .inl (hall d hd)
      · exact .inr rfl
  rw [hcrash]
  exact hiff

/-- Two blocks pay to one address and the second is reorganised away: its output owns nothing. -/
theorem reorg_crash_consistent_shared :
    ∃ n n' b forkPoint txs,
      Run.Reaches (step openMainnet) (fun _ _ => True) (genesisNode openMainnet none) n ∧
      addBlock openMainnet n b = some (n', .ok (.acceptedReorg txs)) ∧
      reorgKeys (sampleEnv .mainnet 0) n b forkPoint = [(6, 0)] ∧
      ∀ d ∈ crashPoints (sampleEnv .mainnet 0) n b forkPoint n', d = n.disk ∨ d = n'.disk := by
  simp only [← and_assoc]
  set R := openMainnet
  let b2 := sampleBlock 2 2 1001 (2 ^ 130) []
  refine Exists.imp (fun n => Exists.imp fun n' (h : _ ∧ reorgPoint R n b2 = some 1 ∧
    n.db.state.map (·.tipHash) = some 2001 ∧ n.utxos.addressOf (6, 0) = some 5 ∧
    (n.utxos.stealthIndex 5).map (·.1) = some 3) => ⟨b2, 1, [], h.1, ?_⟩) ?_
  · obtain ⟨⟨⟨-, hadd⟩, hkeys⟩, hpoint, hstate, haddr, howner⟩ := h
    refine (reorg_crash_consistent_iff ?_ hpoint hadd).mpr ?_
    · intro st hst
      rw [hst] at hstate
      have htip : st.tipHash = 2001 := Option.some.inj hstate
      rw [htip]
      decide
    · rw [hkeys]
      intro k hk x hx
      obtain rfl := mem_singleton.mp hk
      rw [UtxoCore.owns, decide_eq_true_eq, haddr] at hx
      obtain ⟨rfl, hx⟩ := And.imp_left Option.some.inj hx
      rw [hx] at howner
      simp at howner
  · simp only [and_assoc, exists_and_left]
    apply Run.exists_reaches_of_exec [.addBlock (sampleBlock 1 1 0 (2 ^ 255) [payTo 5 1]),
      .addBlock (sampleBlock 2 1 1001 (2 ^ 255) [payTo 5 2])]
    decide +kernel

/-- The process dies after the output of a block was removed: height index and chain state are those
of the old chain, and its row is gone. -/
theorem reorg_crash_loses_row :
    ∃ n n' b forkPoint txs d,
      Run.Reaches (step openMainnet) (fun _ _ => True) (genesisNode openMainnet none) n ∧
      addBlock openMainnet n b = some (n', .ok (.acceptedReorg txs)) ∧
      reorgPoint openMainnet n b = some forkPoint ∧
      d ∈ crashPoints (sampleEnv .mainnet 0) n b forkPoint n' ∧
      n.disk.outputIndex 5 ≠ none ∧ d.outputIndex 5 = none ∧
      d.heightIndex[1]? = some 1001 ∧ n'.disk.heightIndex[1]? = some 1002 ∧
      d ≠ n.disk ∧ d ≠ n'.disk := by
  simp only [← and_assoc]
  refine Exists.imp (fun n => Exists.imp fun n' h => ⟨sampleBlock 1 2 0 (2 ^ 130) [], 0, [],
    Exists.imp (fun d h => ⟨⟨h, ?_⟩, ?_⟩) h⟩) ?_
  · rintro rfl
    exact h.1.1.1.2 h.1.1.2
  · rintro rfl
    have hnew := h.2
    rw [h.1.2] at hnew
    simp at hnew
  · simp only [and_assoc, exists_and_left]
    apply Run.exists_reaches_of_exec [.addBlock (sampleBlock 1 1 0 (2 ^ 255) [payTo 5 1])]
    decide +kernel

end CoinCync

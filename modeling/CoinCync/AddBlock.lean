import CoinCync.ForkChoice

/-!
# Adding a block

`Blockchain::add_block` of `chain.rs`, cut at its phases. Block validity is a parameter: `Rules`
holds one arbitrary predicate for each check the node runs on a block, over exactly the state that
check is handed. `none` is a panic.
-/

namespace CoinCync

open MachineInt

/-! ## Validity -/

/-- What `validate_block_ctx` returns: a verdict, or `Err`. -/
inductive Validation
  | valid
  | invalid
  | error
deriving DecidableEq

/-- The consensus rules of a network. -/
structure Rules (E : Env) where
  genesis : Block
  genesis_height : genesis.height = 0
  genesis_coinbase : ∀ tx ∈ genesis.transactions, tx.isCoinbase
  /-- `verify_checkpoint`, the hardcoded table. -/
  verifyCheckpoint : ℕ → Hash → Option Bool
  /-- Every network pins height zero. -/
  checkpoint_genesis : ∀ k, verifyCheckpoint 0 k ≠ some false → k = E.blockHash genesis
  /-- The proof-of-work anchor of a header re-derives (`compute_full_anchor`). -/
  anchorOk : Block → Bool
  /-- Median time past over the block's own lineage. -/
  timestampOk : Node → Block → Bool
  /-- The exact target over the main-chain window (`true`) or the fork window (`false`). -/
  targetOk : Node → Block → Bool → Bool
  /-- `validate_block_ctx block parent utxos checkpoint network contextual`. -/
  validateBlockCtx : Block → Option Block → UtxoSet → Option ℕ → Bool → Validation
  /-- Only genesis validates without a parent. -/
  validate_parent : ∀ b u cp ctx, validateBlockCtx b none u cp ctx = .valid → b.height = 0
  /-- `check_supply_commitment` against the totals after the block. -/
  supplyCommitmentOk : Block → ℕ → ℕ → Bool
  /-- `verify_block_spark_v2_at_height` against the pool. -/
  verifyBlockSparkV2 : SparkPool → List Transaction → ℕ → Bool
  /-- The exact target re-check of a reorg: main-chain blocks up to the fork point from the
  database, the fork blocks connected so far above it. -/
  reorgTargetOk : Database → ℕ → List Block → Block → Bool

/-- Why a reorganisation failed. -/
inductive ReorgFailure
  | forkValidationError
  | invalidForkBlock
  | forkTarget (height : ℕ)
  | forkSpark (height : ℕ)
  | tipValidationError
  | invalidTip
  | tipSpark
  | tipTarget (height : ℕ)
deriving DecidableEq

/-- Why a block is invalid. -/
inductive InvalidReason
  | height (expected got : ℕ)
  | checkpoint (height : ℕ)
  | timestamp
  | target
  | validation
  | supplyCommitment
  | sparkV2
  | reorg (e : ReorgFailure)
deriving DecidableEq

/-- `BlockStatus`. -/
inductive BlockStatus
  | accepted
  | acceptedFork
  | acceptedReorg (orphanedTxs : List Transaction)
  | alreadyKnown
  | orphan
  | invalid (reason : InvalidReason)
deriving DecidableEq

/-- What `add_block` returns. -/
abbrev AddResult := Except ChainError BlockStatus

variable {E : Env}

/-! ## The checks before anything is written -/

/-- The supply commitment against the totals the block would leave. -/
def Rules.commitmentOk (R : Rules E) (n : Node) (b : Block) : Bool :=
  R.supplyCommitmentOk b
    (satAdd 128 n.stats.totalSupply (calculateBlockReward b.height))
    (satAdd 128 n.stats.totalBurned (blockFeeBurn E b))

/-- The Spark gate; without a pool store nothing is checked. -/
def Rules.sparkOk (R : Rules E) (n : Node) (b : Block) : Bool :=
  match n.sparkPool with
  | none => true
  | some p => R.verifyBlockSparkV2 p b.transactions b.height

/-- Whether the block extends the tip. -/
def Node.isMainChain (n : Node) (b : Block) : Bool := b.prevHash = n.tip.hash ∨ b.height = 0

/-- The last checkpoint, when there is one above genesis. -/
def Database.assumeValid (db : Database) : Option ℕ :=
  (db.state.map (·.lastCheckpoint)).filter (0 < ·)

/-- The height that fits the parent. -/
def expectedHeight (b : Block) (parent : Option Block) : ℕ :=
  if b.height = 0 then 0 else (parent.map (·.height + 1)).getD 0

/-- The checks of `add_block` before it stores the body; `none` lets the block through. -/
def preCheck (R : Rules E) (n : Node) (b : Block) : Option AddResult :=
  let hash := E.blockHash b
  let parent := n.getBlock b.prevHash
  let isMain := n.isMainChain b
  -- `classify_incoming`
  if n.blocks[hash]?.isSome ∨ (n.db.get hash).isSome then some (.ok .alreadyKnown)
  else if parent.isNone ∧ 0 < b.height then some (.ok .orphan)
  else if b.height ≠ expectedHeight b parent then
    some (.ok (.invalid (.height (expectedHeight b parent) b.height)))
  else if R.verifyCheckpoint b.height hash = some false then
    some (.ok (.invalid (.checkpoint b.height)))
  else if 11 ≤ b.height ∧ !R.timestampOk n b then some (.ok (.invalid .timestamp))
  else if 1 ≤ b.height ∧ !R.targetOk n b isMain then some (.ok (.invalid .target))
  else match R.validateBlockCtx b parent n.utxos n.db.assumeValid isMain with
    | .error => some (.error .invalidState)
    | .invalid => some (.ok (.invalid .validation))
    | .valid =>
      if isMain ∧ !R.commitmentOk n b then some (.ok (.invalid .supplyCommitment)) else none

/-- The body goes to the cache and to the block table. -/
def Node.storeBlock (E : Env) (n : Node) (b : Block) : Node :=
  { n with
    blocks := n.blocks.insert (E.blockHash b) b
    db := { n.db with blocks := n.db.blocks.insert (E.blockHash b) b } }

/-! ## Connecting and disconnecting a block's state -/

/-- Checkpoint the pool, then feed it the block. -/
def connectPool (E : Env) (pool : Option SparkPool) (height : ℕ) (txs : List Transaction) :
    Option (Option SparkPool) :=
  match pool with
  | none => some none
  | some p => ((p.checkpointAtHeight height).applySparkV2Txs E txs height).map some

/-- `rewind_phase2_stores`. -/
def rewindPool (pool : Option SparkPool) : Option SparkPool := pool.map SparkPool.rewindOrKeep

/-- What every connect site does to totals, UTXO set and pool. -/
def Node.connectState (E : Env) (n : Node) (b : Block) : Option Node := do
  let supply ← checkedAdd 128 n.stats.totalSupply (calculateBlockReward b.height)
  let burned ← checkedAdd 128 n.stats.totalBurned (blockFeeBurn E b)
  let pool ← connectPool E n.sparkPool b.height b.transactions
  some { n with
    stats := { n.stats with totalSupply := supply, totalBurned := burned }
    utxos := n.utxos.connectBlock E b.height b.transactions
    sparkPool := pool }

/-- What every disconnect site does to them, at height `h`. -/
def Node.disconnectState (E : Env) (n : Node) (h : ℕ) (b : Block) : Option Node := do
  let supply ← checkedSub n.stats.totalSupply (calculateBlockReward h)
  let burned ← checkedSub n.stats.totalBurned (blockFeeBurn E b)
  some { n with
    stats := { n.stats with totalSupply := supply, totalBurned := burned }
    utxos := n.utxos.disconnectBlock E b.transactions
    sparkPool := rewindPool n.sparkPool }

/-- Enter a height into the map. -/
def Node.mapHeight (n : Node) (h : ℕ) (k : Hash) : Node :=
  { n with heightToHash := n.heightToHash.insert h k }

/-- Drop a height from the map. -/
def Node.unmapHeight (n : Node) (h : ℕ) : Node :=
  { n with heightToHash := n.heightToHash.erase h }

/-! ## Extending the tip -/

/-- The tip record of a block. -/
def chainTip (E : Env) (b : Block) : ChainTip :=
  ⟨E.blockHash b, b.height, b.work, b.header.timestamp⟩

/-- The in-memory part of a clean extension. -/
def Node.extendTip (E : Env) (n : Node) (b : Block) : Option Node := do
  let n ← n.connectState E b
  let n := n.mapHeight b.height (E.blockHash b)
  let n := { n with
    tip := chainTip E b
    stats := { n.stats with
      height := b.height
      totalBlocks := n.stats.totalBlocks + 1
      totalTransactions := n.stats.totalTransactions + b.transactions.length
      difficulty := b.work
      tipHash := E.blockHash b
      -- a plain `+=`: release builds wrap
      totalDifficulty := (n.stats.totalDifficulty + b.work) % 2 ^ 128 }
    utxos := n.utxos.evictOldOutputs b.height 1000 }
  some n.evictBlockCache

/-- The state record of a commit; the burn total is cut to `u64`. -/
def Node.stateFor (E : Env) (n : Node) (b : Block) (lastCheckpoint : ℕ) : ChainStateData where
  tipHash := E.blockHash b
  height := b.height
  totalDifficulty := n.stats.totalDifficulty
  totalSupply := n.stats.totalSupply
  totalBurned := n.stats.totalBurned % 2 ^ 64
  lastCheckpoint := lastCheckpoint

/-- The output index after `commit_block_atomic`, which filters against the committed table only. -/
def commitRows (db : PublicKey → Option OutputIndexEntry)
    (additions : List (PublicKey × OutputIndexEntry)) : PublicKey → Option OutputIndexEntry :=
  writeRows db (additions.filter fun r => (db r.1).isNone)

/-- `commit_block_atomic` as the extend path calls it. -/
def Node.commitBlock (E : Env) (n : Node) (b : Block) : Node :=
  let isCheckpoint := 0 < b.height ∧ b.height % checkpointInterval = 0
  let lastCheckpoint := if isCheckpoint then b.height else n.db.lastCheckpoint
  { n with
    utxos := { n.utxos with db := commitRows n.utxos.db (outputRows b.height b.transactions) }
    db := { n.db with
      heightIndex := n.db.heightIndex.insert b.height (E.blockHash b)
      state := some (n.stateFor E b lastCheckpoint)
      txIndex := Table.insertAll n.db.txIndex (txRows E b.height b.transactions) } }

/-- The main-chain branch of `add_block`, after storing the body. -/
def connectTip (R : Rules E) (n : Node) (b : Block) : Option (Node × AddResult) :=
  if !R.sparkOk n b then some (n, .ok (.invalid .sparkV2))
  else (n.extendTip E b).map fun n => (n.commitBlock E b, .ok .accepted)

/-! ## The reorganisation -/

/-- Heights `lo + 1 ..= hi`, highest first. -/
def heightsAbove (lo hi : ℕ) : List ℕ := (List.range' (lo + 1) (hi - lo)).reverse

/-- What the disconnect loop collects. -/
structure Disconnected where
  blocks : ℕ := 0
  txs : ℕ := 0
  txLists : List (List Transaction) := []
  heights : List (ℕ × Hash) := []

/-- Count a disconnected body. -/
def Disconnected.pushBlock (d : Disconnected) (b : Block) : Disconnected :=
  { d with
    blocks := d.blocks + 1
    txs := d.txs + b.transactions.length
    txLists := d.txLists ++ [b.transactions] }

/-- Remember a disconnected height. -/
def Disconnected.pushHeight (d : Disconnected) (h : ℕ) (k : Hash) : Disconnected :=
  { d with heights := d.heights ++ [(h, k)] }

/-- One round of the disconnect loop; an uncached height loses its mapping only. -/
def disconnectHeight (E : Env) (s : Node × Disconnected) (h : ℕ) : Option (Node × Disconnected) :=
  match s.1.heightToHash[h]? with
  | none => some s
  | some k =>
    match s.1.blocks[k]? with
    | none => some (s.1.unmapHeight h, s.2.pushHeight h k)
    | some body => do
      let n ← s.1.disconnectState E h body
      some (n.unmapHeight h, (s.2.pushBlock body).pushHeight h k)

/-- The disconnect loop down to the fork point. -/
def disconnectTo (E : Env) (n : Node) (forkPoint : ℕ) : Option (Node × Disconnected) :=
  (heightsAbove forkPoint n.tip.height).foldlM (disconnectHeight E) (n, {})

/-- The checks on one fork block; its parent comes from the cache. -/
def checkForkBlock (R : Rules E) (forkPoint : ℕ) (earlier : List Block) (n : Node) (b : Block) :
    Option ReorgFailure :=
  match R.validateBlockCtx b n.blocks[b.prevHash]? n.utxos none true with
  | .error => some .forkValidationError
  | .invalid => some .invalidForkBlock
  | .valid =>
    if 1 ≤ b.height ∧ !R.reorgTargetOk n.db forkPoint earlier b then some (.forkTarget b.height)
    else if !R.sparkOk n b then some (.forkSpark b.height)
    else if !R.commitmentOk n b then some .invalidForkBlock
    else none

/-- Connecting one fork block, once checked. -/
def Node.connectForkBlock (E : Env) (n : Node) (b : Block) : Option Node :=
  (n.connectState E b).map (·.mapHeight b.height (E.blockHash b))

/-- The connect loop; it stops at the first fork block that fails. -/
def connectForkBlocks (R : Rules E) (forkPoint : ℕ) :
    List Block → List Block → Node → Option (Node × Option ReorgFailure)
  | _, [], n => some (n, none)
  | earlier, b :: rest, n =>
    match checkForkBlock R forkPoint earlier n b with
    | some e => some (n, some e)
    | none => do
      let n ← n.connectForkBlock E b
      connectForkBlocks R forkPoint (earlier ++ [b]) rest n

/-- The checks on the triggering block that rollback path A follows. -/
def checkReorgTip (R : Rules E) (n : Node) (b : Block) : Option ReorgFailure :=
  match R.validateBlockCtx b n.blocks[b.prevHash]? n.utxos none true with
  | .error => some .tipValidationError
  | .invalid => some .invalidTip
  | .valid =>
    if !R.sparkOk n b then some .tipSpark
    else if !R.commitmentOk n b then some .invalidTip
    else none

/-- The exact target of the triggering block; path B follows. -/
def checkReorgTipTarget (R : Rules E) (forkPoint : ℕ) (forkBlocks : List Block) (n : Node)
    (b : Block) : Option ReorgFailure :=
  if 1 ≤ b.height ∧ !R.reorgTargetOk n.db forkPoint forkBlocks b then some (.tipTarget b.height)
  else none

/-! ### Rollback of a failed reorg -/

/-- Undo of a fork block on path A, if the height map has it. -/
def undoIfMapped (E : Env) (n : Node) (b : Block) : Option Node :=
  if n.heightToHash[b.height]? = some (E.blockHash b) then n.disconnectState E b.height b
  else some n

/-- Undo of a fork block on path B, unguarded. -/
def undoForkBlock (E : Env) (n : Node) (b : Block) : Option Node := n.disconnectState E b.height b

/-- Re-application of a main-chain block; the pool is checkpointed but not fed. -/
def reapplyMainBlock (E : Env) (n : Node) (e : ℕ × Hash) : Node :=
  let n := n.mapHeight e.1 e.2
  match n.blocks[e.2]? with
  | none => n
  | some body =>
    let utxos := n.utxos.connectBlock E e.1 body.transactions
    { n with
      sparkPool := n.sparkPool.map (·.checkpointAtHeight e.1)
      utxos := { utxos with db := insertRows utxos.db (outputRows e.1 body.transactions) } }

/-- The common end of both rollback paths. -/
def restoreMainChain (E : Env) (pre n : Node) (forkPoint removalTop : ℕ) (d : Disconnected) :
    Node :=
  let n := { n with
    heightToHash := Table.eraseAll n.heightToHash (heightsAbove forkPoint removalTop) }
  let n := d.heights.reverse.foldl (reapplyMainBlock E) n
  { n with tip := pre.tip, stats := pre.stats }

/-- Rollback path A: a fork block or the tip failed. -/
def rollbackA (E : Env) (pre n : Node) (forkPoint : ℕ) (forkBlocks : List Block)
    (d : Disconnected) : Option Node := do
  let n ← forkBlocks.reverse.foldlM (undoIfMapped E) n
  let highest := (forkBlocks.map (·.height)).foldr max pre.tip.height
  some (restoreMainChain E pre n forkPoint (max pre.tip.height highest) d)

/-- Rollback path B: the target of the tip failed after the fork was connected. -/
def rollbackB (E : Env) (pre n : Node) (forkPoint : ℕ) (forkBlocks : List Block) (b : Block)
    (d : Disconnected) : Option Node := do
  let n ← forkBlocks.reverse.foldlM (undoForkBlock E) n
  some (restoreMainChain E pre n forkPoint (max pre.tip.height b.height) d)

/-! ### Success -/

/-- `checked_sub`, then `saturating_add`; a counter found too small restarts. -/
def reorgCounter (total left came : ℕ) : ℕ :=
  match checkedSub total left with
  | some v => satAdd 64 v came
  | none => came

/-- Applying the triggering block and moving the tip to it. -/
def Node.applyReorgTip (E : Env) (n : Node) (b : Block) (forkBlocks : List Block) (work : ℕ)
    (d : Disconnected) : Option Node := do
  let n ← n.connectState E b
  let n := n.mapHeight b.height (E.blockHash b)
  let reconnectedTxs := ((forkBlocks ++ [b]).map (·.transactions.length)).sum
  some { n with
    tip := chainTip E b
    stats := { n.stats with
      height := b.height
      difficulty := b.work
      tipHash := E.blockHash b
      totalDifficulty := work
      totalBlocks := reorgCounter n.stats.totalBlocks d.blocks (forkBlocks.length + 1)
      totalTransactions := reorgCounter n.stats.totalTransactions d.txs reconnectedTxs } }

/-- The addresses of the disconnected outputs, whoever owns the row. -/
def removedAddresses (txLists : List (List Transaction)) : List PublicKey :=
  txLists.flatMap fun txs => txs.flatMap fun tx => tx.outputs.map (·.stealthAddress)

/-- The output index after `apply_reorg_atomic`: removals, then additions. -/
def reorgRows (db : PublicKey → Option OutputIndexEntry) (removals : List PublicKey)
    (additions : List (PublicKey × OutputIndexEntry)) : PublicKey → Option OutputIndexEntry :=
  let kept := additions.filter fun r => r.1 ∈ removals ∨ (db r.1).isNone
  writeRows (fun x => if x ∈ removals then none else db x) kept

/-- `apply_reorg_atomic` as the reorg path calls it. -/
def Node.commitReorg (E : Env) (n : Node) (b : Block) (forkBlocks : List Block)
    (oldTipHeight : ℕ) (d : Disconnected) : Node :=
  let connected := forkBlocks ++ [b]
  let additions := connected.flatMap fun c => outputRows c.height c.transactions
  let heightSets := connected.map fun c => (c.height, E.blockHash c)
  let txAdds := connected.flatMap fun c => txRows E c.height c.transactions
  { n with
    utxos := { n.utxos with db := reorgRows n.utxos.db (removedAddresses d.txLists) additions }
    db := { n.db with
      heightIndex := Table.eraseAll (Table.insertAll n.db.heightIndex heightSets)
        (heightsAbove b.height oldTipHeight)
      state := some (n.stateFor E b n.db.lastCheckpoint)
      txIndex := Table.insertAll
        (Table.eraseAll n.db.txIndex (d.txLists.flatMap (·.map E.txHash))) txAdds } }

/-- The transactions handed back to the mempool. -/
def orphanedTxs (d : Disconnected) : List Transaction :=
  d.txLists.flatten.filter (!·.isCoinbase)

/-- The reorganisation to `forkPoint`, after storing the body. -/
def reorganize (R : Rules E) (n : Node) (b : Block) (forkPoint : ℕ) : Option (Node × AddResult) := do
  let work := n.calculateForkCumulativeWork b
  let (n₁, d) ← disconnectTo E n forkPoint
  let forkBlocks := n₁.collectForkChain b forkPoint
  let (n₂, failure) ← connectForkBlocks R forkPoint [] forkBlocks n₁
  match failure.or (checkReorgTip R n₂ b) with
  | some e => do
    let n₃ ← rollbackA E n n₂ forkPoint forkBlocks d
    some (n₃, .ok (.invalid (.reorg e)))
  | none =>
    match checkReorgTipTarget R forkPoint forkBlocks n₂ b with
    | some e => do
      let n₃ ← rollbackB E n n₂ forkPoint forkBlocks b d
      some (n₃, .ok (.invalid (.reorg e)))
    | none => do
      let n₃ ← n₂.applyReorgTip E b forkBlocks work d
      some (n₃.commitReorg E b forkBlocks n.tip.height d, .ok (.acceptedReorg (orphanedTxs d)))

/-- The fork branch of `add_block`, after storing the body. -/
def considerFork (R : Rules E) (n : Node) (b : Block) : Option (Node × AddResult) :=
  match n.forkDecision E b with
  | .keep => some (n, .ok .acceptedFork)
  | .refuse e => some (n, .error e)
  | .reorg forkPoint => reorganize R n b forkPoint

/-- `Blockchain::add_block`. -/
def addBlock (R : Rules E) (n : Node) (b : Block) : Option (Node × AddResult) :=
  match preCheck R n b with
  | some r => some (n, r)
  | none =>
    if n.isMainChain b then connectTip R (n.storeBlock E b) b
    else considerFork R (n.storeBlock E b) b

end CoinCync

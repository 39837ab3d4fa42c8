import CoinCync.AddBlock

/-!
# Genesis and restart

`chain/recovery.rs`: initialising genesis on an empty database, and loading a node from what an
earlier process left on disk. Two migrations of old data directories are left out: the bulk fill of
an empty persistent output index, and the fill of an empty transaction index.
-/

namespace CoinCync

variable {E : Env}

/-- `Blockchain::with_database`: the stores just opened. -/
def Node.withDatabase (db : Database) (rows : PublicKey → Option OutputIndexEntry)
    (pool : Option SparkPool) : Node where
  blocks := ∅
  heightToHash := ∅
  tip := ⟨0, 0, 1, 0⟩
  stats := ⟨0, 0, 0, 0, 0, 0, 0, 0⟩
  genesisHash := none
  utxos := { UtxoSet.empty with db := rows }
  db := db
  sparkPool := pool

/-- A new data directory. -/
def Database.empty : Database := ⟨∅, ∅, none, ∅, none⟩

/-! ## Genesis -/

/-- `init_genesis`; coinbase transactions do not feed the pool. -/
def initGenesis (R : Rules E) (n : Node) : Node :=
  let g := R.genesis
  let hash := E.blockHash g
  let utxos := n.utxos.connectBlock E 0 g.transactions
  { n with
    blocks := n.blocks.insert hash g
    heightToHash := n.heightToHash.insert 0 hash
    genesisHash := some hash
    tip := ⟨hash, 0, 1, g.header.timestamp⟩
    stats := { n.stats with
      height := 0
      totalBlocks := 1
      totalTransactions := g.transactions.length
      tipHash := hash
      totalSupply := calculateBlockReward 0
      totalDifficulty := 1
      totalBurned := 0 }
    utxos := { utxos with db := insertRows utxos.db (outputRows 0 g.transactions) }
    db := { n.db with
      blocks := n.db.blocks.insert hash g
      heightIndex := n.db.heightIndex.insert 0 hash
      txIndex := Table.insertAll n.db.txIndex (txRows E 0 g.transactions)
      network := some E.network
      state := some ⟨hash, 0, 1, calculateBlockReward 0, 0, 0⟩ } }

/-- The start of every run; `pool` is `none` or the empty pool. -/
def genesisNode (R : Rules E) (pool : Option SparkPool) : Node :=
  initGenesis R (Node.withDatabase Database.empty (fun _ => none) pool)

/-! ## Rebuilding the UTXO set -/

/-- The loop state of `rebuild_utxo_set`. -/
structure Rebuild where
  node : Node
  prevHash : Hash
  blocksApplied : ℕ
  txsApplied : ℕ

/-- A linked block: apply it, and cache it when recent. -/
def Rebuild.applyBlock (E : Env) (r : Rebuild) (h cacheStart : ℕ) (b : Block) : Rebuild :=
  let hash := E.blockHash b
  let n := { r.node with utxos := r.node.utxos.connectBlock E h b.transactions }
  { node :=
      if cacheStart ≤ h then
        { n with
          heightToHash := n.heightToHash.insert h hash
          blocks := n.blocks.insert hash b }
      else n
    prevHash := hash
    blocksApplied := r.blocksApplied + 1
    txsApplied := r.txsApplied + b.transactions.length }

/-- A break at `h`: tip and height entries go below it, the totals stay. -/
def Rebuild.truncate (r : Rebuild) (h tipHeight : ℕ) : Rebuild :=
  let n := r.node
  let heights := List.range' h (tipHeight + 1 - h)
  { r with node := { n with
      tip := { n.tip with height := h - 1, hash := r.prevHash }
      stats := { n.stats with height := h - 1, tipHash := r.prevHash }
      db := { n.db with
        heightIndex := Table.eraseAll n.db.heightIndex heights
        state := some {
          tipHash := r.prevHash
          height := h - 1
          totalDifficulty := n.stats.totalDifficulty
          totalSupply := n.stats.totalSupply
          totalBurned := n.stats.totalBurned % 2 ^ 64
          lastCheckpoint := n.db.lastCheckpoint } } } }

/-- The replay loop; a missing body is only logged. -/
def rebuildLoop (E : Env) (tipHeight cacheStart : ℕ) : List ℕ → Rebuild → Rebuild
  | [], r => r
  | h :: rest, r =>
    match r.node.db.getByHeight h with
    | none => rebuildLoop E tipHeight cacheStart rest r
    | some b =>
      if 0 < h ∧ b.prevHash ≠ r.prevHash then r.truncate h tipHeight
      else rebuildLoop E tipHeight cacheStart rest (r.applyBlock E h cacheStart b)

/-- `rebuild_utxo_set`. -/
def Node.rebuildUtxoSet (E : Env) (n : Node) (tipHeight : ℕ) : Node :=
  let start : Rebuild :=
    ⟨{ n with utxos := { UtxoSet.empty with db := n.utxos.db } }, 0, 0, 0⟩
  let r := rebuildLoop E tipHeight (tipHeight - 200) (List.range (tipHeight + 1)) start
  { r.node with
    stats := { r.node.stats with
      totalBlocks := r.blocksApplied
      totalTransactions := r.txsApplied }
    utxos := r.node.utxos.evictOldOutputs tipHeight 1000 }

/-! ## Rebuilding the pool -/

/-- Feeding the pool the block at a height, if any. -/
def Node.replayHeight (E : Env) (n : Node) (p : SparkPool) (h : ℕ) : Option SparkPool :=
  match n.getBlockByHeight h with
  | none => some p
  | some b => p.applySparkV2Txs E b.transactions h

/-- `rebuild_spark_pool`: clear, then replay without checkpoints. -/
def Node.rebuildSparkPool (E : Env) (n : Node) (tipHeight : ℕ) : Option Node :=
  match n.sparkPool with
  | none => some n
  | some p => do
    let p ← (List.range (tipHeight + 1)).foldlM (n.replayHeight E) (.clearedBeside p.stores)
    some { n with sparkPool := some p }

/-! ## Loading -/

/-- Why a data directory is refused. -/
inductive LoadError
  | stateMissing
  | noGenesisEntry
  | genesisMismatch
  | networkMismatch
  | anchorMismatch
  | heightMismatch (state block : ℕ)
  | tipMissing
deriving DecidableEq

/-- `ChainLoadOutcome`. -/
inductive ChainLoadOutcome
  | fresh
  | loaded
deriving DecidableEq

/-- The refusals that precede any change of the node. -/
def loadRefusal (R : Rules E) (db : Database) (state : ChainStateData) : Option LoadError :=
  if db.heightIndex[0]? = none then some .noGenesisEntry
  else if db.heightIndex[0]? ≠ some (E.blockHash R.genesis) then some .genesisMismatch
  else if db.network ≠ none ∧ db.network ≠ some E.network then some .networkMismatch
  else if 1 ≤ state.height ∧ ((db.getByHeight 1).map R.anchorOk) = some false then
    some .anchorMismatch
  else none

/-- Tip and totals of the record, the work recomputed if every block is there. -/
def Node.adoptState (n : Node) (state : ChainStateData) (tipBlock : Block) : Node :=
  let n := { n with
    tip := ⟨state.tipHash, state.height, tipBlock.work, tipBlock.header.timestamp⟩
    stats := { n.stats with
      height := state.height
      totalSupply := state.totalSupply
      totalBurned := state.totalBurned
      tipHash := state.tipHash
      totalDifficulty := state.totalDifficulty
      difficulty := tipBlock.work } }
  match n.recomputeTotalDifficulty state.height with
  | some work => { n with stats := { n.stats with totalDifficulty := work } }
  | none => n

/-- Index rows for genesis transactions that have none. -/
def Node.indexGenesisTxs (E : Env) (n : Node) : Node :=
  match n.getBlockByHeight 0 with
  | none => n
  | some g =>
    let missing := (txRows E 0 g.transactions).filter fun r => (n.db.txIndex[r.1]?).isNone
    { n with db := { n.db with txIndex := Table.insertAll n.db.txIndex missing } }

/-- `load_from_database_with_outcome`. Tip in memory and tip on disk are always written together, so
`verify_tip_integrity` has nothing to reload. -/
def loadFromDatabase (R : Rules E) (n : Node) :
    Option (Except LoadError (ChainLoadOutcome × Node)) :=
  match n.db.state with
  | none =>
    if n.db.blocks.isEmpty ∧ n.db.heightIndex.isEmpty then some (.ok (.fresh, n))
    else some (.error .stateMissing)
  | some state =>
    match loadRefusal R n.db state with
    | some e => some (.error e)
    | none =>
      let n := { n with db := { n.db with network := some E.network } }
      match n.db.get state.tipHash with
      | none => some (.error .tipMissing)
      | some tipBlock =>
        if tipBlock.height ≠ state.height then
          some (.error (.heightMismatch state.height tipBlock.height))
        else do
          let n := n.adoptState state tipBlock
          let n := n.rebuildUtxoSet E state.height
          let n ← n.rebuildSparkPool E state.height
          some (.ok (.loaded, n.indexGenesisTxs E))

/-- What is on disk, loaded by a new process. Pool checkpoints are not persistent. -/
def restart (R : Rules E) (n : Node) : Option Node :=
  match loadFromDatabase R
      (Node.withDatabase n.db n.utxos.db (n.sparkPool.map SparkPool.reopened)) with
  | some (.ok (.loaded, n')) => some n'
  | _ => none

end CoinCync

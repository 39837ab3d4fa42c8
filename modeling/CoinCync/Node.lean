import CoinCync.Lib.Lineage
import CoinCync.SparkPool
import CoinCync.Utxos

/-!
# The node

The state `chain.rs` keeps: a bounded in-memory cache of blocks and heights, the tip and its
statistics, the UTXO set, the Spark pool, and the database.

Everything runs under the writer's `apply_lock`, so an operation is one step from state to state.
A database is always attached: the in-memory mode without one exists for tests. The pool is `none`
unless the Spark features are on; the native stores are part of it.
-/

namespace CoinCync

/-! ## State -/

/-- The tip in memory. -/
structure ChainTip where
  hash : Hash
  height : ℕ
  difficulty : ℕ
  timestamp : ℕ
deriving DecidableEq

/-- Running totals; supply, burn and work are `u128`. -/
structure ChainStats where
  height : ℕ
  totalBlocks : ℕ
  totalTransactions : ℕ
  totalSupply : ℕ
  totalBurned : ℕ
  difficulty : ℕ
  tipHash : Hash
  totalDifficulty : ℕ
deriving DecidableEq

/-- The chain state record; `total_burned` is a `u64` here. -/
structure ChainStateData where
  tipHash : Hash
  height : ℕ
  totalDifficulty : ℕ
  totalSupply : ℕ
  totalBurned : ℕ
  lastCheckpoint : ℕ
deriving DecidableEq

/-- Block, height, state and transaction tables, and the network stamp. Only canonical blocks have a
height entry. -/
structure Database where
  blocks : Std.TreeMap Hash Block
  heightIndex : Std.TreeMap ℕ Hash
  state : Option ChainStateData
  txIndex : Std.TreeMap Hash (ℕ × ℕ)
  network : Option NetworkType

/-- The state of a node. -/
structure Node where
  blocks : Std.TreeMap Hash Block
  heightToHash : Std.TreeMap ℕ Hash
  tip : ChainTip
  stats : ChainStats
  genesisHash : Option Hash
  utxos : UtxoSet
  db : Database
  sparkPool : Option SparkPool

/-- How blocks are linked. -/
def Env.linking (E : Env) : Linking Block Hash := ⟨E.blockHash, Block.prevHash, Block.height⟩

/-! ## Database access -/

namespace Database

variable (db : Database)

/-- `BlockDb::get`. -/
def get (k : Hash) : Option Block := db.blocks[k]?

/-- `BlockDb::get_by_height`. -/
def getByHeight (h : ℕ) : Option Block := db.heightIndex[h]?.bind db.get

/-- The height of the last checkpoint on disk. -/
def lastCheckpoint : ℕ := (db.state.map (·.lastCheckpoint)).getD 0

/-- `remove_heights_above`. -/
def removeHeightsAbove (h : ℕ) : Database :=
  { db with heightIndex := Table.eraseAll db.heightIndex (db.heightIndex.keys.filter (h < ·)) }

/-- `remove_tx_index` for every transaction of a block. -/
def removeTxIndex (E : Env) (txs : List Transaction) : Database :=
  { db with txIndex := Table.eraseAll db.txIndex (txs.map E.txHash) }

end Database

/-- Transaction index rows of a block. -/
def txRows (E : Env) (height : ℕ) (txs : List Transaction) : List (Hash × ℕ × ℕ) :=
  txs.mapIdx fun i tx => (E.txHash tx, height, i)

/-- Output index rows of a block, in block order. -/
def outputRows (height : ℕ) (txs : List Transaction) : List (PublicKey × OutputIndexEntry) :=
  txs.flatMap fun tx => tx.outputs.map fun o =>
    (o.stealthAddress, ⟨o.commitment, height, tx.isCoinbase, o.lockHeight⟩)

/-- Write rows from the left; a later one overwrites. -/
def writeRows (db : PublicKey → Option OutputIndexEntry)
    (rows : List (PublicKey × OutputIndexEntry)) : PublicKey → Option OutputIndexEntry :=
  rows.foldl (fun d r => Function.update d r.1 (some r.2)) db

/-- `OutputIndexDb::insert` for each row, which keeps an existing one. -/
def insertRows (db : PublicKey → Option OutputIndexEntry)
    (rows : List (PublicKey × OutputIndexEntry)) : PublicKey → Option OutputIndexEntry :=
  rows.foldl (fun d r => Function.update d r.1 (some ((d r.1).getD r.2))) db

/-! ## Queries -/

namespace Node

variable (n : Node)

/-- `get_block`: the cache, then the database. -/
def getBlock (k : Hash) : Option Block := n.blocks[k]?.or (n.db.get k)

/-- `get_block_hash`: the height map, then the height index. -/
def getBlockHash (h : ℕ) : Option Hash := n.heightToHash[h]?.or n.db.heightIndex[h]?

/-- `get_block_by_height`. -/
def getBlockByHeight (h : ℕ) : Option Block := (n.getBlockHash h).bind n.getBlock

/-- The body at a height as far as the cache knows it. -/
def cachedBlock (h : ℕ) : Option Block := n.heightToHash[h]?.bind (n.blocks[·]?)

/-! ## Walking a fork -/

/-- The loop of `calculate_fork_cumulative_work`, with its step bound. -/
def forkWorkLoop : ℕ → ℕ → Hash → ℕ
  | 0, total, _ => total
  | steps + 1, total, current =>
    match n.getBlock current with
    | none => total
    | some parent =>
      -- genesis contributes the fixed base, not the work of its target
      if parent.height = 0 then MachineInt.satAdd 128 total 1
      else forkWorkLoop steps (MachineInt.satAdd 128 total parent.work) parent.prevHash

/-- `calculate_fork_cumulative_work`. -/
def calculateForkCumulativeWork (b : Block) : ℕ :=
  n.forkWorkLoop (b.height + 100) b.work b.prevHash

/-- One iteration per stored block, since a repeated hash ends a walk. -/
def walkFuel (b : Block) : ℕ := b.height + n.blocks.size + n.db.blocks.size + 2

/-- The loop of `find_fork_point`; `none` is corruption. -/
def forkPointLoop : ℕ → List Hash → Hash → Option ℕ
  | 0, _, _ => none
  | fuel + 1, visited, current =>
    if current ∈ visited then none
    else match n.getBlock current with
      | none => none
      | some parent =>
        if n.getBlockHash parent.height = some current then some parent.height
        else if parent.height = 0 then some 0
        else forkPointLoop fuel (current :: visited) parent.prevHash

/-- `find_fork_point`. -/
def findForkPoint (b : Block) : Option ℕ := n.forkPointLoop (n.walkFuel b) [] b.prevHash

/-- The loop of `collect_fork_chain`, newest first. -/
def forkChainLoop (forkPoint : ℕ) : ℕ → List Hash → Hash → List Block
  | 0, _, _ => []
  | fuel + 1, visited, current =>
    if current ∈ visited then []
    else match n.getBlock current with
      | none => []
      | some block =>
        if block.height ≤ forkPoint then []
        else block :: forkChainLoop forkPoint fuel (current :: visited) block.prevHash

/-- `collect_fork_chain`: the stored fork below `b`, ascending. -/
def collectForkChain (b : Block) (forkPoint : ℕ) : List Block :=
  (n.forkChainLoop forkPoint (n.walkFuel b) [] b.prevHash).reverse

/-- `recompute_total_difficulty`. -/
def recomputeTotalDifficulty (height : ℕ) : Option ℕ :=
  (List.range' 1 height).foldlM (fun total h =>
    (n.getBlockByHeight h).map fun b => MachineInt.satAdd 128 total b.work) 1

/-! ## The cache bound -/

/-- `MAX_BLOCK_CACHE`. -/
def maxBlockCache : ℕ := 500

/-- The eviction loop in ascending order, with `left` to evict. -/
def evictLoop (tipHeight : ℕ) : List (ℕ × Hash) → ℕ → Node → Node
  | [], _, n => n
  | _ :: _, 0, n => n
  | (h, k) :: rest, left + 1, n =>
    if h = 0 ∨ tipHeight ≤ h + 200 then evictLoop tipHeight rest (left + 1) n
    else evictLoop tipHeight rest left
      { n with blocks := n.blocks.erase k, heightToHash := n.heightToHash.erase h }

/-- `evict_block_cache`. -/
def evictBlockCache : Node :=
  if n.blocks.size ≤ maxBlockCache then n
  else evictLoop n.tip.height n.heightToHash.toList (n.blocks.size - maxBlockCache) n

end Node

end CoinCync

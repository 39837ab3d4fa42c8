import CoinCync.Block

/-!
# The Spark pool

`storage/spark_pool.rs`, `apply_spark_v2_txs` of `chain.rs`, and the lock-step of the Phase-2 stores,
`storage/phase2.rs`.

Coins, spent tags and pool value are written through to disk, the stack of reorg checkpoints lives
in memory. Lookup tables and maximum heights of the source are computed from the lists. The native
stores attached beside the pool are checkpointed and rewound with it, and apply halts when their
stacks have not the depth of its own; of them only the stacks are modelled.

`none` is a panic: the source halts the process on every inconsistency of an apply.
-/

namespace CoinCync

/-- A coin of the pool, with the height it came in at. -/
structure SparkPoolCoin where
  outpoint : Hash
  coin : Bytes
  serialContext : Bytes
  height : ℕ
deriving DecidableEq

/-- A reorg boundary, taken before the block at `height`. -/
structure PoolCheckpoint where
  height : ℕ
  coinsLen : ℕ
  poolValue : ℤ
deriving DecidableEq

/-- The persisted part of the pool. -/
structure PoolContents where
  coins : List SparkPoolCoin := []
  spentTags : List (Tag × ℕ) := []
  poolValue : ℤ := 0
deriving DecidableEq

/-- `MAX_CHECKPOINTS`, the bound of every Phase-2 store. -/
def maxCheckpoints : ℕ := 1000

/-- The native Phase-2 stores. -/
inductive Phase2Label
  | shielded
  | spark
  | kernel
deriving DecidableEq

/-- A native Phase-2 store: its checkpoint heights, newest first. -/
structure Phase2Store where
  label : Phase2Label
  checkpoints : List ℕ := []
deriving DecidableEq

/-- Contents, the bounded stack, newest first, and the native stores. -/
structure SparkPool extends PoolContents where
  checkpoints : List PoolCheckpoint := []
  stores : List Phase2Store := []
  bounded : checkpoints.length ≤ maxCheckpoints := by decide
deriving DecidableEq

/-! ## Operations on the contents -/

namespace PoolContents

variable (p : PoolContents)

/-- `index_of(..).is_some()`. -/
def hasOutpoint (outpoint : Hash) : Bool := p.coins.any (·.outpoint = outpoint)

/-- `is_tag_spent`. -/
def isTagSpent (tag : Tag) : Bool := p.spentTags.any (·.1 = tag)

/-- `max_coin_height`. -/
def maxCoinHeight : ℕ := p.coins.foldl (fun m c => max m c.height) 0

/-- `max_spent_tag_height`. -/
def maxSpentTagHeight : ℕ := p.spentTags.foldl (fun m t => max m t.2) 0

/-- `add_coin`: refused when the outpoint is present. -/
def addCoin (c : SparkPoolCoin) : Option PoolContents :=
  if p.hasOutpoint c.outpoint then none else some { p with coins := p.coins ++ [c] }

/-- `mark_tag_spent`: refused when the tag is spent. -/
def markTagSpent (height : ℕ) (tag : Tag) : Option PoolContents :=
  if p.isTagSpent tag then none else some { p with spentTags := p.spentTags ++ [(tag, height)] }

/-- `apply_value_balance`: the pool must not go negative. -/
def applyValueBalance (valueBalance : ℤ) : Option PoolContents :=
  if p.poolValue - valueBalance < 0 then none
  else some { p with poolValue := p.poolValue - valueBalance }

end PoolContents

section Apply

variable (E : Env)

/-- The coins of a mint, keyed by outpoint; all share the context of output `0`. -/
def mintCoins (tx : Transaction) (coins : List Bytes) (height : ℕ) : List SparkPoolCoin :=
  let images := tx.inputs.map (·.keyImage)
  coins.mapIdx fun i c =>
    ⟨E.deriveOutpoint images i, c, E.serialContext (E.deriveOutpoint images 0), height⟩

/-- The loose coins of a payload; each has its own context. -/
def bareCoins (tx : Transaction) (coins : List Bytes) (height : ℕ) : List SparkPoolCoin :=
  let images := tx.inputs.map (·.keyImage)
  coins.mapIdx fun i c =>
    ⟨E.deriveOutpoint images i, c, E.serialContext (E.deriveOutpoint images i), height⟩

/-- The coins a spend creates; one present is skipped. -/
def addSpendOutputs (p : PoolContents) (height : ℕ) (bundle : Bytes) : PoolContents :=
  match E.spendOutputs bundle with
  | none => p
  | some (coins, ctx) =>
    coins.foldl (fun p c => (p.addCoin ⟨E.coinId c, c, ctx, height⟩).getD p) p

/-- `apply_spark_payload`: mark the tags, then add coins. -/
def applySparkPayload (p : PoolContents) (tx : Transaction) (payload : SparkPayload)
    (tags : List Tag) (height : ℕ) : Option PoolContents := do
  let p ← tags.foldlM (fun p tag => p.markTagSpent height tag) p
  (bareCoins E tx payload.outputs height).foldlM PoolContents.addCoin p

/-- One transaction of `apply_spark_v2_txs`. -/
def applySparkTx (p : PoolContents) (height : ℕ) (tx : Transaction) : Option PoolContents :=
  match tx.sparkPayload with
  | none => some p
  | some payload => do
    let tags ← match payload.spend with
      | some sb => E.spendTags sb.bundle
      | none => some []
    let p ← applySparkPayload E p tx payload tags height
    let p ← match payload.mint with
      | some mint => do
        let (_, coins) ← E.verifyMintBundle mint
        (mintCoins E tx coins height).foldlM PoolContents.addCoin p
      | none => some p
    let p := match payload.spend with
      | some sb => addSpendOutputs E p height sb.bundle
      | none => p
    p.applyValueBalance payload.valueBalance

end Apply

namespace Phase2Store

variable (s : Phase2Store)

/-- `checkpoint_at_height`: not above the last is declined, the oldest goes when full. -/
def checkpointAtHeight (height : ℕ) : Phase2Store :=
  if s.label = .shielded ∧ s.checkpoints.head?.any (height ≤ ·) then s
  else { s with checkpoints := (height :: s.checkpoints).take maxCheckpoints }

/-- `rewind`: one checkpoint less, if there is one. -/
def rewind : Phase2Store := { s with checkpoints := s.checkpoints.tail }

/-- A restart begins with an empty stack. -/
def reopened : Phase2Store := { s with checkpoints := [] }

end Phase2Store

namespace SparkPool

variable (p : SparkPool)

/-- `check_lockstep`: all Phase-2 stacks have one depth. -/
def inLockstep : Bool := p.stores.all (·.checkpoints.length = p.checkpoints.length)

/-- `SecretService::guard`, run after every block. -/
def isSecure (tip : ℕ) : Bool :=
  p.maxCoinHeight ≤ tip ∧ p.maxSpentTagHeight ≤ tip ∧ p.checkpoints.length ≤ 1000 ∧
    0 ≤ p.poolValue

/-- `apply_spark_v2_txs`, up to the `security_sweep` at its end. -/
def applySparkV2Txs (E : Env) (txs : List Transaction) (height : ℕ) : Option SparkPool := do
  let contents ← txs.foldlM (fun q tx => applySparkTx E q height tx) p.toPoolContents
  let p := { p with toPoolContents := contents }
  if p.isSecure height ∧ p.inLockstep then some p else none

/-- `checkpoint_phase2_stores`; the oldest goes when full. -/
def checkpointAtHeight (height : ℕ) : SparkPool :=
  { p with
    checkpoints := (⟨height, p.coins.length, p.poolValue⟩ :: p.checkpoints).take maxCheckpoints
    stores := p.stores.map (·.checkpointAtHeight height)
    bounded := List.length_take_le _ _ }

/-- Restore a boundary and pop it; tags from its height on go. -/
def restore (cp : PoolCheckpoint) : SparkPool where
  coins := p.coins.take cp.coinsLen
  spentTags := p.spentTags.filter (·.2 < cp.height)
  poolValue := cp.poolValue
  checkpoints := p.checkpoints.tail
  stores := p.stores
  bounded := by
    have := p.bounded
    rw [List.length_tail]
    omega

/-- `rewind`; `none` is the `false` of an empty stack. -/
def rewind : Option SparkPool := p.checkpoints.head?.map p.restore

/-- `rewind_phase2_stores`: a refused rewind is only logged. -/
def rewindOrKeep : SparkPool := { p.rewind.getD p with stores := p.stores.map (·.rewind) }

/-- `clear`, which leaves the stores beside the pool alone. -/
def clearedBeside (stores : List Phase2Store) : SparkPool := { stores := stores }

/-- An empty pool on its own. -/
def cleared : SparkPool := clearedBeside []

/-- An empty pool beside the stores of the node binary. -/
def attached : SparkPool := clearedBeside [⟨.shielded, []⟩, ⟨.spark, []⟩, ⟨.kernel, []⟩]

/-- What a restart keeps (`open_with_db`): the contents. -/
def reopened : SparkPool :=
  { p with checkpoints := [], stores := p.stores.map (·.reopened), bounded := by decide }

end SparkPool

end CoinCync

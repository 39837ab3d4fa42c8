import CoinCync.AddBlock

/-!
# Rolling back to a height

`Blockchain::rollback_to_height`. Unlike the reorg path it looks into the cache and the database,
and it writes as it goes: an error in the middle of the loop returns with what was done so far.
-/

namespace CoinCync

variable (E : Env)

/-- Disconnecting the body found at height `h`. -/
def Node.rollbackBlock (n : Node) (h : ℕ) (body : Block) : Option Node := do
  let n ← n.disconnectState E h body
  some { n with
    db := n.db.removeTxIndex E body.transactions
    stats := { n.stats with
      totalDifficulty := n.stats.totalDifficulty - body.work
      totalBlocks := n.stats.totalBlocks - 1
      totalTransactions := n.stats.totalTransactions - body.transactions.length } }

/-- Highest height first; one without a hash is passed over, a missing body is an error. -/
def rollbackLoop : List ℕ → Node → List Transaction →
    Option (Node × Except ChainError (List Transaction))
  | [], n, orphaned => some (n, .ok orphaned)
  | h :: rest, n, orphaned =>
    match n.getBlockHash h with
    | none => rollbackLoop rest (n.unmapHeight h) orphaned
    | some k =>
      match n.getBlock k with
      | none => some (n, .error (.missingBody k h))
      | some body => do
        let n ← n.rollbackBlock E h body
        rollbackLoop rest (n.unmapHeight h) (orphaned ++ body.transactions)

/-- Moving the tip down to the target. -/
def Node.moveTipTo (n : Node) (target : ℕ) : Node :=
  match n.getBlockHash target with
  | some k =>
    let tip := match n.getBlock k with
      | some b => ⟨k, target, b.work, b.header.timestamp⟩
      | none => { n.tip with hash := k, height := target }
    { n with tip := tip, stats := { n.stats with height := target, tipHash := k } }
  | none =>
    if target = 0 then
      match n.genesisHash with
      | some g =>
        { n with
          tip := { n.tip with hash := g, height := 0 }
          stats := { n.stats with height := 0, tipHash := g } }
      | none => n
    -- nothing found: the tip is left where it was
    else n

/-- The database part after the loop. -/
def Node.persistRollback (n : Node) (target : ℕ) (orphaned : List Transaction) : Node :=
  let lastCheckpoint := n.db.lastCheckpoint
  let db := (n.db.removeHeightsAbove target).removeTxIndex E orphaned
  { n with db := { db with
      state := some {
        tipHash := n.stats.tipHash
        height := n.stats.height
        totalDifficulty := n.stats.totalDifficulty
        totalSupply := n.stats.totalSupply
        totalBurned := n.stats.totalBurned % 2 ^ 64
        lastCheckpoint := lastCheckpoint } } }

/-- `rollback_to_height`, with the non-coinbase transactions. -/
def rollbackToHeight (n : Node) (target : ℕ) :
    Option (Node × Except ChainError (List Transaction)) :=
  if n.tip.height ≤ target then some (n, .ok [])
  else if target < n.db.lastCheckpoint then
    some (n, .error (.pastCheckpoint n.db.lastCheckpoint))
  else do
    let (n, result) ← rollbackLoop E (heightsAbove target n.tip.height) n []
    match result with
    | .error e => some (n, .error e)
    | .ok orphaned =>
      some ((n.moveTipTo target).persistRollback E target orphaned,
        .ok (orphaned.filter (!·.isCoinbase)))

end CoinCync

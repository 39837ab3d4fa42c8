import CoinCync.Block
import Mathlib.Data.Finset.Basic

/-!
# The UTXO set

`storage/utxos.rs`. A ring-signature chain never removes an output when it is spent: a spend marks
a key image, and outputs leave the set only when the block that made them is disconnected, by a
batch of the same keys in the same order. The removals do not look at who made an entry, so they
also take an entry the block merely overwrote.

`UtxoCore` holds the tables the chain is judged by; `UtxoSet` adds the bounded in-memory
`output_index`, the counters, and `db`, the persistent `output_index` table whose handle the set
owns.
-/

namespace CoinCync

/-- Transaction hash and output index, a `u8` in the source. -/
abbrev OutputKey := Hash × ℕ

/-- An output of the set. -/
structure OutputRef where
  txHash : Hash
  index : ℕ
  output : TxOutput
  height : ℕ
  isCoinbase : Bool
deriving DecidableEq

/-- What a ring member is checked against. -/
structure LocatorOutput where
  publicKey : PublicKey
  commitment : Commitment
  height : ℕ
  isCoinbase : Bool
  lockHeight : Option ℕ
deriving DecidableEq

/-- A row of the permanent output index. -/
structure OutputIndexEntry where
  commitment : Commitment
  height : ℕ
  isCoinbase : Bool
  lockHeight : Option ℕ
deriving DecidableEq

/-- `OutputIndexEntry::validate`: not unlocked before it is made. -/
def OutputIndexEntry.validate (e : OutputIndexEntry) : Bool := e.lockHeight.all (e.height ≤ ·)

/-- The tables of the UTXO set. -/
@[ext] structure UtxoCore where
  outputs : OutputKey → Option OutputRef
  keyImages : Finset KeyImage
  heightIndex : ℕ → Finset OutputKey
  locatorIndex : ℕ → Finset OutputKey
  locatorOutputs : OutputKey → Option LocatorOutput
  stealthIndex : PublicKey → Option OutputKey

/-- Tables, both sides of the output index, counters. -/
structure UtxoSet extends UtxoCore where
  outputIndex : PublicKey → Option OutputIndexEntry
  db : PublicKey → Option OutputIndexEntry
  totalOutputsEver : ℕ
  reorgDisconnectsTotal : ℕ

/-- One output to add: the arguments of `add_output_ext`. -/
structure NewOutput where
  txHash : Hash
  index : ℕ
  output : TxOutput
  height : ℕ
  isCoinbase : Bool
deriving DecidableEq

namespace NewOutput

variable (a : NewOutput)

/-- The key it is filed under. -/
def key : OutputKey := (a.txHash, a.index)

/-- Its stealth address. -/
def address : PublicKey := a.output.stealthAddress

/-- The output as the set keeps it. -/
def ref : OutputRef := ⟨a.txHash, a.index, a.output, a.height, a.isCoinbase⟩

/-- Its ring-member record. -/
def locator : LocatorOutput :=
  ⟨a.output.stealthAddress, a.output.commitment, a.height, a.isCoinbase, a.output.lockHeight⟩

/-- Its row of the output index. -/
def entry : OutputIndexEntry :=
  ⟨a.output.commitment, a.height, a.isCoinbase, a.output.lockHeight⟩

end NewOutput

/-- `UtxoBatch`. -/
structure UtxoBatch where
  adds : List NewOutput := []
  keyImages : List KeyImage := []
  removes : List OutputKey := []
  keyImageRemovals : List KeyImage := []

/-! ## Operations on the tables -/

namespace UtxoCore

/-- No output, no spent image. -/
def empty : UtxoCore where
  outputs := fun _ => none
  keyImages := ∅
  heightIndex := fun _ => ∅
  locatorIndex := fun _ => ∅
  locatorOutputs := fun _ => none
  stealthIndex := fun _ => none

/-- `add_output_ext`: an older output keeps its address. -/
def addOutput (u : UtxoCore) (a : NewOutput) : UtxoCore where
  outputs := Function.update u.outputs a.key (some a.ref)
  keyImages := u.keyImages
  heightIndex := Function.update u.heightIndex a.height (insert a.key (u.heightIndex a.height))
  locatorIndex := Function.update u.locatorIndex a.height (insert a.key (u.locatorIndex a.height))
  locatorOutputs := Function.update u.locatorOutputs a.key (some a.locator)
  stealthIndex := Function.update u.stealthIndex a.address
    (some ((u.stealthIndex a.address).getD a.key))

/-- The address `remove_output` looks at: the output's, or its locator's. -/
def addressOf (u : UtxoCore) (k : OutputKey) : Option PublicKey :=
  match u.outputs k with
  | some r => some r.output.stealthAddress
  | none => (u.locatorOutputs k).map (·.publicKey)

/-- Only its owner drops the index row of an address. -/
def owns (u : UtxoCore) (k : OutputKey) (x : PublicKey) : Bool :=
  u.addressOf k = some x ∧ u.stealthIndex x = some k

/-- `remove_output`. -/
def removeOutput (u : UtxoCore) (k : OutputKey) : UtxoCore where
  outputs := Function.update u.outputs k none
  keyImages := u.keyImages
  heightIndex := match u.outputs k with
    | some r => Function.update u.heightIndex r.height ((u.heightIndex r.height).erase k)
    | none => u.heightIndex
  locatorIndex := match u.locatorOutputs k with
    | some l => Function.update u.locatorIndex l.height ((u.locatorIndex l.height).erase k)
    | none => u.locatorIndex
  locatorOutputs := Function.update u.locatorOutputs k none
  stealthIndex := fun x => if u.owns k x then none else u.stealthIndex x

/-- `mark_key_image_spent`. -/
def markKeyImageSpent (u : UtxoCore) (ki : KeyImage) : UtxoCore :=
  { u with keyImages := insert ki u.keyImages }

/-- `remove_key_image`. -/
def removeKeyImage (u : UtxoCore) (ki : KeyImage) : UtxoCore :=
  { u with keyImages := u.keyImages.erase ki }

/-- `apply_batch`, in the source's order. -/
def applyBatch (u : UtxoCore) (b : UtxoBatch) : UtxoCore :=
  let u := b.adds.foldl addOutput u
  let u := b.keyImages.foldl markKeyImageSpent u
  let u := b.removes.foldl removeOutput u
  b.keyImageRemovals.foldl removeKeyImage u

end UtxoCore

namespace UtxoSet

/-- A new set over an empty database. -/
def empty : UtxoSet where
  toUtxoCore := UtxoCore.empty
  outputIndex := fun _ => none
  db := fun _ => none
  totalOutputsEver := 0
  reorgDisconnectsTotal := 0

/-- `add_output_ext`. -/
def addOutputExt (u : UtxoSet) (a : NewOutput) : UtxoSet where
  toUtxoCore := u.toUtxoCore.addOutput a
  outputIndex := Function.update u.outputIndex a.address
    (some ((u.outputIndex a.address).getD a.entry))
  db := u.db
  totalOutputsEver := u.totalOutputsEver + 1
  reorgDisconnectsTotal := u.reorgDisconnectsTotal

/-- `remove_output`, on the index too. -/
def removeOutput (u : UtxoSet) (k : OutputKey) : UtxoSet where
  toUtxoCore := u.toUtxoCore.removeOutput k
  outputIndex := fun x => if u.owns k x then none else u.outputIndex x
  -- the persistent row goes at once, outside any database transaction
  db := fun x => if u.owns k x then none else u.db x
  totalOutputsEver := u.totalOutputsEver
  reorgDisconnectsTotal :=
    if (u.addressOf k).isSome then MachineInt.satAdd 64 u.reorgDisconnectsTotal 1
    else u.reorgDisconnectsTotal

/-- `mark_key_image_spent`. -/
def markKeyImageSpent (u : UtxoSet) (ki : KeyImage) : UtxoSet :=
  { u with toUtxoCore := u.toUtxoCore.markKeyImageSpent ki }

/-- `remove_key_image`. -/
def removeKeyImage (u : UtxoSet) (ki : KeyImage) : UtxoSet :=
  { u with toUtxoCore := u.toUtxoCore.removeKeyImage ki }

/-- `apply_batch`. -/
def applyBatch (u : UtxoSet) (b : UtxoBatch) : UtxoSet :=
  let u := b.adds.foldl addOutputExt u
  let u := b.keyImages.foldl markKeyImageSpent u
  let u := b.removes.foldl removeOutput u
  b.keyImageRemovals.foldl removeKeyImage u

/-- `evict_old_outputs`, of the memory only. -/
def evictOldOutputs (u : UtxoSet) (currentHeight keepDepth : ℕ) : UtxoSet :=
  if currentHeight ≤ keepDepth then u
  else { u with outputIndex := fun x =>
    (u.outputIndex x).filter (currentHeight - keepDepth ≤ ·.height) }

end UtxoSet

/-! ## The batches of a block -/

section Batches

variable (E : Env)

/-- A transaction's outputs in `batch_from_block` (`idx as u8`). -/
def newOutputs (height : ℕ) (tx : Transaction) : List NewOutput :=
  tx.outputs.mapIdx fun i o => ⟨E.txHash tx, i % 256, o, height, tx.isCoinbase⟩

/-- The key images a transaction spends; a coinbase spends none. -/
def spentKeyImages (tx : Transaction) : List KeyImage :=
  if tx.isCoinbase then [] else tx.inputs.map (·.keyImage)

/-- `batch_from_block`. -/
def batchFromBlock (height : ℕ) (txs : List Transaction) : UtxoBatch where
  adds := txs.flatMap (newOutputs E height)
  keyImages := txs.flatMap spentKeyImages

/-- The keys `batch_disconnect_block` removes. -/
def removedKeys (tx : Transaction) : List OutputKey :=
  (List.range tx.outputs.length).map fun i => (E.txHash tx, i % 256)

/-- `batch_disconnect_block`. -/
def batchDisconnectBlock (txs : List Transaction) : UtxoBatch where
  removes := txs.flatMap (removedKeys E)
  keyImageRemovals := txs.flatMap spentKeyImages

/-- The block's batch on the tables. -/
def UtxoCore.connectBlock (u : UtxoCore) (height : ℕ) (txs : List Transaction) : UtxoCore :=
  u.applyBatch (batchFromBlock E height txs)

/-- The batch of its disconnection on the tables. -/
def UtxoCore.disconnectBlock (u : UtxoCore) (txs : List Transaction) : UtxoCore :=
  u.applyBatch (batchDisconnectBlock E txs)

/-- The block's batch on the set. -/
def UtxoSet.connectBlock (u : UtxoSet) (height : ℕ) (txs : List Transaction) : UtxoSet :=
  u.applyBatch (batchFromBlock E height txs)

/-- The batch of its disconnection on the set. -/
def UtxoSet.disconnectBlock (u : UtxoSet) (txs : List Transaction) : UtxoSet :=
  u.applyBatch (batchDisconnectBlock E txs)

end Batches

end CoinCync

import CoinCync.Emission

/-!
# Transactions, blocks and the fee burn

The data the node moves, and the two functions of a block every ledger total is built from,
`block_fee_burn` and the work of its target. Bytes that only a hash or libspark reads stay opaque
numbers; what those libraries compute from them is a field of `Env`, so every result holds for all
of them.
-/

namespace CoinCync

/-- A 32-byte digest as a big-endian number: `<` is the order of bytes. -/
abbrev Hash := ℕ

/-- The key image of a spent output. -/
abbrev KeyImage := ℕ

/-- A one-time (stealth) address. -/
abbrev PublicKey := ℕ

/-- A libspark linking tag. -/
abbrev Tag := ℕ

/-- Opaque bytes handed to libspark. -/
abbrev Bytes := ℕ

/-- `NetworkType`. -/
inductive NetworkType
  | mainnet
  | testnet
  | regtest
  | beta
deriving DecidableEq

/-- Height from which fees are split between miner and burn. -/
def NetworkType.feeDistributionHeight : NetworkType → ℕ
  | .mainnet => 0
  | .testnet | .regtest | .beta => 525

/-! ## Transactions -/

/-- The kinds of transactions. -/
inductive TxType
  | coinbase
  | transfer
  | churn
  | shielded
deriving DecidableEq

/-- A Pedersen commitment by its opening. -/
structure Commitment where
  value : ℤ
  blinding : ℤ
deriving DecidableEq

namespace Commitment

instance : Zero Commitment := ⟨⟨0, 0⟩⟩

instance : Add Commitment := ⟨fun a b => ⟨a.value + b.value, a.blinding + b.blinding⟩⟩

instance : Sub Commitment := ⟨fun a b => ⟨a.value - b.value, a.blinding - b.blinding⟩⟩

/-- `PedersenCommitment::commit(value, &BlindingFactor::zero())`. -/
def commit (value : ℕ) : Commitment := ⟨value, 0⟩

@[simp] lemma value_add (a b : Commitment) : (a + b).value = a.value + b.value := rfl

@[simp] lemma value_sub (a b : Commitment) : (a - b).value = a.value - b.value := rfl

@[simp] lemma value_commit (v : ℕ) : (commit v).value = v := rfl

/-- The value is additive. -/
@[simp] lemma value_sum (l : List Commitment) : l.sum.value = (l.map value).sum := by
  induction l with
  | nil => rfl
  | cons a l ih => rw [List.sum_cons, value_add, ih, List.map_cons, List.sum_cons]

end Commitment

/-- A ring member as the transaction names it. -/
structure RingMemberRef where
  publicKey : PublicKey
  commitment : Commitment
deriving DecidableEq

/-- A CLSAG signature: its key image and its other bytes. -/
structure ClsagSignature where
  keyImage : KeyImage
  bytes : Bytes := 0
deriving DecidableEq

/-- A ring-signature input. -/
structure TxInput where
  keyImage : KeyImage
  ringMembers : List RingMemberRef := []
  signature : ClsagSignature := ⟨keyImage, 0⟩
  pseudoOutputCommitment : Commitment := ⟨0, 0⟩
deriving DecidableEq

/-- A stealth output. -/
structure TxOutput where
  stealthAddress : PublicKey
  txPublicKey : PublicKey := 1
  commitment : Commitment := ⟨0, 0⟩
  /-- The bytes of the amount field; eight little-endian bytes where the amount is public. -/
  encryptedAmount : List ℕ := []
  lockHeight : Option ℕ := none
  encryptedMemo : List ℕ := []
deriving DecidableEq

/-- A shielded spend: its anchor and the libspark bundle. -/
structure SpendBundle where
  coverSetId : ℕ
  anchorHeight : ℕ
  bundle : Bytes
deriving DecidableEq

/-- The version 2 (libspark) payload of a shielded transaction. -/
structure SparkPayload where
  mint : Option Bytes := none
  outputs : List Bytes := []
  spend : Option SpendBundle := none
  valueBalance : ℤ
deriving DecidableEq

/-- The version 1 (native) payload, as far as block checks read it. -/
structure ShieldedPayload where
  valueBalance : ℤ
  balanceProof : Bytes
deriving DecidableEq

/-- `Transaction::extra` by what it decodes to. -/
inductive Extra
  | bytes (b : Bytes)
  | shieldedV1 (p : ShieldedPayload)
  | sparkV2 (p : SparkPayload)
deriving DecidableEq

/-- A transaction, with its transparent and its shielded side. -/
structure Transaction where
  version : ℕ := 1
  txType : TxType
  inputs : List TxInput := []
  outputs : List TxOutput := []
  fee : ℕ := 0
  rangeProof : Bytes := 0
  extra : Extra := .bytes 0
deriving DecidableEq

namespace Transaction

/-- Whether the transaction is a coinbase. -/
def isCoinbase (tx : Transaction) : Bool := tx.txType = .coinbase

/-- Whether it carries a shielded payload. -/
def isShielded (tx : Transaction) : Bool := tx.txType = .shielded

/-- `SparkPayload::decode(&tx.extra)` of a shielded transaction. -/
def sparkPayload (tx : Transaction) : Option SparkPayload :=
  if tx.isShielded then
    match tx.extra with
    | .sparkV2 p => some p
    | _ => none
  else none

end Transaction

/-! ## Blocks -/

/-- The fields of a header that a modelled check reads. -/
structure BlockHeader where
  height : ℕ
  timestamp : ℕ := 0
  prevHash : Hash
  txRoot : Hash := 0
  nonce : ℕ := 0
  target : Hash
  supplyCommitment : Bytes := 0
deriving DecidableEq

/-- A header and its transactions. -/
structure Block where
  header : BlockHeader
  transactions : List Transaction
deriving DecidableEq

namespace Block

/-- The height in the header. -/
def height (b : Block) : ℕ := b.header.height

/-- The hash of the parent. -/
def prevHash (b : Block) : Hash := b.header.prevHash

/-- The first transaction. -/
def coinbase (b : Block) : Option Transaction := b.transactions.head?

end Block

/-- A node's network and the third-party functions it calls. -/
structure Env where
  network : NetworkType
  headerHash : BlockHeader → Hash
  txHash : Transaction → Hash
  txSize : Transaction → ℕ
  /-- `spark_connector::ffi::spend_tags`. -/
  spendTags : Bytes → Option (List Tag)
  /-- `spark_connector::ffi::verify_mint_bundle`: the authenticated total and the coins. -/
  verifyMintBundle : Bytes → Option (ℕ × List Bytes)
  /-- `spark_connector::ffi::spend_outputs`: the coins a spend creates, with their context. -/
  spendOutputs : Bytes → Option (List Bytes × Bytes)
  /-- `spark_connector::ffi::spend_vout`. -/
  spendVout : Bytes → Option ℕ
  /-- `spark_connector::ffi::spend_fee`. -/
  spendFee : Bytes → Option ℕ
  /-- `derive_outpoint` over a transaction's key images. -/
  deriveOutpoint : List KeyImage → ℕ → Hash
  /-- `spark_connector::ffi::serial_context`. -/
  serialContext : Hash → Bytes
  /-- The blake3 id of a coin created by a spend. -/
  coinId : Bytes → Hash

namespace Env

variable (E : Env)

/-- `Block::hash`. -/
def blockHash (b : Block) : Hash := E.headerHash b.header

/-- `block_size_from_txs`: header estimate and encoded transactions. -/
def blockSize (b : Block) : ℕ :=
  b.transactions.foldl (fun acc tx => MachineInt.satAdd 64 acc (E.txSize tx)) 200

end Env

/-! ## The fee split and the burn of a block -/

/-- `MAX_BLOCK_SIZE`. -/
def maxBlockSize : ℕ := 2 * 1024 * 1024

/-- Percentage of `maxBlockSize` at which a block is congested. -/
def congestionThreshold : ℕ := 80

/-- Percentage of the fees that goes to the miner. -/
def feeMinerPercent (congested : Bool) : ℕ := if congested then 50 else 70

/-- A fee split between miner and burn. -/
structure FeeDistribution where
  toMiner : ℕ
  burned : ℕ
deriving DecidableEq

/-- `distribute_fee`. -/
def distributeFee (total : ℕ) (congested : Bool) : FeeDistribution :=
  let toMiner := min (total * feeMinerPercent congested / 100) total
  { toMiner := toMiner, burned := total - toMiner }

/-- The split loses nothing to rounding. -/
lemma distributeFee_sum (total : ℕ) (congested : Bool) :
    (distributeFee total congested).toMiner + (distributeFee total congested).burned = total := by
  simp only [distributeFee]
  omega

/-- Congestion, as validator and burn accounting compute it. -/
def Env.congested (E : Env) (b : Block) : Bool :=
  E.blockSize b * 100 / maxBlockSize ≥ congestionThreshold

/-- `block_fee_burn`: what connecting the block adds to `total_burned`. -/
def blockFeeBurn (E : Env) (b : Block) : ℕ :=
  let totalFees := MachineInt.satSum 64 ((b.transactions.filter (!·.isCoinbase)).map (·.fee))
  if b.height < E.network.feeDistributionHeight ∨ totalFees = 0 then 0
  else (distributeFee totalFees (E.congested b)).burned

/-! ## The work of a target -/

/-- The top 128 bits of a 256-bit target. -/
def top128 (target : Hash) : ℕ := target / 2 ^ 128 % 2 ^ 128

/-- `calculate_difficulty_from_target`. -/
def calculateDifficultyFromTarget (target : Hash) : ℕ :=
  if top128 target = 0 then 2 ^ 128 - 1 else (2 ^ 128 - 1) / top128 target

/-- The work of a target is a `u128`. -/
lemma calculateDifficultyFromTarget_le (target : Hash) :
    calculateDifficultyFromTarget target ≤ 2 ^ 128 - 1 := by
  unfold calculateDifficultyFromTarget
  split
  · exact le_refl _
  · exact Nat.div_le_self _ _

/-- The work of a block. -/
def Block.work (b : Block) : ℕ := calculateDifficultyFromTarget b.header.target

/-- Every block carries at least one unit of work. -/
lemma Block.work_pos (b : Block) : 0 < b.work := by
  unfold work calculateDifficultyFromTarget
  split
  · decide
  · have hlt : top128 b.header.target < 2 ^ 128 := Nat.mod_lt _ (by decide)
    have hpos : 0 < top128 b.header.target := Nat.pos_of_ne_zero ‹_›
    exact Nat.div_pos (by omega) hpos

end CoinCync

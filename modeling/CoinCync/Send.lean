import CoinCync.TxBuilder

/-!
# Preparing and assembling a send

`preparePrivacyTransaction` selects outputs of the balance and settles the fee in a loop that selects
again while the fee outgrows the selection; `buildPreparedPrivacyTransaction` adds rings, payments,
change or dummies and the fee to a builder. The addition of amounts is a parameter of `prepareWith`:
the program saturates at 64 bits, and the addition of naturals says what it would have done without a
bound. Random choices are arguments, one `SelectionDraw` for each round of the loop.
-/

namespace CoinCync.Wallet

open MachineInt (satAdd satMul)

/-! ## Requests -/

/-- A payment. -/
structure Payment where
  spendPublic : PublicKey
  viewPublic : PublicKey
  amount : ℕ
  isSubaddress : Bool
deriving DecidableEq

/-- `has_same_destination`. -/
def Payment.hasSameDestination (p q : Payment) : Bool :=
  p.spendPublic = q.spendPublic && p.viewPublic = q.viewPublic

/-- Uniform from genesis on. -/
def uniformTxShapeHeight : ℕ := 0

/-- The fork is at height 0, on the test network at the largest. -/
def minOutputAgeAtHeight (hardforkHeight height : ℕ) : ℕ := if height < hardforkHeight then 10 else 100

/-- `ring_size_at_height`. -/
def ringSizeAtHeight (height : ℕ) : ℕ := if height < 10000 then 11 else 16

/-- `SpendContext`. -/
structure SpendContext where
  targetHeight : ℕ
  ringSize : ℕ
  minOutputAge : ℕ
deriving DecidableEq

/-- `for_target_height`. -/
def SpendContext.forTargetHeight (hardforkHeight targetHeight : ℕ) : SpendContext :=
  ⟨targetHeight, ringSizeAtHeight targetHeight, minOutputAgeAtHeight hardforkHeight targetHeight⟩

/-- `SendRequest`. -/
structure SendRequest where
  payments : List Payment
  context : SpendContext
  /-- In hundredths, as `FeeMultiplier::from_f64` clamps it. -/
  feeMultiplier : ℕ
  memo : Option (List UInt8)
  extra : List UInt8
  paymentId : Option (List UInt8)
deriving DecidableEq

/-- Why a send fails. -/
inductive SendError
  | walletLocked
  | missingEpoch (epoch : ℕ)
  | invalidShape
  | noOutputsAvailable
  | insufficientBalance (available need : ℕ)
  | insufficientInputs (available need : ℕ)
  | noUtxoPairCovers (target utxoCount total largestPair maxSafe : ℕ)
  | balancePendingMaturity (spendable pending pendingUtxos need blocksToWait secondsToWait : ℕ)
  | ringCountMismatch (expected got : ℕ)
  | ringSizeMismatch (expected got : ℕ)
  | ringInputMismatch
  /-- A drip pair would burn more than it sends. -/
  | dripPairBurn (change totalSend : ℕ)
  | wallet (e : WalletError)
  | build (e : BuildError)
deriving DecidableEq

/-- `with_ring_size`. -/
def SpendContext.withRingSize (hardforkHeight targetHeight ringSize : ℕ) :
    Except SendError SpendContext := do
  Check.require (2 ≤ ringSize) (.build (.invalidRingSize 2 ringSize))
  return ⟨targetHeight, ringSize, minOutputAgeAtHeight hardforkHeight targetHeight⟩

/-- `TransferShape`. -/
inductive TransferShape
  | legacy
  | uniformStandard
  | uniformDripPair
deriving DecidableEq

/-- Inputs of a uniform transfer. -/
def standardInputCount : ℕ := 2

/-- Outputs of a uniform transfer. -/
def standardOutputCount : ℕ := 2

/-- Outputs of a legacy transfer. -/
def legacyOutputPadding : ℕ := 3

namespace TransferShape

/-- `classify`. -/
def classify (payments : List Payment) (targetHeight : ℕ) : Except SendError TransferShape :=
  if targetHeight < uniformTxShapeHeight then .ok .legacy
  else match payments with
    | [p, q] => if p.hasSameDestination q then .ok .uniformDripPair else .error .invalidShape
    | [] | [_] => .ok .uniformStandard
    | _ => .error .invalidShape

/-- `is_uniform`. -/
def isUniform : TransferShape → Bool
  | legacy => false
  | uniformStandard | uniformDripPair => true

/-- The outputs that the fee is estimated for. -/
def outputCount (shape : TransferShape) (payments : List Payment) : ℕ :=
  if shape.isUniform then standardOutputCount else payments.length + legacyOutputPadding

/-- The inputs of the first estimate. -/
def inputCountEstimate (shape : TransferShape) : ℕ :=
  if shape.isUniform then standardInputCount else 1

end TransferShape

/-! ## Fees -/

/-- In bytes, twice the estimate; sizes are machine words. -/
def estimateTxSize (inputCount outputCount ringSize : ℕ) : ℕ :=
  let inputSize := 32 + 4 + 64 * ringSize + 32 + 32 + 32 + 4 + 32 * ringSize + 32 + 32
  let outputSize := 32 + 32 + 32 + 12 + 1 + 9
  let rangeProof := 672 + 64 * outputCount
  (32 + inputCount * inputSize + outputCount * outputSize + rangeProof) * 2 % 2 ^ 64

/-- `MIN_FEE_PER_BYTE`. -/
def minFeePerByte : ℕ := 1000

/-- The fee of a size. -/
def scaledFee (inputCount outputCount ringSize multiplier : ℕ) : ℕ :=
  satMul 64 (satMul 64 (estimateTxSize inputCount outputCount ringSize) minFeePerByte) multiplier / 100

/-! ## Selection -/

/-- The random choices of one selection. -/
structure SelectionDraw where
  shuffle : List Utxo → List Utxo
  shuffle_perm : ∀ l, (shuffle l).Perm l
  choice : ℕ

/-- `CoinSelection`. -/
inductive CoinSelection
  | oldestFirst
  | newestFirst
  | largestFirst
  | smallestFirst
  | random
deriving DecidableEq

/-- The stable sort of a strategy. -/
def CoinSelection.sort : CoinSelection → List Utxo → List Utxo
  | oldestFirst, l => l.insertionSort fun a b => a.height ≤ b.height
  | newestFirst, l => l.insertionSort fun a b => b.height ≤ a.height
  | largestFirst, l => l.insertionSort fun a b => b.amount ≤ a.amount
  | smallestFirst, l => l.insertionSort fun a b => a.amount ≤ b.amount
  | random, l => l

section Selection

variable (add : ℕ → ℕ → ℕ)

/-- The sum of an iterator under the addition. -/
def sumWith (l : List ℕ) : ℕ := l.foldl add 0

/-- The loop of `select_utxos`. -/
def accumulate (target : ℕ) (selected : List Utxo) (sum : ℕ) :
    List Utxo → Except SendError (List Utxo)
  | [] => .error (.insufficientBalance sum target)
  | u :: rest =>
    if target ≤ add sum u.amount then .ok (selected ++ [u])
    else accumulate target (selected ++ [u]) (add sum u.amount) rest

/-- `select_utxos`. -/
def selectUtxos (utxos : List Utxo) (target : ℕ) (strategy : CoinSelection) (draw : SelectionDraw) :
    Except SendError (List Utxo) :=
  if utxos.isEmpty then .error .noOutputsAvailable
  else accumulate add target [] 0 (strategy.sort (draw.shuffle utxos))

/-- The pairs of a list, in the order of the two loops. -/
def pairs {α : Type} : List α → List (α × α)
  | [] => []
  | a :: l => l.map (fun b => (a, b)) ++ pairs l

/-- A pair and its excess. -/
structure Candidate where
  left : Utxo
  right : Utxo
  excess : ℕ
deriving DecidableEq

/-- The pairs that reach the target. -/
def candidates (sorted : List Utxo) (target : ℕ) : List Candidate :=
  (pairs sorted).filterMap fun pair =>
    let sum := add pair.1.amount pair.2.amount
    if target ≤ sum then some ⟨pair.1, pair.2, sum - target⟩ else none

/-- The least excess. -/
def bestExcess (found : List Candidate) : ℕ :=
  (found.map (·.excess)).foldl min (2 ^ 64 - 1)

/-- A fifth, or one, above it. -/
def excessThreshold (best : ℕ) : ℕ := max (add best (best / 5)) (add best 1)

/-- The pairs within it. -/
def goodCandidates (found : List Candidate) : List Candidate :=
  found.filter fun c => c.excess ≤ excessThreshold add (bestExcess found)

/-- The reserve for the fee in the hint of an error. -/
def uniformPairFeeReserve : ℕ := 50000000

/-- The error with its hint. -/
def noPairCoversError (utxos : List Utxo) (target largestPair : ℕ) : SendError :=
  .noUtxoPairCovers target utxos.length ((utxos.map (·.amount)).sum % 2 ^ 64) largestPair
    (largestPair - uniformPairFeeReserve)

/-- `select_utxos_uniform`. -/
def selectUtxosUniform (utxos : List Utxo) (target : ℕ) (draw : SelectionDraw) :
    Except SendError (List Utxo) :=
  match CoinSelection.largestFirst.sort utxos with
  | first :: second :: rest =>
    let largestPair := add first.amount second.amount
    if largestPair < target then .error (noPairCoversError utxos target largestPair)
    else
      let found := candidates add (first :: second :: rest) target
      let good := goodCandidates add found
      match good[draw.choice % good.length]?.or found.head? with
      | some c => .ok [c.left, c.right]
      | none => .error (noPairCoversError utxos target largestPair)
  | _ => .error (.insufficientInputs utxos.length standardInputCount)

/-- `ensure_spendable`. -/
def ensureSpendable (balance : Balance) (currentHeight minAge need : ℕ) : Except SendError Unit :=
  let available := sumWith add ((balance.availableUtxos currentHeight minAge).map (·.amount))
  if need ≤ available then .ok ()
  else if need ≤ sumWith add (balance.unspentUtxos.map (·.amount)) then
    let pending := balance.unspentUtxos.filter fun u => currentHeight < satAdd 64 u.height minAge
    let latest := (pending.map (·.height)).max?.getD currentHeight
    let blocksToWait := satAdd 64 latest minAge - currentHeight
    .error (.balancePendingMaturity available ((pending.map (·.amount)).sum % 2 ^ 64) pending.length need
      blocksToWait (satMul 64 blocksToWait 120))
  else .error (.insufficientBalance available need)

/-! ## Preparation -/

/-- A selection with the fee for its size. -/
structure Selection where
  selected : List Utxo
  estimatedFee : ℕ
  totalNeeded : ℕ
  inputSum : ℕ
deriving DecidableEq

/-- The sum of the payments. -/
def totalSend (request : SendRequest) : ℕ := sumWith add (request.payments.map (·.amount))

/-- The selection of a shape. -/
def selectFor (shape : TransferShape) (utxos : List Utxo) (required : ℕ) (draw : SelectionDraw) :
    Except SendError (List Utxo) :=
  if shape.isUniform then selectUtxosUniform add utxos required draw
  else selectUtxos add utxos required .oldestFirst draw

/-- The body of the loop. -/
def reselect (balance : Balance) (request : SendRequest) (shape : TransferShape) (draw : SelectionDraw)
    (required : ℕ) : Except SendError Selection := do
  let context := request.context
  let utxos := balance.availableUtxos context.targetHeight context.minOutputAge
  ensureSpendable add balance context.targetHeight context.minOutputAge required
  let selected ← selectFor add shape utxos required draw
  let estimatedFee := scaledFee selected.length (shape.outputCount request.payments) context.ringSize
    request.feeMultiplier
  return ⟨selected, estimatedFee, add (totalSend add request) estimatedFee,
    sumWith add (selected.map (·.amount))⟩

/-- The loop, for at most as many rounds as there is fuel. -/
def selectLoop (balance : Balance) (request : SendRequest) (shape : TransferShape)
    (draws : ℕ → SelectionDraw) : ℕ → ℕ → ℕ → Option (Except SendError Selection)
  | 0, _, _ => none
  | fuel + 1, round, required =>
    match reselect add balance request shape (draws round) required with
    | .error e => some (.error e)
    | .ok s =>
      if s.totalNeeded ≤ s.inputSum then some (.ok s)
      else selectLoop balance request shape draws fuel (round + 1) s.totalNeeded

/-- The first sum that the selection has to reach. -/
def initialRequired (request : SendRequest) (shape : TransferShape) : ℕ :=
  add (totalSend add request) (scaledFee shape.inputCountEstimate (shape.outputCount request.payments)
    request.context.ringSize request.feeMultiplier)

end Selection

section Send

variable {F G : Type} [CommRing F] [AddCommGroup G] [Module F G] (C : Curve F G)

/-- The keys of a wallet, or of one epoch. -/
inductive SpendKeys
  | single (keys : KeyEpoch C)
  | perEpoch (epochs : List (KeyEpoch C))

variable {C}

/-- The keys for the change. -/
def SpendKeys.changeKeys : SpendKeys C → Except SendError (KeyEpoch C)
  | single keys => .ok keys
  | perEpoch epochs => Check.fromSome epochs.getLast? .walletLocked

/-- The keys of the epoch in which an output was received. -/
def SpendKeys.inputKeys : SpendKeys C → Utxo → Except SendError (KeyEpoch C)
  | single keys, _ => .ok keys
  | perEpoch epochs, u => Check.fromSome (epochs.find? (·.epoch = u.keyEpoch)) (.missingEpoch u.keyEpoch)

/-- `PreparedPrivacyTransaction`. -/
structure PreparedPrivacyTransaction (F : Type) where
  inputs : List (PreparedInput F)
  payments : List Payment
  changeAmount : ℕ
  estimatedFee : ℕ
  context : SpendContext
  shape : TransferShape
  spendPublic : PublicKey
  viewPublic : PublicKey
  memo : Option (List UInt8)
  extra : List UInt8
  paymentId : Option (List UInt8)

/-- The input of a selected output. -/
def prepareSelected (keys : SpendKeys C) (u : Utxo) : Except SendError (PreparedInput F) := do
  let epoch ← keys.inputKeys u
  (prepareInput C u epoch).mapError .wallet

/-- What precedes the loop. -/
def startSend (add : ℕ → ℕ → ℕ) (balance : Balance) (request : SendRequest)
    (keys : SpendKeys C) : Except SendError (KeyEpoch C × TransferShape) := do
  let change ← keys.changeKeys
  let shape ← TransferShape.classify request.payments request.context.targetHeight
  ensureSpendable add balance request.context.targetHeight request.context.minOutputAge
    (initialRequired add request shape)
  return (change, shape)

/-- What follows the loop. -/
def finishSend (request : SendRequest) (keys : SpendKeys C) (change : KeyEpoch C) (shape : TransferShape)
    (s : Selection) : Except SendError (PreparedPrivacyTransaction F) := do
  let inputs ← s.selected.mapM (prepareSelected keys)
  return {
    inputs
    payments := request.payments
    changeAmount := s.inputSum - s.totalNeeded
    estimatedFee := s.estimatedFee
    context := request.context
    shape
    spendPublic := change.spendPublic
    viewPublic := change.viewPublic
    memo := request.memo
    extra := request.extra
    paymentId := request.paymentId }

/-- `prepare_privacy_transaction` over an addition of amounts. -/
def prepareWith (add : ℕ → ℕ → ℕ) (balance : Balance) (request : SendRequest)
    (keys : SpendKeys C) (draws : ℕ → SelectionDraw) :
    Option (Except SendError (PreparedPrivacyTransaction F)) :=
  match startSend add balance request keys with
  | .error e => some (.error e)
  | .ok (change, shape) =>
    (selectLoop add balance request shape draws (2 ^ 64) 0 (initialRequired add request shape)).map
      fun result => result >>= finishSend request keys change shape

/-- `prepare_privacy_transaction`. -/
def preparePrivacyTransaction (balance : Balance) (request : SendRequest)
    (keys : SpendKeys C) (draws : ℕ → SelectionDraw) :
    Option (Except SendError (PreparedPrivacyTransaction F)) :=
  prepareWith (satAdd 64) balance request keys draws

/-! ## Assembly -/

/-- A ring for an input. -/
structure AllocatedRing where
  decoys : List RingMember
  realPosition : ℕ
deriving DecidableEq

/-- The rings of a send. -/
structure AllocatedRings where
  ringSize : ℕ
  realOutputs : List RealOutputIdentity
  rings : List AllocatedRing
deriving DecidableEq

/-- The random choices of the assembly. -/
structure AssemblyDraw (F : Type) where
  payment : ℕ → F
  change : F
  dummy : ℕ → TransactionBuilder.DummyDraw F
  /-- Dummies of the legacy shape, `0..=2`. -/
  dummyCount : Fin 3
  pseudo : ℕ → F

variable (C)

open TransactionBuilder

/-- Inputs with their rings. -/
def addInputs (b : TransactionBuilder F) :
    List (PreparedInput F × AllocatedRing) → Except SendError (TransactionBuilder F)
  | [] => .ok b
  | (prepared, ring) :: rest => do
    let b ← (addInputAtPosition C b prepared.input ring.decoys ring.realPosition).mapError .build
    addInputs b rest

/-- The rings have to be those of the prepared inputs. -/
def addPreparedInputs (b : TransactionBuilder F) (inputs : List (PreparedInput F))
    (rings : AllocatedRings) (expectedRingSize : ℕ) : Except SendError (TransactionBuilder F) := do
  Check.require (inputs.length = rings.rings.length)
    (.ringCountMismatch inputs.length rings.rings.length)
  Check.require (rings.ringSize = expectedRingSize) (.ringSizeMismatch expectedRingSize rings.ringSize)
  Check.require (inputs.map (·.realOutput) = rings.realOutputs) .ringInputMismatch
  addInputs C b (inputs.zip rings.rings)

/-- Its recipient. -/
def Payment.recipient (p : Payment) : Recipient := ⟨p.spendPublic, p.viewPublic, p.amount, none⟩

/-- The payments from an index on. -/
def addPayments (draw : ℕ → F) (b : TransactionBuilder F) (index : ℕ) :
    List Payment → Except SendError (TransactionBuilder F)
  | [] => .ok b
  | p :: rest => do
    let b ← (addOutputExt C b p.recipient (index % 256) p.isSubaddress (draw index)).mapError .build
    addPayments draw b (index + 1) rest

/-- So many dummies. -/
def addDummies (draw : ℕ → DummyDraw F) (b : TransactionBuilder F) :
    ℕ → Except SendError (TransactionBuilder F)
  | 0 => .ok b
  | n + 1 => do
    let b ← (addDummyOutput C b (draw n)).mapError .build
    addDummies draw b n

/-- `drip_pair_final_fee`. -/
def dripPairFinalFee (estimatedFee changeAmount totalSend : ℕ) : Except SendError ℕ := do
  Check.require (changeAmount ≤ totalSend) (.dripPairBurn changeAmount totalSend)
  return satAdd 64 estimatedFee changeAmount

/-- The change output of a prepared transaction. -/
def addPreparedChange (b : TransactionBuilder F) (prepared : PreparedPrivacyTransaction F) (r : F) :
    Except SendError (TransactionBuilder F) :=
  (addChange C b prepared.spendPublic prepared.viewPublic prepared.changeAmount
    (prepared.payments.length % 256) r).mapError .build

/-- Change, dummies and the final fee by the shape. -/
def settle (b : TransactionBuilder F) (prepared : PreparedPrivacyTransaction F) (draw : AssemblyDraw F) :
    Except SendError (TransactionBuilder F × ℕ) :=
  let foldedFee := satAdd 64 prepared.estimatedFee prepared.changeAmount
  match prepared.shape with
  | .uniformDripPair => do
    let totalSend := sumWith (satAdd 64) (prepared.payments.map (·.amount))
    let fee ← dripPairFinalFee prepared.estimatedFee prepared.changeAmount totalSend
    return (b, fee)
  | .uniformStandard =>
    if minOutputAmount ≤ prepared.changeAmount then do
      let b ← addPreparedChange C b prepared draw.change
      return (b, prepared.estimatedFee)
    else do
      let b ← (addDummyOutput C b (draw.dummy 0)).mapError .build
      return (b, foldedFee)
  | .legacy =>
    if minOutputAmount ≤ prepared.changeAmount then do
      let b ← addPreparedChange C b prepared draw.change
      let b ← addDummies C draw.dummy b draw.dummyCount
      return (b, prepared.estimatedFee)
    else do
      let b ← addDummies C draw.dummy b draw.dummyCount
      return (b, foldedFee)

/-- The builder of a prepared transaction, without inputs. -/
def preparedBuilder (prepared : PreparedPrivacyTransaction F) : TransactionBuilder F :=
  { (transfer F).withTargetHeight prepared.context.targetHeight with
    memo := prepared.memo
    extra := prepared.extra
    paymentId := prepared.paymentId }

/-- `build_prepared_privacy_transaction`. -/
def buildPreparedPrivacyTransaction (B : BuildEnv F) (prepared : PreparedPrivacyTransaction F)
    (rings : AllocatedRings) (draw : AssemblyDraw F) : Except SendError Transaction := do
  let b ← addPreparedInputs C (preparedBuilder prepared) prepared.inputs rings prepared.context.ringSize
  let b ← addPayments C draw.payment b 0 prepared.payments
  let settled ← settle C b prepared draw
  (build C B (settled.1.setFee settled.2) draw.pseudo).mapError .build

end Send

end CoinCync.Wallet

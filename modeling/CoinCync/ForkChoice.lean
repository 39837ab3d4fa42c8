import CoinCync.Node

/-!
# Fork choice and the reorg gates

`consensus/finality.rs` and the part of `add_block` that decides what a stored fork block leads to:
nothing, a refusal, or a reorganisation down to a fork point. The decision only reads the state.
-/

namespace CoinCync

/-- The errors of `add_block`. -/
inductive ChainError
  | invalidState
  | corruption
  | reorgTooDeep (depth max : ℕ)
  | pastCheckpoint (lastCheckpoint : ℕ)
  | missingBody (hash : Hash) (height : ℕ)
deriving DecidableEq

/-! ## The depth policy -/

/-- `max_reorg_depth_for`. -/
def NetworkType.maxReorgDepth : NetworkType → ℕ
  | .testnet | .regtest | .beta => 1000
  | .mainnet => 100

/-- `REORG_UNCONDITIONAL_DEPTH`. -/
def reorgUnconditionalDepth : ℕ := 10

/-- `MESS_EXPONENT_DIVISOR`. -/
def messExponentDivisor : ℕ := 20

/-- `BOOTSTRAP_MESS_HEIGHT`. -/
def bootstrapMessHeight : ℕ := 1000

/-- `CHECKPOINT_INTERVAL`. -/
def checkpointInterval : ℕ := 144

/-- Why a reorg is refused. -/
inductive ReorgRejection
  | hardFinality (depth max : ℕ)
  | lessWork (depth forkWork honestWork : ℕ)
  | lessWorkBootstrap (depth forkWork honestWork : ℕ)
  | mess (depth required forkWork : ℕ)
deriving DecidableEq

/-- The work the MESS tier asks of a fork of that depth. -/
def messRequiredWork (depth honestWork : ℕ) : ℕ :=
  let exponent := (depth - reorgUnconditionalDepth) / messExponentDivisor
  min (honestWork * 2 ^ min exponent 40) (2 ^ 128 - 1)

/-- `evaluate_reorg_acceptability`; `none` is `Ok(())`. -/
def evaluateReorgAcceptability (depth forkWork honestWork currentHeight maxDepth : ℕ) :
    Option ReorgRejection :=
  if depth > maxDepth then some (.hardFinality depth maxDepth)
  else if depth ≤ reorgUnconditionalDepth then
    if forkWork ≥ honestWork then none else some (.lessWork depth forkWork honestWork)
  else if currentHeight < bootstrapMessHeight then
    if forkWork ≥ honestWork then none else some (.lessWorkBootstrap depth forkWork honestWork)
  else if forkWork > messRequiredWork depth honestWork then none
  else some (.mess depth (messRequiredWork depth honestWork) forkWork)

/-! ## The decision -/

/-- What becomes of a stored fork block. -/
inductive ForkDecision
  | keep
  | refuse (e : ChainError)
  | reorg (forkPoint : ℕ)
deriving DecidableEq

variable (E : Env)

/-- Cumulative work first, then the smaller tip hash. -/
def Node.takesFork (n : Node) (b : Block) : Bool :=
  n.stats.totalDifficulty < n.calculateForkCumulativeWork b ∨
    (n.calculateForkCumulativeWork b = n.stats.totalDifficulty ∧ E.blockHash b < n.tip.hash)

/-- The two gates of a reorg; both measure the depth of the new branch. -/
def Node.reorgGate (n : Node) (b : Block) (forkPoint : ℕ) : Option ChainError :=
  let reorgDepth := b.height - forkPoint
  let netMax := E.network.maxReorgDepth
  let finalityFloor := n.tip.height - checkpointInterval
  if (evaluateReorgAcceptability reorgDepth (n.calculateForkCumulativeWork b)
      n.stats.totalDifficulty n.tip.height netMax).isSome then
    some (.reorgTooDeep reorgDepth netMax)
  else if 0 < finalityFloor ∧ forkPoint < finalityFloor then
    some (.reorgTooDeep reorgDepth checkpointInterval)
  else none

/-- What `add_block` does with a fork block it has stored. -/
def Node.forkDecision (n : Node) (b : Block) : ForkDecision :=
  if n.takesFork E b then
    match n.findForkPoint b with
    | none => .refuse .corruption
    | some forkPoint =>
      match n.reorgGate E b forkPoint with
      | some e => .refuse e
      | none => .reorg forkPoint
  else .keep

variable {E}

/-- What lets a reorg through. -/
lemma Node.forkDecision_eq_reorg {n : Node} :
    n.forkDecision E b = .reorg fp ↔
      n.takesFork E b ∧ n.findForkPoint b = some fp ∧ n.reorgGate E b fp = none := by
  unfold Node.forkDecision
  constructor
  · intro h
    split at h
    · rename_i htake
      split at h
      · simp at h
      · rename_i fp' hfp
        split at h
        · simp at h
        · rename_i hgate
          obtain rfl : fp' = fp := by simpa using h
          exact ⟨htake, hfp, hgate⟩
    · simp at h
  · rintro ⟨htake, hfp, hgate⟩
    simp [htake, hfp, hgate]

end CoinCync

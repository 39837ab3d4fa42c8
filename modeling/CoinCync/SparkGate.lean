import CoinCync.BlockValidation

/-!
# The Spark gate

`verify_block_spark_v2_at_height` of `chain.rs` and the batched proof verification of
`consensus/spark_payload.rs`: the checks of each transaction (`gateTx`), the batched proofs of all
spends, and the search for a linking tag used twice in the block. The gate reads the pool as it is
before the block; only the pool value is simulated along it.
-/

namespace CoinCync

open Check Commitment

/-- Why the gate refuses a transaction. -/
inductive SparkGateError
  | notPureShielded
  | valueBalanceGated
  | mintAndSpend
  | identityPseudoOutput
  | valueBridge
  | revealed (e : TxError)
  | poolUnderflow
  | bareOutputs
  | shieldInWithoutMint
  | emptyPayload
  | mintValueBalance
  | mintBundle
  | mintTotal (total : ℕ)
  | mintOutpointKnown (coin : ℕ)
  | voutUnreadable
  | voutNonzero (vout : ℕ)
  | feeUnreadable
  | feeMismatch (fee : ℕ)
deriving DecidableEq

variable (E : Env)

/-! ## One transaction -/

/-- `verify_transparent_shielded_balance`: pseudo-outputs are outputs, fee and what is shielded. -/
def verifyTransparentShieldedBalance (tx : Transaction) (valueBalance : ℤ) :
    Except SparkGateError Unit := do
  require (∀ input ∈ tx.inputs, input.pseudoOutputCommitment ≠ 0) .identityPseudoOutput
  let outputs := (tx.outputs.map (·.commitment)).sum + commit tx.fee
  let crossing := commit valueBalance.natAbs
  require ((tx.inputs.map (·.pseudoOutputCommitment)).sum =
    if 0 ≤ valueBalance then outputs - crossing else outputs + crossing) .valueBridge

/-- `verify_mint_shield_in`: the total of the mint enters the pool. -/
def verifyMintShieldIn (mint : Bytes) (valueBalance : ℤ) : Except SparkGateError Unit := do
  require (valueBalance < 0) .mintValueBalance
  match E.verifyMintBundle mint with
  | none => .error .mintBundle
  | some (total, _) => require (total = valueBalance.natAbs) (.mintTotal total)

/-- The mint part of the gate: the value, and no coin of it in the pool. -/
def gateMint (pool : PoolContents) (tx : Transaction) (mint : Bytes) (valueBalance : ℤ) :
    Except SparkGateError Unit := do
  verifyMintShieldIn E mint valueBalance
  match E.verifyMintBundle mint with
  | none => .error .mintBundle
  | some (_, coins) =>
    all (List.range coins.length) fun i =>
      require (!pool.hasOutpoint (E.deriveOutpoint (tx.inputs.map (·.keyImage)) i))
        (.mintOutpointKnown i)

/-- The spend part: no transparent value inside the bundle, and a crossing is its fee. -/
def gateSpend (payload : SparkPayload) (sb : SpendBundle) : Except SparkGateError Unit := do
  match E.spendVout sb.bundle with
  | none => .error .voutUnreadable
  | some vout => require (vout = 0) (.voutNonzero vout)
  when (payload.valueBalance ≠ 0 ∧ payload.mint = none) <|
    match E.spendFee sb.bundle with
    | none => .error .feeUnreadable
    | some fee => require (payload.valueBalance = fee) (.feeMismatch fee)

/-- Shape and revealed-output errors, as the gate reports them. -/
def liftTx (wrap : TxError → SparkGateError) : Except TxError Unit → Except SparkGateError Unit
  | .ok u => .ok u
  | .error e => .error (wrap e)

@[simp] lemma liftTx_eq_ok : liftTx wrap x = .ok () ↔ x = .ok () := by
  cases x with
  | ok u | error e => simp [liftTx]

/-- One transaction; the result is the simulated pool value. -/
def gateTx (pool : PoolContents) (height : ℕ) (simulatedPool : ℤ) (tx : Transaction)
    (payload : SparkPayload) : Except SparkGateError ℤ := do
  when (!E.network.shieldBridgeEnabled height) do
    liftTx (fun _ => .notPureShielded) (requirePureShieldedShape tx)
    require (payload.valueBalance = 0) .valueBalanceGated
  require (¬ (payload.mint.isSome ∧ payload.spend.isSome)) .mintAndSpend
  verifyTransparentShieldedBalance tx payload.valueBalance
  liftTx .revealed (checkUnshieldOutputsRevealed tx)
  require (0 ≤ simulatedPool - payload.valueBalance) .poolUnderflow
  require (payload.outputs = []) .bareOutputs
  require (¬ (payload.valueBalance < 0 ∧ payload.mint = none)) .shieldInWithoutMint
  require (¬ (payload.mint = none ∧ payload.spend = none)) .emptyPayload
  (payload.mint.elim (.ok ()) fun mint => gateMint E pool tx mint payload.valueBalance)
  (payload.spend.elim (.ok ()) fun sb => gateSpend E payload sb)
  .ok (simulatedPool - payload.valueBalance)

/-- The version 2 transactions of a block, with payloads. -/
def sparkItems (txs : List Transaction) : List (Transaction × SparkPayload) :=
  txs.filterMap fun tx => tx.sparkPayload.map (tx, ·)

/-- The loop over the block, from the pool value before it. -/
def gateLoop (pool : PoolContents) (height : ℕ) (txs : List Transaction) :
    Except SparkGateError ℤ :=
  (sparkItems txs).foldlM (fun sim item => gateTx E pool height sim item.1 item.2) pool.poolValue

/-! ## The proofs of all spends -/

/-- Coins of one cover set at most. -/
def sparkCoverSetGroup : ℕ := 512

/-- `cover_set_at`: the coins of a group up to a height, as inserted. -/
def PoolContents.coverSetAt (p : PoolContents) (coverSetId anchorHeight : ℕ) : List Bytes :=
  ((p.coins.drop (coverSetId * sparkCoverSetGroup)).take sparkCoverSetGroup).filterMap fun c =>
    if c.height ≤ anchorHeight then some c.coin else none

/-- The cover set a payload's spend is anchored to. -/
def SparkPayload.anchor (p : SparkPayload) : Option (ℕ × ℕ) :=
  p.spend.map fun sb => (sb.coverSetId, sb.anchorHeight)

/-- The spends of one cover set, by position, as handed to the backend. -/
def anchoredSpends (items : List (Transaction × SparkPayload)) (anchor : ℕ × ℕ) :
    List (ℕ × Bytes × ℕ × ℤ) :=
  items.zipIdx.filterMap fun ((tx, p), i) =>
    if p.anchor = some anchor then
      p.spend.map fun sb => (i, sb.bundle, tx.fee, p.valueBalance)
    else none

/-- One group: a nonempty cover set, and no spent tag. -/
def verifyGroup (C : Crypto) (pool : PoolContents) (items : List (Transaction × SparkPayload))
    (anchor : ℕ × ℕ) : Option (List (ℕ × List Tag)) :=
  let cover := pool.coverSetAt anchor.1 anchor.2
  let spends := anchoredSpends items anchor
  if cover = [] then none
  else (C.verifySpendBatch cover (spends.map (·.2))).bind fun tags =>
    if tags.length = spends.length ∧ ∀ ts ∈ tags, ∀ t ∈ ts, !pool.isTagSpent t then
      some ((spends.map (·.1)).zip tags)
    else none

/-- `verify_spark_payloads_batch`: the tags in order; a mint has none. -/
def verifySparkPayloadsBatch (C : Crypto) (pool : PoolContents)
    (items : List (Transaction × SparkPayload)) : Option (List (List Tag)) :=
  ((items.filterMap (·.2.anchor)).dedup.mapM (verifyGroup C pool items)).map fun groups =>
    (List.range items.length).map fun i => (groups.flatten.lookup i).getD []

/-! ## The gate -/

/-- `verify_block_spark_v2_at_height`. -/
def verifyBlockSparkV2AtHeight (C : Crypto) (pool : PoolContents) (txs : List Transaction)
    (height : ℕ) : Bool :=
  (gateLoop E pool height txs).toOption.isSome &&
    match verifySparkPayloadsBatch C pool (sparkItems txs) with
    | none => false
    | some tags => repeats tags.flatten = []

/-! ## What the gate establishes -/

section Specs

variable {E : Env} {tx : Transaction} {payload : SparkPayload}

/-- The value bridge balances. -/
lemma verifyTransparentShieldedBalance_value
    (h : verifyTransparentShieldedBalance tx payload.valueBalance = .ok ()) :
    (tx.inputs.map (·.pseudoOutputCommitment.value)).sum
      = (tx.outputs.map (·.commitment.value)).sum + tx.fee - payload.valueBalance := by
  simp only [verifyTransparentShieldedBalance, seq_eq_ok, require_eq_ok] at h
  have hsum := congrArg value h.2
  split at hsum
  · simp only [value_sum, value_add, value_sub,
      value_commit, List.map_map, Function.comp_def] at hsum
    omega
  · simp only [value_sum, value_add, value_commit, List.map_map, Function.comp_def] at hsum
    omega

/-- What the gate has checked of one transaction. -/
structure GateTx (E : Env) (pool : PoolContents) (tx : Transaction) (payload : SparkPayload) :
    Prop where
  mintXorSpend : ¬ (payload.mint.isSome ∧ payload.spend.isSome)
  bridge : (tx.inputs.map (·.pseudoOutputCommitment.value)).sum
    = (tx.outputs.map (·.commitment.value)).sum + tx.fee - payload.valueBalance
  revealed : checkUnshieldOutputsRevealed tx = .ok ()
  bare : payload.outputs = []
  mint : ∀ mint ∈ payload.mint, gateMint E pool tx mint payload.valueBalance = .ok ()
  spend : ∀ sb ∈ payload.spend, gateSpend E payload sb = .ok ()

/-- What a passed transaction satisfies. -/
lemma gateTx_eq_ok (h : gateTx E pool height sim tx payload = .ok sim') :
    sim' = sim - payload.valueBalance ∧ 0 ≤ sim' ∧ GateTx E pool tx payload := by
  simp only [gateTx, seq_eq_ok, require_eq_ok, liftTx_eq_ok] at h
  obtain ⟨-, hxor, hbridge, hrev, hpool, hbare, -, -, hmint, hspend, hsim⟩ := h
  cases hsim
  refine ⟨rfl, hpool, hxor, verifyTransparentShieldedBalance_value hbridge, hrev, hbare, ?_, ?_⟩
  · intro mint hm
    rw [Option.mem_def.mp hm] at hmint
    exact hmint
  · intro sb hs
    rw [Option.mem_def.mp hs] at hspend
    exact hspend

/-- The value moved out of the pool, negative for a shield-in. -/
def Transaction.crossing (tx : Transaction) : ℤ := (tx.sparkPayload.map (·.valueBalance)).getD 0

/-- Which transactions are gated. -/
lemma mem_sparkItems :
    (tx, payload) ∈ sparkItems txs ↔ tx ∈ txs ∧ tx.sparkPayload = some payload := by
  simp only [sparkItems, List.mem_filterMap, Option.map_eq_some_iff, Prod.mk.injEq]
  constructor
  · rintro ⟨_, hmem, _, hp, rfl, rfl⟩
    exact ⟨hmem, hp⟩
  · rintro ⟨hmem, hp⟩
    exact ⟨tx, hmem, payload, hp, rfl, rfl⟩

lemma gateTx_of_foldlM {items : List (Transaction × SparkPayload)}
    (h : items.foldlM (fun sim item => gateTx E pool height sim item.1 item.2) sim = .ok sim') :
    ∀ item ∈ items, GateTx E pool item.1 item.2 := by
  induction items generalizing sim with
  | nil => simp
  | cons item items ih =>
    rw [List.foldlM_cons, bind_eq_ok] at h
    obtain ⟨next, hitem, hrest⟩ := h
    intro x hx
    rcases List.mem_cons.mp hx with rfl | hx
    · exact (gateTx_eq_ok hitem).2.2
    · exact ih hrest x hx

/-- Every gated transaction of a passed block was checked. -/
lemma gateTx_of_gate {C : Crypto}
    (h : verifyBlockSparkV2AtHeight E C pool txs height = true) (htx : tx ∈ txs)
    (hp : tx.sparkPayload = some payload) : GateTx E pool tx payload := by
  unfold verifyBlockSparkV2AtHeight at h
  cases hloop : gateLoop E pool height txs with
  | error e => simp [hloop, Except.toOption] at h
  | ok sim => exact gateTx_of_foldlM hloop _ (mem_sparkItems.mpr ⟨htx, hp⟩)

end Specs

end CoinCync

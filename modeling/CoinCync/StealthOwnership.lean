import CoinCync.Conservation

/-!
# Which output a stealth address stands for

A stealth address resolves to the oldest output that has it (`add_output_ext`), so an output whose
address is taken is shadowed. From version 1.0.12 on `check_tx_ring_members` and `validate_block_ctx`
are meant to keep that from all outputs but a coinbase's. But the checks are only reached by a
transaction with inputs: an unshield has none, and nothing bounds the number of outputs of a bridge
transaction, whose indices are bytes. They also take an unreadable row for none. `OutputsFresh` is
what is missing.
-/

namespace CoinCync

open Check List Option UtxoCore UtxoSet

variable {E : Env} {W : Validator E} {s s' : Books} {b : Block} {tx : Transaction}
  {coinbase : Transaction} {rest : List Transaction} {u : UtxoCore} {a : NewOutput} {height : ℕ}
  {txs : List Transaction}

/-! ## Holding an address -/

/-- The output owns its address and is found under its key. -/
structure UtxoCore.Holds (u : UtxoCore) (a : NewOutput) : Prop where
  address : u.stealthIndex a.address = some a.key
  output : u.outputs a.key = some a.ref

/-- Then a lookup finds it. -/
lemma UtxoCore.Holds.getOutputByStealth (h : u.Holds a) :
    u.getOutputByStealth a.address = some a.ref := by
  rw [UtxoCore.getOutputByStealth, h.address, bind_some, h.output]

/-- Ring members are compared with the holder of the address. -/
lemma UtxoCore.Holds.resolveRingMember {u : UtxoSet} (h : u.Holds a) :
    resolveRingMember u a.address = some a.entry := by
  unfold CoinCync.resolveRingMember
  rw [h.getOutputByStealth]
  rfl

/-- A block that does not use its key keeps it. -/
lemma UtxoCore.Holds.connectBlock (h : u.Holds a)
    (hkey : a.key ∉ txs.flatMap (removedKeys E)) : (u.connectBlock E height txs).Holds a := by
  rw [connectBlock_eq]
  constructor
  · rw [stealthIndex_foldl_addOutput_eq, h.address, some_or]
  · rw [outputs_foldl_addOutput (by rwa [map_key_adds]), h.output]

/-- An output of the block that alone has an address nobody holds. -/
lemma holds_connectBlock (ha : a ∈ txs.flatMap (newOutputs E height))
    (hnew : u.stealthIndex a.address = none)
    (haddr : ((txs.flatMap (newOutputs E height)).map (·.address)).Nodup)
    (hkey : ∀ a' ∈ txs.flatMap (newOutputs E height), a'.key = a.key → a' = a) :
    (u.connectBlock E height txs).Holds a := by
  rw [UtxoCore.connectBlock_eq]
  constructor
  · rw [stealthIndex_foldl_addOutput_eq, hnew]
    apply Table.lookup_eq_some_of_mem
    · rw [List.map_map]
      exact haddr
    · exact mem_map.mpr ⟨a, ha, rfl⟩
  · exact outputs_foldl_addOutput_of_mem ha hkey

/-! ## What the validator establishes of the outputs -/

/-- What the checks leave open under the v1.0.12 rules: no output goes to an address whose row is
unreadable, and bridge transactions meet what `check_tx_ring_members` and the output count
establish. -/
@[mk_iff] structure OutputsFresh (E : Env) (s : Books) (b : Block) : Prop where
  readable : E.network.v1012RulesActive b.height → ∀ tx ∈ b.transactions, tx.isCoinbase = false →
    ∀ o ∈ tx.outputs, (s.utxos.db o.stealthAddress).all (·.validate)
  count : E.network.v1012RulesActive b.height → ∀ tx ∈ b.transactions, tx.isShielded →
    tx.outputs.length ≤ 256
  unshields : E.network.v1012RulesActive b.height → ∀ tx ∈ b.transactions, tx.isShielded →
    tx.inputs = [] → ∀ o ∈ tx.outputs, s.utxos.getOutputIndexEntry o.stealthAddress = none

instance (s : Books) (b : Block) : Decidable (OutputsFresh E s b) :=
  decidable_of_iff _ (outputsFresh_iff E s b).symm

/-- Outputs with byte indices, and addresses without a row on disk. -/
structure FreshOutputs (u : UtxoSet) (tx : Transaction) : Prop where
  count : tx.outputs.length ≤ 256
  addresses : ∀ o ∈ tx.outputs, u.db o.stealthAddress = none

/-- No answer and nothing unreadable: no row on disk. -/
lemma UtxoSet.db_eq_none_of_readable {u : UtxoSet} (hread : (u.db x).all (·.validate))
    (hentry : u.getOutputIndexEntry x = none) : u.db x = none := by
  cases hdb : u.db x with
  | none => rfl
  | some e =>
    rw [hdb] at hread
    simp [getOutputIndexEntry, hdb, show e.validate = true from hread] at hentry

/-- An accepted transfer has inputs and few outputs. -/
lemma inputsOutputs_of_validate {u : UtxoSet} (hcb : tx.isCoinbase = false)
    (hsh : tx.isShielded = false)
    (h : validateTransactionForNetworkCtx C tx u height net true = .ok ()) :
    tx.inputs ≠ [] ∧ tx.outputs.length ≤ maxTxOutputs := by
  have ht := ((validate_transparent hcb hsh).mp h).2
  unfold checkTransparentTx checkTxInputOutputCounts at ht
  simp only [seq_eq_ok, require_eq_ok] at ht
  obtain ⟨-, -, ⟨hin, -, -, -, hout⟩, -⟩ := ht
  exact ⟨hin, hout⟩

/-- Behind the coinbase are the other transactions. -/
lemma Accepted.mem_rest (h : Accepted W s b coinbase rest s') (htx : tx ∈ b.transactions)
    (hcb : tx.isCoinbase = false) : tx ∈ rest := by
  rw [h.valid.transactions] at htx
  rcases mem_cons.mp htx with rfl | htx
  · simp [h.valid.first] at hcb
  · exact htx

/-- What an accepted block establishes of its transactions. -/
lemma freshOutputs_of_accepted (h : Accepted W s b coinbase rest s')
    (hactive : E.network.v1012RulesActive b.height = true) (hopen : OutputsFresh E s b)
    (htx : tx ∈ b.transactions) (hcb : tx.isCoinbase = false) : FreshOutputs s.utxos tx := by
  have hvalid := (h.valid.validated tx (h.mem_rest htx hcb)).2
  have hindex : ∀ o ∈ tx.outputs, s.utxos.getOutputIndexEntry o.stealthAddress = none := by
    by_cases hin : tx.inputs = []
    · cases hsh : tx.isShielded with
      | false => exact absurd hin (inputsOutputs_of_validate hcb hsh hvalid).1
      | true => exact hopen.unshields hactive tx htx hsh hin
    · exact ((checkTxRingMembers_eq_ok.mp
        (inputsChecked_of_validate hcb hvalid hin).ringMembers).1 hactive).2
  refine ⟨?_, fun o ho => db_eq_none_of_readable (hopen.readable hactive tx htx hcb o ho) (hindex o ho)⟩
  cases hsh : tx.isShielded with
  | false =>
    have hout := (inputsOutputs_of_validate hcb hsh hvalid).2
    unfold maxTxOutputs at hout
    omega
  | true => exact hopen.count hactive tx htx hsh

/-! ## The run -/

/-- Different transactions of the blocks have different hashes. -/
def HashesDistinguish (E : Env) (bs : List Block) : Prop :=
  ∀ b ∈ bs, ∀ tx ∈ b.transactions, ∀ b' ∈ bs, ∀ tx' ∈ b'.transactions,
    E.txHash tx = E.txHash tx' → tx = tx'

instance (bs : List Block) : Decidable (HashesDistinguish E bs) := by
  unfold HashesDistinguish
  infer_instance

/-- Every address has a row on disk, and protected outputs hold theirs. -/
structure Unshadowed (E : Env) (s : Books) : Prop where
  heights : ∀ b ∈ s.above, b.height ≤ s.tip.height
  rows : ∀ x, s.utxos.db x = none → s.utxos.stealthIndex x = none
  held : HashesDistinguish E s.above → ∀ b ∈ s.above, E.network.v1012RulesActive b.height →
    ∀ tx ∈ b.transactions, tx.isCoinbase = false → ∀ a ∈ newOutputs E b.height tx, s.utxos.Holds a

lemma UtxoSet.db_extend_eq_none {u : UtxoSet} :
    (u.extend E b).db x = none ↔
      u.db x = none ∧ x ∉ (outputRows b.height b.transactions).map (·.1) := by
  rw [db_extend, commitRows_eq_none]

lemma unshadowed_genesisBooks (g : Block) : Unshadowed E (genesisBooks E g) where
  heights b hb := by simp [genesisBooks] at hb
  rows x hx := by
    have hdb : insertRows (UtxoSet.empty.connectBlock E 0 g.transactions).db
        (outputRows 0 g.transactions) x = none := hx
    rw [insertRows_eq, db_connectBlock, or_eq_none_iff,
      Table.lookup_eq_none_iff_notMem, ← map_address_adds] at hdb
    show (UtxoSet.empty.connectBlock E 0 g.transactions).stealthIndex x = none
    rw [toUtxoCore_connectBlock, UtxoCore.connectBlock_eq]
    exact (stealthIndex_foldl_addOutput _ _ x).mpr ⟨rfl, hdb.2⟩
  held _ b hb := by simp [genesisBooks] at hb

/-- Once active, always active. -/
lemma v1012RulesActive_mono {net : NetworkType} (hle : h ≤ h')
    (hactive : net.v1012RulesActive h = true) : net.v1012RulesActive h' = true := by
  cases net
  all_goals simp only [NetworkType.v1012RulesActive, decide_eq_true_eq] at hactive ⊢
  all_goals omega

/-- With byte indices, outputs of one key are one. -/
lemma eq_of_mem_newOutputs (hcount : tx.outputs.length ≤ 256) (ha : a ∈ newOutputs E height tx)
    (ha' : a' ∈ newOutputs E height tx) (hkey : a'.key = a.key) : a' = a := by
  obtain ⟨i, hi, rfl⟩ := mem_mapIdx.mp ha
  obtain ⟨j, hj, rfl⟩ := mem_mapIdx.mp ha'
  have hij : j % 256 = i % 256 := congrArg Prod.snd hkey
  obtain rfl : j = i := by omega
  rfl

lemma address_of_mem_newOutputs (ha : a ∈ newOutputs E height tx) :
    ∃ o ∈ tx.outputs, o.stealthAddress = a.address := by
  obtain ⟨i, hi, rfl⟩ := mem_mapIdx.mp ha
  exact ⟨_, getElem_mem hi, rfl⟩

lemma key_mem_removedKeys (ha : a ∈ newOutputs E height tx) : a.key ∈ removedKeys E tx := by
  rw [← map_key_newOutputs E height]
  exact mem_map_of_mem ha

namespace Unshadowed

/-- A fresh transaction's addresses are free. -/
lemma free (hs : Unshadowed E s) (hfresh : FreshOutputs s.utxos tx)
    (ha : a ∈ newOutputs E height tx) : s.utxos.stealthIndex a.address = none := by
  obtain ⟨o, ho, haddr⟩ := address_of_mem_newOutputs ha
  exact hs.rows _ (haddr ▸ hfresh.addresses o ho)

/-- Older outputs keep their addresses, as none is made again. -/
lemma held_old (hs : Unshadowed E s) (hdist : HashesDistinguish E (b :: s.above))
    (hfresh : ∀ tx ∈ b.transactions, tx.isCoinbase = false → FreshOutputs s.utxos tx)
    (hb' : b' ∈ s.above) (htx : tx ∈ b'.transactions) (hcb : tx.isCoinbase = false)
    (ha : a ∈ newOutputs E b'.height tx) (hold : s.utxos.Holds a) :
    (s.utxos.extend E b).Holds a := by
  rw [toUtxoCore_extend]
  apply hold.connectBlock
  intro hmem
  obtain ⟨tx', htx', hkey⟩ := mem_flatMap.mp hmem
  have hhash : E.txHash tx' = E.txHash tx :=
    (mem_removedKeys hkey).symm.trans (mem_removedKeys (key_mem_removedKeys ha))
  obtain rfl := hdist b mem_cons_self tx' htx' b' (mem_cons_of_mem b hb') tx htx hhash
  have hfree := hs.free (hfresh tx' htx' hcb) ha
  rw [hold.address] at hfree
  simp at hfree

/-- The outputs of the block hold theirs. -/
lemma held_new (hs : Unshadowed E s) (h : Accepted W s b coinbase rest s')
    (hactive : E.network.v1012RulesActive b.height = true)
    (hfresh : FreshOutputs s.utxos tx) (htx : tx ∈ b.transactions)
    (ha : a ∈ newOutputs E b.height tx) : (s.utxos.extend E b).Holds a := by
  rw [toUtxoCore_extend]
  apply holds_connectBlock (mem_flatMap.mpr ⟨tx, htx, ha⟩) (hs.free hfresh ha)
  · rw [map_address_adds, map_fst_outputRows]
    exact h.valid.addresses hactive
  · intro a' ha' hkey
    obtain ⟨tx', htx', ha'⟩ := mem_flatMap.mp ha'
    have hhash : E.txHash tx' = E.txHash tx := by
      rw [← mem_removedKeys (key_mem_removedKeys ha'), hkey, mem_removedKeys (key_mem_removedKeys ha)]
    obtain rfl := inj_on_of_nodup_map h.valid.txHashes htx' htx hhash
    exact eq_of_mem_newOutputs hfresh.count ha ha' hkey

lemma step (hs : Unshadowed E s) (h : Accepted W s b coinbase rest s')
    (hopen : OutputsFresh E s b) : Unshadowed E s' where
  heights b' hb' := by
    rw [h.above] at hb'
    rw [h.tip, h.height]
    rcases mem_cons.mp hb' with rfl | hb'
    · exact h.height.le
    · exact (hs.heights b' hb').trans (Nat.le_succ _)
  rows x hx := by
    rw [h.utxos, db_extend_eq_none, ← map_address_adds] at hx
    rw [h.utxos, toUtxoCore_extend, UtxoCore.connectBlock_eq]
    exact (stealthIndex_foldl_addOutput _ _ x).mpr ⟨hs.rows x hx.1, hx.2⟩
  held hdist b' hb' hactive tx htx hcb a ha := by
    rw [h.above] at hdist hb'
    have hle : b'.height ≤ b.height := by
      rcases mem_cons.mp hb' with rfl | hb'
      · exact le_rfl
      · exact (hs.heights b' hb').trans (h.height ▸ Nat.le_succ _)
    have hfresh : ∀ tx ∈ b.transactions, tx.isCoinbase = false → FreshOutputs s.utxos tx :=
      fun tx => freshOutputs_of_accepted h (v1012RulesActive_mono hle hactive) hopen
    rw [h.utxos]
    rcases mem_cons.mp hb' with rfl | hb'
    · exact hs.held_new h hactive (hfresh tx htx hcb) htx ha
    · have hdist' : HashesDistinguish E s.above := fun b1 h1 t1 ht1 b2 h2 =>
        hdist b1 (mem_cons_of_mem b h1) t1 ht1 b2 (mem_cons_of_mem b h2)
      exact hs.held_old hdist hfresh hb' htx hcb ha (hs.held hdist' b' hb' hactive tx htx hcb a ha)

end Unshadowed

/-- On every chain of accepted blocks whose outputs are fresh where the checks do not see it: every
output of a transaction other than a coinbase, under the v1.0.12 rules, is what its stealth address
stands for. -/
theorem outputs_unshadowed {g : Block}
    (h : Run.Reaches (acceptBlock W) (OutputsFresh E) (genesisBooks E g) s)
    (hdist : HashesDistinguish E s.above) :
    ∀ b ∈ s.above, E.network.v1012RulesActive b.height →
      ∀ tx ∈ b.transactions, tx.isCoinbase = false → ∀ a ∈ newOutputs E b.height tx,
        s.utxos.getOutputByStealth a.address = some a.ref ∧
          resolveRingMember s.utxos a.address = some a.entry := by
  have hs : Unshadowed E s := by
    refine h.invariant (unshadowed_genesisBooks g) ?_
    intro t b u ht hopen hu
    obtain ⟨coinbase, rest, haccepted⟩ := acceptBlock_eq_some hu
    exact ht.step haccepted hopen
  intro b hb hactive tx htx hcb a ha
  have hholds := hs.held hdist b hb hactive tx htx hcb a ha
  exact ⟨hholds.getOutputByStealth, hholds.resolveRingMember⟩

/-! ## Concrete chains -/

/-- Regtest, v1.0.12 rules and the bridge; a spend bundle is its value. -/
def bridgeEnv : Env := { sampleEnv .regtest 1 with spendFee := fun b => some b }

/-- An unshield to an address, anchored to the first cover set. -/
def unshieldTx (address amount : ℕ) : Transaction :=
  { txType := .shielded
    outputs := [revealedOutput address amount]
    fee := 1000
    extra := .sparkV2 {
      spend := some { bundle := amount + 1000, coverSetId := 0, anchorHeight := 100 }
      valueBalance := amount + 1000 } }

/-- A shield-in at height 100, and an unshield to the address after it. -/
def unshieldChain (address : ℕ) : List Block :=
  emptyBlocks 99 ++
    [minedBlock 100 1000 [shieldInTx], minedBlock 101 1000 [unshieldTx address 2000000]]

/-- An unshield to a new address. -/
theorem unshield_unshadowed_fresh :
    ∃ s, Run.Reaches (acceptBlock (sampleValidator bridgeEnv)) (OutputsFresh bridgeEnv)
        (genesisBooks bridgeEnv sampleGenesis) s ∧
      (unshieldTx 500 2000000) ∈ s.tip.transactions ∧
      (s.utxos.getOutputByStealth 500).map (·.output) = some (revealedOutput 500 2000000) := by
  refine Run.exists_reaches_of_exec_guarded (unshieldChain 500) (P := fun s =>
    s.above.head? = some (minedBlock 101 1000 [unshieldTx 500 2000000]) ∧
      HashesDistinguish bridgeEnv s.above) (by decide +kernel) ?_
  intro s hreach ⟨htip, hdist⟩
  have hmem : unshieldTx 500 2000000 ∈ (minedBlock 101 1000 [unshieldTx 500 2000000]).transactions :=
    mem_cons_of_mem _ mem_cons_self
  have howned := outputs_unshadowed hreach hdist _ (mem_of_mem_head? htip) (by decide) _ hmem rfl
    ⟨bridgeEnv.txHash (unshieldTx 500 2000000), 0, revealedOutput 500 2000000, 101, false⟩
    (mem_cons_self)
  refine ⟨?_, ?_⟩
  · rw [Books.tip, headD_eq_head?_getD, htip]
    exact hmem
  · have hget := howned.1
    show Option.map _ (s.utxos.getOutputByStealth 500) = _
    exact (congrArg (Option.map (·.output)) hget)

/-- An unshield to the address of a genesis output is accepted; the address still stands for the
genesis output. -/
theorem unshield_shadowed_by_genesis :
    ∃ s r, Run.Reaches (acceptBlock (sampleValidator bridgeEnv)) (fun _ _ => True)
        (genesisBooks bridgeEnv sampleGenesis) s ∧
      s.tip = minedBlock 101 1000 [unshieldTx 1 2000000] ∧
      bridgeEnv.network.v1012RulesActive s.tip.height ∧
      s.utxos.getOutputByStealth 1 = some r ∧ r.height = 0 ∧
      r.output.commitment = Commitment.commit 5000000 := by
  simp only [exists_and_left]
  apply Run.exists_reaches_of_exec (unshieldChain 1)
  decide +kernel

end CoinCync

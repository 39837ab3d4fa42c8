import CoinCync.MempoolIndex
import CoinCync.NeverExtended

/-!
# Block templates

`build_template_json` of `mining/template.rs`. The block rule relates pairs of transactions, while
every check before it looks at one transaction and the chain. What is packed is a part of the
residents, so two packed transactions share no hash and no key image; but admission does not compare
output addresses. Where every submitted transaction pays to addresses no other resident pays to
(`PaysApart`), they are distinct as well.
-/

namespace CoinCync

open Check List MachineInt

variable {E : Env} {K : MempoolEnv E} {m m' : Mempool}

/-! ## The builder -/

/-- The room left for the coinbase. -/
def coinbaseHeadroom : ℕ := 10 * 1024

/-- `congestion_pct_for_size`. -/
def congestionPctForSize (blockSize : ℕ) : ℕ := blockSize * 100 / maxBlockSize

/-- `dynamic_min_fee`; `none` is an overflow. -/
def dynamicMinFee (txSize congestionPct : ℕ) : Option ℕ :=
  ((checkedMul 64 txSize minFeePerByte).bind
    (checkedMul 64 · (congestionMultiplier congestionPct))).map (· / 100)

/-- The transaction pays the floor of a block of that size. -/
def ClearsFloor (E : Env) (blockSize : ℕ) (tx : Transaction) : Prop :=
  ∃ floor ∈ dynamicMinFee (E.txSize tx) (congestionPctForSize blockSize), floor ≤ tx.fee

instance (blockSize : ℕ) (tx : Transaction) : Decidable (ClearsFloor E blockSize tx) := by
  unfold ClearsFloor
  infer_instance

/-- Packed if the chain accepts it and it pays the floor of its block. -/
def packOne (W : Validator E) (n : Node) (packed : ℕ × List Transaction) (tx : Transaction) :
    ℕ × List Transaction :=
  let prospective := satAdd 64 packed.1 (E.txSize tx)
  if n.validateTransaction W tx = .ok () ∧ ClearsFloor E prospective tx then
    (prospective, packed.2 ++ [tx])
  else packed

/-- One pass: whoever is under the present floor leaves. -/
def congestionPass (E : Env) (packed : ℕ × List Transaction) : ℕ × List Transaction :=
  let shrink := satSum 64
    ((packed.2.filter fun tx => ¬ ClearsFloor E packed.1 tx).map E.txSize)
  (packed.1 - shrink, packed.2.filter fun tx => ClearsFloor E packed.1 tx)

/-- The fixpoint loop; all passes but the last remove one. -/
def congestionLoop (E : Env) : ℕ → ℕ × List Transaction → ℕ × List Transaction
  | 0, packed => packed
  | fuel + 1, packed =>
    let next := congestionPass E packed
    if next.2.length = packed.2.length then next else congestionLoop E fuel next

/-- The size and the transactions of the template. -/
def packTemplate (W : Validator E) (n : Node) (candidates : List Transaction) :
    ℕ × List Transaction :=
  let packed := candidates.foldl (packOne W n) (coinbaseHeadroom, [])
  congestionLoop E (packed.2.length + 1) packed

/-- What the miner is told, the transactions decoded. -/
structure TemplateJson where
  height : ℕ
  prevHash : Hash
  timestamp : ℕ
  transactions : List Transaction

/-- `build_template_json`. -/
def buildTemplateJson (K : MempoolEnv E) (n : Node) (m : Mempool) (now : ℕ) : TemplateJson where
  height := n.tip.height + 1
  prevHash := n.tip.hash
  timestamp := max now (satAdd 64 n.tip.timestamp 1)
  transactions :=
    (packTemplate K.toValidator n
      (m.getBlockTransactions K (maxBlockSize - coinbaseHeadroom) 4096)).2

/-! ## The loops only leave transactions out -/

namespace Mempool

lemma selectOne_result (maxSize : ℕ) (s : Selection) (h : Hash) :
    ∃ taken, (m.selectOne K maxSize s h).result = s.result ++ taken ∧
      taken.Sublist ((m.get h).map (·.tx)).toList := by
  unfold selectOne
  split
  · exact ⟨[], (append_nil _).symm, nil_sublist _⟩
  · rename_i e hget
    split
    · split
      · exact ⟨[], (append_nil _).symm, nil_sublist _⟩
      · exact ⟨[e.tx], rfl, by simp [hget]⟩
    · exact ⟨[], (append_nil _).symm, nil_sublist _⟩

/-- The selection takes residents in order. -/
lemma selectLoop_result (maxSize maxCount : ℕ) (l : List (ℕ × Hash)) (s : Selection) :
    ∃ taken, (m.selectLoop K maxSize maxCount l s).result = s.result ++ taken ∧
      taken.Sublist (l.flatMap fun p => ((m.get p.2).map (·.tx)).toList) := by
  induction l generalizing s with
  | nil => exact ⟨[], (append_nil _).symm, nil_sublist _⟩
  | cons p l ih =>
    unfold selectLoop
    split
    · exact ⟨[], (append_nil _).symm, nil_sublist _⟩
    · obtain ⟨head, hhead, hsub⟩ := selectOne_result maxSize s p.2
      obtain ⟨tail, htail, hsub'⟩ := ih (m.selectOne K maxSize s p.2)
      refine ⟨head ++ tail, ?_, ?_⟩
      · rw [htail, hhead, append_assoc]
      · exact hsub.append hsub'

/-- What is selected are residents, each at most once. -/
lemma Coherent.getBlockTransactions_subperm (hm : m.Coherent K) (maxSize maxCount : ℕ) :
    (m.getBlockTransactions K maxSize maxCount).Subperm (m.transactions.map (·.2.tx)) := by
  obtain ⟨taken, hresult, hsub⟩ :=
    selectLoop_result maxSize maxCount m.byFee.reverse {}
  have hperm : (m.byFee.reverse.flatMap fun p => ((m.get p.2).map (·.tx)).toList).Perm
      (m.transactions.map (·.2.tx)) := by
    refine ((m.byFee.reverse_perm.trans hm.byFee).flatMap_right _).trans (List.Perm.of_eq ?_)
    rw [flatMap_map, map_eq_flatMap]
    apply flatMap_congr
    intro r hr
    have hget : m.get r.1 = some r.2 := hm.get_eq_some.mpr hr
    simp [hget]
  rw [getBlockTransactions, hresult]
  exact hsub.subperm.trans hperm.subperm

end Mempool

/-- Packing only leaves out. -/
lemma foldl_packOne_sublist (W : Validator E) (n : Node) (candidates : List Transaction)
    (packed : ℕ × List Transaction) :
    ∃ taken, (candidates.foldl (packOne W n) packed).2 = packed.2 ++ taken ∧
      taken.Sublist candidates := by
  induction candidates generalizing packed with
  | nil => exact ⟨[], (append_nil _).symm, List.Sublist.refl _⟩
  | cons tx candidates ih =>
    obtain ⟨taken, htaken, hsub⟩ := ih (packOne W n packed tx)
    rw [foldl_cons, htaken]
    simp only [packOne]
    split
    · exact ⟨tx :: taken, by simp, hsub.cons_cons tx⟩
    · exact ⟨taken, rfl, hsub.cons tx⟩

/-- So does the fixpoint. -/
lemma congestionLoop_sublist (fuel : ℕ) (packed : ℕ × List Transaction) :
    (congestionLoop E fuel packed).2.Sublist packed.2 := by
  induction fuel generalizing packed with
  | zero => exact List.Sublist.refl _
  | succ fuel ih =>
    have hpass : (congestionPass E packed).2.Sublist packed.2 := filter_sublist
    simp only [congestionLoop]
    split
    · exact hpass
    · exact (ih _).trans hpass

/-- With a pass for every transaction and one more, all that is left pays the floor. -/
theorem congestionLoop_clears (hfuel : packed.2.length < fuel) :
    ∀ tx ∈ (congestionLoop E fuel packed).2, ClearsFloor E (congestionLoop E fuel packed).1 tx := by
  induction fuel generalizing packed with
  | zero => omega
  | succ fuel ih =>
    have hpass : (congestionPass E packed).2.Sublist packed.2 := filter_sublist
    simp only [congestionLoop]
    split
    · rename_i hlength
      -- nothing left, so nothing was taken off the size
      have hsame : packed.2.filter (fun tx => ClearsFloor E packed.1 tx) = packed.2 :=
        hpass.eq_of_length hlength
      have hall : ∀ tx ∈ packed.2, ClearsFloor E packed.1 tx := by
        simpa using filter_eq_self.mp hsame
      have hnone : packed.2.filter (fun tx => ¬ ClearsFloor E packed.1 tx) = [] := by
        simpa using hall
      have hsize : (congestionPass E packed).1 = packed.1 := by
        simp only [congestionPass, hnone]
        rfl
      intro tx htx
      rw [hsize]
      exact hall tx (hpass.mem htx)
    · apply ih
      have hle := hpass.length_le
      omega

/-- What a template has are residents, each at most once. -/
lemma template_subperm (hm : m.Coherent K) (n : Node) (now : ℕ) :
    (buildTemplateJson K n m now).transactions.Subperm (m.transactions.map (·.2.tx)) := by
  obtain ⟨taken, htaken, hsub⟩ := foldl_packOne_sublist K.toValidator n
    (m.getBlockTransactions K (maxBlockSize - coinbaseHeadroom) 4096) (coinbaseHeadroom, [])
  have hloop : (buildTemplateJson K n m now).transactions.Sublist taken := by
    rw [nil_append] at htaken
    rw [← htaken]
    exact congestionLoop_sublist _ _
  exact (hloop.trans hsub).subperm.trans (hm.getBlockTransactions_subperm _ _)

/-! ## Addresses -/

/-- The stealth addresses a transaction pays to. -/
def Transaction.addresses (tx : Transaction) : List PublicKey := tx.outputs.map (·.stealthAddress)

/-- A resident, or whoever pays to one of its addresses shares a key image. -/
def Mempool.AddressesApart (E : Env) (m : Mempool) (tx : Transaction) : Prop :=
  m.contains (E.txHash tx) ∨ (tx.addresses.Nodup ∧ ∀ r ∈ m.transactions,
    (∃ ki ∈ tx.keyImages, ki ∈ r.2.tx.keyImages) ∨ ∀ a ∈ tx.addresses, a ∉ r.2.tx.addresses)

instance (m : Mempool) (tx : Transaction) : Decidable (m.AddressesApart E tx) := by
  unfold Mempool.AddressesApart
  infer_instance

/-- Calls along which residents pay to different addresses. -/
def PaysApart (E : Env) (m : Mempool) (op : MempoolOp) : Prop :=
  ∀ tx ∈ op.submits, m.AddressesApart E tx

instance (m : Mempool) (op : MempoolOp) : Decidable (PaysApart E m op) := by
  unfold PaysApart
  infer_instance

namespace Mempool

/-- Such calls keep addresses distinct. -/
lemma addresses_nodup_change (hm : m.Coherent K) (hop : PaysApart E m op)
    (hchange : m.Change K op m') (h : (m.transactions.flatMap (·.2.tx.addresses)).Nodup) :
    (m'.transactions.flatMap (·.2.tx.addresses)).Nodup := by
  have hremoved : ∀ (q : Mempool) hs, q.transactions = m.transactions →
      (q.removeAll K hs).transactions.Sublist m.transactions := by
    intro q hs hq
    rw [transactions_removeAll, hq]
    exact filter_sublist
  cases hchange with
  | removed height hs => exact ((hremoved { m with chainHeight := height } hs rfl).flatMap _).nodup h
  | cleared => exact nodup_nil
  | @submitted _ tx now hsubmits hsub =>
    cases hsub with
    | refused hs => exact ((hremoved m hs rfl).flatMap _).nodup h
    | @admitted replaced hs hpre hnew hadm =>
      have hnew' : (m.removeAll K (replaced ++ hs)).get (E.txHash tx) = none := by
        rw [get_eq_none]
        exact fun hmem => get_eq_none.mp hnew (((hremoved m _ rfl).map _).mem hmem)
      obtain ⟨hown, hother⟩ : tx.addresses.Nodup ∧ _ :=
        (hop tx hsubmits).resolve_left (by simp [contains, hnew])
      rw [transactions_insert hnew', flatMap_cons, nodup_append']
      refine ⟨hown, ((hremoved m _ rfl).flatMap _).nodup h, fun a ha hmem => ?_⟩
      obtain ⟨r, hr, har⟩ := mem_flatMap.mp hmem
      rcases hother r ((hremoved m _ rfl).mem hr) with ⟨ki, hki, hrki⟩ | hdisj
      · -- a resident that shares a key image has been replaced
        exact hm.images_free hadm hs ki hki
          ((hm.removeAll _).images.mem_iff.mpr ⟨r, hr, hrki⟩)
      · exact hdisj a ha har

end Mempool

/-! ## The block of a template -/

/-- A coinbase without inputs, with addresses and hash of its own. -/
structure FreshCoinbase (E : Env) (coinbase : Transaction) (txs : List Transaction) : Prop where
  inputs : coinbase.inputs = []
  addresses : coinbase.addresses.Nodup
  fresh : ∀ tx ∈ txs, ∀ a ∈ tx.addresses, a ∉ coinbase.addresses
  hash : ∀ tx ∈ txs, E.txHash tx ≠ E.txHash coinbase

/-- A reordered part of a list without repetitions. -/
lemma nodup_flatMap_of_subperm {α β : Type*} {l l' : List α} {f : α → List β}
    (h : l.Subperm l') (hnd : (l'.flatMap f).Nodup) : (l.flatMap f).Nodup := by
  obtain ⟨l'', hperm, hsub⟩ := h
  exact (hperm.flatMap_right f).nodup_iff.mp ((hsub.flatMap f).nodup hnd)

/-- In every run of the mempool in which every submitted transaction pays to addresses of its own:
whatever the chain, the template behind a fresh coinbase has no transaction hash, no key image and
no output address twice. -/
theorem template_jointly_minable {maxSize : ℕ}
    (h : Run.Reaches (Mempool.step K) (PaysApart E) (Mempool.withMaxSize maxSize) m) (n : Node)
    (now : ℕ) {b : Block} {coinbase : Transaction}
    (hb : b.transactions = coinbase :: (buildTemplateJson K n m now).transactions)
    (hcb : FreshCoinbase E coinbase (buildTemplateJson K n m now).transactions) :
    crossTxErrors E b = [] := by
  obtain ⟨hm, haddr⟩ : m.Coherent K ∧ (m.transactions.flatMap (·.2.tx.addresses)).Nodup := by
    refine h.invariant (P := fun m => m.Coherent K ∧
      (m.transactions.flatMap (·.2.tx.addresses)).Nodup)
      ⟨Mempool.withMaxSize_coherent maxSize, nodup_nil⟩ ?_
    rintro q op q' ⟨hq, hnd⟩ hop hstep
    have hchange := Mempool.step_cases hstep
    exact ⟨hq.change hchange, Mempool.addresses_nodup_change hq hop hchange hnd⟩
  have hsub := template_subperm hm n now
  have hhashes : ((m.transactions.map (·.2.tx)).flatMap fun tx => [E.txHash tx]).Nodup := by
    rw [flatMap_map, ← map_eq_flatMap, map_congr_left hm.hashes]
    exact hm.keys
  have himages : ((m.transactions.map (·.2.tx)).flatMap Transaction.keyImages).Nodup := by
    rw [flatMap_map, nodup_flatMap]
    exact ⟨hm.ownImages, hm.images.disjoint⟩
  have haddresses : ((m.transactions.map (·.2.tx)).flatMap Transaction.addresses).Nodup := by
    rw [flatMap_map]
    exact haddr
  rw [crossTxErrors_eq_nil, hb]
  refine ⟨?_, ?_, fun _ => ?_⟩
  · rw [map_cons, nodup_cons, map_eq_flatMap]
    refine ⟨fun hmem => ?_, nodup_flatMap_of_subperm hsub hhashes⟩
    obtain ⟨tx, htx, heq⟩ := mem_flatMap.mp hmem
    exact hcb.hash tx htx (mem_singleton.mp heq).symm
  · rw [flatMap_cons, hcb.inputs]
    exact nodup_flatMap_of_subperm hsub himages
  · rw [flatMap_cons, nodup_append']
    refine ⟨hcb.addresses, nodup_flatMap_of_subperm hsub haddresses, fun a ha hmem => ?_⟩
    obtain ⟨tx, htx, hatx⟩ := mem_flatMap.mp hmem
    exact hcb.fresh tx htx a hatx ha

/-! ## Concrete templates -/

/-- What the mempool of concrete runs calls. -/
def sampleMempoolEnv (E : Env) : MempoolEnv E :=
  { sampleValidator E with
    spendLtags := fun b => some [b]
    rangeProofEmpty := fun _ => false }

/-- A regtest network that runs the sample validator. -/
def regtestRules : Rules (sampleEnv .regtest 100) :=
  (sampleValidator _).rules _ fundedGenesis_height fundedGenesis_coinbase

/-- Spends two genesis outputs to two addresses. -/
def payTx (id : ℕ) (images : List KeyImage) (address change : PublicKey) : Transaction :=
  { txType := .transfer
    inputs := images.map fun ki => {
      keyImage := ki
      ringMembers := (List.range 11).map fun i => ⟨i + 1, Commitment.commit 30000000⟩
      signature := { keyImage := ki }
      pseudoOutputCommitment := Commitment.commit 30000000 }
    outputs := [revealedOutput address 30000000, revealedOutput change (30000000 - 100000)]
    fee := 100000
    extra := .bytes id }

/-- The mempool of the sample network. -/
def regtestMempool : MempoolEnv (sampleEnv .regtest 100) := sampleMempoolEnv _

/-- One of two transactions pays. -/
theorem congestionLoop_clears_two : ∃ packed, congestionLoop (sampleEnv .regtest 100) 3
      (10440, [payTx 1 [3, 4] 501 502, { txType := .transfer }]) = packed ∧
    ∀ tx ∈ packed.2, ClearsFloor (sampleEnv .regtest 100) packed.1 tx :=
  ⟨_, rfl, congestionLoop_clears (by decide)⟩

/-- Two residents with addresses of their own are packed together. -/
theorem template_jointly_minable_two :
    ∃ n m, Run.Reaches (step regtestRules) (fun _ _ => True) (genesisNode regtestRules none) n ∧
      Run.Reaches (Mempool.step regtestMempool) (PaysApart (sampleEnv .regtest 100))
        (Mempool.withMaxSize 1000000) m ∧
      (buildTemplateJson regtestMempool n m 0).transactions
        = [payTx 9002 [5, 6] 503 504, payTx 9001 [3, 4] 501 502] ∧
      crossTxErrors (sampleEnv .regtest 100)
        (minedBlock 10 200000 [payTx 9002 [5, 6] 503 504, payTx 9001 [3, 4] 501 502]) = [] := by
  simp only [exists_and_left]
  refine Run.exists_reaches_of_exec_guarded ((emptyBlocks 9).map .addBlock) (P := fun n => ∃ m,
    Run.exec (Run.guarded (Mempool.step regtestMempool) (PaysApart (sampleEnv .regtest 100)))
      (Mempool.withMaxSize 1000000) [.addWithChain n (payTx 9001 [3, 4] 501 502) 0,
        .addWithChain n (payTx 9002 [5, 6] 503 504) 0] = some m ∧
    (buildTemplateJson regtestMempool n m 0).transactions
      = [payTx 9002 [5, 6] 503 504, payTx 9001 [3, 4] 501 502]) (by decide +kernel) ?_
  intro n _ ⟨m, hm, htxs⟩
  have hreach := Run.reaches_of_exec_guarded hm
  have hblock : (minedBlock 10 200000
      [payTx 9002 [5, 6] 503 504, payTx 9001 [3, 4] 501 502]).transactions
      = coinbaseTx 10 [revealedOutput 1010 (calculateBlockReward 10 + 200000)]
        :: (buildTemplateJson regtestMempool n m 0).transactions := by
    rw [htxs]
    rfl
  refine ⟨m, hreach, htxs, template_jointly_minable hreach n 0 hblock ?_⟩
  rw [htxs]
  exact ⟨rfl, by decide, by decide, by decide⟩

/-- Two residents that pay to address 501: both are packed, and the block is refused, while either
alone makes a valid block. -/
theorem template_repeats_address :
    ∃ n m, Run.Reaches (step regtestRules) (fun _ _ => True) (genesisNode regtestRules none) n ∧
      Run.exec (Mempool.step regtestMempool) (Mempool.withMaxSize 1000000)
        [.addWithChain n (payTx 9001 [3, 4] 501 502) 0, .addWithChain n (payTx 9002 [5, 6] 501 504) 0]
        = some m ∧
      NetworkType.regtest.v1012RulesActive n.tip.height ∧
      (buildTemplateJson regtestMempool n m 0).transactions
        = [payTx 9002 [5, 6] 501 504, payTx 9001 [3, 4] 501 502] ∧
      validateBlockCtx regtestMempool.toValidator
        (minedBlock 10 200000 [payTx 9002 [5, 6] 501 504, payTx 9001 [3, 4] 501 502])
        (some (minedBlock 9 0 [])) n.utxos none true = [.duplicateStealth 501] ∧
      (∀ tx ∈ [payTx 9002 [5, 6] 501 504, payTx 9001 [3, 4] 501 502],
        validateBlockCtx regtestMempool.toValidator (minedBlock 10 100000 [tx])
          (some (minedBlock 9 0 [])) n.utxos none true = []) := by
  simp only [exists_and_left]
  apply Run.exists_reaches_of_exec ((emptyBlocks 9).map .addBlock)
  decide +kernel

end CoinCync

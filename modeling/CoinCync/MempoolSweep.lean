import CoinCync.KeyImages
import CoinCync.StealthOwnership
import CoinCync.Template

/-!
# Skipping the sweep of the mempool

After a block that merely extends the tip, `needs_full_revalidation_after_block` skips the sweep
`shadow_evict_invalid` unless the output age changes: `remove_confirmed` has dropped what the block
spends, and the rest is taken to be still valid. It is exactly when the block is `Undisturbed`: the
ring size does not step, the block pays to no address the transaction pays to, it does not create a
ring member again, and the v1.0.12 rules do not catch the transaction as they begin.
-/

namespace CoinCync

open Check List Option UtxoSet UtxoCore Mempool NetworkType

variable {E : Env} {C : Crypto} {net : NetworkType} {u : UtxoSet} {b : Block} {tx : Transaction}
  {h : ℕ} {x : PublicKey}

/-- `needs_full_revalidation_after_block`. -/
def needsFullRevalidationAfterBlock (isReorg : Bool) (net : NetworkType) (newHeight : ℕ) : Bool :=
  isReorg || decide (net.minOutputAge newHeight ≠ net.minOutputAge (newHeight - 1))

/-! ## The extended set -/

/-- The output a block leaves under a key. -/
def Block.outputAt (E : Env) (b : Block) (k : OutputKey) : Option NewOutput :=
  (b.transactions.flatMap (newOutputs E b.height)).reverse.find? (·.key = k)

/-- The addresses a block pays to. -/
def Block.addresses (b : Block) : List PublicKey := b.transactions.flatMap Transaction.addresses

/-- The outpoint the block enters for an address that has none. -/
def Block.keyOf (E : Env) (b : Block) (x : PublicKey) : Option OutputKey :=
  ((b.transactions.flatMap (newOutputs E b.height)).map fun a => (a.address, a.key)).lookup x

/-- The output the block leaves where an address leads. -/
def Block.placed (E : Env) (b : Block) (u : UtxoSet) (x : PublicKey) : Option NewOutput :=
  ((u.stealthIndex x).or (b.keyOf E x)).bind (b.outputAt E)

/-- The eviction at the height leaves the row. -/
def OutputIndexEntry.KeptAt (e : OutputIndexEntry) (height : ℕ) : Prop :=
  height ≤ 1000 ∨ height - 1000 ≤ e.height

instance (e : OutputIndexEntry) (height : ℕ) : Decidable (e.KeptAt height) :=
  inferInstanceAs (Decidable (_ ∨ _))

/-- The answer for an address after the rows of the block and the eviction. -/
def UtxoSet.rowAfter (u : UtxoSet) (b : Block) (x : PublicKey) : Option OutputIndexEntry :=
  let rows := outputRows b.height b.transactions
  (((u.outputIndex x).or (rows.lookup x)).filter (·.KeptAt b.height)).or
    ((commitRows u.db rows x).filter (·.validate))

lemma UtxoCore.outputs_foldl_addOutput_eq (l : List NewOutput) (u : UtxoCore) (k : OutputKey) :
    (l.foldl addOutput u).outputs k
      = ((l.reverse.find? (·.key = k)).map (·.ref)).or (u.outputs k) := by
  induction l generalizing u with
  | nil => rfl
  | cons a l ih =>
    rw [foldl_cons, ih, reverse_cons, find?_append]
    cases l.reverse.find? (·.key = k) with
    | some a' => rfl
    | none =>
      by_cases hk : a.key = k
      · subst hk
        simp [addOutput]
      · simp [addOutput, hk, Ne.symm hk]

/-- The outputs after the block. -/
lemma outputs_extend (u : UtxoSet) (b : Block) (k : OutputKey) :
    (u.extend E b).outputs k = ((b.outputAt E k).map (·.ref)).or (u.outputs k) := by
  rw [toUtxoCore_extend, UtxoCore.connectBlock_eq]
  exact outputs_foldl_addOutput_eq _ _ k

/-- Where addresses lead after it. -/
lemma stealthIndex_extend (u : UtxoSet) (b : Block) (x : PublicKey) :
    (u.extend E b).stealthIndex x = (u.stealthIndex x).or (b.keyOf E x) := by
  rw [toUtxoCore_extend, UtxoCore.connectBlock_eq]
  exact stealthIndex_foldl_addOutput_eq _ _ x

lemma Block.isSome_outputAt_of_keyOf (hk : b.keyOf E x = some k) : (b.outputAt E k).isSome := by
  obtain ⟨a, ha, heq⟩ := mem_map.mp (Table.mem_of_lookup_eq_some hk)
  rw [Block.outputAt, find?_isSome]
  exact ⟨a, mem_reverse.mpr ha, by simpa using (Prod.mk.inj heq).2⟩

/-- An address leads to the block's output, or where it led. -/
lemma getOutputByStealth_extend (u : UtxoSet) (b : Block) (x : PublicKey) :
    (u.extend E b).getOutputByStealth x
      = ((b.placed E u x).map (·.ref)).or (u.getOutputByStealth x) := by
  unfold getOutputByStealth Block.placed
  rw [stealthIndex_extend]
  cases hx : u.stealthIndex x with
  | some k => rw [some_or, bind_some, outputs_extend, bind_some, bind_some]
  | none =>
    cases hk : b.keyOf E x with
    | none => rfl
    | some k =>
      obtain ⟨a, ha⟩ := isSome_iff_exists.mp (Block.isSome_outputAt_of_keyOf hk)
      rw [none_or, bind_some, outputs_extend, bind_some, ha]
      rfl

lemma keyImages_extend (u : UtxoSet) (b : Block) :
    (u.extend E b).keyImages = u.keyImages ∪ b.keyImages.toFinset := by
  rw [toUtxoCore_extend, UtxoCore.keyImages_connectBlock]

lemma map_fst_outputRows_eq (b : Block) :
    (outputRows b.height b.transactions).map (·.1) = b.addresses := map_fst_outputRows _ _

/-- What the index answers after it. -/
lemma getOutputIndexEntry_extend (u : UtxoSet) (b : Block) (x : PublicKey) :
    (u.extend E b).getOutputIndexEntry x = u.rowAfter b x := by
  have hindex : (u.extend E b).outputIndex x = ((u.outputIndex x).or
      ((outputRows b.height b.transactions).lookup x)).filter (·.KeptAt b.height) := by
    show ((u.connectBlock E b.height b.transactions).evictOldOutputs b.height 1000).outputIndex x = _
    unfold evictOldOutputs OutputIndexEntry.KeptAt
    split
    · rename_i hlow
      rw [outputIndex_connectBlock_eq]
      cases (u.outputIndex x).or _ with
      | none => rfl
      | some e => exact (filter_eq_some_iff.mpr ⟨rfl, by simp [hlow]⟩).symm
    · rename_i hhigh
      simp [outputIndex_connectBlock_eq, hhigh]
  rw [getOutputIndexEntry, db_extend, hindex]
  rfl

/-- An unknown address stays so unless the block pays to it. -/
lemma UtxoSet.rowAfter_eq_none_iff (hx : u.getOutputIndexEntry x = none) :
    u.rowAfter b x = none ↔ x ∉ b.addresses := by
  obtain ⟨hindex, hdb⟩ := or_eq_none_iff.mp hx
  rw [rowAfter, hindex, ← map_fst_outputRows_eq]
  constructor
  · intro hnone hmem
    -- a row of the block is too young to be evicted
    obtain ⟨e, he⟩ := ne_none_iff_exists'.mp (mt Table.lookup_eq_none_iff_notMem.mp (not_not.mpr hmem))
    have hheight := height_of_mem_outputRows (Table.mem_of_lookup_eq_some he)
    have hkept : e.KeptAt b.height := Or.inr (hheight.symm ▸ Nat.sub_le _ _)
    simp [he, hkept] at hnone
  · intro hnot
    rw [Table.lookup_eq_none_iff_notMem.mpr hnot, commitRows_of_notMem hnot, hdb]
    rfl

/-! ## What is checked again -/

/-- A shielded check passed once passes later. -/
lemma checkShieldedTx_mono (hle : h ≤ h') (hok : checkShieldedTx C tx net h = .ok ()) :
    net.shieldBridgeEnabled h' = net.shieldBridgeEnabled h ∧ checkShieldedTx C tx net h' = .ok () := by
  have hactive : net.shieldedTxActiveAtHeight h' = net.shieldedTxActiveAtHeight h := by
    have hbefore := hok
    unfold checkShieldedTx shieldedTxActiveAtHeight at hbefore
    simp only [seq_eq_ok, require_eq_ok, decide_eq_true_eq] at hbefore
    unfold shieldedTxActiveAtHeight
    rw [decide_eq_decide]
    omega
  have hbridge : net.shieldBridgeEnabled h' = net.shieldBridgeEnabled h := by
    unfold shieldBridgeEnabled
    rw [hactive]
  refine ⟨hbridge, ?_⟩
  unfold checkShieldedTx at hok ⊢
  rwa [hbridge, hactive]

/-- The counts of a valid transfer. -/
lemma counts_of_validate (hcb : tx.isCoinbase = false) (hsh : tx.isShielded = false)
    (hok : validateTransaction C tx u h net = .ok ()) :
    checkTxInputOutputCounts tx (net.v1012RulesActive h) = .ok () := by
  have hparts := ((validate_transparent hcb hsh).mp hok).2
  simp only [checkTransparentTx, seq_eq_ok] at hparts
  exact hparts.2.2.1

/-- A later validation looks at a transfer's amount encoding and the inputs only. -/
lemma validate_again_iff (hle : h ≤ h') (hcb : tx.isCoinbase = false)
    (hok : validateTransaction C tx u h net = .ok ()) :
    validateTransaction C tx u' h' net = .ok () ↔
      (tx.isShielded = false → checkTxInputOutputCounts tx (net.v1012RulesActive h') = .ok ()) ∧
      (tx.inputs ≠ [] → InputsChecked C tx u' h' net) := by
  unfold validateTransaction at hok ⊢
  cases hsh : tx.isShielded with
  | false =>
    have hbefore := (validate_transparent hcb hsh).mp hok
    constructor
    · intro hagain
      exact ⟨fun _ => counts_of_validate hcb hsh hagain, inputsChecked_of_validate hcb hagain⟩
    · rintro ⟨hcounts, hinputs⟩
      rw [validate_transparent hcb hsh]
      refine ⟨hbefore.1, ?_⟩
      have hparts := hbefore.2
      unfold checkTransparentTx checkTxV2Activation at hparts ⊢
      simp only [seq_eq_ok, when_eq_ok, forall_const, require_eq_ok] at hparts ⊢
      obtain ⟨hv2, hcurve, -, hratio, hshape, -, hcap, -, hrange, hbalance⟩ := hparts
      have hin : tx.inputs ≠ [] := (inputsOutputs_of_validate hcb hsh hok).1
      obtain ⟨hds, hrm, hrs, hsig⟩ := hinputs hin
      exact ⟨fun hlow => hv2 ⟨hlow.1, by omega⟩, hcurve, hcounts rfl, hratio, hshape,
        ⟨hds, hrm, hrs⟩, hcap, hsig, hrange, hbalance⟩
  | true =>
    obtain ⟨hversion, hspark, hside⟩ := (validate_shielded hcb hsh).mp hok
    obtain ⟨hbridge, hspark'⟩ := checkShieldedTx_mono hle hspark
    constructor
    · exact fun hagain => ⟨by simp, inputsChecked_of_validate hcb hagain⟩
    · rintro ⟨-, hinputs⟩
      rw [validate_shielded hcb hsh, hbridge]
      refine ⟨hversion, hspark', fun hbr => ?_⟩
      have hparts := hside hbr
      unfold checkBridgeSide at hparts ⊢
      simp only [seq_eq_ok, when_eq_ok] at hparts ⊢
      obtain ⟨hcurve, hin, hrev⟩ := hparts
      refine ⟨hcurve, fun hne => ?_, hrev⟩
      obtain ⟨-, -, -, hcap, -, hrange⟩ := hin hne
      obtain ⟨hds, hrm, hrs, hsig⟩ := hinputs hne
      exact ⟨hds, hrm, hrs, hcap, hsig, hrange⟩

/-! ## The ring size -/

lemma v1012RulesActive_succ (hlow : h + 1 < 13000) :
    net.v1012RulesActive (h + 1) = net.v1012RulesActive h := by
  cases net
  all_goals simp only [v1012RulesActive]
  all_goals rw [decide_eq_decide]
  all_goals omega

lemma UtxoCore.keysThrough_subset_foldl (l : List NewOutput) (u : UtxoCore) (height : ℕ) :
    u.keysThrough height ⊆ (l.foldl addOutput u).keysThrough height := by
  induction l generalizing u with
  | nil => exact Finset.Subset.refl _
  | cons a l ih =>
    refine Finset.Subset.trans ?_ (ih (u.addOutput a))
    intro k hk
    unfold keysThrough at hk ⊢
    rw [Finset.mem_biUnion] at hk ⊢
    obtain ⟨i, hi, hmem⟩ := hk
    refine ⟨i, hi, ?_⟩
    simp only [addOutput, Function.update_apply]
    split
    · rename_i heq
      exact Finset.mem_insert_of_mem (heq ▸ hmem)
    · exact hmem

/-- Outputs do not become fewer. -/
lemma outputCount_extend (u : UtxoSet) (b : Block) (hle : h ≤ h') :
    u.outputCount h ≤ (u.extend E b).outputCount h' := by
  apply Finset.card_le_card
  rw [toUtxoCore_extend, UtxoCore.connectBlock_eq]
  refine Finset.Subset.trans (keysThrough_mono _ hle) ?_
  exact keysThrough_subset_foldl (b.transactions.flatMap (newOutputs E b.height)) _ _

/-- The outputs to draw a ring from do not become fewer. -/
lemma availableOutputs_extend (u : UtxoSet) (b : Block) (hle : h ≤ h') (active : Bool) :
    availableOutputs u h active ≤ availableOutputs (u.extend E b) h' active := by
  obtain ⟨htotal, hdisc⟩ := counters_extend (E := E) u b
  unfold availableOutputs
  split
  · omega
  · exact outputCount_extend u b hle

/-- The ring size of the bootstrap. -/
lemma effectiveRingSize_of_lt (hlow : h < 10000) :
    effectiveRingSize h available = min (max available 2) 11 := by
  simp only [effectiveRingSize, ringSizeAtHeight, if_pos hlow]
  split
  · omega
  · rw [if_neg (by omega)]

lemma effectiveRingSize_of_le (hhigh : 10000 ≤ h) : effectiveRingSize h available = 16 := by
  simp only [effectiveRingSize, ringSizeAtHeight, if_neg (not_lt.mpr hhigh)]
  split <;> rfl

/-- A ring of the bootstrap size stays right unless the size steps. -/
lemma effectiveRingSize_succ (hmin : 11 ≤ size) (hsize : size = effectiveRingSize h available)
    (hgrow : h + 1 < 10000 → available ≤ available') :
    size = effectiveRingSize (h + 1) available' ↔ h + 1 ≠ 10000 := by
  by_cases hlow : h < 10000
  · rw [effectiveRingSize_of_lt hlow] at hsize
    by_cases hlow' : h + 1 < 10000
    · rw [effectiveRingSize_of_lt hlow']
      omega
    · rw [effectiveRingSize_of_le (by omega)]
      omega
  · rw [effectiveRingSize_of_le (by omega)] at hsize
    rw [effectiveRingSize_of_le (by omega)]
    omega

/-! ## Ring members -/

/-- A row is what the member needs at the height. -/
def RingMemberFits (net : NetworkType) (height : ℕ) (m : RingMemberRef) (e : OutputIndexEntry) :
    Prop :=
  m.commitment = e.commitment ∧
    (e.isCoinbase → net.minOutputAge height ≤ height - e.height) ∧ e.lockHeight.getD 0 ≤ height

/-- The block leaves a ring member what it was. -/
structure MemberUndisturbed (E : Env) (u : UtxoSet) (b : Block) (m : RingMemberRef) : Prop where
  /-- An output of the block in the member's place is not its coinbase, and has the commitment and
  the lock the transaction needs. -/
  recreated : ∀ a, b.placed E u m.publicKey = some a → a.isCoinbase = false ∧
    m.commitment = a.output.commitment ∧ a.output.lockHeight.getD 0 ≤ b.height + 1
  /-- If the output age is raised with the next block, a coinbase output has the new age. -/
  matured : E.network.minOutputAge (b.height + 1) ≠ E.network.minOutputAge b.height →
    b.placed E u m.publicKey = none → ∀ r, u.getOutputByStealth m.publicKey = some r →
      r.isCoinbase → E.network.minOutputAge (b.height + 1) ≤ b.height + 1 - r.height
  /-- A member known by its row of the output index alone fits the row that is left. -/
  row : b.placed E u m.publicKey = none → u.getOutputByStealth m.publicKey = none →
    ∃ e, u.rowAfter b m.publicKey = some e ∧ RingMemberFits E.network (b.height + 1) m e

/-- An output of the block is too young as a coinbase member. -/
lemma not_mature_of_placed (ha : b.placed E u x = some a) :
    ¬ E.network.minOutputAge (b.height + 1) ≤ b.height + 1 - a.height := by
  obtain ⟨k, -, hat⟩ := bind_eq_some_iff.mp ha
  obtain ⟨tx, -, hmem⟩ := mem_flatMap.mp (mem_reverse.mp (mem_of_find?_eq_some hat))
  have hheight : a.height = b.height := height_of_mem_newOutputs hmem
  unfold minOutputAge
  split <;> omega

/-- What a ring member stands for one block later. -/
lemma ringMemberOk_succ_iff (hok : RingMemberOk E.network u b.height m) :
    RingMemberOk E.network (u.extend E b) (b.height + 1) m ↔ MemberUndisturbed E u b m := by
  have hafter : RingMemberOk E.network (u.extend E b) (b.height + 1) m ↔
      ∃ e, resolveRingMember (u.extend E b) m.publicKey = some e ∧
        RingMemberFits E.network (b.height + 1) m e := Iff.rfl
  rw [hafter]
  rw [resolveRingMember, getOutputByStealth_extend, getOutputIndexEntry_extend]
  cases hplaced : b.placed E u m.publicKey with
  | some a =>
    have hyoung := not_mature_of_placed hplaced
    simp only [map_some, some_or, some.injEq, exists_eq_left', NewOutput.ref]
    constructor
    · rintro ⟨hcommit, hage, hlock⟩
      refine ⟨fun a' ha' => ?_, fun _ hnone => ?_, fun hnone => ?_⟩
      · obtain rfl := mem_unique hplaced ha'
        refine ⟨?_, hcommit, hlock⟩
        by_contra hcb
        exact hyoung (hage (by simpa using hcb))
      · simp [hplaced] at hnone
      · simp [hplaced] at hnone
    · intro hund
      obtain ⟨hcb, hcommit, hlock⟩ := hund.recreated a hplaced
      exact ⟨hcommit, fun hc => by simp [hcb] at hc, hlock⟩
  | none =>
    rw [map_none, none_or]
    cases hget : u.getOutputByStealth m.publicKey with
    | none =>
      constructor
      · intro hrow
        exact ⟨fun a ha => by simp [hplaced] at ha, fun _ _ r hr => by simp [hget] at hr,
          fun _ _ => hrow⟩
      · exact fun hund => hund.row hplaced hget
    | some r =>
      obtain ⟨e, he, hcommit, hmature, hlock⟩ := hok
      obtain rfl : _ = e := by simpa [resolveRingMember, hget] using he
      simp only [some.injEq, exists_eq_left', RingMemberFits]
      constructor
      · rintro ⟨-, hage, -⟩
        refine ⟨fun a ha => by simp [hplaced] at ha, fun _ _ r' hr' hcb => ?_,
          fun _ hnone => by simp [hget] at hnone⟩
        obtain rfl := mem_unique hget hr'
        exact hage hcb
      · intro hund
        refine ⟨hcommit, fun hcb => ?_, Nat.le_succ_of_le hlock⟩
        by_cases hstep : E.network.minOutputAge (b.height + 1) = E.network.minOutputAge b.height
        · have hold : E.network.minOutputAge b.height ≤ b.height - r.height := hmature hcb
          omega
        · exact hund.matured hstep hplaced r hget hcb

/-! ## The sweep -/

/-- The block leaves the transaction what it was validated with. -/
structure Undisturbed (E : Env) (u : UtxoSet) (b : Block) (tx : Transaction) : Prop where
  /-- The next block is not the first with the larger ring size. -/
  ringSize : tx.inputs ≠ [] → b.height + 1 ≠ 10000
  /-- The block leaves its ring members what they were. -/
  members : ∀ input ∈ tx.inputs, ∀ m ∈ input.ringMembers, MemberUndisturbed E u b m
  /-- The block pays to no address of the transaction. -/
  addresses : tx.inputs ≠ [] → E.network.v1012RulesActive b.height →
    ∀ x ∈ tx.addresses, x ∉ b.addresses
  /-- If the v1.0.12 rules begin, the transaction meets those it was not validated under. -/
  activation : E.network.v1012RulesActive b.height = false →
    E.network.v1012RulesActive (b.height + 1) →
    (tx.inputs ≠ [] → tx.addresses.Nodup ∧ ∀ x ∈ tx.addresses, u.rowAfter b x = none) ∧
    (tx.isShielded = false → ∀ o ∈ tx.outputs, o.encryptedAmount.length = 8)

/-- What the mempool has checked of a resident. -/
lemma residentFields_of_preflight (hpre : preflightCheck K tx = .ok ()) :
    tx.isCoinbase = false ∧ (∀ input ∈ tx.inputs, 11 ≤ input.ringMembers.length) ∧
      ∀ o ∈ tx.outputs, o.encryptedMemo.length ≤ maxOutputMemoSize := by
  unfold preflightCheck validateTransactionBasic checkMandatoryPrivacy checkOutputFields at hpre
  simp only [seq_eq_ok, when_eq_ok, require_eq_ok, all_eq_ok] at hpre
  obtain ⟨hcb, ⟨-, -, -, -, -, -, -, hprivacy, -, -, -, hfields, -⟩, -⟩ := hpre
  exact ⟨by simpa using hcb, (hprivacy hcb).1, fun o ho => (hfields o ho).2.2⟩

/-- Only the amount encoding can fail later. -/
lemma checkTxInputOutputCounts_succ_iff
    (hmemo : ∀ o ∈ tx.outputs, o.encryptedMemo.length ≤ maxOutputMemoSize)
    (hok : checkTxInputOutputCounts tx (net.v1012RulesActive h) = .ok ()) :
    checkTxInputOutputCounts tx (net.v1012RulesActive (h + 1)) = .ok () ↔
      (net.v1012RulesActive h = false → net.v1012RulesActive (h + 1) →
        ∀ o ∈ tx.outputs, o.encryptedAmount.length = 8) := by
  have hfields : forIdx tx.outputs (fun i o => do
      require (o.encryptedAmount.length = 8) (.encryptedAmountLength i o.encryptedAmount.length)
      require (o.encryptedMemo.length ≤ maxOutputMemoSize)
        (TxError.encryptedMemoLength i o.encryptedMemo.length)) = .ok () ↔
      ∀ o ∈ tx.outputs, o.encryptedAmount.length = 8 ∧ o.encryptedMemo.length ≤ maxOutputMemoSize :=
    forIdx_eq_ok_iff fun i o => by simp
  unfold checkTxInputOutputCounts at hok ⊢
  simp only [seq_eq_ok, when_eq_ok, hfields] at hok ⊢
  obtain ⟨hin, hout, hbefore, hins, houts⟩ := hok
  constructor
  · intro hnext _ hactive o ho
    exact (hnext.2.2.1 hactive o ho).1
  · intro hnext
    refine ⟨hin, hout, fun hactive o ho => ?_, hins, houts⟩
    cases hnow : net.v1012RulesActive h with
    | true => exact hbefore hnow o ho
    | false => exact ⟨hnext hnow hactive o ho, hmemo o ho⟩

/-- The transaction has new addresses if the next height asks for them. -/
abbrev NewNext (E : Env) (u : UtxoSet) (b : Block) (tx : Transaction) : Prop :=
  E.network.v1012RulesActive (b.height + 1) → tx.addresses.Nodup ∧
    ∀ x ∈ tx.addresses, u.rowAfter b x = none

/-- The set checks that can fail one block later. -/
lemma inputsChecked_succ_iff (hring : ∀ input ∈ tx.inputs, 11 ≤ input.ringMembers.length)
    (hspent : ∀ ki ∈ tx.keyImages, ki ∉ b.keyImages) (hne : tx.inputs ≠ [])
    (hok : InputsChecked C tx u b.height E.network) :
    InputsChecked C tx (u.extend E b) (b.height + 1) E.network ↔
      b.height + 1 ≠ 10000 ∧
      (∀ input ∈ tx.inputs, ∀ m ∈ input.ringMembers, MemberUndisturbed E u b m) ∧ NewNext E u b tx := by
  have hds : checkTxNoDoubleSpend tx (u.extend E b) = .ok () := by
    obtain ⟨hnd, hfree⟩ := checkTxNoDoubleSpend_eq_ok.mp hok.doubleSpend
    refine checkTxNoDoubleSpend_eq_ok.mpr ⟨hnd, fun input hin hmem => ?_⟩
    rw [keyImages_extend, Finset.mem_union, List.mem_toFinset] at hmem
    rcases hmem with hmem | hmem
    · exact hfree input hin hmem
    · exact hspent _ (mem_map.mpr ⟨input, hin, rfl⟩) hmem
  have hsize : checkTxRingSizeAndUniqueMembers tx (u.extend E b) (b.height + 1)
      (E.network.v1012RulesActive (b.height + 1)) = .ok () ↔ b.height + 1 ≠ 10000 := by
    have hbefore := checkTxRingSizeAndUniqueMembers_eq_ok.mp hok.ringSizes
    have hgrow : b.height + 1 < 10000 →
        availableOutputs u b.height (E.network.v1012RulesActive b.height) ≤ availableOutputs
          (u.extend E b) (b.height + 1) (E.network.v1012RulesActive (b.height + 1)) := by
      intro hlow
      rw [v1012RulesActive_succ (by omega)]
      exact availableOutputs_extend u b (Nat.le_succ _) _
    have hsucc : ∀ input ∈ tx.inputs, input.ringMembers.length = effectiveRingSize (b.height + 1)
        (availableOutputs (u.extend E b) (b.height + 1)
          (E.network.v1012RulesActive (b.height + 1))) ↔ b.height + 1 ≠ 10000 :=
      fun input hin => effectiveRingSize_succ (hring input hin) (hbefore input hin).1 hgrow
    rw [checkTxRingSizeAndUniqueMembers_eq_ok]
    constructor
    · intro hall
      obtain ⟨input, hin⟩ := exists_mem_of_ne_nil _ hne
      exact (hsucc input hin).mp (hall input hin).1
    · exact fun hstep input hin => ⟨(hsucc input hin).mpr hstep, (hbefore input hin).2⟩
  have hmembers : checkTxRingMembers E.network tx (u.extend E b) (b.height + 1)
      (E.network.v1012RulesActive (b.height + 1)) = .ok () ↔
      (∀ input ∈ tx.inputs, ∀ m ∈ input.ringMembers, MemberUndisturbed E u b m) ∧ NewNext E u b tx := by
    have hbefore := (checkTxRingMembers_eq_ok.mp hok.ringMembers).2
    rw [checkTxRingMembers_eq_ok, and_comm]
    refine and_congr ?_ ?_
    · exact forall₂_congr fun input hin => forall₂_congr fun m hm =>
        ringMemberOk_succ_iff (hbefore input hin m hm)
    · simp only [NewNext, getOutputIndexEntry_extend, Transaction.addresses, List.mem_map,
        forall_exists_index, and_imp, forall_apply_eq_imp_iff₂]
  constructor
  · intro hnext
    exact ⟨hsize.mp hnext.ringSizes, hmembers.mp hnext.ringMembers⟩
  · rintro ⟨hstep, hrest⟩
    exact ⟨hds, hmembers.mpr hrest, hsize.mpr hstep, hok.signatures⟩

/-- Addresses are new again if the block pays to none, or the rule just begins. -/
lemma addresses_succ_iff (hok : InputsChecked C tx u b.height E.network) :
    NewNext E u b tx ↔
      (E.network.v1012RulesActive b.height → ∀ x ∈ tx.addresses, x ∉ b.addresses) ∧
      (E.network.v1012RulesActive b.height = false → E.network.v1012RulesActive (b.height + 1) →
        tx.addresses.Nodup ∧ ∀ x ∈ tx.addresses, u.rowAfter b x = none) := by
  cases hnow : E.network.v1012RulesActive b.height with
  | false => simp
  | true =>
    obtain ⟨hnd, hunknown⟩ := (checkTxRingMembers_eq_ok.mp hok.ringMembers).1 hnow
    have hrow : ∀ x ∈ tx.addresses, u.rowAfter b x = none ↔ x ∉ b.addresses := by
      intro x hx
      obtain ⟨o, ho, rfl⟩ := mem_map.mp hx
      exact rowAfter_eq_none_iff (hunknown o ho)
    constructor
    · intro hnext
      have hnew := (hnext (v1012RulesActive_mono (Nat.le_succ _) hnow)).2
      exact ⟨fun _ x hx => (hrow x hx).mp (hnew x hx), fun hoff => by simp at hoff⟩
    · intro hpaid _
      exact ⟨hnd, fun x hx => (hrow x hx).mpr (hpaid.1 rfl x hx)⟩

/-- For every resident of every reachable mempool that validates on the tip, and every valid block
on it after which the sweep is skipped: if the block's confirmation does not remove the resident, it
still validates iff the block leaves it undisturbed. -/
theorem resident_still_valid_iff {K : MempoolEnv E} {m : Mempool} {maxSize : ℕ}
    (hm : Run.Reaches (Mempool.step K) (fun _ _ => True) (Mempool.withMaxSize maxSize) m)
    {parent : Block} {checkpoint : Option ℕ}
    (hb : validateBlockCtx K.toValidator b (some parent) u checkpoint true = [])
    (_hskip : needsFullRevalidationAfterBlock false E.network b.height = false)
    {r : Hash × MempoolEntry} (hr : r ∈ (m.removeConfirmed K b.transactions).transactions)
    (hok : validateTransaction K.toCrypto r.2.tx u (parent.height + 1) E.network = .ok ()) :
    validateTransaction K.toCrypto r.2.tx (u.extend E b) (b.height + 1) E.network = .ok () ↔
      Undisturbed E u b r.2.tx := by
  obtain ⟨hcb, hring, hmemo⟩ := residentFields_of_preflight
    (preflight_of_reaches hm r (mem_of_mem_removeConfirmed hr))
  have hheight : b.height = parent.height + 1 :=
    (headerErrors_eq_nil (headerErrors_of_valid hb) parent rfl).1
  rw [← hheight] at hok
  have hspent : ∀ ki ∈ r.2.tx.keyImages, ki ∉ b.keyImages := by
    intro ki hki hmem
    obtain ⟨tx, htx, hkitx⟩ := mem_flatMap.mp hmem
    exact (coherent_of_reaches hm).removeConfirmed_disjoint hr tx htx ki
      (mem_keyImages_of_spent hkitx) hki
  have hinputs : ∀ hne : r.2.tx.inputs ≠ [], _ := fun hne =>
    have hbefore := inputsChecked_of_validate hcb hok hne
    (inputsChecked_succ_iff hring hspent hne hbefore).trans
      (and_congr_right fun _ => and_congr_right fun _ => addresses_succ_iff hbefore)
  have hcounts : ∀ hsh : r.2.tx.isShielded = false, _ := fun hsh =>
    checkTxInputOutputCounts_succ_iff hmemo (counts_of_validate hcb hsh hok)
  rw [validate_again_iff (Nat.le_succ _) hcb hok]
  constructor
  · rintro ⟨hamounts, hchecked⟩
    have hall := fun hne => (hinputs hne).mp (hchecked hne)
    refine ⟨fun hne => (hall hne).1, fun input hin => ?_, fun hne => (hall hne).2.2.1, ?_⟩
    · exact (hall (ne_nil_of_mem hin)).2.1 input hin
    · intro hnow hactive
      exact ⟨fun hne => (hall hne).2.2.2 hnow hactive,
        fun hsh => (hcounts hsh).mp (hamounts hsh) hnow hactive⟩
  · intro hund
    refine ⟨fun hsh => (hcounts hsh).mpr fun hnow hactive => ?_, fun hne => (hinputs hne).mpr ?_⟩
    · exact (hund.activation hnow hactive).2 hsh
    · exact ⟨hund.ringSize hne, hund.members, hund.addresses hne,
        fun hnow hactive => (hund.activation hnow hactive).1 hne⟩

/-- A resident that shares nothing with the block stays valid, and is undisturbed. -/
theorem resident_still_valid_iff_apart :
    ∃ n m r, Run.Reaches (step regtestRules) (fun _ _ => True) (genesisNode regtestRules none) n ∧
      Run.Reaches (Mempool.step regtestMempool) (fun _ _ => True) (Mempool.withMaxSize 1000000) m ∧
      r ∈ (m.removeConfirmed regtestMempool
        (minedBlock 10 100000 [payTx 9001 [3, 4] 501 502]).transactions).transactions ∧
      r.2.tx = payTx 9002 [5, 6] 503 504 ∧
      Undisturbed (sampleEnv .regtest 100) n.utxos
        (minedBlock 10 100000 [payTx 9001 [3, 4] 501 502]) r.2.tx := by
  have hrun : ∃ n, Run.exec (step regtestRules) (genesisNode regtestRules none)
        ((emptyBlocks 9).map .addBlock) = some n ∧
      ∃ m, Run.exec (Mempool.step regtestMempool) (Mempool.withMaxSize 1000000)
          [.addWithChain n (payTx 9001 [3, 4] 501 502) 0,
            .addWithChain n (payTx 9002 [5, 6] 503 504) 0] = some m ∧
        ((m.removeConfirmed regtestMempool
          (minedBlock 10 100000 [payTx 9001 [3, 4] 501 502]).transactions).transactions.map
            (·.2.tx)) = [payTx 9002 [5, 6] 503 504] ∧
        validateBlockCtx regtestMempool.toValidator
          (minedBlock 10 100000 [payTx 9001 [3, 4] 501 502]) (some (minedBlock 9 0 []))
          n.utxos none true = [] ∧
        validateTransaction regtestMempool.toCrypto (payTx 9002 [5, 6] 503 504) n.utxos 10 .regtest
          = .ok () ∧
        validateTransaction regtestMempool.toCrypto (payTx 9002 [5, 6] 503 504)
          (n.utxos.extend (sampleEnv .regtest 100)
            (minedBlock 10 100000 [payTx 9001 [3, 4] 501 502])) 11 .regtest = .ok () := by
    decide +kernel
  obtain ⟨n, hn, m, hm, htxs, hvalid, hbefore, hafter⟩ := hrun
  obtain ⟨r, hr, htx⟩ := List.mem_map.mp (htxs ▸ mem_singleton_self _)
  have hreach := Run.reaches_of_exec hm
  refine ⟨n, m, r, Run.reaches_of_exec hn, hreach, hr, htx, ?_⟩
  exact (resident_still_valid_iff hreach hvalid rfl hr (htx ▸ hbefore)).mp (htx ▸ hafter)

/-- Two residents pay to address 501. The block with one of them does not remove the other, the
sweep is skipped, and the other is refused from then on. -/
theorem resident_invalid_after_extension :
    ∃ n m n', Run.Reaches (step regtestRules) (fun _ _ => True) (genesisNode regtestRules none) n ∧
      Run.exec (Mempool.step regtestMempool) (Mempool.withMaxSize 1000000)
        [.addWithChain n (payTx 9001 [3, 4] 501 502) 0,
          .addWithChain n (payTx 9002 [5, 6] 501 504) 0] = some m ∧
      validateBlockCtx regtestMempool.toValidator
        (minedBlock 10 100000 [payTx 9001 [3, 4] 501 502]) (some (minedBlock 9 0 [])) n.utxos none
        true = [] ∧
      addBlock regtestRules n (minedBlock 10 100000 [payTx 9001 [3, 4] 501 502])
        = some (n', .ok .accepted) ∧
      needsFullRevalidationAfterBlock false .regtest 10 = false ∧
      ((m.removeConfirmed regtestMempool
        (minedBlock 10 100000 [payTx 9001 [3, 4] 501 502]).transactions).transactions.map (·.2.tx))
        = [payTx 9002 [5, 6] 501 504] ∧
      n.validateTransaction regtestMempool.toValidator (payTx 9002 [5, 6] 501 504) = .ok () ∧
      n'.validateTransaction regtestMempool.toValidator (payTx 9002 [5, 6] 501 504)
        = .error (.stealthCollides 0) := by
  simp only [exists_and_left]
  apply Run.exists_reaches_of_exec ((emptyBlocks 9).map .addBlock)
  decide +kernel

end CoinCync

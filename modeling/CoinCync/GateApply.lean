import CoinCync.SparkBatch
import CoinCync.StealthOwnership
import Mathlib.Logic.Equiv.List

/-!
# What the Spark gate lets through can be applied

The gate looks at each transaction against the pool before the block; the application runs through
the block and halts the process on the first inconsistency. `Appliable` is what lets it run on. Two
mints of a block have distinct outpoints because their key images differ, and a mint always has
inputs. The guard at the end of an application also looks at what was in the pool before.
-/

namespace CoinCync

open Check List Option SparkPool PoolContents Encodable

variable {E : Env} {W : Validator E} {C : Crypto} {pool p : PoolContents} {height : ℕ}
  {items : List (Transaction × SparkPayload)}
variable {item : Transaction × SparkPayload} {txs : List Transaction}

/-! ## Assumptions -/

/-- The batch verifier returns the tags of the bundles. -/
def TagsAgree (E : Env) (C : Crypto) : Prop :=
  ∀ cover spends tags, C.verifySpendBatch cover spends = some tags →
    tags.map some = spends.map fun s => E.spendTags s.1

/-- Mints have distinct outpoints, and no coin of a spend has one. -/
structure OutpointsDistinct (E : Env) : Prop where
  derive : ∀ images images' i j, E.deriveOutpoint images i = E.deriveOutpoint images' j →
    images.Perm images' ∧ i = j
  coinId : ∀ coin images i, E.coinId coin ≠ E.deriveOutpoint images i

/-! ## The tags of the batch -/

/-- The linking tags of a payload; a mint has none. -/
def SparkPayload.tags (E : Env) (p : SparkPayload) : List Tag :=
  (p.spend.bind fun sb => E.spendTags sb.bundle).getD []

/-- The tags of a payload can be read, and none is spent in the pool. -/
def SparkPayload.TagsOk (E : Env) (pool : PoolContents) (p : SparkPayload) : Prop :=
  ∀ sb ∈ p.spend, ∃ tags, E.spendTags sb.bundle = some tags ∧ ∀ t ∈ tags, pool.isTagSpent t = false

/-- The batch returns all tags in order; none is spent. -/
lemma verifySparkPayloadsBatch_eq_some (hT : TagsAgree E C)
    (h : verifySparkPayloadsBatch C pool items = some tags) :
    tags = items.map (fun item => item.2.tags E) ∧ ∀ item ∈ items, item.2.TagsOk E pool := by
  have hmap := map_some_of_batch hT h
  have hsingle : ∀ item ∈ items,
      verifySparkSpend (fun _ s => E.spendTags s.1) pool item = some (item.2.tags E) ∧
        item.2.TagsOk E pool := by
    intro item hitem
    obtain ⟨ts, -, hts⟩ := mem_map.mp (hmap ▸ mem_map_of_mem hitem)
    cases hsb : item.2.spend with
    | none => simp [verifySparkSpend, SparkPayload.tags, SparkPayload.TagsOk, hsb]
    | some sb =>
      have hown := hts.symm
      simp only [verifySparkSpend, hsb, verifySolvency, ite_none_left_eq_some,
        filter_eq_some_iff] at hown
      obtain ⟨-, htags, hunspent⟩ := hown
      rw [← hts]
      refine ⟨by simp [SparkPayload.tags, hsb, htags], fun sb' hsb' => ?_⟩
      obtain rfl := mem_unique hsb hsb'
      exact ⟨ts, htags, by simpa using hunspent⟩
  refine ⟨map_injective_iff.mpr (some_injective _) ?_, fun item hitem => (hsingle item hitem).2⟩
  rw [hmap, List.map_map]
  exact map_congr_left fun item hitem => (hsingle item hitem).1

/-! ## The operations of the pool -/

namespace PoolContents

lemma isTagSpent_eq_false : p.isTagSpent t = false ↔ t ∉ p.spentTags.map (·.1) := by
  simp only [isTagSpent, List.any_eq_false, decide_eq_true_eq, List.mem_map, not_exists, not_and]

lemma hasOutpoint_eq_false : p.hasOutpoint op = false ↔ op ∉ p.coins.map (·.outpoint) := by
  simp [hasOutpoint]

/-- Distinct tags of which none is spent are all marked. -/
lemma foldlM_markTagSpent {tags : List Tag} (hnodup : tags.Nodup)
    (hunspent : ∀ t ∈ tags, t ∉ p.spentTags.map (·.1)) :
    tags.foldlM (fun p tag => p.markTagSpent height tag) p
      = some { p with spentTags := p.spentTags ++ tags.map (·, height) } := by
  induction tags generalizing p with
  | nil => simp
  | cons t tags ih =>
    obtain ⟨ht, hnodup⟩ := nodup_cons.mp hnodup
    have hfree : p.isTagSpent t = false := isTagSpent_eq_false.mpr (hunspent t mem_cons_self)
    rw [foldlM_cons, markTagSpent, hfree]
    simp only [Bool.false_eq_true, if_false, bind_eq_bind, bind_some]
    rw [ih hnodup]
    · simp
    · intro x hx
      have hne : x ≠ t := fun e => ht (e ▸ hx)
      simp only [map_append, map_cons, map_nil, mem_append, mem_singleton, not_or]
      exact ⟨hunspent x (mem_cons_of_mem t hx), hne⟩

/-- Coins at distinct free outpoints are all added. -/
lemma foldlM_addCoin {coins : List SparkPoolCoin} (hnodup : (coins.map (·.outpoint)).Nodup)
    (hnew : ∀ c ∈ coins, c.outpoint ∉ p.coins.map (·.outpoint)) :
    coins.foldlM addCoin p = some { p with coins := p.coins ++ coins } := by
  induction coins generalizing p with
  | nil => simp
  | cons c coins ih =>
    obtain ⟨hc, hnodup⟩ := nodup_cons.mp hnodup
    have hfree : p.hasOutpoint c.outpoint = false :=
      hasOutpoint_eq_false.mpr (hnew c mem_cons_self)
    rw [foldlM_cons, addCoin, hfree]
    simp only [Bool.false_eq_true, if_false, bind_eq_bind, bind_some]
    rw [ih hnodup]
    · simp
    · intro x hx
      have hne : x.outpoint ≠ c.outpoint := fun e => hc (mem_map.mpr ⟨x, hx, e⟩)
      simp only [map_append, map_cons, map_nil, mem_append, mem_singleton, not_or]
      exact ⟨hnew x (mem_cons_of_mem c hx), hne⟩

end PoolContents

/-- A spend adds coins under their ids, and nothing else. -/
lemma addSpendOutputs_eq (p : PoolContents) (bundle : Bytes) :
    ∃ coins, addSpendOutputs E p height bundle = { p with coins := p.coins ++ coins } ∧
      ∀ c ∈ coins, (∃ coin, c.outpoint = E.coinId coin) ∧ c.height = height := by
  unfold addSpendOutputs
  cases E.spendOutputs bundle with
  | none => exact ⟨[], by simp, by simp⟩
  | some out =>
    obtain ⟨outs, ctx⟩ := out
    simp only
    induction outs generalizing p with
    | nil => exact ⟨[], by simp, by simp⟩
    | cons x outs ih =>
      rw [foldl_cons, addCoin]
      split
      · exact ih p
      · obtain ⟨coins, heq, hcoins⟩ := ih { p with
          coins := p.coins ++ [⟨E.coinId x, x, ctx, height⟩] }
        refine ⟨⟨E.coinId x, x, ctx, height⟩ :: coins, ?_, ?_⟩
        · rw [getD_some, heq]
          simp
        · intro c hc
          rcases mem_cons.mp hc with rfl | hc
          · exact ⟨⟨x, rfl⟩, rfl⟩
          · exact hcoins c hc

/-! ## Running on -/

/-- The outpoints of a transaction's mint. -/
def mintOutpoints (E : Env) (item : Transaction × SparkPayload) : List Hash :=
  match item.2.mint.bind E.verifyMintBundle with
  | none => []
  | some (_, coins) => (mintCoins E item.1 coins 0).map (·.outpoint)

/-- Outpoints do not depend on the height. -/
lemma map_outpoint_mintCoins (tx : Transaction) (coins : List Bytes) (h h' : ℕ) :
    (mintCoins E tx coins h).map (·.outpoint) = (mintCoins E tx coins h').map (·.outpoint) := by
  apply ext_getElem
  · simp [mintCoins]
  · simp [mintCoins]

/-- What lets the rest of a block be applied to the pool. -/
structure Appliable (E : Env) (p : PoolContents) (items : List (Transaction × SparkPayload)) :
    Prop where
  bare : ∀ item ∈ items, item.2.outputs = []
  bundles : ∀ item ∈ items, ∀ sb ∈ item.2.spend, (E.spendTags sb.bundle).isSome
  mints : ∀ item ∈ items, ∀ mint ∈ item.2.mint, (E.verifyMintBundle mint).isSome
  tags : (items.flatMap fun item => item.2.tags E).Nodup
  unspent : ∀ t ∈ items.flatMap fun item => item.2.tags E, t ∉ p.spentTags.map (·.1)
  outpoints : (items.flatMap (mintOutpoints E)).Nodup
  new : ∀ op ∈ items.flatMap (mintOutpoints E), op ∉ p.coins.map (·.outpoint)
  noCoinId : ∀ op ∈ items.flatMap (mintOutpoints E), ∀ coin, E.coinId coin ≠ op
  value : ∀ done, done <+: items → 0 ≤ p.poolValue - (done.map (·.2.valueBalance)).sum

/-- What one transaction does to the pool. -/
structure Applied (E : Env) (height : ℕ) (item : Transaction × SparkPayload) (p q : PoolContents) :
    Prop where
  tags : q.spentTags = p.spentTags ++ (item.2.tags E).map (·, height)
  value : q.poolValue = p.poolValue - item.2.valueBalance
  coins : ∃ coins, q.coins = p.coins ++ coins ∧ ∀ c ∈ coins, c.height = height ∧
    (c.outpoint ∈ mintOutpoints E item ∨ ∃ coin, c.outpoint = E.coinId coin)

/-- The rest stays appliable. -/
lemma Appliable.tail (h : Appliable E p (item :: items))
    (hq : Applied E height item p q) : Appliable E q items := by
  have htags := h.tags
  have houts := h.outpoints
  rw [flatMap_cons, nodup_append'] at htags houts
  have hmints := (sublist_cons_self item items).flatMap (mintOutpoints E)
  exact {
    bare := fun x hx => h.bare x (mem_cons_of_mem item hx)
    bundles := fun x hx => h.bundles x (mem_cons_of_mem item hx)
    mints := fun x hx => h.mints x (mem_cons_of_mem item hx)
    tags := htags.2.1
    unspent := by
      intro t ht hmem
      rw [hq.tags, map_append, mem_append, List.map_map] at hmem
      rcases hmem with hmem | hmem
      · exact h.unspent t (((sublist_cons_self item items).flatMap _).mem ht) hmem
      · obtain ⟨t', ht', rfl⟩ := mem_map.mp hmem
        exact htags.2.2 ht' ht
    outpoints := houts.2.1
    new := by
      intro op hop hmem
      obtain ⟨coins, hcoins, hfrom⟩ := hq.coins
      rw [hcoins, map_append, mem_append] at hmem
      rcases hmem with hmem | hmem
      · exact h.new op (hmints.mem hop) hmem
      · obtain ⟨c, hc, rfl⟩ := mem_map.mp hmem
        rcases (hfrom c hc).2 with hmint | ⟨coin, hcoin⟩
        · exact houts.2.2 hmint hop
        · exact h.noCoinId _ (hmints.mem hop) coin hcoin.symm
    noCoinId := fun op hop => h.noCoinId op (hmints.mem hop)
    value := by
      intro done hdone
      have hpre := h.value (item :: done) (cons_prefix_cons.mpr ⟨rfl, hdone⟩)
      rw [map_cons, sum_cons] at hpre
      rw [hq.value]
      omega }

section

variable (h : Appliable E p ((tx, payload) :: items))
include h

/-- The tags are read off the bundle. -/
lemma Appliable.spendTags :
    (match payload.spend with
      | some sb => E.spendTags sb.bundle
      | none => some []) = some (payload.tags E) := by
  unfold SparkPayload.tags
  cases hsb : payload.spend with
  | none => rfl
  | some sb =>
    obtain ⟨tags, htags⟩ := isSome_iff_exists.mp (h.bundles _ mem_cons_self sb hsb)
    simp [htags]

lemma Appliable.applySparkPayload :
    applySparkPayload E p tx payload (payload.tags E) height
      = some { p with spentTags := p.spentTags ++ (payload.tags E).map (·, height) } := by
  have htags := h.tags
  rw [flatMap_cons, nodup_append'] at htags
  unfold CoinCync.applySparkPayload
  rw [foldlM_markTagSpent htags.1, h.bare (tx, payload) mem_cons_self]
  · rfl
  · intro t ht
    refine h.unspent t ?_
    rw [flatMap_cons]
    exact mem_append_left _ ht

/-- The coins of the mint are added. -/
lemma Appliable.mint (height : ℕ) (tags : List (Tag × ℕ)) :
    ∃ coins, (match payload.mint with
      | some mint => do
        let (_, coins) ← E.verifyMintBundle mint
        (mintCoins E tx coins height).foldlM addCoin { p with spentTags := tags }
      | none => some { p with spentTags := tags })
        = some { p with spentTags := tags, coins := p.coins ++ coins } ∧
      ∀ c ∈ coins, c.height = height ∧ c.outpoint ∈ mintOutpoints E (tx, payload) := by
  cases hm : payload.mint with
  | none => exact ⟨[], by simp, by simp⟩
  | some mint =>
    obtain ⟨⟨total, coins⟩, hverify⟩ :=
      isSome_iff_exists.mp (h.mints _ mem_cons_self mint hm)
    have hown : mintOutpoints E (tx, payload) = (mintCoins E tx coins height).map (·.outpoint) := by
      simp only [mintOutpoints, hm, bind_some, hverify]
      exact map_outpoint_mintCoins tx coins 0 height
    have houts := h.outpoints
    have hnew := h.new
    rw [flatMap_cons, hown] at houts hnew
    refine ⟨mintCoins E tx coins height, ?_, ?_⟩
    · simp only [hverify, bind_eq_bind, bind_some]
      rw [foldlM_addCoin (nodup_append'.mp houts).1]
      intro c hc
      exact hnew c.outpoint (mem_append_left _ (mem_map_of_mem hc))
    · intro c hc
      rw [hown]
      refine ⟨?_, mem_map_of_mem hc⟩
      obtain ⟨i, hi, rfl⟩ := mem_mapIdx.mp hc
      rfl

end

/-- The stages of applying one transaction. -/
lemma applySparkTx_eq (hp : tx.sparkPayload = some payload) :
    applySparkTx E p height tx
      = ((match payload.spend with
        | some sb => E.spendTags sb.bundle
        | none => some []).bind fun tags =>
          (applySparkPayload E p tx payload tags height).bind fun p1 =>
            (match payload.mint with
            | some mint => do
              let (_, coins) ← E.verifyMintBundle mint
              (mintCoins E tx coins height).foldlM addCoin p1
            | none => some p1).bind fun p2 =>
              (match payload.spend with
              | some sb => addSpendOutputs E p2 height sb.bundle
              | none => p2).applyValueBalance payload.valueBalance) := by
  rw [applySparkTx, hp]
  cases hs : payload.spend with
  | none | some sb =>
    cases hm : payload.mint with
    | none => simp only [hs, hm, bind_eq_bind]
    | some mint => simp only [hs, hm, bind_eq_bind, bind_assoc]

/-- A transaction of an appliable block does not halt. -/
lemma Appliable.applySparkTx (hp : tx.sparkPayload = some payload)
    (h : Appliable E p ((tx, payload) :: items)) (height : ℕ) :
    ∃ q, applySparkTx E p height tx = some q ∧ Applied E height (tx, payload) p q := by
  obtain ⟨minted, hmint, hminted⟩ :=
    h.mint height (p.spentTags ++ (payload.tags E).map (·, height))
  set p2 : PoolContents :=
    { p with spentTags := p.spentTags ++ (payload.tags E).map (·, height), coins := p.coins ++ minted }
  have hvalue : 0 ≤ p.poolValue - payload.valueBalance := by
    have := h.value [(tx, payload)] (cons_prefix_cons.mpr ⟨rfl, nil_prefix⟩)
    simpa using this
  have hout : ∃ out, (match payload.spend with
      | some sb => addSpendOutputs E p2 height sb.bundle
      | none => p2) = { p2 with coins := p2.coins ++ out } ∧
      ∀ c ∈ out, (∃ coin, c.outpoint = E.coinId coin) ∧ c.height = height := by
    cases payload.spend with
    | none => exact ⟨[], by simp, by simp⟩
    | some sb => exact addSpendOutputs_eq p2 sb.bundle
  obtain ⟨out, hspend, hout⟩ := hout
  refine ⟨{ p2 with coins := p2.coins ++ out, poolValue := p.poolValue - payload.valueBalance }, ?_,
    rfl, rfl, minted ++ out, append_assoc _ _ _, ?_⟩
  · rw [applySparkTx_eq hp, h.spendTags, bind_some, h.applySparkPayload, Option.bind_some,
      hmint, bind_some, hspend]
    rw [applyValueBalance, if_neg (by simpa using hvalue)]
  · intro c hc
    rcases mem_append.mp hc with hc | hc
    · exact ⟨(hminted c hc).1, .inl (hminted c hc).2⟩
    · exact ⟨(hout c hc).2, .inr (hout c hc).1⟩

/-- The loop over an appliable block runs to its end. -/
lemma Appliable.foldlM (h : Appliable E p (sparkItems txs)) (height : ℕ) :
    ∃ q, txs.foldlM (fun q tx => CoinCync.applySparkTx E q height tx) p = some q ∧
      q.spentTags = p.spentTags ++ ((sparkItems txs).flatMap (·.2.tags E)).map (·, height) ∧
      q.poolValue = p.poolValue - ((sparkItems txs).map (·.2.valueBalance)).sum ∧
      ∀ c ∈ q.coins, c ∈ p.coins ∨ c.height = height := by
  induction txs generalizing p with
  | nil => exact ⟨p, rfl, by simp [sparkItems], by simp [sparkItems], fun c hc => .inl hc⟩
  | cons tx txs ih =>
    cases hp : tx.sparkPayload with
    | none =>
      have hitems : sparkItems (tx :: txs) = sparkItems txs := by simp [sparkItems, hp]
      rw [hitems] at h ⊢
      obtain ⟨q, hq, hrest⟩ := ih h
      refine ⟨q, ?_, hrest⟩
      rw [foldlM_cons, CoinCync.applySparkTx, hp]
      exact hq
    | some payload =>
      have hitems : sparkItems (tx :: txs) = (tx, payload) :: sparkItems txs := by
        simp [sparkItems, hp]
      rw [hitems] at h ⊢
      obtain ⟨r, hr, happlied⟩ := h.applySparkTx hp height
      obtain ⟨q, hq, htags, hvalue, hcoins⟩ := ih (h.tail happlied)
      refine ⟨q, ?_, ?_, ?_, ?_⟩
      · rw [foldlM_cons, hr]
        exact hq
      · rw [htags, happlied.tags, flatMap_cons, map_append, append_assoc]
      · rw [hvalue, happlied.value, map_cons, sum_cons]
        omega
      · intro c hc
        obtain ⟨new, hnew, hheight⟩ := happlied.coins
        rcases hcoins c hc with hc | hc
        · rw [hnew, mem_append] at hc
          rcases hc with hc | hc
          · exact .inl hc
          · exact .inr (hheight c hc).1
        · exact .inr hc

/-! ## From the gate -/

/-- The key images of a transaction. -/
def Transaction.images (tx : Transaction) : List KeyImage := tx.inputs.map (·.keyImage)

lemma mem_mintOutpoints :
    op ∈ mintOutpoints E item ↔ ∃ mint total coins i, item.2.mint = some mint ∧
      E.verifyMintBundle mint = some (total, coins) ∧ i < coins.length ∧
      E.deriveOutpoint item.1.images i = op := by
  unfold mintOutpoints
  cases hm : item.2.mint with
  | none => simp
  | some mint =>
    cases hv : E.verifyMintBundle mint with
    | none => simp [hv]
    | some out =>
      obtain ⟨total, coins⟩ := out
      simp only [bind_some, hv, mintCoins, List.mem_map, mem_mapIdx]
      constructor
      · rintro ⟨c, ⟨i, hi, rfl⟩, rfl⟩
        exact ⟨mint, total, coins, i, rfl, hv, hi, rfl⟩
      · rintro ⟨mint', _, _, i, hm', hv', hi, rfl⟩
        cases hm'
        obtain ⟨rfl, rfl⟩ := Prod.mk.inj (mem_unique hv hv')
        exact ⟨_, ⟨i, hi, rfl⟩, rfl⟩

/-- What the gate says of a mint. -/
lemma gateMint_eq_ok (h : gateMint E pool tx mint v = .ok ()) :
    v < 0 ∧ ∃ total coins, E.verifyMintBundle mint = some (total, coins) ∧
      ∀ i < coins.length, pool.hasOutpoint (E.deriveOutpoint tx.images i) = false := by
  unfold gateMint verifyMintShieldIn at h
  simp only [seq_eq_ok, require_eq_ok] at h
  obtain ⟨⟨hv, -⟩, h⟩ := h
  cases hverify : E.verifyMintBundle mint with
  | none => simp [hverify] at h
  | some out =>
    obtain ⟨total, coins⟩ := out
    simp only [hverify, all_eq_ok, mem_range, require_eq_ok, Bool.not_eq_true'] at h
    exact ⟨hv, total, coins, rfl, h⟩

/-- Without inputs the value bridge of a mint would not balance. -/
lemma GateTx.images_ne_nil {mint : Bytes} (h : GateTx E pool tx payload)
    (hm : payload.mint = some mint) : tx.images ≠ [] := by
  intro hnil
  have hin : tx.inputs = [] := map_eq_nil_iff.mp hnil
  have hv := (gateMint_eq_ok (h.mint mint hm)).1
  have hbridge := h.bridge
  have hout : 0 ≤ (tx.outputs.map (·.commitment.value)).sum := by
    apply sum_nonneg
    intro x hx
    obtain ⟨o, ho, rfl⟩ := mem_map.mp hx
    have hrevealed := h.revealed
    rw [checkUnshieldOutputsRevealed, when_eq_ok] at hrevealed
    have hall := forIdx_eq_ok.mp (hrevealed ⟨hin, ne_nil_of_mem ho⟩)
    obtain ⟨i, hi⟩ := mem_iff_getElem?.mp ho
    have hone := hall i o hi
    simp only [seq_eq_ok, require_eq_ok] at hone
    rw [hone.2]
    exact Int.natCast_nonneg _
  rw [hin, map_nil, sum_nil] at hbridge
  omega

/-- The simulated pool value never goes below zero. -/
lemma gateLoop_nonneg (hsim : 0 ≤ sim)
    (h : items.foldlM (fun sim item => gateTx E pool height sim item.1 item.2) sim = .ok sim')
    (hdone : done <+: items) : 0 ≤ sim - (done.map (·.2.valueBalance)).sum := by
  induction items generalizing sim done with
  | nil =>
    rw [prefix_nil.mp hdone]
    simpa using hsim
  | cons item items ih =>
    rw [foldlM_cons, bind_eq_ok] at h
    obtain ⟨next, hitem, hrest⟩ := h
    obtain ⟨rfl, hnext, -⟩ := gateTx_eq_ok hitem
    cases done with
    | nil => simpa using hsim
    | cons x done =>
      obtain ⟨rfl, hrestDone⟩ := cons_prefix_cons.mp hdone
      have := ih hnext hrest hrestDone
      rw [map_cons, sum_cons]
      omega

/-- The gated transactions. -/
lemma map_fst_sparkItems (txs : List Transaction) :
    (sparkItems txs).map (·.1) = txs.filter (·.sparkPayload.isSome) := by
  induction txs with
  | nil => rfl
  | cons tx txs ih =>
    cases hp : tx.sparkPayload with
    | none => simpa [sparkItems, hp] using ih
    | some payload => simpa [sparkItems, hp] using ih

/-- No two mints of a block share an outpoint. -/
lemma nodup_mintOutpoints (hH : OutpointsDistinct E)
    (hgate : ∀ item ∈ items, GateTx E pool item.1 item.2)
    (himages : (items.flatMap (·.1.images)).Nodup) : (items.flatMap (mintOutpoints E)).Nodup := by
  rw [nodup_flatMap] at himages ⊢
  constructor
  · intro item _
    unfold mintOutpoints
    split
    · exact nodup_nil
    · rw [nodup_iff_getElem?_ne_getElem?]
      intro i j hij hj heq
      rw [getElem?_eq_getElem hj, getElem?_eq_getElem (by omega)] at heq
      simp only [mintCoins, getElem_map, getElem_mapIdx, some.injEq] at heq
      have := (hH.derive _ _ _ _ heq).2
      omega
  · refine himages.2.imp_of_mem ?_
    intro x y hx hy hdisj op hopx hopy
    obtain ⟨mint, _, _, i, hm, -, -, rfl⟩ := mem_mintOutpoints.mp hopx
    obtain ⟨_, _, _, j, -, -, -, heq⟩ := mem_mintOutpoints.mp hopy
    obtain ⟨ki, hki⟩ := exists_mem_of_ne_nil _ ((hgate x hx).images_ne_nil hm)
    exact hdisj hki ((hH.derive _ _ _ _ heq).1.mem_iff.mpr hki)

/-- What passes the gate without a repeated key image is appliable. -/
lemma gate_appliable (hH : OutpointsDistinct E) (hT : TagsAgree E C)
    (hgate : verifyBlockSparkV2AtHeight E C pool txs height = true)
    (himages : (txs.flatMap (·.images)).Nodup) (hpool : 0 ≤ pool.poolValue) :
    ∃ tags, verifySparkPayloadsBatch C pool (sparkItems txs) = some tags ∧
      tags = (sparkItems txs).map (fun item => item.2.tags E) ∧
      Appliable E pool (sparkItems txs) := by
  have hall : ∀ item ∈ sparkItems txs, GateTx E pool item.1 item.2 := by
    intro item hitem
    obtain ⟨htx, hp⟩ := mem_sparkItems.mp hitem
    exact gateTx_of_gate hgate htx hp
  rw [verifyBlockSparkV2AtHeight, Bool.and_eq_true] at hgate
  obtain ⟨hloop, hbatch⟩ := hgate
  cases htags : verifySparkPayloadsBatch C pool (sparkItems txs) with
  | none => simp [htags] at hbatch
  | some tags =>
    obtain ⟨htagsEq, htagsOk⟩ := verifySparkPayloadsBatch_eq_some hT htags
    have hnodup : ((sparkItems txs).flatMap fun item => item.2.tags E).Nodup := by
      simp only [htags, decide_eq_true_eq, repeats_eq_nil] at hbatch
      rwa [htagsEq, ← flatMap_def] at hbatch
    have hitemImages : ((sparkItems txs).flatMap (·.1.images)).Nodup := by
      have hmap : (sparkItems txs).flatMap (·.1.images)
          = ((sparkItems txs).map (·.1)).flatMap Transaction.images := (flatMap_map ..).symm
      rw [hmap, map_fst_sparkItems]
      exact himages.sublist (filter_sublist.flatMap _)
    refine ⟨tags, rfl, htagsEq, ?_⟩
    exact {
      bare := fun item hitem => (hall item hitem).bare
      bundles := by
        intro item hitem sb hsb
        obtain ⟨ts, hts, -⟩ := htagsOk item hitem sb hsb
        rw [hts]
        rfl
      mints := by
        intro item hitem mint hm
        obtain ⟨-, total, coins, hverify, -⟩ := gateMint_eq_ok ((hall item hitem).mint mint hm)
        rw [hverify]
        rfl
      tags := hnodup
      unspent := by
        intro t ht
        obtain ⟨item, hitem, ht⟩ := mem_flatMap.mp ht
        unfold SparkPayload.tags at ht
        cases hsb : item.2.spend with
        | none => simp [hsb] at ht
        | some sb =>
          obtain ⟨ts, hts, hunspent⟩ := htagsOk item hitem sb hsb
          simp only [hsb, bind_some, hts] at ht
          exact isTagSpent_eq_false.mp (hunspent t ht)
      outpoints := nodup_mintOutpoints hH hall hitemImages
      new := by
        intro op hop
        obtain ⟨item, hitem, hop⟩ := mem_flatMap.mp hop
        obtain ⟨mint, total, coins, i, hm, hverify, hi, rfl⟩ := mem_mintOutpoints.mp hop
        obtain ⟨-, _, coins', hverify', hnew⟩ := gateMint_eq_ok ((hall item hitem).mint mint hm)
        obtain ⟨-, rfl⟩ := Prod.mk.inj (mem_unique hverify hverify')
        exact hasOutpoint_eq_false.mp (hnew i hi)
      noCoinId := by
        intro op hop coin
        obtain ⟨item, -, hop⟩ := mem_flatMap.mp hop
        obtain ⟨_, _, _, i, -, -, -, rfl⟩ := mem_mintOutpoints.mp hop
        exact hH.coinId coin _ i
      value := by
        intro done hdone
        cases hsim : gateLoop E pool height txs with
        | error e => simp [hsim, Except.toOption] at hloop
        | ok sim => exact gateLoop_nonneg hpool hsim hdone }

/-! ## The block -/

/-- A block that passes validation and the gate is applied without a halt to a pool that passes the
guard and is in lock-step with the other Phase-2 stores: exactly the tags the gate returned are
marked, and the value moves by the value balances. -/
theorem spark_apply_of_gate {b : Block} {parent : Option Block} {u : UtxoSet} {cp : Option ℕ}
    {contextual : Bool} {p : SparkPool} (hH : OutpointsDistinct E) (hT : TagsAgree E W.toCrypto)
    (hvalid : validateBlockCtx W b parent u cp contextual = [])
    (hgate : verifyBlockSparkV2AtHeight E W.toCrypto p.toPoolContents b.transactions height = true)
    (hsecure : p.isSecure height = true) (hlock : p.inLockstep = true) :
    ∃ tags p', verifySparkPayloadsBatch W.toCrypto p.toPoolContents (sparkItems b.transactions)
        = some tags ∧
      p.applySparkV2Txs E b.transactions height = some p' ∧
      p'.spentTags = p.spentTags ++ tags.flatten.map (·, height) ∧
      p'.poolValue = p.poolValue - ((sparkItems b.transactions).map (·.2.valueBalance)).sum := by
  have himages : (b.transactions.flatMap (·.images)).Nodup :=
    (crossTxErrors_eq_nil.mp (crossTxErrors_of_valid hvalid)).2.1
  simp only [isSecure, decide_eq_true_eq] at hsecure
  obtain ⟨hcoin, htag, hstack, hvalue⟩ := hsecure
  obtain ⟨tags, hbatch, htags, happ⟩ := gate_appliable hH hT hgate himages hvalue
  have hend := happ.value _ (prefix_refl _)
  obtain ⟨q, hq, hqtags, hqvalue, hqcoins⟩ := happ.foldlM height
  refine ⟨tags, { p with toPoolContents := q }, hbatch, ?_, ?_, hqvalue⟩
  · refine applySparkV2Txs_eq_some.mpr ⟨hq, rfl, rfl, ?_, hlock⟩
    simp only [isSecure, decide_eq_true_eq]
    refine ⟨foldl_max_le_iff.mpr ⟨Nat.zero_le _, ?_⟩,
      foldl_max_le_iff.mpr ⟨Nat.zero_le _, ?_⟩, hstack, ?_⟩
    · intro c hc
      rcases hqcoins c hc with hc | hc
      · exact (foldl_max_le_iff.mp hcoin).2 c hc
      · exact hc.le
    · intro t ht
      rw [hqtags, mem_append] at ht
      rcases ht with ht | ht
      · exact (foldl_max_le_iff.mp htag).2 t ht
      · obtain ⟨t, -, rfl⟩ := mem_map.mp ht
        exact le_rfl
    · rw [hqvalue]
      exact hend
  · rw [hqtags, htags, flatMap_def]

/-! ## A concrete block -/

/-- A beta network without collisions; a spend bundle is its value and creates one coin. -/
def gateEnv : Env :=
  { sampleEnv .beta 1 with
    spendFee := fun bundle => some bundle
    spendOutputs := fun bundle => some ([bundle], 0)
    deriveOutpoint := fun images i =>
      2 * Nat.pair (encode (images.insertionSort (· ≤ ·))) i
    coinId := fun coin => 2 * coin + 1 }

/-- Its outpoints are distinct. -/
lemma outpointsDistinct_gateEnv : OutpointsDistinct gateEnv where
  derive images images' i j h := by
    have hpair : Nat.pair (encode (images.insertionSort (· ≤ ·))) i
        = Nat.pair (encode (images'.insertionSort (· ≤ ·))) j :=
      Nat.eq_of_mul_eq_mul_left Nat.two_pos h
    obtain ⟨hcode, hij⟩ := Nat.pair_eq_pair.mp hpair
    have hsorted := encode_injective hcode
    refine ⟨?_, hij⟩
    exact (perm_insertionSort _ images).symm.trans
      (hsorted ▸ perm_insertionSort _ images')
  coinId coin images i h := by
    have h : (2 * coin + 1 : ℕ)
        = (2 * Nat.pair (encode (images.insertionSort (· ≤ ·))) i : ℕ) := h
    omega

lemma tagsAgree_gateEnv : TagsAgree gateEnv sampleCrypto := by
  intro cover spends tags h
  cases h
  simp [gateEnv, sampleEnv]

/-- Shields the genesis output at that address, less the fee. -/
def shieldInBy (keyImage fee : ℕ) : Transaction :=
  { shieldInTx with
    inputs := shieldInTx.inputs.map fun input =>
      { input with keyImage := keyImage, signature := ⟨keyImage, 0⟩ }
    fee := fee
    extra := .sparkV2 { mint := some (5000000 - fee), valueBalance := -(5000000 - fee : ℕ) } }

/-- A block with a mint and an unshield. -/
def mintAndSpendBlock : Block := minedBlock 11 3000 [shieldInBy 4 2000, unshieldTx 500 2000000]

/-- The block on a pool with one coin, beside three stores. -/
theorem spark_apply_of_gate_mint_and_spend :
    ∃ s p', Run.Reaches (acceptBlock (sampleValidator gateEnv)) (fun _ _ => True)
        { genesisBooks gateEnv sampleGenesis with pool := .attached } s ∧
      s.pool.stores.length = 3 ∧
      s.pool.applySparkV2Txs gateEnv mintAndSpendBlock.transactions 11 = some p' ∧
      p'.spentTags = [(2001000, 11)] ∧ p'.poolValue = 4999000 + 4998000 - 2001000 := by
  simp only [exists_and_left]
  refine Run.exists_reaches_of_exec_guarded (emptyBlocks 9 ++ [minedBlock 10 1000 [shieldInTx]])
    (P := fun s => validateBlockCtx (sampleValidator gateEnv) mintAndSpendBlock (some s.tip) s.utxos
        none true = [] ∧
      verifyBlockSparkV2AtHeight gateEnv sampleCrypto s.pool.toPoolContents
        mintAndSpendBlock.transactions 11 ∧
      s.pool.isSecure 11 ∧ s.pool.inLockstep ∧ s.pool.stores.length = 3 ∧
      s.pool.spentTags = [] ∧ s.pool.poolValue = 4999000 ∧
      verifySparkPayloadsBatch sampleCrypto s.pool.toPoolContents
        (sparkItems mintAndSpendBlock.transactions) = some [[], [2001000]]) (by decide +kernel) ?_
  intro s _ ⟨hvalid, hgate, hsecure, hlock, hstores, hold, hvalue, hbatch⟩
  obtain ⟨tags, p', htags, happly, hspent, hmoved⟩ :=
    spark_apply_of_gate outpointsDistinct_gateEnv tagsAgree_gateEnv hvalid hgate hsecure hlock
  obtain rfl := Option.mem_unique hbatch htags
  refine ⟨hstores, p', happly, ?_, ?_⟩
  · rw [hspent, hold]
    rfl
  · rw [hmoved, hvalue]
    rfl

/-- A pool that holds a coin of a later height halts on a block without shielded transactions. -/
theorem future_coin_halts_apply :
    ∃ (p : SparkPool) (s : Books), OutpointsDistinct gateEnv ∧ TagsAgree gateEnv sampleCrypto ∧
      validateBlockCtx (sampleValidator gateEnv) (minedBlock 5 0 []) (some s.tip) s.utxos none true
        = [] ∧
      verifyBlockSparkV2AtHeight gateEnv sampleCrypto p.toPoolContents
        (minedBlock 5 0 []).transactions 5 = true ∧
      p.applySparkV2Txs gateEnv (minedBlock 5 0 []).transactions 5 = none := by
  have hrun : ∃ s ∈ Run.exec (acceptBlock (sampleValidator gateEnv))
      (genesisBooks gateEnv sampleGenesis) (emptyBlocks 4),
      validateBlockCtx (sampleValidator gateEnv) (minedBlock 5 0 []) (some s.tip) s.utxos none true
        = [] := by
    decide +kernel
  obtain ⟨s, -, hvalid⟩ := hrun
  exact ⟨{ coins := [⟨1, 1, 1, 7⟩] }, s, outpointsDistinct_gateEnv, tagsAgree_gateEnv, hvalid,
    by decide +kernel, by decide +kernel⟩

end CoinCync

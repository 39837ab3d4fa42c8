import CoinCync.AddBlock

/-!
# Feeding and rewinding the pool

Feeding a block to the pool only appends coins, and tags with the height of the block
(`PoolContents.Grows`). So the one boundary taken before the block is enough to undo it
(`rewindOrKeep_apply`), provided no older tag has that height and the stack had room.
-/

namespace CoinCync

open List Option

/-! ## Growth -/

namespace PoolContents

variable {p q : PoolContents}

/-- `q` is `p` with coins and tags of the height appended. -/
structure Grows (height : ℕ) (p q : PoolContents) : Prop where
  coins : ∃ cs, q.coins = p.coins ++ cs
  tags : ∃ ts, q.spentTags = p.spentTags ++ ts ∧ ∀ t ∈ ts, t.2 = height

lemma Grows.refl (height : ℕ) (p : PoolContents) : Grows height p p :=
  ⟨⟨[], (append_nil _).symm⟩, [], (append_nil _).symm, by simp⟩

lemma Grows.trans (h : Grows height p q) (h' : Grows height q r) : Grows height p r := by
  obtain ⟨⟨cs, hcs⟩, ts, hts, hh⟩ := h
  obtain ⟨⟨cs', hcs'⟩, ts', hts', hh'⟩ := h'
  refine ⟨⟨cs ++ cs', by rw [hcs', hcs, append_assoc]⟩, ts ++ ts', ?_, ?_⟩
  · rw [hts', hts, append_assoc]
  · intro t ht
    rcases mem_append.mp ht with ht | ht
    · exact hh t ht
    · exact hh' t ht

/-- A loop of growing steps grows. -/
lemma Grows.foldlM {α : Type} {f : PoolContents → α → Option PoolContents}
    (hf : ∀ p a q, f p a = some q → Grows height p q) {l : List α} (h : l.foldlM f p = some q) :
    Grows height p q := by
  induction l generalizing p with
  | nil =>
    obtain rfl := some.inj h
    exact .refl height p
  | cons a l ih =>
    rw [foldlM_cons, bind_eq_bind, bind_eq_some_iff] at h
    obtain ⟨r, hr, h⟩ := h
    exact (hf p a r hr).trans (ih h)

lemma addCoin_grows (h : p.addCoin c = some q) : Grows height p q := by
  unfold addCoin at h
  split at h
  · simp at h
  · cases h
    exact ⟨⟨[c], rfl⟩, [], (append_nil _).symm, by simp⟩

lemma markTagSpent_grows (h : p.markTagSpent height tag = some q) : Grows height p q := by
  unfold markTagSpent at h
  split at h
  · simp at h
  · cases h
    exact ⟨⟨[], (append_nil _).symm⟩, [(tag, height)], rfl, by simp⟩

lemma applyValueBalance_grows (h : p.applyValueBalance v = some q) : Grows height p q := by
  unfold applyValueBalance at h
  split at h
  · simp at h
  · cases h
    exact ⟨⟨[], (append_nil _).symm⟩, [], (append_nil _).symm, by simp⟩

end PoolContents

open PoolContents

lemma addSpendOutputs_grows (p : PoolContents) (bundle : Bytes) :
    Grows height p (addSpendOutputs E p height bundle) := by
  unfold addSpendOutputs
  cases E.spendOutputs bundle with
  | none => exact .refl height p
  | some out =>
    obtain ⟨coins, ctx⟩ := out
    simp only
    induction coins generalizing p with
    | nil => exact .refl height p
    | cons c coins ih =>
      rw [foldl_cons]
      refine Grows.trans ?_ (ih _)
      -- a coin that is already there is skipped
      cases hc : p.addCoin ⟨E.coinId c, c, ctx, height⟩ with
      | none => exact .refl height p
      | some q => exact addCoin_grows hc

/-- The stages of applying one shielded transaction. -/
lemma applySparkTx_eq_some {p q : PoolContents}
    (hp : tx.sparkPayload = some payload) (h : applySparkTx E p height tx = some q) :
    ∃ tags p1 p2, applySparkPayload E p tx payload tags height = some p1 ∧
      (p2 = p1 ∨ ∃ coins, (mintCoins E tx coins height).foldlM addCoin p1 = some p2) ∧
      (p2.applyValueBalance payload.valueBalance = some q ∨
        ∃ bundle, (addSpendOutputs E p2 height bundle).applyValueBalance payload.valueBalance
          = some q) := by
  rw [applySparkTx, hp] at h
  cases hs : payload.spend with
  | none =>
    cases hm : payload.mint with
    | none =>
      simp only [hs, hm, bind_eq_bind, bind_some, bind_eq_some_iff] at h
      obtain ⟨p1, hpay, hvalue⟩ := h
      exact ⟨[], p1, p1, hpay, .inl rfl, .inl hvalue⟩
    | some mint =>
      simp only [hs, hm, bind_eq_bind, bind_some, bind_eq_some_iff] at h
      obtain ⟨p1, hpay, ⟨_, coins⟩, -, p2, hcoins, hvalue⟩ := h
      exact ⟨[], p1, p2, hpay, .inr ⟨coins, hcoins⟩, .inl hvalue⟩
  | some sb =>
    cases hm : payload.mint with
    | none =>
      simp only [hs, hm, bind_eq_bind, bind_some, bind_eq_some_iff] at h
      obtain ⟨tags, -, p1, hpay, hvalue⟩ := h
      exact ⟨tags, p1, p1, hpay, .inl rfl, .inr ⟨sb.bundle, hvalue⟩⟩
    | some mint =>
      simp only [hs, hm, bind_eq_bind, bind_eq_some_iff] at h
      obtain ⟨tags, -, p1, hpay, ⟨_, coins⟩, -, p2, hcoins, hvalue⟩ := h
      exact ⟨tags, p1, p2, hpay, .inr ⟨coins, hcoins⟩, .inr ⟨sb.bundle, hvalue⟩⟩

lemma applySparkPayload_grows {p q : PoolContents}
    {tags : List Tag} (h : applySparkPayload E p tx payload tags height = some q) :
    Grows height p q := by
  rw [applySparkPayload, bind_eq_bind, bind_eq_some_iff] at h
  obtain ⟨p0, htags, hbare⟩ := h
  have h0 : Grows height p p0 := Grows.foldlM (fun _ _ _ => markTagSpent_grows) htags
  exact h0.trans (Grows.foldlM (fun _ _ _ => addCoin_grows) hbare)

/-- One transaction only appends. -/
lemma applySparkTx_grows {p q : PoolContents}
    (h : applySparkTx E p height tx = some q) : Grows height p q := by
  cases hp : tx.sparkPayload with
  | none =>
    rw [applySparkTx, hp] at h
    cases h
    exact .refl height p
  | some payload =>
    obtain ⟨tags, p1, p2, hpay, hmint, hvalue⟩ := applySparkTx_eq_some hp h
    have h1 : Grows height p p1 := applySparkPayload_grows hpay
    have h2 : Grows height p1 p2 := by
      rcases hmint with rfl | ⟨coins, hcoins⟩
      · exact .refl height _
      · exact Grows.foldlM (fun _ _ _ => addCoin_grows) hcoins
    have h3 : Grows height p2 q := by
      rcases hvalue with hvalue | ⟨bundle, hvalue⟩
      · exact applyValueBalance_grows hvalue
      · exact (addSpendOutputs_grows p2 bundle).trans (applyValueBalance_grows hvalue)
    exact (h1.trans h2).trans h3

/-! ## Feeding a block -/

namespace SparkPool

variable {p q : SparkPool}

/-- A pool is its contents and its stacks. -/
lemma ext_contents (hc : p.toPoolContents = q.toPoolContents)
    (hs : p.checkpoints = q.checkpoints) (ht : p.stores = q.stores) : p = q := by
  cases p
  simp_all

/-- What an apply does, and what its sweep has found. -/
lemma applySparkV2Txs_eq_some :
    p.applySparkV2Txs E txs height = some q ↔
      txs.foldlM (fun c tx => applySparkTx E c height tx) p.toPoolContents
          = some q.toPoolContents ∧
        q.checkpoints = p.checkpoints ∧ q.stores = p.stores ∧
        q.isSecure height = true ∧ q.inLockstep = true := by
  rw [applySparkV2Txs, bind_eq_bind, bind_eq_some_iff]
  constructor
  · rintro ⟨c, hc, h⟩
    simp only at h
    split at h
    · rename_i hsweep
      cases h
      exact ⟨hc, rfl, rfl, hsweep⟩
    · simp at h
  · rintro ⟨hc, hcp, hst, hsweep⟩
    refine ⟨q.toPoolContents, hc, ?_⟩
    have hq : ({ p with toPoolContents := q.toPoolContents } : SparkPool) = q :=
      ext_contents rfl hcp.symm hst.symm
    simp only [hq, hsweep, and_self, if_true]

/-- A pool alone with the same contents takes the same block. -/
lemma applySparkV2Txs_alone {p₀ : SparkPool} (h : p.applySparkV2Txs E txs height = some q)
    (hc : p.toPoolContents = p₀.toPoolContents) (h₀ : p₀.stores = []) :
    ∃ q₀, p₀.applySparkV2Txs E txs height = some q₀ ∧ q.toPoolContents = q₀.toPoolContents ∧
      q₀.stores = [] := by
  obtain ⟨hfold, -, -, hsec, -⟩ := applySparkV2Txs_eq_some.mp h
  set q₀ : SparkPool := { p₀ with toPoolContents := q.toPoolContents }
  have hsec₀ : q₀.isSecure height = true := by
    have hbound : q₀.checkpoints.length ≤ 1000 := p₀.bounded
    simp only [isSecure, decide_eq_true_eq] at hsec ⊢
    exact ⟨hsec.1, hsec.2.1, hbound, hsec.2.2.2⟩
  have hlock : q₀.inLockstep = true := by
    show p₀.stores.all _ = true
    rw [h₀, all_nil]
  exact ⟨q₀, applySparkV2Txs_eq_some.mpr ⟨hc ▸ hfold, rfl, rfl, hsec₀, hlock⟩, rfl, h₀⟩

lemma applySparkV2Txs_grows (h : p.applySparkV2Txs E txs height = some q) :
    Grows height p.toPoolContents q.toPoolContents :=
  Grows.foldlM (fun _ _ _ => applySparkTx_grows) (applySparkV2Txs_eq_some.mp h).1

/-- A maximum is bounded exactly if every value is. -/
lemma foldl_max_le_iff {α : Type} {f : α → ℕ} {l : List α} :
    l.foldl (fun m x => max m (f x)) a ≤ bound ↔ a ≤ bound ∧ ∀ x ∈ l, f x ≤ bound := by
  induction l generalizing a with
  | nil => simp
  | cons y l ih => rw [foldl_cons, ih, Nat.max_le, forall_mem_cons, and_assoc]

/-- The guard bounds the heights of spent tags. -/
lemma tag_height_le (h : p.isSecure height = true) {t : Tag × ℕ} (ht : t ∈ p.spentTags) :
    t.2 ≤ height := by
  have hmax : p.maxSpentTagHeight ≤ height := by
    simp only [isSecure, decide_eq_true_eq] at h
    exact h.2.1
  exact (foldl_max_le_iff.mp hmax).2 t ht

/-! ## Rewinding it -/

/-- A boundary takes off itself and what its block appended. -/
lemma rewindOrKeep_of_grows (hcp : q.checkpoints = ⟨height, p.coins.length, p.poolValue⟩ :: ks)
    (h : Grows height p.toPoolContents q.toPoolContents) (htags : ∀ t ∈ p.spentTags, t.2 < height) :
    q.rewindOrKeep.toPoolContents = p.toPoolContents ∧ q.rewindOrKeep.checkpoints = ks := by
  obtain ⟨⟨cs, hcs⟩, ts, hts, hheight⟩ := h
  have hold : p.spentTags.filter (·.2 < height) = p.spentTags := by
    rw [filter_eq_self]
    intro t ht
    simpa using htags t ht
  have hnew : ts.filter (·.2 < height) = [] := by
    rw [filter_eq_nil_iff]
    intro t ht
    simp [hheight t ht]
  have hrewind : q.rewind.getD q = q.restore ⟨height, p.coins.length, p.poolValue⟩ := by
    rw [rewind, hcp, head?_cons, map_some, getD_some]
  simp only [rewindOrKeep, hrewind, restore, hcp, hcs, hts, filter_append, hold, hnew, append_nil,
    take_left, tail_cons, and_self]

/-- Rewinding after a block gives back the contents before it. -/
lemma rewindOrKeep_apply (h : (p.checkpointAtHeight height).applySparkV2Txs E txs height = some q)
    (htags : ∀ t ∈ p.spentTags, t.2 < height) :
    q.rewindOrKeep.toPoolContents = p.toPoolContents ∧
      q.rewindOrKeep.checkpoints = p.checkpoints.take (maxCheckpoints - 1) := by
  have hgrows := applySparkV2Txs_grows h
  exact rewindOrKeep_of_grows (applySparkV2Txs_eq_some.mp h).2.1 hgrows htags

end SparkPool

/-- Connecting on a pool checkpoints and feeds it. -/
lemma of_connectPool {q : SparkPool} (h : connectPool E pool height txs = some pool')
    (hq : pool' = some q) :
    ∃ p, pool = some p ∧ (p.checkpointAtHeight height).applySparkV2Txs E txs height = some q := by
  unfold connectPool at h
  split at h <;> simp_all

end CoinCync

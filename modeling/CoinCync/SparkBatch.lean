import CoinCync.Books

/-!
# Spends verified together and one by one

`verify_spark_payloads_batch` sorts the spends by cover set, has the backend verify each set of them
at once and puts the tags back in place; `verify_spark_payload` takes one payload. The lists of tags
are the same. One direction is in terms of any function `f` that gives the tags the backend accepts a
spend with.
-/

namespace CoinCync

open Check List Option

variable {C : Crypto} {pool : PoolContents} {items : List (Transaction × SparkPayload)}
  {f : List Bytes → Bytes × ℕ × ℤ → Option (List Tag)}

/-- A loop that finds something everywhere. -/
lemma mapM_eq_some_iff {α β : Type} {g : α → Option β} {l : List α} {bs : List β} :
    l.mapM g = some bs ↔ bs.map some = l.map g := by
  induction l generalizing bs with
  | nil => cases bs <;> simp
  | cons a l ih =>
    simp only [List.mapM_cons, bind_eq_bind, Option.pure_def, bind_eq_some_iff, ih,
      some.injEq, map_cons, List.map_eq_cons_iff]
    constructor
    · rintro ⟨b, hb, bs, hbs, rfl⟩
      exact ⟨b, bs, rfl, hb.symm, hbs⟩
    · rintro ⟨b, bs, rfl, hb, hbs⟩
      exact ⟨b, hb.symm, bs, hbs, rfl⟩

/-- It does if every element has something. -/
lemma exists_mapM {α β : Type} {g : α → Option β} {l : List α} (h : ∀ a ∈ l, ∃ b, g a = some b) :
    ∃ bs, l.mapM g = some bs := by
  induction l with
  | nil => exact ⟨[], rfl⟩
  | cons a l ih =>
    obtain ⟨b, hb⟩ := h a mem_cons_self
    obtain ⟨bs, hbs⟩ := ih fun a' ha' => h a' (mem_cons_of_mem a ha')
    exact ⟨b :: bs, by simp [hb, hbs]⟩

/-- `verify_solvency` over a nonempty cover set, without spent tags. -/
def verifySolvency (f : List Bytes → Bytes × ℕ × ℤ → Option (List Tag)) (pool : PoolContents)
    (cover : List Bytes) (spend : Bytes × ℕ × ℤ) : Option (List Tag) :=
  if cover = [] then none else (f cover spend).filter fun tags => ∀ t ∈ tags, !pool.isTagSpent t

/-- The tags of one payload; a mint has none. -/
def verifySparkSpend (f : List Bytes → Bytes × ℕ × ℤ → Option (List Tag)) (pool : PoolContents)
    (item : Transaction × SparkPayload) : Option (List Tag) :=
  match item.2.spend with
  | none => some []
  | some sb => verifySolvency f pool (pool.coverSetAt sb.coverSetId sb.anchorHeight)
      (sb.bundle, item.1.fee, item.2.valueBalance)

/-- What is handed to the backend. -/
lemma mem_anchoredSpends :
    (i, s) ∈ anchoredSpends items anchor ↔
      ∃ tx p sb, items[i]? = some (tx, p) ∧ p.anchor = some anchor ∧ p.spend = some sb ∧
        s = (sb.bundle, tx.fee, p.valueBalance) := by
  rw [anchoredSpends, mem_filterMap]
  constructor
  · rintro ⟨⟨⟨tx, p⟩, j⟩, hmem, h⟩
    simp only at h
    split at h
    · rename_i hanchor
      obtain ⟨sb, hsb, hs⟩ := map_eq_some_iff.mp h
      obtain ⟨rfl, rfl⟩ := Prod.mk.inj hs
      exact ⟨tx, p, sb, mem_zipIdx_iff_getElem?.mp hmem, hanchor, hsb, rfl⟩
    · simp at h
  · rintro ⟨tx, p, sb, hget, hanchor, hsb, rfl⟩
    refine ⟨((tx, p), i), mem_zipIdx_iff_getElem?.mpr hget, ?_⟩
    simp only [hanchor, if_true, hsb, map_some]

/-- What the backend is handed is verified like the payload. -/
lemma verifySolvency_of_mem (h : (i, s) ∈ anchoredSpends items anchor) :
    ∃ item, items[i]? = some item ∧ item.2.spend.isSome ∧
      verifySparkSpend f pool item = verifySolvency f pool (pool.coverSetAt anchor.1 anchor.2) s := by
  obtain ⟨tx, p, sb, hget, hanchor, hsb, rfl⟩ := mem_anchoredSpends.mp h
  rw [SparkPayload.anchor, hsb] at hanchor
  cases hanchor
  exact ⟨(tx, p), hget, by rw [hsb]; rfl, by simp only [verifySparkSpend, hsb]⟩

/-- A group contributes the tags of its spends, something for each. -/
lemma verifyGroup_eq_some (hf : ∀ cover spends tags, C.verifySpendBatch cover spends = some tags →
      tags.map some = spends.map (f cover)) (h : verifyGroup C pool items anchor = some group) :
    (∀ i tags, (i, tags) ∈ group → ∃ item, items[i]? = some item ∧ item.2.spend.isSome ∧
      verifySparkSpend f pool item = some tags) ∧
    ∀ i item, items[i]? = some item → item.2.anchor = some anchor → i ∈ group.map (·.1) := by
  unfold verifyGroup at h
  simp only at h
  split at h
  · simp at h
  rename_i hcover
  obtain ⟨tags, hbatch, h⟩ := bind_eq_some_iff.mp h
  split at h
  swap
  · simp at h
  rename_i hchecked
  obtain ⟨hlen, hunspent⟩ := hchecked
  cases h
  constructor
  · intro i ts hmem
    obtain ⟨k, hk⟩ := mem_iff_getElem?.mp hmem
    rw [getElem?_zip_eq_some, getElem?_map, map_eq_some_iff] at hk
    obtain ⟨⟨⟨_, s⟩, hspend, rfl⟩, htags⟩ := hk
    have hread := congrArg (·[k]?) (hf _ _ _ hbatch)
    simp only [getElem?_map, htags, hspend, map_some, some.injEq] at hread
    obtain ⟨item, hget, hsome, hsingle⟩ := verifySolvency_of_mem (mem_of_getElem? hspend)
    refine ⟨item, hget, hsome, ?_⟩
    rw [hsingle, verifySolvency, if_neg hcover, ← hread]
    simpa using hunspent ts (mem_of_getElem? htags)
  · intro i item hget hanchor
    obtain ⟨sb, hsb, -⟩ := map_eq_some_iff.mp hanchor
    rw [map_fst_zip (by simp [hlen]), List.mem_map]
    exact ⟨_, mem_anchoredSpends.mpr ⟨item.1, item.2, sb, hget, hanchor, hsb, rfl⟩, rfl⟩

lemma anchor_mem (hmem : item ∈ items) (hsb : item.2.spend = some sb) :
    item.2.anchor = some (sb.coverSetId, sb.anchorHeight) ∧
      (sb.coverSetId, sb.anchorHeight) ∈ (items.filterMap (·.2.anchor)).dedup := by
  have hanchor : item.2.anchor = some (sb.coverSetId, sb.anchorHeight) := by
    rw [SparkPayload.anchor, hsb, map_some]
  exact ⟨hanchor, mem_dedup.mpr (mem_filterMap.mpr ⟨item, hmem, hanchor⟩)⟩

/-- The batch returns the tags of every payload, in order. -/
lemma map_some_of_batch (hf : ∀ cover spends tags, C.verifySpendBatch cover spends = some tags →
      tags.map some = spends.map (f cover)) (h : verifySparkPayloadsBatch C pool items = some tags) :
    tags.map some = items.map (verifySparkSpend f pool) := by
  obtain ⟨groups, hgroups, rfl⟩ := map_eq_some_iff.mp h
  obtain ⟨hfrom, hto⟩ := mem_mapM hgroups
  have hsound : ∀ i ts, (i, ts) ∈ groups.flatten → ∃ item, items[i]? = some item ∧
      item.2.spend.isSome ∧ verifySparkSpend f pool item = some ts := by
    intro i ts hmem
    obtain ⟨group, hgroup, hmem⟩ := mem_flatten.mp hmem
    obtain ⟨anchor, -, hok⟩ := hfrom group hgroup
    exact (verifyGroup_eq_some hf hok).1 i ts hmem
  have hcomplete : ∀ i item sb, items[i]? = some item → item.2.spend = some sb →
      i ∈ groups.flatten.map (·.1) := by
    intro i item sb hget hsb
    obtain ⟨hanchor, hmem⟩ := anchor_mem (mem_of_getElem? hget) hsb
    obtain ⟨group, hgroup, hok⟩ := hto _ hmem
    obtain ⟨e, he, rfl⟩ := mem_map.mp ((verifyGroup_eq_some hf hok).2 i item hget hanchor)
    exact mem_map_of_mem (mem_flatten.mpr ⟨group, hgroup, he⟩)
  -- an item is looked up under its position: there is something if and only if it has a spend
  have hitem : ∀ i item, items[i]? = some item →
      some ((groups.flatten.lookup i).getD []) = verifySparkSpend f pool item := by
    intro i item hget
    cases hlook : groups.flatten.lookup i with
    | some ts =>
      obtain ⟨l1, l2, hsplit, -⟩ := lookup_eq_some_iff.mp hlook
      obtain ⟨item', hget', -, hsingle⟩ := hsound i ts (by rw [hsplit]; simp)
      obtain rfl := mem_unique hget hget'
      exact hsingle.symm
    | none =>
      rw [Table.lookup_eq_none_iff_notMem] at hlook
      cases hsb : item.2.spend with
      | none => simp [verifySparkSpend, hsb]
      | some sb => exact absurd (hcomplete i item sb hget hsb) hlook
  apply ext_getElem?
  intro i
  rw [List.map_map, getElem?_map, getElem?_map]
  cases hget : items[i]? with
  | none =>
    have hlen := getElem?_eq_none_iff.mp hget
    rw [getElem?_eq_none (by simpa using hlen)]
    rfl
  | some item =>
    have hlen := (List.getElem?_eq_some_iff.mp hget).1
    rw [getElem?_range hlen, map_some, map_some, Function.comp_apply, hitem i item hget]

/-! ## One by one -/

/-- `SPARK_PAYLOAD_VERSION`. -/
def sparkPayloadVersion : ℕ := 2

/-- `verify_spark_payload`. -/
def verifySparkPayload (verifySpend : List Bytes → Bytes × ℕ × ℤ → Option (List Tag))
    (pool : PoolContents) (item : ℕ × Transaction × SparkPayload) : Option (List Tag) :=
  if item.1 ≠ sparkPayloadVersion then none else verifySparkSpend verifySpend pool item.2

/-- `verify_spark_payloads_batch` with its version check. -/
def verifyVersionedBatch (C : Crypto) (pool : PoolContents) (items : List (ℕ × Transaction × SparkPayload)) :
    Option (List (List Tag)) :=
  if ∀ item ∈ items, item.1 = sparkPayloadVersion then
    verifySparkPayloadsBatch C pool (items.map (·.2))
  else none

/-- A group is accepted if each spend of its cover set is. -/
lemma verifyGroup_isSome (hC : ∀ cover spends, C.verifySpendBatch cover spends = spends.mapM (f cover))
    (hitems : ∀ item ∈ items, ∃ ts, verifySparkSpend f pool item = some ts) {anchor : ℕ × ℕ}
    (hanchor : anchor ∈ (items.filterMap (·.2.anchor)).dedup) :
    ∃ group, verifyGroup C pool items anchor = some group := by
  have hspends : ∀ e ∈ anchoredSpends items anchor, pool.coverSetAt anchor.1 anchor.2 ≠ [] ∧
      ∃ ts, f (pool.coverSetAt anchor.1 anchor.2) e.2 = some ts ∧ ∀ t ∈ ts, !pool.isTagSpent t := by
    intro e he
    obtain ⟨item, hget, -, hsingle⟩ := verifySolvency_of_mem he
    obtain ⟨ts, hts⟩ := hitems item (mem_of_getElem? hget)
    rw [hsingle, verifySolvency, ite_none_left_eq_some, filter_eq_some_iff] at hts
    exact ⟨hts.1, ts, hts.2.1, by simpa using hts.2.2⟩
  obtain ⟨item, hitem, hitemAnchor⟩ := mem_filterMap.mp (mem_dedup.mp hanchor)
  obtain ⟨sb, hsb, -⟩ := map_eq_some_iff.mp hitemAnchor
  obtain ⟨i, hget⟩ := mem_iff_getElem?.mp hitem
  obtain ⟨hcover, -⟩ := hspends _ (mem_anchoredSpends.mpr ⟨item.1, item.2, sb, hget, hitemAnchor, hsb, rfl⟩)
  have hbatch : C.verifySpendBatch (pool.coverSetAt anchor.1 anchor.2) ((anchoredSpends items anchor).map (·.2))
      = some ((anchoredSpends items anchor).map fun e => (f (pool.coverSetAt anchor.1 anchor.2) e.2).getD []) := by
    rw [hC, mapM_eq_some_iff, List.map_map, List.map_map]
    refine map_congr_left fun e he => ?_
    obtain ⟨-, ts, hts, -⟩ := hspends e he
    simp [hts]
  refine ⟨_, by
    simp only [verifyGroup, if_neg hcover, hbatch]
    refine if_pos ⟨by simp, ?_⟩
    refine forall_mem_map.mpr fun e he => ?_
    obtain ⟨-, ts, hts, hunspent⟩ := hspends e he
    simpa [hts] using hunspent⟩

/-- With a backend whose batch is its single verification repeated, so is the batch of payloads. -/
theorem verifyVersionedBatch_eq_mapM
    (hC : ∀ cover spends, C.verifySpendBatch cover spends = spends.mapM (f cover)) (pool : PoolContents)
    (items : List (ℕ × Transaction × SparkPayload)) :
    verifyVersionedBatch C pool items = items.mapM (verifySparkPayload f pool) := by
  have hf : ∀ cover spends tags, C.verifySpendBatch cover spends = some tags →
      tags.map some = spends.map (f cover) := fun cover spends tags h =>
    mapM_eq_some_iff.mp ((hC cover spends).symm.trans h)
  ext tags
  rw [mapM_eq_some_iff]
  unfold verifyVersionedBatch
  split
  case isFalse hversions =>
    push Not at hversions
    obtain ⟨item, hitem, hversion⟩ := hversions
    refine ⟨fun h => (by cases h), fun h => ?_⟩
    obtain ⟨ts, -, hts⟩ := mem_map.mp (h ▸ mem_map_of_mem hitem)
    simp [verifySparkPayload, hversion] at hts
  case isTrue hversions =>
    have hsingles : items.map (verifySparkPayload f pool)
        = (items.map (·.2)).map (verifySparkSpend f pool) := by
      rw [List.map_map]
      refine map_congr_left fun item hitem => ?_
      simp [verifySparkPayload, hversions item hitem]
    rw [hsingles]
    refine ⟨map_some_of_batch hf, fun h => ?_⟩
    have hitems : ∀ item ∈ items.map (·.2), ∃ ts, verifySparkSpend f pool item = some ts := by
      intro item hitem
      obtain ⟨ts, -, hts⟩ := mem_map.mp (h ▸ mem_map_of_mem hitem)
      exact ⟨ts, hts.symm⟩
    obtain ⟨groups, hgroups⟩ := exists_mapM fun anchor hanchor => verifyGroup_isSome hC hitems hanchor
    obtain ⟨tags', hbatch⟩ : ∃ tags', verifySparkPayloadsBatch C pool (items.map (·.2)) = some tags' :=
      ⟨_, by rw [verifySparkPayloadsBatch, hgroups, map_some]⟩
    have heq := (map_some_of_batch hf hbatch).trans h.symm
    rw [hbatch, map_injective_iff.mpr (some_injective _) heq]

/-- A spend, then a mint. -/
def spendAndMint : List (ℕ × Transaction × SparkPayload) :=
  [(2, coinbaseTx 0 [], { spend := some ⟨0, 5, 7⟩, valueBalance := 0 }),
    (2, coinbaseTx 1 [], { valueBalance := 0 })]

/-- Together and one by one. -/
theorem verifyVersionedBatch_spendAndMint :
    spendAndMint.mapM (verifySparkPayload (fun _ s => some [s.1]) { coins := [⟨1, 1, 0, 3⟩] })
      = some [[7], []] := by
  rw [← verifyVersionedBatch_eq_mapM (C := sampleCrypto) fun _ spends =>
    (mapM_eq_some_iff.mpr (by simp)).symm]
  decide +kernel

end CoinCync

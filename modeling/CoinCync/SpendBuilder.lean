import CoinCync.SparkGate

/-!
# Building a spend

`build_spend_payload_inner` of `consensus/spark_payload.rs`. The cover set handed to the prover is one
group of the pool, cut at the anchor height; the position handed to it is that of the owned coin in
the whole pool.
-/

namespace CoinCync

open List

namespace PoolContents

variable (p : PoolContents) (coverSetId anchorHeight : ℕ) (owned : Hash)

/-- `index_of`. -/
def indexOf : Option ℕ := p.coins.findIdx? (·.outpoint = owned)

/-- `context_for`. -/
def contextFor : Option Bytes :=
  (p.indexOf owned).bind fun i => p.coins[i]?.map (·.serialContext)

/-- The coins of a group, by insertion position. -/
def group : List SparkPoolCoin :=
  (p.coins.drop (coverSetId * sparkCoverSetGroup)).take sparkCoverSetGroup

/-- `cover_entries_at`. -/
def coverEntriesAt : List SparkPoolCoin := (p.group coverSetId).filter (·.height ≤ anchorHeight)

/-- Cover set, position and serial context for the prover. -/
def proverArgs : Option (List Bytes × ℕ × Bytes) := do
  let cover := p.coverSetAt coverSetId anchorHeight
  let ctx ← p.contextFor owned
  let idx ← p.indexOf owned
  if cover.length ≤ idx then none else some (cover, idx, ctx)

/-- `build_spend_payload_inner`; the prover has seed, value and recipient. -/
def buildSpendPayloadInner (prove : List Bytes × ℕ × Bytes → Option Bytes) : Option SparkPayload := do
  let bundle ← prove (← p.proverArgs coverSetId anchorHeight owned)
  some { spend := some ⟨coverSetId, anchorHeight, bundle⟩, valueBalance := 0 }

/-- The prover gets the position of the owned coin, and one exists if the anchor includes it. -/
structure PicksOwned : Prop where
  holds : ∀ cover idx ctx, p.proverArgs coverSetId anchorHeight owned = some (cover, idx, ctx) →
    ∃ c, (p.coverEntriesAt coverSetId anchorHeight)[idx]? = some c ∧ c.outpoint = owned ∧
      cover[idx]? = some c.coin
  found : ∀ i c, p.coins[i]? = some c → c.outpoint = owned → i / sparkCoverSetGroup = coverSetId →
    c.height ≤ anchorHeight → (p.proverArgs coverSetId anchorHeight owned).isSome

variable {p coverSetId anchorHeight owned}

lemma length_coverEntriesAt : (p.coverEntriesAt coverSetId anchorHeight).length
    = (p.group coverSetId).countP (·.height ≤ anchorHeight) :=
  countP_eq_length_filter.symm

/-- The set verified is the set built from. -/
lemma coverSetAt_eq_map :
    p.coverSetAt coverSetId anchorHeight
      = (p.coverEntriesAt coverSetId anchorHeight).map (·.coin) := by
  unfold coverSetAt coverEntriesAt group
  rw [← filterMap_eq_map, filterMap_filter]
  simp

/-- Outpoints identify coins. -/
lemma indexOf_eq_some (hp : (p.coins.map (·.outpoint)).Nodup) (hi : p.coins[i]? = some c)
    (hc : c.outpoint = owned) : p.indexOf owned = some i := by
  obtain ⟨hlt, rfl⟩ := List.getElem?_eq_some_iff.mp hi
  refine findIdx?_eq_some_iff_getElem.mpr ⟨hlt, by simpa using hc, fun j hj heq => ?_⟩
  have hsame : p.coins[j].outpoint = p.coins[i].outpoint := by simpa [hc] using heq
  have hcoin := inj_on_of_nodup_map hp (getElem_mem _) (getElem_mem _) hsame
  exact hj.ne ((hp.of_map _).getElem_inj_iff.mp hcoin)

/-- What the prover is called with. -/
lemma proverArgs_eq (coverSetId anchorHeight : ℕ) (hi : p.coins[i]? = some c)
    (hidx : p.indexOf owned = some i) :
    p.proverArgs coverSetId anchorHeight owned =
      if (p.coverEntriesAt coverSetId anchorHeight).length ≤ i then none
      else some (p.coverSetAt coverSetId anchorHeight, i, c.serialContext) := by
  simp [proverArgs, contextFor, hidx, hi, coverSetAt_eq_map]

lemma indexOf_of_proverArgs
    (h : p.proverArgs coverSetId anchorHeight owned = some (cover, idx, ctx)) :
    ∃ c, p.coins[idx]? = some c ∧ c.outpoint = owned ∧ p.indexOf owned = some idx := by
  cases hidx : p.indexOf owned with
  | none => simp [proverArgs, hidx] at h
  | some i =>
    obtain ⟨hlt, hc, -⟩ := findIdx?_eq_some_iff_getElem.mp hidx
    have hi := getElem?_eq_getElem hlt
    rw [proverArgs_eq _ _ hi hidx] at h
    split at h
    · cases h
    · cases h
      exact ⟨_, hi, by simpa using hc, rfl⟩

end PoolContents

section Filter

variable {α : Type*} {q : α → Bool} {l : List α} {k : ℕ} {a : α}

/-- Filtering moves elements to the front only. -/
lemma exists_of_getElem?_filter (h : (l.filter q)[k]? = some a) :
    ∃ j, k ≤ j ∧ l[j]? = some a ∧ (j = k → ∀ x ∈ l.take (k + 1), q x) := by
  induction l generalizing k with
  | nil => simp at h
  | cons x l ih =>
    cases hx : q x with
    | false =>
      rw [filter_cons_of_neg (by simp [hx])] at h
      obtain ⟨j, hj, hget, -⟩ := ih h
      exact ⟨j + 1, by omega, by simpa using hget, by omega⟩
    | true =>
      rw [filter_cons_of_pos hx] at h
      cases k with
      | zero =>
        refine ⟨0, le_rfl, by simpa using h, ?_⟩
        simp [hx]
      | succ k =>
        obtain ⟨j, hj, hget, hall⟩ := ih (by simpa using h)
        refine ⟨j + 1, by omega, by simpa using hget, fun heq => ?_⟩
        simpa [hx] using hall (by omega)

lemma getElem?_filter_of_all (h : l[k]? = some a) (hall : ∀ x ∈ l.take (k + 1), q x) :
    (l.filter q)[k]? = some a := by
  rw [← take_append_drop (k + 1) l, filter_append, filter_eq_self.mpr hall]
  obtain ⟨hlt, rfl⟩ := List.getElem?_eq_some_iff.mp h
  simp [getElem?_append, hlt]

end Filter

namespace PoolContents

variable {p : PoolContents} {coverSetId anchorHeight : ℕ} {owned : Hash}

/-- Nothing before the coin is cut. -/
lemma coverEntriesAt_of_kept (hi : p.coins[i]? = some c) (hlt : i < sparkCoverSetGroup)
    (hkept : ∀ x ∈ p.coins.take (i + 1), x.height ≤ anchorHeight) :
    (p.coverEntriesAt 0 anchorHeight)[i]? = some c := by
  refine getElem?_filter_of_all ?_ fun x hx => ?_
  · simpa [group, hlt] using hi
  · have hmin : min (i + 1) sparkCoverSetGroup = i + 1 := by omega
    simpa using hkept x (by simpa [group, take_take, hmin] using hx)

/-- Where the owned coin keeps its position: group 0, nothing before it cut. -/
lemma kept_of_coverEntriesAt (hp : (p.coins.map (·.outpoint)).Nodup)
    (hidx : p.indexOf owned = some i)
    (hget : (p.coverEntriesAt coverSetId anchorHeight)[i]? = some c) (hc : c.outpoint = owned) :
    coverSetId = 0 ∧ i < sparkCoverSetGroup ∧
      ∀ x ∈ p.coins.take (i + 1), x.height ≤ anchorHeight := by
  obtain ⟨j, hij, hj, hall⟩ := exists_of_getElem?_filter hget
  simp only [group, getElem?_take, Option.ite_none_right_eq_some, getElem?_drop] at hj
  obtain ⟨hlt, hpool⟩ := hj
  have heq := (indexOf_eq_some hp hpool hc).symm.trans hidx
  rw [Option.some.injEq] at heq
  have hzero : coverSetId = 0 := by
    have := Nat.mul_eq_zero.mp (show coverSetId * sparkCoverSetGroup = 0 by omega)
    exact this.resolve_right (by decide)
  subst hzero
  have hji : j = i := by omega
  subst hji
  have hmin : min (j + 1) sparkCoverSetGroup = j + 1 := by omega
  exact ⟨rfl, hlt, by simpa [group, take_take, hmin] using hall rfl⟩

/-- The builder is right when the owned coin is in group 0 and the anchor cuts no coin before it,
and when it is not in the anchored group and the group has no position so high. -/
theorem picksOwned_iff (hp : (p.coins.map (·.outpoint)).Nodup) :
    p.PicksOwned coverSetId anchorHeight owned ↔
      ∀ i c, p.coins[i]? = some c → c.outpoint = owned →
        (coverSetId = 0 ∧ i < sparkCoverSetGroup ∧
          ∀ x ∈ p.coins.take (i + 1), x.height ≤ anchorHeight) ∨
        (¬ (i / sparkCoverSetGroup = coverSetId ∧ c.height ≤ anchorHeight) ∧
          (p.group coverSetId).countP (·.height ≤ anchorHeight) ≤ i) := by
  simp only [← length_coverEntriesAt]
  constructor
  · intro h i c hi hc
    have hidx := indexOf_eq_some hp hi hc
    have hargs := proverArgs_eq coverSetId anchorHeight hi hidx
    by_cases hlen : (p.coverEntriesAt coverSetId anchorHeight).length ≤ i
    · rw [if_pos hlen] at hargs
      exact .inr ⟨fun ⟨hg, ha⟩ => by simpa [hargs] using h.found i c hi hc hg ha, hlen⟩
    · rw [if_neg hlen] at hargs
      obtain ⟨d, hget, hd, -⟩ := h.holds _ _ _ hargs
      exact .inl (kept_of_coverEntriesAt hp hidx hget hd)
  · intro h
    refine ⟨fun cover idx ctx hargs => ?_, fun i c hi hc hg ha => ?_⟩
    · obtain ⟨c, hi, hc, hidx⟩ := indexOf_of_proverArgs hargs
      rw [proverArgs_eq coverSetId anchorHeight hi hidx] at hargs
      obtain ⟨rfl, hlt, hkept⟩ | ⟨-, hlen⟩ := h idx c hi hc
      · have hget := coverEntriesAt_of_kept hi hlt hkept
        split at hargs
        · cases hargs
        · cases hargs
          exact ⟨c, hget, hc, by simp [coverSetAt_eq_map, hget]⟩
      · rw [if_pos hlen] at hargs
        cases hargs
    · obtain ⟨rfl, hlt, hkept⟩ | ⟨hnot, -⟩ := h i c hi hc
      · have hget := coverEntriesAt_of_kept hi hlt hkept
        have hlen := (List.getElem?_eq_some_iff.mp hget).1
        rw [proverArgs_eq 0 anchorHeight hi (indexOf_eq_some hp hi hc), if_neg (by omega)]
        rfl
      · exact absurd ⟨hg, ha⟩ hnot

end PoolContents

/-- One coin more than a group holds, all of height 1. -/
def twoGroups : PoolContents :=
  { coins := (List.range (sparkCoverSetGroup + 1)).map fun k => ⟨k, k, 0, 1⟩ }

/-- A coin of the first group. -/
theorem picksOwned_firstGroup : twoGroups.PicksOwned 0 1 100 :=
  (PoolContents.picksOwned_iff (by decide +kernel)).mpr fun i c hi hc => by
    simp only [twoGroups, getElem?_map, Option.map_eq_some_iff, List.getElem?_eq_some_iff,
      getElem_range] at hi
    obtain ⟨_, ⟨-, rfl⟩, rfl⟩ := hi
    cases hc
    exact .inl ⟨rfl, by decide, by decide +kernel⟩

/-- The first coin of the second group is in its group and cannot be spent there. -/
theorem not_picksOwned_secondGroup : ¬ twoGroups.PicksOwned 1 1 512 := fun h =>
  absurd (h.found 512 ⟨512, 512, 0, 1⟩ (by decide +kernel) rfl rfl le_rfl) (by decide +kernel)

end CoinCync

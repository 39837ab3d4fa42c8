import CoinCync.Finality
import CoinCync.Lib.Table

/-!
# The window of activity

Of each miner the active set keeps the first and the last height of its blocks, and the number of
active miners depends on nothing else. A block with a forged attestation leaves its miner behind: it
is recorded before the signature is verified.
-/

namespace CoinCync

open Bytes List Option ActiveMinerSet

namespace ActiveMinerSet

variable {s s' : ActiveMinerSet} {m : MinerPubkey} {h k w : ℕ} {l : List (MinerPubkey × ℕ)}

lemma map_eq_modify (rows : List (MinerPubkey × MinerRecord)) :
    (rows.map fun r => if r.1 = m ∧ r.2.lastSeenHeight < k then
      (r.1, { r.2 with lastSeenHeight := k }) else r) =
    Table.modify m (fun r => ⟨r.firstSeenHeight, max r.lastSeenHeight k⟩) rows := by
  refine map_congr_left ?_
  rintro ⟨m', first, last⟩ -
  by_cases hr : m' = m <;> by_cases hlt : last < k
  · simp [hlt, max_eq_right (le_of_lt hlt)]
  · simp [hlt, max_eq_left (Nat.le_of_not_lt hlt)]
  · simp [hr]
  · simp [hr]

@[simp] lemma window_recordBlock : (s.recordBlock m k).window = s.window := by
  unfold recordBlock
  split <;> rfl

lemma lookup_recordBlock (m' : MinerPubkey) :
    (s.recordBlock m k).miners.lookup m' =
      if m' = m then some ((s.miners.lookup m).elim ⟨k, k⟩ fun r => ⟨r.firstSeenHeight, max r.lastSeenHeight k⟩)
      else s.miners.lookup m' := by
  unfold recordBlock
  cases hm : s.miners.lookup m with
  | none => exact Table.lookup_cons _ _ _
  | some r =>
    rw [map_eq_modify, Table.lookup_modify, hm]
    rfl

/-- One record for each miner, with its heights in order. -/
structure Sound (s : ActiveMinerSet) : Prop where
  nodup : (s.miners.map (·.1)).Nodup
  le : ∀ m r, s.miners.lookup m = some r → r.firstSeenHeight ≤ r.lastSeenHeight

lemma sound_new (w : ℕ) : Sound { window := w } := ⟨nodup_nil, by simp⟩

lemma Sound.recordBlock (hs : s.Sound) (m : MinerPubkey) (k : ℕ) : (s.recordBlock m k).Sound := by
  constructor
  · unfold ActiveMinerSet.recordBlock
    cases hm : s.miners.lookup m with
    | none => exact nodup_cons.mpr ⟨Table.lookup_eq_none_iff_notMem.mp hm, hs.nodup⟩
    | some r =>
      rw [map_eq_modify, Table.keys_modify]
      exact hs.nodup
  · intro m' r hr
    rw [lookup_recordBlock] at hr
    split_ifs at hr
    · obtain rfl := some.inj hr
      cases hm : s.miners.lookup m with
      | none => exact le_refl k
      | some r => exact le_trans (hs.le m r hm) (le_max_left _ _)
    · exact hs.le m' r hr

/-- How many miners are active is a matter of who is. -/
lemma activeCount_congr (hs : s.Sound) (hs' : s'.Sound) (h : ℕ)
    (hactive : ∀ m, s.isActive m h = s'.isActive m h) : s.activeCount h = s'.activeCount h := by
  have hcard : ∀ s : ActiveMinerSet, s.Sound → s.activeCount h =
      ((s.miners.map (·.1)).filter (s.isActive · h)).length := by
    intro s hs
    have hrow : ∀ r ∈ s.miners, s.isActive r.1 h = isActiveRecord r.2 h s.window := by
      intro r hr
      rw [isActive, Table.lookup_eq_some_of_mem hs.nodup hr]
    rw [List.filter_map, length_map]
    exact congrArg length (filter_congr fun r hr => (hrow r hr).symm)
  have hmem : ∀ (s : ActiveMinerSet) m, s.isActive m h = true → m ∈ s.miners.map (·.1) := by
    intro s m hm
    by_contra hnot
    rw [isActive, Table.lookup_eq_none_iff_notMem.mpr hnot] at hm
    cases hm
  rw [hcard s hs, hcard s' hs']
  refine ((perm_ext_iff_of_nodup (hs.nodup.filter _) (hs'.nodup.filter _)).mpr fun m => ?_).length_eq
  simp only [mem_filter, ← hactive]
  exact and_congr_left fun hm => iff_of_true (hmem s m hm) (hmem s' m (hactive m ▸ hm))

/-! ## Histories -/

/-- `ActiveMinerSet::new` and `record_block` for every entry. -/
def recordAll (window : ℕ) (l : List (MinerPubkey × ℕ)) : ActiveMinerSet :=
  l.foldl (fun s e => s.recordBlock e.1 e.2) { window := window }

/-- The miner recorded a block in `(h - window, h]`. -/
def MinedIn (w : ℕ) (l : List (MinerPubkey × ℕ)) (m : MinerPubkey) (h : ℕ) : Prop :=
  ∃ k, (m, k) ∈ l ∧ k ≤ h ∧ h < k + w

/-- Active at `h` are those who mined in the window, whatever comes above `h`. -/
structure WindowExact (w : ℕ) (l : List (MinerPubkey × ℕ)) (h : ℕ) : Prop where
  mined : ∀ m, (recordAll w l).isActive m h = true ↔ MinedIn w l m h
  stable : ∀ l1 l2, l = l1 ++ l2 → (∀ e ∈ l2, h < e.2) →
    (∀ m, (recordAll w l1).isActive m h = (recordAll w l).isActive m h) ∧
      (recordAll w l1).activeCount h = (recordAll w l).activeCount h

lemma recordAll_concat (e : MinerPubkey × ℕ) :
    recordAll w (l ++ [e]) = (recordAll w l).recordBlock e.1 e.2 := by
  simp [recordAll]

lemma sound_recordAll (w : ℕ) (l : List (MinerPubkey × ℕ)) :
    (recordAll w l).Sound ∧ (recordAll w l).window = w := by
  induction l using reverseRecOn with
  | nil => exact ⟨sound_new w, rfl⟩
  | append_singleton l e ih =>
    rw [recordAll_concat]
    exact ⟨ih.1.recordBlock _ _, window_recordBlock.trans ih.2⟩

/-- A miner's record: its lowest and its highest block. -/
lemma lookup_recordAll (hl : l.Pairwise (·.2 ≤ ·.2)) (m : MinerPubkey) :
    match (recordAll w l).miners.lookup m with
    | none => ∀ k, (m, k) ∉ l
    | some r => (m, r.firstSeenHeight) ∈ l ∧ (m, r.lastSeenHeight) ∈ l ∧
        ∀ k, (m, k) ∈ l → r.firstSeenHeight ≤ k ∧ k ≤ r.lastSeenHeight := by
  induction l using reverseRecOn with
  | nil => simp [recordAll]
  | append_singleton l e ih =>
    obtain ⟨m', k'⟩ := e
    obtain ⟨hl, -, hle⟩ := pairwise_append.mp hl
    have ih := ih hl
    rw [recordAll_concat, lookup_recordBlock]
    by_cases hm : m = m'
    · subst hm
      have hlast : ∀ k, (m, k) ∈ l → k ≤ k' := fun k hk => hle _ hk (m, k') (by simp)
      rw [if_pos rfl]
      cases hr : (recordAll w l).miners.lookup m with
      | none =>
        rw [hr] at ih
        simp [show ∀ k, (m, k) ∉ l from ih]
      | some r =>
        rw [hr] at ih
        obtain ⟨hfirst, hat, hbounds⟩ := ih
        have hmax : max r.lastSeenHeight k' = k' := max_eq_right (hlast _ hat)
        simp only [elim_some, hmax, mem_append, mem_singleton, Prod.mk.injEq, true_and]
        refine ⟨.inl hfirst, .inr trivial, ?_⟩
        rintro k (hk | rfl)
        · exact ⟨(hbounds k hk).1, hlast k hk⟩
        · exact ⟨hlast _ hfirst, le_refl _⟩
    · rw [if_neg hm]
      have hne : ∀ k, (m, k) ∈ l ++ [(m', k')] ↔ (m, k) ∈ l := by
        intro k
        rw [mem_append, mem_singleton, or_iff_left (fun he => hm (congrArg Prod.fst he))]
      simp only [hne]
      exact ih

/-- All blocks of the miner lie above `h - window`, or none above `h`. -/
def OneSided (w : ℕ) (l : List (MinerPubkey × ℕ)) (m : MinerPubkey) (h : ℕ) : Prop :=
  (∀ k, (m, k) ∈ l → h < k + w) ∨ ∀ k, (m, k) ∈ l → k ≤ h

/-- Active are those who mined in the window, all on one side. -/
lemma isActive_recordAll (hl : l.Pairwise (·.2 ≤ ·.2)) (m : MinerPubkey) (h : ℕ) :
    (recordAll w l).isActive m h = true ↔ MinedIn w l m h ∧ OneSided w l m h := by
  have hr := lookup_recordAll (w := w) hl m
  unfold isActive
  cases hlookup : (recordAll w l).miners.lookup m with
  | none =>
    rw [hlookup] at hr
    simp [MinedIn, show ∀ k, (m, k) ∉ l from hr]
  | some r =>
    rw [hlookup] at hr
    obtain ⟨hfirst, hlast, hbounds⟩ := hr
    simp only [isActiveRecord, (sound_recordAll w l).2]
    constructor
    · intro hactive
      split_ifs at hactive with hbefore hin
      · exact ⟨⟨_, hfirst, by omega, by omega⟩, .inl fun k hk => by have := hbounds k hk; omega⟩
      · have hactive := of_decide_eq_true hactive
        exact ⟨⟨_, hlast, by omega, by omega⟩, .inr fun k hk => by have := hbounds k hk; omega⟩
    · rintro ⟨⟨k, hk, hkh, hhk⟩, hside⟩
      have hkb := hbounds k hk
      rw [if_neg (by omega)]
      rcases hside with hside | hside
      · have := hside _ hfirst
        rw [if_pos (by omega)]
      · have := hside _ hlast
        split_ifs
        · rfl
        · exact decide_eq_true (by omega)

/-- For every history the window is exact at a height iff each miner who mined in it has all its
blocks above its start, or none above its end. -/
theorem windowExact_iff (w : ℕ) (hl : l.Pairwise (·.2 ≤ ·.2)) (h : ℕ) :
    WindowExact w l h ↔ ∀ m, MinedIn w l m h → OneSided w l m h := by
  constructor
  · intro hexact m hm
    exact ((isActive_recordAll hl m h).mp ((hexact.mined m).mpr hm)).2
  · intro hside
    refine ⟨fun m => ?_, ?_⟩
    · rw [isActive_recordAll hl]
      exact and_iff_left_of_imp (hside m)
    · rintro l1 l2 rfl habove
      have hl1 := (pairwise_append.mp hl).1
      have hmined : ∀ m, MinedIn w (l1 ++ l2) m h ↔ MinedIn w l1 m h := by
        intro m
        refine ⟨?_, fun ⟨k, hk, hh⟩ => ⟨k, mem_append_left _ hk, hh⟩⟩
        rintro ⟨k, hk, hkh, hhk⟩
        rcases mem_append.mp hk with hk | hk
        · exact ⟨k, hk, hkh, hhk⟩
        · exact absurd (habove _ hk) (by simpa using hkh)
      have hactive : ∀ m, (recordAll w l1).isActive m h = (recordAll w (l1 ++ l2)).isActive m h := by
        intro m
        rw [Bool.eq_iff_iff, isActive_recordAll hl1, isActive_recordAll hl, hmined,
          and_congr_right_iff]
        intro hm
        have hside := hside m ((hmined m).mpr hm)
        exact iff_of_true (hside.imp (fun hk k h => hk k (mem_append_left _ h))
          fun hk k h => hk k (mem_append_left _ h)) hside
      exact ⟨hactive, activeCount_congr (sound_recordAll w l1).1 (sound_recordAll w _).1 h hactive⟩

/-- A miner with blocks inside and above the window, none before it. -/
theorem windowExact_recent : WindowExact 10 [([1], 95), ([1], 200)] 100 := by
  refine (windowExact_iff 10 (by simp) 100).mpr fun m _ => .inl fun k hk => ?_
  simp at hk
  omega

/-- A miner who mined before, in and after the window is not active in it any more. -/
theorem lapses_by_mining :
    MinedIn 10 [([1], 5), ([1], 100), ([1], 200)] [1] 100 ∧
      (recordAll 10 [([1], 5), ([1], 100), ([1], 200)]).isActive [1] 100 = false ∧
      (recordAll 10 [([1], 5), ([1], 100)]).isActive [1] 100 = true ∧
      (recordAll 10 [([1], 5), ([1], 100)]).activeCount 100 = 1 ∧
      (recordAll 10 [([1], 5), ([1], 100), ([1], 200)]).activeCount 100 = 0 :=
  ⟨⟨100, by decide⟩, by decide⟩

end ActiveMinerSet

/-! ## A forged attestation -/

namespace FinalityTracker

variable {verify : FinalityAttestation → Bool} {t : FinalityTracker} {a : FinalityAttestation}
  {extra : List UInt8} {window minQuorum staleHorizon : ℕ}

/-- Active miners, tallies and soft-final height are as before. -/
structure Unaffected (t t' : FinalityTracker) : Prop where
  active : ∀ m h, t'.activeSet.isActive m h = t.activeSet.isActive m h
  count : ∀ h, t'.activeSet.activeCount h = t.activeSet.activeCount h
  tallies : t'.attestations = t.attestations
  softFinal : t'.softFinalHeight = t.softFinalHeight

/-- One accepted block: its height and the bytes of its coinbase. -/
def accept (verify : FinalityAttestation → Bool) (t : FinalityTracker) (e : ℕ × List UInt8) :
    Option FinalityTracker := some (onAcceptedBlock verify t e.1 e.2).1

lemma activeSet_recordBlock (miner : MinerPubkey) (k : ℕ) :
    (t.recordBlock miner k).activeSet = t.activeSet.recordBlock miner k := by
  unfold recordBlock
  dsimp only
  split <;> rfl

lemma sound_of_reaches
    (h : Run.Reaches (accept verify) (fun _ _ => True) (withParams window minQuorum staleHorizon) t) :
    t.activeSet.Sound ∧ t.activeSet.window = window := by
  refine h.invariant (P := fun t => t.activeSet.Sound ∧ t.activeSet.window = window)
    ⟨sound_new window, rfl⟩ ?_
  rintro t ⟨k, extra⟩ t' hs - hstep
  obtain rfl := some.inj hstep
  rw [fst_onAcceptedBlock]
  cases attestationOf extra with
  | none => exact hs
  | some a =>
    have happly : ((t.recordBlock a.minerPubkey k).applyAttestation verify a).1.activeSet =
        t.activeSet.recordBlock a.minerPubkey k := by
      rw [← activeSet_recordBlock]
      unfold applyAttestation
      split_ifs <;> rfl
    rw [happly]
    exact ⟨hs.1.recordBlock _ _, (window_recordBlock ..).trans hs.2⟩

/-- After any blocks: a block with an invalid attestation contributes nothing iff the named miner
has been recorded at its height or above and no tally is pruned there. -/
theorem rejected_contributes_nothing_iff (hwindow : 0 < window)
    (ht : Run.Reaches (accept verify) (fun _ _ => True) (withParams window minQuorum staleHorizon) t)
    (ha : attestationOf extra = some a) (hbad : verify a = false) (k : ℕ) :
    t.Unaffected (onAcceptedBlock verify t k extra).1 ↔
      (∃ r, t.activeSet.miners.lookup a.minerPubkey = some r ∧ k ≤ r.lastSeenHeight) ∧
        (t.chainTip < k → ∀ r ∈ t.attestations, k - t.staleHorizon ≤ r.targetHeight) := by
  obtain ⟨hsound, hwin⟩ := sound_of_reaches ht
  have hfst : (onAcceptedBlock verify t k extra).1 = t.recordBlock a.minerPubkey k := by
    rw [fst_onAcceptedBlock, ha]
    simp [applyAttestation, hbad]
  have htallies : (t.recordBlock a.minerPubkey k).attestations = t.attestations ↔
      (t.chainTip < k → ∀ r ∈ t.attestations, k - t.staleHorizon ≤ r.targetHeight) := by
    unfold recordBlock
    dsimp only
    split_ifs with htip
    · simp [pruneStaleAttestations, htip]
    · simp [htip]
  have hlookup := lookup_recordBlock (s := t.activeSet) (m := a.minerPubkey) (k := k)
  rw [hfst, ← htallies]
  constructor
  · intro h
    refine ⟨?_, h.tallies⟩
    have hactive := h.active a.minerPubkey
    rw [activeSet_recordBlock] at hactive
    simp only [isActive, hlookup, if_true, window_recordBlock, hwin] at hactive
    cases hr : t.activeSet.miners.lookup a.minerPubkey with
    | none =>
      -- a new miner is active at its own block
      have hk := hactive k
      simp [hr, isActiveRecord, hwindow] at hk
    | some r =>
      refine ⟨r, rfl, ?_⟩
      by_contra hlt
      -- at the last height its block keeps it active, nothing did before
      have hle := hsound.le _ r hr
      have hk := hactive (k + window - 1)
      simp only [hr, elim_some, isActiveRecord] at hk
      rw [if_neg (by omega), if_neg (by omega), if_neg (by omega), if_neg (by omega),
        decide_eq_true (by omega), decide_eq_false (by omega)] at hk
      cases hk
  · rintro ⟨⟨r, hr, hle⟩, hsame⟩
    have hactive : ∀ m h, (t.recordBlock a.minerPubkey k).activeSet.isActive m h =
        t.activeSet.isActive m h := by
      intro m h
      rw [activeSet_recordBlock]
      simp only [isActive, hlookup, window_recordBlock]
      split_ifs with hm
      · rw [hm, hr]
        simp [max_eq_left hle]
      · rfl
    refine ⟨hactive, fun h => ?_, hsame, softFinalHeight_recordBlock ..⟩
    refine activeCount_congr ?_ hsound h fun m => hactive m h
    rw [activeSet_recordBlock]
    exact hsound.recordBlock _ _

end FinalityTracker

/-- A forged attestation by the first miner. -/
def forgedExtra : List UInt8 := sampleExtra 1 50000 (sampleHash 50000)

/-- A block of a miner that is recorded at its height already. -/
theorem rejected_contributes_nothing_again :
    (onAcceptedBlock (fun _ => false) .newDefault 50001 forgedExtra).1.Unaffected
      (onAcceptedBlock (fun _ => false)
        (onAcceptedBlock (fun _ => false) .newDefault 50001 forgedExtra).1 50001 forgedExtra).1 :=
  (FinalityTracker.rejected_contributes_nothing_iff (by decide)
    (.tail (i := (50001, forgedExtra)) .refl trivial rfl)
    (a := ⟨toLe 32 1, 50000, sampleHash 50000, replicate 64 0⟩) (by decide +kernel) rfl 50001).mpr
    ⟨⟨⟨50001, 50001⟩, by decide +kernel⟩, by decide +kernel⟩

/-- The attestation is rejected, and its miner counts. -/
theorem forged_miner_is_active :
    (onAcceptedBlock (fun _ => false) .newDefault 50001 forgedExtra).2 = .rejected .invalidSignature ∧
      (onAcceptedBlock (fun _ => false) .newDefault 50001 forgedExtra).1.activeSet.activeCount 50001 ≠
        FinalityTracker.newDefault.activeSet.activeCount 50001 := by
  decide +kernel

end CoinCync

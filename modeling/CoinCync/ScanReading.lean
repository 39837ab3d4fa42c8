import Mathlib.Data.List.TakeWhile
import CoinCync.ScanTable

/-!
# An invocation of the scan command

What the variables of a running invocation say about the blocks it has read (`Reading`), how these
lie to the chain of the node, with a bound on the answers to come (`Phase`), and what every answer of
the node leads to (`answered`).
-/

namespace CoinCync.Wallet

open List Option WalletScanner

open Rescan (Feed)

namespace ScanSetup

variable {F G : Type} [CommRing F] [AddCommGroup G] [Module F G] {C : Curve F G} (U : ScanSetup C)

/-! ## Chains -/

/-- Blocks from genesis on, each the parent of the next, without a repeated output. -/
@[mk_iff] structure Canonical (known chain : List Block) : Prop where
  known : ∀ block ∈ chain, block ∈ known
  heights : chain.map Block.height = List.range chain.length
  links : chain.IsChain fun b c => c.header.prevHash = U.env.blockHash b.header
  images : ((chain.flatMap U.rows).map Utxo.keyImage).Nodup

instance (known chain : List Block) : Decidable (U.Canonical known chain) :=
  decidable_of_iff _ (U.canonical_iff known chain).symm

variable {U} {known chain q : List Block} {b : Block} {h : ℕ}

/-- Blocks stand at their heights. -/
lemma Canonical.height_eq (hchain : U.Canonical known chain) (hblock : chain[h]? = some b) :
    b.height = h := by
  have hmap : (chain.map Block.height)[h]? = some b.height := by
    rw [getElem?_map, hblock, map_some]
  rw [hchain.heights, getElem?_range (List.getElem?_eq_some_iff.mp hblock).1] at hmap
  exact (some.inj hmap).symm

lemma Canonical.prevHash_eq (hchain : U.Canonical known chain) (hparent : chain[h]? = some parent)
    (hblock : chain[h + 1]? = some b) : b.header.prevHash = U.env.blockHash parent.header := by
  obtain ⟨hlt, rfl⟩ := List.getElem?_eq_some_iff.mp hblock
  obtain ⟨-, rfl⟩ := List.getElem?_eq_some_iff.mp hparent
  exact isChain_iff_getElem.mp hchain.links h hlt

lemma Canonical.mem_known (hchain : U.Canonical known chain) (hblock : chain[h]? = some b) :
    b ∈ known := hchain.known b (mem_of_getElem? hblock)

/-- A part of a chain is one. -/
lemma Canonical.of_prefix (hchain : U.Canonical known chain) (hq : q <+: chain) :
    U.Canonical known q := by
  obtain ⟨rest, rfl⟩ := hq
  refine ⟨fun b hb => hchain.known b (mem_append_left _ hb), ?_, ?_, ?_⟩
  · have htake := congrArg (take q.length) hchain.heights
    rw [map_append, take_left' (by simp), take_range] at htake
    rw [htake, length_append, min_eq_left (Nat.le_add_right _ _)]
  · exact (isChain_append.mp hchain.links).1
  · have himages := hchain.images
    rw [flatMap_append, map_append] at himages
    exact himages.of_append_left

/-- One block in common is everything below in common. -/
lemma Canonical.take_eq (hdistinct : U.Distinct known) (hq : U.Canonical known q)
    (hchain : U.Canonical known chain) (hblock : q[h]? = some b) (hblock' : chain[h]? = some b) :
    q.take (h + 1) = chain.take (h + 1) := by
  induction h generalizing b with
  | zero => rw [take_add_one, take_add_one, hblock, hblock', take_zero, take_zero]
  | succ h ih =>
    have hlt := (List.getElem?_eq_some_iff.mp hblock).1
    have hlt' := (List.getElem?_eq_some_iff.mp hblock').1
    have hparent : q[h]? = some q[h] := getElem?_eq_getElem (by omega)
    have hparent' : chain[h]? = some chain[h] := getElem?_eq_getElem (by omega)
    have hsame : q[h] = chain[h] := by
      apply hdistinct.block_eq _ (hq.mem_known hparent) _ (hchain.mem_known hparent')
      rw [← hq.prevHash_eq hparent hblock, hchain.prevHash_eq hparent' hblock']
    have hbelow := ih hparent (by rw [hparent', hsame])
    rw [take_add_one, hblock, hbelow, take_add_one (i := h + 1), hblock']

lemma isSome_created : (U.feed.created b key).isSome ↔ ∃ u ∈ U.rows b, u.key = key := by
  simp [feed]

/-- No output is created in two parts of a chain. -/
lemma Canonical.once (hdistinct : U.Distinct known) (hchain : U.Canonical known (p ++ s))
    (hs : U.feed.Creates s key) : ¬U.feed.Creates p key := by
  rintro ⟨c, hc, hcreated⟩
  obtain ⟨b, hb, hcreated'⟩ := hs
  obtain ⟨v, hv, hkey⟩ := isSome_created.mp hcreated
  obtain ⟨u, hu, hkey'⟩ := isSome_created.mp hcreated'
  have himage : v.keyImage = u.keyImage :=
    (hdistinct.keyImage_iff (hchain.known c (mem_append_left _ hc))
      (hchain.known b (mem_append_right _ hb)) hv hu).mpr (hkey.trans hkey'.symm)
  have himages := hchain.images
  rw [flatMap_append, map_append, nodup_append] at himages
  exact himages.2.2 v.keyImage (mem_map_of_mem (mem_flatMap_of_mem hc hv)) u.keyImage
    (mem_map_of_mem (mem_flatMap_of_mem hb hu)) himage

/-! ## The entries of a journal -/

variable {n : ℕ} {journal : List BlockApplyDiff} {diff : BlockApplyDiff}

/-- An entry stands for the block at its height. -/
lemma Journal.block (hjournal : U.Journal n q journal) (hdiff : diff ∈ journal) :
    q.length ≤ diff.height + journal.length ∧
      ∃ block, q[diff.height]? = some block ∧ diff.blockHash = U.env.blockHash block.header := by
  induction hjournal with
  | nil q => simp at hdiff
  | @cons q block entry journal _ hrecords ih =>
    rw [length_append, length_singleton, length_cons]
    rcases mem_cons.mp hdiff with rfl | hdiff
    · rw [hrecords.height]
      exact ⟨by omega, block, by simp, hrecords.hash⟩
    · obtain ⟨hlen, block', hblock', hhash⟩ := ih hdiff
      refine ⟨by omega, block', ?_, hhash⟩
      rwa [getElem?_append_left (List.getElem?_eq_some_iff.mp hblock').1]

/-- The journal has an entry for each of the last blocks. -/
lemma Journal.entry (hjournal : U.Journal n q journal) (hh : h < q.length)
    (hwindow : q.length ≤ h + journal.length) : ∃ diff ∈ journal, diff.height = h := by
  induction hjournal with
  | nil q => simp at hwindow; omega
  | @cons q block entry journal _ hrecords ih =>
    rw [length_append, length_singleton] at hh hwindow
    rw [length_cons] at hwindow
    by_cases hlast : h = q.length
    · exact ⟨entry, mem_cons_self, hrecords.height.trans hlast.symm⟩
    · obtain ⟨diff, hdiff, hheight⟩ := ih (by omega) (by omega)
      exact ⟨diff, mem_cons_of_mem _ hdiff, hheight⟩

lemma Journal.height_head
    (hjournal : U.Journal n q (diff :: older)) : diff.height + 1 = q.length := by
  cases hjournal with
  | cons _ hrecords => simp [hrecords.height]

lemma Journal.height_getLast (hjournal : U.Journal n q journal) (hdiff : journal.getLast? = some diff) :
    diff.height + journal.length = q.length := by
  induction hjournal with
  | nil q => simp at hdiff
  | @cons q block entry journal _ hrecords ih =>
    cases journal with
    | nil =>
      obtain rfl : entry = diff := by simpa using hdiff
      simp [hrecords.height]
    | cons next older =>
      have hlen := ih hdiff
      simp only [length_cons, length_append, length_nil] at hlen ⊢
      omega

/-! ## An invocation -/

variable (U) in
/-- The block of an entry is on the chain. -/
def OnChain (chain : List Block) (diff : BlockApplyDiff) : Prop :=
  getBlockHash U.env chain diff.height = some diff.blockHash

instance (chain : List Block) (diff : BlockApplyDiff) : Decidable (U.OnChain chain diff) :=
  inferInstanceAs (Decidable (_ = _))

lemma concat_isPrefix (hq : q <+: chain) (hb : chain[q.length]? = some b) : q ++ [b] <+: chain := by
  rw [prefix_iff_eq_take, length_append, length_singleton, take_add_one, hb,
    ← prefix_iff_eq_take.mp hq]
  rfl

/-- Then all blocks up to it are. -/
lemma onChain_iff (hdistinct : U.Distinct known) (hq : U.Canonical known q)
    (hchain : U.Canonical known chain) (hjournal : U.Journal n q journal) (hdiff : diff ∈ journal) :
    U.OnChain chain diff ↔ q.take (diff.height + 1) <+: chain := by
  obtain ⟨-, block, hblock, hhash⟩ := hjournal.block hdiff
  unfold OnChain getBlockHash
  rw [map_eq_some_iff, hhash]
  constructor
  · rintro ⟨block', hblock', hsame⟩
    obtain rfl := hdistinct.block_eq _ (hchain.mem_known hblock') _ (hq.mem_known hblock) hsame
    rw [hq.take_eq hdistinct hchain hblock hblock']
    exact take_prefix _ _
  · intro hprefix
    refine ⟨block, ?_, rfl⟩
    have hget : (q.take (diff.height + 1))[diff.height]? = some block := by
      rw [getElem?_take_of_lt (Nat.lt_succ_self _), hblock]
    obtain ⟨rest, rfl⟩ := hprefix
    rw [getElem?_append_left (List.getElem?_eq_some_iff.mp hget).1, hget]

lemma onChain_head_iff (hdistinct : U.Distinct known) (hq : U.Canonical known q)
    (hchain : U.Canonical known chain)
    (hjournal : U.Journal n q (diff :: older)) : U.OnChain chain diff ↔ q <+: chain := by
  rw [onChain_iff hdistinct hq hchain hjournal mem_cons_self, hjournal.height_head, take_length]

variable (U) in
/-- The invocation has read the blocks `q`, from `start` on; what stands before `start` or is ahead
in `D`, the blocks of the saved balance, is there from before. -/
structure Reading (known D : List Block) (start : ℕ) (r : Scan) (q : List Block) : Prop where
  canonical : U.Canonical known q
  sound : U.Sound known r.balance
  start_le : start ≤ q.length
  agree : q <+: D ∨ D <+: q
  early : q.length < D.length → U.feed.Covers D start q.length r.balance.get
  late : D.length ≤ q.length → r.balance.get = U.feed.replay q
  journal : U.Journal D.length q r.scanner.journal
  window : ∀ diff ∈ r.scanner.journal, start ≤ diff.height
  fresh : r.scanner.journal = [] → q.length = start ∧ r.lastHeight = start
  back : ∀ diff ∈ r.scanner.journal.head?, r.scanner.lastHeight = diff.height
  max_pos : 0 < r.scanner.journalMax
  le_lastHeight : q.length ≤ r.lastHeight + 1
  span_pos : 0 < r.batchSpan
  span_le : r.batchSpan ≤ 100

section Reading

variable {D : List Block} {start : ℕ} {r : Scan} (hdistinct : U.Distinct known)
  (hchain : U.Canonical known chain)

include hdistinct hchain

variable (hr : U.Reading known D start r q)
include hr

/-- A block that extends what was read. -/
lemma Reading.reorgSignal_eq_none (hq : q <+: chain)
    (hb : chain[q.length]? = some b) : r.scanner.reorgSignal b = none := by
  have hjournal := hr.journal
  unfold reorgSignal
  cases hback : r.scanner.journal with
  | nil => rfl
  | cons back older =>
    rw [hback] at hjournal
    have hheight := hjournal.height_head
    have hon := (onChain_head_iff hdistinct hr.canonical hchain hjournal).mpr hq
    obtain ⟨parent, hparent, hhash⟩ := map_eq_some_iff.mp hon
    rw [← hheight] at hb
    have hprev := hchain.prevHash_eq hparent hb
    have hbheight := hchain.height_eq hb
    simp only [hbheight, hprev, hhash]
    simp

lemma Reading.reorgSignal_eq_some (hq : ¬q <+: chain)
    (hb : chain[q.length]? = some b) {diff : BlockApplyDiff} (hdiff : diff ∈ r.scanner.journal) :
    ∃ expected, r.scanner.reorgSignal b = some expected := by
  have hjournal := hr.journal
  unfold reorgSignal
  cases hback : r.scanner.journal with
  | nil => simp [hback] at hdiff
  | cons back older =>
    rw [hback] at hjournal
    have hheight := hjournal.height_head
    have hon := fun h => hq ((onChain_head_iff hdistinct hr.canonical hchain hjournal).mp h)
    rw [← hheight] at hb
    have hlt := (List.getElem?_eq_some_iff.mp hb).1
    have hparent : chain[back.height]? = some chain[back.height] := getElem?_eq_getElem (by omega)
    have hprev : b.header.prevHash ≠ back.blockHash := by
      intro heq
      apply hon
      rw [OnChain, getBlockHash, hparent, map_some, ← heq, hchain.prevHash_eq hparent hb]
    exact ⟨back.blockHash, if_pos ⟨hchain.height_eq hb, hprev⟩⟩

/-- One more block of the chain. -/
lemma Reading.scanOne (hD : D <+: chain) (hq : q <+: chain) (hb : chain[q.length]? = some b)
    (hus : U.received b = .ok us) :
    ∃ balance scanner,
      U.scanOne r q.length b = .ok (some { r with balance, scanner, lastHeight := q.length }) ∧
      U.Reading known D start { r with balance, scanner, lastHeight := q.length } (q ++ [b]) := by
  have hheight := hchain.height_eq hb
  have hknown := hchain.mem_known hb
  have hprefix := concat_isPrefix hq hb
  obtain ⟨hsound, hget⟩ := hr.sound.readBlock hdistinct hknown
  have hrecords := records_of_received hdistinct hr.sound hknown hheight hus hr.late
  have hscan := scanOne_eq_ok (hr.reorgSignal_eq_none hdistinct hchain hq hb) hr.max_pos hus
  rw [hheight] at hscan hrecords
  refine ⟨_, _, hscan, ?_⟩
  have hlen : (q ++ [b]).length = q.length + 1 := by simp
  have hagree : q ++ [b] <+: D ∨ D <+: q ++ [b] := by
    by_cases h : (q ++ [b]).length ≤ D.length
    · exact .inl (prefix_of_prefix_length_le hprefix hD h)
    · exact .inr (prefix_of_prefix_length_le hD hprefix (by omega))
  have hcovers : q.length < D.length → U.feed.Covers D start (q.length + 1) (U.readBlock r.balance b).get := by
    intro hlt
    have hDb : D[q.length]? = some b := by
      obtain ⟨rest, rfl⟩ := hD
      rwa [getElem?_append_left hlt] at hb
    rw [hget]
    exact (hr.early hlt).step hr.start_le hDb
  exact
    { canonical := hchain.of_prefix hprefix
      sound := hsound
      start_le := by
        have := hr.start_le
        omega
      agree := hagree
      early := fun hlt => by
        rw [hlen] at hlt ⊢
        exact hcovers (by omega)
      late := fun hle => by
        rcases lt_or_ge q.length D.length with hlt | hge
        · -- the last of the blocks that the balance had from before
          have hall : q ++ [b] = D :=
            (prefix_of_prefix_length_le hprefix hD (by omega)).eq_of_length (by omega)
          have hend := hcovers hlt
          rw [← hlen, hall] at hend
          rw [hall]
          exact hend.eq_replay
        · rw [Feed.replay_concat, ← hr.late hge]
          exact hget
      journal := .cons (hr.journal.take _) hrecords
      window := by
        intro diff hdiff
        rcases mem_cons.mp hdiff with rfl | hdiff
        · exact hr.start_le
        · exact hr.window diff (mem_of_mem_take hdiff)
      fresh := by simp
      back := by simp
      max_pos := hr.max_pos
      le_lastHeight := hlen.le
      span_pos := hr.span_pos
      span_le := hr.span_le }

/-- A batch of `k` blocks from where the reading stands. -/
lemma Reading.scanBatch (hD : D <+: chain) (hq : q <+: chain) (k : ℕ) :
    (∃ e, U.scanBatch r ((List.range' q.length k).filterMap fun h => chain[h]?.map fun b => (h, b))
        = .error e ∧ ∃ block ∈ chain, ∃ e, U.received block = .error e) ∨
    ∃ balance scanner lastHeight,
      U.scanBatch r ((List.range' q.length k).filterMap fun h => chain[h]?.map fun b => (h, b))
        = .ok ({ r with balance, scanner, lastHeight }, false) ∧
      U.Reading known D start { r with balance, scanner, lastHeight } (chain.take (q.length + k)) ∧
      (r.lastHeight + 1 = q.length ∨ q.length < chain.length ∧ 0 < k →
        lastHeight + 1 = (chain.take (q.length + k)).length) := by
  induction k generalizing r q with
  | zero =>
    refine .inr ⟨r.balance, r.scanner, r.lastHeight, rfl, ?_⟩
    rw [add_zero, ← prefix_iff_eq_take.mp hq]
    exact ⟨hr, by simp⟩
  | succ k ih =>
    rw [range'_succ]
    cases hb : chain[q.length]? with
    | none =>
      -- the chain ends here, and so does the batch
      have hend : chain.length ≤ q.length := getElem?_eq_none_iff.mp hb
      obtain rfl : q = chain := hq.eq_of_length (le_antisymm hq.length_le hend)
      have hnil : (range' (q.length + 1) k).filterMap (fun h => q[h]?.map fun b => (h, b)) = [] := by
        rw [filterMap_eq_nil_iff]
        intro h hh
        rw [mem_range'_1] at hh
        rw [getElem?_eq_none (by omega), map_none]
      rw [filterMap_cons_none (by rw [hb, map_none]), hnil, take_of_length_le (by omega)]
      exact .inr ⟨r.balance, r.scanner, r.lastHeight, rfl, hr, by simp⟩
    | some b =>
      rw [filterMap_cons_some (by rw [hb, map_some])]
      unfold scanBatch
      have hheight := hchain.height_eq hb
      cases hus : U.received b with
      | error e =>
        have hscan := scanOne_of_error (hr.reorgSignal_eq_none hdistinct hchain hq hb) hus
        rw [hheight] at hscan
        rw [hscan]
        exact .inl ⟨_, rfl, b, mem_of_getElem? hb, e, hus⟩
      | ok us =>
        obtain ⟨balance, scanner, hscan, hnext⟩ := hr.scanOne hdistinct hchain hD hq hb hus
        have hrest := ih hnext (concat_isPrefix hq hb)
        rw [length_append, length_singleton, add_assoc, add_comm 1 k] at hrest
        rw [hscan]
        rcases hrest with herror | ⟨balance', scanner', lastHeight, hbatch, hread, hlast⟩
        · exact .inl herror
        · exact .inr ⟨balance', scanner', lastHeight, hbatch, hread, fun _ => hlast (.inl rfl)⟩

omit hdistinct hchain

/-- The variables of the outer loop may change. -/
lemma Reading.loop (cursor : ℕ) (recovering : Bool) (hpos : 0 < batchSpan) (hle : batchSpan ≤ 100) :
    U.Reading known D start { r with cursor, batchSpan, recovering } q :=
  { hr with span_pos := hpos, span_le := hle }

end Reading

/-! ## The blocks read and the chain -/

variable (U) in
/-- How the blocks read lie to the chain, and a bound on answers to come. -/
inductive Phase (chain D : List Block) (r : Scan) (q : List Block) : ℕ → Prop
  /-- They are on the chain, and the next batch starts right after them. -/
  | following : r.recovering = false → q <+: chain → r.cursor = q.length →
      Phase chain D r q (chain.length - r.cursor)
  /-- They are on the chain, which ends below the next batch. -/
  | ended : r.recovering = false → q <+: chain → chain.length ≤ r.cursor → r.lastHeight + 1 = q.length →
      D.length ≤ q.length → Phase chain D r q 0
  /-- The last of them is not on the chain, and the next batch will show it. -/
  | replaced : r.recovering = false → ¬q <+: chain → r.cursor = q.length → r.cursor < chain.length →
      (∃ diff ∈ r.scanner.journal, U.OnChain chain diff) → Phase chain D r q (chain.length + 2)
  | recovering : r.recovering = true → D.length ≤ q.length →
      (∃ diff ∈ r.scanner.journal, U.OnChain chain diff) → Phase chain D r q (chain.length + 1)

/-- Where the loop is about to end, the tip was read. -/
def AtTip (chain : List Block) (r : Scan) (q : List Block) : Prop :=
  r.recovering = false → chain.length ≤ r.cursor → q.length = chain.length

/-- The loop is between the last height read and the last asked for. -/
def Within (chain : List Block) (r : Scan) : Prop :=
  r.lastHeight < chain.length ∧ chain.length ≤ r.last + 1

lemma grow_pos (hpos : 0 < batchSpan) : 0 < grow batchSpan := by
  unfold grow
  omega

lemma grow_le (batchSpan : ℕ) : grow batchSpan ≤ 100 := min_le_right _ _

section Answer

variable {D : List Block} {start : ℕ} {r : Scan}

lemma pull_of_end (hend : chain.length ≤ r.cursor) : U.pull r chain = .ok (.done r) := by
  unfold pull
  split_ifs with hlast
  · rfl
  · have hnil : getBlockRange chain r.cursor (min (r.cursor + r.batchSpan - 1) r.last) = [] := by
      rw [getBlockRange, filterMap_eq_nil_iff]
      intro h hh
      rw [mem_range'_1] at hh
      rw [getElem?_eq_none (by omega), map_none]
    simp only [hnil]

/-- The range of a batch is never cut by the node. -/
lemma getBlockRange_batch (hpos : 0 < r.batchSpan) (hle : r.batchSpan ≤ 100)
    (hlast : r.cursor ≤ r.last) :
    getBlockRange chain r.cursor (min (r.cursor + r.batchSpan - 1) r.last) =
      (List.range' r.cursor (min (r.cursor + r.batchSpan - 1) r.last + 1 - r.cursor)).filterMap
        fun h => chain[h]?.map fun b => (h, b) := by
  have hsize : min (min (r.cursor + r.batchSpan - 1) r.last - r.cursor + 1) maxRange =
      min (r.cursor + r.batchSpan - 1) r.last + 1 - r.cursor := by
    unfold maxRange
    omega
  rw [getBlockRange, hsize]

/-- A batch is scanned and the loop goes on. -/
lemma pull_eq (hpos : 0 < r.batchSpan) (hle : r.batchSpan ≤ 100) (hwithin : Within chain r)
    (hcursor : r.cursor < chain.length) :
    U.pull r chain =
      match U.scanBatch r
        ((List.range' r.cursor (min (r.cursor + r.batchSpan - 1) r.last + 1 - r.cursor)).filterMap
          fun h => chain[h]?.map fun b => (h, b)) with
      | .error e => .error e
      | .ok (r', true) => .ok (.running { r' with recovering := true })
      | .ok (r', false) => .ok (.running
          { r' with
            cursor := min (r.cursor + r.batchSpan - 1) r.last + 1
            batchSpan := grow r'.batchSpan }) := by
  have hlast : r.cursor ≤ r.last := by
    have := hwithin.2
    omega
  obtain ⟨k, hk⟩ : ∃ k, min (r.cursor + r.batchSpan - 1) r.last + 1 - r.cursor = k + 1 :=
    ⟨min (r.cursor + r.batchSpan - 1) r.last - r.cursor, by omega⟩
  rw [pull, if_neg (by omega)]
  simp only
  rw [getBlockRange_batch hpos hle hlast, hk, range'_succ,
    filterMap_cons_some (by rw [getElem?_eq_getElem hcursor, map_some])]
  simp only
  cases U.scanBatch r ((r.cursor, chain[r.cursor]) ::
      (range' (r.cursor + 1) k).filterMap fun h => chain[h]?.map fun b => (h, b)) with
  | error e => rfl
  | ok result =>
    obtain ⟨r', reorg⟩ := result
    cases reorg <;> rfl

variable (U) in
/-- An answer leads to an unreadable output, the end, or the next request. -/
inductive Answered (known chain D : List Block) (start : ℕ) (r : Scan) (q : List Block) (m : ℕ) :
    Except ScanError Next → Prop
  | failed {e : ScanError} : (∃ block ∈ chain, ∃ e, U.received block = .error e) →
      Answered known chain D start r q m (.error e)
  | done : q <+: chain → r.lastHeight + 1 = q.length → D.length ≤ q.length →
      (AtTip chain r q → q.length = chain.length) → Answered known chain D start r q m (.ok (.done r))
  | running {r' : Scan} {q' : List Block} {m' : ℕ} : U.Reading known D start r' q' → Within chain r' →
      U.Phase chain D r' q' m' → m' < m → AtTip chain r' q' →
      Answered known chain D start r q m (.ok (.running r'))

variable (hdistinct : U.Distinct known) (hchain : U.Canonical known chain)
  (hr : U.Reading known D start r q) (hD : D <+: chain) (hwithin : Within chain r)

include hr hD hwithin

lemma answered_at_end (hrecovering : r.recovering = false) (hq : q <+: chain)
    (hcursor : r.cursor = q.length) (hend : chain.length ≤ r.cursor) :
    U.Answered known chain D start r q m (U.answer r chain) := by
  rw [answer, hrecovering, pull_of_end hend]
  have hlen : q.length = chain.length := le_antisymm hq.length_le (by omega)
  have hlast := hwithin.1
  have hle := hr.le_lastHeight
  exact .done hq (by omega) (hlen ▸ hD.length_le) fun _ => hlen

include hdistinct hchain

/-- The blocks read are on the chain. -/
lemma answered_following (hrecovering : r.recovering = false) (hq : q <+: chain)
    (hcursor : r.cursor = q.length) :
    U.Answered known chain D start r q (chain.length - r.cursor) (U.answer r chain) := by
  rcases lt_or_ge r.cursor chain.length with hlt | hge
  · rw [answer, hrecovering, pull_eq hr.span_pos hr.span_le hwithin hlt]
    have hspan := hr.span_pos
    have hlast := hwithin.2
    -- the height after the batch
    obtain ⟨next, hnext⟩ : ∃ next, next = min (r.cursor + r.batchSpan - 1) r.last + 1 := ⟨_, rfl⟩
    have hnext_gt : r.cursor < next := by omega
    rw [← hnext]
    have hbatch := hr.scanBatch hdistinct hchain hD hq (next - r.cursor)
    rw [← hcursor, Nat.add_sub_cancel' hnext_gt.le] at hbatch
    rcases hbatch with ⟨e, hbatch, hfailed⟩ | ⟨balance, scanner, lastHeight, hbatch, hread, hheight⟩
    · rw [hbatch]
      exact .failed hfailed
    · rw [hbatch]
      have hheight := hheight (.inr ⟨hlt, by omega⟩)
      have hlength : (chain.take next).length = min next chain.length := length_take
      have hreading := hread.loop next r.recovering (grow_pos hspan) (grow_le r.batchSpan)
      have hwithin' : lastHeight < chain.length ∧ chain.length ≤ r.last + 1 := ⟨by omega, hlast⟩
      rcases le_total next chain.length with hnext_le | hnext_ge
      · rw [min_eq_left hnext_le] at hlength
        refine .running hreading hwithin' (.following hrecovering (List.take_prefix _ _) hlength.symm)
          (Nat.sub_lt_sub_left hlt hnext_gt) fun _ hend => ?_
        exact hlength.trans (le_antisymm hnext_le hend)
      · rw [min_eq_right hnext_ge] at hlength
        exact .running hreading hwithin'
          (.ended hrecovering (List.take_prefix _ _) hnext_ge hheight (hlength ▸ hD.length_le))
          (Nat.sub_pos_of_lt hlt) fun _ _ => hlength
  · exact answered_at_end hr hD hwithin hrecovering hq hcursor hge

lemma answered_replaced (hrecovering : r.recovering = false) (hq : ¬q <+: chain)
    (hcursor : r.cursor = q.length) (hlt : r.cursor < chain.length)
    (hon : ∃ diff ∈ r.scanner.journal, U.OnChain chain diff) :
    U.Answered known chain D start r q (chain.length + 2) (U.answer r chain) := by
  obtain ⟨diff, hdiff, hdiff_on⟩ := hon
  have hb : chain[q.length]? = some chain[r.cursor] := by
    rw [← hcursor]
    exact getElem?_eq_getElem hlt
  obtain ⟨expected, hsignal⟩ := hr.reorgSignal_eq_some hdistinct hchain hq hb hdiff
  have hspan := hr.span_pos
  have hlast := hwithin.2
  obtain ⟨k, hk⟩ : ∃ k, min (r.cursor + r.batchSpan - 1) r.last + 1 - r.cursor = k + 1 :=
    ⟨min (r.cursor + r.batchSpan - 1) r.last - r.cursor, by omega⟩
  have hbatch : U.scanBatch r ((range' r.cursor (k + 1)).filterMap
      fun h => chain[h]?.map fun b => (h, b)) = .ok (r, true) := by
    rw [range'_succ, filterMap_cons_some (by rw [getElem?_eq_getElem hlt, map_some])]
    rw [scanBatch, scanOne_of_reorg hsignal]
    rfl
  rw [answer, hrecovering, pull_eq hr.span_pos hr.span_le hwithin hlt, hk, hbatch]
  have hDq : D <+: q := hr.agree.resolve_left fun h => hq (h.trans hD)
  exact .running (hr.loop r.cursor true hr.span_pos hr.span_le) hwithin
    (.recovering rfl hDq.length_le ⟨diff, hdiff, hdiff_on⟩) (Nat.lt_succ_self _) (by simp [AtTip])

omit hr hD hwithin hdistinct hchain

/-- The node returns the newest entry that is on the chain. -/
lemma forkPointInJournal_eq {w : WalletScanner} (hon : ∃ diff ∈ w.journal, U.OnChain chain diff) :
    ∃ diff ∈ w.journal, U.OnChain chain diff ∧
      forkPointInJournal w.journalPairs (getBlockHash U.env chain) = some diff.height ∧
      ∀ diff' ∈ w.journal, U.OnChain chain diff' → diff'.height ≤ diff.height := by
  have hmem : ∀ height, height ∈ (w.journalPairs.filter fun entry =>
      getBlockHash U.env chain entry.1 = some entry.2).map (·.1) ↔
      ∃ diff ∈ w.journal, U.OnChain chain diff ∧ diff.height = height := by
    intro height
    simp only [journalPairs, List.mem_map, mem_filter, mem_reverse, decide_eq_true_eq]
    constructor
    · rintro ⟨-, ⟨⟨diff, hdiff, rfl⟩, hon⟩, rfl⟩
      exact ⟨diff, hdiff, hon, rfl⟩
    · rintro ⟨diff, hdiff, hon, rfl⟩
      exact ⟨_, ⟨⟨diff, hdiff, rfl⟩, hon⟩, rfl⟩
  obtain ⟨diff, hdiff, hdiff_on⟩ := hon
  have hsome : (forkPointInJournal w.journalPairs (getBlockHash U.env chain)).isSome := by
    rw [forkPointInJournal, isSome_max?_iff]
    exact ne_nil_of_mem ((hmem diff.height).mpr ⟨diff, hdiff, hdiff_on, rfl⟩)
  obtain ⟨fork, hfork⟩ := isSome_iff_exists.mp hsome
  obtain ⟨hfork_mem, hfork_max⟩ := max?_eq_some_iff.mp hfork
  obtain ⟨diff, hdiff, hdiff_on, rfl⟩ := (hmem fork).mp hfork_mem
  exact ⟨diff, hdiff, hdiff_on, hfork, fun diff' hdiff' hon' =>
    hfork_max _ ((hmem diff'.height).mpr ⟨diff', hdiff', hon', rfl⟩)⟩

include hr in
/-- An entry of the journal can be rewound to. -/
lemma Reading.rewindToHeight {diff : BlockApplyDiff} (hdiff : diff ∈ r.scanner.journal) :
    ∃ back older, r.scanner.journal.dropWhile (fun d => diff.height < d.height) = back :: older ∧
      r.scanner.rewindToHeight diff.height = .ok (
        { r.scanner with lastHeight := back.height, lastHash := back.blockHash, journal := back :: older },
        { entriesUndone := (r.scanner.journal.takeWhile fun d => diff.height < d.height).length
          outputsToRemove :=
            (r.scanner.journal.takeWhile fun d => diff.height < d.height).flatMap (·.outputsAdded)
          keyImagesToUnspend :=
            (r.scanner.journal.takeWhile fun d => diff.height < d.height).flatMap
              (·.keyImagesMarkedSpent)
          newHeight := back.height
          newHash := back.blockHash }) := by
  have hkept : r.scanner.journal.dropWhile (fun d => diff.height < d.height) ≠ [] := by
    intro hnil
    rw [dropWhile_eq_nil_iff] at hnil
    simpa using hnil diff hdiff
  obtain ⟨back, older, hback⟩ := exists_cons_of_ne_nil hkept
  refine ⟨back, older, hback, ?_⟩
  obtain ⟨hwindow, -⟩ := hr.journal.block hdiff
  have habove : diff.height ≤ r.scanner.lastHeight := by
    obtain ⟨-, block, hblock, -⟩ := hr.journal.block hdiff
    have hlt := (List.getElem?_eq_some_iff.mp hblock).1
    have hjournal := hr.journal
    have hhead := hr.back
    cases hj : r.scanner.journal with
    | nil => simp [hj] at hdiff
    | cons newest rest =>
      rw [hj] at hjournal hhead
      have := hjournal.height_head
      have := hhead newest rfl
      omega
  have holdest : ∀ front, r.scanner.journal.getLast? = some front → ¬(diff.height < front.height ∧ diff.height ≠ 0) := by
    intro front hfront
    have := hr.journal.height_getLast hfront
    omega
  simp only [WalletScanner.rewindToHeight, hback]
  rw [(Check.require_eq_ok (u := ())).mpr habove]
  cases hlast : r.scanner.journal.getLast? with
  | none => rfl
  | some front =>
    simp only
    rw [(Check.require_eq_ok (u := ())).mpr (holdest front hlast)]
    rfl

include hdistinct hchain hr hD hwithin

/-- The fork is looked for. -/
lemma answered_recovering (hrecovering : r.recovering = true) (hDq : D.length ≤ q.length)
    (hon : ∃ diff ∈ r.scanner.journal, U.OnChain chain diff) :
    U.Answered known chain D start r q (chain.length + 1) (U.answer r chain) := by
  obtain ⟨diff, hdiff, hdiff_on, hfork, hmax⟩ := forkPointInJournal_eq hon
  obtain ⟨back, older, hback, hrewind⟩ := hr.rewindToHeight hdiff
  obtain ⟨hwindow, block, hblock, -⟩ := hr.journal.block hdiff
  have hlt := (List.getElem?_eq_some_iff.mp hblock).1
  have hlength : (q.take (diff.height + 1)).length = diff.height + 1 := length_take_of_le hlt
  have hprefix := (onChain_iff hdistinct hr.canonical hchain hr.journal hdiff).mp hdiff_on
  -- the blocks of the saved balance are on the chain, so the fork is not below them
  have hfork_ge : D.length ≤ diff.height + 1 := by
    by_contra hbelow
    obtain ⟨diff', hdiff', hheight'⟩ := hr.journal.entry (h := D.length - 1) (by omega) (by omega)
    have hD_take : q.take (diff'.height + 1) = D := by
      rw [hheight', Nat.sub_add_cancel (by omega)]
      have hDq' : D <+: q := by
        rcases hr.agree with hqD | hDq'
        · rw [hqD.eq_of_length (le_antisymm hqD.length_le hDq)]
        · exact hDq'
      exact (prefix_iff_eq_take.mp hDq').symm
    have hon' := (onChain_iff hdistinct hr.canonical hchain hr.journal hdiff').mpr (hD_take ▸ hD)
    have := hmax diff' hdiff' hon'
    omega
  obtain ⟨hjournal, hundoes⟩ := hr.journal.rewind hfork_ge (by omega)
  have hget : r.balance.get = U.feed.replay (q.take (diff.height + 1) ++ q.drop (diff.height + 1)) := by
    rw [take_append_drop]
    exact hr.late hDq
  obtain ⟨hsound, hget'⟩ := hr.sound.undo hget hundoes fun key hs =>
    Canonical.once hdistinct (by rw [take_append_drop]; exact hr.canonical) hs
  rw [answer, hrecovering, recover, hfork]
  simp only [hrewind]
  rw [hback] at hjournal
  have hwindow' : ∀ d ∈ back :: older, start ≤ d.height := by
    rw [← hback]
    exact fun d hd => hr.window d ((dropWhile_suffix _).mem hd)
  -- the scan reads on from the fork, with the balance `hsound` and `hget'` are about
  have hread : U.Reading known D start
      { r with
        balance := _
        scanner :=
          { r.scanner with lastHeight := back.height, lastHash := back.blockHash, journal := back :: older } }
      (q.take (diff.height + 1)) :=
    { hr with
      canonical := hr.canonical.of_prefix (List.take_prefix _ _)
      sound := hsound
      start_le := by
        have := hr.window diff hdiff
        omega
      agree := .inr (prefix_of_prefix_length_le hD hprefix (by omega))
      early := fun h => by omega
      late := fun _ => hget'
      journal := hjournal
      window := hwindow'
      fresh := by simp
      back := by simp
      le_lastHeight := by
        have := hr.le_lastHeight
        show (q.take (diff.height + 1)).length ≤ r.lastHeight + 1
        omega }
  refine .running (hread.loop (diff.height + 1) false (grow_pos hr.span_pos) (grow_le _)) hwithin
    (.following rfl hprefix hlength.symm) (by omega) fun _ hend => ?_
  have hend : chain.length ≤ diff.height + 1 := hend
  have hle := hprefix.length_le
  omega

lemma answered (hphase : U.Phase chain D r q m) :
    U.Answered known chain D start r q m (U.answer r chain) := by
  cases hphase with
  | following hrecovering hq hcursor =>
    exact answered_following hdistinct hchain hr hD hwithin hrecovering hq hcursor
  | ended hrecovering hq hend hlast hDq =>
    rw [answer, hrecovering, pull_of_end hend]
    exact .done hq hlast hDq fun htip => htip hrecovering hend
  | replaced hrecovering hq hcursor hlt hon =>
    exact answered_replaced hdistinct hchain hr hD hwithin hrecovering hq hcursor hlt hon
  | recovering hrecovering hDq hon =>
    exact answered_recovering hdistinct hchain hr hD hwithin hrecovering hDq hon

end Answer

end ScanSetup

end CoinCync.Wallet

import CoinCync.ScanReading

/-!
# When scans converge to the canonical chain

An invocation has a journal of its own, which starts empty, while the balance stays from one invocation
to the next. A block that an earlier invocation read and a reorganisation then replaced is therefore
never undone. `Recoverable` is the condition on the changes of the chain under which this and the
other gaps of the command do not show. Then every invocation that returns leaves the balance of one
fresh scan.
-/

namespace CoinCync.Wallet

open List Option Run

open Rescan (Feed)

variable {F G : Type} [CommRing F] [AddCommGroup G] [Module F G] {C : Curve F G} {U : ScanSetup C}
  {known : List Block}

namespace ScanSetup

/-! ## The condition -/

variable (U) in
/-- What an invocation can follow. The new chain reaches past the last height read and not past the
last asked for. If it has the last block read, the next batch starts right after it, or the chain
ends below that batch. If it lacks it, the next batch starts right after it, the chain has a block
there, and some journaled block is still on it. While the answer about the fork is awaited, the
latter is enough. -/
def Follows (r : Scan) (blocks : List Block) : Prop :=
  r.lastHeight < blocks.length ∧ blocks.length ≤ r.last + 1 ∧
    ∀ back ∈ r.scanner.journal.head?,
      if r.recovering then ∃ diff ∈ r.scanner.journal, U.OnChain blocks diff
      else if U.OnChain blocks back then r.cursor = back.height + 1 ∨ blocks.length ≤ r.cursor
      else r.cursor = back.height + 1 ∧ r.cursor < blocks.length ∧
        ∃ diff ∈ r.scanner.journal, U.OnChain blocks diff

instance (r : Scan) (blocks : List Block) : Decidable (U.Follows r blocks) :=
  inferInstanceAs (Decidable (_ ∧ _ ∧ _))

variable (U) in
/-- The chains are canonical and keep all up to the saved height; a running invocation can follow,
and asks for enough. -/
def Recoverable (known : List Block) (s : State) : Event → Prop
  | .chain blocks =>
    U.Canonical known blocks ∧
      blocks.take (s.disk.scannedHeight + 1) = s.chain.take (s.disk.scannedHeight + 1) ∧
      ∀ r ∈ s.scan, U.Follows r blocks
  | .begin maxBlocks => s.chain.length ≤ s.disk.scannedHeight - scanBackstopBlocks + maxBlocks + 1
  | _ => True

instance (known : List Block) (s : State) : ∀ e, Decidable (U.Recoverable known s e)
  | .chain _ => inferInstanceAs (Decidable (_ ∧ _ ∧ _))
  | .begin _ => inferInstanceAs (Decidable (_ ≤ _))
  | .answer | .tooBig | .fail => inferInstanceAs (Decidable True)

/-! ## Whole runs -/

section Runs

variable {r : Scan}

/-- A chain that the invocation can follow. -/
lemma Phase.change (hdistinct : U.Distinct known) (hblocks : U.Canonical known blocks)
    (hr : U.Reading known D start r q) (hstart : start ≤ D.length) (hD : D <+: blocks)
    (hfollows : U.Follows r blocks) (hphase : U.Phase chain D r q m) :
    ∃ m', U.Phase blocks D r q m' := by
  obtain ⟨-, -, hfollows⟩ := hfollows
  have hjournal := hr.journal
  have hfresh := hr.fresh
  cases hj : r.scanner.journal with
  | nil =>
    -- nothing was read yet
    obtain ⟨hlength, hlast⟩ := hfresh hj
    have hqD : q <+: D := by
      rcases hr.agree with hqD | hDq
      · exact hqD
      · rw [hDq.eq_of_length (le_antisymm hDq.length_le (by omega))]
    cases hphase with
    | following hrecovering _ hcursor => exact ⟨_, .following hrecovering (hqD.trans hD) hcursor⟩
    | ended _ _ _ hlast' => omega
    | replaced _ _ _ _ hon => simp [hj] at hon
    | recovering _ _ hon => simp [hj] at hon
  | cons back older =>
    rw [hj] at hjournal hfollows
    have hheight := hjournal.height_head
    have hback := onChain_head_iff hdistinct hr.canonical hblocks hjournal
    have hfollows := hfollows back rfl
    by_cases hrecovering : r.recovering = true
    · rw [if_pos hrecovering, ← hj] at hfollows
      have hDq : D.length ≤ q.length := by
        cases hphase with
        | following h | ended h | replaced h => simp [h] at hrecovering
        | recovering _ hDq => exact hDq
      exact ⟨_, .recovering hrecovering hDq hfollows⟩
    · rw [if_neg hrecovering] at hfollows
      rw [Bool.not_eq_true] at hrecovering
      by_cases hq : q <+: blocks
      · rw [if_pos (hback.mpr hq), hheight] at hfollows
        rcases hfollows with hcursor | hend
        · exact ⟨_, .following hrecovering hq hcursor⟩
        · cases hphase with
          | following _ _ hcursor => exact ⟨_, .following hrecovering hq hcursor⟩
          | ended _ _ _ hlast hDq => exact ⟨_, .ended hrecovering hq hend hlast hDq⟩
          | replaced _ _ hcursor => exact ⟨_, .following hrecovering hq hcursor⟩
          | recovering h => simp [h] at hrecovering
      · rw [if_neg (fun h => hq (hback.mp h)), hheight, ← hj] at hfollows
        exact ⟨_, .replaced hrecovering hq hfollows.1 hfollows.2.1 hfollows.2.2⟩

variable (U) in
/-- The file holds the balance of the blocks `D` of the chain. -/
structure Saved (known : List Block) (s : State) (D : List Block) : Prop where
  sound : U.Sound known s.disk.balance
  get : s.disk.balance.get = U.feed.replay D
  on_chain : D <+: s.chain
  length : D.length = s.disk.scannedHeight + 1 ∨ D = [] ∧ s.disk.scannedHeight = 0

variable (U) in
/-- What holds between any two events. -/
structure Invariant (known : List Block) (s : State) (D : List Block) : Prop where
  canonical : U.Canonical known s.chain
  ne_nil : s.chain ≠ []
  saved : U.Saved known s D
  returned : s.outcome = some (.ok ()) → D.length = s.disk.scannedHeight + 1
  scan : ∀ r ∈ s.scan, ∃ q m,
    U.Reading known D (s.disk.scannedHeight - scanBackstopBlocks) r q ∧ Within s.chain r ∧
      U.Phase s.chain D r q m

variable {s t : State}

lemma Saved.start_le (h : U.Saved known s D) :
    s.disk.scannedHeight - scanBackstopBlocks ≤ D.length := by
  rcases h.length with hlength | ⟨-, hzero⟩
  · omega
  · omega

lemma invariant_new (hchain : U.Canonical known chain) (hne : chain ≠ []) :
    U.Invariant known (State.new chain) [] where
  canonical := hchain
  ne_nil := hne
  saved := ⟨sound_new, rfl, nil_prefix, .inr ⟨rfl, rfl⟩⟩
  returned := by simp [State.new]
  scan := by simp [State.new]

/-- An error leaves the file as it was. -/
lemma Invariant.error (h : U.Invariant known s D) (e : ScanError) :
    U.Invariant known (s.settle (.error e)) D where
  canonical := h.canonical
  ne_nil := h.ne_nil
  saved := ⟨h.saved.sound, h.saved.get, h.saved.on_chain, h.saved.length⟩
  returned := by simp [State.settle]
  scan := by simp [State.settle]

section

variable (hdistinct : U.Distinct known)
include hdistinct

lemma Invariant.change (h : U.Invariant known s D) (hok : U.Recoverable known s (.chain blocks)) :
    U.Invariant known { s with chain := blocks } D := by
  obtain ⟨hblocks, hsame, hfollows⟩ := hok
  have hD : D <+: blocks := by
    have hlength : D.length ≤ s.disk.scannedHeight + 1 := by
      rcases h.saved.length with hlength | ⟨rfl, -⟩
      · omega
      · exact Nat.zero_le _
    have htake := prefix_iff_eq_take.mp h.saved.on_chain
    rw [prefix_iff_eq_take]
    calc D = s.chain.take D.length := htake
      _ = (s.chain.take (s.disk.scannedHeight + 1)).take D.length := by
        rw [take_take, min_eq_left hlength]
      _ = (blocks.take (s.disk.scannedHeight + 1)).take D.length := by rw [hsame]
      _ = blocks.take D.length := by rw [take_take, min_eq_left hlength]
  refine ⟨hblocks, ?_, ⟨h.saved.sound, h.saved.get, hD, h.saved.length⟩, h.returned, ?_⟩
  · rintro rfl
    have hlength := congrArg length hsame
    have hpos := length_pos_iff.mpr h.ne_nil
    simp only [length_take, length_nil] at hlength
    omega
  · intro r hr
    obtain ⟨q, m, hread, -, hphase⟩ := h.scan r hr
    have hfollow := hfollows r hr
    obtain ⟨m', hphase'⟩ := hphase.change hdistinct hblocks hread h.saved.start_le hD hfollow
    exact ⟨q, m', hread, ⟨hfollow.1, hfollow.2.1⟩, hphase'⟩

/-- An invocation starts. -/
lemma Invariant.begin (h : U.Invariant known s D) (hok : U.Recoverable known s (.begin maxBlocks))
    (hlast : MachineInt.checkedAdd 64 (s.disk.scannedHeight - scanBackstopBlocks) maxBlocks = some last) :
    U.Invariant known { s with scan := some (Scan.start s.disk last), outcome := none } D := by
  have hstart := h.saved.start_le
  have hon := h.saved.on_chain
  have hlength : (s.chain.take (s.disk.scannedHeight - scanBackstopBlocks)).length
      = s.disk.scannedHeight - scanBackstopBlocks :=
    length_take_of_le (hstart.trans hon.length_le)
  obtain ⟨hsound, hget⟩ := h.saved.sound.unlock hdistinct
  have hqD : s.chain.take (s.disk.scannedHeight - scanBackstopBlocks) <+: D :=
    prefix_of_prefix_length_le (List.take_prefix _ _) hon (by omega)
  refine { h with saved := { h.saved with }, returned := by simp, scan := ?_ }
  rintro r hr
  obtain rfl : Scan.start s.disk last = r := by simpa using hr
  refine ⟨s.chain.take (s.disk.scannedHeight - scanBackstopBlocks), _, ?_, ?_,
    .following rfl (List.take_prefix _ _) hlength.symm⟩
  · exact
      { canonical := h.canonical.of_prefix (List.take_prefix _ _)
        sound := hsound
        start_le := hlength.ge
        agree := .inl hqD
        early := fun _ => by
          rw [hlength]
          show U.feed.Covers D _ _ s.disk.unlock.get
          rw [hget, h.saved.get]
          exact Feed.covers_start D _
        late := fun hle => by
          rw [hqD.eq_of_length (le_antisymm hqD.length_le hle)]
          exact hget.trans h.saved.get
        journal := .nil _
        window := by simp [Scan.start, WalletScanner.new]
        fresh := fun _ => ⟨hlength, rfl⟩
        back := by simp [Scan.start, WalletScanner.new]
        max_pos := by simp [Scan.start, WalletScanner.new, journalMaxDefault]
        le_lastHeight := by
          show _ ≤ s.disk.scannedHeight - scanBackstopBlocks + 1
          omega
        span_pos := by simp [Scan.start]
        span_le := by simp [Scan.start] }
  · have hpos := length_pos_iff.mpr h.ne_nil
    have hadd := MachineInt.checkedAdd_eq_some.mp hlast
    constructor
    · show s.disk.scannedHeight - scanBackstopBlocks < s.chain.length
      rcases h.saved.length with hD | ⟨-, hzero⟩
      · have := hon.length_le
        omega
      · omega
    · show s.chain.length ≤ last + 1
      have hok : s.chain.length ≤ s.disk.scannedHeight - scanBackstopBlocks + maxBlocks + 1 := hok
      omega

lemma Invariant.answer (h : U.Invariant known s D)
    (hr : s.scan = some r) : ∃ D', U.Invariant known (s.settle (U.answer r s.chain)) D' := by
  obtain ⟨q, m, hread, hwithin, hphase⟩ := h.scan r hr
  have hanswered := answered hdistinct h.canonical hread h.saved.on_chain hwithin hphase
  generalize U.answer r s.chain = result at hanswered
  cases hanswered with
  | failed => exact ⟨D, h.error _⟩
  | done hq hlast hDq =>
    have hsaved : U.Saved known (s.settle (.ok (.done r))) q :=
      ⟨⟨hread.sound.indexed, hread.sound.row⟩, hread.late hDq, hq, .inl hlast.symm⟩
    exact ⟨q, h.canonical, h.ne_nil, hsaved, fun _ => hlast.symm, by simp [State.settle]⟩
  | @running r' q' m' hread' hwithin' hphase' =>
    refine ⟨D, { h with saved := { h.saved with }, scan := ?_ }⟩
    intro r1 hr1
    obtain rfl : r' = r1 := by simpa [State.settle] using hr1
    exact ⟨q', m', hread', hwithin', hphase'⟩

lemma Invariant.step (h : U.Invariant known s D) (hok : U.Recoverable known s e)
    (hstep : State.step U s e = some t) : ∃ D', U.Invariant known t D' := by
  cases e with
  | chain blocks =>
    cases hstep
    exact ⟨D, h.change hdistinct hok⟩
  | begin maxBlocks =>
    cases hscan : s.scan with
    | some r => simp [State.step, hscan] at hstep
    | none =>
      simp only [State.step, hscan] at hstep
      obtain ⟨last, hlast, rfl⟩ := map_eq_some_iff.mp hstep
      exact ⟨D, h.begin hdistinct hok hlast⟩
  | answer =>
    obtain ⟨r, hr, rfl⟩ := map_eq_some_iff.mp hstep
    exact h.answer hdistinct hr
  | tooBig =>
    cases hscan : s.scan with
    | none => simp [State.step, hscan] at hstep
    | some r =>
      simp only [State.step, hscan] at hstep
      split_ifs at hstep with hidle hspan
      · cases hstep
        obtain ⟨q, m, hread, hwithin, hphase⟩ := h.scan r hscan
        refine ⟨D, { h with saved := { h.saved with }, scan := ?_ }⟩
        intro r1 hr1
        obtain rfl : { r with batchSpan := max (r.batchSpan / 2) 1 } = r1 := by simpa using hr1
        have hle := hread.span_le
        refine ⟨q, m, hread.loop r.cursor r.recovering (by omega) (by omega), hwithin, ?_⟩
        cases hphase <;> constructor <;> assumption
      · cases hstep
        exact ⟨D, h.error _⟩
  | fail =>
    obtain ⟨r, hr, rfl⟩ := map_eq_some_iff.mp hstep
    exact ⟨D, h.error _⟩

/-- As long as the chain stays, the invocation ends. -/
lemma ends_of_phase (hchain : U.Canonical known s.chain) (hD : D <+: s.chain)
    (hr : s.scan = some r) (hread : U.Reading known D start r q) (hwithin : Within s.chain r)
    (hphase : U.Phase s.chain D r q m) :
    ∃ n t, exec (State.step U) s (List.replicate n .answer) = some t ∧ t.scan = none ∧
      t.chain = s.chain ∧
      ((∀ block ∈ s.chain, ∃ us, U.received block = .ok us) →
        t.outcome = some (.ok ()) ∧
          (AtTip s.chain r q → t.disk.scannedHeight + 1 = s.chain.length)) := by
  induction m using Nat.strong_induction_on generalizing s r q with
  | h m ih =>
    have hstep : State.step U s .answer = some (s.settle (U.answer r s.chain)) := by
      rw [State.step, hr, map_some]
    have hanswered := answered hdistinct hchain hread hD hwithin hphase
    generalize U.answer r s.chain = result at hanswered hstep
    cases hanswered with
    | failed hfailed =>
      refine ⟨1, _, exec_cons_eq_some.mpr ⟨_, hstep, rfl⟩, rfl, rfl, fun hall => ?_⟩
      obtain ⟨block, hblock, e, he⟩ := hfailed
      obtain ⟨us, hus⟩ := hall block hblock
      simp [he] at hus
    | done _ hlast _ htip =>
      exact ⟨1, _, exec_cons_eq_some.mpr ⟨_, hstep, rfl⟩, rfl, rfl,
        fun _ => ⟨rfl, fun h => hlast.trans (htip h)⟩⟩
    | @running r' q' m' hread' hwithin' hphase' hlt htip =>
      obtain ⟨n, t, hexec, hidle, hsame, hall⟩ := ih m' hlt (s := s.settle (.ok (.running r'))) hchain hD
        rfl hread' hwithin' hphase'
      refine ⟨n + 1, t, exec_cons_eq_some.mpr ⟨_, hstep, hexec⟩, hidle, hsame, fun hconvert => ?_⟩
      exact ⟨(hall hconvert).1, fun _ => (hall hconvert).2 htip⟩

end

lemma reaches_of_answers (h : exec (State.step U) s (List.replicate n .answer) = some t) :
    Run.Reaches (State.step U) (U.Recoverable known) s t := by
  induction n generalizing s with
  | zero =>
    cases h
    exact .refl
  | succ n ih =>
    obtain ⟨u, hu, h⟩ := exec_cons_eq_some.mp h
    exact (Run.Reaches.refl.tail trivial hu).trans (ih h)

/-- The file of a wallet that returned is that of a fresh scan. -/
lemma Invariant.get_eq (hdistinct : U.Distinct known) (h : U.Invariant known s D)
    (hreturned : s.outcome = some (.ok ())) (key : UtxoKey) :
    s.disk.balance.get key
      = (U.freshScan (s.chain.take (s.disk.scannedHeight + 1))).get key := by
  have hD : D = s.chain.take (s.disk.scannedHeight + 1) := by
    rw [← h.returned hreturned]
    exact prefix_iff_eq_take.mp h.saved.on_chain
  have hknown : ∀ block ∈ D, block ∈ known := fun block hblock =>
    h.canonical.known block (h.saved.on_chain.subset hblock)
  rw [← hD, (get_freshScan hdistinct hknown).2, h.saved.get]

end Runs

end ScanSetup

open ScanSetup

variable (U)

/-- In every run whose changes of the chain are recoverable, an invocation that returned has left
the balance of one fresh scan up to the saved height. A running one ends if the chain stays from
here on, without an error if all outputs of the wallet can be read, and then at the tip of the chain
unless it had come to the end of an earlier one. -/
theorem scans_converge {known chain : List Block} (hdistinct : U.Distinct known)
    (hchain : U.Canonical known chain) (hne : chain ≠ []) {s : State}
    (h : Run.Reaches (State.step U) (U.Recoverable known) (State.new chain) s) :
    (s.outcome = some (.ok ()) →
      s.disk.scannedHeight < s.chain.length ∧
      ∀ key, s.disk.balance.get key
        = (U.freshScan (s.chain.take (s.disk.scannedHeight + 1))).get key) ∧
    ∀ r, s.scan = some r →
      ∃ n t, exec (State.step U) s (List.replicate n .answer) = some t ∧ t.scan = none ∧
        t.chain = s.chain ∧
        ((∀ block ∈ s.chain, ∃ us, U.received block = .ok us) →
          t.outcome = some (.ok ()) ∧
            (r.cursor < s.chain.length →
              ∀ key, t.disk.balance.get key = (U.freshScan t.chain).get key)) := by
  have hinvariant : ∀ t, Run.Reaches (State.step U) (U.Recoverable known) (State.new chain) t →
      ∃ D, U.Invariant known t D := fun t ht =>
    Run.Reaches.invariant (P := fun t => ∃ D, U.Invariant known t D) ⟨[], invariant_new hchain hne⟩
      (fun _ _ _ ⟨_, hD⟩ hok hstep => hD.step hdistinct hok hstep) ht
  obtain ⟨D, hD⟩ := hinvariant s h
  refine ⟨fun hreturned => ⟨?_, hD.get_eq hdistinct hreturned⟩, fun r hr => ?_⟩
  · have hlength := hD.returned hreturned
    have hle := hD.saved.on_chain.length_le
    omega
  · obtain ⟨q, m, hread, hwithin, hphase⟩ := hD.scan r hr
    obtain ⟨n, t, hexec, hidle, hsame, hall⟩ :=
      ends_of_phase hdistinct hD.canonical hD.saved.on_chain hr hread hwithin hphase
    refine ⟨n, t, hexec, hidle, hsame, fun hconvert => ⟨(hall hconvert).1, fun hcursor key => ?_⟩⟩
    obtain ⟨D', hD'⟩ := hinvariant t (h.trans (reaches_of_answers hexec))
    have htip := (hall hconvert).2 fun _ hend => absurd hcursor (not_lt.mpr hend)
    rw [hD'.get_eq hdistinct (hall hconvert).1 key, htip, ← hsame, take_length]

/-! ## Runs of a small wallet -/

/-- Fees and time stamps stand for the hashes. -/
def smallSetup : ScanSetup Curve.small where
  env := ⟨fun tx => tx.fee, fun header => header.timestamp, fun _ _ _ => none⟩
  keys := smallKeys
  table := []

/-- A coinbase output of the wallet in the old format. -/
def smallCoinbase : Transaction where
  version := 1
  txType := .coinbase
  inputs := []
  outputs := [⟨smallKeys.spendPublic, 2, Curve.small.commit 5 0, [5, 0, 0, 0, 0, 0, 0, 0], 0, none, []⟩]
  fee := 7
  rangeProof := 0
  extra := []

/-- An input with the key image of that output. -/
def smallSpend : Transaction where
  version := 1
  txType := .transfer
  inputs := [⟨6, [], 0, 0⟩]
  outputs := []
  fee := 8
  rangeProof := 0
  extra := []

/-- Its genesis. -/
def smallGenesis : Block := ⟨⟨0, 0, 100⟩, []⟩

/-- The coinbase and its spend. -/
def smallMain : List Block :=
  [smallGenesis, ⟨⟨1, 100, 101⟩, [smallCoinbase]⟩, ⟨⟨2, 101, 102⟩, [smallSpend]⟩]

/-- A longer branch without the spend. -/
def smallBranch : List Block :=
  [smallGenesis, ⟨⟨1, 100, 111⟩, [smallCoinbase]⟩, ⟨⟨2, 111, 112⟩, []⟩, ⟨⟨3, 112, 113⟩, []⟩]

/-- A branch with neither. -/
def smallEmpty : List Block := [smallGenesis, ⟨⟨1, 100, 121⟩, []⟩, ⟨⟨2, 121, 122⟩, []⟩]

/-- All blocks of the runs. -/
def smallKnown : List Block := smallMain ++ smallBranch ++ smallEmpty

lemma smallKnown_distinct : smallSetup.Distinct smallKnown :=
  ⟨by decide +kernel, by decide +kernel, by decide +kernel⟩

/-- The branch takes over when the main chain has been read. -/
def smallRun : List Event :=
  [.begin 50, .tooBig, .tooBig, .tooBig, .tooBig, .tooBig, .tooBig, .answer, .answer,
    .chain smallBranch, .answer, .answer, .answer, .answer]

/-- The balance is that of the branch. -/
theorem scans_converge_small :
    ∃ s, exec (guarded (State.step smallSetup) (smallSetup.Recoverable smallKnown))
        (State.new smallMain) smallRun = some s ∧
      s.outcome = some (.ok ()) ∧ (s.disk.balance.get (7, 0)).map (·.spent) = some false ∧
      ∀ key, s.disk.balance.get key = (smallSetup.freshScan smallBranch).get key := by
  simp only [← and_assoc]
  refine Exists.imp (fun s (h : _ ∧ s.chain = smallBranch ∧ s.disk.scannedHeight = 3) =>
    ⟨h.1, fun key => ?_⟩) ?_
  · obtain ⟨⟨⟨hexec, houtcome⟩, -⟩, hchain, hheight⟩ := h
    have hmain : smallSetup.Canonical smallKnown smallMain := by decide +kernel
    obtain ⟨hconverges, -⟩ := scans_converge smallSetup smallKnown_distinct hmain (by decide)
      (reaches_of_exec_guarded hexec)
    rw [(hconverges houtcome).2 key, hchain, hheight]
    rfl
  · simp only [and_assoc]
    decide +kernel

/-- The tip is replaced between two invocations, and the wallet keeps its output as unspent. -/
theorem scan_keeps_orphaned_output :
    smallSetup.Distinct smallKnown ∧ smallSetup.Canonical smallKnown smallEmpty ∧
    ∃ s, exec (State.step smallSetup) (State.new (smallMain.take 2))
        [.begin 50, .answer, .answer, .chain smallEmpty, .begin 50, .answer, .answer] = some s ∧
      s.outcome = some (.ok ()) ∧ s.chain = smallEmpty ∧
      s.disk.scannedHeight + 1 = s.chain.length ∧
      (s.disk.balance.get (7, 0)).map (·.spent) = some false ∧
      (smallSetup.freshScan s.chain).get (7, 0) = none := by
  exact ⟨smallKnown_distinct, by decide +kernel, by decide +kernel⟩

end CoinCync.Wallet

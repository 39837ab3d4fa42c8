import CoinCync.SparkPoolTheorems
import CoinCync.UtxoReplay

/-!
# A reorganisation that fails

Both rollback paths put the disconnected blocks back on the UTXO set and restore tip and statistics
as a whole, but they do not feed the blocks to the Spark pool again: each one only gets its
checkpoint.
-/

namespace CoinCync

open List Option Function SparkPool Ledger

variable {E : Env} {R : Rules E} {n n' : Node} {b : Block}

/-! ## Rewinding several times -/

/-- Rewinding a pool that is there. -/
lemma rewindPool_iterate (p : SparkPool) (d : ℕ) :
    rewindPool^[d] (some p) = some (rewindOrKeep^[d] p) := by
  induction d generalizing p with
  | zero => rfl
  | succ d ih =>
    exact ih p.rewindOrKeep

/-- A rewind depends on contents and boundaries only. -/
lemma SparkPool.rewindOrKeep_congr {p q : SparkPool} (hc : p.toPoolContents = q.toPoolContents)
    (hs : p.checkpoints = q.checkpoints) :
    p.rewindOrKeep.toPoolContents = q.rewindOrKeep.toPoolContents ∧
      p.rewindOrKeep.checkpoints = q.rewindOrKeep.checkpoints := by
  unfold rewindOrKeep rewind
  rw [hs]
  cases h : q.checkpoints with
  | nil =>
    exact ⟨hc, hs⟩
  | cons cp rest =>
    simp only [head?_cons, map_some, getD_some, restore, hc, hs, and_self]

lemma SparkPool.checkpoints_rewindOrKeep (p : SparkPool) :
    p.rewindOrKeep.checkpoints = p.checkpoints.tail := by
  unfold rewindOrKeep rewind
  cases h : p.checkpoints with
  | nil => simpa using h
  | cons cp rest =>
    show (p.restore cp).checkpoints = rest
    simp only [restore, h, tail_cons]

/-- Each rewind pops a boundary. -/
lemma SparkPool.checkpoints_iterate (p : SparkPool) (d : ℕ) :
    (rewindOrKeep^[d] p).checkpoints = p.checkpoints.drop d := by
  induction d generalizing p with
  | zero => rfl
  | succ d ih =>
    rw [iterate_succ_apply, ih, checkpoints_rewindOrKeep, drop_tail]

/-- Undoing connected blocks gives back the pool, if the stack has room and no older tag has their
heights. -/
lemma Ledger.Connects.rewinds (h : Ledger.Connects R s g l l')
    (hasc : (g.map (·.height)).Pairwise (· < ·)) (hl : l.pool = some p)
    (htags : ∀ t ∈ p.spentTags, ∀ x ∈ g, t.2 < x.height)
    (hroom : p.checkpoints.length + g.length ≤ maxCheckpoints) :
    ∃ q, l'.pool = some q ∧ (rewindOrKeep^[g.length] q).toPoolContents = p.toPoolContents ∧
      (rewindOrKeep^[g.length] q).checkpoints = p.checkpoints := by
  induction h generalizing p with
  | nil => exact ⟨p, hl, rfl, rfl⟩
  | @cons s g b l l1 l2 _ hc _ ih =>
    obtain ⟨-, -, -, hpool⟩ := connect_eq_some hc
    rw [map_cons, pairwise_cons] at hasc
    rw [length_cons] at hroom
    rw [hl] at hpool
    obtain ⟨p1, happly, hp1⟩ := map_eq_some_iff.mp hpool
    -- the first block is undone by the last rewind
    obtain ⟨hback, hstack⟩ := rewindOrKeep_apply happly fun t ht => htags t ht b mem_cons_self
    rw [take_of_length_le (by omega)] at hstack
    have hlater := ih hasc.2 hp1.symm ?_ ?_
    · obtain ⟨q, hq, hcontents, hrest⟩ := hlater
      obtain ⟨hcontents', hrest'⟩ := rewindOrKeep_congr hcontents hrest
      refine ⟨q, hq, ?_, ?_⟩
      · rw [length_cons, iterate_succ_apply', hcontents', hback]
      · rw [length_cons, iterate_succ_apply', hrest', hstack]
    · intro t ht x hx
      obtain ⟨-, ts, hts, hheight⟩ := applySparkV2Txs_grows happly
      rw [hts] at ht
      rcases mem_append.mp ht with ht | ht
      · exact htags t ht x (mem_cons_of_mem _ hx)
      · rw [hheight t ht]
        exact hasc.1 x.height (mem_map_of_mem hx)
    · rw [(applySparkV2Txs_eq_some.mp happly).2.1]
      simp only [checkpointAtHeight, length_take, length_cons]
      omega

/-- Putting blocks back only pushes boundaries. -/
lemma Ledger.pool_reapply (hl : l.pool = some p) (xs : List Block) :
    ∃ q, (xs.foldl (reapply E) l).pool = some q ∧ q.toPoolContents = p.toPoolContents ∧
      q.checkpoints.length = min (p.checkpoints.length + xs.length) maxCheckpoints := by
  induction xs generalizing p l with
  | nil =>
    refine ⟨p, hl, rfl, ?_⟩
    rw [length_nil, add_zero, min_eq_left p.bounded]
  | cons x xs ih =>
    have hx : (l.reapply E x).pool = some (p.checkpointAtHeight x.height) := by
      simp only [reapply, hl, map_some]
    obtain ⟨q, hq, hcontents, hlen⟩ := ih hx
    refine ⟨q, hq, hcontents, ?_⟩
    rw [hlen]
    simp only [checkpointAtHeight, length_take, length_cons]
    omega

/-! ## The condition -/

/-- There is a boundary for every block above the fork point, with only older tags below, and room
for the new branch. -/
structure PoolAligned (p : SparkPool) (forkPoint tipHeight height : ℕ) : Prop where
  depth : tipHeight - forkPoint ≤ p.checkpoints.length
  tags : ∀ t ∈ (rewindOrKeep^[tipHeight - forkPoint] p).spentTags, t.2 ≤ forkPoint
  room : p.checkpoints.length + (height - forkPoint) ≤ maxCheckpoints + (tipHeight - forkPoint)

/-- Two nodes agree on all a failed reorganisation touched. -/
structure SameState (n n' : Node) (p : SparkPool) : Prop where
  tip : n'.tip = n.tip
  stats : n'.stats = n.stats
  heights : ∀ h : ℕ, n'.heightToHash[h]? = n.heightToHash[h]?
  utxos : n'.utxos.toUtxoCore = n.utxos.toUtxoCore
  pool : ∃ q, n'.sparkPool = some q ∧ q.toPoolContents = p.toPoolContents ∧
    q.checkpoints.length = p.checkpoints.length

lemma ForkAt.pairwise_heights (hf : ForkAt E n c b o f t s) :
    (f.reverse.map (·.height)).Pairwise (· < ·) := by
  have hmap : f.map (·.height) = (range' (t.height + 1) f.length).reverse :=
    hf.branch.map_height_above
  rw [map_reverse, hmap, reverse_reverse]
  exact pairwise_lt_range'

/-- Under `UtxoGuard` on the run and on the step itself (reorganisations inside the cache, blocks
fresh on their own branch), a failed reorganisation leaves the state as it was exactly when none of
the disconnected blocks left a trace in the pool. -/
theorem failed_reorg_restores_iff {p₀ p : SparkPool} {forkPoint : ℕ} {e : ReorgFailure}
    (h : Run.Reaches (step R) (UtxoGuard R) (genesisNode R (some p₀)) n)
    (hok : UtxoGuard R n (.addBlock b)) (hp : n.sparkPool = some p)
    (hpoint : reorgPoint R n b = some forkPoint)
    (halign : PoolAligned p forkPoint n.tip.height b.height)
    (hadd : addBlock R n b = some (n', .ok (.invalid (.reorg e)))) :
    SameState n n' p ↔
      (rewindOrKeep^[n.tip.height - forkPoint] p).toPoolContents = p.toPoolContents := by
  obtain ⟨c, hn, hu⟩ := utxoInv_of_reaches h
  obtain ⟨c', hadded⟩ := addBlock_added hn hok.1 hadd
  have hu' := hadded.utxoInv hn hu hok.2
  cases hadded with
  | stopped hpre => simp [reorgPoint, hpre] at hpoint
  | stored _ hnone => simp [hnone] at hpoint
  | @failed _ o f g rest s t l1 l2 l3 _ hb hf hpoint' _ hg hl1 hl2 hl3 _ hres =>
    obtain rfl := mem_unique hpoint' hpoint
    have hc := hf.chain
    subst hc
    -- the number of disconnected blocks, and of fork blocks at most
    have hdepth := hn.length_above
    have hbranch : g.length ≤ b.height - t.height := by
      have hlen := congrArg length hg
      have hth : t.height = s.length := hf.branch.height_suffix
      have hbh := hf.height
      rw [length_reverse, length_append] at hlen
      rw [length_append, length_cons] at hbh
      omega
    set p1 := rewindOrKeep^[n.tip.height - t.height] p with hp1
    have hstack : p1.checkpoints.length = p.checkpoints.length - o.length := by
      rw [checkpoints_iterate, length_drop, hdepth]
    have hpool1 : l1.pool = some p1 := by
      rw [(disconnectAll_eq_some hl1).2.2, hdepth]
      show rewindPool^[n.tip.height - t.height] n.sparkPool = some p1
      rw [hp, rewindPool_iterate]
    have hdeep := halign.depth
    -- connecting and undoing the fork cancel
    obtain ⟨p2, hpool2, hcontents2, hstack2⟩ : ∃ q, l3.pool = some q ∧
        q.toPoolContents = p1.toPoolContents ∧ q.checkpoints = p1.checkpoints := by
      have hasc : (g.map (·.height)).Pairwise (· < ·) := by
        have := hf.pairwise_heights
        rw [hg, map_append] at this
        exact (pairwise_append.mp this).1
      have hundo := hl2.rewinds hasc hpool1 ?_ ?_
      · obtain ⟨q, hq, hundo⟩ := hundo
        refine ⟨rewindOrKeep^[g.length] q, ?_, hundo⟩
        rw [(disconnectAll_eq_some hl3).2.2, length_reverse, hq, rewindPool_iterate]
      · intro u hu x hx
        have hle := halign.tags u hu
        have hxf : x ∈ f := by
          rw [← mem_reverse, hg]
          exact mem_append_left _ hx
        have hlt := (hf.height_of_mem hxf).1
        omega
      · have hroom := halign.room
        omega
    -- putting the blocks back only pushes boundaries
    obtain ⟨q, hqpool, hqc, hqlen⟩ := pool_reapply hpool2 o.reverse
    have hqpool' : n'.sparkPool = some q := by
      rw [hres.eq]
      exact hqpool
    constructor
    · intro hsame
      obtain ⟨q', hq', hcontents, -⟩ := hsame.pool
      obtain rfl := mem_unique hqpool' hq'
      rw [← hcontents2, ← hqc, hcontents]
    · intro hcontents
      refine ⟨by rw [hres.eq]; rfl, by rw [hres.eq]; rfl, hres.heights, ?_, q, hqpool', ?_, ?_⟩
      · exact hu'.replayed.trans hu.replayed.symm
      · rw [hqc, hcontents2, hcontents]
      · have hbound := p.bounded
        rw [hqlen, length_reverse, hstack2]
        omega

/-! A block on genesis, its sibling, and a child of the sibling that is refused when the
reorganisation reaches it. -/

/-- Contextual validation refuses the nonce `9`. -/
def refusingRules : Rules (sampleEnv .mainnet 0) :=
  sampleRules .mainnet 0 fun b => b.header.nonce ≠ 9

/-- A sibling of the first block. -/
def siblingBlock : Block := sampleBlock 1 2 0 (2 ^ 255) []

/-- Its child, which is refused. -/
def refusedBlock : Block := sampleBlock 2 9 1002 (2 ^ 255) []

/-- A block without shielded transactions is put back completely. -/
theorem failed_reorg_restores_iff_quiet :
    ∃ n n' e p, Run.Reaches (step refusingRules) (UtxoGuard refusingRules)
        (genesisNode refusingRules (some cleared)) n ∧
      addBlock refusingRules n refusedBlock = some (n', .ok (.invalid (.reorg e))) ∧
      SameState n n' p := by
  set R := refusingRules
  set g := genesisNode R (some cleared)
  set a1 := sampleBlock 1 1 0 (2 ^ 255) [payTo 5 1]
  have hrun : ∃ n1 ∈ step R g (.addBlock a1), ReorgCached R n1 siblingBlock ∧
      ∃ n2 ∈ step R n1 (.addBlock siblingBlock), ReorgCached R n2 refusedBlock ∧
        reorgPoint R n2 refusedBlock = some 0 ∧
        (n2.tip.height = 1 ∧ ∃ p ∈ n2.sparkPool, p.checkpoints.length = 1 ∧
          p.rewindOrKeep.spentTags = [] ∧ p.rewindOrKeep.toPoolContents = p.toPoolContents) ∧
        ∃ q ∈ addBlock R n2 refusedBlock, q.2 = .ok (.invalid (.reorg .invalidTip)) := by
    decide +kernel
  obtain ⟨n1, hstep1, hcached1, n2, hstep2, hcached2, hpoint, ⟨htip, p, hpool, hlen, htags, hsame⟩,
    ⟨n', r⟩, hadd, rfl⟩ := hrun
  have halign : PoolAligned p 0 n2.tip.height refusedBlock.height := by
    rw [htip]
    exact ⟨hlen.ge, by simp [htags], by rw [hlen]; decide⟩
  have hok1 : UtxoGuard R g (.addBlock a1) :=
    ⟨by decide +kernel, deliversFresh_on_genesis (by decide +kernel) rfl (by decide +kernel)⟩
  have hok2 : UtxoGuard R n1 (.addBlock siblingBlock) := ⟨hcached1, deliversFresh_of_no_txs rfl⟩
  have hok3 : UtxoGuard R n2 (.addBlock refusedBlock) := ⟨hcached2, deliversFresh_of_no_txs rfl⟩
  have hreach : Run.Reaches (step R) (UtxoGuard R) g n2 := .tail (.tail .refl hok1 hstep1) hok2 hstep2
  exact ⟨n2, n', .invalidTip, p, hreach, hadd,
    (failed_reorg_restores_iff hreach hok3 hpool hpoint halign hadd).mpr (by rw [htip]; exact hsame)⟩

/-- A block that mints one coin of value `7`. -/
def mintingBlock : Block :=
  sampleBlock 1 1 0 (2 ^ 255)
    [{ txType := .shielded, extra := .sparkV2 { mint := some 7, valueBalance := -7 } }]

/-- The coin of a canonical block is gone from the pool after a reorganisation that failed. -/
theorem failed_reorg_drops_coins :
    ∃ n n' e p, Run.Reaches (step refusingRules) (fun _ _ => True)
        (genesisNode refusingRules (some cleared)) n ∧
      n.sparkPool = some p ∧
      addBlock refusingRules n refusedBlock = some (n', .ok (.invalid (.reorg e))) ∧
      p.coins.length = 1 ∧ n'.sparkPool.map (·.coins) = some [] ∧ ¬ SameState n n' p := by
  set R := refusingRules
  have hrun : ∃ n ∈ Run.exec (step R) (genesisNode R (some cleared))
      [.addBlock mintingBlock, .addBlock siblingBlock],
      ∃ p ∈ n.sparkPool, ∃ r ∈ addBlock R n refusedBlock,
        r.2 = .ok (.invalid (.reorg .invalidTip)) ∧ p.coins.length = 1 ∧
        r.1.sparkPool.map (·.coins) = some [] := by
    decide +kernel
  obtain ⟨n, hn, p, hp, ⟨n', r⟩, hadd, rfl, hlen, hnone⟩ := hrun
  refine ⟨n, n', .invalidTip, p, Run.reaches_of_exec hn, hp, hadd, hlen, hnone, fun hsame => ?_⟩
  obtain ⟨q, hq, hcontents, -⟩ := hsame.pool
  rw [hq, map_some, hcontents] at hnone
  rw [Option.some.inj hnone] at hlen
  simp at hlen

end CoinCync

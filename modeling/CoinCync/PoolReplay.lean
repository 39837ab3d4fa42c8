import CoinCync.FailedReorg

/-!
# The Spark pool is the replay of the canonical chain

`PoolReplayed E p c`: the pool holds what clearing it and feeding it `c` gives, and its checkpoint
stack mirrors the newest blocks of `c`. The stack is empty after a restart, and a rewind without a
boundary is only logged, so the pool stays the replay as long as every reorganisation disconnects at
most as many blocks as there are boundaries.
-/

namespace CoinCync

open List Option SparkPool

variable {E : Env} {R : Rules E} {n : Node} {b : Block} {c : List Block}
variable {q : SparkPool}

/-! ## The replay -/

lemma replayPool_cons_eq_some (h : replayPool E (b :: c) = some q) :
    ∃ p, replayPool E c = some p ∧ p.applySparkV2Txs E b.transactions b.height = some q :=
  bind_eq_some_iff.mp h

/-- A replay is that of a pool on its own. -/
lemma replayPool_stores (h : replayPool E c = some q) : q.stores = [] := by
  induction c generalizing q with
  | nil =>
    cases h
    rfl
  | cons b c ih =>
    obtain ⟨p, hp, hq⟩ := replayPool_cons_eq_some h
    rw [(applySparkV2Txs_eq_some.mp hq).2.2.1]
    exact ih hp

/-- Tags of a replay have heights up to its newest block. -/
lemma replayPool_tag_le (h : replayPool E (b :: c) = some q) (ht : t ∈ q.spentTags) :
    t.2 ≤ b.height := by
  obtain ⟨p, -, hq⟩ := replayPool_cons_eq_some h
  exact tag_height_le (applySparkV2Txs_eq_some.mp hq).2.2.2.1 ht

/-- The boundaries are those of the newest blocks. -/
inductive Mirrors (E : Env) : List PoolCheckpoint → List Block → Prop
  | nil {c : List Block} : Mirrors E [] c
  | cons {ks : List PoolCheckpoint} {b : Block} {c : List Block} {q : SparkPool} :
      replayPool E c = some q → Mirrors E ks c →
      Mirrors E (⟨b.height, q.coins.length, q.poolValue⟩ :: ks) (b :: c)

/-- Fewer boundaries do too. -/
lemma Mirrors.take (h : Mirrors E ks c) (m : ℕ) : Mirrors E (ks.take m) c := by
  induction h generalizing m with
  | nil =>
    rw [take_nil]
    exact .nil
  | cons hq _ ih =>
    cases m with
    | zero => exact .nil
    | succ m => exact .cons hq (ih m)

/-- The pool is the replay of `c`. -/
structure PoolReplayed (E : Env) (p : SparkPool) (c : List Block) : Prop where
  contents : ∃ q, replayPool E c = some q ∧ p.toPoolContents = q.toPoolContents
  stack : Mirrors E p.checkpoints c

/-! ## One block -/

/-- A connect extends the replay. -/
lemma PoolReplayed.connect {q : SparkPool} (hp : PoolReplayed E p c)
    (h : (p.checkpointAtHeight b.height).applySparkV2Txs E b.transactions b.height = some q) :
    PoolReplayed E q (b :: c) := by
  obtain ⟨q0, hq0, hcontents⟩ := hp.contents
  obtain ⟨q1, happly, hq1, -⟩ := applySparkV2Txs_alone h hcontents (replayPool_stores hq0)
  refine ⟨⟨q1, ?_, hq1⟩, ?_⟩
  · rw [replayPool, hq0]
    exact happly
  · rw [(applySparkV2Txs_eq_some.mp h).2.1]
    show Mirrors E (⟨b.height, p.coins.length, p.poolValue⟩
      :: p.checkpoints.take (maxCheckpoints - 1)) (b :: c)
    rw [hcontents]
    exact .cons hq0 (hp.stack.take _)

/-- A rewind to a boundary takes the newest block off the replay. -/
lemma PoolReplayed.rewind (hp : PoolReplayed E p (b :: c)) (hne : p.checkpoints ≠ [])
    (htags : ∀ q, replayPool E c = some q → ∀ t ∈ q.spentTags, t.2 < b.height) :
    PoolReplayed E p.rewindOrKeep c := by
  obtain ⟨q, hq, hcontents⟩ := hp.contents
  have hstack := hp.stack
  cases hk : p.checkpoints with
  | nil => exact absurd hk hne
  | cons k ks =>
    rw [hk] at hstack
    cases hstack with
    | @cons _ _ _ q1 hq1 hks =>
      obtain ⟨q1', hq1', happly⟩ := replayPool_cons_eq_some hq
      obtain rfl := mem_unique hq1 hq1'
      have hgrows := applySparkV2Txs_grows happly
      rw [← hcontents] at hgrows
      obtain ⟨hback, hrest⟩ := rewindOrKeep_of_grows hk hgrows (htags q1 hq1)
      exact ⟨⟨q1, hq1, hback⟩, hrest ▸ hks⟩

/-! ## Whole loops -/

/-- The pool of a ledger is the replay of the chain. -/
def Ledger.PoolOk (E : Env) (l : Ledger) (c : List Block) : Prop :=
  ∀ p, l.pool = some p → PoolReplayed E p c

lemma Ledger.PoolOk.connect {l : Ledger} (hl : l.PoolOk E c) (h : l.connect E b = some l') :
    l'.PoolOk E (b :: c) := by
  obtain ⟨-, -, -, hpool⟩ := Ledger.connect_eq_some h
  intro q hq
  obtain ⟨p, hp, happly⟩ := of_connectPool hpool hq
  exact (hl p hp).connect happly

/-- Disconnecting no more blocks than there are boundaries. -/
lemma Ledger.PoolOk.disconnectAll {get : Hash → Option Block}
    (hlin : Lineage E.linking get k (o ++ t :: s)) (hl : l.PoolOk E (o ++ t :: s))
    (hdeep : ∀ p, l.pool = some p → o.length ≤ p.checkpoints.length)
    (h : Ledger.disconnectAll E o l = some l') : l'.PoolOk E (t :: s) := by
  -- along the loop: what is left to disconnect is covered by what is left of the stack
  refine (Ledger.disconnectAll_rule (P := fun l r => l.PoolOk E r ∧
    ∀ p, l.pool = some p → r.length ≤ p.checkpoints.length + (t :: s).length) ?_ ⟨hl, ?_⟩ h).1
  · rintro l l' x r hsuf hts ⟨hP, hlen⟩ hd
    obtain ⟨-, -, -, hpool⟩ := Ledger.disconnect_eq_some hd
    obtain ⟨y, r, rfl⟩ : ∃ y r', r = y :: r' := by
      apply exists_cons_of_ne_nil
      rintro rfl
      simp at hts
    obtain ⟨o', ho'⟩ := hsuf
    rw [← ho'] at hlin
    obtain ⟨k', hk'⟩ := hlin.suffix
    have hx : x.height = (y :: r).length := hk'.height_head
    have hy : y.height = r.length := hk'.tail.height_head
    have hcount := hts.length_le
    rw [length_cons] at hx hlen
    refine ⟨fun p' hp' => ?_, fun p' hp' => ?_⟩
    · obtain ⟨p, hp, rfl⟩ := map_eq_some_iff.mp (hpool ▸ hp')
      have hstack := hlen p hp
      refine (hP p hp).rewind (fun hnil => ?_) fun q hrep u hu => ?_
      · rw [hnil, length_nil] at hstack
        omega
      · have hle := replayPool_tag_le hrep hu
        omega
    · obtain ⟨p, hp, rfl⟩ := map_eq_some_iff.mp (hpool ▸ hp')
      have hstack := hlen p hp
      rw [checkpoints_rewindOrKeep, length_tail]
      omega
  · intro p hp
    have := hdeep p hp
    rw [length_append]
    omega

/-! ## Runs -/

/-- Coinbase transactions do not touch the pool. -/
lemma foldlM_applySparkTx_coinbase {txs : List Transaction} (htxs : ∀ tx ∈ txs, tx.isCoinbase) :
    txs.foldlM (fun q tx => applySparkTx E q h tx) p = some p := by
  induction txs with
  | nil => rfl
  | cons tx txs ih =>
    have htype : tx.txType = .coinbase := by
      simpa [Transaction.isCoinbase] using htxs tx mem_cons_self
    have hnone : tx.sparkPayload = none := by
      simp [Transaction.sparkPayload, Transaction.isShielded, htype]
    rw [foldlM_cons, applySparkTx, hnone]
    exact ih fun x hx => htxs x (mem_cons_of_mem _ hx)

lemma genesisNode_poolOk (R : Rules E) (stores : List Phase2Store) :
    (genesisNode R (some (clearedBeside stores))).ledger.PoolOk E [R.genesis] := by
  intro p hp
  obtain rfl : clearedBeside stores = p := some.inj hp
  refine ⟨⟨cleared, ?_, rfl⟩, .nil⟩
  show cleared.applySparkV2Txs E R.genesis.transactions R.genesis.height = _
  rw [R.genesis_height, applySparkV2Txs_eq_some]
  exact ⟨foldlM_applySparkTx_coinbase R.genesis_coinbase, rfl, rfl, by decide, rfl⟩

/-- A run without rollbacks and failed reorganisations. -/
def poolStep (R : Rules E) (n : Node) : Op → Option Node
  | .addBlock b =>
    match addBlock R n b with
    | some (_, .ok (.invalid (.reorg _))) => none
    | some (n', _) => some n'
    | none => none
  | .rollback _ => none
  | .restart => restart R n

/-- A reorganisation finds its blocks cached, and a boundary for each. -/
def PoolGuard (R : Rules E) (n : Node) : Op → Prop
  | .addBlock b => ReorgCached R n b ∧ ∀ forkPoint, reorgPoint R n b = some forkPoint →
      ∀ p, n.sparkPool = some p → n.tip.height - forkPoint ≤ p.checkpoints.length
  | _ => True

/-- Adding a block keeps it, unless a reorganisation fails. -/
lemma Added.poolOk {r : AddResult} (h : Added R n c b n' r c') (hn : ChainInv R n c)
    (hp : n.ledger.PoolOk E c) (hr : ∀ e, r ≠ .ok (.invalid (.reorg e)))
    (hdeep : ∀ forkPoint, reorgPoint R n b = some forkPoint →
      ∀ p, n.sparkPool = some p → n.tip.height - forkPoint ≤ p.checkpoints.length) :
    n'.ledger.PoolOk E c' := by
  cases h with
  | stopped _ | stored => exact hp
  | extended _ _ hl hforget =>
    have hpool := hp.connect hl
    rw [hforget.eq]
    exact hpool
  | failed => exact absurd rfl (hr _)
  | @reorged o f s t l1 l2 txs hb hf hpoint _ hl1 hl2 =>
    have hc := hf.chain
    subst hc
    have hdepth := hn.length_above
    have hmid : l1.PoolOk E (t :: s) :=
      hp.disconnectAll hn.chain (fun p hp' => hdepth ▸ hdeep _ hpoint p hp') hl1
    have hend := Ledger.Connects.rule
      (fun _ _ _ _ _ hP _ hd => hP.connect hd) hmid hl2
    rw [reverse_newBranch] at hend
    exact hend

/-- A restart replays it. -/
lemma Restarted.poolOk (hst : Restarted R n c st n') : n'.ledger.PoolOk E c := by
  intro p hp
  have hp : n'.sparkPool = some p := hp
  have hpool := hst.pool
  cases hold : n.sparkPool with
  | none =>
    rw [hold] at hpool
    simp [hpool] at hp
  | some p0 =>
    rw [hold] at hpool
    obtain ⟨p', q, hp', hrep, hcontents, hstack⟩ := hpool
    obtain rfl := mem_unique hp hp'
    refine ⟨⟨q, hrep, hcontents⟩, ?_⟩
    rw [hstack]
    exact .nil

/-- The pool is what clearing it and feeding it the canonical blocks gives. -/
def PoolIsReplay (E : Env) (n : Node) : Prop :=
  ∀ p, n.sparkPool = some p →
    ∃ q, (List.range (n.tip.height + 1)).foldlM (n.replayHeight E) cleared = some q ∧
      p.toPoolContents = q.toPoolContents

/-- In every run whose reorganisations find their blocks in the cache and a boundary for each, the
pool is the replay of the canonical chain. -/
theorem pool_is_replay_of_reaches {stores : List Phase2Store}
    (h : Run.Reaches (poolStep R) (PoolGuard R) (genesisNode R (some (clearedBeside stores))) n) :
    PoolIsReplay E n := by
  obtain ⟨c, hn, hp⟩ : ∃ c, ChainInv R n c ∧ n.ledger.PoolOk E c := by
    refine Run.Reaches.invariant (P := fun m => ∃ q, ChainInv R m q ∧ m.ledger.PoolOk E q)
      ⟨_, genesisNode_chainInv R _, genesisNode_poolOk R stores⟩ ?_ h
    rintro m op m' ⟨q, hq, hpool⟩ hok hm
    cases op with
    | addBlock b =>
      cases hadd : addBlock R m b with
      | none => simp [poolStep, hadd] at hm
      | some out =>
        obtain ⟨m1, r⟩ := out
        have hr : ∀ e, r ≠ .ok (.invalid (.reorg e)) := by
          rintro e rfl
          simp [poolStep, hadd] at hm
        obtain rfl : m1 = m' := by
          simp only [poolStep, hadd] at hm
          exact some.inj hm
        obtain ⟨q', hadded⟩ := addBlock_added hq hok.1 hadd
        exact ⟨q', hadded.chainInv hq, hadded.poolOk hq hpool hr hok.2⟩
    | rollback target => simp [poolStep] at hm
    | restart =>
      obtain ⟨st, hst⟩ := hq.restarted hm
      exact ⟨q, hst.chainInv, hst.poolOk⟩
  intro p hsome
  obtain ⟨q, hq, hcontents⟩ := (hp p hsome).contents
  refine ⟨q, ?_, hcontents⟩
  rw [hn.tip_height, foldlM_replayHeight hn.chain, hq]
  intro x hx
  rw [hn.getBlockByHeight_eq]
  exact hn.atHeight_of_mem hx

/-- A minting block replaced by a heavier sibling in the same session. -/
theorem pool_is_replay_of_reaches_sibling :
    ∃ n, Run.Reaches (poolStep openMainnet) (PoolGuard openMainnet)
        (genesisNode openMainnet (some attached)) n ∧
      n.tip.hash = 1002 ∧ PoolIsReplay (sampleEnv .mainnet 0) n := by
  set R := openMainnet
  set g := genesisNode R (some attached)
  set b1 := sampleBlock 1 2 0 (2 ^ 130) []
  have hrun : ReorgCached R g mintingBlock ∧ reorgPoint R g mintingBlock = none ∧
      ∃ n1 ∈ poolStep R g (.addBlock mintingBlock), ReorgCached R n1 b1 ∧ n1.tip.height = 1 ∧
        n1.sparkPool.map (·.checkpoints.length) = some 1 ∧
        ∃ n2 ∈ poolStep R n1 (.addBlock b1), n2.tip.hash = 1002 := by
    decide +kernel
  obtain ⟨hcached, hnone, n1, hstep1, hcached1, hone, hlen, n2, hstep2, htip⟩ := hrun
  have hok1 : PoolGuard R g (.addBlock mintingBlock) :=
    ⟨hcached, fun forkPoint hpoint => by simp [hnone] at hpoint⟩
  have hok2 : PoolGuard R n1 (.addBlock b1) := by
    refine ⟨hcached1, fun forkPoint hpoint p hp => ?_⟩
    rw [hp, map_some, some.injEq] at hlen
    omega
  have hreach : Run.Reaches (poolStep R) (PoolGuard R) g n2 :=
    .tail (.tail .refl hok1 hstep1) hok2 hstep2
  exact ⟨n2, hreach, htip, pool_is_replay_of_reaches hreach⟩

/-- After a restart there is no boundary for the minting block: the reorganisation that replaces it
leaves its coin. -/
theorem coin_survives_reorg_after_restart :
    ∃ n p, Run.Reaches (poolStep openMainnet) (fun _ _ => True)
        (genesisNode openMainnet (some cleared)) n ∧
      n.sparkPool = some p ∧ p.coins.length = 1 ∧
      ((List.range (n.tip.height + 1)).foldlM (n.replayHeight (sampleEnv .mainnet 0))
        cleared).map (·.coins) = some [] ∧
      ¬ PoolIsReplay (sampleEnv .mainnet 0) n := by
  simp only [← and_assoc]
  refine Exists.imp (fun n => Exists.imp fun p h => ⟨h, fun hreplay => ?_⟩) ?_
  · obtain ⟨⟨⟨-, hp⟩, hlen⟩, hnone⟩ := h
    obtain ⟨q, hq, hcontents⟩ := hreplay p hp
    rw [hq, map_some] at hnone
    rw [hcontents, Option.some.inj hnone] at hlen
    simp at hlen
  · simp only [and_assoc, exists_and_left]
    apply Run.exists_reaches_of_exec
      [.addBlock mintingBlock, .restart, .addBlock (sampleBlock 1 2 0 (2 ^ 130) [])]
    decide +kernel

end CoinCync

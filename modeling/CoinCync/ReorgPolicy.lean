import CoinCync.System

/-!
# What the reorg policy bounds

`evaluate_reorg_acceptability` is monotone in the depth, but `add_block` calls it with the length of
the new branch, not with the number of blocks the reorganisation undoes: a short, heavy branch passes
however much it undoes. The runs here carry a log with one entry for every successful reorganisation.
-/

namespace CoinCync

open Option

variable {E : Env} {R : Rules E} {n : Node}

/-! ## The policy -/

/-- A deeper fork needs more work. -/
lemma messRequiredWork_mono (hd : d ≤ d') (work : ℕ) :
    messRequiredWork d work ≤ messRequiredWork d' work := by
  have hexp : min ((d - reorgUnconditionalDepth) / messExponentDivisor) 40
      ≤ min ((d' - reorgUnconditionalDepth) / messExponentDivisor) 40 := by
    have := Nat.div_le_div_right (c := messExponentDivisor)
      (Nat.sub_le_sub_right hd reorgUnconditionalDepth)
    omega
  have hpow := Nat.mul_le_mul_left work (Nat.pow_le_pow_right (Nat.zero_lt_two) hexp)
  show min (work * 2 ^ _) (2 ^ 128 - 1) ≤ min (work * 2 ^ _) (2 ^ 128 - 1)
  omega

/-- Deep reorganisations: the multiplier's work or, on a young chain, the old chain's. -/
def MessSatisfied (depth newWork oldWork currentHeight : ℕ) : Prop :=
  if currentHeight < bootstrapMessHeight then oldWork ≤ newWork
  else messRequiredWork depth oldWork < newWork

lemma evaluateReorgAcceptability_eq_none (hok : evaluateReorgAcceptability d w h t m = none) :
    d ≤ m ∧ (reorgUnconditionalDepth < d → MessSatisfied d w h t) := by
  unfold evaluateReorgAcceptability at hok
  split at hok
  · simp at hok
  rename_i hmax
  refine ⟨Nat.le_of_not_lt hmax, fun hdeep => ?_⟩
  rw [if_neg (Nat.not_le_of_lt hdeep)] at hok
  unfold MessSatisfied
  split at hok
  · rename_i hboot
    rw [if_pos hboot]
    split at hok
    · assumption
    · simp at hok
  · rename_i hboot
    rw [if_neg hboot]
    split at hok
    · assumption
    · simp at hok

/-! ## The log -/

/-- Blocks disconnected, work before and after, old tip height. -/
structure ReorgEvent where
  disconnected : ℕ
  oldWork : ℕ
  newWork : ℕ
  tipHeight : ℕ
deriving DecidableEq

/-- The policy's bounds, at the blocks disconnected. -/
def ReorgEvent.Bounded (network : NetworkType) (e : ReorgEvent) : Prop :=
  e.disconnected ≤ network.maxReorgDepth ∧
    (reorgUnconditionalDepth < e.disconnected →
      MessSatisfied e.disconnected e.newWork e.oldWork e.tipHeight)

/-- The entry for a call of `add_block` on `b`. -/
def reorgEvent (R : Rules E) (n : Node) (b : Block) (n' : Node) : AddResult → List ReorgEvent
  | .ok (.acceptedReorg _) =>
    [⟨n.tip.height - (reorgPoint R n b).getD 0, n.stats.totalDifficulty, n'.stats.totalDifficulty,
      n.tip.height⟩]
  | _ => []

/-- An operation on the node together with its log. -/
def loggedStep (R : Rules E) (s : Node × List ReorgEvent) : Op → Option (Node × List ReorgEvent)
  | .addBlock b =>
    (addBlock R s.1 b).map fun r => (r.1, s.2 ++ reorgEvent R s.1 b r.1 r.2)
  | op => (step R s.1 op).map fun n => (n, s.2)

/-- The new tip is as high as the old one, or few enough blocks are undone for any work. -/
def DepthSeen (R : Rules E) (n : Node) : Op → Prop
  | .addBlock b => ∀ forkPoint, reorgPoint R n b = some forkPoint →
      n.tip.height ≤ b.height ∨ n.tip.height - forkPoint ≤ reorgUnconditionalDepth
  | _ => True

/-! ## A successful reorganisation passed the policy -/

/-- An extension is no reorganisation. -/
lemma connectTip_ne_reorg (h : connectTip R n b = some (n', r)) (txs : List Transaction) :
    r ≠ .ok (.acceptedReorg txs) := by
  rcases connectTip_eq_some h with ⟨-, rfl⟩ | ⟨-, -, -, rfl, -⟩ <;> simp

/-- The work total becomes that of the new branch. -/
lemma reorganize_totalDifficulty
    (h : reorganize R n b forkPoint = some (n', .ok (.acceptedReorg txs))) :
    n'.stats.totalDifficulty = n.calculateForkCumulativeWork b := by
  simp only [reorganize, bind_eq_bind, bind_eq_some_iff] at h
  obtain ⟨⟨n1, d⟩, -, ⟨n2, failure⟩, -, h⟩ := h
  split at h
  · simp [bind_eq_some_iff] at h
  split at h
  · simp [bind_eq_some_iff] at h
  simp only [bind_eq_some_iff] at h
  obtain ⟨n3, htip, rfl, -⟩ := h
  simp only [Node.applyReorgTip, bind_eq_bind, bind_eq_some_iff, some.injEq] at htip
  obtain ⟨n4, -, rfl⟩ := htip
  rfl

/-- The policy is asked at the new branch's length, with both totals. -/
lemma addBlock_policy (h : addBlock R n b = some (n', .ok (.acceptedReorg txs))) :
    ∃ forkPoint, reorgPoint R n b = some forkPoint ∧
      evaluateReorgAcceptability (b.height - forkPoint) n'.stats.totalDifficulty
        n.stats.totalDifficulty n.tip.height E.network.maxReorgDepth = none := by
  unfold addBlock at h
  cases hpre : preCheck R n b with
  | some r =>
    rw [hpre] at h
    cases h
    exact absurd rfl ((preCheck_ne_accepted hpre).2 txs)
  | none =>
    rw [hpre] at h
    simp only at h
    split at h
    · exact absurd rfl (connectTip_ne_reorg h txs)
    · rename_i hside
      unfold considerFork at h
      cases hdec : (n.storeBlock E b).forkDecision E b with
      | keep => simp [hdec] at h
      | refuse e => simp [hdec] at h
      | reorg forkPoint =>
        rw [hdec] at h
        have hwork := reorganize_totalDifficulty h
        obtain ⟨-, -, hgate⟩ := Node.forkDecision_eq_reorg.mp hdec
        refine ⟨forkPoint, by simp [reorgPoint, hpre, hside, hdec], ?_⟩
        unfold Node.reorgGate at hgate
        simp only at hgate
        split at hgate
        · simp at hgate
        · rename_i haccept
          rw [hwork]
          simp only [Bool.not_eq_true, isSome_eq_false_iff, isNone_iff_eq_none] at haccept
          exact haccept

/-- Where the policy sees the depth, its bounds hold. -/
lemma reorgEvent_bounded (h : addBlock R n b = some (n', r)) (hseen : DepthSeen R n (.addBlock b)) :
    ∀ e ∈ reorgEvent R n b n' r, e.Bounded E.network := by
  intro e he
  unfold reorgEvent at he
  split at he
  · obtain ⟨forkPoint, hpoint, haccept⟩ := addBlock_policy h
    rw [List.mem_singleton, hpoint] at he
    subst he
    obtain ⟨hmax, hmess⟩ := evaluateReorgAcceptability_eq_none haccept
    have hten : reorgUnconditionalDepth ≤ E.network.maxReorgDepth := by
      cases E.network <;> decide
    rcases hseen forkPoint hpoint with htall | hshallow
    · -- at least as many blocks came as went
      have hle : n.tip.height - forkPoint ≤ b.height - forkPoint := by omega
      refine ⟨by show n.tip.height - forkPoint ≤ _; omega, fun hdeep => ?_⟩
      have hdeep : reorgUnconditionalDepth < n.tip.height - forkPoint := hdeep
      have hsat := hmess (by omega)
      have hmono := messRequiredWork_mono hle n.stats.totalDifficulty
      unfold MessSatisfied at hsat ⊢
      split
      · rwa [if_pos ‹_›] at hsat
      · rw [if_neg ‹_›] at hsat
        exact lt_of_le_of_lt hmono hsat
    · constructor
      · show n.tip.height - forkPoint ≤ _
        omega
      · intro hdeep
        have hdeep : reorgUnconditionalDepth < n.tip.height - forkPoint := hdeep
        omega
  · simp at he

/-- In every run in which the policy sees the depth, every successful reorganisation keeps its
bounds at the number of blocks disconnected. -/
theorem reorgs_bounded_of_reaches {pool : Option SparkPool} {log : List ReorgEvent}
    (h : Run.Reaches (loggedStep R) (fun s op => DepthSeen R s.1 op) (genesisNode R pool, [])
      (n, log)) : ∀ e ∈ log, e.Bounded E.network := by
  refine Run.Reaches.invariant (P := fun s : Node × List ReorgEvent =>
    ∀ e ∈ s.2, e.Bounded E.network) (by simp) ?_ h
  rintro ⟨m, log⟩ op ⟨m', log'⟩ hlog hseen hstep e he
  cases op with
  | addBlock b =>
    obtain ⟨⟨m1, r⟩, hadd, heq⟩ := map_eq_some_iff.mp hstep
    obtain ⟨rfl, rfl⟩ := Prod.mk.inj heq
    rcases List.mem_append.mp he with he | he
    · exact hlog e he
    · exact reorgEvent_bounded hadd hseen e he
  | rollback target | restart =>
    obtain ⟨m1, -, heq⟩ := map_eq_some_iff.mp hstep
    obtain ⟨-, rfl⟩ := Prod.mk.inj heq
    exact hlog e he

/-- A block on genesis replaced by a heavier sibling of the same height. -/
theorem reorgs_bounded_of_reaches_sibling :
    ∃ n e, Run.Reaches (loggedStep openMainnet) (fun s op => DepthSeen openMainnet s.1 op)
        (genesisNode openMainnet none, []) (n, [e]) ∧
      e.disconnected = 1 ∧ e.Bounded .mainnet := by
  set R := openMainnet
  set a1 := sampleBlock 1 1 0 (2 ^ 255) []
  set b1 := sampleBlock 1 2 0 (2 ^ 130) []
  have hrun : ∃ s ∈ loggedStep R (genesisNode R none, []) (.addBlock a1), s.1.tip.height = 1 ∧
      ∃ t ∈ loggedStep R s (.addBlock b1), t.2 = [⟨1, 2, 2 ^ 126, 1⟩] := by
    decide +kernel
  obtain ⟨s, hstep1, htip, ⟨n2, log⟩, hstep2, rfl⟩ := hrun
  have hseen1 : DepthSeen R (genesisNode R none) (.addBlock a1) :=
    fun _ _ => .inl (by decide +kernel)
  have hseen2 : DepthSeen R s.1 (.addBlock b1) := by
    intro _ _
    left
    rw [htip]
    decide
  have hreach : Run.Reaches (loggedStep R) (fun s op => DepthSeen R s.1 op)
      (genesisNode R none, []) (n2, [⟨1, 2, 2 ^ 126, 1⟩]) :=
    .tail (.tail .refl hseen1 hstep1) hseen2 hstep2
  exact ⟨n2, _, hreach, rfl, reorgs_bounded_of_reaches hreach _ (by simp)⟩

/-- A chain of 101 blocks, then a heavy block on genesis. -/
def shortHeavyRun : List Op :=
  (List.range' 1 101).map (fun h =>
    .addBlock (sampleBlock h 1 (if h = 1 then 0 else 1000 * (h - 1) + 1) (2 ^ 255) [])) ++
    [.addBlock (sampleBlock 1 2 0 (2 ^ 130) [])]

/-- One block undoes 101 on a network whose limit is 100. -/
theorem short_branch_undoes_long :
    ∃ n log, Run.Reaches (loggedStep openMainnet) (fun _ _ => True)
        (genesisNode openMainnet none, []) (n, log) ∧
      ∃ e ∈ log, e.disconnected = 101 ∧ ¬ e.Bounded .mainnet := by
  set R := openMainnet
  have hrun : (Run.exec (loggedStep R) (genesisNode R none, []) shortHeavyRun).map (·.2)
      = some [⟨101, 102, 2 ^ 126, 101⟩] := by decide +kernel
  obtain ⟨⟨n, log⟩, hn, rfl⟩ := map_eq_some_iff.mp hrun
  refine ⟨n, _, Run.reaches_of_exec hn, _, List.mem_singleton_self _, rfl, fun hbound => ?_⟩
  exact absurd hbound.1 (by decide)

end CoinCync

import CoinCync.Lib.Run
import CoinCync.Stratum
import Mathlib.Data.Nat.Digits.Lemmas

/-!
# Work is credited once

A claim reads the current job and enters the ledger in two critical sections. If the job rotates in
between and the ledger has moved on, the late claim resets it to the old job, and the nonces already
accepted for the current one are forgotten. `Fits` rules that out (and a wrapped job counter); under
it the ledger never forgets.
-/

namespace CoinCync.Stratum

open List Function StratumStats

/-- The number in an id, whatever its padding. -/
lemma ofDigits_formatJobId (n : ℕ) : Nat.ofDigits 16 (formatJobId n).reverse = n := by
  rw [formatJobId, reverse_append, reverse_reverse, reverse_replicate, Nat.ofDigits_append,
    Nat.ofDigits_digits, Nat.ofDigits_replicate_zero, mul_zero, add_zero]

lemma formatJobId_injective : Function.Injective formatJobId := by
  intro a b h
  rw [← ofDigits_formatJobId a, ← ofDigits_formatJobId b, h]

lemma formatJobId_ne_nil (n : ℕ) : formatJobId n ≠ [] := by
  intro h
  have hlength := congrArg length h
  simp only [formatJobId, length_append, length_replicate, length_reverse, length_nil] at hlength
  omega

/-- A claim finds its nonce, or enters it for its job. -/
lemma JobNonceLedger.claim_cases (ledger : JobNonceLedger) (job : MiningJob) (nonce : ℕ) :
    (ledger.jobId = job.jobId ∧ nonce ∈ ledger.nonces ∧
        ledger.claim job nonce = (ledger, .duplicate)) ∨
      ¬(ledger.jobId = job.jobId ∧ nonce ∈ ledger.nonces) ∧
        ∃ nonces, nonce ∈ nonces ∧ (ledger.jobId = job.jobId → ledger.nonces ⊆ nonces) ∧
          ledger.claim job nonce = (⟨job.jobId, nonces⟩, .accepted) := by
  unfold claim
  by_cases hjob : ledger.jobId = job.jobId
  · by_cases hnonce : nonce ∈ ledger.nonces
    · exact .inl ⟨hjob, hnonce, by simp [hjob, hnonce]⟩
    · simp [hjob, hnonce]
  · simp [hjob]

lemma canonicalJobUnchanged_iff {id : Text} :
    canonicalJobUnchanged currentJob id ↔ ∃ cur, currentJob = some cur ∧ cur.jobId = id := by
  cases currentJob with
  | none | some cur => simp [canonicalJobUnchanged]

/-- The job a task has read, before its claim. -/
def Phase.reading : Phase → Option MiningJob
  | .read _ job => some job
  | _ => none

/-- The job that a task has read and not yet revalidated. -/
def Phase.working : Phase → Option MiningJob
  | .read _ job | .claimed _ job | .hashed _ job _ _ => some job
  | _ => none

variable {p p' : Server} {task : TaskId} {sub : Submission} {job cur : MiningJob} {effective : ℕ}
  {block : Bool}

namespace Server

/-- What a step finds and does. -/
lemma step_cases (hstep : p.step E e = some p') : match e with
    | .login worker login => p' = { p with workers := Function.update p.workers worker (some ⟨true, login⟩) }
    | .leave worker => p' = { p with workers := Function.update p.workers worker none }
    | .rotate candidate => p' = p.rotate candidate
    | .submit task sub => p.tasks task = .idle ∧ p' = p.submit task sub
    | .read task => ∃ sub, p.tasks task = .submitted sub ∧ p' = p.readJob task sub
    | .enter task => ∃ sub job, p.tasks task = .read sub job ∧ p' = p.enter task sub job
    | .hash task => ∃ sub job, p.tasks task = .claimed sub job ∧ p' = p.hash E task sub job
    | .revalidate task => ∃ sub job effective block,
        p.tasks task = .hashed sub job effective block ∧ p' = p.revalidate task sub job effective block
    | .credit task => ∃ sub job effective block,
        p.tasks task = .revalidated sub job effective block ∧
          p' = p.credit task sub job effective block := by
  cases e with
  | login | leave | rotate => exact (Option.some.inj hstep).symm
  | submit task | read task | enter task | hash task | revalidate task | credit task =>
    simp only [step] at hstep ⊢
    cases hphase : p.tasks task <;> simp_all [-Bool.exists_bool]

/-- A late claim finds the ledger not yet at the current job, and job ids do not start over. -/
def Fits (p : Server) : Event → Prop
  | .enter task => ∀ job ∈ (p.tasks task).reading,
    canonicalJobUnchanged p.currentJob p.ledger.jobId → canonicalJobUnchanged p.currentJob job.jobId
  | .rotate _ => p.nextJobId + 1 < 2 ^ 64
  | _ => True

instance (p : Server) : ∀ e, Decidable (p.Fits e)
  | .enter task => inferInstanceAs (Decidable (∀ job ∈ (p.tasks task).reading, _ → _))
  | .rotate _ => inferInstanceAs (Decidable (_ < _))
  | .login _ _ | .leave _ | .submit _ _ | .read _ | .hash _ | .revalidate _ | .credit _ =>
    inferInstanceAs (Decidable True)

/-- An id of a job that there has been. -/
def Issued (p : Server) (id : Text) : Prop := ∃ k < p.nextJobId, id = formatJobId k

/-- A job of this id existed, and is this one if current. -/
def Holds (p : Server) (job : MiningJob) : Prop :=
  p.Issued job.jobId ∧ ∀ cur, p.currentJob = some cur → job.jobId = cur.jobId → job = cur

/-- No credit of the task. -/
def Uncredited (p : Server) (task : TaskId) : Prop := ∀ c ∈ p.credits, c.task ≠ task

/-- What the phase of a task says of the records. -/
def TaskOk (p : Server) (task : TaskId) : Phase → Prop
  | .idle | .submitted _ => p.Uncredited task
  | .read _ job => p.Uncredited task ∧ p.Holds job
  | .claimed sub job | .hashed sub job _ _ =>
    p.Uncredited task ∧ p.Holds job ∧
      (canonicalJobUnchanged p.currentJob job.jobId → ⟨task, job.jobId, sub.nonce⟩ ∈ p.claims)
  | .revalidated sub job _ _ => p.Uncredited task ∧ ⟨task, job.jobId, sub.nonce⟩ ∈ p.claims
  | .done _ => True

/-- No nonce accepted for the current job is accepted again. -/
def Remembers (p : Server) : Prop :=
  ∀ cur, p.currentJob = some cur → ∀ c ∈ p.claims, c.jobId = cur.jobId →
    p.ledger.jobId = cur.jobId ∧ c.nonce ∈ p.ledger.nonces

/-- The invariant, with one clause for the phase of a task. -/
structure Sound (p : Server) : Prop where
  current : ∀ cur, p.currentJob = some cur → p.Issued cur.jobId
  ledgerIssued : p.ledger.jobId = [] ∨ p.Issued p.ledger.jobId
  ledgerClaimed : ∀ cur, p.currentJob = some cur → p.ledger.jobId = cur.jobId →
    ∃ c ∈ p.claims, c.jobId = cur.jobId
  claimsIssued : ∀ c ∈ p.claims, p.Issued c.jobId
  remembers : p.Remembers
  claimsNodup : (p.claims.map fun c => (c.jobId, c.nonce)).Nodup
  creditsClaimed : ∀ c ∈ p.credits, ⟨c.task, c.job.jobId, c.sub.nonce⟩ ∈ p.claims
  creditsNodup : (p.credits.map Credit.task).Nodup
  tasks : ∀ task, p.TaskOk task (p.tasks task)

/-- A task keeps what it has while job and claim stay. -/
lemma TaskOk.mono (h : p.TaskOk task phase) (hu : p.Uncredited task → p'.Uncredited task)
    (hw : ∀ job ∈ phase.working, p.Holds job → p'.Holds job ∧
      (canonicalJobUnchanged p'.currentJob job.jobId → canonicalJobUnchanged p.currentJob job.jobId))
    (hc : p.claims ⊆ p'.claims) : p'.TaskOk task phase := by
  cases phase with
  | idle | submitted => exact hu h
  | read sub job => exact ⟨hu h.1, (hw job rfl h.2).1⟩
  | claimed sub job | hashed sub job =>
    obtain ⟨hholds, hcur⟩ := hw job rfl h.2.1
    exact ⟨hu h.1, hholds, fun hid => hc (h.2.2 (hcur hid))⟩
  | revalidated => exact ⟨hu h.1, hc h.2⟩
  | done => trivial

lemma TaskOk.holds (h : p.TaskOk task phase) (hjob : job ∈ phase.working) : p.Holds job := by
  cases phase <;> cases hjob
  case read => exact h.2
  all_goals exact h.2.1

lemma sound_new (tally : Tally) : (new tally).Sound where
  current := by simp [new]
  ledgerIssued := .inl rfl
  ledgerClaimed := by simp [new]
  claimsIssued := by simp [new]
  remembers := by simp [new, Remembers]
  claimsNodup := nodup_nil
  creditsClaimed := by simp [new]
  creditsNodup := nodup_nil
  tasks _ c hc := by cases hc

lemma Sound.setTask (h : p.Sound) (hphase : p.TaskOk task phase) : (p.setTask task phase).Sound :=
  { h with
    tasks := by
      intro task'
      by_cases heq : task' = task
      · subst heq
        rw [show (p.setTask task' phase).tasks task' = phase from update_self ..]
        exact hphase
      · rw [show (p.setTask task phase).tasks task' = p.tasks task' from update_of_ne heq ..]
        exact h.tasks task' }

lemma Sound.finish (h : p.Sound) (sub : Submission) (claimed : Bool) (result : ShareResult) :
    (p.finish task sub claimed result).Sound := by
  have hdone : (p.setTask task (.done result)).Sound := h.setTask trivial
  exact { hdone with }

/-! ## Rotation -/

lemma Issued.mono {id : Text} (h : p.Issued id) (hle : p.nextJobId ≤ p'.nextJobId) : p'.Issued id := by
  obtain ⟨k, hk, hid⟩ := h
  exact ⟨k, lt_of_lt_of_le hk hle, hid⟩

lemma Issued.ne_next {id : Text} (h : p.Issued id) : id ≠ formatJobId p.nextJobId := by
  obtain ⟨k, hk, rfl⟩ := h
  intro heq
  exact Nat.ne_of_lt hk (formatJobId_injective heq)

section

variable (h : p.Sound)
include h

/-- An unused id changes nothing but the counter. -/
lemma Sound.skip (hn : p.nextJobId ≤ n) : Sound { p with nextJobId := n } :=
  { h with
    current cur hcur := (h.current cur hcur).mono hn
    ledgerIssued := h.ledgerIssued.imp_right fun hid => hid.mono hn
    claimsIssued c hc := (h.claimsIssued c hc).mono hn
    tasks task := (h.tasks task).mono id (fun _ _ hjob => ⟨⟨hjob.1.mono hn, hjob.2⟩, id⟩) (Subset.refl _) }

/-- A job under a fresh id is new to all tasks. -/
lemma Sound.install (hissued : p.Issued fresh.jobId) (hledger : p.ledger.jobId ≠ fresh.jobId)
    (hclaims : ∀ c ∈ p.claims, c.jobId ≠ fresh.jobId)
    (htasks : ∀ task, ∀ job ∈ (p.tasks task).working, job.jobId ≠ fresh.jobId) :
    Sound { p with currentJob := some fresh } :=
  { h with
    current cur hcur := by
      cases hcur
      exact hissued
    ledgerClaimed cur hcur hid := by
      cases hcur
      exact absurd hid hledger
    remembers cur hcur c hc hid := by
      cases hcur
      exact absurd hid (hclaims c hc)
    tasks task := by
      refine (h.tasks task).mono id (fun job hjob hholds => ?_) (Subset.refl _)
      have hne := htasks task job hjob
      refine ⟨⟨hholds.1, ?_⟩, fun hid => ?_⟩
      · rintro cur ⟨⟩ hid
        exact absurd hid hne
      · obtain ⟨cur, hcur, hid⟩ := canonicalJobUnchanged_iff.mp hid
        cases hcur
        exact absurd hid.symm hne }

lemma Sound.rotate (hfits : p.nextJobId + 1 < 2 ^ 64)
    (candidate : Option (Hash × Hash × Hash × ℕ)) : (p.rotate candidate).Sound := by
  unfold Server.rotate
  rw [Nat.mod_eq_of_lt hfits]
  have hskip := h.skip (Nat.le_succ _)
  match candidate with
  | none => exact hskip
  | some (anchor, txRoot, target, height) =>
    refine hskip.install ⟨p.nextJobId, Nat.lt_succ_self _, rfl⟩ ?_ ?_ ?_
    · rcases h.ledgerIssued with hid | hid
      · rw [hid]
        exact (formatJobId_ne_nil _).symm
      · exact hid.ne_next
    · intro c hc
      exact (h.claimsIssued c hc).ne_next
    · intro task job hjob
      exact ((h.tasks task).holds hjob).1.ne_next

/-! ## Claims -/

/-- A claim for another job leaves the current records, if the ledger is not at it. -/
lemma Sound.claimLate (hjob : p.Issued job.jobId)
    (hlate : ¬canonicalJobUnchanged p.currentJob job.jobId)
    (hledger : ¬canonicalJobUnchanged p.currentJob p.ledger.jobId) (nonces : Finset ℕ) :
    Sound { p with ledger := ⟨job.jobId, nonces⟩ } :=
  { h with
    ledgerIssued := .inr hjob
    ledgerClaimed := by
      intro cur hcur hid
      exact absurd (canonicalJobUnchanged_iff.mpr ⟨cur, hcur, hid.symm⟩) hlate
    remembers := by
      intro cur hcur c hc hid
      have hat := (h.remembers cur hcur c hc hid).1
      exact absurd (canonicalJobUnchanged_iff.mpr ⟨cur, hcur, hat.symm⟩) hledger }

/-- A new nonce of the current job is recorded. -/
lemma Sound.claimCurrent (task : TaskId) (hcur : p.currentJob = some cur)
    (hnew : ¬(p.ledger.jobId = cur.jobId ∧ nonce ∈ p.ledger.nonces)) (hmem : nonce ∈ nonces)
    (hsub : p.ledger.jobId = cur.jobId → p.ledger.nonces ⊆ nonces) :
    Sound { p with
      ledger := ⟨cur.jobId, nonces⟩
      claims := p.claims ++ [⟨task, cur.jobId, nonce⟩] } where
  current := h.current
  ledgerIssued := .inr (h.current cur hcur)
  ledgerClaimed cur' hcur' _ := by
    obtain rfl := Option.mem_unique hcur hcur'
    exact ⟨_, mem_append_right _ (mem_singleton_self _), rfl⟩
  claimsIssued c hc := by
    rcases mem_append.mp hc with hc | hc
    · exact h.claimsIssued c hc
    · rw [mem_singleton.mp hc]
      exact h.current cur hcur
  remembers cur' hcur' c hc hid := by
    obtain rfl := Option.mem_unique hcur hcur'
    refine ⟨rfl, ?_⟩
    rcases mem_append.mp hc with hc | hc
    · obtain ⟨hat, hin⟩ := h.remembers cur hcur c hc hid
      exact hsub hat hin
    · rw [mem_singleton.mp hc]
      exact hmem
  claimsNodup := by
    rw [map_append]
    refine nodup_append.mpr ⟨h.claimsNodup, nodup_singleton _, ?_⟩
    intro a ha b hb heq
    obtain ⟨c, hc, rfl⟩ := mem_map.mp ha
    obtain ⟨hid, rfl⟩ : c.jobId = cur.jobId ∧ c.nonce = nonce :=
      Prod.mk.inj (heq.trans (mem_singleton.mp hb))
    exact hnew (h.remembers cur hcur c hc hid)
  creditsClaimed c hc := mem_append_left _ (h.creditsClaimed c hc)
  creditsNodup := h.creditsNodup
  tasks task' := (h.tasks task').mono id (fun _ _ hjob => ⟨hjob, id⟩) (subset_append_left _ _)

lemma Sound.enter (hphase : p.tasks task = .read sub job)
    (hfits : canonicalJobUnchanged p.currentJob p.ledger.jobId →
      canonicalJobUnchanged p.currentJob job.jobId) : (p.enter task sub job).Sound := by
  have htask := h.tasks task
  rw [hphase] at htask
  obtain ⟨huncredited, hissued, hsame⟩ := htask
  rcases p.ledger.claim_cases job sub.nonce with ⟨hjob, -, hclaim⟩ | ⟨hnew, nonces, hmem, hsub, hclaim⟩
  · rw [Server.enter, hclaim]
    exact h.finish sub _ .duplicate
  · rw [Server.enter, hclaim]
    by_cases hcurrent : canonicalJobUnchanged p.currentJob job.jobId
    · rw [if_pos hcurrent]
      obtain ⟨cur, hcur, hid⟩ := canonicalJobUnchanged_iff.mp hcurrent
      obtain rfl := hsame cur hcur hid.symm
      have hclaimed := h.claimCurrent task hcur hnew hmem hsub
      have hok : TaskOk { p with
          ledger := ⟨job.jobId, nonces⟩
          claims := p.claims ++ [⟨task, job.jobId, sub.nonce⟩] } task (.claimed sub job) :=
        ⟨huncredited, ⟨hissued, hsame⟩, fun _ => mem_append_right _ (mem_singleton_self _)⟩
      exact hclaimed.setTask hok
    · rw [if_neg hcurrent]
      have hlate := h.claimLate hissued hcurrent (fun hat => hcurrent (hfits hat)) nonces
      have hok : TaskOk { p with ledger := ⟨job.jobId, nonces⟩ } task (.claimed sub job) :=
        ⟨huncredited, ⟨hissued, hsame⟩, fun hid => absurd hid hcurrent⟩
      exact hlate.setTask hok

/-! ## The other steps of a task -/

lemma Sound.readJob (hphase : p.tasks task = .submitted sub) : (p.readJob task sub).Sound := by
  have htask := h.tasks task
  rw [hphase] at htask
  unfold Server.readJob canonicalJob
  cases hcur : p.currentJob with
  | none => exact h.finish sub _ .stale
  | some cur =>
    dsimp only
    split_ifs with hid
    · refine h.setTask ⟨htask, h.current cur hcur, ?_⟩
      intro cur' hcur' _
      exact Option.mem_unique hcur hcur'
    · exact h.finish sub _ .stale

lemma Sound.hash (hphase : p.tasks task = .claimed sub job) : (p.hash E task sub job).Sound := by
  have htask := h.tasks task
  rw [hphase] at htask
  unfold Server.hash
  cases E.computePowHash job.anchor sub.nonce job.txRoot job.height with
  | none => exact h.finish sub _ .invalid
  | some pow =>
    dsimp only
    split_ifs
    · exact h.setTask htask
    · exact h.finish sub _ .invalid

lemma Sound.revalidate (hphase : p.tasks task = .hashed sub job effective block) :
    (p.revalidate task sub job effective block).Sound := by
  have htask := h.tasks task
  rw [hphase] at htask
  unfold Server.revalidate
  split_ifs with hcurrent
  · exact h.setTask ⟨htask.1, htask.2.2 hcurrent⟩
  · exact h.finish sub _ .stale

lemma Sound.credit (hphase : p.tasks task = .revalidated sub job effective block) :
    (p.credit task sub job effective block).Sound := by
  have htask := h.tasks task
  rw [hphase] at htask
  obtain ⟨huncredited, hclaimed⟩ := htask
  have hdone : (p.setTask task (.done (if block then .block else .valid))).Sound := h.setTask trivial
  refine { hdone with creditsClaimed := ?_, creditsNodup := ?_, tasks := ?_ }
  · intro c hc
    rcases mem_append.mp hc with hc | hc
    · exact h.creditsClaimed c hc
    · rw [mem_singleton.mp hc]
      exact hclaimed
  · show ((p.credits ++ [_]).map Credit.task).Nodup
    rw [map_append]
    refine nodup_append.mpr ⟨h.creditsNodup, nodup_singleton _, ?_⟩
    intro a ha b hb heq
    obtain ⟨c, hc, rfl⟩ := mem_map.mp ha
    exact huncredited c hc (heq.trans (mem_singleton.mp hb))
  · intro task'
    by_cases heq : task' = task
    · subst heq
      show TaskOk _ task' (update p.tasks task' _ task')
      rw [update_self]
      trivial
    · show TaskOk _ task' (update p.tasks task _ task')
      rw [update_of_ne heq]
      refine (h.tasks task').mono (fun hold c hc => ?_) (fun _ _ hjob => ⟨hjob, id⟩) (Subset.refl _)
      rcases mem_append.mp hc with hc | hc
      · exact hold c hc
      · rw [mem_singleton.mp hc]
        exact Ne.symm heq

/-- A step that fits keeps the invariant. -/
lemma Sound.step (hfits : p.Fits e) (hstep : p.step E e = some p') : p'.Sound := by
  have hcases := step_cases hstep
  cases e with
  | login worker login | leave worker =>
    obtain rfl : p' = _ := hcases
    exact { h with }
  | rotate candidate =>
    obtain rfl : p' = _ := hcases
    exact h.rotate hfits candidate
  | submit task sub =>
    obtain ⟨hphase, rfl⟩ := hcases
    have htask := h.tasks task
    rw [hphase] at htask
    unfold submit
    split_ifs
    · exact h.setTask htask
    · exact h.finish sub _ .unauthenticated
  | read task =>
    obtain ⟨sub, hphase, rfl⟩ := hcases
    exact h.readJob hphase
  | enter task =>
    obtain ⟨sub, job, hphase, rfl⟩ := hcases
    refine h.enter hphase (hfits job ?_)
    rw [hphase]
    rfl
  | hash task =>
    obtain ⟨sub, job, hphase, rfl⟩ := hcases
    exact h.hash hphase
  | revalidate task =>
    obtain ⟨sub, job, effective, block, hphase, rfl⟩ := hcases
    exact h.revalidate hphase
  | credit task =>
    obtain ⟨sub, job, effective, block, hphase, rfl⟩ := hcases
    exact h.credit hphase

end

/-! ## Runs -/

lemma sound_of_reaches (h : Run.Reaches (step E) Fits (new tally) p) : p.Sound :=
  h.invariant (sound_new tally) fun _ _ _ hsound hfits hstep => hsound.step hfits hstep

/-- Two credits for one job and nonce would be of one claim. -/
lemma Sound.credits_nodup (h : p.Sound) :
    (p.credits.map fun c => (c.job.jobId, c.sub.nonce)).Nodup := by
  have hnodup : p.credits.Nodup := h.creditsNodup.of_map
  refine hnodup.map_on ?_
  intro c hc c' hc' heq
  have hclaim : (⟨c.task, c.job.jobId, c.sub.nonce⟩ : Claim) = ⟨c'.task, c'.job.jobId, c'.sub.nonce⟩ :=
    inj_on_of_nodup_map h.claimsNodup (h.creditsClaimed c hc) (h.creditsClaimed c' hc') heq
  exact inj_on_of_nodup_map h.creditsNodup hc hc' (congrArg Claim.task hclaim)

/-- A nonce is refused iff it was accepted for the job. -/
lemma claim_eq_duplicate {ledger : JobNonceLedger} :
    (ledger.claim job nonce).2 = .duplicate ↔ ledger.jobId = job.jobId ∧ nonce ∈ ledger.nonces := by
  rcases ledger.claim_cases job nonce with ⟨hjob, hmem, heq⟩ | ⟨hnew, nonces, -, -, heq⟩
  · rw [heq]
    exact iff_of_true rfl ⟨hjob, hmem⟩
  · rw [heq]
    exact iff_of_false (by simp) hnew

end Server

/-- What is paid for: valid shares, work and tally. -/
def StratumStats.earned (s : StratumStats) : ℕ × ℕ × Tally := (s.validShares, s.work, s.shareTally)

lemma StratumStats.earned_refuse (s : StratumStats) (native claimed : Bool) (result : ShareResult) :
    (s.refuse native claimed result).earned = s.earned := by
  cases native <;> cases claimed <;> cases result <;> rfl

lemma StratumStats.earned_credit {s s' : StratumStats} (h : s.earned = s'.earned) (c : Credit) :
    (s.credit c).earned = (s'.credit c).earned := by
  obtain ⟨hvalid, hrest⟩ := Prod.mk.inj h
  obtain ⟨hwork, htally⟩ := Prod.mk.inj hrest
  unfold credit earned
  cases c.sub.native <;> simp [hvalid, hwork, htally]

namespace Server

variable {E : PowEnv} {e : Event}

/-- What is paid for changes by a credit only. -/
lemma earned_step (hstep : p.step E e = some p') :
    (p'.stats.earned = p.stats.earned ∧ p'.credits = p.credits) ∨
      ∃ c, p'.stats = p.stats.credit c ∧ p'.credits = p.credits ++ [c] := by
  have hcases := step_cases hstep
  cases e with
  | login worker login | leave worker =>
    obtain rfl : p' = _ := hcases
    exact .inl ⟨rfl, rfl⟩
  | rotate candidate =>
    obtain rfl : p' = _ := hcases
    match candidate with
    | none => exact .inl ⟨rfl, rfl⟩
    | some (anchor, txRoot, target, height) => exact .inl ⟨rfl, rfl⟩
  | submit task sub =>
    obtain ⟨-, rfl⟩ := hcases
    unfold submit
    split_ifs
    · exact .inl ⟨rfl, rfl⟩
    · exact .inl ⟨earned_refuse .., rfl⟩
  | read task =>
    obtain ⟨sub, -, rfl⟩ := hcases
    unfold readJob
    cases canonicalJob p.currentJob sub.jobId with
    | ok job => exact .inl ⟨rfl, rfl⟩
    | error claim => exact .inl ⟨earned_refuse .., rfl⟩
  | enter task =>
    obtain ⟨sub, job, -, rfl⟩ := hcases
    unfold enter
    cases (p.ledger.claim job sub.nonce).2 with
    | accepted => exact .inl ⟨rfl, rfl⟩
    | staleJob | duplicate => exact .inl ⟨earned_refuse .., rfl⟩
  | hash task =>
    obtain ⟨sub, job, -, rfl⟩ := hcases
    unfold hash
    cases E.computePowHash job.anchor sub.nonce job.txRoot job.height with
    | none => exact .inl ⟨earned_refuse .., rfl⟩
    | some pow =>
      dsimp only
      split_ifs
      · exact .inl ⟨rfl, rfl⟩
      · exact .inl ⟨earned_refuse .., rfl⟩
  | revalidate task =>
    obtain ⟨sub, job, effective, block, -, rfl⟩ := hcases
    unfold revalidate
    split_ifs
    · exact .inl ⟨rfl, rfl⟩
    · exact .inl ⟨earned_refuse .., rfl⟩
  | credit task =>
    obtain ⟨sub, job, effective, block, -, rfl⟩ := hcases
    exact .inr ⟨_, rfl, rfl⟩

/-- What is paid for is the credits, each of them once. -/
lemma earned_of_reaches (h : Run.Reaches (step E) Fits (new tally) p) :
    p.stats.earned = (p.credits.foldl StratumStats.credit (new tally).stats).earned := by
  refine h.invariant (P := fun p =>
    p.stats.earned = (p.credits.foldl StratumStats.credit (new tally).stats).earned) rfl ?_
  intro p e p' hp _ hstep
  rcases earned_step hstep with ⟨hearned, hcredits⟩ | ⟨c, hstats, hcredits⟩
  · rw [hearned, hcredits, hp]
  · rw [hstats, hcredits, foldl_append]
    exact earned_credit hp c

/-- A revalidation that goes on finds the task's job. -/
lemma Sound.current_of_revalidate (h : p.Sound) (hstep : p.step E (.revalidate task) = some p')
    (hphase : p'.tasks task = .revalidated sub job effective block) : p.currentJob = some job := by
  obtain ⟨sub', job', effective', block', hbefore, rfl⟩ := step_cases hstep
  have htask := h.tasks task
  rw [hbefore] at htask
  unfold Server.revalidate at hphase
  split_ifs at hphase with hcurrent
  · rw [show (p.setTask task _).tasks task = _ from update_self ..] at hphase
    obtain ⟨rfl, rfl, rfl, rfl⟩ := Phase.revalidated.inj hphase
    obtain ⟨cur, hcur, hid⟩ := canonicalJobUnchanged_iff.mp hcurrent
    rw [hcur, htask.2.1.2 cur hcur hid.symm]
  · rw [show (p.finish task sub' true .stale).tasks task = _ from update_self ..] at hphase
    cases hphase

/-- Entering keeps the current job's nonces iff it fits. -/
lemma Sound.remembers_enter_iff (h : p.Sound) (hstep : p.step E (.enter task) = some p') :
    p'.Remembers ↔ p.Fits (.enter task) := by
  refine ⟨?_, fun hfits => (h.step hfits hstep).remembers⟩
  intro hremembers
  obtain ⟨sub, job, hphase, rfl⟩ := step_cases hstep
  intro job' hjob' hat
  rw [hphase] at hjob'
  cases hjob'
  by_contra hlate
  obtain ⟨cur, hcur, hid⟩ := canonicalJobUnchanged_iff.mp hat
  obtain ⟨c, hc, hcid⟩ := h.ledgerClaimed cur hcur hid.symm
  have hne : cur.jobId ≠ job.jobId := by
    intro heq
    exact hlate (canonicalJobUnchanged_iff.mpr ⟨cur, hcur, heq⟩)
  -- the claim cannot be a duplicate, since the ledger is at another job
  rcases p.ledger.claim_cases job sub.nonce with ⟨hjob, -⟩ | ⟨-, nonces, -, -, hclaim⟩
  · exact hne (hid.trans hjob)
  · unfold Server.enter Remembers at hremembers
    rw [hclaim] at hremembers
    simp only [if_neg hlate] at hremembers
    exact hne (hremembers cur hcur c hc hcid).1.symm

/-- In every run of tasks and rotations whose claims enter the ledger in time: no two credits are
for one job and nonce; valid shares, work and tally are those of the credits; a task that goes on
after its revalidation holds the job that was current then, and only such a task credits; and no
nonce accepted for the current job is accepted again. A claim out of time does make such a nonce
acceptable. -/
theorem work_credited_once (E : PowEnv) (tally : Tally)
    (h : Run.Reaches (step E) Fits (new tally) p) :
    (p.credits.map fun c => (c.job.jobId, c.sub.nonce)).Nodup ∧
      p.stats.earned = (p.credits.foldl StratumStats.credit (new tally).stats).earned ∧
      (∀ task p' sub job effective block, p.step E (.revalidate task) = some p' →
        p'.tasks task = .revalidated sub job effective block → p.currentJob = some job) ∧
      (∀ task p', p.step E (.credit task) = some p' → ∃ sub job effective block,
        p.tasks task = .revalidated sub job effective block ∧
          p' = p.credit task sub job effective block) ∧
      (∀ cur, p.currentJob = some cur → ∀ c ∈ p.claims, c.jobId = cur.jobId →
        (p.ledger.claim cur c.nonce).2 = .duplicate) ∧
      ∀ task p', p.step E (.enter task) = some p' →
        ((∀ cur, p'.currentJob = some cur → ∀ c ∈ p'.claims, c.jobId = cur.jobId →
            (p'.ledger.claim cur c.nonce).2 = .duplicate) ↔ p.Fits (.enter task)) := by
  have hsound := sound_of_reaches h
  refine ⟨hsound.credits_nodup, earned_of_reaches h, ?_, ?_, ?_, ?_⟩
  · intro task p' sub job effective block hstep hphase
    exact hsound.current_of_revalidate hstep hphase
  · intro task p' hstep
    exact step_cases hstep
  · intro cur hcur c hc hid
    exact claim_eq_duplicate.mpr (hsound.remembers cur hcur c hc hid)
  · intro task p' hstep
    rw [← hsound.remembers_enter_iff hstep]
    simp only [Remembers, claim_eq_duplicate]

/-! ## A late claim -/

/-- Every hash meets every target. -/
def samplePow : PowEnv where
  computePowHash _ _ _ _ := some 0

/-- A worker that submits a nonce for the job of a number. -/
def sampleSub (worker job nonce : ℕ) : Submission := ⟨worker, true, formatJobId job, nonce, 1⟩

/-- A submission up to the ledger. -/
def beforeLedger (task : TaskId) (sub : Submission) : List Event := [.submit task sub, .read task]

/-- From the ledger to the credit. -/
def fromLedger (task : TaskId) : List Event := [.enter task, .hash task, .revalidate task, .credit task]

/-- A candidate every hash solves. -/
def sampleCandidate : Option (Hash × Hash × Hash × ℕ) := some (0, 0, 2 ^ 256 - 1, 1)

/-- Two workers, a first job and a share for it. -/
def timely : List Event :=
  [.login 1 [7], .login 2 [8], .rotate sampleCandidate] ++ beforeLedger 1 (sampleSub 1 1 5)
    ++ fromLedger 1

/-- That share is credited once. -/
theorem work_credited_once_timely :
    ∃ p, Run.exec (step samplePow) (new []) timely = some p ∧
      p.credits.map (fun c => (c.job.jobId, c.sub.nonce)) = [(formatJobId 1, 5)] ∧
      (p.credits.map fun c => (c.job.jobId, c.sub.nonce)).Nodup := by
  have hexec : (Run.exec (Run.guarded (step samplePow) Fits) (new []) timely).map
      (fun p => p.credits.map fun c => (c.job.jobId, c.sub.nonce)) = some [(formatJobId 1, 5)] := by
    decide +kernel
  obtain ⟨p, hrun, hcredits⟩ := Option.map_eq_some_iff.mp hexec
  exact ⟨p, Run.exec_of_guarded hrun, hcredits,
    (work_credited_once samplePow [] (Run.reaches_of_exec_guarded hrun)).1⟩

/-- A claim for the first job waits until a nonce of the second is credited, which is then credited
again. -/
def delayed : List Event :=
  [.login 1 [7], .login 2 [8], .rotate sampleCandidate] ++ beforeLedger 1 (sampleSub 1 1 5)
    ++ [.rotate sampleCandidate] ++ beforeLedger 2 (sampleSub 2 2 9) ++ fromLedger 2
    ++ [.enter 1] ++ beforeLedger 3 (sampleSub 1 2 9) ++ fromLedger 3

/-- The nonce is credited twice. -/
theorem nonce_credited_twice :
    (Run.exec (step samplePow) (new []) delayed).map
        (fun p => (p.credits.map fun c => (c.job.jobId, c.sub.nonce), p.stats.work))
      = some ([(formatJobId 2, 9), (formatJobId 2, 9)], 2) := by
  decide +kernel

end Server

end CoinCync.Stratum

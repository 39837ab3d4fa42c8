import CoinCync.PeerManager

/-!
# The cap on connections of one host

The row of a host counts the tasks that have tracked one of its connections and not untracked it, as
long as every connection is untracked once and by its own task. The other callers of
`untrack_connection` untrack a connection whose task will do it again, or an outbound one that nobody
has tracked; and the removal of a row left at zero takes along a connection tracked in between.
-/

namespace CoinCync.Peers

open List Option Peers.Task Counts

variable {cfg : Config} {s : Manager} {e : Event}

/-- An inbound task that was admitted and has not ended. -/
def Task.live (ip : ℕ) : Task → Bool
  | .connection a outbound _ => a.ip = ip ∧ outbound = false
  | .closing u => u.ip = ip ∧ u.zeroed = false
  | _ => false

/-- The live inbound connections of a host. -/
def Manager.liveInbound (s : Manager) (ip : ℕ) : ℕ := s.tasks.countP (live ip)

/-- The step untracks its own task's connection only, unless the host has no row, and removes no row
that counts one. -/
def releasesOnce (s : Manager) : Event → Bool
  | .run i _ => ((s.tasks[i]?).bind fun t => t.untracking.map fun u =>
      if u.zeroed then s.connectionsPerIp.tracked u.ip = 0
      else t.ownRelease || (s.connectionsPerIp[u.ip]?).isNone).getD true
  | _ => true

/-- No host has more tracked connections than the cap, or fewer than its tasks hold. -/
structure Covered (cfg : Config) (s : Manager) : Prop where
  cap : ∀ ip, s.connectionsPerIp.tracked ip ≤ cfg.maxConnectionsPerIp
  held : ∀ ip, s.tasks.countP (holds ip) ≤ s.connectionsPerIp.tracked ip

/-! ## Rows -/

namespace Counts

lemma tracked_insert (m : Counts) (a n ip : ℕ) :
    tracked (m.insert a n) ip = if ip = a then n else tracked m ip := by
  rw [tracked, Table.getElem?_insert]
  split <;> rfl

lemma tracked_erase (m : Counts) (a ip : ℕ) :
    tracked (m.erase a) ip = if ip = a then 0 else tracked m ip := by
  rw [tracked, Table.getElem?_erase]
  split <;> rfl

lemma tryTrackConnection_eq_some (hcap : 1 ≤ cap) (h : m.tryTrackConnection cap ip = some m') :
    tracked m ip < cap ∧ m' = m.insert ip (tracked m ip + 1) := by
  unfold tryTrackConnection at h
  unfold tracked
  split at h
  · rename_i c hc
    rw [ite_none_right_eq_some] at h
    rw [hc]
    exact ⟨h.1, (some.inj h.2).symm⟩
  · rename_i hnone
    rw [hnone]
    exact ⟨hcap, (some.inj h).symm⟩

end Counts

lemma Task.live_le_holds {t : Task} (h : t.live ip = true) : t.holds ip = true := by
  cases t with
  | connection | closing => exact h
  | _ => simp [live] at h

/-! ## One step, and every run -/

/-- The untracking of a task's own connection. -/
lemma Task.holds_of_ownRelease {t : Task} (hown : t.ownRelease = true)
    (hu : t.untracking = some u) (ip : ℕ) : t.holds ip = (u.ip = ip ∧ u.zeroed = false) := by
  cases t with
  | refusing u' | closing u' =>
    cases hu
    simp [holds]
  | _ => simp [ownRelease] at hown

/-- A row is decremented, and removed in the second operation. -/
lemma Untrack.tracked_step (u : Untrack) (m : Counts) (ip : ℕ) :
    (u.step m).1.tracked ip
      = if ip = u.ip then if u.zeroed then 0 else m.tracked ip - 1 else m.tracked ip := by
  unfold Untrack.step
  split
  · rw [tracked_erase]
  · split
    · rename_i hnone
      split_ifs with hip
      · rw [hip, tracked, hnone, getD_none]
      · rfl
    · rename_i c hc
      rw [tracked_insert]
      split_ifs with hip
      · rw [hip, tracked, hc, getD_some]
      · rfl

/-- One operation of `untrack_connection` under the condition. -/
lemma Covered.untracked (hs : Covered cfg s) (ht : s.tasks[i]? = some t)
    (hu : t.untracking = some u) (hok : if u.zeroed then s.connectionsPerIp.tracked u.ip = 0
      else t.ownRelease = true ∨ s.connectionsPerIp[u.ip]? = none)
    (hcounts : s'.connectionsPerIp = (u.step s.connectionsPerIp).1)
    (htasks : s'.tasks = s.tasks.set i t')
    (hholds : ∀ ip, t'.holds ip = (!t.ownRelease && t.holds ip)) : Covered cfg s' := by
  constructor
  · intro ip
    have hcap := hs.cap ip
    rw [hcounts, Untrack.tracked_step]
    split_ifs <;> omega
  · intro ip
    have hheld := hs.held ip
    have hset : s'.tasks.countP (holds ip) + (if t.ownRelease && t.holds ip then 1 else 0)
        = s.tasks.countP (holds ip) := by
      have h := countP_set_add (p := holds ip) t' ht
      rw [hholds, ← htasks] at h
      cases hown : t.ownRelease <;> simpa [hown] using h
    rw [hcounts, Untrack.tracked_step]
    split_ifs with hip hz
    · -- the row is removed, and counts nothing
      rw [if_pos hz, ← hip] at hok
      omega
    · rw [if_neg hz] at hok
      rcases hok with hown | hnone
      · -- the row counts this task's connection, which it gives up
        have hhold : t.holds ip = true := by
          rw [hip, holds_of_ownRelease hown hu]
          simpa using hz
        rw [hown, hhold, Bool.and_self, if_pos rfl] at hset
        omega
      · have hzero : s.connectionsPerIp.tracked ip = 0 := by
          rw [hip, tracked, hnone, getD_none]
        omega
    · omega

lemma releasesOnce_run (h : releasesOnce s (.run i c) = true) (ht : s.tasks[i]? = some t)
    (hu : t.untracking = some u) :
    if u.zeroed then s.connectionsPerIp.tracked u.ip = 0
      else t.ownRelease = true ∨ s.connectionsPerIp[u.ip]? = none := by
  simp only [releasesOnce, ht, hu, bind_some] at h
  split
  · rename_i hz
    simpa [hz] using h
  · rename_i hz
    simpa [hz] using h

lemma Covered.step (hs : Covered cfg s) (hok : releasesOnce s e = true)
    (h : CoinCync.Peers.step cfg s e = some s') : Covered cfg s' := by
  cases step_effect h with
  | other hcounts htasks => exact ⟨hcounts ▸ hs.cap, by rw [hcounts, htasks]; exact hs.held⟩
  | spawned t hcounts htasks hfree =>
    refine ⟨hcounts ▸ hs.cap, fun ip => ?_⟩
    rw [hcounts, htasks, countP_append, countP_singleton, hfree]
    exact hs.held ip
  | moved i t t' ht hcounts htasks hsame =>
    refine ⟨hcounts ▸ hs.cap, fun ip => ?_⟩
    have hset := countP_set_add (p := holds ip) t' ht
    rw [hsame] at hset
    rw [hcounts, htasks]
    exact le_trans (by omega) (hs.held ip)
  | admitted i addr ht hcounts htasks =>
    obtain ⟨hroom, hrow⟩ := tryTrackConnection_eq_some cfg.one_le hcounts
    constructor
    · intro ip
      rw [hrow, tracked_insert]
      split
      · exact hroom
      · exact hs.cap ip
    · intro ip
      have hset := countP_set_add (p := holds ip) (accepting addr) ht
      have hle := hs.held ip
      rw [hrow, htasks, tracked_insert]
      by_cases hip : ip = addr.ip
      · subst hip
        simp only [holds, decide_true, if_true] at hset ⊢
        omega
      · have hip' : ¬ addr.ip = ip := fun h => hip h.symm
        simp only [holds, Bool.false_eq_true, if_false, decide_false, hip, hip'] at hset ⊢
        omega
  | untracked i c he t t' u ht hu hcounts htasks hholds =>
    subst he
    exact hs.untracked ht hu (releasesOnce_run hok ht hu) hcounts htasks hholds

/-- In every interleaving whose steps release each connection once, no host has more live inbound
connections than the cap allows, or than are tracked. -/
theorem per_ip_cap_holds
    (hs : Run.Reaches (step cfg) (fun s e => releasesOnce s e = true) {} s) (ip : ℕ) :
    s.liveInbound ip ≤ cfg.maxConnectionsPerIp ∧
      s.liveInbound ip ≤ s.connectionsPerIp.tracked ip := by
  have hinit : Covered cfg {} := by
    have hzero : ∀ ip, tracked ({} : Manager).connectionsPerIp ip = 0 := fun ip => by
      unfold tracked
      rw [show ({} : Manager).connectionsPerIp[ip]? = none from Std.TreeMap.getElem?_emptyc,
        getD_none]
    exact ⟨fun ip => by rw [hzero]; exact Nat.zero_le _, fun ip => Nat.zero_le _⟩
  have hcov : Covered cfg s := hs.invariant hinit fun _ _ _ h hok he => h.step hok he
  have hlive : s.liveInbound ip ≤ s.tasks.countP (holds ip) :=
    countP_mono_left fun t _ h => live_le_holds h
  exact ⟨hlive.trans ((hcov.held ip).trans (hcov.cap ip)), hlive.trans (hcov.held ip)⟩

/-! ## Concrete runs -/

/-- Two connections from one host, of which the first ends. -/
theorem per_ip_cap_holds_two :
    ∃ s, Run.Reaches (step twoPerIp) (fun s e => releasesOnce s e = true) {} s ∧
      s.liveInbound 7 = 1 ∧ s.connectionsPerIp.tracked 7 = 1 ∧
      s.liveInbound 7 ≤ 2 ∧ s.liveInbound 7 ≤ s.connectionsPerIp.tracked 7 := by
  refine Run.exists_reaches_of_exec_guarded
    (admission 0 ⟨7, 1⟩ ++ admission 1 ⟨7, 2⟩ ++ [.run 0 .finish, .run 0 .next])
    (P := fun s => s.liveInbound 7 = 1 ∧ s.connectionsPerIp.tracked 7 = 1) (by decide +kernel) ?_
  intro s hreach ⟨hlive, htracked⟩
  exact ⟨hlive, htracked, per_ip_cap_holds hreach 7⟩

/-- The first of two connections is swept and untracked, and its task untracks it again. -/
def sweptTwice : List Event :=
  admission 0 ⟨7, 1⟩ ++ admission 1 ⟨7, 2⟩ ++ [.stale 100, .run 2 .next, .run 2 .next] ++
    [.run 0 .finish, .run 0 .next, .run 0 .next]

/-- A row left at zero tracks a second connection, and is then removed. -/
def removedRow : List Event :=
  admission 0 ⟨7, 1⟩ ++ [.run 0 .finish, .run 0 .next] ++ [.accept ⟨7, 2⟩, .run 1 .next] ++
    [.run 0 .next, .run 1 .next, .run 1 .next]

/-- After either run two free places admit two more, and the host has three live connections against
a cap of two. -/
theorem cap_exceeded_after_cleanup :
    (∃ s t, Run.exec (step twoPerIp) {} sweptTwice = some s ∧
      s.liveInbound 7 = 1 ∧ s.connectionsPerIp.tracked 7 = 0 ∧
      Run.exec (step twoPerIp) s (admission 3 ⟨7, 3⟩ ++ admission 4 ⟨7, 4⟩) = some t ∧
      t.liveInbound 7 = 3 ∧ t.connectionsPerIp.tracked 7 = 2) ∧
    ∃ s t, Run.exec (step twoPerIp) {} removedRow = some s ∧
      s.liveInbound 7 = 1 ∧ s.connectionsPerIp.tracked 7 = 0 ∧
      Run.exec (step twoPerIp) s (admission 2 ⟨7, 3⟩ ++ admission 3 ⟨7, 4⟩) = some t ∧
      t.liveInbound 7 = 3 ∧ t.connectionsPerIp.tracked 7 = 2 := by
  simp only [exists_and_left]
  decide +kernel

end CoinCync.Peers

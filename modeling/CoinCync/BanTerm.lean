import CoinCync.PeerManager

/-!
# The term of a ban

A ban is written under the address a peer was connected from, port included, and an inbound attempt
is looked up under its own. So an attempt from the banned port is refused for the whole term in every
run, with the ban list's way over the disk, and one from another port is not.
-/

namespace CoinCync.Peers

open PeerScorer Peers.Task Manager

variable {cfg : Config} {s : Manager} {e : Event} {addr : SocketAddr}

/-- The step bans the address: `ban_peer`, or the automatic bans. -/
def Bans (s : Manager) (e : Event) (addr : SocketAddr) : Prop :=
  (∃ i id, e = .run i .next ∧ s.tasks[i]? = some (.banning addr id)) ∨
    (e = .sweep ∧ addr ∈ (s.scorer.decayAll defaultReputation).toBan)

/-- An attempt from the host comes from the address itself. -/
def fromSamePort (addr : SocketAddr) : Event → Bool
  | .accept a => a.ip ≠ addr.ip ∨ a = addr
  | _ => true

/-! ## Steps and the scorer -/

/-- What a step does to the scorer and the clock. -/
inductive ScorerEffect (s : Manager) (e : Event) (s' : Manager) : Prop
  | kept (hscorer : s'.scorer = s.scorer) (hnow : s.now ≤ s'.now)
  | reported (a : SocketAddr) (delta : ℤ) (hscorer : s'.scorer = s.scorer.adjustReputation a delta)
      (hnow : s'.now = s.now)
  | banned (i : ℕ) (a : SocketAddr) (id : PeerId) (he : e = .run i .next)
      (ht : s.tasks[i]? = some (.banning a id)) (hscorer : s'.scorer = s.scorer.ban s.now a)
      (hnow : s'.now = s.now)
  | swept (he : e = .sweep) (hscorer : s'.scorer = s.sweepScores) (hnow : s'.now = s.now)

lemma runTask_scorer (ht : s.tasks[i]? = some t) (h : runTask cfg s i t c = some s') :
    ScorerEffect s (.run i c) s' := by
  unfold runTask at h
  split at h
  case h_1 =>
    split at h <;>
    · cases h
      exact .kept rfl le_rfl
  case h_4 =>
    split at h <;>
    · cases h
      exact .kept rfl le_rfl
  case h_12 a id =>
    cases h
    exact .banned i a id rfl ht rfl rfl
  case h_15 => contradiction
  all_goals
    cases h
    exact .kept rfl le_rfl

/-- Every event has one of the effects. -/
lemma step_scorer (h : step cfg s e = some s') : ScorerEffect s e s' := by
  have hunlist : ∀ id ban, ScorerEffect s e (s.unlistPeer id ban) := by
    intro id ban
    unfold unlistPeer
    split <;> exact .kept rfl le_rfl
  cases e with
  | tick elapsed =>
    cases h
    exact .kept rfl (Nat.le_add_right _ _)
  | accept addr =>
    simp only [step] at h
    split at h
    · cases h
      exact .kept rfl le_rfl
    · split at h <;>
      · cases h
        exact .kept rfl le_rfl
  | dial addr =>
    cases h
    exact .kept rfl le_rfl
  | ban id =>
    cases h
    exact hunlist id true
  | disconnect id | stale id =>
    cases h
    exact hunlist id false
  | rotate id =>
    simp only [step] at h
    split at h <;>
    · cases h
      exact .kept rfl le_rfl
  | report addr delta =>
    cases h
    exact .reported addr delta rfl rfl
  | sweep =>
    cases h
    exact .swept rfl rfl rfl
  | run i c =>
    simp only [step] at h
    split at h
    · rename_i t ht
      exact runTask_scorer ht h
    · contradiction

lemma banDuration_sweepScores (s : Manager) : s.sweepScores.banDuration = s.scorer.banDuration := by
  rw [sweepScores, banDuration_pruneScores, banDuration_cleanupBans,
    banDuration_autoBanBadPeers, banDuration_decayAll]

lemma banDuration_step (h : step cfg s e = some s') :
    s'.scorer.banDuration = s.scorer.banDuration := by
  cases step_scorer h with
  | kept hscorer => rw [hscorer]
  | reported a delta hscorer =>
    rw [hscorer]
    rfl
  | banned i a id he ht hscorer => rw [hscorer, banDuration_ban]
  | swept he hscorer => rw [hscorer, banDuration_sweepScores]

/-! ## A ban through a run -/

/-- Barred until the instant, and no later ban ends before it. -/
structure Barred (s : Manager) (addr : SocketAddr) (expiry : ℕ) : Prop where
  serving : s.scorer.Serving s.now addr expiry
  ends : expiry ≤ s.now + s.scorer.banDuration

/-- The clean-up and the pruning after the automatic bans. -/
lemma serving_sweepScores
    (h : ((s.scorer.decayAll defaultReputation).autoBanBadPeers s.now).Serving s.now addr expiry) :
    s.sweepScores.Serving s.now addr expiry := by
  exact h.cleanupBans.of_banned (banned_pruneScores _)

/-- No event cuts a ban short. -/
lemma Barred.step (hs : Barred s addr expiry) (h : CoinCync.Peers.step cfg s e = some s') :
    Barred s' addr expiry := by
  have hduration := banDuration_step h
  have hends := hs.ends
  cases step_scorer h with
  | kept hscorer hnow => exact ⟨hscorer ▸ hs.serving.later hnow, by rw [hduration]; omega⟩
  | reported a delta hscorer hnow =>
    exact ⟨by rw [hscorer, hnow]; exact hs.serving, by rw [hduration, hnow]; exact hends⟩
  | banned i a id he ht hscorer hnow =>
    exact ⟨by rw [hscorer, hnow]; exact hs.serving.ban hends, by rw [hduration, hnow]; exact hends⟩
  | swept he hscorer hnow =>
    refine ⟨?_, by rw [hduration, hnow]; exact hends⟩
    rw [hscorer, hnow]
    have hdecayed := hs.serving.of_banned (banned_decayAll defaultReputation)
    exact serving_sweepScores (hdecayed.autoBanBadPeers hends)

/-- A ban bars for its duration. -/
lemma Bans.barred (hban : Bans s e addr) (h : step cfg s e = some s') :
    Barred s' addr (s.now + s.scorer.banDuration) := by
  have hduration := banDuration_step h
  rcases hban with ⟨i, id, rfl, ht⟩ | ⟨rfl, hmem⟩
  · have hs' : runTask cfg s i (.banning addr id) .next = some s' := by
      simpa only [step, ht] using h
    cases hs'
    exact ⟨serving_ban, le_rfl⟩
  · cases h
    refine ⟨serving_sweepScores ?_, le_of_eq (by rw [hduration])⟩
    have hserving : PeerScorer.Serving _ s.now addr _ := serving_autoBanBadPeers hmem
    rwa [banDuration_decayAll] at hserving

lemma now_le_step (h : step cfg s e = some s') : s.now ≤ s'.now := by
  cases step_scorer h with
  | kept _ hnow => exact hnow
  | reported _ _ _ hnow | banned _ _ _ _ _ _ hnow | swept _ _ hnow => exact hnow.ge

/-- During a ban no attempt from its host is past the check, or connects. -/
structure ShutOut (s : Manager) (addr : SocketAddr) (expiry before : ℕ) : Prop where
  barred : Barred s addr expiry
  unchecked : s.now < expiry → ∀ a, checked a ∈ s.tasks → a.ip ≠ addr.ip
  held : s.now < expiry → s.tasks.countP (holds addr.ip) ≤ before

lemma ShutOut.step (hs : ShutOut s addr expiry before) (hport : fromSamePort addr e = true)
    (h : CoinCync.Peers.step cfg s e = some s') : ShutOut s' addr expiry before := by
  have hnow := now_le_step h
  refine ⟨hs.barred.step h, fun hlt a ha => ?_, fun hlt => ?_⟩
  · rcases checked_of_step h ha with ha | ⟨rfl, hfree⟩
    · exact hs.unchecked (by omega) a ha
    · intro hip
      obtain rfl : a = addr := (of_decide_eq_true hport).resolve_left (not_not.mpr hip)
      rw [hs.barred.serving.isBanned (by omega)] at hfree
      contradiction
  · rcases countP_holds_step h addr.ip with hle | ⟨a, ha, hip⟩
    · exact hle.trans (hs.held (by omega))
    · exact absurd hip (hs.unchecked (by omega) a ha)

/-- Once a ban is written and no attempt of the host is past the ban check, the host gets no
connection for the duration of the ban, in any run in which it comes from the banned port; and the
ban list on disk bars the same addresses, to the second. -/
theorem banned_host_stays_out {s₀ s₁ : Manager}
    (hreach : Run.Reaches (step cfg) (fun _ _ => True) {} s₀) (hban : Bans s₀ e addr)
    (hstep : step cfg s₀ e = some s₁)
    (hclear : ∀ a, checked a ∈ s₀.tasks → a.ip ≠ addr.ip)
    (hrun : Run.Reaches (step cfg) (fun _ e => fromSamePort addr e = true) s₁ s) :
    (s.now < s₀.now + 3600 * second →
      (∀ a, checked a ∈ s.tasks → a.ip ≠ addr.ip) ∧
        s.tasks.countP (holds addr.ip) ≤ s₀.tasks.countP (holds addr.ip)) ∧
    ∀ a t, s.now ≤ t →
      ((({} : PeerScorer).loadBansFromFile s.now (s.scorer.saveBansToFile s.now)).isBanned t a = true →
        s.scorer.isBanned t a = true) ∧
      (s.scorer.isBanned (t + second) a = true →
        (({} : PeerScorer).loadBansFromFile s.now (s.scorer.saveBansToFile s.now)).isBanned t a
          = true) := by
  have hduration : s₀.scorer.banDuration = 3600 * second :=
    hreach.invariant (P := fun r => r.scorer.banDuration = 3600 * second) rfl
      fun _ _ _ hr _ h => (banDuration_step h).trans hr
  have hbarred := hban.barred hstep
  rw [hduration] at hbarred
  have hnotAccept : ∀ a, e ≠ .accept a := by
    rintro a rfl
    rcases hban with ⟨i, id, he, -⟩ | ⟨he, -⟩ <;> cases he
  have hunchecked : ∀ a, checked a ∈ s₁.tasks → a.ip ≠ addr.ip := fun a ha =>
    (checked_of_step hstep ha).elim (hclear a) fun h => absurd h.1 (hnotAccept a)
  have hheld : s₁.tasks.countP (holds addr.ip) ≤ s₀.tasks.countP (holds addr.ip) :=
    (countP_holds_step hstep addr.ip).resolve_right fun ⟨a, ha, hip⟩ => hclear a ha hip
  have hout : ShutOut s addr (s₀.now + 3600 * second)
      (s₀.tasks.countP (holds addr.ip)) :=
    hrun.invariant (P := fun r => ShutOut r addr _ _)
      ⟨hbarred, fun _ => hunchecked, fun _ => hheld⟩ fun _ _ _ hr hport h => hr.step hport h
  exact ⟨fun hlt => ⟨hout.unchecked hlt, hout.held hlt⟩,
    fun a t ht => isBanned_load_save ht⟩

/-! ## Concrete runs -/

/-- A peer connects from port one of host seven, and is untracked. -/
def beforeBan : List Event := admission 0 ⟨7, 1⟩ ++ [.ban 100, .run 1 .next, .run 1 .next]

/-- The tasks when the ban is written. -/
def banningTasks : List Task := [.connection ⟨7, 1⟩ false (some 100), .banning ⟨7, 1⟩ 100]

lemma bans_of_banningTasks (h : s.tasks = banningTasks) :
    Bans s (.run 1 .next) ⟨7, 1⟩ ∧ ∀ a, checked a ∈ s.tasks → a.ip ≠ 7 := by
  refine ⟨.inl ⟨1, 100, rfl, by rw [h]; rfl⟩, fun a ha => ?_⟩
  rw [h] at ha
  simp [banningTasks] at ha

/-- The banned peer is gone, and comes back from the same port after five seconds. -/
theorem banned_host_stays_out_same_port :
    ∃ s₀ s₁ s, Run.Reaches (step twoPerIp) (fun _ _ => True) {} s₀ ∧
      Bans s₀ (.run 1 .next) ⟨7, 1⟩ ∧ step twoPerIp s₀ (.run 1 .next) = some s₁ ∧
      Run.Reaches (step twoPerIp) (fun _ e => fromSamePort ⟨7, 1⟩ e = true) s₁ s ∧
      s.now = 5 * second ∧ s.tasks.length = 2 ∧
      s.tasks.countP (holds 7) ≤ s₀.tasks.countP (holds 7) := by
  have hrun : ∃ s₀, Run.exec (step twoPerIp) {} beforeBan = some s₀ ∧ s₀.tasks = banningTasks ∧
      s₀.now = 0 ∧ ∃ s₁, step twoPerIp s₀ (.run 1 .next) = some s₁ ∧
      ∃ s, Run.exec (Run.guarded (step twoPerIp) fun _ e => fromSamePort ⟨7, 1⟩ e = true) s₁
          [.run 1 .next, .run 0 .finish, .run 0 .next, .tick (5 * second), .accept ⟨7, 1⟩] = some s ∧
        s.now = 5 * second ∧ s.tasks.length = 2 := by
    decide +kernel
  obtain ⟨s₀, hs₀, htasks, hnow0, s₁, hstep, s, hlast, hnow, hlen⟩ := hrun
  have hreach := Run.reaches_of_exec hs₀
  obtain ⟨hbans, hclear⟩ := bans_of_banningTasks htasks
  have hlast := Run.reaches_of_exec_guarded hlast
  have hterm : s.now < s₀.now + 3600 * second := by
    rw [hnow, hnow0]
    decide
  exact ⟨s₀, s₁, s, hreach, hbans, hstep, hlast, hnow, hlen,
    ((banned_host_stays_out hreach hbans hstep hclear hlast).1 hterm).2⟩

/-- The banned peer comes back from another port at once, and has a connection again. -/
theorem banned_host_returns :
    ∃ s₀ s₁ s, Run.Reaches (step twoPerIp) (fun _ _ => True) {} s₀ ∧
      Bans s₀ (.run 1 .next) ⟨7, 1⟩ ∧ step twoPerIp s₀ (.run 1 .next) = some s₁ ∧
      (∀ a, checked a ∈ s₀.tasks → a.ip ≠ 7) ∧
      Run.exec (step twoPerIp) s₁ ([.run 1 .next, .run 0 .finish, .run 0 .next] ++
        admission 2 ⟨7, 2⟩) = some s ∧
      s.now < s₀.now + 3600 * second ∧ s.scorer.isBanned s.now ⟨7, 1⟩ = true ∧
      s.tasks[2]? = some (.connection ⟨7, 2⟩ false (some 102)) := by
  refine Exists.imp (fun s₀ => Exists.imp fun s₁ => Exists.imp fun s
    (h : (_ ∧ s₀.tasks = banningTasks) ∧ _ ∧ _) => ⟨h.1.1, (bans_of_banningTasks h.1.2).1, h.2.1,
      (bans_of_banningTasks h.1.2).2, h.2.2⟩) ?_
  simp only [and_assoc, exists_and_left]
  apply Run.exists_reaches_of_exec beforeBan
  decide +kernel

end CoinCync.Peers

import CoinCync.Block
import CoinCync.Lib.Run

/-!
# Bans from block requests

The third request of a peer that times out bans it from the sync for 300 seconds. `on_timeout` sets the
ban, `is_sync_banned` reads it and `cleanup_sync_bans` drops bans on every tick of the sync driver.
The other methods of `ChainSync` change requests and failures and leave the bans alone; a call of one
of them is here any change to those two.
-/

namespace CoinCync.Peers

open Function Option Run

/-- A peer. -/
abbrev SyncPeer := ℕ

/-- The fields of `ChainSync` that decide on a ban. -/
structure ChainSync where
  /-- `requested_from` of the requests that wait for an answer. -/
  pendingRequests : Hash → Option SyncPeer
  peerFailures : SyncPeer → Option ℕ
  syncBannedPeers : SyncPeer → Option ℕ

/-- A call of a method. -/
inductive SyncCall
  | onTimeout (hash : Hash)
  | cleanupSyncBans
  /-- Any other method. -/
  | other (pendingRequests : Hash → Option SyncPeer) (peerFailures : SyncPeer → Option ℕ)

namespace ChainSync

/-- No request and no ban. -/
def new : ChainSync := ⟨fun _ => none, fun _ => none, fun _ => none⟩

variable (s : ChainSync) (now : ℕ)

/-- A timeout of the request bans the peer. -/
def Bans (hash : Hash) (pid : SyncPeer) : Prop :=
  s.pendingRequests hash = some pid ∧ 3 ≤ (s.peerFailures pid).getD 0 + 1

instance (hash : Hash) (pid : SyncPeer) : Decidable (s.Bans hash pid) :=
  inferInstanceAs (Decidable (_ ∧ _))

/-- `on_timeout`, as far as the bans go. -/
def onTimeout (hash : Hash) : ChainSync :=
  match s.pendingRequests hash with
  | none => s
  | some peer =>
    let s := { s with pendingRequests := update s.pendingRequests hash none }
    let c := (s.peerFailures peer).getD 0 + 1
    if 3 ≤ c then
      { s with
        syncBannedPeers := update s.syncBannedPeers peer (some (now + 300))
        peerFailures := update s.peerFailures peer none }
    else { s with peerFailures := update s.peerFailures peer (some c) }

/-- `is_sync_banned`. -/
def isSyncBanned (pid : SyncPeer) : Bool :=
  match s.syncBannedPeers pid with
  | some t => decide (now < t)
  | none => false

/-- `cleanup_sync_bans`, which retains the expired bans. -/
def cleanupSyncBans : ChainSync :=
  { s with syncBannedPeers := fun pid => (s.syncBannedPeers pid).filter fun t => decide (t ≤ now) }

/-- What a call does. -/
def call : SyncCall → ChainSync
  | .onTimeout hash => s.onTimeout now hash
  | .cleanupSyncBans => s.cleanupSyncBans now
  | .other pendingRequests peerFailures => { s with pendingRequests, peerFailures }

/-- A call at a time, after the last one. -/
def step (p : ℕ × ChainSync) (e : ℕ × SyncCall) : Option (ℕ × ChainSync) :=
  if p.1 ≤ e.1 then some (e.1, p.2.call e.1 e.2) else none

/-- A call that does not ban the peer. -/
def NotAgain (pid : SyncPeer) (p : ℕ × ChainSync) (e : ℕ × SyncCall) : Prop :=
  match e.2 with
  | .onTimeout hash => ¬p.2.Bans hash pid
  | _ => True

instance (pid : SyncPeer) (p : ℕ × ChainSync) : ∀ e, Decidable (NotAgain pid p e)
  | (_, .onTimeout hash) => inferInstanceAs (Decidable ¬p.2.Bans hash pid)
  | (_, .cleanupSyncBans) | (_, .other _ _) => inferInstanceAs (Decidable True)

/-- The ban at time `T` lasts its term throughout `es`, and no longer unless set again. -/
def LastsTerm (pid : SyncPeer) (T : ℕ) (p : ℕ × ChainSync) (es : List (ℕ × SyncCall)) : Prop :=
  ∀ es1 es2 q, es = es1 ++ es2 → exec step p es1 = some q → ∀ t, q.1 ≤ t →
    (t < T + 300 → q.2.isSyncBanned t pid = true) ∧
    (T + 300 ≤ t → exec (guarded step (NotAgain pid)) p es1 = some q →
      q.2.isSyncBanned t pid = false)

variable {pid : SyncPeer} {p p' q : ℕ × ChainSync} {e : ℕ × SyncCall} {es : List (ℕ × SyncCall)}
  {hash : Hash} {T : ℕ}

variable {s now} in
/-- A timeout bans the peer, or leaves its ban as it was. -/
lemma syncBannedPeers_onTimeout (hash : Hash) (pid : SyncPeer) :
    (s.onTimeout now hash).syncBannedPeers pid
      = if s.Bans hash pid then some (now + 300) else s.syncBannedPeers pid := by
  unfold onTimeout
  cases hreq : s.pendingRequests hash with
  | none => simp [Bans, hreq]
  | some peer =>
    dsimp only
    split_ifs with hthree hbans hbans
    · obtain rfl := mem_unique hbans.1 hreq
      exact update_self ..
    · refine update_of_ne ?_ _ _
      rintro rfl
      exact hbans ⟨hreq, hthree⟩
    · obtain rfl := mem_unique hbans.1 hreq
      exact absurd hbans.2 hthree
    · rfl

/-- Past `T`, the peer is banned until the term is over at least. -/
def InTerm (pid : SyncPeer) (T : ℕ) (p : ℕ × ChainSync) : Prop :=
  T ≤ p.1 ∧ (p.1 < T + 300 → ∃ u ∈ p.2.syncBannedPeers pid, T + 300 ≤ u)

lemma InTerm.step (h : InTerm pid T p) (hclean : e.2 = .cleanupSyncBans → T + 300 ≤ e.1)
    (hstep : step p e = some q) : InTerm pid T q := by
  obtain ⟨now, c⟩ := e
  obtain ⟨hclock, rfl⟩ : p.1 ≤ now ∧ _ = q := by simpa [step] using hstep
  refine ⟨h.1.trans hclock, fun hnow => ?_⟩
  obtain ⟨u, hu, hle⟩ := h.2 (hclock.trans_lt hnow)
  cases c with
  | onTimeout hash =>
    simp only [call, syncBannedPeers_onTimeout]
    split_ifs
    · exact ⟨now + 300, rfl, Nat.add_le_add_right (h.1.trans hclock) 300⟩
    · exact ⟨u, hu, hle⟩
  | cleanupSyncBans => exact absurd (hclean rfl) (Nat.not_le_of_lt hnow)
  | other => exact ⟨u, hu, hle⟩

/-- A run that cleans up late. -/
lemma InTerm.exec (h : InTerm pid T p) (hrun : exec ChainSync.step p es = some q)
    (hclean : ∀ e ∈ es, e.2 = .cleanupSyncBans → T + 300 ≤ e.1) : InTerm pid T q := by
  induction es generalizing p with
  | nil => rwa [← some.inj hrun]
  | cons e es ih =>
    obtain ⟨p', hp', hrun⟩ := exec_cons_eq_some.mp hrun
    exact ih (h.step (hclean e (by simp)) hp') hrun fun e' he' => hclean e' (by simp [he'])

/-- Without another ban nothing makes a ban longer. -/
lemma banned_le_of_reaches (h : Reaches step (NotAgain pid) p q)
    (hban : ∀ u ∈ p.2.syncBannedPeers pid, u ≤ T) : ∀ u ∈ q.2.syncBannedPeers pid, u ≤ T := by
  refine h.invariant (P := fun q => ∀ u ∈ q.2.syncBannedPeers pid, u ≤ T) hban ?_
  rintro p ⟨now, c⟩ q hp hagain hstep
  obtain ⟨-, rfl⟩ : p.1 ≤ now ∧ _ = q := by simpa [step] using hstep
  cases c with
  | onTimeout hash =>
    simp only [call, syncBannedPeers_onTimeout]
    rwa [if_neg hagain]
  | cleanupSyncBans => exact fun u hu => hp u (filter_eq_some_iff.mp hu).1
  | other => exact hp

/-- A ban that `on_timeout` sets at time `T` lasts 300 seconds, whatever is called with a clock that
does not go back, iff no call cleans up before they are over. -/
theorem sync_ban_lasts_iff (hban : p.2.Bans hash pid)
    (hstep : step p (T, .onTimeout hash) = some p') (hrun : exec step p' es = some q) :
    LastsTerm pid T p' es ↔ ∀ e ∈ es, e.2 = .cleanupSyncBans → T + 300 ≤ e.1 := by
  obtain ⟨-, rfl⟩ : p.1 ≤ T ∧ _ = p' := by simpa [step] using hstep
  have hset : (p.2.onTimeout T hash).syncBannedPeers pid = some (T + 300) := by
    rw [syncBannedPeers_onTimeout, if_pos hban]
  constructor
  · rintro hlasts ⟨now, c⟩ he rfl
    obtain ⟨es1, es2, rfl⟩ := List.append_of_mem he
    obtain ⟨q1, hq1, hrest⟩ := exec_append_eq_some.mp hrun
    obtain ⟨q2, hq2, -⟩ := exec_cons_eq_some.mp hrest
    have hlast := hlasts (es1 ++ [(now, .cleanupSyncBans)]) es2 q2 (by simp)
      (exec_append_eq_some.mpr ⟨q1, hq1, exec_cons_eq_some.mpr ⟨q2, hq2, rfl⟩⟩)
    obtain ⟨-, rfl⟩ : q1.1 ≤ now ∧ _ = q2 := by simpa [step] using hq2
    -- what a cleanup leaves is over
    have hover : (q1.2.cleanupSyncBans now).isSyncBanned now pid = false := by
      unfold isSyncBanned cleanupSyncBans
      dsimp only
      cases q1.2.syncBannedPeers pid with
      | none => rfl
      | some t => by_cases ht : t ≤ now <;> simp [filter_some, ht]
    by_contra hearly
    exact absurd ((hlast now (le_refl now)).1 (by omega)) (Bool.eq_false_iff.mp hover)
  · rintro hclean es1 es2 q1 rfl hq1 t ht
    constructor
    · intro hin
      have hterm : InTerm pid T q1 := InTerm.exec ⟨le_refl T, fun _ => ⟨_, hset, le_refl _⟩⟩ hq1
        fun e he => hclean e (by simp [he])
      obtain ⟨u, hu, hle⟩ := hterm.2 (ht.trans_lt hin)
      rw [isSyncBanned, hu]
      exact decide_eq_true (hin.trans_le hle)
    · intro hout hq1
      have hle := banned_le_of_reaches (reaches_of_exec_guarded hq1)
        fun u hu => (mem_unique hu hset).le
      unfold isSyncBanned
      cases hu : q1.2.syncBannedPeers pid with
      | none => rfl
      | some u => exact decide_eq_false ((hle u hu).trans hout).not_gt

/-! ## Three timeouts -/

/-- A peer whose three requests time out at second 1000. -/
def threeTimeouts : List (ℕ × SyncCall) :=
  [(1000, .other (fun hash => if hash < 3 then some 7 else none) fun _ => none),
    (1000, .onTimeout 0), (1000, .onTimeout 1)]

/-- Cleaning up after the term. -/
theorem sync_ban_lasts_late_cleanup :
    ∃ p ∈ exec step (0, new) threeTimeouts, ∃ p' ∈ step p (1000, .onTimeout 2),
      LastsTerm 7 1000 p' [(1300, .cleanupSyncBans)] := by
  have hrun : ∃ p ∈ exec step (0, new) threeTimeouts, ∃ p' ∈ step p (1000, .onTimeout 2),
      p.2.Bans 2 7 ∧ ∃ q ∈ exec step p' [(1300, .cleanupSyncBans)], True := by
    decide
  obtain ⟨p, hp, p', hp', hban, q, hq, -⟩ := hrun
  exact ⟨p, hp, p', hp', (sync_ban_lasts_iff hban hp' hq).mpr (by simp)⟩

/-- A tick of the driver one second after the ban lifts it. -/
theorem tick_lifts_ban :
    ∃ q ∈ exec step (0, new) (threeTimeouts ++ [(1000, .onTimeout 2), (1001, .cleanupSyncBans)]),
      q.2.isSyncBanned 1001 7 = false := by
  decide

end ChainSync

end CoinCync.Peers

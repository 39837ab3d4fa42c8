import CoinCync.Lib.Run
import CoinCync.PeerScorer

/-!
# Connections of the peer manager

The tasks of `network/node/peer_manager.rs`, `connection.rs` and `maintenance.rs` that open, close and
take off peers, around `connections_per_ip` of the connection tracker, the `peers` map and the peer
scorer. A task is at its next operation, and an event lets one task do one operation, so that a run is
an interleaving of atomic operations. `untrack_connection` is two: the decrement, and the removal of a
row that it has left at zero.
-/

namespace CoinCync.Peers

/-- A peer's identity. -/
abbrev PeerId := ℕ

/-- `PeerInfo`; a connection's token is the number of its task. -/
structure PeerInfo where
  addr : SocketAddr
  outbound : Bool
  token : ℕ
deriving DecidableEq

/-- What the node is started with. -/
structure Config where
  /-- The field of `new_with_cap`, which takes no less than one. -/
  maxConnectionsPerIp : ℕ
  one_le : 1 ≤ maxConnectionsPerIp := by decide
  onionOnly : Bool := false
  isLoopback : ℕ → Bool := fun _ => false

/-- `MAX_INBOUND`. -/
def maxInbound : ℕ := 64

/-- `INBOUND_HANDSHAKE_SLACK`. -/
def inboundHandshakeSlack : ℕ := 32

/-! ## The connection tracker -/

/-- `connections_per_ip`. -/
abbrev Counts := Std.TreeMap ℕ ℕ

namespace Counts

/-- `connections_from`. -/
def tracked (m : Counts) (ip : ℕ) : ℕ := m[ip]?.getD 0

/-- `try_track_connection`: `none` refuses. -/
def tryTrackConnection (cap : ℕ) (m : Counts) (ip : ℕ) : Option Counts :=
  match m[ip]? with
  | some c => if c < cap then some (m.insert ip (c + 1)) else none
  | none => some (m.insert ip 1)

end Counts

/-- A call of `untrack_connection`, before or after the decrement. -/
structure Untrack where
  ip : ℕ
  zeroed : Bool := false
deriving DecidableEq

/-- One operation of `untrack_connection`, and the rest of the call. -/
def Untrack.step (m : Counts) (u : Untrack) : Counts × Option Untrack :=
  if u.zeroed then (m.erase u.ip, none)
  else match m[u.ip]? with
    | none => (m, none)
    | some c => (m.insert u.ip (c - 1), if c - 1 = 0 then some { u with zeroed := true } else none)

/-! ## Tasks -/

/-- Where a task is. -/
inductive Task
  /-- The accept loop, past the ban check. -/
  | checked (addr : SocketAddr)
  /-- The accept loop, with the connection tracked. -/
  | accepting (addr : SocketAddr)
  | saturated (addr : SocketAddr)
  | evicting (addr : SocketAddr) (victim : Untrack)
  | permitting (addr : SocketAddr)
  | refusing (u : Untrack)
  /-- `handle_connection`, with the id the peer is listed under. -/
  | connection (addr : SocketAddr) (outbound : Bool) (listed : Option PeerId)
  /-- An inbound task whose `handle_connection` has returned. -/
  | closing (u : Untrack)
  /-- `ban_peer`, with the address to ban, `disconnect_peer`, or the stale-peer sweep. -/
  | unlisting (u : Untrack) (toBan : Option SocketAddr) (id : PeerId)
  | banning (addr : SocketAddr) (id : PeerId)
  | dropping (id : PeerId)
  | rotating (u : Untrack)
  | done
deriving DecidableEq

/-- What the environment decides at an operation. -/
inductive Choice
  | next
  /-- The answer of `select_inbound_to_evict`. -/
  | evict (victim : Option PeerId)
  /-- The handshake is done, and the peer is listed under this id. -/
  | register (id : PeerId)
  /-- `handle_connection` returns: a failed handshake, a lost duplicate, an error or a closed
  channel. -/
  | finish
deriving DecidableEq

/-- The tables, the tasks and the clock. -/
structure Manager where
  connectionsPerIp : Counts := ∅
  peers : Std.TreeMap PeerId PeerInfo := ∅
  scorer : PeerScorer := {}
  tasks : List Task := []
  now : ℕ := 0

namespace Manager

/-- The listed inbound peers. -/
def inboundCount (s : Manager) : ℕ := s.peers.values.countP fun info => !info.outbound

/-- The tasks that hold a permit. -/
def holdsPermit : Task → Bool
  | .connection _ outbound _ => !outbound
  | .closing _ => true
  | _ => false

/-- How many do. -/
def permitsInUse (s : Manager) : ℕ := s.tasks.countP holdsPermit

/-- The task goes on at another point. -/
def goto (s : Manager) (i : ℕ) (t : Task) : Manager := { s with tasks := s.tasks.set i t }

/-- Start a task. -/
def spawn (s : Manager) (t : Task) : Manager := { s with tasks := s.tasks ++ [t] }

/-- One operation of a task's `untrack_connection`. -/
def untrack (s : Manager) (i : ℕ) (u : Untrack) (again : Untrack → Task) (after : Task) : Manager :=
  let r := u.step s.connectionsPerIp
  { s with
    connectionsPerIp := r.1
    tasks := s.tasks.set i (match r.2 with | some u => again u | none => after) }

/-- `cleanup_connection`: the entry goes if it is this connection's. -/
def cleanupConnection (s : Manager) (i : ℕ) (listed : Option PeerId) : Std.TreeMap PeerId PeerInfo :=
  match listed with
  | none => s.peers
  | some id => if s.peers[id]?.any (·.token = i) then s.peers.erase id else s.peers

/-- The next operation of task `i`. -/
def runTask (cfg : Config) (s : Manager) (i : ℕ) : Task → Choice → Option Manager
  | .checked addr, .next =>
    match s.connectionsPerIp.tryTrackConnection cfg.maxConnectionsPerIp addr.ip with
    | some m => some { s.goto i (.accepting addr) with connectionsPerIp := m }
    | none => some (s.goto i .done)
  | .accepting addr, .next =>
    some (s.goto i (if s.inboundCount < maxInbound then .permitting addr else .saturated addr))
  | .saturated addr, .evict none => some (s.goto i (.refusing { ip := addr.ip }))
  | .saturated addr, .evict (some id) =>
    match s.peers[id]? with
    | some victim =>
      some { s.goto i (.evicting addr { ip := victim.addr.ip }) with peers := s.peers.erase id }
    | none => some (s.goto i (.permitting addr))
  | .evicting addr u, .next => some (s.untrack i u (.evicting addr) (.permitting addr))
  | .permitting addr, .next =>
    some (s.goto i
      (if s.permitsInUse < maxInbound + inboundHandshakeSlack then .connection addr false none
      else .refusing { ip := addr.ip }))
  | .refusing u, .next => some (s.untrack i u .refusing .done)
  | .connection addr outbound none, .register id =>
    some { s.goto i (.connection addr outbound (some id)) with
      peers := s.peers.insert id ⟨addr, outbound, i⟩ }
  | .connection addr outbound listed, .finish =>
    some { s.goto i (if outbound then .done else .closing { ip := addr.ip }) with
      peers := s.cleanupConnection i listed }
  | .closing u, .next => some (s.untrack i u .closing .done)
  | .unlisting u toBan id, .next =>
    some (s.untrack i u (.unlisting · toBan id)
      (match toBan with | some addr => .banning addr id | none => .dropping id))
  | .banning addr id, .next =>
    some { s.goto i (.dropping id) with scorer := s.scorer.ban s.now addr }
  | .dropping id, .next => some { s.goto i .done with peers := s.peers.erase id }
  | .rotating u, .next => some (s.untrack i u .rotating .done)
  | _, _ => none

/-- A listed peer's address is untracked, and the entry goes. -/
def unlistPeer (s : Manager) (id : PeerId) (ban : Bool) : Manager :=
  match s.peers[id]? with
  | some info => s.spawn (.unlisting { ip := info.addr.ip } (if ban then some info.addr else none) id)
  | none => s.spawn (.dropping id)

/-- `ban_peer`. -/
def banPeer (s : Manager) (id : PeerId) : Manager := s.unlistPeer id true

/-- `disconnect_peer`. -/
def disconnectPeer (s : Manager) (id : PeerId) : Manager := s.unlistPeer id false

/-- One stale peer of `run_cleanup_tick`. -/
def cleanupStalePeer (s : Manager) (id : PeerId) : Manager := s.unlistPeer id false

/-- The scorer's part of `run_cleanup_tick`. -/
def sweepScores (s : Manager) : PeerScorer :=
  let scorer := (s.scorer.decayAll defaultReputation).autoBanBadPeers s.now
  (scorer.cleanupBans s.now).pruneScores fun addr => s.peers.values.any (·.addr = addr)

end Manager

/-- What happens next. -/
inductive Event
  | tick (elapsed : ℕ)
  /-- A connection arrives from an address. -/
  | accept (addr : SocketAddr)
  /-- The outbound connector starts a connection task. -/
  | dial (addr : SocketAddr)
  | ban (id : PeerId)
  | disconnect (id : PeerId)
  | stale (id : PeerId)
  /-- `rotate_outbound_peer` has chosen a peer. -/
  | rotate (id : PeerId)
  /-- A report about the peer at an address. -/
  | report (addr : SocketAddr) (delta : ℤ)
  | sweep
  /-- A task does its next operation. -/
  | run (i : ℕ) (c : Choice)
deriving DecidableEq

open Manager in
/-- One event. -/
def step (cfg : Config) (s : Manager) : Event → Option Manager
  | .tick elapsed => some { s with now := s.now + elapsed }
  | .accept addr =>
    if cfg.onionOnly ∧ ¬ cfg.isLoopback addr.ip then some s
    else if s.scorer.isBanned s.now addr then some s
    else some (s.spawn (.checked addr))
  | .dial addr => some (s.spawn (.connection addr true none))
  | .ban id => some (s.banPeer id)
  | .disconnect id => some (s.disconnectPeer id)
  | .stale id => some (s.cleanupStalePeer id)
  | .rotate id =>
    match s.peers[id]? with
    | some peer => some { s.spawn (.rotating { ip := peer.addr.ip }) with peers := s.peers.erase id }
    | none => some s
  | .report addr delta => some { s with scorer := s.scorer.adjustReputation addr delta }
  | .sweep => some { s with scorer := s.sweepScores }
  | .run i c =>
    match s.tasks[i]? with
    | some t => runTask cfg s i t c
    | none => none

/-! ## What a step does -/

/-- The call of `untrack_connection` a task is in. -/
def Task.untracking : Task → Option Untrack
  | .evicting _ u | .refusing u | .closing u | .unlisting u _ _ | .rotating u => some u
  | _ => none

/-- The task has tracked a connection of the host, and not untracked it. -/
def Task.holds (ip : ℕ) : Task → Bool
  | .accepting a | .saturated a | .evicting a _ | .permitting a => a.ip = ip
  | .refusing u | .closing u => u.ip = ip ∧ u.zeroed = false
  | .connection a outbound _ => a.ip = ip ∧ outbound = false
  | _ => false

/-- The connection that the task untracks is its own. -/
def Task.ownRelease : Task → Bool
  | .refusing _ | .closing _ => true
  | _ => false

lemma countP_set_add {α : Type*} {p : α → Bool} {l : List α} {a : α} (b : α) (h : l[i]? = some a) :
    (l.set i b).countP p + (if p a then 1 else 0) = l.countP p + (if p b then 1 else 0) := by
  obtain ⟨hi, rfl⟩ := List.getElem?_eq_some_iff.mp h
  rw [List.countP_set hi]
  have hle : (if p l[i] then 1 else 0) ≤ l.countP p := by
    split
    · rename_i hp
      exact List.countP_pos_iff.mpr ⟨l[i], List.getElem_mem hi, hp⟩
    · exact Nat.zero_le _
  omega

/-- What a step does to the tracker and to the tasks. -/
inductive Effect (cfg : Config) (s : Manager) (e : Event) (s' : Manager) : Prop
  | other (hcounts : s'.connectionsPerIp = s.connectionsPerIp) (htasks : s'.tasks = s.tasks)
  | spawned (t : Task) (hcounts : s'.connectionsPerIp = s.connectionsPerIp)
      (htasks : s'.tasks = s.tasks ++ [t]) (hfree : ∀ ip, t.holds ip = false)
      (hchecked : ∀ a, t = .checked a → e = .accept a ∧ s.scorer.isBanned s.now a = false)
  | moved (i : ℕ) (t t' : Task) (ht : s.tasks[i]? = some t)
      (hcounts : s'.connectionsPerIp = s.connectionsPerIp) (htasks : s'.tasks = s.tasks.set i t')
      (hsame : ∀ ip, t'.holds ip = t.holds ip) (hchecked : ∀ a, t' ≠ .checked a)
  | admitted (i : ℕ) (addr : SocketAddr) (ht : s.tasks[i]? = some (.checked addr))
      (hcounts : s.connectionsPerIp.tryTrackConnection cfg.maxConnectionsPerIp addr.ip
        = some s'.connectionsPerIp)
      (htasks : s'.tasks = s.tasks.set i (.accepting addr))
  | untracked (i : ℕ) (c : Choice) (he : e = .run i c) (t t' : Task) (u : Untrack)
      (ht : s.tasks[i]? = some t) (hu : t.untracking = some u)
      (hcounts : s'.connectionsPerIp = (u.step s.connectionsPerIp).1)
      (htasks : s'.tasks = s.tasks.set i t')
      (hholds : ∀ ip, t'.holds ip = (!t.ownRelease && t.holds ip)) (hchecked : ∀ a, t' ≠ .checked a)

/-- A call is over, or left with a row at zero. -/
lemma Untrack.step_zeroed {u : Untrack} (h : (u.step m).2 = some u') :
    u' = { u with zeroed := true } := by
  unfold Untrack.step at h
  split at h
  · simp at h
  · split at h
    · simp at h
    · simp only [Option.ite_none_right_eq_some] at h
      exact (Option.some.inj h.2).symm

/-- The operations of `untrack_connection` of any caller. -/
lemma effect_untrack (ht : s.tasks[i]? = some t) (hu : t.untracking = some u)
    (hagain : ∀ ip, (again { u with zeroed := true }).holds ip = (!t.ownRelease && t.holds ip))
    (hafter : ∀ ip, after.holds ip = (!t.ownRelease && t.holds ip))
    (hagain' : ∀ u a, again u ≠ .checked a) (hafter' : ∀ a, after ≠ .checked a) :
    Effect cfg s (.run i c) (s.untrack i u again after) := by
  cases hr : (u.step s.connectionsPerIp).2 with
  | none =>
    refine .untracked i c rfl t after u ht hu rfl ?_ hafter hafter'
    show s.tasks.set i (match (u.step s.connectionsPerIp).2 with | some u => again u | none => after) = _
    rw [hr]
  | some u' =>
    refine .untracked i c rfl t (again u') u ht hu rfl ?_ ?_ (hagain' u')
    · show s.tasks.set i (match (u.step s.connectionsPerIp).2 with | some u => again u | none => after) = _
      rw [hr]
    · rw [Untrack.step_zeroed hr]
      exact hagain

lemma runTask_effect (ht : s.tasks[i]? = some t) (h : Manager.runTask cfg s i t c = some s') :
    Effect cfg s (.run i c) s' := by
  unfold Manager.runTask at h
  split at h
  · -- `try_track_connection`
    rename_i addr
    split at h
    · rename_i m hm
      cases h
      exact .admitted i addr ht hm rfl
    · cases h
      exact .moved i _ .done ht rfl rfl (fun _ => rfl) nofun
  · cases h
    split
    · exact .moved i _ _ ht rfl rfl (fun _ => rfl) nofun
    · exact .moved i _ _ ht rfl rfl (fun _ => rfl) nofun
  · cases h
    exact .moved i _ _ ht rfl rfl (fun ip => by simp [Task.holds]) nofun
  · split at h
    · cases h
      exact .moved i _ _ ht rfl rfl (fun _ => rfl) nofun
    · cases h
      exact .moved i _ _ ht rfl rfl (fun _ => rfl) nofun
  · cases h
    exact effect_untrack ht rfl (fun _ => rfl) (fun _ => rfl) nofun nofun
  · cases h
    split
    · exact .moved i _ _ ht rfl rfl (fun ip => by simp [Task.holds]) nofun
    · exact .moved i _ _ ht rfl rfl (fun ip => by simp [Task.holds]) nofun
  · cases h
    exact effect_untrack ht rfl (fun _ => by simp [Task.holds, Task.ownRelease]) (fun _ => rfl)
      nofun nofun
  · cases h
    exact .moved i _ _ ht rfl rfl (fun _ => rfl) nofun
  · cases h
    refine .moved i _ _ ht rfl rfl (fun ip => ?_) fun a => ?_
    · split <;> simp_all [Task.holds]
    · split <;> exact nofun
  · cases h
    exact effect_untrack ht rfl (fun _ => by simp [Task.holds, Task.ownRelease]) (fun _ => rfl)
      nofun nofun
  · cases h
    refine effect_untrack ht rfl (fun _ => rfl) (fun ip => ?_) nofun fun a => ?_
    · split <;> rfl
    · split <;> exact nofun
  · cases h
    exact .moved i _ _ ht rfl rfl (fun _ => rfl) nofun
  · cases h
    exact .moved i _ _ ht rfl rfl (fun _ => rfl) nofun
  · cases h
    exact effect_untrack ht rfl (fun _ => rfl) (fun _ => rfl) nofun nofun
  · contradiction

lemma effect_unlistPeer (id : PeerId) (ban : Bool) : Effect cfg s e (s.unlistPeer id ban) := by
  unfold Manager.unlistPeer
  split
  · exact .spawned _ rfl rfl (fun _ => rfl) nofun
  · exact .spawned _ rfl rfl (fun _ => rfl) nofun

/-- Every event has one of the effects. -/
lemma step_effect (h : step cfg s e = some s') : Effect cfg s e s' := by
  cases e with
  | tick elapsed | report addr delta | sweep =>
    cases h
    exact .other rfl rfl
  | accept addr =>
    simp only [step] at h
    split at h
    · cases h
      exact .other rfl rfl
    · split at h
      · cases h
        exact .other rfl rfl
      · rename_i hbanned
        cases h
        refine .spawned _ rfl rfl (fun _ => rfl) ?_
        rintro a ⟨⟩
        exact ⟨rfl, by simpa using hbanned⟩
  | dial addr =>
    cases h
    exact .spawned _ rfl rfl (fun ip => by simp [Task.holds]) nofun
  | ban id =>
    cases h
    exact effect_unlistPeer id true
  | disconnect id | stale id =>
    cases h
    exact effect_unlistPeer id false
  | rotate id =>
    simp only [step] at h
    split at h
    · cases h
      exact .spawned _ rfl rfl (fun _ => rfl) nofun
    · cases h
      exact .other rfl rfl
  | run i c =>
    simp only [step] at h
    split at h
    · rename_i t ht
      exact runTask_effect ht h
    · contradiction

/-- Only admissions add to what a host has tracked. -/
lemma countP_holds_step (h : step cfg s e = some s') (ip : ℕ) :
    s'.tasks.countP (Task.holds ip) ≤ s.tasks.countP (Task.holds ip) ∨
      ∃ addr, Task.checked addr ∈ s.tasks ∧ addr.ip = ip := by
  cases step_effect h with
  | other _ htasks => exact .inl (by rw [htasks])
  | spawned t _ htasks hfree =>
    left
    rw [htasks, List.countP_append, List.countP_singleton, hfree]
    exact le_rfl
  | moved i t t' ht _ htasks hsame =>
    have hset := countP_set_add (p := Task.holds ip) t' ht
    rw [hsame] at hset
    rw [htasks]
    omega
  | admitted i addr ht _ htasks =>
    by_cases hip : addr.ip = ip
    · exact .inr ⟨addr, List.mem_of_getElem? ht, hip⟩
    · have hset := countP_set_add (p := Task.holds ip) (Task.accepting addr) ht
      rw [show Task.holds ip (.accepting addr) = false from decide_eq_false hip] at hset
      rw [htasks]
      simp only [Bool.false_eq_true, if_false] at hset
      omega
  | untracked i c he t t' u ht hu _ htasks hholds =>
    have hset := countP_set_add (p := Task.holds ip) t' ht
    rw [hholds] at hset
    rw [htasks]
    have hle : (if !t.ownRelease && t.holds ip then 1 else 0) ≤ if t.holds ip then 1 else 0 := by
      cases t.ownRelease <;> cases t.holds ip <;> decide
    omega

/-- Past the ban check are those that were, or are just found not banned. -/
lemma checked_of_step (h : step cfg s e = some s') (ha : Task.checked a ∈ s'.tasks) :
    Task.checked a ∈ s.tasks ∨ (e = .accept a ∧ s.scorer.isBanned s.now a = false) := by
  have hset : ∀ {i : ℕ} {t' : Task}, s'.tasks = s.tasks.set i t' → .checked a ≠ t' →
      Task.checked a ∈ s.tasks := fun htasks hne => by
    rw [htasks] at ha
    exact (List.mem_or_eq_of_mem_set ha).resolve_right hne
  cases step_effect h with
  | other _ htasks => exact .inl (htasks ▸ ha)
  | spawned t _ htasks _ hchecked =>
    rw [htasks, List.mem_append, List.mem_singleton] at ha
    exact ha.imp_right fun heq => hchecked a heq.symm
  | moved i t t' _ _ htasks _ hchecked
  | untracked i c _ t t' u _ _ _ htasks _ hchecked => exact .inl (hset htasks (hchecked a).symm)
  | admitted i addr _ _ htasks => exact .inl (hset htasks nofun)

/-! ## A sample configuration -/

/-- The default cap. -/
def twoPerIp : Config where
  maxConnectionsPerIp := 2

/-- A connection accepted as task `i`, its peer listed under `100 + i`. -/
def admission (i : ℕ) (addr : SocketAddr) : List Event :=
  [.accept addr, .run i .next, .run i .next, .run i .next, .run i (.register (100 + i))]

end CoinCync.Peers

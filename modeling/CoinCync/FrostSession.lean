import CoinCync.Lib.Table
import Mathlib.Algebra.Order.Ring.Int

/-!
# The signing sessions of the FROST coordinator

`Session` with `Session::new` and `Session::apply`: participants attach, a message is declared,
threshold-many of them commit and submit shares, and a signature is recorded. A handler returns the
session with its verdict, since it works in place and some fields are written before a check fails.
Times are arbitrary and need not increase; the deadline is a sum of two `u64`s and wraps.
-/

namespace CoinCync.Frost

open Table

/-- A session. -/
abbrev SessionId := ℕ

/-- A participant's key. -/
abbrev ParticipantId := ℕ

/-- Opaque bytes. -/
abbrev Blob := List UInt8

/-- A week. -/
def INVITED_TIMEOUT_SECS : ℕ := 7 * 24 * 60 * 60

/-- An hour. -/
def ROUND_1_TIMEOUT_SECS : ℕ := 60 * 60

/-- An hour. -/
def ROUND_2_TIMEOUT_SECS : ℕ := 60 * 60

/-- What a participant has done. -/
structure ParticipantState where
  attached : Bool
  commitment : Option Blob
  sigShare : Option Blob
deriving DecidableEq

/-- `ParticipantState::invited`. -/
def ParticipantState.invited : ParticipantState := ⟨false, none, none⟩

/-- `SessionState`. -/
inductive SessionState
  | created
  | invited
  | round1
  | round2
  | aggregated
  | aborted
  | expired
deriving DecidableEq

namespace SessionState

/-- `is_terminal`. -/
def isTerminal : SessionState → Bool
  | aggregated | aborted | expired => true
  | _ => false

/-- `timeout_secs`. -/
def timeoutSecs : SessionState → Option ℕ
  | created | invited => some INVITED_TIMEOUT_SECS
  | round1 => some ROUND_1_TIMEOUT_SECS
  | round2 => some ROUND_2_TIMEOUT_SECS
  | aggregated | aborted | expired => none

/-- `name`. -/
def name : SessionState → String
  | created => "Created"
  | invited => "Invited"
  | round1 => "Round1"
  | round2 => "Round2"
  | aggregated => "Aggregated"
  | aborted => "Aborted"
  | expired => "Expired"

end SessionState

/-- `CoordinatorError`. -/
inductive CoordinatorError
  | invalidTransition (transition state : String)
  | unauthorizedParticipant
  | sessionTerminal (state : String)
  | sessionExpired (state : String)
  | thresholdViolation (what : String)
  | duplicateAction (what : String)
  | internal (what : String)
deriving DecidableEq

/-- `Transition`. -/
inductive Transition
  | attachParticipant (participant : ParticipantId)
  | declareMessage (message : Blob)
  | submitRound1 (participant : ParticipantId) (commitment : Blob)
  | submitRound2 (participant : ParticipantId) (sigShare : Blob)
  | submitAggregate (signature : Blob)
  | abort (participant : ParticipantId)
  | tick
deriving DecidableEq

/-- `Session`. -/
structure Session where
  id : SessionId
  state : SessionState
  threshold : ℕ
  total : ℕ
  groupPubkey : Blob
  creator : ParticipantId
  message : Option Blob
  /-- One row for a participant. -/
  participants : List (ParticipantId × ParticipantState)
  aggregateSignature : Option Blob
  createdAt : ℕ
  stateEnteredAt : ℕ
deriving DecidableEq

/-- The participants. -/
abbrev Rows := List (ParticipantId × ParticipantState)

/-- `entry(participant).or_insert_with(invited)`, attached. -/
def attachRow (participant : ParticipantId) (rows : Rows) : Rows :=
  Table.modify participant (fun e => { e with attached := true })
    (Table.orInsert participant .invited rows)

/-- Record a commitment. -/
def commitRow (participant : ParticipantId) (commitment : Blob) (rows : Rows) : Rows :=
  Table.modify participant (fun e => { e with commitment := some commitment }) rows

/-- Record a share. -/
def shareRow (participant : ParticipantId) (sigShare : Blob) (rows : Rows) : Rows :=
  Table.modify participant (fun e => { e with sigShare := some sigShare }) rows

/-- What a handler leaves behind and returns. -/
abbrev Outcome := Session × Except CoordinatorError Unit

namespace Session

/-- `Session::new`. -/
def new (id : SessionId) (threshold total : ℕ) (groupPubkey : Blob) (creator : ParticipantId)
    (now : ℕ) : Except CoordinatorError Session :=
  if threshold < 2 then .error (.thresholdViolation "threshold must be >= 2")
  else if total < threshold then .error (.thresholdViolation "total must be >= threshold")
  else if total > 255 then
    .error (.thresholdViolation "total must be <= 255 (FROST participant ID byte)")
  else .ok {
    id := id
    state := .created
    threshold := threshold
    total := total
    groupPubkey := groupPubkey
    creator := creator
    message := none
    participants := []
    aggregateSignature := none
    createdAt := now
    stateEnteredAt := now }

/-- `transition_to`. -/
def transitionTo (s : Session) (state : SessionState) (now : ℕ) : Session :=
  { s with state := state, stateEnteredAt := now }

/-- The attached participants. -/
def attachedCount (s : Session) : ℕ := s.participants.countP fun r => r.2.attached

/-- `round1_count`. -/
def round1Count (s : Session) : ℕ := s.participants.countP fun r => r.2.commitment.isSome

/-- `round2_count`. -/
def round2Count (s : Session) : ℕ := s.participants.countP fun r => r.2.sigShare.isSome

/-- The second half of `handle_attach`, in `Invited`. -/
def attach (s : Session) (participant : ParticipantId) : Outcome :=
  if s.total ≤ s.participants.length ∧ s.participants.lookup participant = none then
    (s, .error (.thresholdViolation
      ("session already has total=" ++ toString s.total ++ " participants")))
  else
    ({ s with participants := attachRow participant s.participants }, .ok ())

/-- `handle_attach`. -/
def handleAttach (s : Session) (participant : ParticipantId) (now : ℕ) : Outcome :=
  match s.state with
  | .created => (s.transitionTo .invited now).attach participant
  | .invited => s.attach participant
  | other => (s, .error (.invalidTransition "AttachParticipant" other.name))

/-- `handle_declare_message`. -/
def handleDeclareMessage (s : Session) (message : Blob) (now : ℕ) : Outcome :=
  if s.state ≠ .invited then (s, .error (.invalidTransition "DeclareMessage" s.state.name))
  else if s.message.isSome then (s, .error (.duplicateAction "message-declaration"))
  else if s.attachedCount < s.threshold then
    (s, .error (.thresholdViolation ("need " ++ toString s.threshold
      ++ " attached participants to start Round1, have " ++ toString s.attachedCount)))
  else ({ s with message := some message }.transitionTo .round1 now, .ok ())

/-- To `Round2` once there are threshold-many commitments. -/
def advanceRound1 (s : Session) (now : ℕ) : Session :=
  if s.threshold ≤ s.round1Count then s.transitionTo .round2 now else s

/-- `handle_round1`. -/
def handleRound1 (s : Session) (participant : ParticipantId) (commitment : Blob) (now : ℕ) :
    Outcome :=
  if s.state ≠ .round1 then (s, .error (.invalidTransition "SubmitRound1" s.state.name))
  else match s.participants.lookup participant with
    | none => (s, .error .unauthorizedParticipant)
    | some entry =>
      if entry.attached = false then (s, .error .unauthorizedParticipant)
      else if entry.commitment.isSome then (s, .error (.duplicateAction "round-1 commitment"))
      else
        ({ s with participants := commitRow participant commitment s.participants }.advanceRound1 now,
          .ok ())

/-- `handle_round2`. -/
def handleRound2 (s : Session) (participant : ParticipantId) (sigShare : Blob) : Outcome :=
  if s.state ≠ .round2 then (s, .error (.invalidTransition "SubmitRound2" s.state.name))
  else match s.participants.lookup participant with
    | none => (s, .error .unauthorizedParticipant)
    | some entry =>
      if entry.commitment = none then (s, .error .unauthorizedParticipant)
      else if entry.sigShare.isSome then (s, .error (.duplicateAction "round-2 share"))
      else ({ s with participants := shareRow participant sigShare s.participants }, .ok ())

/-- `handle_aggregate`. -/
def handleAggregate (s : Session) (signature : Blob) (now : ℕ) : Outcome :=
  if s.state ≠ .round2 then (s, .error (.invalidTransition "SubmitAggregate" s.state.name))
  else if s.round2Count < s.threshold then
    (s, .error (.thresholdViolation ("need " ++ toString s.threshold
      ++ " sig shares to aggregate, have " ++ toString s.round2Count)))
  else ({ s with aggregateSignature := some signature }.transitionTo .aggregated now, .ok ())

/-- The check at the top of `apply`, without overflow checks. -/
def deadlinePassed (s : Session) (now : ℕ) : Bool :=
  match s.state.timeoutSecs with
  | some timeout => (s.stateEnteredAt + timeout) % 2 ^ 64 ≤ now
  | none => false

/-- The dispatch of `apply` on a live session. -/
def dispatch (s : Session) (transition : Transition) (now : ℕ) : Outcome :=
  match transition with
  | .attachParticipant participant => s.handleAttach participant now
  | .declareMessage message => s.handleDeclareMessage message now
  | .submitRound1 participant commitment => s.handleRound1 participant commitment now
  | .submitRound2 participant sigShare => s.handleRound2 participant sigShare
  | .submitAggregate signature => s.handleAggregate signature now
  | .abort _ => (s.transitionTo .aborted now, .ok ())
  | .tick => (s, .ok ())

/-- `Session::apply`. -/
def apply (s : Session) (transition : Transition) (now : ℕ) : Outcome :=
  if s.state.isTerminal then (s, .error (.sessionTerminal s.state.name))
  else if s.deadlinePassed now then
    (s.transitionTo .expired now, .error (.sessionExpired s.state.name))
  else s.dispatch transition now

/-- Transitions at their times; a refused one is passed over. -/
def run (s : Session) (ts : List (Transition × ℕ)) : Session :=
  ts.foldl (fun s t => (s.apply t.1 t.2).1) s

/-! ## What a transition does -/

/-- Requirements and effect of an accepted transition. -/
inductive Accepts (s : Session) (now : ℕ) : Transition → Session → Prop
  | attach {p : ParticipantId} (hstate : s.state = .created ∨ s.state = .invited)
      (hroom : s.participants.length < s.total ∨ s.participants.lookup p ≠ none) :
      Accepts s now (.attachParticipant p) { s with
        state := .invited
        stateEnteredAt := if s.state = .created then now else s.stateEnteredAt
        participants := attachRow p s.participants }
  | declare {m : Blob} (hstate : s.state = .invited) (hmessage : s.message = none)
      (hattached : s.threshold ≤ s.attachedCount) :
      Accepts s now (.declareMessage m) ({ s with message := some m }.transitionTo .round1 now)
  | commit {p : ParticipantId} {c : Blob} {e : ParticipantState} (hstate : s.state = .round1)
      (hp : s.participants.lookup p = some e) (hattached : e.attached) (hnew : e.commitment = none) :
      Accepts s now (.submitRound1 p c)
        ({ s with participants := commitRow p c s.participants }.advanceRound1 now)
  | share {p : ParticipantId} {z : Blob} {e : ParticipantState} (hstate : s.state = .round2)
      (hp : s.participants.lookup p = some e) (hcommitted : e.commitment ≠ none)
      (hnew : e.sigShare = none) :
      Accepts s now (.submitRound2 p z) { s with participants := shareRow p z s.participants }
  | aggregate {g : Blob} (hstate : s.state = .round2) (hshares : s.threshold ≤ s.round2Count) :
      Accepts s now (.submitAggregate g)
        ({ s with aggregateSignature := some g }.transitionTo .aggregated now)
  | abort {p : ParticipantId} : Accepts s now (.abort p) (s.transitionTo .aborted now)
  | tick : Accepts s now .tick s

variable {s s' s₀ : Session} {t : Transition} {now : ℕ}

lemma attach_eq (s : Session) (p : ParticipantId) :
    (s.participants.length < s.total ∨ s.participants.lookup p ≠ none) ∧
        s.attach p = ({ s with participants := attachRow p s.participants }, .ok ()) ∨
      s.total ≤ s.participants.length ∧ s.participants.lookup p = none ∧
        ∃ e, s.attach p = (s, .error e) := by
  unfold attach
  split_ifs with h
  · exact .inr ⟨h.1, h.2, _, rfl⟩
  · rw [not_and_or, not_le] at h
    exact .inl ⟨h, rfl⟩

/-- The transition is accepted, or refused without a change. -/
def Decides (s : Session) (now : ℕ) (t : Transition) (o : Outcome) : Prop :=
  (∃ s', s.Accepts now t s' ∧ o = (s', .ok ())) ∨
    (∀ s', ¬s.Accepts now t s') ∧ ∃ e, o = (s, .error e)

lemma Decides.accept (h : s.Accepts now t s') : s.Decides now t (s', .ok ()) :=
  .inl ⟨s', h, rfl⟩

lemma Decides.refuse {e : CoordinatorError} (h : ∀ s', ¬s.Accepts now t s') :
    s.Decides now t (s, .error e) :=
  .inr ⟨h, e, rfl⟩

/-- The state is written before the check for room, but a new session has room. -/
lemma handleAttach_decides (hroom : s.state = .created → s.participants.length < s.total)
    (p : ParticipantId) : s.Decides now (.attachParticipant p) (s.handleAttach p now) := by
  unfold handleAttach
  split
  next hstate =>
    rcases attach_eq (s.transitionTo .invited now) p with ⟨-, heq⟩ | ⟨hfull, -⟩
    · have hacc : s.Accepts now (.attachParticipant p) _ :=
        .attach (.inl hstate) (.inl (hroom hstate))
      rw [if_pos hstate] at hacc
      rw [heq]
      exact .accept hacc
    · exact absurd (hroom hstate) (not_lt.mpr hfull)
  next hstate =>
    rcases attach_eq s p with ⟨hfits, heq⟩ | ⟨hfull, hnew, e, heq⟩
    · have hacc : s.Accepts now (.attachParticipant p) _ := .attach (.inr hstate) hfits
      rw [if_neg (by rw [hstate]; decide), ← hstate] at hacc
      rw [heq]
      exact .accept hacc
    · rw [heq]
      apply Decides.refuse
      rintro s' ⟨-, hfits | hfits⟩
      · exact not_lt.mpr hfull hfits
      · exact hfits hnew
  next hcreated hinvited =>
    apply Decides.refuse
    rintro s' ⟨hstate | hstate, -⟩
    · exact hcreated hstate
    · exact hinvited hstate

lemma handleDeclareMessage_decides (m : Blob) :
    s.Decides now (.declareMessage m) (s.handleDeclareMessage m now) := by
  unfold handleDeclareMessage
  split_ifs with hstate hmessage hattached
  · apply Decides.refuse
    rintro s' ⟨⟩
    exact hstate ‹_›
  · apply Decides.refuse
    rintro s' ⟨⟩
    simp_all
  · apply Decides.refuse
    rintro s' ⟨⟩
    omega
  · exact .accept (.declare (not_not.mp hstate) (by simpa using hmessage) (not_lt.mp hattached))

lemma handleRound1_decides (p : ParticipantId) (c : Blob) :
    s.Decides now (.submitRound1 p c) (s.handleRound1 p c now) := by
  unfold handleRound1
  split_ifs with hstate
  · apply Decides.refuse
    rintro s' ⟨⟩
    exact hstate ‹_›
  cases hp : s.participants.lookup p with
  | none =>
    apply Decides.refuse
    rintro s' ⟨⟩
    simp_all
  | some e =>
    dsimp only
    split_ifs with hattached hnew
    · apply Decides.refuse
      rintro s' ⟨⟩
      simp_all
    · apply Decides.refuse
      rintro s' ⟨⟩
      simp_all
    · exact .accept (.commit (not_not.mp hstate) hp (by simpa using hattached) (by simpa using hnew))

lemma handleRound2_decides (p : ParticipantId) (z : Blob) :
    s.Decides now (.submitRound2 p z) (s.handleRound2 p z) := by
  unfold handleRound2
  split_ifs with hstate
  · apply Decides.refuse
    rintro s' ⟨⟩
    exact hstate ‹_›
  cases hp : s.participants.lookup p with
  | none =>
    apply Decides.refuse
    rintro s' ⟨⟩
    simp_all
  | some e =>
    dsimp only
    split_ifs with hcommitted hnew
    · apply Decides.refuse
      rintro s' ⟨⟩
      simp_all
    · apply Decides.refuse
      rintro s' ⟨⟩
      simp_all
    · exact .accept (.share (not_not.mp hstate) hp hcommitted (by simpa using hnew))

lemma handleAggregate_decides (g : Blob) :
    s.Decides now (.submitAggregate g) (s.handleAggregate g now) := by
  unfold handleAggregate
  split_ifs with hstate hshares
  · apply Decides.refuse
    rintro s' ⟨⟩
    exact hstate ‹_›
  · apply Decides.refuse
    rintro s' ⟨⟩
    omega
  · exact .accept (.aggregate (not_not.mp hstate) (not_lt.mp hshares))

lemma dispatch_decides {t : Transition} (hroom : ∀ p, t = .attachParticipant p →
      s.state = .created → s.participants.length < s.total) : s.Decides now t (s.dispatch t now) := by
  cases t with
  | attachParticipant p => exact handleAttach_decides (hroom p rfl) p
  | declareMessage m => exact handleDeclareMessage_decides m
  | submitRound1 p c => exact handleRound1_decides p c
  | submitRound2 p z => exact handleRound2_decides p z
  | submitAggregate g => exact handleAggregate_decides g
  | abort p => exact .accept .abort
  | tick => exact .accept .tick

end Session

/-! ## The rows -/

section Rows

variable {rows : Rows} {p : ParticipantId} {e : ParticipantState} {c z : Blob}

/-- Who commits is attached, and who shares has committed. -/
structure ParticipantState.Ordered (e : ParticipantState) : Prop where
  attached_of_commitment : e.commitment.isSome → e.attached
  committed_of_share : e.sigShare.isSome → e.commitment.isSome

/-- What is recorded for a participant stays. -/
structure ParticipantState.Keeps (e e' : ParticipantState) : Prop where
  attached : e.attached → e'.attached
  commitment : ∀ c, e.commitment = some c → e'.commitment = some c
  sigShare : ∀ z, e.sigShare = some z → e'.sigShare = some z

lemma ParticipantState.Keeps.refl (e : ParticipantState) : e.Keeps e :=
  ⟨id, fun _ => id, fun _ => id⟩

lemma ParticipantState.Keeps.trans {e : ParticipantState} (h : e.Keeps e') (h' : e'.Keeps e'') :
    e.Keeps e'' where
  attached := h'.attached ∘ h.attached
  commitment c hc := h'.commitment c (h.commitment c hc)
  sigShare z hz := h'.sigShare z (h.sigShare z hz)

/-- What is recorded stays, row by row. -/
def Rows.Keeps (rows rows' : Rows) : Prop :=
  ∀ p e, rows.lookup p = some e → ∃ e', rows'.lookup p = some e' ∧ e.Keeps e'

lemma Rows.Keeps.refl (rows : Rows) : Rows.Keeps rows rows := fun _ e h => ⟨e, h, .refl e⟩

/-- One row for a participant, each with its records in order. -/
structure Rows.Sound (rows : Rows) : Prop where
  nodup : (rows.map (·.1)).Nodup
  ordered : ∀ r ∈ rows, r.2.Ordered

lemma Rows.Sound.modify (h : Rows.Sound rows)
    (hp : rows.lookup p = some e) (hf : (f e).Ordered) : Rows.Sound (Table.modify p f rows) where
  nodup := by
    rw [keys_modify]
    exact h.nodup
  ordered := by
    refine forall_mem_modify h.ordered ?_
    rintro ⟨q, e'⟩ hmem rfl
    -- the row of the key is the one looked up
    obtain rfl : e = e' :=
      Option.some.inj (hp.symm.trans (lookup_eq_some_of_mem h.nodup hmem))
    exact hf

lemma Rows.Sound.orInsert (h : Rows.Sound rows) : Rows.Sound (Table.orInsert p .invited rows) where
  nodup := nodup_keys_orInsert h.nodup
  ordered := forall_mem_orInsert
    h.ordered
    ⟨by simp [ParticipantState.invited], by simp [ParticipantState.invited]⟩

lemma Rows.Sound.ordered_of_lookup (h : Rows.Sound rows) (hp : rows.lookup p = some e) :
    e.Ordered := h.ordered (p, e) (mem_of_lookup_eq_some hp)

lemma lookup_orInsert_invited :
    (Table.orInsert p .invited rows).lookup p = some ((rows.lookup p).getD .invited) := by
  rw [lookup_orInsert, if_pos rfl]

lemma Rows.Sound.attachRow (h : Rows.Sound rows) : Rows.Sound (attachRow p rows) := by
  have hin := h.orInsert (p := p)
  have hold := hin.ordered_of_lookup lookup_orInsert_invited
  exact hin.modify lookup_orInsert_invited ⟨fun _ => rfl, hold.committed_of_share⟩

lemma Rows.Sound.commitRow (h : Rows.Sound rows) (hp : rows.lookup p = some e)
    (hattached : e.attached) : Rows.Sound (commitRow p c rows) :=
  h.modify hp ⟨fun _ => hattached, fun _ => rfl⟩

lemma Rows.Sound.shareRow (h : Rows.Sound rows) (hp : rows.lookup p = some e)
    (hcommitted : e.commitment ≠ none) : Rows.Sound (shareRow p z rows) :=
  h.modify hp ⟨(h.ordered_of_lookup hp).attached_of_commitment,
    fun _ => Option.isSome_iff_ne_none.mpr hcommitted⟩

/-- Attaching changes no count of commitments or shares. -/
lemma countP_attachRow (h : Rows.Sound rows) {q : ParticipantState → Bool}
    (hq : ∀ e : ParticipantState, q { e with attached := true } = q e)
    (hinvited : q .invited = false) :
    (attachRow p rows).countP (fun r => q r.2) = rows.countP (fun r => q r.2) := by
  have hcount := countP_modify (f := fun e => { e with attached := true })
    (h.orInsert (p := p)).nodup lookup_orInsert_invited q
  have hinsert : (orInsert p .invited rows).countP (fun r => q r.2)
      = rows.countP (fun r => q r.2) := countP_orInsert hinvited
  rw [hq, hinsert] at hcount
  exact Nat.add_right_cancel hcount

lemma length_attachRow (h : rows.lookup p ≠ none) : (attachRow p rows).length = rows.length := by
  obtain ⟨e, he⟩ := Option.ne_none_iff_exists'.mp h
  rw [attachRow, length_modify, orInsert_of_some he]

lemma length_attachRow_le (p : ParticipantId) (rows : Rows) : (attachRow p rows).length ≤ rows.length + 1 := by
  rw [attachRow, length_modify]
  cases he : rows.lookup p with
  | some e =>
    rw [orInsert_of_some he]
    omega
  | none =>
    rw [orInsert_of_none he]
    simp

/-- A commitment counts once. -/
lemma countP_commitRow (h : Rows.Sound rows) (hp : rows.lookup p = some e)
    (hnew : e.commitment = none) :
    (commitRow p c rows).countP (fun r => r.2.commitment.isSome)
      = rows.countP (fun r => r.2.commitment.isSome) + 1 := by
  have hcount := countP_modify (f := fun e => { e with commitment := some c }) h.nodup hp
    fun e => e.commitment.isSome
  simpa [hnew, commitRow] using hcount

/-- A share changes no count of commitments. -/
lemma countP_shareRow (h : Rows.Sound rows) (hp : rows.lookup p = some e) :
    (shareRow p z rows).countP (fun r => r.2.commitment.isSome)
      = rows.countP (fun r => r.2.commitment.isSome) :=
  Nat.add_right_cancel (countP_modify h.nodup hp
    fun e => e.commitment.isSome)

end Rows

/-! ## The invariant -/

namespace Session

variable {s s' s₀ : Session} {t : Transition} {now : ℕ}

/-- What the state of a session says of its records. -/
def Stage (s : Session) : Prop :=
  match s.state with
  | .created => s.participants = [] ∧ s.message = none ∧ s.aggregateSignature = none
  | .invited => s.round1Count = 0 ∧ s.message = none ∧ s.aggregateSignature = none
  | .round1 => s.message.isSome ∧ s.round1Count < s.threshold ∧ s.aggregateSignature = none
  | .round2 => s.message.isSome ∧ s.round1Count = s.threshold ∧ s.aggregateSignature = none
  | .aggregated => s.message.isSome ∧ s.round1Count = s.threshold ∧ s.round2Count = s.threshold ∧
      s.aggregateSignature.isSome
  | .aborted | .expired => s.aggregateSignature = none

/-- The invariant of one message and one quorum. -/
structure WellFormed (s : Session) : Prop where
  two_le_threshold : 2 ≤ s.threshold
  threshold_le_total : s.threshold ≤ s.total
  total_le : s.total ≤ 255
  sound : Rows.Sound s.participants
  length_le_total : s.participants.length ≤ s.total
  stage : s.Stage

/-- There are no more shares than commitments. -/
lemma round2Count_le_round1Count (h : Rows.Sound s.participants) : s.round2Count ≤ s.round1Count :=
  List.countP_mono_left fun r hr => (h.ordered r hr).committed_of_share

lemma wellFormed_new {id : SessionId} {threshold total : ℕ} {groupPubkey : Blob}
    {creator : ParticipantId} (h : new id threshold total groupPubkey creator now = .ok s) :
    s.WellFormed := by
  unfold new at h
  split_ifs at h with hthreshold htotal hbyte
  cases h
  exact ⟨not_lt.mp hthreshold, not_lt.mp htotal, not_lt.mp hbyte, ⟨.nil, by simp⟩,
    Nat.zero_le _, rfl, rfl, rfl⟩

section

variable (h : s.WellFormed)
include h

lemma WellFormed.stage_of_state {state : SessionState} (hstate : s.state = state) :
    Stage { s with state := state } := by
  rw [← hstate]
  exact h.stage

lemma WellFormed.room (hstate : s.state = .created) : s.participants.length < s.total := by
  obtain ⟨hnone, -⟩ := h.stage_of_state hstate
  have hlength : s.participants.length = 0 := congrArg List.length hnone
  have htwo := h.two_le_threshold
  have htotal := h.threshold_le_total
  omega

/-- Closing a session without a signature. -/
lemma WellFormed.close (hlive : s.state.isTerminal = false)
    {state : SessionState} (hstate : state = .aborted ∨ state = .expired) :
    (s.transitionTo state now).WellFormed := by
  have hnone : s.aggregateSignature = none := by
    have hstage := h.stage
    unfold Stage at hstage
    cases hs : s.state <;> simp_all [SessionState.isTerminal]
  refine { h with stage := ?_ }
  rcases hstate with rfl | rfl <;> exact hnone

/-- A participant attaches. -/
lemma WellFormed.attach (hstate : s.state = .created ∨ s.state = .invited)
    (hroom : s.participants.length < s.total ∨ s.participants.lookup p ≠ none) (enteredAt : ℕ) :
    WellFormed { s with
      state := .invited
      stateEnteredAt := enteredAt
      participants := attachRow p s.participants } := by
  have hbefore : s.round1Count = 0 ∧ s.message = none ∧ s.aggregateSignature = none := by
    rcases hstate with hstate | hstate
    · obtain ⟨hnone, hrest⟩ := h.stage_of_state hstate
      exact ⟨congrArg _ hnone, hrest⟩
    · exact h.stage_of_state hstate
  refine { h with sound := h.sound.attachRow, length_le_total := ?_, stage := ?_ }
  · show (attachRow p s.participants).length ≤ s.total
    rcases hroom with hroom | hroom
    · have hle := length_attachRow_le p s.participants
      omega
    · rw [length_attachRow hroom]
      exact h.length_le_total
  · refine ⟨?_, hbefore.2⟩
    show (attachRow p s.participants).countP _ = 0
    rw [countP_attachRow h.sound (q := fun e => e.commitment.isSome) (fun _ => rfl) rfl]
    exact hbefore.1

lemma WellFormed.commit {c : Blob} {e : ParticipantState}
    (hstate : s.state = .round1) (hp : s.participants.lookup p = some e) (hattached : e.attached)
    (hnew : e.commitment = none) :
    ({ s with participants := commitRow p c s.participants }.advanceRound1 now).WellFormed := by
  obtain ⟨hmessage, (hfew : s.round1Count < s.threshold), hnone⟩ := h.stage_of_state hstate
  have hlength : (commitRow p c s.participants).length ≤ s.total := by
    rw [commitRow, length_modify]
    exact h.length_le_total
  have hcount : round1Count { s with participants := commitRow p c s.participants }
      = s.round1Count + 1 := countP_commitRow h.sound hp hnew
  have hsound := h.sound.commitRow (c := c) hp hattached
  unfold advanceRound1
  -- one commitment was missing, or at least two
  split_ifs with hfull
  · refine { h with sound := hsound, length_le_total := hlength, stage := ⟨hmessage, ?_, hnone⟩ }
    show round1Count { s with participants := commitRow p c s.participants } = s.threshold
    have hfull' : s.threshold ≤ s.round1Count + 1 := hcount ▸ hfull
    omega
  · refine { h with sound := hsound, length_le_total := hlength, stage := ?_ }
    simp only [hstate]
    exact ⟨hmessage, not_le.mp hfull, hnone⟩

lemma WellFormed.share {z : Blob} {e : ParticipantState}
    (hstate : s.state = .round2) (hp : s.participants.lookup p = some e)
    (hcommitted : e.commitment ≠ none) :
    WellFormed { s with participants := shareRow p z s.participants } := by
  obtain ⟨hmessage, hcount, hnone⟩ := h.stage_of_state hstate
  refine { h with sound := h.sound.shareRow hp hcommitted, length_le_total := ?_, stage := ?_ }
  · rw [shareRow, length_modify]
    exact h.length_le_total
  · simp only [hstate]
    refine ⟨hmessage, ?_, hnone⟩
    exact (countP_shareRow h.sound hp).trans hcount

lemma WellFormed.aggregate (hstate : s.state = .round2) (hshares : s.threshold ≤ s.round2Count) :
    ({ s with aggregateSignature := some g }.transitionTo .aggregated now).WellFormed := by
  obtain ⟨hmessage, hcount, -⟩ := h.stage_of_state hstate
  have hle := round2Count_le_round1Count h.sound
  exact { h with stage := ⟨hmessage, hcount, le_antisymm (hcount ▸ hle) hshares, rfl⟩ }

/-- Every accepted transition. -/
lemma WellFormed.accepts (hlive : s.state.isTerminal = false)
    (hacc : s.Accepts now t s') : s'.WellFormed := by
  cases hacc with
  | attach hstate hroom => exact h.attach hstate hroom _
  | declare hstate =>
    obtain ⟨(hzero : s.round1Count = 0), -, hnone⟩ := h.stage_of_state hstate
    have htwo := h.two_le_threshold
    refine { h with stage := ⟨rfl, ?_, hnone⟩ }
    show s.round1Count < s.threshold
    omega
  | commit hstate hp hattached hnew => exact h.commit hstate hp hattached hnew
  | share hstate hp hcommitted => exact h.share hstate hp hcommitted
  | aggregate hstate hshares => exact h.aggregate hstate hshares
  | abort => exact h.close hlive (.inl rfl)
  | tick => exact h

/-- A transition is refused, expires the session, or is accepted. -/
lemma apply_cases (t : Transition) (now : ℕ) : (∃ e, s.apply t now = (s, .error e)) ∨
      (s.state.isTerminal = false ∧ s.deadlinePassed now ∧
        ∃ e, s.apply t now = (s.transitionTo .expired now, .error e)) ∨
      s.state.isTerminal = false ∧ ¬s.deadlinePassed now ∧
        ∃ s', s.Accepts now t s' ∧ s.apply t now = (s', .ok ()) := by
  unfold apply
  split_ifs with hterminal hdeadline
  · exact .inl ⟨_, rfl⟩
  · exact .inr (.inl ⟨by simpa using hterminal, hdeadline, _, rfl⟩)
  · have hdecides : s.Decides now t (s.dispatch t now) :=
      dispatch_decides fun _ _ => h.room
    rcases hdecides with haccept | ⟨-, hrefuse⟩
    · exact .inr (.inr ⟨by simpa using hterminal, hdeadline, haccept⟩)
    · exact .inl hrefuse

lemma WellFormed.apply (t : Transition) (now : ℕ) : (s.apply t now).1.WellFormed := by
  rcases apply_cases h t now with ⟨e, heq⟩ | ⟨hlive, -, e, heq⟩ | ⟨hlive, -, s', hacc, heq⟩
  · rw [heq]
    exact h
  · rw [heq]
    exact h.close hlive (.inr rfl)
  · rw [heq]
    exact h.accepts hlive hacc

lemma WellFormed.run (ts : List (Transition × ℕ)) : (s.run ts).WellFormed := by
  induction ts generalizing s with
  | nil => exact h
  | cons t ts ih => exact ih (h.apply t.1 t.2)

end

/-! ## What is recorded stays -/

/-- The fields that are fixed when a session is created. -/
def config (s : Session) : SessionId × ℕ × ℕ × Blob × ParticipantId × ℕ :=
  (s.id, s.threshold, s.total, s.groupPubkey, s.creator, s.createdAt)

/-- What is recorded never changes. -/
structure Extends (s s' : Session) : Prop where
  config : s'.config = s.config
  message : ∀ m, s.message = some m → s'.message = some m
  participants : Rows.Keeps s.participants s'.participants
  aggregateSignature : ∀ g, s.aggregateSignature = some g → s'.aggregateSignature = some g
  terminal : s.state.isTerminal → s' = s

lemma Extends.refl (s : Session) : s.Extends s :=
  ⟨rfl, fun _ h => h, .refl _, fun _ h => h, fun _ => rfl⟩

lemma Extends.trans (h : s.Extends s') (h' : s'.Extends s'') : s.Extends s'' where
  config := h'.config.trans h.config
  message m hm := h'.message m (h.message m hm)
  participants p e hp := by
    obtain ⟨e', hp, hkeep⟩ := h.participants p e hp
    obtain ⟨e'', hp, hkeep'⟩ := h'.participants p e' hp
    exact ⟨e'', hp, hkeep.trans hkeep'⟩
  aggregateSignature g hg := h'.aggregateSignature g (h.aggregateSignature g hg)
  terminal hterminal := by
    have heq := h.terminal hterminal
    rw [heq] at h'
    exact h'.terminal hterminal

/-- A session of two out of three, created at time 1000. -/
def sample : Session where
  id := 1
  state := .created
  threshold := 2
  total := 3
  groupPubkey := []
  creator := 10
  message := none
  participants := []
  aggregateSignature := none
  createdAt := 1000
  stateEnteredAt := 1000

/-- The deadline of a session that was created at the end of time is over at once. -/
example : ({ sample with stateEnteredAt := 2 ^ 64 - 1 }.apply .tick (2 ^ 64 - 1)).1.state = .expired := by
  decide

end Session

end CoinCync.Frost

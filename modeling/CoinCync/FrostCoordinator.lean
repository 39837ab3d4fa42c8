import CoinCync.FrostSession
import Mathlib.Data.List.Chain

/-!
# Requests to the FROST coordinator

`handle_request` with the attach handshake, over the sessions of `FrostSession`. A connection
presents an invitation token to attach; the other requests name a session and, where they have one,
a participant, and go to the session without asking who sent them. An attach is two steps of a run:
the rate limiter and the token are checked first, and the session is written later, with whatever
other connections do in between.
-/

namespace CoinCync.Frost

open List Option Function Session

/-- A connection. -/
abbrev ConnId := ℕ

/-- An address. -/
inductive IpAddr
  | v4 (a b c d : UInt8)
  | v6 (a b c d e f g h : UInt16)
deriving DecidableEq

/-- `canonicalize_ip_for_rate_limit`. -/
def canonicalizeIpForRateLimit : IpAddr → IpAddr
  | .v4 a b c d => .v4 a b c d
  | .v6 a b c d e f g h =>
    if a = 0 ∧ b = 0 ∧ c = 0 ∧ d = 0 ∧ e = 0 ∧ f = 0xffff then
      .v4 (g >>> 8).toUInt8 (g &&& 0xff).toUInt8 (h >>> 8).toUInt8 (h &&& 0xff).toUInt8
    else .v6 a b c d 0 0 0 0

/-- `InvitationToken`. -/
structure InvitationToken where
  sessionId : SessionId
  participantPubkey : ParticipantId
  expiresAt : ℕ
  mac : Blob
deriving DecidableEq

/-- Why a token is refused. -/
inductive InvitationError
  | expired (expiresAt now : ℕ)
  | badMac
deriving DecidableEq

/-- `invitation_error_code`. -/
def invitationErrorCode : InvitationError → String
  | .expired _ _ => "token_expired"
  | .badMac => "token_invalid"

/-- Its text. -/
def InvitationError.text : InvitationError → String
  | .expired expiresAt now =>
    "invitation token expired at " ++ toString expiresAt ++ ", now is " ++ toString now
  | .badMac => "invitation token MAC did not verify"

/-- `coordinator_error_code`. -/
def coordinatorErrorCode : CoordinatorError → String
  | .invalidTransition _ _ => "invalid_transition"
  | .unauthorizedParticipant => "unauthorized_participant"
  | .sessionTerminal _ => "session_terminal"
  | .sessionExpired _ => "session_expired"
  | .thresholdViolation _ => "threshold_violation"
  | .duplicateAction _ => "duplicate_action"
  | .internal _ => "internal_error"

/-- Its text. -/
def CoordinatorError.text : CoordinatorError → String
  | .invalidTransition transition state =>
    "invalid transition '" ++ transition ++ "' from state '" ++ state ++ "'"
  | .unauthorizedParticipant => "participant unauthorized for this session"
  | .sessionTerminal state => "session is in terminal state '" ++ state ++ "'"
  | .sessionExpired state => "session deadline elapsed for state '" ++ state ++ "'"
  | .thresholdViolation what => "threshold violation: " ++ what
  | .duplicateAction what => "duplicate " ++ what ++ " from participant"
  | .internal what => "coordinator internal: " ++ what

/-- `Request`. -/
inductive Request
  | attach (token : InvitationToken)
  | declareMessage (sessionId : SessionId) (message : Blob)
  | submitRound1 (sessionId : SessionId) (participant : ParticipantId) (commitment : Blob)
  | submitRound2 (sessionId : SessionId) (participant : ParticipantId) (sigShare : Blob)
  | submitAggregate (sessionId : SessionId) (signature : Blob)
  | abort (sessionId : SessionId) (participant : ParticipantId)
  | tick (sessionId : SessionId)
deriving DecidableEq

/-- The session and the transition that a request asks for. -/
def Request.transition : Request → Option (SessionId × Transition)
  | .attach _ => none
  | .declareMessage sid message => some (sid, .declareMessage message)
  | .submitRound1 sid participant commitment => some (sid, .submitRound1 participant commitment)
  | .submitRound2 sid participant sigShare => some (sid, .submitRound2 participant sigShare)
  | .submitAggregate sid signature => some (sid, .submitAggregate signature)
  | .abort sid participant => some (sid, .abort participant)
  | .tick sid => some (sid, .tick)

/-- `Response`. -/
inductive Response
  | accepted (newState : String)
  | rejected (code message : String)
  | stateChange (sessionId : SessionId) (newState : String)
  | aggregated (sessionId : SessionId) (signature : Blob)
  | aborted (sessionId : SessionId) (reason : String)
deriving DecidableEq

/-- The code under `invite_secret`, and a limiter bucket. -/
structure CoordEnv where
  computeMac : SessionId → ParticipantId → ℕ → Blob
  Bucket : Type
  checkKey : Bucket → ℕ → Option Bucket

/-- `verify_token`; the secret has its length by type. -/
def verifyToken (E : CoordEnv) (token : InvitationToken) (now : ℕ) : Except InvitationError Unit :=
  if now > token.expiresAt then .error (.expired token.expiresAt now)
  else if E.computeMac token.sessionId token.participantPubkey token.expiresAt = token.mac then .ok ()
  else .error .badMac

/-- The coordinator. -/
structure Coord (E : CoordEnv) where
  sessions : SessionId → Option Session
  /-- The file of the `SessionStore`. -/
  stored : SessionId → Option Session
  /-- What was sent to the subscribers of a session, in order. -/
  broadcasts : List (SessionId × Response)
  /-- The sessions a connection is subscribed to. -/
  attached : ConnId → List SessionId
  attachLimiter : IpAddr → E.Bucket
  /-- The token of an attach between its checks and its transition. -/
  inFlight : ConnId → Option InvitationToken

namespace Coord

variable {E : CoordEnv}
variable {token : InvitationToken}

/-- What `apply_transition` sends when a session has changed. -/
def notices (sid : SessionId) (prior session : Session) : List (SessionId × Response) :=
  (sid, .stateChange sid session.state.name) ::
    ((if session.state = .aggregated then
        session.aggregateSignature.toList.map fun signature => (sid, .aggregated sid signature)
      else []) ++
    if prior.state.isTerminal = false ∧ session.state.isTerminal ∧ session.state ≠ .aggregated then
      [(sid, .aborted sid ("session entered " ++ session.state.name))]
    else [])

/-- `apply_transition`. A save that fails is only logged. -/
def applyTransition (c : Coord E) (sid : SessionId) (transition : Transition) (now : ℕ)
    (saves : Bool) : Coord E × Except CoordinatorError String :=
  match c.sessions sid with
  | none => (c, .error (.internal "unknown session"))
  | some session =>
    let outcome := session.apply transition now
    let sessions := Function.update c.sessions sid (some outcome.1)
    match outcome.2 with
    | .error e => ({ c with sessions := sessions }, .error e)
    | .ok () =>
      ({ c with
          sessions := sessions
          stored := if saves then sessions else c.stored
          broadcasts := c.broadcasts ++ notices sid session outcome.1 },
        .ok outcome.1.state.name)

/-- `apply_helper`. -/
def applyHelper (c : Coord E) (sid : SessionId) (transition : Transition) (now : ℕ) (saves : Bool) :
    Coord E × Option Response :=
  match c.applyTransition sid transition now saves with
  | (c, .ok newState) => (c, some (.accepted newState))
  | (c, .error e) => (c, some (.rejected (coordinatorErrorCode e) e.text))

/-- `handle_attach` up to the transition. -/
def beginAttach (c : Coord E) (conn : ConnId) (ip : IpAddr) (token : InvitationToken)
    (instant now : ℕ) : Coord E × Option Response :=
  let bucketIp := canonicalizeIpForRateLimit ip
  match E.checkKey (c.attachLimiter bucketIp) instant with
  | none =>
    (c, some (.rejected "rate_limited" "attach rate limit exceeded (60 attempts/min/IP)"))
  | some bucket =>
    let c := { c with attachLimiter := Function.update c.attachLimiter bucketIp bucket }
    match verifyToken E token now with
    | .error e => (c, some (.rejected (invitationErrorCode e) e.text))
    | .ok () =>
      if c.sessions token.sessionId = none then
        (c, some (.rejected "unknown_session" "session not found in coordinator state"))
      else ({ c with inFlight := Function.update c.inFlight conn (some token) }, none)

/-- The rest of `handle_attach`. -/
def finishAttach (c : Coord E) (conn : ConnId) (token : InvitationToken) (now : ℕ) (saves : Bool) :
    Coord E × Option Response :=
  match c.applyTransition token.sessionId (.attachParticipant token.participantPubkey) now saves with
  | (c, .ok newState) =>
    ({ c with
        attached := Function.update c.attached conn (token.sessionId :: c.attached conn)
        inFlight := Function.update c.inFlight conn none }, some (.accepted newState))
  | (c, .error e) =>
    ({ c with inFlight := Function.update c.inFlight conn none },
      some (.rejected (coordinatorErrorCode e) e.text))

/-- `handle_request`; a text that does not parse is an error. -/
def handleRequest (c : Coord E) (conn : ConnId) (ip : IpAddr) (instant now : ℕ) (saves : Bool) :
    Except String Request → Coord E × Option Response
  | .error e => (c, some (.rejected "bad_request" ("malformed JSON: " ++ e)))
  | .ok (.attach token) => c.beginAttach conn ip token instant now
  | .ok (.declareMessage sid message) => c.applyHelper sid (.declareMessage message) now saves
  | .ok (.submitRound1 sid participant commitment) =>
    c.applyHelper sid (.submitRound1 participant commitment) now saves
  | .ok (.submitRound2 sid participant sigShare) =>
    c.applyHelper sid (.submitRound2 participant sigShare) now saves
  | .ok (.submitAggregate sid signature) => c.applyHelper sid (.submitAggregate signature) now saves
  | .ok (.abort sid participant) => c.applyHelper sid (.abort participant) now saves
  | .ok (.tick sid) => c.applyHelper sid .tick now saves

end Coord

/-- A request arrives at a connection, or the attach in flight goes on. -/
inductive Event
  | request (conn : ConnId) (ip : IpAddr) (req : Except String Request) (instant now : ℕ)
      (saves : Bool)
  | attach (conn : ConnId) (now : ℕ) (saves : Bool)

namespace Event

/-- Its connection. -/
def conn : Event → ConnId
  | request conn .. => conn
  | attach conn .. => conn

/-- Its time. -/
def now : Event → ℕ
  | request _ _ _ _ now _ => now
  | attach _ now _ => now

/-- The save of the event succeeds. -/
def saves : Event → Bool
  | request _ _ _ _ _ saves => saves
  | attach _ _ saves => saves

/-- The bucket of the limiter that an event asks. -/
def bucket : Event → Option IpAddr
  | .request _ ip (.ok (.attach _)) _ _ _ => some (canonicalizeIpForRateLimit ip)
  | _ => none

/-- The event presents a valid invitation to a session. -/
def Presents (E : CoordEnv) (sid : SessionId) : Event → Prop
  | .request _ _ (.ok (.attach token)) _ now _ =>
    token.sessionId = sid ∧ verifyToken E token now = .ok ()
  | _ => False

end Event

namespace Coord

variable {E : CoordEnv} {c i : Coord E} {e : Event} {sid : SessionId} {t : Transition}

/-- A connection takes its next request after the last answer. -/
def step (c : Coord E) : Event → Coord E
  | .request conn ip req instant now saves =>
    match c.inFlight conn with
    | some _ => c
    | none => (c.handleRequest conn ip instant now saves req).1
  | .attach conn now saves =>
    match c.inFlight conn with
    | some token => (c.finishAttach conn token now saves).1
    | none => c

section

variable {conn : ConnId} {ip : IpAddr} {req : Except String Request} {instant now : ℕ} {saves : Bool}

lemma step_request (h : c.inFlight conn = none) :
    c.step (.request conn ip req instant now saves)
      = (c.handleRequest conn ip instant now saves req).1 := by
  simp only [step, h]

lemma step_request_of_busy (h : c.inFlight conn = some token) :
    c.step (.request conn ip req instant now saves) = c := by
  simp only [step, h]

lemma step_attach (h : c.inFlight conn = some token) :
    c.step (.attach conn now saves) = (c.finishAttach conn token now saves).1 := by
  simp only [step, h]

lemma step_attach_of_idle (h : c.inFlight conn = none) : c.step (.attach conn now saves) = c := by
  simp only [step, h]

end

/-- The events one after another. -/
def run (c : Coord E) (es : List Event) : Coord E := es.foldl step c

lemma run_cons (c : Coord E) (e : Event) (es : List Event) : c.run (e :: es) = (c.step e).run es :=
  rfl

/-! ## What a step writes -/

variable {now : ℕ}

/-- The session and the transition a step applies to it. -/
def applied (c : Coord E) : Event → Option (SessionId × Transition)
  | .request conn _ (.ok req) _ _ _ => if c.inFlight conn = none then req.transition else none
  | .request _ _ (.error _) _ _ _ => none
  | .attach conn _ _ =>
    (c.inFlight conn).map fun token => (token.sessionId, .attachParticipant token.participantPubkey)

/-- What a transition writes: sessions, file and notices. -/
def written (c : Coord E) : (SessionId → Option Session) × (SessionId → Option Session) ×
    List (SessionId × Response) := (c.sessions, c.stored, c.broadcasts)

/-- One session takes the transition. -/
lemma applyTransition_sessions (saves : Bool) (k : SessionId) :
    (c.applyTransition sid t now saves).1.sessions k
      = if k = sid then (c.sessions k).map fun s => (s.apply t now).1 else c.sessions k := by
  unfold applyTransition
  cases hs : c.sessions sid with
  | none =>
    by_cases hk : k = sid
    · subst hk
      simp [hs]
    · simp [hk]
  | some s =>
    dsimp only
    cases (s.apply t now).2 <;> by_cases hk : k = sid <;> simp_all

lemma applyTransition_frame (c : Coord E) (sid : SessionId) (t : Transition) (now : ℕ)
    (saves : Bool) :
    (c.applyTransition sid t now saves).1.attachLimiter = c.attachLimiter ∧
      (c.applyTransition sid t now saves).1.inFlight = c.inFlight := by
  unfold applyTransition
  cases c.sessions sid with
  | none => exact ⟨rfl, rfl⟩
  | some s =>
    dsimp only
    cases (s.apply t now).2 <;> exact ⟨rfl, rfl⟩

lemma applyHelper_fst (saves : Bool) :
    (c.applyHelper sid t now saves).1 = (c.applyTransition sid t now saves).1 := by
  unfold applyHelper
  rcases c.applyTransition sid t now saves with ⟨c', r⟩
  cases r <;> rfl

lemma finishAttach_eq (c : Coord E) (conn : ConnId) (token : InvitationToken) (now : ℕ)
    (saves : Bool) :
    (c.finishAttach conn token now saves).1.written
        = (c.applyTransition token.sessionId (.attachParticipant token.participantPubkey) now
            saves).1.written ∧
      (c.finishAttach conn token now saves).1.attachLimiter = c.attachLimiter ∧
      (c.finishAttach conn token now saves).1.inFlight = Function.update c.inFlight conn none := by
  have hframe := applyTransition_frame c token.sessionId
    (.attachParticipant token.participantPubkey) now saves
  unfold finishAttach
  generalize c.applyTransition token.sessionId (.attachParticipant token.participantPubkey) now saves
    = o at hframe ⊢
  obtain ⟨c', r⟩ := o
  obtain ⟨hlimiter, hflight⟩ := hframe
  cases r <;> exact ⟨rfl, hlimiter, congrArg (update · conn none) hflight⟩

lemma handleRequest_of_transition {req : Request} (h : req.transition = some (sid, t))
    (conn : ConnId) (ip : IpAddr) (instant : ℕ) (saves : Bool) :
    c.handleRequest conn ip instant now saves (.ok req) = c.applyHelper sid t now saves := by
  cases req with
  | attach token => cases h
  | _ =>
    cases h
    rfl

lemma eq_attach_of_transition {req : Request} (h : req.transition = none) :
    ∃ token, req = .attach token := by
  cases req with
  | attach token => exact ⟨token, rfl⟩
  | _ => cases h

/-- The checks of an attach write no session. -/
lemma beginAttach_cases (c : Coord E) (conn : ConnId) (ip : IpAddr) (token : InvitationToken)
    (instant now : ℕ) :
    (E.checkKey (c.attachLimiter (canonicalizeIpForRateLimit ip)) instant = none ∧
        (c.beginAttach conn ip token instant now).1 = c) ∨
      ∃ bucket, E.checkKey (c.attachLimiter (canonicalizeIpForRateLimit ip)) instant = some bucket ∧
        (c.beginAttach conn ip token instant now).1 = { c with
          attachLimiter :=
            update c.attachLimiter (canonicalizeIpForRateLimit ip) bucket
          inFlight :=
            if verifyToken E token now = .ok () ∧ c.sessions token.sessionId ≠ none then
              update c.inFlight conn (some token)
            else c.inFlight } := by
  unfold beginAttach
  cases hcheck : E.checkKey (c.attachLimiter (canonicalizeIpForRateLimit ip)) instant with
  | none =>
    left
    simp only [hcheck, and_self]
  | some bucket =>
    simp only [hcheck]
    cases verifyToken E token now with
    | error e => simp
    | ok u => by_cases hs : c.sessions token.sessionId = none <;> simp [hs]

/-- A step writes what its transition does. -/
lemma written_step (h : c.applied e = some (sid, t)) :
    (c.step e).written = (c.applyTransition sid t e.now e.saves).1.written := by
  cases e with
  | request conn ip req instant now saves =>
    cases req with
    | error e => cases h
    | ok req =>
      simp only [applied] at h
      split_ifs at h with hidle
      rw [step_request hidle, handleRequest_of_transition h, applyHelper_fst]
      rfl
  | attach conn now saves =>
    obtain ⟨token, hflight, heq⟩ := map_eq_some_iff.mp h
    obtain ⟨rfl, rfl⟩ := Prod.mk.inj heq
    rw [step_attach hflight, (finishAttach_eq ..).1]
    rfl

/-- A step applies its transition to one session. -/
lemma sessions_step (h : c.applied e = some (sid, t)) (k : SessionId) :
    (c.step e).sessions k
      = if k = sid then (c.sessions k).map fun s => (s.apply t e.now).1 else c.sessions k := by
  rw [← applyTransition_sessions e.saves k]
  exact congrFun (congrArg Prod.fst (written_step h)) k

/-- A step without a transition writes nothing. -/
lemma written_step_of_none (h : c.applied e = none) : (c.step e).written = c.written := by
  cases e with
  | request conn ip req instant now saves =>
    cases hflight : c.inFlight conn with
    | some token => rw [step_request_of_busy hflight]
    | none =>
      rw [step_request hflight]
      cases req with
      | error e => rfl
      | ok req =>
        simp only [applied, hflight] at h
        obtain ⟨token, rfl⟩ := eq_attach_of_transition h
        show (c.beginAttach conn ip token instant now).1.written = c.written
        rcases beginAttach_cases c conn ip token instant now with ⟨-, heq⟩ | ⟨bucket, -, heq⟩
        · rw [heq]
        · rw [heq]
          rfl
  | attach conn now saves =>
    rw [step_attach_of_idle (map_eq_none_iff.mp h)]

lemma sessions_step_of_none (h : c.applied e = none) : (c.step e).sessions = c.sessions :=
  congrArg Prod.fst (written_step_of_none h)

/-- No step adds or removes a session. -/
lemma sessions_step_eq_none (k : SessionId) : (c.step e).sessions k = none ↔ c.sessions k = none := by
  cases h : c.applied e with
  | none => rw [sessions_step_of_none h]
  | some a =>
    rw [sessions_step h]
    split_ifs
    · exact map_eq_none_iff
    · rfl

lemma applyHelper_frame (sid : SessionId) (t : Transition) (now : ℕ) (saves : Bool) :
    (c.applyHelper sid t now saves).1.attachLimiter = c.attachLimiter ∧
      (c.applyHelper sid t now saves).1.inFlight = c.inFlight := by
  rw [applyHelper_fst]
  exact applyTransition_frame c sid t now saves

/-- An attach asks one bucket, and its token is in flight until finished. -/
lemma step_frame (c : Coord E) (e : Event) :
    (∃ conn ip token instant now saves,
        e = .request conn ip (.ok (.attach token)) instant now saves ∧ c.inFlight conn = none ∧
          c.step e = (c.beginAttach conn ip token instant now).1) ∨
      (c.step e).attachLimiter = c.attachLimiter ∧
        ((c.step e).inFlight = c.inFlight ∨
          ∃ conn now saves, e = .attach conn now saves ∧
            (c.step e).inFlight = Function.update c.inFlight conn none) := by
  cases e with
  | request conn ip req instant now saves =>
    cases hflight : c.inFlight conn with
    | some token =>
      rw [step_request_of_busy hflight]
      exact .inr ⟨rfl, .inl rfl⟩
    | none =>
      rw [step_request hflight]
      cases req with
      | error e => exact .inr ⟨rfl, .inl rfl⟩
      | ok req =>
        cases htransition : req.transition with
        | none =>
          obtain ⟨token, rfl⟩ := eq_attach_of_transition htransition
          exact .inl ⟨conn, ip, token, instant, now, saves, rfl, hflight, rfl⟩
        | some a =>
          have hframe := applyHelper_frame (c := c) a.1 a.2 now saves
          rw [← handleRequest_of_transition htransition conn ip instant saves] at hframe
          exact .inr ⟨hframe.1, .inl hframe.2⟩
  | attach conn now saves =>
    cases hflight : c.inFlight conn with
    | none =>
      rw [step_attach_of_idle hflight]
      exact .inr ⟨rfl, .inl rfl⟩
    | some token =>
      rw [step_attach hflight]
      have heq := finishAttach_eq c conn token now saves
      exact .inr ⟨heq.2.1, .inr ⟨conn, now, saves, rfl, heq.2.2⟩⟩

/-- Other connections' tokens are not touched. -/
lemma inFlight_step {conn : ConnId} (h : conn ≠ e.conn) :
    (c.step e).inFlight conn = c.inFlight conn := by
  rcases step_frame c e with ⟨conn', ip, token, instant, now, saves, rfl, -, heq⟩ | ⟨-, heq | heq⟩
  · rw [heq]
    rcases beginAttach_cases c conn' ip token instant now with ⟨-, heq⟩ | ⟨bucket, -, heq⟩
    · rw [heq]
    · rw [heq]
      split_ifs
      · exact update_of_ne h _ _
      · rfl
  · rw [heq]
  · obtain ⟨conn', now, saves, rfl, heq⟩ := heq
    rw [heq]
    exact update_of_ne h _ _

/-- A token comes into flight by being presented. -/
lemma inFlight_step_self (h : (c.step e).inFlight e.conn = some token) :
    c.inFlight e.conn = some token ∨ e.Presents E token.sessionId := by
  rcases step_frame c e with ⟨conn, ip, token', instant, now, saves, rfl, -, heq⟩ | ⟨-, heq | heq⟩
  · rw [heq] at h
    rcases beginAttach_cases c conn ip token' instant now with ⟨-, heq⟩ | ⟨bucket, -, heq⟩
    · rw [heq] at h
      exact .inl h
    · rw [heq] at h
      dsimp only at h
      split_ifs at h with hvalid
      · rw [Event.conn, update_self, some.injEq] at h
        subst h
        exact .inr ⟨rfl, hvalid.1⟩
      · exact .inl h
  · rw [heq] at h
    exact .inl h
  · obtain ⟨conn, now, saves, rfl, heq⟩ := heq
    rw [heq, Event.conn, update_self] at h
    cases h

/-- Only an attach from it takes from a bucket. -/
lemma attachLimiter_step {ip : IpAddr} (h : e.bucket ≠ some ip) :
    (c.step e).attachLimiter ip = c.attachLimiter ip := by
  rcases step_frame c e with ⟨conn, ip', token, instant, now, saves, rfl, -, heq⟩ | ⟨heq, -⟩
  · rw [heq]
    rcases beginAttach_cases c conn ip' token instant now with ⟨-, heq⟩ | ⟨bucket, -, heq⟩
    · rw [heq]
    · rw [heq]
      exact update_of_ne (fun e => h (congrArg some e.symm)) _ _
  · rw [heq]

/-- One bucket and one token give one verdict. -/
lemma beginAttach_agree {conn : ConnId} {ip : IpAddr} (token : InvitationToken) (instant now : ℕ)
    (hflight : c.inFlight conn = i.inFlight conn)
    (hbucket : c.attachLimiter (canonicalizeIpForRateLimit ip)
      = i.attachLimiter (canonicalizeIpForRateLimit ip))
    (hknown : ∀ k, c.sessions k = none ↔ i.sessions k = none) :
    (c.beginAttach conn ip token instant now).1.inFlight conn
        = (i.beginAttach conn ip token instant now).1.inFlight conn ∧
      (c.beginAttach conn ip token instant now).1.attachLimiter (canonicalizeIpForRateLimit ip)
        = (i.beginAttach conn ip token instant now).1.attachLimiter
            (canonicalizeIpForRateLimit ip) := by
  rcases beginAttach_cases c conn ip token instant now with ⟨hcheck, heq⟩ | ⟨bucket, hcheck, heq⟩ <;>
    rcases beginAttach_cases i conn ip token instant now with ⟨hcheck', heq'⟩ | ⟨bucket', hcheck', heq'⟩ <;>
    rw [hbucket, hcheck'] at hcheck
  · rw [heq, heq']
    exact ⟨hflight, hbucket⟩
  · cases hcheck
  · cases hcheck
  · cases hcheck
    rw [heq, heq']
    have hsession : c.sessions token.sessionId ≠ none ↔ i.sessions token.sessionId ≠ none :=
      not_congr (hknown _)
    simp only [hsession, update_self, and_true]
    split_ifs
    · rw [update_self, update_self]
    · exact hflight

/-- Agreement on a connection, its bucket and the known sessions gives the same step. -/
lemma step_agree (hflight : c.inFlight e.conn = i.inFlight e.conn)
    (hbucket : ∀ ip, e.bucket = some ip → c.attachLimiter ip = i.attachLimiter ip)
    (hknown : ∀ k, c.sessions k = none ↔ i.sessions k = none) :
    c.applied e = i.applied e ∧
      (c.step e).inFlight e.conn = (i.step e).inFlight e.conn ∧
      ∀ ip, e.bucket = some ip → (c.step e).attachLimiter ip = (i.step e).attachLimiter ip := by
  cases e with
  | request conn ip req instant now saves =>
    have hconn : c.inFlight conn = i.inFlight conn := hflight
    cases hidle : c.inFlight conn with
    | some token =>
      rw [step_request_of_busy hidle, step_request_of_busy (hconn ▸ hidle)]
      refine ⟨?_, hflight, hbucket⟩
      cases req <;> simp only [applied, hconn]
    | none =>
      rw [step_request hidle, step_request (hconn ▸ hidle)]
      cases req with
      | error e => exact ⟨rfl, hflight, hbucket⟩
      | ok req =>
        refine ⟨by simp only [applied, hconn], ?_⟩
        cases htransition : req.transition with
        | none =>
          obtain ⟨token, rfl⟩ := eq_attach_of_transition htransition
          have hagree := beginAttach_agree token instant now hconn (hbucket _ rfl) hknown
          refine ⟨hagree.1, ?_⟩
          rintro ip' ⟨⟩
          exact hagree.2
        | some a =>
          obtain ⟨sid, t⟩ := a
          rw [handleRequest_of_transition htransition, handleRequest_of_transition htransition,
            (applyHelper_frame sid t now saves).1, (applyHelper_frame sid t now saves).2,
            (applyHelper_frame sid t now saves).1, (applyHelper_frame sid t now saves).2]
          exact ⟨hflight, hbucket⟩
  | attach conn now saves =>
    have hconn : c.inFlight conn = i.inFlight conn := hflight
    refine ⟨by simp only [applied, hconn], ?_, by rintro ip ⟨⟩⟩
    cases hidle : c.inFlight conn with
    | none =>
      rw [step_attach_of_idle hidle, step_attach_of_idle (hconn ▸ hidle)]
      exact hflight
    | some token =>
      rw [step_attach hidle, step_attach (hconn ▸ hidle), (finishAttach_eq ..).2.2,
        (finishAttach_eq ..).2.2, Event.conn, update_self,
        update_self]

end Coord

/-! ## Requests that leave a session as it is -/

namespace Session

variable {s : Session} {t : Transition} {now : ℕ}

/-- The state does not take the transition, which is no attach. -/
def Refuses (s : Session) : Transition → Prop
  | .attachParticipant _ => False
  | .declareMessage _ =>
    s.state ≠ .invited ∨ s.message.isSome ∨ s.attachedCount < s.threshold
  | .submitRound1 p _ =>
    s.state ≠ .round1 ∨ ∀ e, s.participants.lookup p = some e → e.attached = false ∨ e.commitment.isSome
  | .submitRound2 p _ =>
    s.state ≠ .round2 ∨ ∀ e, s.participants.lookup p = some e → e.commitment = none ∨ e.sigShare.isSome
  | .submitAggregate _ => s.state ≠ .round2 ∨ s.round2Count < s.threshold
  | .abort _ => False
  | .tick => True

/-- A transition that can only let the session expire. -/
def Harmless (s : Session) (t : Transition) (now : ℕ) : Prop :=
  s.state.isTerminal ∨ s.deadlinePassed now ∨ s.Refuses t

/-- What is refused is not accepted. -/
lemma not_accepts_of_refuses (h : s.Refuses t) (ht : t ≠ .tick) : ¬s.Accepts now t s' := by
  intro hacc
  cases hacc with
  | attach | abort => exact h
  | declare hstate hmessage hattached =>
    rcases h with h | h | h
    · exact h hstate
    · simp [hmessage] at h
    · omega
  | commit hstate hp hattached hnew =>
    rcases h with h | h
    · exact h hstate
    · rcases h _ hp with h | h
      · simp [hattached] at h
      · simp [hnew] at h
  | share hstate hp hcommitted hnew =>
    rcases h with h | h
    · exact h hstate
    · rcases h _ hp with h | h
      · exact hcommitted h
      · simp [hnew] at h
  | aggregate hstate hshares =>
    rcases h with h | h
    · exact h hstate
    · omega
  | tick => exact ht rfl

/-- Accepting anything but an attach changes a live session. -/
lemma ne_of_accepts (hlive : s.state.isTerminal = false) (hacc : s.Accepts now t s')
    (hattach : ∀ p, t ≠ .attachParticipant p) (htick : t ≠ .tick) :
    s' ≠ s ∧ s'.state ≠ .expired := by
  have hexpired : s.state ≠ .expired := by
    intro h
    rw [h] at hlive
    cases hlive
  cases hacc with
  | attach => exact absurd rfl (hattach _)
  | declare hstate | aggregate hstate =>
    exact ⟨ne_of_apply_ne state (by simp [transitionTo, hstate]), by simp [transitionTo]⟩
  | @commit p c e hstate hp hattached hnew =>
    have hrow : (commitRow p c s.participants).lookup p = some { e with commitment := some c } := by
      rw [commitRow, Table.lookup_modify, if_pos rfl, hp, map_some]
    unfold advanceRound1
    split_ifs
    · exact ⟨ne_of_apply_ne state (by simp [transitionTo, hstate]), by simp [transitionTo]⟩
    · refine ⟨ne_of_apply_ne (·.participants.lookup p) fun h => ?_, hexpired⟩
      rw [hrow, hp, some.injEq] at h
      rw [← h] at hnew
      cases hnew
  | @share p z e hstate hp hcommitted hnew =>
    have hrow : (shareRow p z s.participants).lookup p = some { e with sigShare := some z } := by
      rw [shareRow, Table.lookup_modify, if_pos rfl, hp, map_some]
    refine ⟨ne_of_apply_ne (·.participants.lookup p) fun h => ?_, hexpired⟩
    rw [hrow, hp, some.injEq] at h
    rw [← h] at hnew
    cases hnew
  | abort =>
    refine ⟨fun h => ?_, by simp [transitionTo]⟩
    rw [← h] at hlive
    cases hlive
  | tick => exact absurd rfl htick

/-- The states of `Refuses` are all. -/
lemma refuses_of_not_accepts (hattach : ∀ p, t ≠ .attachParticipant p)
    (h : ∀ s', ¬s.Accepts now t s') : s.Refuses t := by
  cases t with
  | attachParticipant p => exact absurd rfl (hattach p)
  | declareMessage m =>
    by_contra hnot
    simp only [Refuses, not_or, not_not] at hnot
    exact h _ (.declare hnot.1 (by simpa using hnot.2.1) (by omega))
  | submitRound1 p c =>
    by_contra hnot
    simp only [Refuses, not_or, not_not, not_forall] at hnot
    obtain ⟨hstate, e, hp, hattached, hnew⟩ := hnot
    exact h _ (.commit hstate hp (by simpa using hattached) (by simpa using hnew))
  | submitRound2 p z =>
    by_contra hnot
    simp only [Refuses, not_or, not_not, not_forall] at hnot
    obtain ⟨hstate, e, hp, hcommitted, hnew⟩ := hnot
    exact h _ (.share hstate hp hcommitted (by simpa using hnew))
  | submitAggregate g =>
    by_contra hnot
    simp only [Refuses, not_or, not_not] at hnot
    exact h _ (.aggregate hnot.1 (by omega))
  | abort p => exact absurd .abort (h _)
  | tick => trivial

/-- A harmless transition does nothing, or the deadline has passed. -/
lemma apply_of_harmless (h : s.Harmless t now) :
    (s.apply t now).1 = s ∨ s.state.isTerminal = false ∧ s.deadlinePassed now ∧
      (s.apply t now).1 = s.transitionTo .expired now := by
  unfold apply
  split_ifs with hterminal hdeadline
  · exact .inl rfl
  · exact .inr ⟨by simpa using hterminal, hdeadline, rfl⟩
  · rcases h with h | h | h
    · exact absurd h hterminal
    · exact absurd h hdeadline
    · by_cases hattach : ∃ p, t = .attachParticipant p
      · obtain ⟨p, rfl⟩ := hattach
        exact False.elim h
      · by_cases htick : t = .tick
        · rw [htick]
          exact .inl rfl
        · have hdecides : s.Decides now t (s.dispatch t now) :=
            dispatch_decides fun p hp => absurd ⟨p, hp⟩ hattach
          rcases hdecides with ⟨s', hacc, -⟩ | ⟨-, e, heq⟩
          · exact absurd hacc (not_accepts_of_refuses h htick)
          · exact .inl (by rw [heq])

/-- Exactly the harmless requests other than attach leave the session, up to expiry. -/
lemma harmless_iff (hattach : ∀ p, t ≠ .attachParticipant p) :
    ((s.apply t now).1 = s ∨ (s.apply t now).1.state = .expired) ↔ s.Harmless t now := by
  constructor
  · intro h
    by_contra hnot
    simp only [Harmless, not_or] at hnot
    obtain ⟨hterminal, hdeadline, hrefuses⟩ := hnot
    have hlive : s.state.isTerminal = false := by simpa using hterminal
    have heq : s.apply t now = s.dispatch t now := by
      rw [apply, if_neg hterminal, if_neg hdeadline]
    have hdecides : s.Decides now t (s.dispatch t now) :=
      dispatch_decides fun p hp => absurd hp (hattach p)
    rcases hdecides with ⟨s', hacc, heq'⟩ | ⟨hnone, -⟩
    · have htick : t ≠ .tick := by
        rintro rfl
        exact hrefuses trivial
      have hne := ne_of_accepts hlive hacc hattach htick
      rw [heq, heq'] at h
      exact h.elim hne.1 hne.2
    · exact hrefuses (refuses_of_not_accepts hattach hnone)
  · intro h
    rcases apply_of_harmless h with heq | ⟨-, -, heq⟩
    · exact .inl heq
    · exact .inr (by rw [heq]; rfl)

/-- What the participants of a session have put on record. -/
def records (s : Session) : Option Blob × Rows × Option Blob :=
  (s.message, s.participants, s.aggregateSignature)

/-- Expired, or about to at its next transition from `now` on. -/
def Over (s : Session) (now : ℕ) : Prop :=
  s.state = .expired ∨ s.state.isTerminal = false ∧ s.deadlinePassed now

lemma deadlinePassed_mono (hle : now ≤ now') (h : s.deadlinePassed now) :
    s.deadlinePassed now' := by
  unfold deadlinePassed at h ⊢
  cases htimeout : s.state.timeoutSecs with
  | none => rw [htimeout] at h; exact h
  | some timeout =>
    rw [htimeout] at h
    simp only [decide_eq_true_eq] at h ⊢
    omega

lemma Over.mono (hle : now ≤ now') (h : s.Over now) : s.Over now' :=
  h.imp_right fun h => ⟨h.1, deadlinePassed_mono hle h.2⟩

lemma apply_of_expired (h : s.state = .expired) : (s.apply t now).1 = s := by
  rw [apply, if_pos (by rw [h]; rfl)]

/-- A session that is over expires. -/
lemma apply_of_over (h : s.Over now) :
    (s.apply t now).1.state = .expired ∧ (s.apply t now).1.records = s.records := by
  rcases h with h | ⟨hlive, hpassed⟩
  · rw [apply_of_expired h]
    exact ⟨h, rfl⟩
  · rw [apply, if_neg (by simp [hlive]), if_pos hpassed]
    exact ⟨rfl, rfl⟩

end Session

/-! ## Two runs -/

/-- A relation between the sessions with and without outsiders that survives transitions of both and
harmless ones of the first. -/
structure Tolerates (later : ℕ → ℕ → Prop) (R : ℕ → Option Session → Option Session → Prop) :
    Prop where
  refl : ∀ u x, R u x x
  wait : ∀ {u v x y}, later u v → R u x y → R v x y
  both : ∀ {u v x y}, later u v → R u x y → ∀ t,
    R v (x.map fun s => (s.apply t v).1) (y.map fun s => (s.apply t v).1)
  left : ∀ {u v x y t}, later u v → R u x y → (∀ s, x = some s → s.Harmless t v) →
    R v (x.map fun s => (s.apply t v).1) y

/-- The sessions are the same, unless the first has expired. -/
def SameUnlessExpired (x y : Option Session) : Prop :=
  x = y ∨ ∃ s, x = some s ∧ s.state = .expired

lemma tolerates_sameUnlessExpired :
    Tolerates (fun _ _ => True) fun _ => SameUnlessExpired where
  refl _ _ := .inl rfl
  wait _ h := h
  both _ h t := by
    rcases h with rfl | ⟨s, rfl, hs⟩
    · exact .inl rfl
    · exact .inr ⟨s, by rw [map_some, apply_of_expired hs], hs⟩
  left {u v x y t} _ h hharmless := by
    rcases h with rfl | ⟨s, rfl, hs⟩
    · cases x with
      | none => exact .inl rfl
      | some s =>
        rw [map_some]
        rcases apply_of_harmless (hharmless s rfl) with heq | ⟨-, -, heq⟩
        · rw [heq]
          exact .inl rfl
        · rw [heq]
          exact .inr ⟨_, rfl, rfl⟩
    · exact .inr ⟨s, by rw [map_some, apply_of_expired hs], hs⟩

/-- The same, or with the same records, the first expired and the second about to. -/
def SameRecords (now : ℕ) (x y : Option Session) : Prop :=
  x = y ∨ ∃ s s', x = some s ∧ y = some s' ∧ s.state = .expired ∧ s'.Over now ∧ s.records = s'.records

lemma SameRecords.map_records {now : ℕ} (h : SameRecords now x y) :
    x.map records = y.map records := by
  rcases h with rfl | ⟨s, s', rfl, rfl, -, -, heq⟩
  · rfl
  · exact congrArg some heq

/-- Under a clock that does not go back. -/
lemma tolerates_sameRecords : Tolerates (· ≤ ·) SameRecords where
  refl _ _ := .inl rfl
  wait hle h := by
    rcases h with rfl | ⟨s, s', rfl, rfl, hs, hover, heq⟩
    · exact .inl rfl
    · exact .inr ⟨s, s', rfl, rfl, hs, hover.mono hle, heq⟩
  both hle h t := by
    rcases h with rfl | ⟨s, s', rfl, rfl, hs, hover, heq⟩
    · exact .inl rfl
    · have happly := apply_of_over (t := t) (hover.mono hle)
      refine .inr ⟨s, _, by rw [map_some, apply_of_expired hs], rfl, hs,
        .inl happly.1, ?_⟩
      rw [happly.2, heq]
  left {u v x y t} hle h hharmless := by
    rcases h with rfl | ⟨s, s', rfl, rfl, hs, hover, heq⟩
    · cases x with
      | none => exact .inl rfl
      | some s =>
        rw [map_some]
        rcases apply_of_harmless (hharmless s rfl) with heq | ⟨hlive, hpassed, heq⟩
        · rw [heq]
          exact .inl rfl
        · rw [heq]
          exact .inr ⟨_, s, rfl, rfl, rfl, .inr ⟨hlive, hpassed⟩, rfl⟩
    · exact .inr ⟨s, s', by rw [map_some, apply_of_expired hs], rfl, hs,
        hover.mono hle, heq⟩

namespace Coord

variable {E : CoordEnv} {c : Coord E} {e : Event}

/-- Every request of an outsider to the session arrives harmless. -/
def HarmlessRun (sid : SessionId) (out : ConnId → Bool) (c : Coord E) : List Event → Prop
  | [] => True
  | e :: es =>
    (out e.conn → ∀ s t, c.sessions sid = some s → c.applied e = some (sid, t) → s.Harmless t e.now) ∧
      HarmlessRun sid out (c.step e) es

/-- No outsider has an attach to the session in flight. -/
def NoneInFlight (sid : SessionId) (out : ConnId → Bool) (c : Coord E) : Prop :=
  ∀ conn, out conn → ∀ token, c.inFlight conn = some token → token.sessionId ≠ sid

/-- Coordinators with and without the outsiders agree on what others see. -/
structure Follows (R : ℕ → Option Session → Option Session → Prop) (sid : SessionId)
    (out : ConnId → Bool) (B : IpAddr → Prop) (u : ℕ) (c i : Coord E) : Prop where
  session : R u (c.sessions sid) (i.sessions sid)
  known : ∀ k, c.sessions k = none ↔ i.sessions k = none
  inFlight : ∀ conn, out conn = false → c.inFlight conn = i.inFlight conn
  limiter : ∀ ip, B ip → c.attachLimiter ip = i.attachLimiter ip
  outsiders : NoneInFlight sid out c

/-- Without a valid token an outsider has no attach in flight. -/
lemma NoneInFlight.step (h : NoneInFlight sid out c) (hnever : out e.conn → ¬e.Presents E sid) :
    NoneInFlight sid out (c.step e) := by
  intro conn hconn token htoken
  by_cases he : conn = e.conn
  · subst he
    rcases inFlight_step_self htoken with hold | hpresents
    · exact h _ hconn token hold
    · rintro rfl
      exact hnever hconn hpresents
  · rw [inFlight_step he] at htoken
    exact h conn hconn token htoken

/-- An event of an insider goes the same way in both. -/
lemma Follows.both (hR : Tolerates later R) (h : Follows R sid out B u c i)
    (hin : out e.conn = false) (hB : ∀ ip, e.bucket = some ip → B ip) (hlater : later u e.now) :
    Follows R sid out B e.now (c.step e) (i.step e) := by
  obtain ⟨happlied, hflight, hbucket⟩ := step_agree (h.inFlight _ hin)
    (fun ip hip => h.limiter ip (hB ip hip)) h.known
  refine ⟨?_, ?_, ?_, ?_, h.outsiders.step fun hout => absurd hout (by simp [hin])⟩
  · cases ha : c.applied e with
    | none =>
      rw [sessions_step_of_none ha, sessions_step_of_none (happlied ▸ ha)]
      exact hR.wait hlater h.session
    | some a =>
      obtain ⟨sid', t⟩ := a
      rw [sessions_step ha, sessions_step (happlied ▸ ha)]
      split_ifs
      · exact hR.both hlater h.session t
      · exact hR.wait hlater h.session
  · intro k
    rw [sessions_step_eq_none, sessions_step_eq_none]
    exact h.known k
  · intro conn hconn
    by_cases he : conn = e.conn
    · rw [he]
      exact hflight
    · rw [inFlight_step he, inFlight_step he]
      exact h.inFlight conn hconn
  · intro ip hip
    by_cases he : e.bucket = some ip
    · exact hbucket ip he
    · rw [attachLimiter_step he, attachLimiter_step he]
      exact h.limiter ip hip

/-- A harmless event changes nothing that others see, up to expiry. -/
lemma Follows.left (hR : Tolerates later R) (h : Follows R sid out B u c i)
    (hout : out e.conn = true) (hnever : ¬e.Presents E sid) (hB : ∀ ip, e.bucket = some ip → ¬B ip)
    (hharmless : ∀ s t, c.sessions sid = some s → c.applied e = some (sid, t) → s.Harmless t e.now)
    (hlater : later u e.now) : Follows R sid out B e.now (c.step e) i := by
  refine ⟨?_, ?_, ?_, ?_, h.outsiders.step fun _ => hnever⟩
  · cases ha : c.applied e with
    | none =>
      rw [sessions_step_of_none ha]
      exact hR.wait hlater h.session
    | some a =>
      obtain ⟨sid', t⟩ := a
      rw [sessions_step ha]
      split_ifs with hsid
      · subst hsid
        exact hR.left hlater h.session fun s hs => hharmless s t hs ha
      · exact hR.wait hlater h.session
  · intro k
    rw [sessions_step_eq_none]
    exact h.known k
  · intro conn hconn
    rw [inFlight_step (by rintro rfl; simp [hconn] at hout)]
    exact h.inFlight conn hconn
  · intro ip hip
    rw [attachLimiter_step fun he => hB ip he hip]
    exact h.limiter ip hip

/-- A run and the same run without the outsiders' events. -/
lemma follows_run (hR : Tolerates later R) (h : Follows R sid out B u c i)
    (hnever : ∀ e ∈ es, out e.conn → ¬e.Presents E sid)
    (hin : ∀ e ∈ es, out e.conn = false → ∀ ip, e.bucket = some ip → B ip)
    (hapart : ∀ e ∈ es, out e.conn → ∀ ip, e.bucket = some ip → ¬B ip)
    (hharmless : HarmlessRun sid out c es) (hlater : List.IsChain later (u :: es.map Event.now)) :
    ∃ v, R v ((c.run es).sessions sid) ((i.run (es.filter fun e => !out e.conn)).sessions sid) := by
  induction es generalizing c i u with
  | nil => exact ⟨u, h.session⟩
  | cons e es ih =>
    rw [map_cons, isChain_cons_cons] at hlater
    obtain ⟨hnow, hlater⟩ := hlater
    rw [forall_mem_cons] at hnever hin hapart
    obtain ⟨hhead, htail⟩ := hharmless
    cases hout : out e.conn with
    | false =>
      rw [filter_cons_of_pos (by simp [hout])]
      exact ih (h.both hR hout (hin.1 hout) hnow) hnever.2 hin.2 hapart.2 htail hlater
    | true =>
      rw [filter_cons_of_neg (by simp [hout])]
      exact ih (h.left hR hout (hnever.1 hout) (hapart.1 hout) (hhead hout) hnow) hnever.2 hin.2
        hapart.2 htail hlater

lemma follows_refl (hR : Tolerates later R) (h : NoneInFlight sid out c) :
    Follows R sid out B u c c :=
  ⟨hR.refl _ _, fun _ => Iff.rfl, fun _ _ => rfl, fun _ _ => rfl, h⟩

/-- Two runs that differ only in events of connections that never present a valid invitation to the
session. If each of their requests to the session is harmless when it arrives, and none asks for
attaching from the bucket of somebody else, the sessions are equal unless one has expired, and under
a clock that does not go back their records are equal. A request that is not harmless does change
the session. -/
theorem outsiders_cannot_influence (sid : SessionId) (out : ConnId → Bool) (c : Coord E)
    {es es' : List Event} (hflight : NoneInFlight sid out c)
    (hsame : (es.filter fun e => !out e.conn) = es'.filter fun e => !out e.conn)
    (hnever : ∀ e ∈ es ++ es', out e.conn → ¬e.Presents E sid)
    (hapart : ∀ e ∈ es ++ es', ∀ e' ∈ es ++ es', out e.conn → out e'.conn = false →
      ∀ ip, e.bucket = some ip → e'.bucket ≠ some ip)
    (hharmless : HarmlessRun sid out c es) (hharmless' : HarmlessRun sid out c es') :
    (∀ s s', (c.run es).sessions sid = some s → (c.run es').sessions sid = some s' →
        s.state ≠ .expired → s'.state ≠ .expired → s = s') ∧
      ((es.map Event.now).IsChain (· ≤ ·) → (es'.map Event.now).IsChain (· ≤ ·) →
        ((c.run es).sessions sid).map records
          = ((c.run es').sessions sid).map records) ∧
      ∀ (s : Session) t now, (∀ p, t ≠ .attachParticipant p) →
        (((s.apply t now).1 = s ∨ (s.apply t now).1.state = .expired) ↔ s.Harmless t now) := by
  -- the buckets of the insiders
  let B : IpAddr → Prop := fun ip => ∃ e ∈ es ++ es', out e.conn = false ∧ e.bucket = some ip
  have hin : ∀ e ∈ es ++ es', out e.conn = false → ∀ ip, e.bucket = some ip → B ip :=
    fun e he hout ip hip => ⟨e, he, hout, hip⟩
  have hB : ∀ e ∈ es ++ es', out e.conn → ∀ ip, e.bucket = some ip → ¬B ip := by
    rintro e he hout ip hip ⟨e', he', hout', hip'⟩
    exact hapart e he e' he' hout hout' ip hip hip'
  rw [forall_mem_append] at hnever hin hB
  refine ⟨?_, ?_, fun s t now hattach => harmless_iff hattach⟩
  · intro s s' hs hs' hlive hlive'
    have htrue : ∀ l : List ℕ, l.IsChain fun _ _ => True :=
      fun l => (pairwise_of_forall fun _ _ => trivial).isChain
    have hR := tolerates_sameUnlessExpired
    obtain ⟨-, hrun⟩ := follows_run (u := 0) hR (follows_refl hR hflight) hnever.1 hin.1 hB.1 hharmless
      (htrue _)
    obtain ⟨-, hrun'⟩ := follows_run (u := 0) hR (follows_refl hR hflight) hnever.2 hin.2 hB.2
      hharmless' (htrue _)
    rw [hs] at hrun
    rw [hs', ← hsame] at hrun'
    rcases hrun with hrun | ⟨s1, hs1, hexpired⟩
    · rcases hrun' with hrun' | ⟨s1, hs1, hexpired⟩
      · exact some.inj (hrun.trans hrun'.symm)
      · exact absurd (some.inj hs1 ▸ hexpired) hlive'
    · exact absurd (some.inj hs1 ▸ hexpired) hlive
  · intro hclock hclock'
    have hzero : ∀ l : List ℕ, l.IsChain (· ≤ ·) → (0 :: l).IsChain (· ≤ ·) :=
      fun l hl => isChain_cons.mpr ⟨fun a _ => Nat.zero_le a, hl⟩
    have hR := tolerates_sameRecords
    obtain ⟨v, hrun⟩ := follows_run hR (follows_refl hR hflight) hnever.1 hin.1 hB.1 hharmless
      (hzero _ hclock)
    obtain ⟨v', hrun'⟩ := follows_run hR (follows_refl hR hflight) hnever.2 hin.2 hB.2 hharmless'
      (hzero _ hclock')
    rw [hrun.map_records, hrun'.map_records, hsame]

/-! ## An outsider that aborts -/

/-- A limiter that never denies; codes repeat the participant. -/
def sampleCoordEnv : CoordEnv where
  computeMac _ p _ := [UInt8.ofNat p]
  Bucket := Unit
  checkKey _ _ := some ()

/-- One session of two participants, before the message. -/
def sampleCoord : Coord sampleCoordEnv where
  sessions k := if k = 1 then
    some (sample.run [(.attachParticipant 10, 1001), (.attachParticipant 11, 1002)]) else none
  stored _ := none
  broadcasts := []
  attached _ := []
  attachLimiter _ := ()
  inFlight _ := none

/-- Connections from `100` on are of outsiders. -/
def sampleOut (conn : ConnId) : Bool := 100 ≤ conn

/-- A participant declares the message, an outsider asks for a deadline check. -/
def tickedEvents : List Event :=
  [.request 100 (.v4 10 0 0 1) (.ok (.tick 1)) 0 1003 true,
    .request 1 (.v4 127 0 0 1) (.ok (.declareMessage 1 [1, 2, 3])) 0 1004 true]

/-- The participant alone. -/
def quietEvents : List Event :=
  [.request 1 (.v4 127 0 0 1) (.ok (.declareMessage 1 [1, 2, 3])) 0 1004 true]

/-- The check changes no record. -/
theorem outsiders_cannot_influence_tick :
    ((sampleCoord.run tickedEvents).sessions 1).map records
      = ((sampleCoord.run quietEvents).sessions 1).map records := by
  refine (outsiders_cannot_influence 1 sampleOut sampleCoord ?_ ?_ ?_ ?_ ?_ ?_).2.1 ?_ ?_
  · intro conn _ token h
    cases h
  · rfl
  · intro e he _ hpresents
    simp only [tickedEvents, quietEvents, cons_append, nil_append, mem_cons,
      not_mem_nil, or_false] at he
    rcases he with rfl | rfl | rfl <;> exact hpresents
  · intro e he e' _ _ _ ip hip
    simp only [tickedEvents, quietEvents, cons_append, nil_append, mem_cons,
      not_mem_nil, or_false] at he
    rcases he with rfl | rfl | rfl <;> cases hip
  · refine ⟨?_, ?_, trivial⟩
    · intro _ s t _ happlied
      cases happlied
      exact .inr (.inr trivial)
    · intro hout
      cases hout
  · refine ⟨?_, trivial⟩
    intro hout
    cases hout
  · decide
  · decide

/-- The same after an outsider has aborted the session. -/
def abortedEvents : List Event :=
  .request 100 (.v4 10 0 0 1) (.ok (.abort 1 10)) 0 1003 true :: quietEvents

/-- The outsider presents no token and knows the session and a participant by name. -/
theorem outsider_aborts :
    (∀ e ∈ abortedEvents, sampleOut e.conn → ¬e.Presents sampleCoordEnv 1) ∧
      (abortedEvents.filter fun e => !sampleOut e.conn) = quietEvents ∧
      ((sampleCoord.run abortedEvents).sessions 1).map (fun s => (s.state, s.message))
        = some (.aborted, none) ∧
      ((sampleCoord.run quietEvents).sessions 1).map (fun s => (s.state, s.message))
        = some (.round1, some [1, 2, 3]) := by
  refine ⟨?_, rfl, ?_, ?_⟩
  · intro e he _ hpresents
    simp only [abortedEvents, quietEvents, mem_cons, not_mem_nil, or_false] at he
    rcases he with rfl | rfl <;> exact hpresents
  · decide +kernel
  · decide +kernel

end Coord

end CoinCync.Frost

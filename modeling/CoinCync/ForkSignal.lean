import Mathlib.Data.Nat.Notation
import Mathlib.Logic.Function.Basic
import Mathlib.Tactic.SplitIfs

/-!
# Deployment states

`ForkSignaler` answers in which BIP-9 state a deployment is at a height, from the signals of its
window below the height. All it keeps is the height of the first query that found the threshold
reached. A lock-in needs 1814 blocks in a window and the last window below `2 ^ 64` has 1024, so
`next_window_start` does not overflow.
-/

namespace CoinCync.ForkSignal

/-- `SIGNAL_WINDOW`. -/
def signalWindow : ℕ := 2016

/-- `SIGNAL_THRESHOLD`. -/
def signalThreshold : ℕ := 1814

/-- A deployment. -/
structure Deployment where
  bit : UInt32
  startHeight : ℕ
  timeoutHeight : ℕ
  minActivationHeight : ℕ

/-- Its BIP-9 states. -/
inductive DeploymentState
  | defined
  | started (signalingPct : ℕ)
  | lockedIn (atHeight : ℕ)
  | active
  | failed
deriving DecidableEq

/-- Whether it is locked in. -/
def DeploymentState.isLockedIn : DeploymentState → Bool
  | .lockedIn _ => true
  | _ => false

/-- The height at which each deployment bit locked in. -/
structure ForkSignaler where
  lockedIn : UInt32 → Option ℕ := fun _ => none

/-- `window_start`. -/
def windowStart (height : ℕ) : ℕ := height / signalWindow * signalWindow

/-- `next_window_start`. -/
def nextWindowStart (height : ℕ) : ℕ := windowStart height + signalWindow

variable (history : ℕ → UInt32) (d : Deployment)

/-- The blocks of the window below the height that signal. -/
def signalCount (h : ℕ) : ℕ :=
  (List.range' (windowStart h) (h - windowStart h)).countP fun h => history h &&& d.bit ≠ 0

/-- The percentage that signals. -/
def signalingPct (h : ℕ) : ℕ := min (signalCount history d h * 100 / max (h - windowStart h) 1) 100

namespace ForkSignaler

variable (s : ForkSignaler)

/-- `state`. -/
def state (currentHeight : ℕ) : DeploymentState :=
  if currentHeight < d.startHeight then .defined
  else if d.timeoutHeight ≤ currentHeight ∧ s.lockedIn d.bit = none then .failed
  else match s.lockedIn d.bit with
    | some lockedAt =>
      if max (nextWindowStart lockedAt) d.minActivationHeight ≤ currentHeight then .active
      else .lockedIn (nextWindowStart lockedAt)
    | none =>
      if signalThreshold ≤ signalCount history d currentHeight then
        .lockedIn (nextWindowStart currentHeight)
      else .started (signalingPct history d currentHeight)

/-- `record_lock_in`. -/
def recordLockIn (bit : UInt32) (height : ℕ) : ForkSignaler :=
  ⟨Function.update s.lockedIn bit (some height)⟩

/-- `state_and_record`. -/
def stateAndRecord (currentHeight : ℕ) : ForkSignaler × DeploymentState :=
  let state := s.state history d currentHeight
  (if state.isLockedIn ∧ s.lockedIn d.bit = none then s.recordLockIn d.bit currentHeight else s, state)

/-- The signaler after queries at the given heights. -/
def queried (heights : List ℕ) : ForkSignaler :=
  heights.foldl (fun s h => (s.stateAndRecord history d h).1) s

end ForkSignaler

open ForkSignaler List Option

/-- A new signaler's answer at a height after other queries. -/
def answer (heights : List ℕ) (h : ℕ) : DeploymentState :=
  ((queried history d {} heights).stateAndRecord history d h).2

/-- While signalling is open, the window below the height reaches the threshold. -/
def Reached (h : ℕ) : Prop :=
  d.startHeight ≤ h ∧ h < d.timeoutHeight ∧ signalThreshold ≤ signalCount history d h

instance (h : ℕ) : Decidable (Reached history d h) := inferInstanceAs (Decidable (_ ∧ _))

/-- The window of the first height that reaches the threshold. -/
def lockWindow (heights : List ℕ) : Option ℕ :=
  (heights.find? fun h => Reached history d h).map windowStart

/-- The state of a deployment that locked in in a window, or never. -/
def stateFrom (h : ℕ) : Option ℕ → DeploymentState
  | some start => if max (start + signalWindow) d.minActivationHeight ≤ h then .active
    else .lockedIn (start + signalWindow)
  | none => if h < d.startHeight then .defined
    else if d.timeoutHeight ≤ h then .failed else .started (signalingPct history d h)

variable {history d} {s : ForkSignaler} {heights : List ℕ} {h : ℕ}

/-- When a query locks in. -/
lemma isLockedIn_state (hs : s.lockedIn d.bit = none) :
    (s.state history d h).isLockedIn = true ↔ Reached history d h := by
  unfold state Reached
  simp only [hs, and_true]
  split_ifs <;> simp only [DeploymentState.isLockedIn, Bool.false_eq_true, true_iff, false_iff] <;> omega

/-- What the queries leave. -/
lemma lockedIn_queried (s : ForkSignaler) (heights : List ℕ) :
    (s.queried history d heights).lockedIn d.bit
      = (s.lockedIn d.bit).or (heights.find? fun h => Reached history d h) := by
  induction heights generalizing s with
  | nil => simp [queried]
  | cons h heights ih =>
    refine (ih (s.stateAndRecord history d h).1).trans ?_
    unfold stateAndRecord
    cases hs : s.lockedIn d.bit with
    | some l => simp [hs]
    | none =>
      simp only [isLockedIn_state hs]
      by_cases hreached : Reached history d h <;> simp [hreached, hs, recordLockIn]

/-- The answer is that of the lock-in the queries have seen. -/
lemma answer_eq (hheights : (heights ++ [h]).Pairwise (· < ·)) :
    answer history d heights h = stateFrom history d h (lockWindow history d (heights ++ [h])) := by
  show (queried history d {} heights).state history d h = _
  unfold state lockWindow
  rw [lockedIn_queried, find?_append, none_or]
  cases hfind : heights.find? fun h => Reached history d h with
  | some l =>
    have hreached : Reached history d l := by simpa using find?_some hfind
    have hlt := (pairwise_append.mp hheights).2.2 l (mem_of_find?_eq_some hfind) h (by simp)
    have hstart : ¬ h < d.startHeight := Nat.not_lt.mpr (Nat.le_trans hreached.1 (Nat.le_of_lt hlt))
    simp only [hstart, reduceCtorEq, and_false, some_or]
    rfl
  | none =>
    have hnext : ¬ max (windowStart h + signalWindow) d.minActivationHeight ≤ h := by
      unfold windowStart signalWindow
      omega
    by_cases hreached : Reached history d h
    · obtain ⟨hstart, htimeout, hcount⟩ := id hreached
      simp [stateFrom, nextWindowStart, hreached, hcount, Nat.not_lt.mpr hstart,
        Nat.not_le.mpr htimeout, hnext]
    · simp only [find?_singleton, hreached, decide_false, stateFrom, and_true,
        Bool.false_eq_true, if_false, or_none, map_none]
      unfold Reached at hreached
      split_ifs <;> first | rfl | omega

/-- Two signalers that first find the threshold reached in the same window, or never do, agree
wherever both are asked. Lock-in and failure are final, and a deployment is active from the window
after the lock-in, or from its least activation height if later. -/
theorem answer_determined_by_lockWindow (history : ℕ → UInt32) (d : Deployment) :
    (∀ heights heights' h, (heights ++ [h]).Pairwise (· < ·) → (heights' ++ [h]).Pairwise (· < ·) →
      lockWindow history d (heights ++ [h]) = lockWindow history d (heights' ++ [h]) →
      answer history d heights h = answer history d heights' h ∧
        answer history d heights h
          = stateFrom history d h (lockWindow history d (heights ++ [h]))) ∧
    ∀ heights h later h', (heights ++ [h] ++ (later ++ [h'])).Pairwise (· < ·) →
      (∀ start, answer history d heights h = .lockedIn start →
        answer history d (heights ++ [h] ++ later) h' ∈ [.lockedIn start, .active]) ∧
      (answer history d heights h = .failed →
        answer history d (heights ++ [h] ++ later) h' = .failed) ∧
      (answer history d heights h = .active ↔ ∃ start ∈ lockWindow history d (heights ++ [h]),
        max (start + signalWindow) d.minActivationHeight ≤ h) := by
  constructor
  · intro heights heights' h hheights hheights' hsame
    rw [answer_eq hheights, answer_eq hheights', hsame]
    exact ⟨rfl, rfl⟩
  · intro heights h later h' hall
    obtain ⟨hheights, -, hlater⟩ := pairwise_append.mp hall
    have happend : lockWindow history d (heights ++ [h] ++ (later ++ [h']))
        = (lockWindow history d (heights ++ [h])).or (lockWindow history d (later ++ [h'])) := by
      rw [lockWindow, find?_append, map_or]
      rfl
    rw [answer_eq hheights, answer_eq (by rwa [append_assoc]), append_assoc _ later, happend]
    cases lockWindow history d (heights ++ [h]) with
    | some start =>
      simp only [stateFrom, some_or]
      split_ifs <;> simp_all
    | none =>
      rw [none_or]
      refine ⟨fun start hlocked => ?_, fun hfailed => ?_, ?_⟩
      · unfold stateFrom at hlocked
        split_ifs at hlocked
      · unfold stateFrom at hfailed
        split_ifs at hfailed with hstart htimeout
        have hlt := hlater h (by simp)
        -- no height from the timeout on can lock the deployment in
        have hnone : lockWindow history d (later ++ [h']) = none := by
          rw [lockWindow, map_eq_none_iff, find?_eq_none]
          intro x hx
          have hx := hlt x hx
          rw [decide_eq_true_eq]
          rintro ⟨-, hopen, -⟩
          omega
        have hlt := hlt h' (by simp)
        rw [hnone, stateFrom, if_neg (by omega), if_pos (by omega)]
      · unfold stateFrom
        split_ifs <;> simp

/-- The deployment `view-tags`. -/
def viewTags : Deployment := ⟨1, 0, 1000000, 2016⟩

/-- All blocks of the first window signal. A signaler asked in that window answers `Active` later
on; one that is not does not. -/
theorem answers_differ :
    answer (fun h => if h < 2016 then 1 else 0) viewTags [2015] 5000 = .active ∧
      answer (fun h => if h < 2016 then 1 else 0) viewTags [] 5000 = .started 0 := by
  decide +kernel

end CoinCync.ForkSignal

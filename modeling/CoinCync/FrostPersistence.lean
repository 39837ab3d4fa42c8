import CoinCync.FrostCoordinator

/-!
# Sessions on disk and notices

After an accepted transition `apply_transition` saves the sessions and tells the subscribers. It
returns before that when the transition is refused, and a deadline that has passed is a refusal that
changes the session.
-/

namespace CoinCync.Frost.Coord

open List Option Session

variable {E : CoordEnv} {c : Coord E} {e : Event}

/-- The notice of the end: the signature, or the final state. -/
def endNotice (sid : SessionId) (s : Session) : Option Response :=
  if s.state = .aggregated then s.aggregateSignature.map (.aggregated sid)
  else some (.aborted sid ("session entered " ++ s.state.name))

/-- After a step the file holds the sessions in memory, and of every session it changed the step has
sent the new state and, if terminal, the notice of the end. -/
def Published (c c' : Coord E) : Prop :=
  c'.stored = c'.sessions ∧
    ∃ sent, c'.broadcasts = c.broadcasts ++ sent ∧
      ∀ sid s s', c.sessions sid = some s → c'.sessions sid = some s' → s' ≠ s →
        (sid, .stateChange sid s'.state.name) ∈ sent ∧
          (s'.state.isTerminal → ∃ r, endNotice sid s' = some r ∧ (sid, r) ∈ sent)

/-- The step applies a transition to a live session past its deadline. -/
def findsExpired (c : Coord E) (e : Event) : Bool :=
  (c.applied e).any fun a =>
    (c.sessions a.1).any fun s => !s.state.isTerminal && s.deadlinePassed e.now

/-- A condition on the state and the event, at every step of a run. -/
def Along (P : Coord E → Event → Prop) (c : Coord E) : List Event → Prop
  | [] => True
  | e :: es => P c e ∧ Along P (c.step e) es

lemma published_congr (h : c'.written = d.written) : Published c c' ↔ Published c d := by
  obtain ⟨hsessions, hstored, hsent⟩ : c'.sessions = d.sessions ∧ c'.stored = d.stored ∧
    c'.broadcasts = d.broadcasts := by simpa [written] using h
  unfold Published
  rw [hsessions, hstored, hsent]

lemma published_self (hstored : c.stored = c.sessions) : Published c c := by
  refine ⟨hstored, [], (append_nil _).symm, ?_⟩
  intro sid s s' hs hs' hne
  exact absurd (some.inj (hs.symm.trans hs')).symm hne

/-- The notices of a transition that ends a session say so. -/
lemma mem_notices (hs' : s'.WellFormed) (hlive : s.state.isTerminal = false)
    (hend : s'.state.isTerminal) :
    ∃ r, endNotice sid s' = some r ∧ (sid, r) ∈ notices sid s s' := by
  unfold endNotice notices
  by_cases hsigned : s'.state = .aggregated
  · obtain ⟨-, -, -, hsignature⟩ := hs'.stage_of_state hsigned
    obtain ⟨g, (hg : s'.aggregateSignature = some g)⟩ := isSome_iff_exists.mp hsignature
    exact ⟨.aggregated sid g, by simp [hsigned, hg], by simp [hsigned, hg]⟩
  · exact ⟨_, if_neg hsigned, by simp [hsigned, hlive, hend]⟩

/-- A step is published iff it finds no live session past its deadline. -/
lemma published_iff (hsaves : e.saves) (hwell : ∀ k s, c.sessions k = some s → s.WellFormed)
    (hstored : c.stored = c.sessions) : Published c (c.step e) ↔ c.findsExpired e = false := by
  unfold findsExpired
  cases happlied : c.applied e with
  | none =>
    rw [published_congr (written_step_of_none happlied)]
    exact iff_of_true (published_self hstored) rfl
  | some a =>
    obtain ⟨sid, t⟩ := a
    rw [published_congr (written_step happlied), applyTransition, hsaves]
    cases hs : c.sessions sid with
    | none => simp [hs, published_self hstored]
    | some s =>
      simp only [any_some, hs]
      rcases apply_cases (hwell sid s hs) t e.now with
        ⟨err, heq⟩ | ⟨hlive, hpassed, err, heq⟩ | ⟨hlive, hpassed, s', hacc, heq⟩
      · rw [heq, ← hs, Function.update_eq_self]
        refine iff_of_true (published_self hstored) (Bool.eq_false_iff.mpr fun hover => ?_)
        obtain ⟨hlive, hpassed⟩ : s.state.isTerminal = false ∧ s.deadlinePassed e.now := by
          simpa using hover
        rw [apply, if_neg (by simp [hlive]), if_pos hpassed] at heq
        rw [← show SessionState.expired = s.state from congrArg (·.1.state) heq] at hlive
        cases hlive
      · -- the deadline moves the session in memory only
        rw [heq]
        refine iff_of_false ?_ (by simp [hlive, hpassed])
        rintro ⟨(hfile : c.stored = Function.update c.sessions sid (some _)), -⟩
        have hsame := congrFun (hstored.symm.trans hfile) sid
        rw [hs, Function.update_self] at hsame
        rw [show s.state = .expired from congrArg state (some.inj hsame)] at hlive
        cases hlive
      · rw [heq]
        refine iff_of_true ⟨rfl, _, rfl, ?_⟩ (by simp [hpassed])
        intro k s₁ s₂ hs₁ (hs₂ : Function.update c.sessions sid (some s') k = some s₂) hne
        by_cases hk : k = sid
        · subst hk
          obtain rfl : s' = s₂ := by simpa using hs₂
          exact ⟨mem_cons_self, mem_notices ((hwell k s hs).accepts hlive hacc) hlive⟩
        · rw [Function.update_of_ne hk, hs₁] at hs₂
          exact absurd (some.inj hs₂).symm hne

/-- Steps keep sessions well formed. -/
lemma wellFormed_step (hwell : ∀ k s, c.sessions k = some s → s.WellFormed) (k : SessionId)
    (s : Session) (h : (c.step e).sessions k = some s) : s.WellFormed := by
  cases happlied : c.applied e with
  | none => exact hwell k s (sessions_step_of_none happlied ▸ h)
  | some a =>
    rw [sessions_step happlied] at h
    split_ifs at h
    · obtain ⟨s₀, hs₀, rfl⟩ := map_eq_some_iff.mp h
      exact (hwell k s₀ hs₀).apply _ _
    · exact hwell k s h

/-- While every save succeeds, a coordinator started from its file keeps file and subscribers up to
date iff no step finds a live session past its deadline. -/
theorem published_run_iff (c : Coord E) (es : List Event) (hsaves : ∀ e ∈ es, e.saves)
    (hwell : ∀ k s, c.sessions k = some s → s.WellFormed) (hstored : c.stored = c.sessions) :
    c.Along (fun c e => Published c (c.step e)) es ↔
      c.Along (fun c e => c.findsExpired e = false) es := by
  induction es generalizing c with
  | nil => rfl
  | cons e es ih =>
    have hstep := published_iff (hsaves e mem_cons_self) hwell hstored
    refine (and_congr_right fun hpublished => ?_).trans (and_congr_left' hstep)
    exact ih _ (fun e he => hsaves e (mem_cons_of_mem _ he)) (wellFormed_step hwell) hpublished.1

/-- The sample coordinator, started from its file. -/
def sampleLoaded : Coord sampleCoordEnv := { sampleCoord with stored := sampleCoord.sessions }

/-- The run of `tickedEvents`. -/
theorem published_run_iff_ticked :
    sampleLoaded.Along (fun c e => Published c (c.step e)) tickedEvents := by
  refine (published_run_iff sampleLoaded tickedEvents (by decide) ?_ rfl).mpr
    ⟨by decide +kernel, by decide +kernel, trivial⟩
  intro k s hs
  obtain ⟨-, hs⟩ := Option.ite_none_right_eq_some.mp hs
  cases hs
  exact (wellFormed_new (rfl : new 1 2 3 [] 10 1000 = .ok sample)).run _

/-- After the deadline a request is refused; the session has expired in memory, the file has it
invited, and nobody is told. -/
theorem expiry_not_published :
    let c := sampleLoaded.step (.request 1 (.v4 127 0 0 1) (.ok (.tick 1)) 0 700000 true)
    (c.sessions 1).map (·.state) = some .expired ∧ (c.stored 1).map (·.state) = some .invited ∧
      c.broadcasts = [] := by
  decide +kernel

end CoinCync.Frost.Coord

import CoinCync.Lib.Run
import Mathlib.Data.Finset.Card

/-!
# A value with announced writers

Writers of a shared value count themselves in, write as often as they like, raise a version, and count
themselves out; any number of them at a time. Readers do not lock anything. A reader that has seen
version `g`, then reads the value, then sees no writer, then sees version `g` again, has read what the
value was when it saw no writer (`value_eq`). Both counters are machine integers; `Fits` says that a
step does not wrap them.
-/

namespace Versioned

open List Option Run

/-- Where a writer is. -/
inductive Phase
  | idle
  | writing
  | raised
  | finished
deriving DecidableEq

/-- The value, its counters and its writers. -/
structure Cell (σ : Type*) where
  value : σ
  /-- The writers that have entered and not left. -/
  writers : ℕ
  version : ℕ
  phase : ℕ → Phase

/-- A step of writer `w`. -/
inductive Event (σ : Type*)
  | enter (w : ℕ)
  | write (w : ℕ) (v : σ)
  | raise (w : ℕ)
  | leave (w : ℕ)

variable {σ : Type*} {W V : ℕ} {c c' : Cell σ} {es : List (Event σ)} {w : ℕ} {v : σ}

/-- A value nobody writes. -/
def Cell.new (v : σ) : Cell σ := ⟨v, 0, 0, fun _ => .idle⟩

/-- One step of a writer, with counters below `W` and `V`. -/
def step (W V : ℕ) (c : Cell σ) : Event σ → Option (Cell σ)
  | .enter w =>
    if c.phase w = .idle then
      some { c with writers := (c.writers + 1) % W, phase := Function.update c.phase w .writing }
    else none
  | .write w v => if c.phase w = .writing then some { c with value := v } else none
  | .raise w =>
    if c.phase w = .writing then
      some { c with version := (c.version + 1) % V, phase := Function.update c.phase w .raised }
    else none
  | .leave w =>
    if c.phase w = .raised then
      some { c with
        writers := (c.writers + (W - 1)) % W, phase := Function.update c.phase w .finished }
    else none

/-- What a step does. -/
inductive Steps (W V : ℕ) (c : Cell σ) : Event σ → Cell σ → Prop
  | enter {w : ℕ} (hidle : c.phase w = .idle) :
      Steps W V c (.enter w)
        { c with writers := (c.writers + 1) % W, phase := Function.update c.phase w .writing }
  | write {w : ℕ} {v : σ} (hwriting : c.phase w = .writing) :
      Steps W V c (.write w v) { c with value := v }
  | raise {w : ℕ} (hwriting : c.phase w = .writing) :
      Steps W V c (.raise w)
        { c with version := (c.version + 1) % V, phase := Function.update c.phase w .raised }
  | leave {w : ℕ} (hraised : c.phase w = .raised) :
      Steps W V c (.leave w) { c with
        writers := (c.writers + (W - 1)) % W, phase := Function.update c.phase w .finished }

/-- Every step is one of them. -/
lemma steps_of_step (h : step W V c e = some c') : Steps W V c e c' := by
  cases e <;>
  · simp only [step, ite_none_right_eq_some, some.injEq] at h
    obtain ⟨hphase, rfl⟩ := h
    constructor
    exact hphase

/-- The step does not wrap a counter. -/
def Fits (W V : ℕ) (c : Cell σ) : Event σ → Prop
  | .enter _ => c.writers + 1 < W
  | .raise _ => c.version + 1 < V
  | .write _ _ | .leave _ => True

instance (W V : ℕ) (c : Cell σ) : ∀ e, Decidable (Fits W V c e)
  | .enter _ => inferInstanceAs (Decidable (_ < _))
  | .raise _ => inferInstanceAs (Decidable (_ < _))
  | .write _ _ | .leave _ => inferInstanceAs (Decidable True)

/-- A run in which no counter wraps. -/
abbrev Runs (W V : ℕ) (c : Cell σ) (es : List (Event σ)) (c' : Cell σ) : Prop :=
  exec (guarded (step W V) (Fits W V)) c es = some c'

/-! ## Counting -/

/-- The writer has entered and not left. -/
def Cell.Active (c : Cell σ) (w : ℕ) : Prop := c.phase w = .writing ∨ c.phase w = .raised

/-- The number of writers is the number of active ones. -/
structure Cell.Counted (W : ℕ) (c : Cell σ) : Prop where
  bound : c.writers < W
  count : ∃ active : Finset ℕ, active.card = c.writers ∧ ∀ w, w ∈ active ↔ c.Active w

lemma Cell.counted_new (v : σ) (hW : 0 < W) : (Cell.new v).Counted W :=
  ⟨hW, ∅, rfl, fun w => by simp [Active, Cell.new]⟩

/-- No writer is counted, none is active. -/
lemma Cell.Counted.not_active (hc : c.Counted W) (hquiet : c.writers = 0) (w : ℕ) :
    ¬ c.Active w := by
  obtain ⟨active, hcard, hmem⟩ := hc.count
  rw [hquiet, Finset.card_eq_zero] at hcard
  rw [← hmem, hcard]
  exact Finset.notMem_empty w

/-- A writer's phase changes, and stays active or inactive. -/
lemma Cell.active_update (hw : c'.phase = Function.update c.phase w p) :
    c'.Active w' ↔ if w' = w then p = .writing ∨ p = .raised else c.Active w' := by
  rw [Active, hw, Function.update_apply]
  split <;> rfl

/-- A step that fits keeps the count. -/
lemma Cell.Counted.step (hc : c.Counted W) (hfits : Fits W V c e)
    (h : Versioned.step W V c e = some c') : c'.Counted W := by
  obtain ⟨hbound, active, hcard, hmem⟩ := hc
  cases steps_of_step h with
  | @enter w hidle =>
    have hnew : w ∉ active := by
      rw [hmem]
      simp [Active, hidle]
    refine ⟨Nat.mod_lt _ (by omega), insert w active, ?_, fun w' => ?_⟩
    · rw [Finset.card_insert_of_notMem hnew, hcard, Nat.mod_eq_of_lt hfits]
    · rw [active_update rfl, Finset.mem_insert, hmem]
      by_cases hw : w' = w <;> simp [hw]
  | write => exact ⟨hbound, active, hcard, hmem⟩
  | @raise w hwriting =>
    refine ⟨hbound, active, hcard, fun w' => ?_⟩
    rw [hmem]
    by_cases hw : w' = w <;> simp [hw, Active, hwriting]
  | @leave w hraised =>
    have hold : w ∈ active := (hmem w).mpr (.inr hraised)
    have hpos : 0 < active.card := Finset.card_pos.mpr ⟨w, hold⟩
    refine ⟨Nat.mod_lt _ (by omega), active.erase w, ?_, fun w' => ?_⟩
    · rw [Finset.card_erase_of_mem hold, hcard]
      rw [show c.writers + (W - 1) = c.writers - 1 + W by omega, Nat.add_mod_right,
        Nat.mod_eq_of_lt (by omega)]
    · rw [active_update rfl, Finset.mem_erase, hmem]
      by_cases hw : w' = w <;> simp

lemma Cell.Counted.exec (hc : c.Counted W) (h : Runs W V c es c') : c'.Counted W :=
  (reaches_of_exec_guarded h).invariant hc fun _ _ _ hc hfits hstep => hc.step hfits hstep

/-! ## Reading -/

/-- Only raising raises the version. -/
lemma version_of_step (hfits : Fits W V c e) (h : step W V c e = some c') :
    (∃ w, e = .raise w) ∧ c'.version = c.version + 1 ∨
      (∀ w, e ≠ .raise w) ∧ c'.version = c.version := by
  cases steps_of_step h with
  | @raise w => exact .inl ⟨⟨w, rfl⟩, Nat.mod_eq_of_lt hfits⟩
  | enter | write | leave => exact .inr ⟨fun _ => by simp, rfl⟩

/-- While the version stays, a writer that changed the value is writing. -/
lemma value_or_writing (h : Runs W V c es c') :
    c.version ≤ c'.version ∧
      (c'.version = c.version → c'.value = c.value ∨ ∃ w, c'.phase w = .writing) := by
  refine (reaches_of_exec_guarded h).invariant (P := fun c' => c.version ≤ c'.version ∧
    (c'.version = c.version → c'.value = c.value ∨ ∃ w, c'.phase w = .writing))
    ⟨le_refl _, fun _ => .inl rfl⟩ ?_
  rintro t e u ⟨hle, hsame⟩ hfits hstep
  rcases version_of_step hfits hstep with ⟨-, hversion⟩ | ⟨hraise, hversion⟩
  · exact ⟨by omega, fun heq => by omega⟩
  refine ⟨by omega, fun heq => ?_⟩
  have hbefore := hsame (by omega)
  cases steps_of_step hstep with
  | @raise w => exact absurd rfl (hraise w)
  | @write w _ hwriting => exact .inr ⟨w, hwriting⟩
  | @enter w => exact .inr ⟨w, by simp⟩
  | @leave w hraised =>
    refine hbefore.imp id fun ⟨w', hw'⟩ => ⟨w', ?_⟩
    have hne : w' ≠ w := by
      rintro rfl
      rw [hraised] at hw'
      exact absurd hw' (by decide)
    simpa [Function.update_of_ne hne] using hw'

/-- Two moments of one version, the second without writers. -/
lemma value_eq (hc : c.Counted W) (h : Runs W V c es c')
    (hversion : c'.version ≤ c.version) (hquiet : c'.writers = 0) : c'.value = c.value := by
  obtain ⟨hle, hsame⟩ := value_or_writing h
  rcases hsame (by omega) with heq | ⟨w, hw⟩
  · exact heq
  · exact absurd (.inl hw) ((hc.exec h).not_active hquiet w)

/-- When the phase of a writer changes. -/
lemma phase_of_step (h : step W V c e = some c') (hw : c'.phase w ≠ c.phase w) :
    e = .enter w ∧ c.phase w = .idle ∨ c.phase w = .writing ∨ c.phase w = .raised := by
  cases steps_of_step h with
  | write => exact absurd rfl hw
  | @enter w' hbefore | @raise w' hbefore | @leave w' hbefore =>
    obtain rfl : w = w' := by
      by_contra hne
      exact hw (Function.update_of_ne hne _ _)
    simp [hbefore]

/-- Only a write changes the value, to what is written. -/
lemma value_of_step (h : step W V c e = some c') :
    (∃ w, e = .write w c'.value) ∨ (∀ w v, e ≠ .write w v) ∧ c'.value = c.value := by
  cases steps_of_step h with
  | @write w => exact .inl ⟨w, rfl⟩
  | enter | raise | leave => exact .inr ⟨by simp, rfl⟩

lemma writing_of_write (h : step W V c (.write w v) = some c') : c.phase w = .writing := by
  cases steps_of_step h with
  | write hwriting => exact hwriting

/-- A writer that is not writing enters before it writes. -/
lemma enter_of_write (h : Runs W V c es c')
    (hw : ¬ c.Active w) (hmem : Event.write w v ∈ es) : Event.enter w ∈ es := by
  induction es generalizing c with
  | nil => simp at hmem
  | cons e es ih =>
    obtain ⟨d, hd, h⟩ := exec_cons_eq_some.mp h
    have hstep := (guarded_eq_some.mp hd).2
    -- the head is the entry, or leaves the writer where it is
    by_cases hphase : d.phase w = c.phase w
    · rcases mem_cons.mp hmem with rfl | hmem
      · exact absurd (.inl (writing_of_write hstep)) hw
      · refine mem_cons_of_mem _ (ih h ?_ hmem)
        unfold Cell.Active at hw ⊢
        rwa [hphase]
    · rcases phase_of_step hstep hphase with ⟨rfl, -⟩ | hactive
      · exact mem_cons_self
      · exact absurd hactive hw

/-- A writer that has finished does not write. -/
lemma not_write_of_finished (h : Runs W V c es c')
    (hw : c.phase w = .finished) : Event.write w v ∉ es := by
  induction es generalizing c with
  | nil => simp
  | cons e es ih =>
    obtain ⟨d, hd, h⟩ := exec_cons_eq_some.mp h
    have hstep := (guarded_eq_some.mp hd).2
    have hphase : d.phase w = .finished := by
      by_contra hne
      have hcases := phase_of_step hstep (by rw [hw]; exact hne)
      simp [hw] at hcases
    rw [mem_cons, not_or]
    refine ⟨?_, ih h hphase⟩
    rintro rfl
    have hwriting := writing_of_write hstep
    simp [hw] at hwriting

end Versioned

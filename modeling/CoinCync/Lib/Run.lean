import Mathlib.Data.List.Induction

/-!
# Runs of a partial step function

A system is a step function `step : σ → ι → Option σ`; `none` means the system stops. A guard
`ok : σ → ι → Prop` restricts which inputs are delivered in which states. `Reaches step ok s t`
holds when `t` comes from `s` by finitely many guarded steps.
-/

namespace Run

variable {σ ι : Type*}
variable {is : List ι}

/-- The states reached by guarded steps. -/
inductive Reaches (step : σ → ι → Option σ) (ok : σ → ι → Prop) (s : σ) : σ → Prop
  | refl : Reaches step ok s s
  | tail {t u : σ} {i : ι} : Reaches step ok s t → ok t i → step t i = some u →
      Reaches step ok s u

variable {step : σ → ι → Option σ} {ok ok' : σ → ι → Prop} {s t u : σ}

/-- What holds at the start and is kept by guarded steps holds throughout. -/
lemma Reaches.invariant {P : σ → Prop} (hs : P s)
    (hstep : ∀ t i u, P t → ok t i → step t i = some u → P u) (h : Reaches step ok s t) : P t := by
  induction h with
  | refl => exact hs
  | tail _ hok hi ih => exact hstep _ _ _ ih hok hi

lemma Reaches.trans (h : Reaches step ok s t) (h' : Reaches step ok t u) : Reaches step ok s u := by
  induction h' with
  | refl => exact h
  | tail _ hi hstep ih => exact ih.tail hi hstep

/-- The state a step leads to is found by computing it. -/
instance decidableExists {o : Option σ} {P : σ → Prop} [DecidablePred P] :
    Decidable (∃ t, o = some t ∧ P t) :=
  inferInstanceAs (Decidable (∃ t ∈ o, P t))

instance decidableExistsPair {o : Option (σ × ι)} {i : ι} {P : σ → Prop} [DecidableEq ι] [DecidablePred P] :
    Decidable (∃ t, o = some (t, i) ∧ P t) :=
  decidable_of_iff (∃ p ∈ o, p.2 = i ∧ P p.1) <| by
    constructor
    · rintro ⟨⟨t, _⟩, ht, rfl, hP⟩
      exact ⟨t, ht, hP⟩
    · rintro ⟨t, ht, hP⟩
      exact ⟨(t, i), ht, rfl, hP⟩

/-- Running a list of inputs. -/
def exec (step : σ → ι → Option σ) (s : σ) (is : List ι) : Option σ := is.foldlM step s

lemma exec_cons_eq_some :
    exec step s (i :: is) = some t ↔ ∃ u, step s i = some u ∧ exec step u is = some t := by
  rw [exec, List.foldlM_cons, Option.bind_eq_bind, Option.bind_eq_some_iff]
  rfl

lemma exec_append_eq_some {is : List ι} :
    exec step s (is ++ js) = some t ↔ ∃ u, exec step s is = some u ∧ exec step u js = some t := by
  rw [exec, List.foldlM_append, Option.bind_eq_bind, Option.bind_eq_some_iff]
  rfl

/-- A property of a run and its last state that one more input keeps. -/
lemma exec_induction {P : List ι → σ → Prop} (hs : P [] s)
    (hstep : ∀ is t i u, exec step s is = some t → P is t → step t i = some u → P (is ++ [i]) u)
    (h : exec step s is = some t) : P is t := by
  induction is using List.reverseRecOn generalizing t with
  | nil =>
    obtain rfl := Option.some.inj h
    exact hs
  | append_singleton is i ih =>
    obtain ⟨u, hu, h⟩ := exec_append_eq_some.mp h
    obtain ⟨v, hv, h⟩ := exec_cons_eq_some.mp h
    obtain rfl := Option.some.inj h
    exact hstep is u i v hu (ih hu) hv

/-- What some inputs leave alone runs through the others. -/
lemma exec_filterMap {τ κ : Type*} {step' : τ → κ → Option τ} (part : σ → τ) (f : ι → Option κ)
    (hsome : ∀ s i t k, step s i = some t → f i = some k → step' (part s) k = some (part t))
    (hnone : ∀ s i t, step s i = some t → f i = none → part t = part s)
    (h : exec step s is = some t) : exec step' (part s) (is.filterMap f) = some (part t) := by
  induction is generalizing s with
  | nil =>
    cases h
    rfl
  | cons i is ih =>
    obtain ⟨u, hu, h⟩ := exec_cons_eq_some.mp h
    cases hi : f i with
    | none =>
      rw [List.filterMap_cons_none hi, ← hnone s i u hu hi]
      exact ih h
    | some k =>
      rw [List.filterMap_cons_some hi]
      exact exec_cons_eq_some.mpr ⟨part u, hsome s i u k hu hi, ih h⟩

/-- Without a guard, what inputs lead to is reached. -/
lemma reaches_of_exec (h : exec step s is = some t) : Reaches step (fun _ _ => True) s t := by
  induction is generalizing s with
  | nil =>
    cases h
    exact .refl
  | cons i is ih =>
    obtain ⟨u, hu, h⟩ := exec_cons_eq_some.mp h
    exact (Reaches.refl.tail trivial hu).trans (ih h)

/-- A state with a property is reached if inputs lead to one. -/
lemma exists_reaches_of_exec {P : σ → Prop} (is : List ι)
    (h : ∃ t, exec step s is = some t ∧ P t) : ∃ t, Reaches step (fun _ _ => True) s t ∧ P t := by
  obtain ⟨t, ht, hP⟩ := h
  exact ⟨t, reaches_of_exec ht, hP⟩

/-- The step function that stops on an undelivered input. -/
def guarded (step : σ → ι → Option σ) (ok : σ → ι → Prop) [∀ s i, Decidable (ok s i)] (s : σ)
    (i : ι) : Option σ := if ok s i then step s i else none

/-- A step that is delivered. -/
lemma guarded_eq_some [∀ s i, Decidable (ok s i)] :
    guarded step ok s i = some t ↔ ok s i ∧ step s i = some t := by
  exact Option.ite_none_right_eq_some

/-- A guarded run is a run. -/
lemma exec_of_guarded [∀ s i, Decidable (ok s i)]
    (h : exec (guarded step ok) s is = some t) : exec step s is = some t := by
  induction is generalizing s with
  | nil => exact h
  | cons i is ih =>
    obtain ⟨u, hu, h⟩ := exec_cons_eq_some.mp h
    exact exec_cons_eq_some.mpr ⟨u, (guarded_eq_some.mp hu).2, ih h⟩

/-- What it leads to is reachable. -/
lemma reaches_of_exec_guarded [∀ s i, Decidable (ok s i)]
    (h : exec (guarded step ok) s is = some t) : Reaches step ok s t := by
  induction is generalizing s with
  | nil =>
    cases h
    exact .refl
  | cons i is ih =>
    obtain ⟨u, hu, h⟩ := exec_cons_eq_some.mp h
    obtain ⟨hok, hu⟩ := guarded_eq_some.mp hu
    exact (Reaches.refl.tail hok hu).trans (ih h)

/-- A guarded run, evaluated. -/
lemma exists_reaches_of_exec_guarded [∀ s i, Decidable (ok s i)] {P Q : σ → Prop} (is : List ι)
    (h : ∃ t, exec (guarded step ok) s is = some t ∧ P t)
    (hQ : ∀ t, Reaches step ok s t → P t → Q t) : ∃ t, Reaches step ok s t ∧ Q t := by
  obtain ⟨t, ht, hP⟩ := h
  have hreach := reaches_of_exec_guarded ht
  exact ⟨t, hreach, hQ t hreach hP⟩

end Run

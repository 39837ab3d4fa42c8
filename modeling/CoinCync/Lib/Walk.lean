import Mathlib.Data.Finset.Card

/-!
# Walking the links of a finite store

A store `get : κ → Option β` of records that each name a next key; links may dangle, form cycles or
join. `walk` follows them from a key until a record satisfies `stop`, a key repeats, or a key is not
stored. `Found` and `Lost` say, without a walk, that the first record to stop at exists or that it
does not, and a walk with enough fuel decides between them.
-/

namespace Walk

open List

variable {κ β : Type*} {get : κ → Option β} {next : β → κ} {stop : κ → β → Bool}
variable {l : List (κ × β)} {k k' : κ} {b : β}

/-- From `k` the entries `l` are met in turn, then the key `k'`. -/
inductive Path (get : κ → Option β) (next : β → κ) : κ → List (κ × β) → κ → Prop
  | nil (k : κ) : Path get next k [] k
  | cons {k k' : κ} {b : β} {l : List (κ × β)} : get k = some b → Path get next (next b) l k' →
      Path get next k ((k, b) :: l) k'

/-- How a walk ends. -/
inductive End (κ β : Type*)
  | stopped (k : κ) (b : β)
  | cycle (k : κ)
  | missing (k : κ)
  | exhausted (k : κ)

/-- Follow the links, past the records that do not stop the walk. -/
def walk [DecidableEq κ] (get : κ → Option β) (next : β → κ) (stop : κ → β → Bool) :
    ℕ → List κ → κ → List (κ × β) × End κ β
  | 0, _, k => ([], .exhausted k)
  | fuel + 1, visited, k =>
    if k ∈ visited then ([], .cycle k)
    else match get k with
      | none => ([], .missing k)
      | some b =>
        if stop k b then ([], .stopped k b)
        else
          let rest := walk get next stop fuel (k :: visited) (next b)
          ((k, b) :: rest.1, rest.2)

/-- The first record to stop a walk from `k` is `b`, under `k'`, after `l`. -/
structure Found (get : κ → Option β) (next : β → κ) (stop : κ → β → Bool) (k : κ)
    (l : List (κ × β)) (k' : κ) (b : β) : Prop where
  path : Path get next k l k'
  passed : ∀ e ∈ l, stop e.1 e.2 = false
  stored : get k' = some b
  stops : stop k' b = true

/-- A walk from `k` comes to a key that is not stored or was met. -/
structure Lost (get : κ → Option β) (next : β → κ) (stop : κ → β → Bool) (k : κ)
    (l : List (κ × β)) (k' : κ) : Prop where
  path : Path get next k l k'
  passed : ∀ e ∈ l, stop e.1 e.2 = false
  ends : get k' = none ∨ k' ∈ l.map Prod.fst

/-! ## Paths are determined by their start -/

/-- Of two paths from one key, one continues the other. -/
lemma Path.compare (h1 : Path get next k l1 k1) (h2 : Path get next k l2 k2) :
    (∃ l, l2 = l1 ++ l ∧ Path get next k1 l k2) ∨ ∃ l, l1 = l2 ++ l ∧ Path get next k2 l k1 := by
  induction h1 generalizing l2 with
  | nil => exact .inl ⟨l2, rfl, h2⟩
  | @cons k k1 b l1 hget hpath ih =>
    cases h2 with
    | nil => exact .inr ⟨_, rfl, .cons hget hpath⟩
    | cons hget' hpath' =>
      obtain rfl := Option.mem_unique hget hget'
      rcases ih hpath' with ⟨l, rfl, hl⟩ | ⟨l, rfl, hl⟩
      · exact .inl ⟨l, rfl, hl⟩
      · exact .inr ⟨l, rfl, hl⟩

/-- A path that goes on starts with the record under its key. -/
lemma Path.head (h : Path get next k (e :: l) k') : e.1 = k ∧ get k = some e.2 := by
  cases h with
  | cons hget => exact ⟨rfl, hget⟩

lemma Path.eq_of_nil (h : Path get next k [] k') : k = k' := by
  cases h
  rfl

/-- The part of a path from one of its entries on. -/
lemma Path.suffix (h : Path get next k (l1 ++ e :: l2) k') : Path get next e.1 (e :: l2) k' := by
  induction l1 generalizing k with
  | nil =>
    obtain ⟨rfl, -⟩ := h.head
    exact h
  | cons a l1 ih =>
    cases h with
    | cons _ hpath => exact ih hpath

/-! ## Found and lost -/

/-- No path passes over the record that stops a walk. -/
lemma Found.extends_passed (h : Found get next stop k l1 k1 b) (hpath : Path get next k l2 k2)
    (hpassed : ∀ e ∈ l2, stop e.1 e.2 = false) : ∃ l, l1 = l2 ++ l ∧ Path get next k2 l k1 := by
  rcases h.path.compare hpath with ⟨l, rfl, hl⟩ | hextends
  case inr => exact hextends
  cases l with
  | nil => exact ⟨[], by simp, hl.eq_of_nil ▸ .nil _⟩
  | cons e l =>
    obtain ⟨hkey, hget⟩ := hl.head
    have hfalse := hpassed e (by simp)
    rw [hkey, Option.mem_unique hget h.stored, h.stops] at hfalse
    cases hfalse

/-- There is one first record. -/
lemma Found.unique (h1 : Found get next stop k l1 k1 b1) (h2 : Found get next stop k l2 k2 b2) :
    l1 = l2 ∧ k1 = k2 ∧ b1 = b2 := by
  obtain ⟨l, rfl, hl⟩ := h1.extends_passed h2.path h2.passed
  obtain ⟨l', heq, -⟩ := h2.extends_passed h1.path h1.passed
  have hnil : l = [] := by
    have hlength := congrArg length heq
    simp only [length_append] at hlength
    exact length_eq_zero_iff.mp (by omega)
  subst hnil
  obtain rfl := hl.eq_of_nil
  exact ⟨by simp, rfl, Option.mem_unique h1.stored h2.stored⟩

/-- A walk that comes back to its start never stops. -/
lemma Found.not_cycle {l : List (κ × β)} (h : Found get next stop k l k' b)
    (hs : Path get next k s k) (hne : s ≠ []) (hpassed : ∀ e ∈ s, stop e.1 e.2 = false) :
    False := by
  -- Every turn of the cycle takes its length off the path to the stop.
  generalize hlength : l.length = m
  induction m using Nat.strong_induction_on generalizing l with
  | _ m ih =>
    obtain ⟨l', rfl, hl'⟩ := h.extends_passed hs hpassed
    have hpos := length_pos_iff.mpr hne
    rw [length_append] at hlength
    exact ih l'.length (by omega)
      ⟨hl', fun e he => h.passed e (mem_append_right _ he), h.stored, h.stops⟩ rfl

/-- Found and lost exclude each other. -/
lemma Found.not_lost (h : Found get next stop k l1 k1 b) : ¬ Lost get next stop k l2 k2 := by
  intro hlost
  obtain ⟨l, rfl, hl⟩ := h.extends_passed hlost.path hlost.passed
  have hrest : Found get next stop k2 l k1 b :=
    ⟨hl, fun e he => h.passed e (mem_append_right _ he), h.stored, h.stops⟩
  rcases hlost.ends with hnone | hcycle
  · cases l with
    | nil =>
      rw [hl.eq_of_nil, h.stored] at hnone
      cases hnone
    | cons e l =>
      rw [hl.head.2] at hnone
      cases hnone
  · obtain ⟨e, he, rfl⟩ := mem_map.mp hcycle
    obtain ⟨s1, s2, rfl⟩ := append_of_mem he
    exact hrest.not_cycle hlost.path.suffix (by simp)
      (fun x hx => hlost.passed x (mem_append_right _ hx))

/-- A walk whose condition holds at the latest where the first stops. -/
lemma Found.takeWhile (h : Found get next stop k l k' b)
    (stop' : κ → β → Bool) (hstop : stop' k' b = true) :
    ∃ k'' b'', Found get next stop' k (l.takeWhile fun e => !stop' e.1 e.2) k'' b'' := by
  obtain ⟨hpath, -, hstored, -⟩ := h
  induction hpath with
  | nil k => exact ⟨k, b, .nil k, by simp, hstored, hstop⟩
  | @cons k k' c l hget hpath ih =>
    cases hc : stop' k c with
    | true => exact ⟨k, c, by simp [hc, Path.nil], by simp [hc], hget, hc⟩
    | false =>
      obtain ⟨k'', b'', hfound⟩ := ih hstop hstored
      refine ⟨k'', b'', ?_⟩
      rw [takeWhile_cons_of_pos (by simp [hc])]
      refine ⟨.cons hget hfound.path, ?_, hfound.stored, hfound.stops⟩
      intro e he
      rcases mem_cons.mp he with rfl | he
      · exact hc
      · exact hfound.passed e he

/-! ## The walk decides between them -/

/-- What the outcome of a walk says about the store. -/
def Describes (get : κ → Option β) (stop : κ → β → Bool) (visited : List κ) (l : List (κ × β))
    (k' : κ) : End κ β → Prop
  | .stopped k b => k = k' ∧ get k = some b ∧ stop k b = true
  | .cycle k => k = k' ∧ (k ∈ visited ∨ k ∈ l.map Prod.fst)
  | .missing k => k = k' ∧ get k = none
  | .exhausted k => k = k'

lemma Describes.cons (h : Describes get stop (k :: visited) l k' e) :
    Describes get stop visited ((k, b) :: l) k' e := by
  cases e <;> simp only [Describes, map_cons, mem_cons] at h ⊢ <;> tauto

section Decidable

variable [DecidableEq κ] (get next stop)

/-- A walk follows a path over records that do not stop it. -/
lemma walk_spec (fuel : ℕ) (visited : List κ) (k : κ) :
    ∃ k', Path get next k (walk get next stop fuel visited k).1 k' ∧
      (∀ e ∈ (walk get next stop fuel visited k).1, stop e.1 e.2 = false) ∧
      Describes get stop visited (walk get next stop fuel visited k).1 k'
        (walk get next stop fuel visited k).2 := by
  induction fuel generalizing visited k with
  | zero => exact ⟨k, .nil k, by simp [walk], rfl⟩
  | succ fuel ih =>
    unfold walk
    by_cases hvisited : k ∈ visited
    · rw [if_pos hvisited]
      exact ⟨k, .nil k, by simp, rfl, .inl hvisited⟩
    rw [if_neg hvisited]
    cases hget : get k with
    | none => exact ⟨k, .nil k, by simp, rfl, hget⟩
    | some b =>
      cases hstop : stop k b with
      | true =>
        simp only [hstop]
        exact ⟨k, .nil k, by simp, rfl, hget, hstop⟩
      | false =>
        simp only [hstop]
        obtain ⟨k', hpath, hpassed, hend⟩ := ih (k :: visited) (next b)
        refine ⟨k', .cons hget hpath, ?_, hend.cons⟩
        intro e he
        rcases mem_cons.mp he with rfl | he
        · exact hstop
        · exact hpassed e he

/-- The unseen stored keys bound the number of steps. -/
lemma walk_ne_exhausted {keys : Finset κ} (hkeys : ∀ k b, get k = some b → k ∈ keys) {fuel : ℕ}
    (hfuel : (keys \ visited.toFinset).card < fuel) (k k' : κ) :
    (walk get next stop fuel visited k).2 ≠ .exhausted k' := by
  induction fuel generalizing visited k with
  | zero => omega
  | succ fuel ih =>
    unfold walk
    split
    · simp
    rename_i hvisited
    cases hget : get k with
    | none => simp
    | some b =>
      simp only
      split
      · simp
      -- The key just met leaves the unseen ones.
      have hmem : k ∈ keys \ visited.toFinset := by simp [hkeys k b hget, hvisited]
      have hsub : keys \ (k :: visited).toFinset ⊆ keys \ visited.toFinset := by
        intro x hx
        simp only [toFinset_cons, Finset.mem_sdiff, Finset.mem_insert, not_or] at hx ⊢
        exact ⟨hx.1, hx.2.2⟩
      have hlt := Finset.card_lt_card
        ((Finset.ssubset_iff_of_subset hsub).mpr ⟨k, hmem, by simp⟩)
      exact ih (by omega) (next b)

variable {get next stop} {keys : Finset κ} (hkeys : ∀ k b, get k = some b → k ∈ keys) {fuel : ℕ}
  (hfuel : keys.card < fuel)

include hkeys hfuel

/-- With more fuel than stored keys a walk ends for a reason the store gives. -/
lemma walk_ends (next : β → κ) (stop : κ → β → Bool) (k : κ) :
    (∃ l k' b, Found get next stop k l k' b ∧
        walk get next stop fuel [] k = (l, .stopped k' b)) ∨
      ∃ l k', Lost get next stop k l k' ∧ (walk get next stop fuel [] k).1 = l ∧
        ∀ k' b, (walk get next stop fuel [] k).2 ≠ .stopped k' b := by
  have hunseen : (keys \ ([] : List κ).toFinset).card < fuel := by simpa using hfuel
  have hne := walk_ne_exhausted get next stop hkeys hunseen k
  obtain ⟨k', hpath, hpassed, hend⟩ := walk_spec get next stop fuel [] k
  generalize walk get next stop fuel [] k = w at hne hpath hpassed hend ⊢
  obtain ⟨l, e⟩ := w
  cases e with
  | stopped k1 b =>
    obtain ⟨rfl, hstored, hstops⟩ := hend
    exact .inl ⟨l, k1, b, ⟨hpath, hpassed, hstored, hstops⟩, rfl⟩
  | cycle k1 =>
    obtain ⟨rfl, hcycle⟩ := hend
    exact .inr ⟨l, k1, ⟨hpath, hpassed, .inr (by simpa using hcycle)⟩, rfl, by simp⟩
  | missing k1 =>
    obtain ⟨rfl, hnone⟩ := hend
    exact .inr ⟨l, k1, ⟨hpath, hpassed, .inl hnone⟩, rfl, by simp⟩
  | exhausted k1 => exact absurd rfl (hne k1)

/-- A walk finds what there is to find. -/
lemma Found.walk_eq (h : Found get next stop k l k' b) :
    walk get next stop fuel [] k = (l, .stopped k' b) := by
  rcases walk_ends hkeys hfuel next stop k with ⟨l', k1, b1, hfound, heq⟩ | ⟨l', k1, hlost, -⟩
  · obtain ⟨rfl, rfl, rfl⟩ := h.unique hfound
    exact heq
  · exact absurd hlost h.not_lost

/-- A lost walk does not stop at a record. -/
lemma Lost.walk_ne_stopped (h : Lost get next stop k l k')
    (k1 : κ) (b : β) : (walk get next stop fuel [] k).2 ≠ .stopped k1 b := by
  rcases walk_ends hkeys hfuel next stop k with ⟨l', k2, b2, hfound, -⟩ | ⟨l', k2, -, -, hne⟩
  · exact absurd h hfound.not_lost
  · exact hne k1 b

end Decidable

end Walk

import Mathlib.Data.List.Nodup

/-!
# Sequences of checks

A check is a value of `Except ε Unit`: it passes, or it stops with the first error. A validator is a
sequence of checks, and what an accepted input satisfies is read off by `seq_eq_ok`, `when_eq_ok`,
`all_eq_ok` and the lemmas about `forIdx`.
-/

namespace Check

open List

variable {α β : Type} {ε : Type*}
variable {f : ℕ → α → Except ε Unit} {l : List α} {u : Unit} {xs : List α}

/-- Pass if `c` holds, otherwise fail with `e`. -/
def require (c : Prop) [Decidable c] (e : ε) : Except ε Unit := if c then .ok () else .error e

@[simp] lemma require_eq_ok [Decidable c] : require c e = .ok u ↔ c := by
  unfold require
  split
  · simpa
  · simpa

/-- A sequence passes if its parts do. -/
lemma bind_eq_ok {f : α → Except ε β} : (x >>= f) = .ok b ↔ ∃ a, x = .ok a ∧ f a = .ok b := by
  cases x with
  | error e | ok a => simp [bind, Except.bind]

lemma pure_eq_ok : (pure a : Except ε α) = .ok b ↔ a = b := Except.ok.injEq a b ▸ .rfl

lemma bind_of_eq_ok (h : x = .ok a) (f : α → Except ε β) : (x >>= f) = f a := by
  rw [h]
  rfl

@[simp] lemma seq_eq_ok {f : Unit → Except ε β} :
    (x >>= f) = .ok b ↔ x = .ok () ∧ f () = .ok b := by
  rw [bind_eq_ok]
  constructor
  · rintro ⟨_, hx, hf⟩
    exact ⟨hx, hf⟩
  · rintro ⟨hx, hf⟩
    exact ⟨(), hx, hf⟩

/-- Run the check only if `c` holds. -/
def when (c : Prop) [Decidable c] (x : Except ε Unit) : Except ε Unit := if c then x else .ok ()

@[simp] lemma when_eq_ok [Decidable c] : when c x = .ok u ↔ (c → x = .ok ()) := by
  unfold when
  split
  · rename_i hc
    exact ⟨fun h _ => h, fun h => h hc⟩
  · rename_i hc
    exact ⟨fun _ h => absurd h hc, fun _ => rfl⟩

/-- The value there is, or else the error. -/
def fromSome (o : Option α) (e : ε) : Except ε α := o.elim (.error e) .ok

@[simp] lemma fromSome_eq_ok : fromSome o e = .ok a ↔ o = some a := by
  cases o with
  | none | some b => simp [fromSome]

@[simp] lemma mapError_eq_ok {ε' : Type*} {x : Except ε α} {f : ε → ε'} :
    x.mapError f = .ok a ↔ x = .ok a := by
  cases x with
  | error e | ok b => simp [Except.mapError]

/-- Run a check on every element. -/
def all (xs : List α) (f : α → Except ε Unit) : Except ε Unit := forM xs f

lemma all_eq_ok {f : α → Except ε Unit} : all xs f = .ok u ↔ ∀ x ∈ xs, f x = .ok () := by
  unfold all
  induction xs with
  | nil => simp [pure, Except.pure]
  | cons x xs ih =>
    rw [forM_cons, seq_eq_ok, ih]
    simp

/-- Run a check on every element together with its index. -/
def forIdx (xs : List α) (f : ℕ → α → Except ε Unit) : Except ε Unit :=
  all xs.zipIdx fun p => f p.2 p.1

/-- All pass at their indices. -/
lemma forIdx_eq_ok : forIdx xs f = .ok u ↔ ∀ i x, xs[i]? = some x → f i x = .ok () := by
  rw [forIdx, all_eq_ok]
  constructor
  · intro h i x hx
    exact h (x, i) (mem_zipIdx_iff_getElem?.mpr hx)
  · rintro h ⟨x, i⟩ hx
    exact h i x (mem_zipIdx_iff_getElem?.mp hx)

/-- The index is for the error only. -/
lemma forIdx_eq_ok_iff {P : α → Prop}
    (hf : ∀ i x, f i x = .ok () ↔ P x) : forIdx xs f = .ok u ↔ ∀ x ∈ xs, P x := by
  rw [forIdx_eq_ok]
  constructor
  · intro h x hx
    obtain ⟨i, hi⟩ := mem_iff_getElem?.mp hx
    exact (hf i x).mp (h i x hi)
  · intro h i x hx
    exact (hf i x).mpr (h x (mem_of_getElem? hx))

/-- Comparing every value with those before it. -/
lemma nodup_iff_notMem_take : l.Nodup ↔ ∀ i x, l[i]? = some x → x ∉ l.take i := by
  constructor
  · intro h i x hx hmem
    obtain ⟨j, hj⟩ := mem_iff_getElem?.mp hmem
    rw [getElem?_take] at hj
    split at hj
    · have hj' : j < l.length := (List.getElem?_eq_some_iff.mp hj).1
      have := (getElem?_inj hj' h).mp (hj.trans hx.symm)
      omega
    · simp at hj
  · intro h
    rw [nodup_iff_getElem?_ne_getElem?]
    intro i j hij hj heq
    have hget : l[j]? = some l[j] := getElem?_eq_getElem hj
    refine h j l[j] hget (mem_iff_getElem?.mpr ⟨i, ?_⟩)
    rw [getElem?_take, if_pos hij, heq, hget]

/-- A loop that compares each key with those before it. -/
lemma forIdx_distinct_eq_ok {κ : Type} {g : α → κ} {P : α → Prop}
    (hf : ∀ i x, f i x = .ok () ↔ g x ∉ (xs.take i).map g ∧ P x) :
    forIdx xs f = .ok u ↔ (xs.map g).Nodup ∧ ∀ x ∈ xs, P x := by
  rw [forIdx_eq_ok, nodup_iff_notMem_take]
  constructor
  · intro h
    constructor
    · intro i k hk
      rw [getElem?_map, Option.map_eq_some_iff] at hk
      obtain ⟨x, hx, rfl⟩ := hk
      rw [← map_take]
      exact ((hf i x).mp (h i x hx)).1
    · intro x hx
      obtain ⟨i, hi⟩ := mem_iff_getElem?.mp hx
      exact ((hf i x).mp (h i x hi)).2
  · rintro ⟨hnd, hP⟩ i x hx
    refine (hf i x).mpr ⟨?_, hP x (mem_of_getElem? hx)⟩
    rw [map_take]
    exact hnd i (g x) (by rw [getElem?_map, hx, Option.map_some])

/-! ## Values seen before -/

section Repeats

variable [DecidableEq α]

/-- The entries that occur in `seen` or earlier in the list. -/
def repeatsFrom (seen : List α) : List α → List α
  | [] => []
  | x :: l => if x ∈ seen then x :: repeatsFrom seen l else repeatsFrom (x :: seen) l

/-- The entries that occur earlier in the list. -/
def repeats (l : List α) : List α := repeatsFrom [] l

lemma repeatsFrom_eq_nil {l : List α} : repeatsFrom seen l = [] ↔ l.Nodup ∧ ∀ x ∈ l, x ∉ seen := by
  induction l generalizing seen with
  | nil => simp [repeatsFrom]
  | cons x l ih =>
    rw [repeatsFrom]
    split
    · rename_i hx
      simp only [reduceCtorEq, mem_cons, forall_eq_or_imp, hx, not_true_eq_false, false_and,
        and_false]
    · rename_i hx
      rw [ih]
      simp only [nodup_cons, mem_cons, forall_eq_or_imp, not_or, hx, not_false_eq_true, true_and]
      constructor
      · rintro ⟨hl, hseen⟩
        exact ⟨⟨fun hmem => (hseen x hmem).1 rfl, hl⟩, fun y hy => (hseen y hy).2⟩
      · rintro ⟨⟨hmem, hl⟩, hseen⟩
        exact ⟨hl, fun y hy => ⟨fun heq => hmem (heq ▸ hy), hseen y hy⟩⟩

/-- None exactly if all are distinct. -/
lemma repeats_eq_nil : repeats l = [] ↔ l.Nodup := by
  simp [repeats, repeatsFrom_eq_nil]

end Repeats

/-! ## Optional results -/

/-- A loop has the results of its elements. -/
lemma mem_mapM {f : α → Option β} (h : l.mapM f = some bs) :
    (∀ b ∈ bs, ∃ a ∈ l, f a = some b) ∧ ∀ a ∈ l, ∃ b ∈ bs, f a = some b := by
  induction l generalizing bs with
  | nil =>
    obtain rfl : [] = bs := by simpa using h
    simp
  | cons a l ih =>
    simp only [mapM_cons, Option.bind_eq_bind, Option.pure_def, Option.bind_eq_some_iff,
      Option.some.injEq] at h
    obtain ⟨b, hb, bs, hbs, rfl⟩ := h
    obtain ⟨hfrom, hto⟩ := ih hbs
    constructor
    · intro x hx
      rcases mem_cons.mp hx with rfl | hx
      · exact ⟨a, mem_cons_self, hb⟩
      · obtain ⟨y, hy, hyx⟩ := hfrom x hx
        exact ⟨y, mem_cons_of_mem a hy, hyx⟩
    · intro y hy
      rcases mem_cons.mp hy with rfl | hy
      · exact ⟨b, mem_cons_self, hb⟩
      · obtain ⟨x, hx, hyx⟩ := hto y hy
        exact ⟨x, mem_cons_of_mem b hx, hyx⟩

/-- What a fallible loop keeps of elements it keeps of the list. -/
lemma map_eq_of_mapM {f : α → Except ε β} (h : l.mapM f = .ok bs)
    (hf : ∀ a b, f a = .ok b → g b = k a) : bs.map g = l.map k := by
  induction l generalizing bs with
  | nil =>
    obtain rfl : [] = bs := by simpa [pure, Except.pure] using h
    rfl
  | cons a l ih =>
    rw [mapM_cons] at h
    obtain ⟨b, hb, h⟩ := bind_eq_ok.mp h
    obtain ⟨rest, hrest, h⟩ := bind_eq_ok.mp h
    cases h
    rw [map_cons, map_cons, hf a b hb, ih hrest]

lemma length_filterMap_le_of_none {f : α → Option β} (h : ∀ a ∈ l, f a = g a ∨ f a = none) :
    (l.filterMap f).length ≤ (l.filterMap g).length := by
  induction l with
  | nil => simp
  | cons a l ih =>
    have hrest := ih fun b hb => h b (mem_cons_of_mem a hb)
    rcases h a mem_cons_self with heq | hnone
    · rw [filterMap_cons, filterMap_cons, heq]
      cases g a with
      | none => exact hrest
      | some b => exact Nat.succ_le_succ hrest
    · rw [filterMap_cons_none hnone, filterMap_cons]
      cases g a with
      | none => exact hrest
      | some b => exact Nat.le_succ_of_le hrest

/-- A loop that may miss results of another agrees iff it misses none. -/
lemma filterMap_eq_filterMap_iff {f : α → Option β} (h : ∀ a ∈ l, f a = g a ∨ f a = none) :
    l.filterMap f = l.filterMap g ↔ ∀ a ∈ l, f a = g a := by
  constructor
  · intro heq
    induction l with
    | nil => simp
    | cons a l ih =>
      have hrest : ∀ b ∈ l, f b = g b ∨ f b = none := fun b hb => h b (mem_cons_of_mem a hb)
      have hhead : f a = g a := by
        rcases h a mem_cons_self with hfa | hnone
        · exact hfa
        · cases hga : g a with
          | none => exact hnone
          | some b =>
            rw [filterMap_cons_none hnone, filterMap_cons_some hga] at heq
            have hle := length_filterMap_le_of_none hrest
            rw [heq, length_cons] at hle
            omega
      have htail : l.filterMap f = l.filterMap g := by
        rw [filterMap_cons, hhead] at heq
        cases hga : g a with
        | none => simpa [hga] using heq
        | some b => simpa [hga] using heq
      exact forall_mem_cons.mpr ⟨hhead, ih hrest htail⟩
  · intro hall
    exact filterMap_congr hall

/-- The results of an indexed loop that belong to one index. -/
lemma filter_filterMap_zipIdx {f : α × ℕ → Option β} {g : β → ℕ}
    (hf : ∀ entry b, f entry = some b → g b = entry.2) (l : List α) (n i : ℕ) :
    ((l.zipIdx n).filterMap f).filter (fun b => g b = n + i)
      = (l[i]?.bind fun a => f (a, n + i)).toList := by
  induction l generalizing n i with
  | nil => simp
  | cons a l ih =>
    -- behind the head only larger indices occur
    have hrest : ((l.zipIdx (n + 1)).filterMap f).filter (fun b => g b = n) = [] := by
      rw [filter_eq_nil_iff]
      intro b hb
      obtain ⟨entry, hentry, hb⟩ := mem_filterMap.mp hb
      have hle := le_snd_of_mem_zipIdx hentry
      have hindex := hf entry b hb
      simp only [decide_eq_true_eq]
      omega
    cases i with
    | zero =>
      cases hfa : f (a, n) with
      | none => simpa [hfa] using hrest
      | some b =>
        have hindex : g b = n := hf _ b hfa
        simpa [hfa, hindex] using hrest
    | succ i =>
      have hsucc := ih (n + 1) i
      rw [Nat.add_right_comm, Nat.add_assoc] at hsucc
      cases hfa : f (a, n) with
      | none => simpa [filterMap_cons_none hfa] using hsucc
      | some b =>
        have hindex : ¬g b = n + (i + 1) := by
          rw [hf _ b hfa]
          omega
        simpa [filterMap_cons_some hfa, hindex] using hsucc

end Check

import Mathlib.Data.Finset.Basic
import Mathlib.Data.Finset.Lattice.Lemmas
import Mathlib.Data.List.Pairwise

/-!
# Lookups in finite tables

The finite maps of a model are `Std.TreeMap`s. Every proof about them goes through lookup, so the
operations are given here as conditionals on the key looked up. A table that is only ever looked up
may also be a function; writing a list of rows to it is then a fold.

A set kept beside a table has what the rows contribute. By `Summary` no two rows contribute the same,
so a row is taken away by erasing its contributions.
-/

namespace Table

open List

section Maps

variable {κ ν : Type*} [Ord κ] [Std.TransOrd κ] [Std.LawfulEqOrd κ] [DecidableEq κ]

/-- Lookup after an insertion. -/
lemma getElem?_insert (m : Std.TreeMap κ ν) (a : κ) (b : ν) (k : κ) :
    (m.insert a b)[k]? = if k = a then some b else m[k]? := by
  rw [Std.TreeMap.getElem?_insert]
  by_cases h : k = a
  · subst k
    simp
  · rw [if_neg h, if_neg (by rw [Std.LawfulEqCmp.compare_eq_iff_eq]; exact fun e => h e.symm)]

/-- An entry after an insertion is new or was there. -/
lemma insert_cases {m : Std.TreeMap κ ν} {k : κ} {v : ν} (h : (m.insert a b)[k]? = some v) :
    k = a ∧ v = b ∨ m[k]? = some v := by
  rw [getElem?_insert] at h
  split at h
  · exact .inl ⟨‹_›, (Option.some.inj h).symm⟩
  · exact .inr h

/-- Lookup after an erasure. -/
lemma getElem?_erase (m : Std.TreeMap κ ν) (a k : κ) :
    (m.erase a)[k]? = if k = a then none else m[k]? := by
  rw [Std.TreeMap.getElem?_erase]
  by_cases h : k = a
  · subst k
    simp
  · rw [if_neg h, if_neg (by rw [Std.LawfulEqCmp.compare_eq_iff_eq]; exact fun e => h e.symm)]

/-- Erasing a list of keys. -/
def eraseAll (m : Std.TreeMap κ ν) (l : List κ) : Std.TreeMap κ ν :=
  l.foldl (fun m k => m.erase k) m

lemma getElem?_eraseAll (m : Std.TreeMap κ ν) (l : List κ) (k : κ) :
    (eraseAll m l)[k]? = if k ∈ l then none else m[k]? := by
  induction l generalizing m with
  | nil => simp [eraseAll]
  | cons a l ih =>
    have hcons : eraseAll m (a :: l) = eraseAll (m.erase a) l := rfl
    rw [hcons, ih, getElem?_erase]
    by_cases hl : k ∈ l <;> by_cases ha : k = a <;> simp [ha]

/-- Inserting pairs from the left; a later pair wins. -/
def insertAll (m : Std.TreeMap κ ν) (l : List (κ × ν)) : Std.TreeMap κ ν :=
  l.foldl (fun m e => m.insert e.1 e.2) m

/-- The last pair for a key counts. -/
lemma getElem?_insertAll (m : Std.TreeMap κ ν) (l : List (κ × ν)) (k : κ) :
    (insertAll m l)[k]? = ((l.reverse.find? (·.1 = k)).map (·.2)).or m[k]? := by
  induction l generalizing m with
  | nil => simp [insertAll]
  | cons e l ih =>
    have hcons : insertAll m (e :: l) = insertAll (m.insert e.1 e.2) l := rfl
    rw [hcons, ih, getElem?_insert, reverse_cons, find?_append]
    cases l.reverse.find? (·.1 = k) with
    | some x => simp
    | none => by_cases h : k = e.1 <;> simp [h, eq_comm]

end Maps

/-- With distinct keys, a search finds what has the key. -/
lemma find?_eq_some_iff {κ ν : Type*} [DecidableEq κ] {f : ν → κ} {l : List ν} {k : κ} {v : ν}
    (hl : (l.map f).Nodup) : l.find? (f · = k) = some v ↔ v ∈ l ∧ f v = k := by
  refine ⟨fun h => ⟨mem_of_find?_eq_some h, by simpa using find?_some h⟩, ?_⟩
  rintro ⟨hv, rfl⟩
  have hsome : (l.find? (f · = f v)).isSome := find?_isSome.mpr ⟨v, hv, by simp⟩
  obtain ⟨w, hw⟩ := Option.isSome_iff_exists.mp hsome
  have hkey : f w = f v := by simpa using find?_some hw
  rw [hw, inj_on_of_nodup_map hl (mem_of_find?_eq_some hw) hv hkey]

/-! ## Rows written to a function -/

section Rows

variable {κ ν : Type*} {rows : List (κ × ν)} {k : κ} {f : ν → ν} {v : ν}

section Keys

variable [DecidableEq κ]

/-- With distinct keys, taking a key's rows away takes one. -/
lemma perm_cons_filter (hrows : (rows.map (·.1)).Nodup)
    (h : (k, v) ∈ rows) : rows.Perm ((k, v) :: rows.filter (·.1 ≠ k)) := by
  induction rows with
  | nil => simp at h
  | cons r rows ih =>
    rw [map_cons, nodup_cons] at hrows
    rcases mem_cons.mp h with rfl | h
    · have hrest : rows.filter (·.1 ≠ k) = rows := by
        apply filter_eq_self.mpr
        intro r hr
        simpa using fun e : r.1 = k => hrows.1 (mem_map.mpr ⟨r, hr, e⟩)
      rw [filter_cons_of_neg (by simp), hrest]
    · have hne : r.1 ≠ k := fun e => hrows.1 (mem_map.mpr ⟨(k, v), h, e.symm⟩)
      rw [filter_cons_of_pos (by simpa using hne)]
      exact ((ih hrows.2 h).cons r).trans (List.Perm.swap _ _ _)

/-- Changing the row of a key in place. -/
def modify (k : κ) (f : ν → ν) (rows : List (κ × ν)) : List (κ × ν) :=
  rows.map fun r => if r.1 = k then (r.1, f r.2) else r

@[simp]
lemma length_modify : (modify k f rows).length = rows.length := length_map ..

@[simp]
lemma keys_modify : (modify k f rows).map (·.1) = rows.map (·.1) := by
  rw [modify, map_map]
  apply map_congr_left
  intro r _
  by_cases h : r.1 = k <;> simp [h]

lemma modify_eq_self (h : k ∉ rows.map (·.1)) : modify k f rows = rows := by
  rw [modify, map_congr_left, map_id]
  intro r hr
  exact if_neg fun e => h (mem_map.mpr ⟨r, hr, e⟩)

/-- What holds of every row, if the change keeps it. -/
lemma forall_mem_modify {P : κ × ν → Prop} (hrows : ∀ r ∈ rows, P r)
    (hf : ∀ r ∈ rows, r.1 = k → P (r.1, f r.2)) : ∀ r ∈ modify k f rows, P r := by
  intro r' hr'
  obtain ⟨r, hr, rfl⟩ := mem_map.mp hr'
  by_cases h : r.1 = k
  · rw [if_pos h]
    exact hf r hr h
  · rw [if_neg h]
    exact hrows r hr

end Keys

section Lookup

variable [BEq κ]

/-- The rows, with the given one if the key had none. -/
def orInsert (k : κ) (v : ν) (rows : List (κ × ν)) : List (κ × ν) :=
  match rows.lookup k with
  | some _ => rows
  | none => rows ++ [(k, v)]

lemma orInsert_of_none (h : rows.lookup k = none) : orInsert k v rows = rows ++ [(k, v)] := by
  rw [orInsert, h]

lemma orInsert_of_some (h : rows.lookup k = some w) : orInsert k v rows = rows := by
  rw [orInsert, h]

lemma countP_orInsert (hv : p (k, v) = false) : (orInsert k v rows).countP p = rows.countP p := by
  cases hk : rows.lookup k with
  | some w => rw [orInsert_of_some hk]
  | none => simp [orInsert_of_none hk, hv]

lemma forall_mem_orInsert {P : κ × ν → Prop} (hrows : ∀ r ∈ rows, P r) (hv : P (k, v)) :
    ∀ r ∈ orInsert k v rows, P r := by
  cases hk : rows.lookup k with
  | some w => rwa [orInsert_of_some hk]
  | none =>
    rw [orInsert_of_none hk]
    intro r hr
    rcases mem_append.mp hr with hr | hr
    · exact hrows r hr
    · rw [mem_singleton.mp hr]
      exact hv

variable [LawfulBEq κ]

lemma lookup_eq_none_iff_notMem : rows.lookup k = none ↔ k ∉ rows.map (·.1) := by
  rw [lookup_eq_none_iff]
  simp only [mem_map, not_exists, not_and, bne_iff_ne]
  exact ⟨fun h r hr e => h r hr e.symm, fun h r hr e => h r hr e.symm⟩

/-- What is looked up is a row. -/
lemma mem_of_lookup_eq_some (h : rows.lookup k = some v) :
    (k, v) ∈ rows := by
  obtain ⟨l1, l2, rfl, -⟩ := lookup_eq_some_iff.mp h
  simp

/-- The first and the last row for a key, if all are the same. -/
lemma lookup_reverse_of_agree (h : ∀ r ∈ rows, ∀ r' ∈ rows, r.1 = k → r'.1 = k → r.2 = r'.2) :
    rows.reverse.lookup k = rows.lookup k := by
  cases hfirst : rows.lookup k with
  | none =>
    simpa using hfirst
  | some v =>
    cases hlast : rows.reverse.lookup k with
    | none =>
      rw [lookup_eq_none_iff_notMem, map_reverse, mem_reverse,
        ← lookup_eq_none_iff_notMem, hfirst] at hlast
      simp at hlast
    | some w =>
      have hw : (k, w) ∈ rows := by simpa using mem_of_lookup_eq_some hlast
      exact congrArg some (h _ hw _ (mem_of_lookup_eq_some hfirst) rfl rfl)

lemma nodup_keys_orInsert (hrows : (rows.map (·.1)).Nodup) :
    ((orInsert k v rows).map (·.1)).Nodup := by
  cases hk : rows.lookup k with
  | some w => rwa [orInsert_of_some hk]
  | none =>
    rw [orInsert_of_none hk, map_append]
    have hnew : k ∉ rows.map (·.1) := lookup_eq_none_iff_notMem.mp hk
    refine nodup_append.mpr ⟨hrows, by simp, ?_⟩
    intro a ha b hb e
    obtain rfl : b = k := mem_singleton.mp hb
    exact hnew (e ▸ ha)

variable [DecidableEq κ]

lemma lookup_cons (r : κ × ν) (rows : List (κ × ν)) (k : κ) :
    (r :: rows).lookup k = if k = r.1 then some r.2 else rows.lookup k := by
  rw [List.lookup_cons]
  by_cases h : k = r.1
  · simp [h]
  · rw [if_neg h, beq_eq_false_iff_ne.mpr h]

/-- With distinct keys, a row is what its key looks up. -/
lemma lookup_eq_some_of_mem (hrows : (rows.map (·.1)).Nodup) (h : (k, v) ∈ rows) : rows.lookup k = some v := by
  induction rows with
  | nil => simp at h
  | cons r rows ih =>
    rw [map_cons, nodup_cons] at hrows
    rw [lookup_cons]
    rcases mem_cons.mp h with rfl | h
    · exact if_pos rfl
    · have hne : k ≠ r.1 := fun e => hrows.1 (e ▸ mem_map_of_mem h)
      rw [if_neg hne, ih hrows.2 h]

/-- Overwriting: the last row for a key wins. -/
lemma foldl_update (rows : List (κ × ν)) (d : κ → Option ν) (k : κ) :
    rows.foldl (fun (d : κ → Option ν) r => Function.update d r.1 (some r.2)) d k
      = (rows.reverse.lookup k).or (d k) := by
  induction rows generalizing d with
  | nil => rfl
  | cons r rows ih =>
    rw [foldl_cons, ih, reverse_cons, lookup_append, lookup_cons]
    cases rows.reverse.lookup k with
    | some v => rfl
    | none => by_cases h : k = r.1 <;> simp [h]

/-- The first row for a key wins, unless the table had one. -/
lemma foldl_update_getD (rows : List (κ × ν)) (d : κ → Option ν) (k : κ) :
    rows.foldl (fun (d : κ → Option ν) r =>
        Function.update d r.1 (some ((d r.1).getD r.2))) d k
      = (d k).or (rows.lookup k) := by
  induction rows generalizing d with
  | nil => simp
  | cons r rows ih =>
    rw [foldl_cons, ih, lookup_cons]
    by_cases h : k = r.1
    · subst h
      cases d r.1 <;> simp
    · simp [h]

lemma lookup_filter (rows : List (κ × ν)) (p : κ → Bool) (k : κ) :
    (rows.filter fun r => p r.1).lookup k = if p k then rows.lookup k else none := by
  induction rows with
  | nil => simp
  | cons r rows ih =>
    rw [filter_cons, lookup_cons]
    by_cases hp : p r.1
    · rw [if_pos hp, lookup_cons, ih]
      by_cases h : k = r.1
      · rw [if_pos h, h, if_pos hp, if_pos rfl]
      · rw [if_neg h, if_neg h]
    · rw [if_neg hp, ih]
      by_cases h : k = r.1
      · rw [h, if_neg hp, if_neg hp]
      · rw [if_neg h]

/-- Lookup after a change. -/
lemma lookup_modify (k' : κ) :
    (modify k f rows).lookup k' = if k' = k then (rows.lookup k).map f else rows.lookup k' := by
  induction rows with
  | nil => simp [modify]
  | cons r rows ih =>
    have hcons : modify k f (r :: rows)
        = (if r.1 = k then (r.1, f r.2) else r) :: modify k f rows := rfl
    rw [hcons, lookup_cons, ih, lookup_cons, lookup_cons]
    by_cases hr : r.1 = k
    · by_cases hk : k' = k <;> simp [hr, hk]
    · by_cases hk : k' = k
      · simp [hk, hr, Ne.symm hr]
      · simp [hk, hr]

/-- With distinct keys, a change counts for one row. -/
lemma countP_modify (hrows : (rows.map (·.1)).Nodup) (hv : rows.lookup k = some v) (p : ν → Bool) :
    (modify k f rows).countP (fun r => p r.2) + (if p v then 1 else 0)
      = rows.countP (fun r => p r.2) + if p (f v) then 1 else 0 := by
  induction rows with
  | nil => simp at hv
  | cons r rows ih =>
    rw [map_cons, nodup_cons] at hrows
    have hcons : modify k f (r :: rows)
        = (if r.1 = k then (r.1, f r.2) else r) :: modify k f rows := rfl
    rw [hcons, countP_cons, countP_cons]
    rw [lookup_cons] at hv
    by_cases hr : r.1 = k
    · -- the row itself; no other row has its key
      rw [if_pos hr.symm, Option.some.injEq] at hv
      rw [modify_eq_self (hr ▸ hrows.1), if_pos hr, hv]
      exact Nat.add_right_comm ..
    · rw [if_neg (Ne.symm hr)] at hv
      have hih := ih hrows.2 hv
      rw [if_neg hr]
      omega

lemma lookup_orInsert (k' : κ) :
    (orInsert k v rows).lookup k'
      = if k' = k then some ((rows.lookup k).getD v) else rows.lookup k' := by
  cases hk : rows.lookup k with
  | some w =>
    rw [orInsert_of_some hk]
    by_cases h : k' = k
    · rw [if_pos h, h, hk, Option.getD_some]
    · rw [if_neg h]
  | none =>
    rw [orInsert_of_none hk, lookup_append, lookup_cons]
    by_cases h : k' = k
    · simp [h, hk]
    · simp [h]

end Lookup

end Rows

/-! ## Sets beside a table -/

section

variable {κ ν α : Type*} [DecidableEq α]

/-- The set holds what the rows contribute, each element from one row. -/
structure Summary (f : κ × ν → List α) (rows : List (κ × ν)) (s : Finset α) : Prop where
  exact : s = (rows.flatMap f).toFinset
  disjoint : rows.Pairwise fun r r' => (f r).Disjoint (f r')

namespace Summary

variable {f : κ × ν → List α} {rows : List (κ × ν)} {s : Finset α}

lemma nil (f : κ × ν → List α) : Summary f [] ∅ := ⟨rfl, List.Pairwise.nil⟩

/-- Membership is a contribution. -/
lemma mem_iff (h : Summary f rows s) : a ∈ s ↔ ∃ r ∈ rows, a ∈ f r := by
  rw [h.exact, mem_toFinset, mem_flatMap]

/-- An element has one row. -/
lemma eq_of_mem (h : Summary f rows s) (hr : r ∈ rows) (hr' : r' ∈ rows) (ha : a ∈ f r)
    (ha' : a ∈ f r') : r = r' := by
  by_contra hne
  have : Std.Symm fun r r' : κ × ν => (f r).Disjoint (f r') := ⟨fun _ _ hd => hd.symm⟩
  exact h.disjoint.forall hr hr' hne ha ha'

/-- Taking the row of a key away. -/
lemma erase [DecidableEq κ] (h : Summary f rows s) (hrows : (rows.map (·.1)).Nodup)
    (hmem : (k, v) ∈ rows) : Summary f (rows.filter (·.1 ≠ k)) (s \ (f (k, v)).toFinset) := by
  refine ⟨?_, h.disjoint.sublist filter_sublist⟩
  ext a
  rw [Finset.mem_sdiff, h.mem_iff, mem_toFinset, mem_toFinset, mem_flatMap]
  constructor
  · rintro ⟨⟨r, hr, ha⟩, hnot⟩
    refine ⟨r, ?_, ha⟩
    rcases mem_cons.mp ((perm_cons_filter hrows hmem).mem_iff.mp hr) with rfl | hr
    · exact absurd ha hnot
    · exact hr
  · rintro ⟨r, hr, ha⟩
    obtain ⟨hr, hne⟩ := mem_filter.mp hr
    refine ⟨⟨r, hr, ha⟩, fun ha' => ?_⟩
    have heq : r = (k, v) := h.eq_of_mem hr hmem ha ha'
    simp [heq] at hne

/-- Adding a row whose contributions are new. -/
lemma cons (h : Summary f rows s) (hnew : ∀ a ∈ f r, a ∉ s) :
    Summary f (r :: rows) (s ∪ (f r).toFinset) := by
  constructor
  · rw [flatMap_cons, toFinset_append, h.exact, Finset.union_comm]
  · refine pairwise_cons.mpr ⟨fun r' hr' a ha ha' => ?_, h.disjoint⟩
    exact hnew a ha (h.mem_iff.mpr ⟨r', hr', ha'⟩)

end Summary

end

end Table

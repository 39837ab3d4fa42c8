import CoinCync.Lib.Table
import CoinCync.Lib.Walk
import Mathlib.Data.List.Chain

/-!
# Lineages in a store of linked records

A store `get : κ → Option β` of records that each name their predecessor's key and carry a height.
`Lineage L get k q` says that `q` is the ancestry of the record under `k`, newest first, down to a
record of height `0`. `atHeight` reads a lineage as an index from heights to records; two lineages
over a store with one root split at their last common record (`Lineage.exists_fork`).
-/

/-- The key of a record, that of its predecessor, and the height. -/
structure Linking (β κ : Type*) where
  hash : β → κ
  prev : β → κ
  height : β → ℕ

open List

variable {β κ : Type*} {L : Linking β κ} {get : κ → Option β}

/-- `q` is the ancestry of the record stored under `k`, newest first. -/
inductive Lineage (L : Linking β κ) (get : κ → Option β) : κ → List β → Prop
  | root {k : κ} {b : β} : get k = some b → L.height b = 0 → Lineage L get k [b]
  | step {k : κ} {b p : β} {q : List β} : get k = some b → L.height b = L.height p + 1 →
      Lineage L get (L.prev b) (p :: q) → Lineage L get k (b :: p :: q)

/-- The record of a lineage at a height. -/
def atHeight (L : Linking β κ) (q : List β) (h : ℕ) : Option β := q.find? (L.height · = h)

lemma atHeight_cons (b : β) (q : List β) (h : ℕ) :
    atHeight L (b :: q) h = if L.height b = h then some b else atHeight L q h := by
  unfold atHeight
  by_cases hb : L.height b = h <;> simp [hb]

lemma atHeight_eq_some_of_nodup {q : List β} {b : β} (hq : (q.map L.height).Nodup) :
    atHeight L q h = some b ↔ b ∈ q ∧ L.height b = h :=
  Table.find?_eq_some_iff hq

lemma atHeight_eq_none_iff {q : List β} : atHeight L q h = none ↔ ∀ x ∈ q, L.height x ≠ h := by
  unfold atHeight
  simp

namespace Lineage

variable {k k' : κ} {b p t : β} {q c : List β}

lemma ne_nil (h : Lineage L get k q) : q ≠ [] := by
  cases h <;> simp

/-- The newest is what the key names. -/
lemma get_head (h : Lineage L get k (b :: q)) : get k = some b := by
  cases h <;> assumption

lemma tail (h : Lineage L get k (b :: p :: q)) : Lineage L get (L.prev b) (p :: q) := by
  cases h
  assumption

/-- The block below the newest is stored under the hash it names. -/
lemma head?_of_cons (h : Lineage L get k (b :: q)) (hq : q ≠ []) : q.head? = get (L.prev b) := by
  cases h with
  | root => exact absurd rfl hq
  | step _ _ ht => exact ht.get_head.symm

/-- The height counts the ancestors. -/
lemma height_head (h : Lineage L get k (b :: q)) : L.height b = q.length := by
  generalize hl : b :: q = l at h
  induction h generalizing b q with
  | root _ hb =>
    obtain ⟨rfl, rfl⟩ := cons.inj hl
    exact hb
  | step _ hb _ ih =>
    obtain ⟨rfl, rfl⟩ := cons.inj hl
    rw [hb, ih rfl, length_cons]

/-- A record on top of a lineage. -/
lemma cons (hq : Lineage L get (L.prev b) q) (hb : get k = some b) (hlen : L.height b = q.length) :
    Lineage L get k (b :: q) := by
  cases q with
  | nil => exact absurd rfl hq.ne_nil
  | cons p q => exact step hb (by rw [hlen, hq.height_head, length_cons]) hq

/-- A record of height zero is its whole lineage. -/
lemma eq_singleton (h : Lineage L get k q) (hb : get k = some b) (h0 : L.height b = 0) :
    q = [b] := by
  obtain ⟨a, r, rfl⟩ := exists_cons_of_ne_nil h.ne_nil
  obtain rfl := Option.mem_unique h.get_head hb
  have hlen := h.height_head
  rw [h0] at hlen
  rw [length_eq_zero_iff.mp hlen.symm]

/-- A key has one lineage. -/
lemma unique (h : Lineage L get k q) (h' : Lineage L get k q') : q = q' := by
  induction h generalizing q' with
  | root hb h0 =>
    cases h' with
    | root hb' => rw [Option.mem_unique hb hb']
    | step hb' hs =>
      obtain rfl := Option.mem_unique hb hb'
      omega
  | step hb hs _ ih =>
    cases h' with
    | root hb' h0 =>
      obtain rfl := Option.mem_unique hb hb'
      omega
    | step hb' _ ht =>
      obtain rfl := Option.mem_unique hb hb'
      rw [ih ht]

/-- Growing the store keeps lineages. -/
lemma mono (hsub : ∀ k b, get k = some b → get' k = some b) (h : Lineage L get k q) :
    Lineage L get' k q := by
  induction h with
  | root hb h0 => exact root (hsub _ _ hb) h0
  | step hb hs _ ih => exact step (hsub _ _ hb) hs ih

/-- Every record has as its lineage the part of the list from it on. -/
lemma suffix (h : Lineage L get k (o ++ t :: s)) : ∃ k', Lineage L get k' (t :: s) := by
  induction o generalizing k with
  | nil => exact ⟨k, h⟩
  | cons b o ih =>
    cases o <;> exact ih h.tail

lemma height_suffix (h : Lineage L get k (o ++ t :: s)) : L.height t = s.length := by
  obtain ⟨k', hk'⟩ := h.suffix
  exact hk'.height_head

section

variable (hkey : ∀ k b, get k = some b → L.hash b = k)
include hkey

/-- If records are filed under their hash, a suffix is its head's lineage. -/
lemma suffix_hash (h : Lineage L get k (o ++ t :: s)) : Lineage L get (L.hash t) (t :: s) := by
  obtain ⟨k', hk'⟩ := h.suffix
  rwa [hkey k' t hk'.get_head]

/-- Every record is stored. -/
lemma get_of_mem (h : Lineage L get k q) (hb : b ∈ q) : get (L.hash b) = some b := by
  obtain ⟨o, s, rfl⟩ := append_of_mem hb
  exact (h.suffix_hash hkey).get_head

/-- A walk that `t` stops first finds it. -/
lemma found (h : Lineage L get k (o ++ t :: s)) (ho : ∀ x ∈ o, stop (L.hash x) x = false)
    (ht : stop (L.hash t) t = true) :
    Walk.Found get L.prev stop k (o.map fun x => (L.hash x, x)) (L.hash t) t := by
  refine ⟨?_, by simpa using ho, h.get_of_mem hkey (by simp), ht⟩
  clear ho
  induction o generalizing k with
  | nil =>
    rw [hkey k t h.get_head]
    exact .nil k
  | cons x o ih =>
    obtain rfl := hkey k x h.get_head
    refine .cons h.get_head (ih ?_)
    cases o <;> exact h.tail

end

/-- Along a lineage the heights count down to zero. -/
lemma map_height (h : Lineage L get k q) : q.map L.height = (List.range q.length).reverse := by
  induction h with
  | root _ h0 => simp [h0]
  | @step k b p q hb hs ht ih =>
    have hhead := (step hb hs ht).height_head
    have hlen : (b :: p :: q).length = (p :: q).length + 1 := rfl
    rw [map_cons, ih, hhead, hlen, range_succ, reverse_append, reverse_singleton, singleton_append]

lemma height_lt_length (h : Lineage L get k q) (hx : x ∈ q) : L.height x < q.length := by
  have hmem := mem_map_of_mem (f := L.height) hx
  rwa [h.map_height, mem_reverse, mem_range] at hmem

lemma pairwise_height (h : Lineage L get k q) : q.Pairwise fun x y => L.height y < L.height x := by
  have hmap : (q.map L.height).Pairwise fun x y => y < x := by
    rw [h.map_height, pairwise_reverse]
    exact pairwise_lt_range
  exact pairwise_map.mp hmap

lemma height_lt_of_mem (h : Lineage L get k (b :: q)) (hx : x ∈ q) : L.height x < L.height b :=
  (pairwise_cons.mp h.pairwise_height).1 x hx

lemma height_lt_of_mem_above (hq : Lineage L get k (o ++ t :: s)) (hx : x ∈ o) :
    L.height t < L.height x :=
  (pairwise_append.mp hq.pairwise_height).2.2 x hx t mem_cons_self

/-- The predecessor of a record above `t` is stored, not below `t`. -/
lemma prev_of_mem_above (h : Lineage L get k (o ++ t :: s)) (hx : x ∈ o) :
    ∃ y, get (L.prev x) = some y ∧ L.height t ≤ L.height y := by
  have hlt := h.height_lt_of_mem_above hx
  obtain ⟨o1, o2, rfl⟩ := append_of_mem hx
  rw [append_assoc, cons_append] at h
  obtain ⟨k', hk'⟩ := h.suffix
  obtain ⟨y, r, hyr⟩ := exists_cons_of_ne_nil (l := o2 ++ t :: s) (by simp)
  rw [hyr] at hk'
  cases hk' with
  | step _ hs hy => exact ⟨y, hy.get_head, by omega⟩

lemma height_le_of_mem (h : Lineage L get k (b :: q)) (hx : x ∈ b :: q) :
    L.height x ≤ L.height b := by
  rw [h.height_head]
  exact Nat.le_of_lt_succ (h.height_lt_length hx)

lemma nodup_map_height (h : Lineage L get k q) : (q.map L.height).Nodup := by
  rw [h.map_height]
  exact nodup_reverse.mpr nodup_range

/-- A record is determined by its height within a lineage. -/
lemma eq_of_height (h : Lineage L get k q) (hx : x ∈ q) (hy : y ∈ q)
    (hxy : L.height x = L.height y) : x = y :=
  inj_on_of_nodup_map h.nodup_map_height hx hy hxy

/-- The heights above a given record, highest first. -/
lemma map_height_above (h : Lineage L get k (o ++ t :: s)) :
    o.map L.height = (List.range' (L.height t + 1) o.length).reverse := by
  obtain ⟨k', hk'⟩ := h.suffix
  have hall := h.map_height
  rw [map_append, length_append, Nat.add_comm, range_add, reverse_append] at hall
  have hmap := append_inj_left' hall (by simp)
  rw [hmap, hk'.height_head, range'_eq_map_range, length_cons]

lemma atHeight_eq_some (hq : Lineage L get k q) :
    atHeight L q h = some b ↔ b ∈ q ∧ L.height b = h :=
  atHeight_eq_some_of_nodup hq.nodup_map_height

/-- Nothing lies above the newest record. -/
lemma atHeight_eq_none (hq : Lineage L get k (b :: q)) (hh : L.height b < h) :
    atHeight L (b :: q) h = none := by
  rw [Option.eq_none_iff_forall_ne_some]
  intro x hx
  obtain ⟨hmem, hxh⟩ := hq.atHeight_eq_some.mp hx
  have := hq.height_le_of_mem hmem
  omega

/-- Every height up to the newest is there. -/
lemma exists_atHeight (hq : Lineage L get k (b :: q)) (hh : h ≤ L.height b) :
    ∃ x, atHeight L (b :: q) h = some x := by
  have hmem : h ∈ (b :: q).map L.height := by
    rw [hq.map_height, mem_reverse, mem_range, length_cons, ← hq.height_head]
    omega
  obtain ⟨x, hx, hxh⟩ := mem_map.mp hmem
  exact ⟨x, hq.atHeight_eq_some.mpr ⟨hx, hxh⟩⟩

/-- Above a record, only what lies above it counts. -/
lemma atHeight_append_of_lt (hq : Lineage L get k (o ++ t :: s))
    (hh : L.height t < h) : atHeight L (o ++ t :: s) h = atHeight L o h := by
  obtain ⟨k', hk'⟩ := hq.suffix
  have hnone := hk'.atHeight_eq_none hh
  unfold atHeight at hnone ⊢
  rw [find?_append, hnone, Option.or_none]

/-- At or below it, only what lies below. -/
lemma atHeight_append_of_le (hq : Lineage L get k (o ++ t :: s))
    (hh : h ≤ L.height t) : atHeight L o h = none ∧
      atHeight L (o ++ t :: s) h = atHeight L (t :: s) h := by
  have hnone : atHeight L o h = none := by
    rw [atHeight_eq_none_iff]
    intro x hx
    have := hq.height_lt_of_mem_above hx
    omega
  refine ⟨hnone, ?_⟩
  unfold atHeight at hnone ⊢
  rw [find?_append, hnone, Option.none_or]

/-- Every lineage ends in a root. -/
lemma exists_root (hq : Lineage L get k q) :
    ∃ o g, q = o ++ [g] ∧ L.height g = 0 ∧ ∃ kg, get kg = some g := by
  induction hq with
  | root hb h0 => exact ⟨[], _, rfl, h0, _, hb⟩
  | step _ _ _ ih =>
    obtain ⟨o, g, heq, h0, hg⟩ := ih
    exact ⟨_ :: o, g, by rw [heq, cons_append], h0, hg⟩

/-- Two lineages with one root share a suffix; the second leaves the first at `t`. -/
lemma exists_fork (hkey : ∀ k b, get k = some b → L.hash b = k)
    (hroot : ∀ k k' b b', get k = some b → get k' = some b' → L.height b = 0 → L.height b' = 0 →
      b = b')
    (hc : Lineage L get k c) (hq : Lineage L get k' q) :
    ∃ o f t s, c = o ++ t :: s ∧ q = f ++ t :: s ∧ ∀ x ∈ f, x ∉ c := by
  induction hq with
  | root hb h0 =>
    obtain ⟨o, g, rfl, hg0, kg, hg⟩ := hc.exists_root
    obtain rfl := hroot _ _ _ _ hg hb hg0 h0
    exact ⟨o, [], g, [], rfl, rfl, by simp⟩
  | @step k' b p q hb hs ht ih =>
    by_cases hmem : b ∈ c
    · -- the newest record is on both: the suffix of `c` there is its whole lineage
      obtain ⟨o, s, rfl⟩ := append_of_mem hmem
      have hq : Lineage L get (L.hash b) (b :: p :: q) := by
        rw [hkey _ _ hb]
        exact step hb hs ht
      exact ⟨o, [], b, s, rfl, (hq.unique (hc.suffix_hash hkey)), by simp⟩
    · obtain ⟨o, f, t, s, rfl, heq, hf⟩ := ih
      refine ⟨o, b :: f, t, s, rfl, by rw [heq, cons_append], ?_⟩
      intro x hx
      rcases mem_cons.mp hx with rfl | hx
      · exact hmem
      · exact hf x hx

/-- Read from the root, records stand at their heights. -/
lemma getElem?_reverse (hq : Lineage L get k q) (h : ℕ) : q.reverse[h]? = atHeight L q h := by
  have hmap : q.reverse.map L.height = range q.length := by
    rw [map_reverse, hq.map_height, reverse_reverse]
  have hheight : ∀ (i : ℕ) (x : β), q.reverse[i]? = some x → L.height x = i := by
    intro i x hx
    have hi : (range q.length)[i]? = some (L.height x) := by
      rw [← hmap, getElem?_map, hx, Option.map_some]
    simpa using (List.getElem?_eq_some_iff.mp hi).2.symm
  refine Option.ext fun x => ?_
  rw [hq.atHeight_eq_some]
  constructor
  · exact fun hx => ⟨mem_reverse.mp (mem_of_getElem? hx), hheight h x hx⟩
  · rintro ⟨hx, rfl⟩
    obtain ⟨i, hi⟩ := getElem?_of_mem (mem_reverse.mpr hx)
    rwa [hheight i x hi]

/-- Read from the root, each record names the one before it. -/
lemma isChain_reverse (hkey : ∀ k b, get k = some b → L.hash b = k) (hq : Lineage L get k q) :
    q.reverse.IsChain fun a b => L.prev b = L.hash a := by
  rw [List.isChain_reverse]
  induction hq with
  | root => exact .singleton _
  | @step k b p q hb hs ht ih => exact .cons_cons (hkey _ _ ht.get_head).symm ih

end Lineage

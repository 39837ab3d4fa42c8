import Mathlib.Data.List.Induction

/-!
# Reading a log again

A table of rows is built from a log of blocks: a block creates the rows of some keys and marks rows;
marks are idempotent and commute. A reader that has the table of a log and reads part of it once more
gets the same table back (`Covers`). Half way through, the rows that blocks ahead create are open,
and the rows created since the start have the marks up to here only.
-/

namespace Rescan

open List

/-- What a block creates and marks. -/
structure Feed (β κ ρ : Type*) where
  created : β → κ → Option ρ
  mark : β → ρ → ρ
  mark_mark : ∀ b r, mark b (mark b r) = mark b r
  mark_comm : ∀ b c r, mark b (mark c r) = mark c (mark b r)

variable {β κ ρ : Type*} (L : Feed β κ ρ)

namespace Feed

/-- Reading one block. -/
def apply (t : κ → Option ρ) (b : β) : κ → Option ρ :=
  fun k => ((L.created b k).or (t k)).map (L.mark b)

/-- The table of a whole log. -/
def replay (q : List β) : κ → Option ρ := q.foldl L.apply fun _ => none

/-- All marks of a log on one row. -/
def marks (q : List β) (r : ρ) : ρ := q.foldl (fun r b => L.mark b r) r

/-- A block of the log creates the row. -/
def Creates (q : List β) (k : κ) : Prop := ∃ b ∈ q, (L.created b k).isSome

variable {L}

@[simp] lemma replay_concat : L.replay (q ++ [b]) = L.apply (L.replay q) b := by
  simp [replay]

lemma creates_append : L.Creates (p ++ q) k ↔ L.Creates p k ∨ L.Creates q k := by
  simp only [Creates, mem_append, or_and_right, exists_or]

lemma creates_concat : L.Creates (q ++ [b]) k ↔ L.Creates q k ∨ (L.created b k).isSome := by
  simp [Creates]

lemma mark_marks_of_mem (hb : b ∈ q) (r : ρ) : L.mark b (L.marks q r) = L.marks q r := by
  induction q using reverseRecOn with
  | nil => simp at hb
  | append_singleton q c ih =>
    have hmarks : L.marks (q ++ [c]) r = L.mark c (L.marks q r) := by simp [marks]
    rw [hmarks]
    rcases mem_append.mp hb with hb | hb
    · rw [L.mark_comm, ih hb]
    · obtain rfl := mem_singleton.mp hb
      exact L.mark_mark b _

/-- Blocks that do not create a row only mark it. -/
lemma replay_append_of_not_creates (h : ¬L.Creates q k) :
    L.replay (p ++ q) k = (L.replay p k).map (L.marks q) := by
  induction q using reverseRecOn with
  | nil =>
    rw [append_nil]
    exact Option.map_id'.symm
  | append_singleton q b ih =>
    rw [creates_concat, not_or, Option.not_isSome_iff_eq_none] at h
    rw [← append_assoc, replay_concat, apply, h.2, Option.none_or, ih h.1, Option.map_map]
    congr 1
    funext r
    simp [marks]

/-- What is never created is not there. -/
lemma replay_eq_none (h : ¬L.Creates q k) : L.replay q k = none := by
  have hreplay := replay_append_of_not_creates (p := []) h
  rwa [nil_append] at hreplay

variable (L) in
/-- `t` is the table of `q`, with the blocks from `a` to `cur` read once more. -/
structure Covers (q : List β) (a cur : ℕ) (t : κ → Option ρ) : Prop where
  again : ∀ k, ¬L.Creates (q.drop cur) k → L.Creates ((q.take cur).drop a) k →
    t k = L.replay (q.take cur) k
  rest : ∀ k, ¬L.Creates (q.drop cur) k → ¬L.Creates ((q.take cur).drop a) k → t k = L.replay q k

lemma covers_start (q : List β) (a : ℕ) : L.Covers q a a (L.replay q) where
  again k _ h := by
    obtain ⟨b, hb, -⟩ := h
    simp at hb
  rest _ _ _ := rfl

lemma Covers.eq_replay (h : L.Covers q a q.length t) : t = L.replay q := by
  funext k
  have hopen : ¬L.Creates (q.drop q.length) k := by simp [Creates]
  by_cases hk : L.Creates ((q.take q.length).drop a) k
  · rw [h.again k hopen hk, take_length]
  · exact h.rest k hopen hk

lemma Covers.step (h : L.Covers q a cur t) (ha : a ≤ cur) (hb : q[cur]? = some b) :
    L.Covers q a (cur + 1) (L.apply t b) := by
  obtain ⟨hcur, rfl⟩ := List.getElem?_eq_some_iff.mp hb
  have hdrop : q.drop cur = q[cur] :: q.drop (cur + 1) := drop_eq_getElem_cons hcur
  have htake : q.take (cur + 1) = q.take cur ++ [q[cur]] := take_succ_eq_append_getElem hcur
  have hlen : (q.take cur).length = cur := length_take_of_le (Nat.le_of_lt hcur)
  have hmid : (q.take (cur + 1)).drop a = (q.take cur).drop a ++ [q[cur]] := by
    rw [htake, drop_append_of_le_length (by omega)]
  have hopen : ∀ k, ¬L.Creates (q.drop (cur + 1)) k → (L.created q[cur] k) = none →
      ¬L.Creates (q.drop cur) k := by
    rintro k hk hcreated ⟨b, hb, hsome⟩
    rw [hdrop] at hb
    rcases mem_cons.mp hb with rfl | hb
    · simp [hcreated] at hsome
    · exact hk ⟨b, hb, hsome⟩
  refine ⟨fun k hk hmidk => ?_, fun k hk hmidk => ?_⟩
  · -- a row that the block creates is new whatever was there before
    rw [htake, replay_concat]
    cases hcreated : L.created q[cur] k with
    | some r => simp [apply, hcreated]
    | none =>
      rw [hmid, creates_concat, hcreated] at hmidk
      have hagain := h.again k (hopen k hk hcreated) (by simpa using hmidk)
      simp [apply, hagain]
  · -- any other row has the marks of the block already
    rw [hmid, creates_concat, not_or, Option.not_isSome_iff_eq_none] at hmidk
    have hk' := hopen k hk hmidk.2
    have hreplay : L.replay q k = (L.replay (q.take cur) k).map (L.marks (q.drop cur)) := by
      rw [← replay_append_of_not_creates hk', take_append_drop]
    have hmark : ∀ r, L.mark q[cur] (L.marks (q.drop cur) r) = L.marks (q.drop cur) r :=
      mark_marks_of_mem (by rw [hdrop]; exact mem_cons_self)
    rw [apply, hmidk.2, Option.none_or, h.rest k hk' hmidk.1, hreplay, Option.map_map]
    congr 1
    funext r
    exact hmark r

end Feed

end Rescan

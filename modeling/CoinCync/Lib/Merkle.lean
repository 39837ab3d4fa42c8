import Mathlib.Data.List.Nodup

/-!
# Merkle trees that duplicate the odd node

A level of hashes is paired up into the next one; a node without a neighbour is paired with itself.
The root of a list is what is left when one hash is left, over leaves that are hashed once more.

The root does not determine the list: a list that ends in a repeated part can have the root of a
shorter one. Without repeated leaves it does (`root_injective`).
-/

namespace Merkle

open List

variable {η : Type*}

/-- Tagged hashes of a leaf and of a pair of nodes. -/
structure Hasher (η : Type*) where
  leaf : η → η
  node : η → η → η

/-- Tagged hashes collide neither with each other nor with `zero`. -/
structure Hasher.CollisionFree (H : Hasher η) (zero : η) : Prop where
  leaf_inj : ∀ {a b}, H.leaf a = H.leaf b → a = b
  node_inj : ∀ {a b c d}, H.node a b = H.node c d → a = c ∧ b = d
  leaf_ne_node : ∀ a b c, H.leaf a ≠ H.node b c
  leaf_ne_zero : ∀ a, H.leaf a ≠ zero
  node_ne_zero : ∀ a b, H.node a b ≠ zero

variable (H : Hasher η)

/-- The next level. -/
def levelUp : List η → List η
  | a :: b :: l => H.node a b :: levelUp l
  | [a] => [H.node a a]
  | [] => []

/-- Half as many, rounded up. -/
lemma length_levelUp : ∀ l : List η, (levelUp H l).length = (l.length + 1) / 2
  | a :: b :: l => by
    have ih := length_levelUp l
    simp only [levelUp, length_cons]
    omega
  | [a] => by simp [levelUp]
  | [] => by simp [levelUp]

/-- Going up while more than one hash is left. -/
def top (level : List η) : List η := if 1 < level.length then top (levelUp H level) else level
termination_by level.length
decreasing_by
  rw [length_levelUp]
  omega

/-- The root over the hashes of a list. -/
def root (zero : η) (hashes : List η) : η := (top H (hashes.map H.leaf)).headD zero

variable {H}

lemma top_of_le (h : l.length ≤ 1) : top H l = l := by
  rw [top, if_neg (by omega)]

lemma top_of_lt (h : 1 < l.length) : top H l = top H (levelUp H l) := by
  rw [top, if_pos h]

/-! ## One level -/

/-- A node of the next level is a pair. -/
lemma mem_levelUp : ∀ {l : List η}, x ∈ levelUp H l → ∃ a b, x = H.node a b ∧ a ∈ l ∧ b ∈ l
  | a :: b :: l, h => by
    rcases mem_cons.mp h with rfl | h
    · exact ⟨a, b, rfl, by simp, by simp⟩
    · obtain ⟨c, d, rfl, hc, hd⟩ := mem_levelUp h
      exact ⟨c, d, rfl, by simp [hc], by simp [hd]⟩
  | [a], h => ⟨a, a, mem_singleton.mp h, by simp, by simp⟩
  | [], h => by simp [levelUp] at h

/-- Without repetition the first halves of the pairs differ. -/
lemma nodup_levelUp (hH : H.CollisionFree zero) : ∀ {l : List η}, l.Nodup → (levelUp H l).Nodup
  | a :: b :: l, h => by
    obtain ⟨ha, h⟩ := nodup_cons.mp h
    obtain ⟨-, h⟩ := nodup_cons.mp h
    refine nodup_cons.mpr ⟨fun hmem => ?_, nodup_levelUp hH h⟩
    obtain ⟨c, d, heq, hc, -⟩ := mem_levelUp hmem
    rw [(hH.node_inj heq).1] at ha
    exact ha (mem_cons_of_mem _ hc)
  | [a], _ => nodup_singleton _
  | [], _ => nodup_nil

/-- A duplicated odd node would be a pair of equal neighbours on the other side. -/
lemma levelUp_injective (hH : H.CollisionFree zero) :
    ∀ {l l' : List η}, l.Nodup → l'.Nodup → levelUp H l = levelUp H l' → l = l'
  | [], [], _, _, _ => rfl
  | [], [_], _, _, h => by simp [levelUp] at h
  | [], _ :: _ :: _, _, _, h => by simp [levelUp] at h
  | [_], [], _, _, h => by simp [levelUp] at h
  | _ :: _ :: _, [], _, _, h => by simp [levelUp] at h
  | [a], [b], _, _, h => by
    obtain ⟨heq, -⟩ := List.cons.inj h
    rw [(hH.node_inj heq).1]
  | [a], b :: c :: l', _, hnd, h => by
    obtain ⟨heq, -⟩ := List.cons.inj h
    obtain ⟨rfl, rfl⟩ := hH.node_inj heq
    simp at hnd
  | b :: c :: l, [a], hnd, _, h => by
    obtain ⟨heq, -⟩ := List.cons.inj h
    obtain ⟨rfl, rfl⟩ := hH.node_inj heq
    simp at hnd
  | a :: b :: l, c :: d :: l', hnd, hnd', h => by
    obtain ⟨heq, htail⟩ := List.cons.inj h
    obtain ⟨rfl, rfl⟩ := hH.node_inj heq
    have hl : l.Nodup := (nodup_cons.mp (nodup_cons.mp hnd).2).2
    have hl' : l'.Nodup := (nodup_cons.mp (nodup_cons.mp hnd').2).2
    rw [levelUp_injective hH hl hl' htail]

/-! ## All levels -/

/-- The hash is one of the given level of a tree. -/
inductive Rank (H : Hasher η) : ℕ → η → Prop
  | leaf (a : η) : Rank H 0 (H.leaf a)
  | node {k : ℕ} {a b : η} : Rank H k a → Rank H (k + 1) (H.node a b)

/-- Hashes of different levels differ. -/
lemma Rank.unique (hH : H.CollisionFree zero) (h : Rank H k x) (h' : Rank H k' x) : k = k' := by
  induction h generalizing k' with
  | leaf a =>
    generalize hx : H.leaf a = x at h'
    cases h' with
    | leaf b => rfl
    | @node k' b c hb => exact absurd hx (hH.leaf_ne_node a b c)
  | @node k a b ha ih =>
    generalize hx : H.node a b = x at h'
    cases h' with
    | leaf c => exact absurd hx.symm (hH.leaf_ne_node c a b)
    | @node k' c d hc =>
      rw [ih ((hH.node_inj hx).1 ▸ hc)]

/-- The next level has the next rank. -/
lemma rank_levelUp (h : ∀ x ∈ l, Rank H k x) : ∀ x ∈ levelUp H l, Rank H (k + 1) x := by
  intro x hx
  obtain ⟨a, b, rfl, ha, -⟩ := mem_levelUp hx
  exact .node (h a ha)

/-- A non-empty level of rank `k` goes up to one hash of no lower rank. -/
lemma exists_top (hne : l ≠ []) (h : ∀ x ∈ l, Rank H k x) :
    ∃ x k', top H l = [x] ∧ k ≤ k' ∧ Rank H k' x ∧ (1 < l.length → k < k') := by
  induction hn : l.length using Nat.strongRecOn generalizing l k with
  | ind n ih =>
    have hpos : 0 < l.length := length_pos_iff.mpr hne
    by_cases hlen : 1 < l.length
    · rw [top_of_lt hlen]
      have hup := length_levelUp H l
      have hne' : levelUp H l ≠ [] := by
        rw [← length_pos_iff]
        omega
      obtain ⟨x, k', htop, hle, hx, -⟩ :=
        ih _ (by omega) hne' (rank_levelUp h) rfl
      exact ⟨x, k', htop, by omega, hx, fun _ => by omega⟩
    · obtain ⟨a, rfl⟩ : ∃ a, l = [a] := length_eq_one_iff.mp (by omega)
      rw [top_of_le (by simp)]
      exact ⟨a, k, rfl, Nat.le_refl k, h a (by simp), fun hlt => absurd (hn ▸ hlt) hlen⟩

/-- Levels of one rank without repetition that go up to one hash are equal. -/
lemma top_injective (hH : H.CollisionFree zero) (hne : l ≠ []) (hne' : l' ≠ [])
    (hrank : ∀ x ∈ l, Rank H k x) (hrank' : ∀ x ∈ l', Rank H k x) (hnd : l.Nodup) (hnd' : l'.Nodup)
    (heq : top H l = top H l') : l = l' := by
  induction hn : l.length using Nat.strongRecOn generalizing l l' k with
  | ind n ih =>
    obtain ⟨x, r, hx, hle, hr, hlt⟩ := exists_top hne hrank
    obtain ⟨x', r', hx', hle', hr', hlt'⟩ := exists_top hne' hrank'
    rw [hx, hx'] at heq
    obtain rfl : x = x' := head_eq_of_cons_eq heq
    -- the ranks of the one hash are equal, so the trees have one depth
    have hpos : 0 < l.length := length_pos_iff.mpr hne
    have hpos' : 0 < l'.length := length_pos_iff.mpr hne'
    by_cases hlen : 1 < l.length
    · have hlen' : 1 < l'.length := by
        by_contra hshort
        obtain ⟨a, rfl⟩ : ∃ a, l' = [a] := length_eq_one_iff.mp (by omega)
        rw [top_of_le (by simp)] at hx'
        obtain rfl : a = x := head_eq_of_cons_eq hx'
        have hk : k = r := (hrank' a (by simp)).unique hH hr
        exact absurd (hlt hlen) (by omega)
      have hup := length_levelUp H l
      have hup' := length_levelUp H l'
      refine levelUp_injective hH hnd hnd' (ih _ (by omega) ?_ ?_ (rank_levelUp hrank)
        (rank_levelUp hrank') (nodup_levelUp hH hnd) (nodup_levelUp hH hnd') ?_ rfl)
      · rw [← length_pos_iff]
        omega
      · rw [← length_pos_iff]
        omega
      · rw [← top_of_lt hlen, ← top_of_lt hlen', hx, hx']
    · obtain ⟨a, rfl⟩ : ∃ a, l = [a] := length_eq_one_iff.mp (by omega)
      rw [top_of_le (by simp)] at hx
      obtain rfl : a = x := head_eq_of_cons_eq hx
      have hk : k = r' := (hrank a (by simp)).unique hH hr'
      obtain ⟨b, rfl⟩ : ∃ b, l' = [b] := length_eq_one_iff.mp (by omega)
      rw [top_of_le (by simp)] at hx'
      exact hx'.symm

/-- The root of a non-empty list is not `zero`. -/
lemma root_ne_zero (hH : H.CollisionFree zero) (hne : l ≠ []) : root H zero l ≠ zero := by
  have hrank : ∀ x ∈ l.map H.leaf, Rank H 0 x := by
    intro x hx
    obtain ⟨a, -, rfl⟩ := mem_map.mp hx
    exact .leaf a
  obtain ⟨x, k, htop, -, hx, -⟩ := exists_top (by simpa using hne) hrank
  rw [root, htop]
  cases hx with
  | leaf a => exact hH.leaf_ne_zero a
  | node => exact hH.node_ne_zero _ _

/-- Lists without repetition with one root are equal. -/
lemma root_injective (hH : H.CollisionFree zero) (hnd : l.Nodup) (hnd' : l'.Nodup)
    (heq : root H zero l = root H zero l') : l = l' := by
  by_cases hne : l = []
  · subst hne
    by_contra hl'
    have hroot : root H zero [] = zero := by simp [root, top_of_le]
    exact root_ne_zero hH (Ne.symm hl') (heq.symm.trans hroot)
  by_cases hne' : l' = []
  · subst hne'
    have hroot : root H zero [] = zero := by simp [root, top_of_le]
    exact absurd (heq.trans hroot) (root_ne_zero hH hne)
  have hrank : ∀ l : List η, ∀ x ∈ l.map H.leaf, Rank H 0 x := by
    intro l x hx
    obtain ⟨a, -, rfl⟩ := mem_map.mp hx
    exact .leaf a
  have hinj : Function.Injective H.leaf := fun _ _ h => hH.leaf_inj h
  have hleaves : l.map H.leaf ≠ [] := by simpa using hne
  have hleaves' : l'.map H.leaf ≠ [] := by simpa using hne'
  obtain ⟨x, k, htop, -⟩ := exists_top hleaves (hrank l)
  obtain ⟨x', k', htop', -⟩ := exists_top hleaves' (hrank l')
  unfold root at heq
  rw [htop, htop'] at heq
  have hxx : x = x' := heq
  apply map_injective_iff.mpr hinj
  refine top_injective hH hleaves hleaves' (hrank l) (hrank l') (hnd.map hinj) (hnd'.map hinj) ?_
  rw [htop, htop', hxx]

end Merkle

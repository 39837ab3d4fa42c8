import CoinCync.System
import Mathlib.Data.List.TakeWhile

/-!
# The fork walks over any store

Nothing is assumed here about the stored blocks: parents may be missing, links may form cycles,
heights may be arbitrary. `find_fork_point` and `collect_fork_chain` are walks of `Lib.Walk`, so the
number of stored bodies bounds them.
-/

namespace CoinCync

open List Node

variable (n : Node)

/-- `a`, stored under `k`, is the nearest ancestor of `b`, after `l`, that is canonical or at height
zero. -/
def Node.ForkFound (b : Block) (l : List (Hash × Block)) (k : Hash) (a : Block) : Prop :=
  Walk.Found n.getBlock Block.prevHash n.forkStop b.prevHash l k a

/-- A missing parent or a repeated hash comes before such an ancestor. -/
def Node.ForkLost (b : Block) (l : List (Hash × Block)) (k : Hash) : Prop :=
  Walk.Lost n.getBlock Block.prevHash n.forkStop b.prevHash l k

/-! ## What they return -/

section Walks

variable {n} {a : Block} {l : List (Hash × Block)} {k : Hash} {fuel : ℕ}

/-- `find_fork_point` returns its height. -/
lemma Node.ForkFound.forkPointLoop_eq (h : n.ForkFound b l k a) (hfuel : n.bodyKeys.card < fuel) :
    n.forkPointLoop fuel [] b.prevHash = some a.height := by
  rw [forkPointLoop_eq_walk, Walk.Found.walk_eq (fun _ _ => n.mem_bodyKeys) hfuel h]

/-- A lost walk is reported as corruption. -/
lemma Node.ForkLost.forkPointLoop_eq (h : n.ForkLost b l k) (hfuel : n.bodyKeys.card < fuel) :
    n.forkPointLoop fuel [] b.prevHash = none := by
  have hne := Walk.Lost.walk_ne_stopped (fun _ _ => n.mem_bodyKeys) hfuel h
  rw [forkPointLoop_eq_walk]
  split
  · rename_i k' a' heq
    exact absurd heq (hne k' a')
  · rfl

/-- Every block has a fork ancestor, or its walk is lost. -/
lemma Node.forkFound_or_forkLost (n : Node) (b : Block) :
    (∃ l k a, n.ForkFound b l k a) ∨ ∃ l k, n.ForkLost b l k := by
  rcases Walk.walk_ends (fun _ _ => n.mem_bodyKeys) (n.card_bodyKeys_lt b) Block.prevHash n.forkStop
    b.prevHash with ⟨l, k, a, hfound, -⟩ | ⟨l, k, hlost, -⟩
  · exact .inl ⟨l, k, a, hfound⟩
  · exact .inr ⟨l, k, hlost⟩

/-- `collect_fork_chain` returns the ancestors above it. -/
lemma Node.ForkFound.forkChainLoop_eq (h : n.ForkFound b l k a) (hfuel : n.bodyKeys.card < fuel) :
    n.forkChainLoop a.height fuel [] b.prevHash =
      (l.map Prod.snd).takeWhile (fun x => decide (a.height < x.height)) := by
  obtain ⟨k', a', hfound⟩ := Walk.Found.takeWhile h (fun _ x => decide (x.height ≤ a.height))
    (by simp)
  rw [forkChainLoop_eq_walk, hfound.walk_eq (fun _ _ => n.mem_bodyKeys) hfuel, takeWhile_map]
  simp only [← decide_not, not_le]
  rfl

/-- With consecutive heights the heights count down. -/
lemma heights_of_isChain {b a : Block}
    (h : (b :: m ++ [a]).IsChain fun x y => x.height = y.height + 1) :
    b.height = a.height + m.length + 1 ∧
      m.map Block.height = (List.range' (a.height + 1) m.length).reverse := by
  induction m generalizing b with
  | nil =>
    have hpair : b.height = a.height + 1 := by simpa using h
    exact ⟨by simpa using hpair, by simp⟩
  | cons x m ih =>
    obtain ⟨hx, htail⟩ := isChain_cons_cons.mp h
    obtain ⟨hheight, hmap⟩ := ih htail
    refine ⟨by rw [length_cons]; omega, ?_⟩
    rw [map_cons, hmap, length_cons, range'_1_concat, hheight]
    simp [add_comm, add_left_comm]

/-- With consecutive heights the fork is all before the fork ancestor. -/
lemma takeWhile_of_isChain {b a : Block}
    (h : (b :: m ++ [a]).IsChain fun x y => x.height = y.height + 1) :
    m.takeWhile (fun x => decide (a.height < x.height)) = m := by
  obtain ⟨-, hmap⟩ := heights_of_isChain h
  rw [takeWhile_eq_self_iff]
  intro x hx
  have hmem : x.height ∈ m.map Block.height := mem_map_of_mem hx
  rw [hmap, mem_reverse, mem_range'_1] at hmem
  exact decide_eq_true hmem.1

end Walks

/-- The two walks over an arbitrary store. More fuel changes nothing, so the loops end by
themselves. The fork point is the height of the nearest ancestor that is canonical or at height
zero; there is none exactly if a missing parent or a repeated hash comes first. The collected fork
is the ancestors before it, up to the first that is not above the fork point. -/
theorem fork_walks_on_any_store (n : Node) (b : Block) :
    (∀ fuel, n.walkFuel b ≤ fuel → n.forkPointLoop fuel [] b.prevHash = n.findForkPoint b ∧
      ∀ f, n.findForkPoint b = some f →
        (n.forkChainLoop f fuel [] b.prevHash).reverse = n.collectForkChain b f) ∧
    (∀ f, n.findForkPoint b = some f ↔ ∃ l k a, n.ForkFound b l k a ∧ a.height = f) ∧
    (∀ l k a, n.ForkFound b l k a →
      n.collectForkChain b a.height =
        ((l.map Prod.snd).takeWhile fun x => decide (a.height < x.height)).reverse ∧
      ((b :: l.map Prod.snd ++ [a]).IsChain (fun x y => x.height = y.height + 1) →
        n.collectForkChain b a.height = (l.map Prod.snd).reverse ∧
        (n.collectForkChain b a.height).map Block.height =
          List.range' (a.height + 1) (b.height - 1 - a.height))) ∧
    (n.findForkPoint b = none ↔ ∃ l k, n.ForkLost b l k) := by
  have hfuel := n.card_bodyKeys_lt b
  have hsome : ∀ f, n.findForkPoint b = some f ↔ ∃ l k a, n.ForkFound b l k a ∧ a.height = f := by
    intro f
    constructor
    · intro hf
      rcases n.forkFound_or_forkLost b with ⟨l, k, a, hfound⟩ | ⟨l, k, hlost⟩
      · rw [findForkPoint, hfound.forkPointLoop_eq hfuel] at hf
        exact ⟨l, k, a, hfound, Option.some.inj hf⟩
      · rw [findForkPoint, hlost.forkPointLoop_eq hfuel] at hf
        cases hf
    · rintro ⟨l, k, a, hfound, rfl⟩
      exact hfound.forkPointLoop_eq hfuel
  refine ⟨fun fuel hle => ⟨?_, fun f hf => ?_⟩, hsome, fun l k a hfound => ?_, ?_⟩
  · have hmore : n.bodyKeys.card < fuel := by omega
    rcases n.forkFound_or_forkLost b with ⟨l, k, a, hfound⟩ | ⟨l, k, hlost⟩
    · rw [findForkPoint, hfound.forkPointLoop_eq hfuel, hfound.forkPointLoop_eq hmore]
    · rw [findForkPoint, hlost.forkPointLoop_eq hfuel, hlost.forkPointLoop_eq hmore]
  · obtain ⟨l, k, a, hfound, rfl⟩ := (hsome f).mp hf
    rw [collectForkChain, hfound.forkChainLoop_eq (by omega), hfound.forkChainLoop_eq hfuel]
  · have hcollect : n.collectForkChain b a.height =
        ((l.map Prod.snd).takeWhile fun x => decide (a.height < x.height)).reverse := by
      rw [collectForkChain, hfound.forkChainLoop_eq hfuel]
    refine ⟨hcollect, fun hchain => ?_⟩
    obtain ⟨hheight, hmap⟩ := heights_of_isChain hchain
    rw [hcollect, takeWhile_of_isChain hchain]
    refine ⟨rfl, ?_⟩
    rw [map_reverse, hmap, reverse_reverse]
    congr 1
    omega
  · constructor
    · intro hnone
      rcases n.forkFound_or_forkLost b with ⟨l, k, a, hfound⟩ | hlost
      · rw [findForkPoint, hfound.forkPointLoop_eq hfuel] at hnone
        cases hnone
      · exact hlost
    · rintro ⟨l, k, hlost⟩
      exact hlost.forkPointLoop_eq hfuel

/-- A fresh node with a body three above its parent, and a second one of height zero. -/
def oddStore : Node :=
  ((genesisNode openMainnet none).storeBlock (sampleEnv .mainnet 0)
    (sampleBlock 3 1 0 (2 ^ 255) [])).storeBlock (sampleEnv .mainnet 0)
    (sampleBlock 0 5 7 (2 ^ 255) [])

/-- The walk from a block whose parent skips heights. -/
theorem fork_walks_on_odd_store :
    ∃ l k a, oddStore.ForkFound (sampleBlock 9 0 3001 (2 ^ 255) []) l k a ∧ a.height = 0 :=
  ((fork_walks_on_any_store oddStore (sampleBlock 9 0 3001 (2 ^ 255) [])).2.1 0).mp
    (by decide +kernel)

/-- Heights that skip are collected as they are, and a foreign block of height zero is a fork point.
-/
theorem fork_walks_with_odd_heights :
    (oddStore.findForkPoint (sampleBlock 9 0 3001 (2 ^ 255) []) = some 0 ∧
      (oddStore.collectForkChain (sampleBlock 9 0 3001 (2 ^ 255) []) 0).map Block.height = [3] ∧
      [3] ≠ List.range' 1 (9 - 1 - 0)) ∧
    (oddStore.findForkPoint (sampleBlock 1 0 5 (2 ^ 255) []) = some 0 ∧
      oddStore.getBlock 5 = some (sampleBlock 0 5 7 (2 ^ 255) []) ∧
      oddStore.getBlockHash 0 ≠ some 5 ∧ oddStore.getBlock 7 = none) := by
  decide +kernel

end CoinCync

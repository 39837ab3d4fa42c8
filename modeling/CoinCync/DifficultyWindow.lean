import CoinCync.AnyCache
import CoinCync.Difficulty

/-!
# The difficulty windows

Three places assemble the blocks a target is computed from: `fork_difficulty_window`, when a side
block arrives; the reorganisation, for each fork block; and `get_difficulty_blocks`, on the main
chain. For one block they are the same list, its last 144 ancestors.
-/

namespace CoinCync

open Difficulty List Option Database DifficultyBlock

variable {E : Env} {R : Rules E} {q : List Block}

namespace Database

variable (db : Database)

/-- `main_chain_diff_block`. -/
def mainChainDiffBlock (height : ℕ) : Option DifficultyBlock :=
  (db.getByHeight height).map fun b => ⟨height, b.header.timestamp, b.header.target⟩

/-- The heights `height - 144 .. height`. -/
def windowHeights (height : ℕ) : List ℕ :=
  List.range' (height - longWindow) (height - (height - longWindow))

/-- `get_difficulty_blocks`. -/
def getDifficultyBlocks (upToHeight : ℕ) : List DifficultyBlock :=
  (windowHeights upToHeight).filterMap db.mainChainDiffBlock

/-- The loop of `fork_difficulty_window`: fork blocks and fork point. -/
def windowLoop : ℕ → List Hash → Hash → List Block × ℕ
  | 0, _, _ => ([], 0)
  | fuel + 1, visited, cursor =>
    if cursor ∈ visited then ([], 0)
    else match db.get cursor with
      | none => ([], 0)
      | some blk =>
        if db.heightIndex[blk.height]? = some cursor then ([], blk.height)
        else if blk.height = 0 then ([blk], 0)
        else
          let rest := windowLoop fuel (cursor :: visited) blk.prevHash
          (blk :: rest.1, rest.2)

/-- Main-chain blocks up to the fork point, fork blocks above it. -/
def assembleWindow (forkPoint : ℕ) (fork : List Block) (height : ℕ) : List DifficultyBlock :=
  (windowHeights height).filterMap fun h =>
    if h ≤ forkPoint then db.mainChainDiffBlock h
    else fork[h - forkPoint - 1]?.map fun b => ofHeader b.header

/-- `fork_difficulty_window`; the stored bodies bound its walk. -/
def forkDifficultyWindow (parentHash : Hash) (blockHeight : ℕ) : List DifficultyBlock :=
  let walk := db.windowLoop (blockHeight + db.blocks.size + 2) [] parentHash
  db.assembleWindow walk.2 walk.1.reverse blockHeight

/-- The `diff_blocks` at `height`, after the fork blocks `earlier`. -/
def reorgDiffBlocks (forkPoint : ℕ) (earlier : List Block) (height : ℕ) : List DifficultyBlock :=
  db.assembleWindow forkPoint earlier height

end Database

/-- The last 144 blocks of an ancestry, oldest first. -/
def ancestorWindow (q : List Block) : List DifficultyBlock :=
  (q.take longWindow).reverse.map fun b => ofHeader b.header

/-! ## Reading a window -/

/-- Reading the last entries of a list by their positions. -/
lemma filterMap_windowHeights {α β : Type} (l : List α) (g : α → β) :
    (windowHeights l.length).filterMap (fun h => l.reverse[h]?.map g) =
      ((l.take longWindow).reverse).map g := by
  have hdrop : ∀ (l : List α) (i : ℕ),
      (range' i (l.length - i)).filterMap (fun h => l[h]?.map g) = (l.drop i).map g := by
    intro l i
    induction hlen : l.length - i generalizing i with
    | zero =>
      rw [drop_eq_nil_of_le (by omega)]
      rfl
    | succ m ih =>
      have hlt : i < l.length := by omega
      rw [range'_succ, filterMap_cons, getElem?_eq_getElem hlt, map_some,
        ih (i + 1) (by omega), drop_eq_getElem_cons hlt, map_cons]
  unfold windowHeights
  generalize longWindow = w
  have hread := hdrop l.reverse (l.length - w)
  rw [length_reverse] at hread
  rw [hread, drop_reverse]
  congr 2
  rcases le_total w l.length with hle | hle
  · rw [Nat.sub_sub_self hle]
  · rw [Nat.sub_eq_zero_of_le hle, Nat.sub_zero, take_length, take_of_length_le hle]

/-- The main chain at a height, as a window records it. -/
lemma ChainInv.mainChainDiffBlock_eq (hn : ChainInv R n c) (h : ℕ) :
    n.db.mainChainDiffBlock h =
      (atHeight E.linking c h).map fun b => ofHeader b.header := by
  rw [mainChainDiffBlock, hn.getByHeight_eq]
  cases hat : atHeight E.linking c h with
  | none => rfl
  | some x =>
    have hx : x.header.height = h := (hn.mem_of_atHeight hat).2
    rw [← hx]
    rfl

/-- Main chain up to `t` and branch above it give the ancestry. -/
lemma ChainInv.assembleWindow_eq (hn : ChainInv R n (o ++ t :: s))
    (hq : Lineage E.linking n.db.get k (f ++ t :: s)) :
    n.db.assembleWindow t.height f.reverse (f ++ t :: s).length = ancestorWindow (f ++ t :: s) := by
  have hlength : (t :: s).length = t.height + 1 := congrArg (· + 1) hq.height_suffix.symm
  have hread : ∀ h : ℕ, (if h ≤ t.height then n.db.mainChainDiffBlock h
      else f.reverse[h - t.height - 1]?.map fun b => ofHeader b.header) =
      (f ++ t :: s).reverse[h]?.map fun b => ofHeader b.header := by
    intro h
    split
    case isTrue hle =>
      rw [hn.mainChainDiffBlock_eq, hq.getElem?_reverse, (hn.chain.atHeight_append_of_le hle).2,
        (hq.atHeight_append_of_le hle).2]
    case isFalse hgt =>
      rw [reverse_append, getElem?_append_right (by
        rw [length_reverse]
        omega), length_reverse, hlength, Nat.sub_sub]
  simp only [assembleWindow, hread]
  exact filterMap_windowHeights (f ++ t :: s) _

/-- A window below the top of the main part is the main chain's. -/
lemma Database.getDifficultyBlocks_eq (db : Database) (forkPoint height : ℕ)
    (h : height ≤ forkPoint + 1) (fork : List Block) :
    db.getDifficultyBlocks height = db.assembleWindow forkPoint fork height := by
  refine filterMap_congr fun x hx => ?_
  rw [windowHeights, mem_range'_1] at hx
  rw [if_pos (by omega)]

/-- The main-chain window of a canonical block is its ancestry's. -/
lemma ChainInv.getDifficultyBlocks_eq (hn : ChainInv R n (o ++ b :: q)) (hne : q ≠ []) :
    n.db.getDifficultyBlocks b.height = ancestorWindow q := by
  obtain ⟨t, s, rfl⟩ := exists_cons_of_ne_nil hne
  have hb := hn.chain.suffix_hash hn.key
  have hheight : b.height = (t :: s).length := hb.height_head
  have ht : t.height = s.length := hb.tail.height_head
  have hread := ChainInv.assembleWindow_eq (f := []) (show ChainInv R n ((o ++ [b]) ++ t :: s) by
    simpa using hn) hb.tail
  rw [n.db.getDifficultyBlocks_eq t.height b.height (by rw [hheight, ht, length_cons]) [],
    hheight]
  exact hread

/-- Where the walk of `fork_difficulty_window` stops. -/
def Database.windowStop (db : Database) (k : Hash) (a : Block) : Bool :=
  db.heightIndex[a.height]? = some k ∨ a.height = 0

lemma Database.windowLoop_eq_walk (db : Database) (fuel : ℕ) (visited : List Hash) (k : Hash) :
    db.windowLoop fuel visited k =
      match Walk.walk db.get Block.prevHash db.windowStop fuel visited k with
      | (l, .stopped k a) => if db.heightIndex[a.height]? = some k then (l.map Prod.snd, a.height)
        else (l.map Prod.snd ++ [a], 0)
      | (l, _) => (l.map Prod.snd, 0) := by
  induction fuel generalizing visited k with
  | zero => rfl
  | succ fuel ih =>
    unfold windowLoop Walk.walk
    split
    · rfl
    cases hget : db.get k with
    | none => rfl
    | some a =>
      simp only [windowStop]
      by_cases hmain : db.heightIndex[a.height]? = some k
      · simp [hmain]
      by_cases hzero : a.height = 0
      · simp [hzero]
      · simp only [hmain, hzero, if_false, false_or, decide_false, Bool.false_eq_true, ih]
        generalize Walk.walk db.get Block.prevHash db.windowStop fuel (k :: visited) a.prevHash = w
        obtain ⟨l, e⟩ := w
        cases e with
        | stopped k' a' =>
          dsimp only
          split <;> rfl
        | cycle | missing | exhausted => rfl

/-- The walk of `fork_difficulty_window` along a stored branch. -/
lemma ChainInv.windowLoop_eq (hn : ChainInv R n c)
    (hq : Lineage E.linking n.db.get k (f ++ t :: s)) (hf : ∀ x ∈ f, x ∉ c) (ht : t ∈ c) (fuel : ℕ)
    (hfuel : n.db.blocks.size < fuel) : n.db.windowLoop fuel [] k = (f, t.height) := by
  have hindex : ∀ x ∈ f ++ t :: s,
      (n.db.heightIndex[x.height]? = some (E.blockHash x) ↔ x ∈ c) := by
    intro x hx
    rw [hn.index, hn.map_atHeight_eq_iff (hq.get_of_mem hn.key hx)]
  have hmain := (hindex t (by simp)).mpr ht
  have hfound := hn.found hq n.db.windowStop
    (fun x hx hlt => by
      rw [Bool.eq_false_iff, Ne, windowStop, decide_eq_true_eq, hindex x (mem_append_left _ hx)]
      exact not_or.mpr ⟨hf x hx, by omega⟩)
    (by simp [windowStop, hmain])
  have hkeys : ∀ k a, n.db.get k = some a → k ∈ n.db.blocks.keys.toFinset := by
    intro k a h
    have hbody : n.db.blocks[k]? = some a := h
    rw [List.mem_toFinset, Std.TreeMap.mem_keys, Std.TreeMap.mem_iff_isSome_getElem?, hbody]
    rfl
  have hcard := toFinset_card_le n.db.blocks.keys
  rw [Std.TreeMap.length_keys] at hcard
  rw [windowLoop_eq_walk, hfound.walk_eq hkeys (lt_of_le_of_lt hcard hfuel)]
  simp [hmain, Function.comp_def]

/-- The window of an arriving block is that of its ancestry. -/
lemma ChainInv.forkDifficultyWindow_eq (hn : ChainInv R n c)
    (hq : Lineage E.linking n.db.get k q) (height : ℕ) (hheight : height = q.length) :
    n.db.forkDifficultyWindow k height = ancestorWindow q := by
  obtain ⟨o, f, t, s, rfl, rfl, hside⟩ := hn.exists_fork hq
  rw [forkDifficultyWindow, hn.windowLoop_eq hq hside (by simp) _ (by omega), hheight]
  exact hn.assembleWindow_eq hq

/-! ## The three windows -/

/-- A reorganisation that `b₁` started on `n` is in state `m`, has connected `earlier`, and comes to
`b`. -/
structure ReorgComesTo (R : Rules E) (n : Node) (b₁ : Block) (forkPoint : ℕ) (m : Node)
    (earlier : List Block) (b : Block) : Prop where
  point : reorgPoint R n b₁ = some forkPoint
  reached : ∃ m₁ d rest, disconnectTo E (n.storeBlock E b₁) forkPoint = some (m₁, d) ∧
    m₁.collectForkChain b₁ forkPoint ++ [b₁] = earlier ++ b :: rest ∧
    connectForkBlocks R forkPoint [] earlier m₁ = some (m, none)

/-- A block is checked with the window of its ancestry at the start. -/
lemma ReorgComesTo.window_eq (h : ReorgComesTo R n b1 forkPoint m earlier b) (hn : ChainInv R n c) :
    ∃ q, Lineage E.linking (n.storeBlock E b1).db.get b.prevHash q ∧ b.height = q.length ∧
      m.db.reorgDiffBlocks forkPoint earlier b.height = ancestorWindow q ∧
      ∃ o f t s g, ForkAt E (n.storeBlock E b1) c b1 o f t s ∧ b1 :: f ++ t :: s = g ++ b :: q := by
  obtain ⟨hpass, -, hdec⟩ := reorgPoint_eq_some.mp h.point
  obtain ⟨m1, d, rest, hd, hsplit, hconnect⟩ := h.reached
  have hn1 := hn.stored hpass
  obtain ⟨p, hp, hbp⟩ := hn.parent_lineage hpass
  obtain ⟨o, f, t, s, hf⟩ :=
    hn1.exists_forkAt (hp.mono (Node.get_storeBlock_mono hpass.new_body)) hbp
  obtain rfl : t.height = forkPoint := by
    obtain ⟨-, hfp, -⟩ := Node.forkDecision_eq_reorg.mp hdec
    rw [hf.findForkPoint_eq hn1] at hfp
    exact some.inj hfp
  have hcollect : m1.collectForkChain b1 t.height = f.reverse := by
    rw [(disconnectTo_kept hd).1.collectForkChain_eq, hn1.collectForkChain_eq hf.branch]
  have hdb : m.db = (n.storeBlock E b1).db :=
    ((disconnectTo_kept hd).1.trans (connectForkBlocks_kept hconnect).1).db
  -- Read from the block down, the branch is what is still to come, `b`, and `earlier`.
  have hbranch : b1 :: f = rest.reverse ++ b :: earlier.reverse := by
    have hrev := congrArg reverse hsplit
    rw [hcollect] at hrev
    simpa using hrev
  have hself : (n.storeBlock E b1).db.get (E.blockHash b1) = some b1 := by
    rw [Node.get_storeBlock, if_pos rfl]
  have hchain : Lineage E.linking (n.storeBlock E b1).db.get (E.blockHash b1)
      (rest.reverse ++ b :: (earlier.reverse ++ t :: s)) := by
    have hreorged := (hn1.reorged hf hself n.ledger).chain
    rw [show b1 :: f ++ t :: s = rest.reverse ++ b :: (earlier.reverse ++ t :: s) by
      rw [hbranch, append_assoc, cons_append]] at hreorged
    exact hreorged
  have hb := hchain.suffix_hash hn1.key
  obtain ⟨x, y, hxy⟩ : ∃ x y, earlier.reverse ++ t :: s = x :: y := by
    cases earlier.reverse <;> simp
  have hq : Lineage E.linking (n.storeBlock E b1).db.get b.prevHash
      (earlier.reverse ++ t :: s) := by
    rw [hxy] at hb ⊢
    exact hb.tail
  have hheight : b.height = (earlier.reverse ++ t :: s).length := hb.height_head
  refine ⟨_, hq, hheight, ?_, o, f, t, s, rest.reverse, hf, ?_⟩
  · have hn2 := hn1
    rw [hf.chain] at hn2
    have hwindow := hn2.assembleWindow_eq hq
    rw [reverse_reverse] at hwindow
    rw [hdb, hheight]
    exact hwindow
  · rw [hbranch, append_assoc, cons_append]

/-- A side block that becomes canonical through a reorganisation has one difficulty window: when it
arrived, when its target is checked inside the reorganisation, and on the main chain afterwards it
is its last 144 ancestors, oldest first. -/
theorem difficulty_windows_agree {pool : Option SparkPool} {n₀ n₁ n₂ m : Node} {b b₁ : Block}
    {txs : List Transaction} {forkPoint : ℕ} {earlier : List Block}
    (h₀ : Run.Reaches (step R) (fun _ _ => True) (genesisNode R pool) n₀) (hb : Passed R n₀ b)
    (h₁ : Run.Reaches (step R) (fun _ _ => True) n₀ n₁)
    (hreorg : addBlock R n₁ b₁ = some (n₂, .ok (.acceptedReorg txs)))
    (hcomes : ReorgComesTo R n₁ b₁ forkPoint m earlier b) :
    ∃ q, Lineage E.linking n₂.db.get (E.blockHash b) (b :: q) ∧
      n₀.db.forkDifficultyWindow b.prevHash b.height =
        (q.take (min 144 b.height)).reverse.map (fun x => ofHeader x.header) ∧
      m.db.reorgDiffBlocks forkPoint earlier b.height =
        (q.take (min 144 b.height)).reverse.map (fun x => ofHeader x.header) ∧
      n₂.db.getDifficultyBlocks b.height =
        (q.take (min 144 b.height)).reverse.map (fun x => ofHeader x.header) := by
  obtain ⟨c0, hn0, -⟩ := reaches_chain (genesisNode_chainInv R pool) h₀
  obtain ⟨c1, hn1, hgrows1⟩ := reaches_chain hn0 h₁
  obtain ⟨c2, hn2, -, hbranch⟩ := addBlock_chain hn1 hreorg
  obtain ⟨q, hq, hheight, hwindow, o', f', t', s', g, hf', hsplit⟩ := hcomes.window_eq hn1
  obtain ⟨o, f, t, s, hpass, hf, hpoint, rfl⟩ := hbranch txs rfl
  -- The branch of the outcome is the branch the walk found.
  have hsame : f ++ t :: s = f' ++ t' :: s' := hf.branch.unique hf'.branch
  rw [cons_append, hsame, ← cons_append, hsplit] at hn2
  -- The ancestry is the same in the smaller store of the arrival.
  obtain ⟨q0, hq0, hheight0⟩ := hn0.parent_lineage hb
  obtain rfl : q0 = q :=
    ((hq0.mono hgrows1).mono (Node.get_storeBlock_mono hpass.new_body)).unique hq
  have htake : q0.take (min 144 b.height) = q0.take longWindow := by
    rw [take_eq_take_iff]
    unfold longWindow
    omega
  refine ⟨q0, hn2.chain.suffix_hash hn2.key, ?_⟩
  rw [htake]
  exact ⟨hn0.forkDifficultyWindow_eq hq0 _ hheight0, hwindow,
    hn2.getDifficultyBlocks_eq hq0.ne_nil⟩

/-- Two blocks on genesis are replaced by a branch of three. -/
theorem difficulty_windows_agree_branch :
    ∃ n₀ n₂ m : Node, ∃ q : List Block,
      Lineage (sampleEnv .mainnet 0).linking n₂.db.get 3002 (sampleBlock 3 2 2002 (2 ^ 255) [] :: q) ∧
      n₀.db.forkDifficultyWindow 2002 3 = n₂.db.getDifficultyBlocks 3 ∧
      m.db.reorgDiffBlocks 0 [sampleBlock 1 2 0 (2 ^ 255) [], sampleBlock 2 2 1002 (2 ^ 255) []] 3
        = n₂.db.getDifficultyBlocks 3 ∧ (n₂.db.getDifficultyBlocks 3).length = 3 := by
  set R := openMainnet
  set f1 := sampleBlock 1 2 0 (2 ^ 255) []
  set f2 := sampleBlock 2 2 1002 (2 ^ 255) []
  set b := sampleBlock 3 2 2002 (2 ^ 255) []
  have hrun : ∃ n ∈ Run.exec (step R) (genesisNode R none)
      ([sampleBlock 1 1 0 (2 ^ 255) [], sampleBlock 2 1 1001 (2 ^ 255) [], f1, f2].map .addBlock),
      (preCheck R n b).isNone ∧ reorgPoint R n b = some 0 ∧
      (∃ p ∈ addBlock R n b, p.2 = .ok (.acceptedReorg []) ∧
        (p.1.db.getDifficultyBlocks 3).length = 3) ∧
      ∃ p ∈ disconnectTo (sampleEnv .mainnet 0) (n.storeBlock (sampleEnv .mainnet 0) b) 0,
        p.1.collectForkChain b 0 = [f1, f2] ∧
        ∃ r ∈ connectForkBlocks R 0 [] [f1, f2] p.1, r.2 = none := by
    decide +kernel
  obtain ⟨n₀, hexec, hpre, hpoint, ⟨⟨n₂, r⟩, hadd, rfl, hlen⟩, ⟨m₁, d⟩, hm, hfork, ⟨m, e⟩, hconnect,
    rfl⟩ := hrun
  have hcomes : ReorgComesTo R n₀ b 0 m [f1, f2] b := ⟨hpoint, m₁, d, [], hm, by rw [hfork], hconnect⟩
  obtain ⟨q, hq, harrival, hinside, hafter⟩ := difficulty_windows_agree (Run.reaches_of_exec hexec)
    (preCheck_eq_none.mp (isNone_iff_eq_none.mp hpre)) .refl hadd hcomes
  exact ⟨n₀, n₂, m, q, hq, harrival.trans hafter.symm, hinside.trans hafter.symm, hlen⟩

end CoinCync

import CoinCync.Reorg

/-!
# What adding a block can do

`Added R n c b n' r c'` lists every way `add_block` can take a node with canonical chain `c` to a
node `n'` with result `r` and canonical chain `c'`. Every invariant of the node is proved by cases
on it.
-/

namespace CoinCync

open Node

variable {E : Env} {R : Rules E} {n n' : Node} {b : Block} {c c' : List Block} {r : AddResult}

/-- The fork point of the reorganisation on `b`, if any. -/
def reorgPoint (R : Rules E) (n : Node) (b : Block) : Option ℕ :=
  if (preCheck R n b).isNone ∧ !n.isMainChain b then
    match (n.storeBlock E b).forkDecision E b with
    | .reorg forkPoint => some forkPoint
    | _ => none
  else none

lemma reorgPoint_eq_some : reorgPoint R n b = some forkPoint ↔
    Passed R n b ∧ n.isMainChain b = false ∧
      (n.storeBlock E b).forkDecision E b = .reorg forkPoint := by
  have hentered : (preCheck R n b).isNone ∧ (!n.isMainChain b) = true ↔
      Passed R n b ∧ n.isMainChain b = false := by
    rw [Option.isNone_iff_eq_none, preCheck_eq_none, Bool.not_eq_true']
  unfold reorgPoint
  constructor
  · intro h
    split at h
    · rename_i hin
      obtain ⟨hb, hside⟩ := hentered.mp hin
      split at h
      · rename_i fp hdec
        cases h
        exact ⟨hb, hside, hdec⟩
      · simp at h
    · simp at h
  · rintro ⟨hb, hside, hdec⟩
    rw [if_pos (hentered.mpr ⟨hb, hside⟩), hdec]

/-- Canonical blocks above the height are cached under it. -/
def CachedAbove (n : Node) (height : ℕ) : Prop :=
  ∀ h, height < h → h ≤ n.tip.height → (n.cachedBlock h).isSome

/-- A reorganisation on `b` finds what it disconnects in the cache. -/
def ReorgCached (R : Rules E) (n : Node) (b : Block) : Prop :=
  ∀ forkPoint, reorgPoint R n b = some forkPoint → CachedAbove n forkPoint

instance (n : Node) (height : ℕ) : Decidable (CachedAbove n height) :=
  decidable_of_iff (∀ h ∈ heightsAbove height n.tip.height, (n.cachedBlock h).isSome) (by
    simp only [CachedAbove, mem_heightsAbove, and_imp])

instance (R : Rules E) (n : Node) (b : Block) : Decidable (ReorgCached R n b) :=
  inferInstanceAs (Decidable (∀ forkPoint ∈ reorgPoint R n b, _))

/-- A block that extends the tip starts no reorganisation. -/
lemma ReorgCached.of_isMainChain (h : n.isMainChain b = true) : ReorgCached R n b := by
  intro forkPoint hpoint
  simp [reorgPoint, h] at hpoint

/-- The ways `add_block` can go. -/
inductive Added (R : Rules E) (n : Node) (c : List Block) (b : Block) :
    Node → AddResult → List Block → Prop
  | stopped {r : AddResult} : preCheck R n b = some r → Added R n c b n r c
  | stored {r : AddResult} : Passed R n b → reorgPoint R n b = none → r ≠ .ok .accepted →
      (∀ txs, r ≠ .ok (.acceptedReorg txs)) → Added R n c b (n.storeBlock E b) r c
  | extended {n' : Node} {l : Ledger} : Passed R n b → b.prevHash = n.tip.hash →
      n.ledger.connect E b = some l →
      Forgets (((n.storeBlock E b).extendedWith E b l).commitBlock E b) n' →
      Added R n c b n' (.ok .accepted) (b :: c)
  | failed {n' : Node} {o f g rest s : List Block} {t : Block} {l₁ l₂ l₃ : Ledger}
      {e : ReorgFailure} : Passed R n b → ForkAt E (n.storeBlock E b) c b o f t s →
      reorgPoint R n b = some t.height → Covered E (n.storeBlock E b) o →
      f.reverse = g ++ rest → Ledger.disconnectAll E o n.ledger = some l₁ →
      Ledger.Connects R (t :: s) g l₁ l₂ → Ledger.disconnectAll E g.reverse l₂ = some l₃ →
      ReorgFails R (n.storeBlock E b) b t s f.reverse l₁ e →
      Restored E (n.storeBlock E b) o l₃ n' →
      Added R n c b n' (.ok (.invalid (.reorg e))) c
  | reorged {o f s : List Block} {t : Block} {l₁ l₂ : Ledger} {txs : List Transaction} :
      Passed R n b → ForkAt E (n.storeBlock E b) c b o f t s →
      reorgPoint R n b = some t.height → Covered E (n.storeBlock E b) o →
      Ledger.disconnectAll E o n.ledger = some l₁ →
      Ledger.Connects R (t :: s) (newBranch f b) l₁ l₂ →
      Added R n c b ((n.storeBlock E b).reorged E b o f l₂) (.ok (.acceptedReorg txs))
        (b :: f ++ t :: s)

/-! ## Every call is one of them -/

/-- Cached heights of the canonical chain give its blocks. -/
lemma ChainInv.covered (hn : ChainInv R n (o ++ t :: s)) (hcached : CachedAbove n t.height) :
    Covered E n o := by
  intro x hx
  have hlo : t.height < x.height := hn.chain.height_lt_of_mem_above hx
  have hhi : x.height ≤ n.tip.height := by
    have hlt : x.height < (o ++ t :: s).length := hn.chain.height_lt_length (by simp [hx])
    have := hn.tip_height
    omega
  obtain ⟨y, hy⟩ := Option.isSome_iff_exists.mp (hcached x.height hlo hhi)
  rw [cachedBlock, Option.bind_eq_some_iff] at hy
  obtain ⟨k, hk, hy⟩ := hy
  obtain ⟨z, hz, hzh, rfl⟩ := hn.heightToHash_eq_some hk
  have hzx : z = x := hn.chain.eq_of_height hz (List.mem_append_left _ hx) hzh
  subst z
  have hyx : y = x := Option.some.inj
    ((hn.cache_sub _ _ hy).symm.trans (hn.get_of_mem hz))
  subst y
  exact ⟨hk, hy⟩

lemma CachedAbove.storeBlock (hc : CachedAbove n h) (b : Block) :
    CachedAbove (n.storeBlock E b) h := by
  intro x hlo hhi
  obtain ⟨y, hy⟩ := Option.isSome_iff_exists.mp (hc x hlo hhi)
  rw [cachedBlock, Option.bind_eq_some_iff] at hy
  obtain ⟨k, hk, hy⟩ := hy
  have hk' : (n.storeBlock E b).heightToHash[x]? = some k := hk
  rw [cachedBlock, hk', Option.bind_some, blocks_storeBlock]
  split
  · rfl
  · rw [hy]
    rfl

/-- The branch a stored block sits on. -/
lemma ChainInv.exists_forkAt (hn : ChainInv R n c) (hq : Lineage E.linking n.db.get b.prevHash q)
    (hb : b.height = q.length) : ∃ o f t s, ForkAt E n c b o f t s := by
  obtain ⟨o, f, t, s, hc, hqf, hside⟩ := hn.exists_fork hq
  subst hqf
  exact ⟨o, f, t, s, hc, hq, hb, hside⟩

lemma ForkAt.findForkPoint_eq (hf : ForkAt E n c b o f t s) (hn : ChainInv R n c) :
    n.findForkPoint b = some t.height := by
  refine hn.findForkPoint_eq hf.branch hf.side ?_
  rw [hf.chain]
  simp

/-- Storing a block that passed. -/
lemma ChainInv.stored (hn : ChainInv R n c) (hb : Passed R n b) :
    ChainInv R (n.storeBlock E b) c := by
  obtain ⟨q, hq, hbq⟩ := hn.parent_lineage hb
  exact hn.storeBlock hb.new_body hq hbq

/-- The branches of `add_block`. -/
lemma addBlock_cases (hn : ChainInv R n c) (h : addBlock R n b = some (n', r)) :
    (preCheck R n b = some r ∧ n' = n) ∨
    (Passed R n b ∧ reorgPoint R n b = none ∧ n' = n.storeBlock E b ∧ r ≠ .ok .accepted ∧
      ∀ txs, r ≠ .ok (.acceptedReorg txs)) ∨
    (Passed R n b ∧ b.prevHash = n.tip.hash ∧ r = .ok .accepted ∧
      ∃ l, n.ledger.connect E b = some l ∧
        Forgets (((n.storeBlock E b).extendedWith E b l).commitBlock E b) n') ∨
    (Passed R n b ∧ ∃ o f t s, ForkAt E (n.storeBlock E b) c b o f t s ∧
      reorgPoint R n b = some t.height ∧
      reorganize R (n.storeBlock E b) b t.height = some (n', r)) := by
  unfold addBlock at h
  cases hpre : preCheck R n b with
  | some r' =>
    rw [hpre] at h
    cases h
    exact .inl ⟨rfl, rfl⟩
  | none =>
    rw [hpre] at h
    have hpass := preCheck_eq_none.mp hpre
    obtain ⟨q, hq, hbq⟩ := hn.parent_lineage hpass
    by_cases hmain : n.isMainChain b = true
    · -- the main-chain branch
      have hnot : reorgPoint R n b = none := by
        simp [reorgPoint, hmain]
      rw [if_pos hmain] at h
      rcases connectTip_eq_some h with ⟨rfl, rfl⟩ | ⟨l, -, hl, rfl, hforget⟩
      · exact .inr (.inl ⟨hpass, hnot, rfl, by simp, by simp⟩)
      · have hprev : b.prevHash = n.tip.hash := by
          have hne : b.height ≠ 0 := by
            have := List.length_pos_of_ne_nil hq.ne_nil
            omega
          simpa [isMainChain, hne] using hmain
        exact .inr (.inr (.inl ⟨hpass, hprev, rfl, l, hl, hforget⟩))
    · -- the fork branch
      have hpoint : ∀ d, (n.storeBlock E b).forkDecision E b = d → reorgPoint R n b
          = match d with | .reorg fp => some fp | _ => none := by
        rintro d rfl
        simp [reorgPoint, hpre, hmain]
      rw [if_neg hmain] at h
      unfold considerFork at h
      cases hdec : (n.storeBlock E b).forkDecision E b with
      | keep =>
        rw [hdec] at h
        cases h
        exact .inr (.inl ⟨hpass, hpoint _ hdec, rfl, by simp, by simp⟩)
      | refuse e =>
        rw [hdec] at h
        cases h
        exact .inr (.inl ⟨hpass, hpoint _ hdec, rfl, by simp, by simp⟩)
      | reorg fp =>
        rw [hdec] at h
        have hq1 := hq.mono (get_storeBlock_mono hpass.new_body)
        obtain ⟨o, f, t, s, hf⟩ := (hn.stored hpass).exists_forkAt hq1 hbq
        obtain ⟨-, hfp, -⟩ := forkDecision_eq_reorg.mp hdec
        obtain rfl : t.height = fp := by
          rw [hf.findForkPoint_eq (hn.stored hpass)] at hfp
          exact Option.some.inj hfp
        exact .inr (.inr (.inr ⟨hpass, o, f, t, s, hf, hpoint _ hdec, h⟩))

/-- Every call is one of them. -/
lemma addBlock_added (hn : ChainInv R n c) (hcached : ReorgCached R n b)
    (h : addBlock R n b = some (n', r)) : ∃ c', Added R n c b n' r c' := by
  rcases addBlock_cases hn h with ⟨hpre, rfl⟩ | ⟨hpass, hnot, rfl, hext, hreorg⟩ |
    ⟨hpass, hprev, rfl, l, hl, hforget⟩ | ⟨hpass, o, f, t, s, hf, hp, hr⟩
  · exact ⟨c, .stopped hpre⟩
  · exact ⟨c, .stored hpass hnot hext hreorg⟩
  · exact ⟨b :: c, .extended hpass hprev hl hforget⟩
  · have hn1 := hn.stored hpass
    have hcov : Covered E (n.storeBlock E b) o := by
      have hn2 := hn1
      rw [hf.chain] at hn2
      exact hn2.covered ((hcached _ hp).storeBlock b)
    have hb : (n.storeBlock E b).db.get (E.blockHash b) = some b := by
      rw [get_storeBlock, if_pos rfl]
    obtain ⟨l1, hl1, hcase⟩ := reorganize_cases hn1 hf hcov hb hr
    rcases hcase with ⟨e, g, rest, l2, l3, hg, hl2, hl3, rfl, hfail, hres⟩
      | ⟨l2, txs, hl2, rfl, rfl⟩
    · exact ⟨c, .failed hpass hf hp hcov hg hl1 hl2 hl3 hfail hres⟩
    · exact ⟨_, .reorged hpass hf hp hcov hl1 hl2⟩

/-! ## The canonical chain -/

/-- A failed reorganisation keeps the canonical chain. -/
lemma ChainInv.of_restored (hn : ChainInv R n c) (hres : Restored E n o l n') :
    ChainInv R n' c := by
  have hblocks : n'.blocks = n.blocks := by rw [hres.eq]
  refine hn.of_view (congrArg view hres.eq :) (by rw [hblocks]; exact hn.cache_sub) fun h k hk => ?_
  exact hn.height_map h k ((hres.heights h).symm.trans hk)

/-- Only the tip can be the parent of an extension. -/
lemma ChainInv.lineage_tip (hn : ChainInv R n c) (hb : Passed R n b)
    (hprev : b.prevHash = n.tip.hash) :
    Lineage E.linking (n.storeBlock E b).db.get (E.blockHash b) (b :: c) := by
  obtain ⟨q, hq, hbq⟩ := hn.parent_lineage hb
  have hqc : q = c := by
    rw [hprev] at hq
    exact hq.unique hn.chain
  subst q
  exact ChainInv.lineage_storeBlock hb.new_body hq hbq

/-- A block on the tip is validated against the canonical head. -/
lemma ChainInv.valid_head (hn : ChainInv R n c) (hb : Passed R n b)
    (hprev : b.prevHash = n.tip.hash) :
    R.validateBlockCtx b c.head? n.utxos n.db.assumeValid true = .valid := by
  obtain ⟨a, r, rfl, -⟩ := hn.exists_head
  have hvalid := hb.valid_tip hprev
  rwa [hn.getBlock_eq, hprev, hn.chain.get_head] at hvalid

/-- A call changes nothing, or leaves the bodies with the block's. -/
lemma Added.get_eq (h : Added R n c b n' r c') :
    (n' = n ∧ c' = c ∧ ¬ Passed R n b) ∨
      (Passed R n b ∧ n'.db.get = (n.storeBlock E b).db.get) := by
  cases h with
  | stopped hpre =>
    refine .inl ⟨rfl, rfl, fun hb => ?_⟩
    rw [preCheck_eq_none.mpr hb] at hpre
    simp at hpre
  | stored hb | reorged hb => exact .inr ⟨hb, rfl⟩
  | extended hb _ _ hforget =>
    rw [hforget.eq]
    exact .inr ⟨hb, rfl⟩
  | failed hb _ _ _ _ _ _ _ _ hres =>
    rw [hres.eq]
    exact .inr ⟨hb, rfl⟩

/-- Adding a block leaves the chain the outcome names. -/
lemma Added.chainInv (h : Added R n c b n' r c') (hn : ChainInv R n c) : ChainInv R n' c' := by
  cases h with
  | stopped => exact hn
  | stored hb => exact hn.stored hb
  | extended hb hprev _ hforget =>
    exact ((hn.stored hb).extendedWith (hn.lineage_tip hb hprev) _).forgets hforget
  | failed hb _ _ _ _ _ _ _ _ hres => exact (hn.stored hb).of_restored hres
  | reorged hb hf =>
    refine (hn.stored hb).reorged hf ?_ _
    rw [get_storeBlock, if_pos rfl]

end CoinCync

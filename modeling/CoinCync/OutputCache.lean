import CoinCync.NeverExtended

/-!
# The output index read through its cache

`get_output_index_entry` looks into memory first and on disk second. `evict_old_outputs` takes a row
out of memory only, so the next output with that address passes the `or_insert` of `add_output_ext`
and shadows the older row on disk until a restart. The disk also refuses a row whose output unlocks
before it is made, which the memory does not look at.
-/

namespace CoinCync

open UtxoSet

variable {E : Env} {b : Block}

/-! ## Operations -/

/-- A set with its database and its blocks, newest first. -/
structure CachedIndex where
  utxos : UtxoSet
  chain : List Block

/-- What happens to it. -/
inductive CachedIndex.Op
  | connect (b : Block)
  | disconnect
  | evict (currentHeight keepDepth : ℕ)
  | restart (currentHeight keepDepth : ℕ)

/-- A start over a database: the chain replayed into an empty memory. -/
def UtxoSet.replayOver (E : Env) (db : PublicKey → Option OutputIndexEntry) : List Block → UtxoSet
  | [] => { empty with db := db }
  | b :: c => (replayOver E db c).connectBlock E b.height b.transactions

namespace CachedIndex

/-- The start. -/
def empty : CachedIndex := ⟨UtxoSet.empty, []⟩

/-- Connecting writes rows by `OutputIndexDb::insert`, which keeps old ones. -/
def step (E : Env) (s : CachedIndex) : Op → Option CachedIndex
  | .connect b =>
    let u := s.utxos.connectBlock E b.height b.transactions
    some ⟨{ u with db := insertRows u.db (outputRows b.height b.transactions) }, b :: s.chain⟩
  | .disconnect => match s.chain with
    | [] => none
    | b :: c => some ⟨s.utxos.disconnectBlock E b.transactions, c⟩
  | .evict currentHeight keepDepth =>
    some ⟨s.utxos.evictOldOutputs currentHeight keepDepth, s.chain⟩
  | .restart currentHeight keepDepth =>
    some ⟨(replayOver E s.utxos.db s.chain).evictOldOutputs currentHeight keepDepth, s.chain⟩

/-- A block that repeats nothing, with addresses new or in memory and rows that read back. -/
def NewOrCached (E : Env) (s : CachedIndex) : Op → Prop
  | .connect b => FreshFor E b.transactions s.utxos.toUtxoCore ∧
      (∀ r ∈ outputRows b.height b.transactions,
        s.utxos.db r.1 = none ∨ s.utxos.outputIndex r.1 ≠ none) ∧
      ∀ r ∈ outputRows b.height b.transactions, r.2.validate
  | _ => True

/-! ## The cache follows the disk, and the disk the chain -/

/-- Tables are the replay of a chain without repetitions, rows its oldest outputs', and the memory
agrees. -/
structure Follows (E : Env) (s : CachedIndex) : Prop where
  replayed : s.utxos.toUtxoCore = replayUtxos E s.chain
  fresh : ∀ b r, b :: r <:+ s.chain → FreshFor E b.transactions (replayUtxos E r)
  rows : ∀ x, s.utxos.db x = oldestRow s.chain.reverse x
  cached : s.utxos.IndexCached

end CachedIndex

/-- Its tables are the replay. -/
lemma UtxoSet.toUtxoCore_replayOver (db : PublicKey → Option OutputIndexEntry) (c : List Block) :
    (replayOver E db c).toUtxoCore = replayUtxos E c := by
  induction c with
  | nil => rfl
  | cons b c ih => rw [replayOver, toUtxoCore_connectBlock, ih, replayUtxos_cons]

lemma UtxoSet.db_replayOver (db : PublicKey → Option OutputIndexEntry) (c : List Block) :
    (replayOver E db c).db = db := by
  induction c with
  | nil => rfl
  | cons b c ih => rw [replayOver, db_connectBlock, ih]

/-- The replay evicts nothing, so memory has the oldest outputs. -/
lemma UtxoSet.outputIndex_replayOver (db : PublicKey → Option OutputIndexEntry) (c : List Block)
    (x : PublicKey) : (replayOver E db c).outputIndex x = oldestRow c.reverse x := by
  induction c with
  | nil => rfl
  | cons b c ih =>
    rw [replayOver, outputIndex_connectBlock_eq, ih, oldestRow_reverse_cons]

namespace CachedIndex

variable {s s' : CachedIndex}

lemma Follows.evict (hs : s.Follows E) (h k : ℕ) :
    Follows E ⟨s.utxos.evictOldOutputs h k, s.chain⟩ where
  replayed := by rw [toUtxoCore_evictOldOutputs, hs.replayed]
  fresh := hs.fresh
  rows := by
    intro x
    rw [db_evictOldOutputs]
    exact hs.rows x
  cached := by
    refine ⟨fun x e he => ?_, ?_⟩
    · rw [db_evictOldOutputs]
      exact hs.cached.onDisk x e (outputIndex_of_evictOldOutputs he)
    · rw [db_evictOldOutputs]
      exact hs.cached.readable

lemma Follows.replayOver (hs : s.Follows E) :
    Follows E ⟨replayOver E s.utxos.db s.chain, s.chain⟩ where
  replayed := toUtxoCore_replayOver _ _
  fresh := hs.fresh
  rows := by
    intro x
    rw [db_replayOver]
    exact hs.rows x
  cached := by
    refine ⟨fun x e he => ?_, ?_⟩
    · rw [outputIndex_replayOver] at he
      rw [db_replayOver, hs.rows x, he]
    · rw [db_replayOver]
      exact hs.cached.readable

lemma Follows.step (hs : s.Follows E) (hok : s.NewOrCached E op) (h : s.step E op = some s') :
    s'.Follows E := by
  cases op with
  | connect b =>
    obtain ⟨hfresh, hwindow, hread⟩ := hok
    cases h
    have hdb : ∀ x, insertRows (s.utxos.connectBlock E b.height b.transactions).db
        (outputRows b.height b.transactions) x
          = (s.utxos.db x).or ((outputRows b.height b.transactions).lookup x) := by
      intro x
      rw [insertRows_eq, db_connectBlock]
    exact {
      replayed := by
        rw [toUtxoCore_connectBlock, hs.replayed, replayUtxos_cons]
      fresh := by
        intro x r hx
        rcases List.suffix_cons_iff.mp hx with heq | hx
        · obtain ⟨rfl, rfl⟩ := List.cons.inj heq
          rw [← hs.replayed]
          exact hfresh
        · exact hs.fresh x r hx
      rows := by
        intro x
        show insertRows _ _ x = _
        rw [hdb, hs.rows x, oldestRow_reverse_cons]
      cached := by
        refine ⟨fun x e he => ?_, fun x e he => ?_⟩
        · show insertRows _ _ x = _
          rw [hdb]
          exact hs.cached.connectBlock hwindow he
        · exact hs.cached.readable_or hread ((hdb x).symm.trans he) }
  | disconnect =>
    obtain ⟨u, chain⟩ := s
    cases chain with
    | nil => simp [step] at h
    | cons b c =>
      cases h
      have hfresh := hs.fresh b c (List.suffix_refl _)
      have hcore : u.toUtxoCore = replayUtxos E (b :: c) := hs.replayed
      exact {
        replayed := by
          rw [toUtxoCore_disconnectBlock, hcore, replayUtxos_cons,
            UtxoCore.disconnectBlock_connectBlock (replayUtxos_wellFormed c) _ hfresh]
        fresh := fun x r hx => hs.fresh x r (hx.trans (List.suffix_cons b c))
        rows := rows_disconnectBlock hs.rows hcore hfresh
        cached := hs.cached.disconnectBlock b.transactions }
  | evict h k =>
    cases h
    exact hs.evict _ _
  | restart h k =>
    cases h
    exact hs.replayOver.evict _ _

lemma follows_empty (E : Env) : Follows E CachedIndex.empty where
  replayed := rfl
  fresh := by
    intro b r hr
    simp [empty] at hr
  rows := fun _ => rfl
  cached := by
    refine ⟨fun x e he => ?_, fun x e he => ?_⟩ <;> simp [empty, UtxoSet.empty] at he

/-- Then the cache is transparent. -/
lemma Follows.getOutputIndexEntry (hs : s.Follows E) (x : PublicKey) :
    s.utxos.getOutputIndexEntry x = oldestRow s.chain.reverse x := by
  rw [hs.cached.getOutputIndexEntry_eq]
  exact hs.rows x

end CachedIndex

/-- In every run whose blocks bring addresses that are new or in memory and rows that read back, the
index answers with the oldest connected output of an address, and so does the node restarted on the
same chain. -/
theorem getOutputIndexEntry_of_reaches {s : CachedIndex}
    (h : Run.Reaches (CachedIndex.step E) (CachedIndex.NewOrCached E) CachedIndex.empty s)
    (x : PublicKey) :
    s.utxos.getOutputIndexEntry x = oldestRow s.chain.reverse x ∧
      ∀ currentHeight keepDepth s', s.step E (.restart currentHeight keepDepth) = some s' →
        s'.utxos.getOutputIndexEntry x = s.utxos.getOutputIndexEntry x := by
  have hs : s.Follows E := h.invariant (CachedIndex.follows_empty E)
    fun _ _ _ ht hok hstep => ht.step hok hstep
  refine ⟨hs.getOutputIndexEntry x, fun h k s' hs' => ?_⟩
  cases hs'
  rw [hs.getOutputIndexEntry]
  exact (hs.replayOver.evict h k).getOutputIndexEntry x

/-- Two blocks pay one address while it is in memory; then the index is evicted. -/
theorem getOutputIndexEntry_of_shared_address :
    ∃ s, Run.Reaches (CachedIndex.step (sampleEnv .mainnet 1))
        (CachedIndex.NewOrCached (sampleEnv .mainnet 1)) CachedIndex.empty s ∧
      s.utxos.outputIndex 5 = none ∧ s.utxos.getOutputIndexEntry 5 = some ⟨0, 1, true, none⟩ := by
  have h : Run.Reaches (CachedIndex.step (sampleEnv .mainnet 1))
      (CachedIndex.NewOrCached (sampleEnv .mainnet 1)) CachedIndex.empty _ :=
    ((Run.Reaches.refl.tail (i := .connect (sampleBlock 1 1 0 1 [payTo 5 1]))
      ⟨⟨by decide, by decide, by decide⟩, by decide, by decide⟩ rfl).tail
      (i := .connect (sampleBlock 2 2 1 1 [payTo 5 2]))
      ⟨⟨by decide, by decide, by decide⟩, by decide, by decide⟩ rfl).tail (i := .evict 1002 1000) trivial rfl
  exact ⟨_, h, rfl, (getOutputIndexEntry_of_reaches h 5).1.trans rfl⟩

/-- An address paid at height 1 and again at height 1003, when the first row has left the memory:
the running node answers with the second output, a restarted one with the first. -/
theorem evicted_row_shadowed :
    ∃ s ∈ Run.exec (CachedIndex.step (sampleEnv .mainnet 1)) CachedIndex.empty
        (.connect (sampleBlock 1 1 0 1 [payTo 5 1])
          :: (List.range 1001).map (fun i => .connect (sampleBlock (i + 2) (i + 2) (i + 1) 1 []))
          ++ [.evict 1002 1000, .connect (sampleBlock 1003 1003 1002 1 [payTo 5 2])]),
      ∃ s' ∈ s.step (sampleEnv .mainnet 1) (.restart 1003 1000),
        oldestRow s.chain.reverse 5 = some ⟨0, 1, true, none⟩ ∧
        s.utxos.getOutputIndexEntry 5 = some ⟨0, 1003, true, none⟩ ∧
        s'.utxos.getOutputIndexEntry 5 = some ⟨0, 1, true, none⟩ := by
  decide +kernel

end CoinCync

import CoinCync.Recovery
import CoinCync.Transitions

/-!
# Replaying an indexed chain

The rebuild loop over a height index that names linked blocks applies every one of them
(`rebuildLoop_linked`); whatever the index holds, the loop either leaves tip, totals and database
alone or truncates (`rebuildLoop_cases`).
-/

namespace CoinCync

open List Option UtxoSet Node Rebuild

variable {E : Env} {R : Rules E} {n n' : Node}
variable {bs : List Block}

/-! ## The rebuild loop -/

/-- Blocks, oldest first, that link by hash. -/
def Linked (E : Env) (bs : List Block) : Prop := bs.IsChain fun a b => b.prevHash = E.blockHash a

/-- The UTXO tables after `bs` at the heights from `i` on. -/
def replayFrom (E : Env) : ℕ → List Block → UtxoCore → UtxoCore
  | _, [], u => u
  | i, b :: bs, u => replayFrom E (i + 1) bs (u.connectBlock E i b.transactions)

/-- The loop state after `bs` at the heights from `i` on. -/
def Rebuild.applyFrom (E : Env) (cacheStart : ℕ) : ℕ → List Block → Rebuild → Rebuild
  | _, [], r => r
  | i, b :: bs, r => applyFrom E cacheStart (i + 1) bs (r.applyBlock E i cacheStart b)

lemma Rebuild.db_applyBlock (r : Rebuild) (h cs : ℕ) (b : Block) :
    (r.applyBlock E h cs b).node.db = r.node.db := by
  unfold applyBlock
  split <;> rfl

/-- Over linked indexed blocks the loop applies each and goes on. -/
lemma rebuildLoop_linked (rest : List ℕ) (i : ℕ) (r : Rebuild)
    (hidx : ∀ j b, bs[j]? = some b → r.node.db.getByHeight (i + j) = some b)
    (hfirst : ∀ b, bs.head? = some b → 0 < i → b.prevHash = r.prevHash) (hl : Linked E bs) :
    rebuildLoop E T cs (List.range' i bs.length ++ rest) r
      = rebuildLoop E T cs rest (r.applyFrom E cs i bs) := by
  induction bs generalizing i r with
  | nil => rfl
  | cons b bs ih =>
    have hget : r.node.db.getByHeight i = some b := hidx 0 b rfl
    have hlink : ¬ (0 < i ∧ b.prevHash ≠ r.prevHash) := fun h => h.2 (hfirst b rfl h.1)
    rw [length_cons, range'_succ, cons_append, rebuildLoop]
    simp only [hget, if_neg hlink]
    refine ih (i + 1) (r.applyBlock E i cs b) ?_ ?_ hl.tail
    · intro j x hx
      rw [db_applyBlock, add_right_comm i 1 j]
      exact hidx (j + 1) x hx
    · intro x hx _
      cases bs with
      | nil => simp at hx
      | cons y bs =>
        obtain rfl : y = x := by simpa using hx
        exact (isChain_cons_cons.mp hl).1

/-- The next expected hash is the last applied block's. -/
lemma Rebuild.prevHash_applyFrom (cs i : ℕ) (r : Rebuild) (hb : bs.getLast? = some b) :
    (r.applyFrom E cs i bs).prevHash = E.blockHash b := by
  induction bs generalizing i r with
  | nil => simp at hb
  | cons x bs ih =>
    cases bs with
    | nil =>
      obtain rfl : x = b := by simpa using hb
      rfl
    | cons y bs => exact ih (i + 1) _ (by simpa using hb)

/-- What applying `bs` from height `i` on leaves. -/
structure Rebuild.Applied (E : Env) (i : ℕ) (bs : List Block) (r r' : Rebuild) : Prop where
  eq : r'.node = { r.node with
    blocks := r'.node.blocks, heightToHash := r'.node.heightToHash, utxos := r'.node.utxos }
  utxos : r'.node.utxos.toUtxoCore = replayFrom E i bs r.node.utxos.toUtxoCore
  rows : r'.node.utxos.db = r.node.utxos.db
  blocks : ∀ (k : Hash) (b : Block), r'.node.blocks[k]? = some b →
    r.node.blocks[k]? = some b ∨ b ∈ bs ∧ E.blockHash b = k
  heights : ∀ (h : ℕ) (k : Hash), r'.node.heightToHash[h]? = some k →
    r.node.heightToHash[h]? = some k ∨ ∃ j b, bs[j]? = some b ∧ i + j = h ∧ E.blockHash b = k

lemma Rebuild.applied_applyBlock (r : Rebuild) (i cs : ℕ) (b : Block) :
    Rebuild.Applied E i [b] r (r.applyBlock E i cs b) := by
  unfold applyBlock
  by_cases hcs : cs ≤ i
  · simp only [if_pos hcs]
    refine ⟨rfl, toUtxoCore_connectBlock _ _ _, db_connectBlock _ _ _, ?_, ?_⟩
    · intro k x hx
      rcases Table.insert_cases hx with ⟨rfl, rfl⟩ | hx
      · exact .inr ⟨by simp, rfl⟩
      · exact .inl hx
    · intro h k hk
      rcases Table.insert_cases hk with ⟨rfl, rfl⟩ | hk
      · exact .inr ⟨0, b, rfl, rfl, rfl⟩
      · exact .inl hk
  · simp only [if_neg hcs]
    exact ⟨rfl, toUtxoCore_connectBlock _ _ _, db_connectBlock _ _ _,
      fun _ _ h => .inl h, fun _ _ h => .inl h⟩

/-- A block, then the rest. -/
lemma Rebuild.Applied.cons (h1 : Rebuild.Applied E i [b] r r1)
    (h2 : Rebuild.Applied E (i + 1) bs r1 r2) :
    Rebuild.Applied E i (b :: bs) r r2 where
  eq := by rw [h2.eq, h1.eq]
  utxos := by rw [h2.utxos, h1.utxos]; rfl
  rows := h2.rows.trans h1.rows
  blocks := by
    intro k x hx
    rcases h2.blocks k x hx with hx | ⟨hx, hk⟩
    · rcases h1.blocks k x hx with hx | ⟨hx, hk⟩
      · exact .inl hx
      · exact .inr ⟨by simpa using .inl (mem_singleton.mp hx), hk⟩
    · exact .inr ⟨mem_cons_of_mem _ hx, hk⟩
  heights := by
    intro h k hk
    rcases h2.heights h k hk with hk | ⟨j, x, hx, hj, hk⟩
    · rcases h1.heights h k hk with hk | ⟨j, x, hx, hj, hk⟩
      · exact .inl hk
      · obtain rfl : j = 0 := by
          have := (List.getElem?_eq_some_iff.mp hx).1
          simpa using this
        exact .inr ⟨0, x, hx, hj, hk⟩
    · exact .inr ⟨j + 1, x, hx, by omega, hk⟩

lemma Rebuild.applied_applyFrom (cs i : ℕ) (bs : List Block) (r : Rebuild) :
    Rebuild.Applied E i bs r (r.applyFrom E cs i bs) := by
  induction bs generalizing i r with
  | nil => exact ⟨rfl, rfl, rfl, fun _ _ h => .inl h, fun _ _ h => .inl h⟩
  | cons b bs ih => exact (r.applied_applyBlock i cs b).cons (ih (i + 1) _)

/-- Loop states that differ in cache and UTXO set only. -/
def Rebuild.SameBase (r r' : Rebuild) : Prop :=
  ∃ bs hs us, r'.node = { r.node with blocks := bs, heightToHash := hs, utxos := us }

lemma Rebuild.SameBase.trans {r1 : Rebuild} (h : r1.SameBase r2) (h' : r2.SameBase r3) :
    r1.SameBase r3 := by
  obtain ⟨_, _, _, h⟩ := h
  obtain ⟨_, _, _, h'⟩ := h'
  exact ⟨_, _, _, by rw [h', h]⟩

/-- The loop leaves tip, totals and database, or truncates at a break. -/
lemma rebuildLoop_cases (T cs : ℕ) (heights : List ℕ) (r : Rebuild) :
    r.SameBase (rebuildLoop E T cs heights r) ∨
      ∃ h ∈ heights, ∃ r' b, r.SameBase r' ∧ 0 < h ∧ r.node.db.getByHeight h = some b ∧
        b.prevHash ≠ r'.prevHash ∧ rebuildLoop E T cs heights r = r'.truncate h T := by
  induction heights generalizing r with
  | nil => exact .inl ⟨_, _, _, rfl⟩
  | cons h heights ih =>
    rw [rebuildLoop]
    cases hget : r.node.db.getByHeight h with
    | none =>
      rcases ih r with hfin | ⟨h', hmem, hcut⟩
      · exact .inl hfin
      · exact .inr ⟨h', mem_cons_of_mem _ hmem, hcut⟩
    | some b =>
      simp only
      split
      · rename_i hbad
        exact .inr ⟨h, mem_cons_self, r, b, ⟨_, _, _, rfl⟩, hbad.1, hget, hbad.2, rfl⟩
      · have hstep : r.SameBase (r.applyBlock E h cs b) :=
          ⟨_, _, _, (applied_applyBlock r h cs b).eq⟩
        rcases ih (r.applyBlock E h cs b) with hfin | ⟨h', hmem, r', x, hsame, hpos, hx, hcut⟩
        · exact .inl (hstep.trans hfin)
        · rw [db_applyBlock] at hx
          exact .inr ⟨h', mem_cons_of_mem _ hmem, r', x, hstep.trans hsame, hpos, hx, hcut⟩

/-- What `rebuild_utxo_set` leaves of an opened node with index `bs`. -/
structure Rebuilt (E : Env) (n : Node) (bs : List Block) (n' : Node) : Prop where
  eq : n' = { n with
    blocks := n'.blocks
    heightToHash := n'.heightToHash
    utxos := n'.utxos
    stats := { n.stats with
      totalBlocks := n'.stats.totalBlocks, totalTransactions := n'.stats.totalTransactions } }
  utxos : n'.utxos.toUtxoCore = replayFrom E 0 bs UtxoCore.empty
  rows : n'.utxos.db = n.utxos.db
  blocks : ∀ (k : Hash) (b : Block), n'.blocks[k]? = some b → b ∈ bs ∧ E.blockHash b = k
  heights : ∀ (h : ℕ) (k : Hash), n'.heightToHash[h]? = some k →
    ∃ b, bs[h]? = some b ∧ E.blockHash b = k

/-- Over linked blocks the rebuild leaves that. -/
lemma Node.rebuildUtxoSet_rebuilt (hlen : bs.length = H + 1)
    (hblocks : ∀ k : Hash, n.blocks[k]? = none) (hheights : ∀ h : ℕ, n.heightToHash[h]? = none)
    (hidx : ∀ h b, bs[h]? = some b → n.db.getByHeight h = some b) (hl : Linked E bs) :
    Rebuilt E n bs (n.rebuildUtxoSet E H) := by
  set start : Rebuild :=
    ⟨{ n with utxos := { empty with db := n.utxos.db } }, 0, 0, 0⟩ with hstart
  have hloop : rebuildLoop E H (H - 200) (range (H + 1)) start
      = start.applyFrom E (H - 200) 0 bs := by
    have hall : rebuildLoop E H (H - 200) (range' 0 bs.length ++ []) start
        = rebuildLoop E H (H - 200) [] (start.applyFrom E (H - 200) 0 bs) :=
      rebuildLoop_linked [] 0 start ?_ ?_ hl
    · rwa [append_nil, hlen, ← range_eq_range'] at hall
    · intro j b hb
      rw [zero_add]
      exact hidx j b hb
    · omega
  have happ := applied_applyFrom (E := E) (H - 200) 0 bs start
  simp only [rebuildUtxoSet, ← hstart, hloop]
  have heq := happ.eq
  refine ⟨by rw [heq], ?_, ?_, ?_, ?_⟩
  · rw [toUtxoCore_evictOldOutputs]
    exact happ.utxos
  · rw [db_evictOldOutputs]
    exact happ.rows
  · intro k b hb
    rcases happ.blocks k b hb with h | h
    · rw [show start.node.blocks[k]? = none from hblocks k] at h
      simp at h
    · exact h
  · intro h k hk
    rcases happ.heights h k hk with h' | ⟨j, b, hj, rfl, hb⟩
    · rw [show start.node.heightToHash[h]? = none from hheights h] at h'
      simp at h'
    · rw [zero_add]
      exact ⟨b, hj, hb⟩

/-! ## The steps of a load -/

lemma Node.adoptState_eq (n : Node) (st : ChainStateData) (b : Block) :
    n.adoptState st b = { n with
      tip := ⟨st.tipHash, st.height, b.work, b.header.timestamp⟩
      stats := { n.stats with
        height := st.height
        totalSupply := st.totalSupply
        totalBurned := st.totalBurned
        tipHash := st.tipHash
        totalDifficulty := (n.recomputeTotalDifficulty st.height).getD st.totalDifficulty
        difficulty := b.work } } := by
  unfold adoptState
  have hsame : recomputeTotalDifficulty { n with
      tip := ⟨st.tipHash, st.height, b.work, b.header.timestamp⟩
      stats := { n.stats with
        height := st.height
        totalSupply := st.totalSupply
        totalBurned := st.totalBurned
        tipHash := st.tipHash
        totalDifficulty := st.totalDifficulty
        difficulty := b.work } } st.height = n.recomputeTotalDifficulty st.height := rfl
  simp only [hsame]
  cases n.recomputeTotalDifficulty st.height <;> rfl

/-- The work of an indexed run of blocks, clamped at `u128`. -/
lemma foldlM_work (i a : ℕ) (hidx : ∀ j b, bs[j]? = some b → n.getBlockByHeight (i + j) = some b) :
    (List.range' i bs.length).foldlM (fun total h =>
        (n.getBlockByHeight h).map fun b => MachineInt.satAdd 128 total b.work)
        (min a (2 ^ 128 - 1))
      = some (min (a + (bs.map Block.work).sum) (2 ^ 128 - 1)) := by
  induction bs generalizing i a with
  | nil => rfl
  | cons b bs ih =>
    have hget : n.getBlockByHeight i = some b := hidx 0 b rfl
    rw [length_cons, range'_succ, foldlM_cons]
    simp only [hget, map_some, MachineInt.satAdd_min]
    refine (ih (i + 1) (a + b.work) fun j x hx => ?_).trans ?_
    · rw [add_right_comm i 1 j]
      exact hidx (j + 1) x hx
    · rw [map_cons, sum_cons, add_assoc]

/-- The work of an indexed chain. -/
lemma Node.recomputeTotalDifficulty_eq (hlen : bs.length = H + 1)
    (hidx : ∀ j b, bs[j]? = some b → n.getBlockByHeight j = some b) :
    n.recomputeTotalDifficulty H = some (min (1 + (bs.tail.map Block.work).sum) (2 ^ 128 - 1)) := by
  obtain ⟨g, rest, rfl⟩ := exists_cons_of_length_eq_add_one hlen
  obtain rfl : rest.length = H := by simpa using hlen
  refine foldlM_work 1 1 fun j x hx => ?_
  rw [add_comm]
  exact hidx (j + 1) x hx

/-- A node just opened reads from the database. -/
lemma Node.getBlockByHeight_of_empty (hblocks : ∀ k : Hash, n.blocks[k]? = none)
    (hheights : ∀ h : ℕ, n.heightToHash[h]? = none) (h : ℕ) :
    n.getBlockByHeight h = n.db.getByHeight h := by
  unfold getBlockByHeight getBlockHash Database.getByHeight
  rw [hheights]
  cases n.db.heightIndex[h]? with
  | none => rfl
  | some k =>
    show (n.blocks[k]?).or (n.db.get k) = n.db.get k
    rw [hblocks, none_or]

lemma Node.indexGenesisTxs_eq (n : Node) :
    ∃ index, n.indexGenesisTxs E = { n with db := { n.db with txIndex := index } } := by
  unfold indexGenesisTxs
  cases n.getBlockByHeight 0 with
  | none | some g => exact ⟨_, rfl⟩

/-- The pool, if any, is replayed, nothing else changes. -/
lemma Node.rebuildSparkPool_eq (hm : n.rebuildSparkPool E h = some m) :
    ∃ pool, m = { n with sparkPool := pool } ∧ match n.sparkPool with
      | none => pool = none
      | some p => pool.isSome ∧
        pool = (List.range (h + 1)).foldlM (n.replayHeight E) (.clearedBeside p.stores) := by
  unfold rebuildSparkPool at hm
  split at hm
  · exact ⟨n.sparkPool, (some.inj hm).symm, by simp_all⟩
  · rename_i hp
    simp only [bind_eq_bind, bind_eq_some_iff, some.injEq] at hm
    obtain ⟨p', hp', rfl⟩ := hm
    exact ⟨_, rfl, by simp [hp, hp']⟩

section Load

variable {db : Database} {rows : PublicKey → Option OutputIndexEntry} {pool : Option SparkPool}

/-- The stores of the disk open, and nothing loaded. -/
def Node.opened (E : Env) (db : Database) (rows : PublicKey → Option OutputIndexEntry)
    (pool : Option SparkPool) : Node :=
  withDatabase { db with network := some E.network } rows pool

/-- A load adopts the record and rebuilds; the rest is pool and transaction index. -/
lemma loadFromDatabase_loaded
    (h : loadFromDatabase R (withDatabase db rows pool) = some (.ok (.loaded, n'))) :
    ∃ st b r m index, db.state = some st ∧ db.get st.tipHash = some b ∧ b.height = st.height ∧
      ((opened E db rows pool).adoptState st b).rebuildUtxoSet E st.height = r ∧
      r.rebuildSparkPool E st.height = some m ∧
      n' = { r with sparkPool := m.sparkPool, db := { r.db with txIndex := index } } := by
  unfold loadFromDatabase at h
  split at h
  · split at h <;> simp at h
  rename_i st hst
  split at h
  · simp at h
  simp only at h
  split at h
  · simp at h
  rename_i b hb
  split at h
  · simp at h
  rename_i hheight
  simp only [bind_eq_bind, bind_eq_some_iff, some.injEq, Except.ok.injEq, Prod.mk.injEq,
    true_and] at h
  obtain ⟨m, hm, rfl⟩ := h
  obtain ⟨index, hindex⟩ := m.indexGenesisTxs_eq
  refine ⟨st, b, _, m, index, hst, hb, not_not.mp hheight, rfl, hm, hindex.trans ?_⟩
  obtain ⟨pool', rfl, -⟩ := rebuildSparkPool_eq hm
  rfl

/-- What a load leaves of a disk whose index names `bs` up to the tip. -/
structure Loaded (E : Env) (db : Database) (rows : PublicKey → Option OutputIndexEntry)
    (pool : Option SparkPool) (st : ChainStateData) (bs : List Block) (n' : Node) : Prop where
  tip : n'.tip.hash = st.tipHash ∧ n'.tip.height = st.height
  stats : n'.stats.tipHash = st.tipHash ∧ n'.stats.height = st.height
  supply : n'.stats.totalSupply = st.totalSupply
  burned : n'.stats.totalBurned = st.totalBurned
  work : n'.stats.totalDifficulty = min (1 + (bs.tail.map Block.work).sum) (2 ^ 128 - 1)
  db : ∃ index, n'.db = { db with network := some E.network, txIndex := index }
  utxos : n'.utxos.toUtxoCore = replayFrom E 0 bs UtxoCore.empty
  rows : n'.utxos.db = rows
  blocks : ∀ (k : Hash) (b : Block), n'.blocks[k]? = some b → b ∈ bs ∧ E.blockHash b = k
  heights : ∀ (h : ℕ) (k : Hash), n'.heightToHash[h]? = some k →
    ∃ b, bs[h]? = some b ∧ E.blockHash b = k
  pool : match pool with
    | none => n'.sparkPool = none
    | some p => n'.sparkPool.isSome ∧ n'.sparkPool
      = (List.range (st.height + 1)).foldlM (n'.replayHeight E) (.clearedBeside p.stores)

/-- Over linked blocks a load leaves that. -/
lemma loadFromDatabase_linked (hst : db.state = some st) (hlen : bs.length = st.height + 1)
    (hidx : ∀ h b, bs[h]? = some b → db.getByHeight h = some b) (hl : Linked E bs)
    (h : loadFromDatabase R (withDatabase db rows pool) = some (.ok (.loaded, n'))) :
    Loaded E db rows pool st bs n' := by
  obtain ⟨st', b, r, m, index, hst', -, -, hr, hm, rfl⟩ := loadFromDatabase_loaded h
  obtain rfl := mem_unique hst hst'
  have hblocks : ∀ k : Hash, (opened E db rows pool).blocks[k]? = none :=
    fun _ => Std.TreeMap.getElem?_emptyc
  have hheights : ∀ x : ℕ, (opened E db rows pool).heightToHash[x]? = none :=
    fun _ => Std.TreeMap.getElem?_emptyc
  have hwork := (opened E db rows pool).recomputeTotalDifficulty_eq hlen fun j x hx =>
    (getBlockByHeight_of_empty hblocks hheights j).trans (hidx j x hx)
  have hadopted := (opened E db rows pool).adoptState_eq st b
  rw [hwork, getD_some] at hadopted
  obtain ⟨heq, hutxos, hrows, hcache, hmap⟩ : Rebuilt E _ bs r := by
    rw [← hr, hadopted]
    exact rebuildUtxoSet_rebuilt hlen hblocks hheights hidx hl
  obtain ⟨pool', rfl, hpool⟩ := rebuildSparkPool_eq hm
  have hfrom : r.sparkPool = pool := by rw [heq]; rfl
  rw [hfrom] at hpool
  refine ⟨?_, ?_, ?_, ?_, ?_, ⟨index, ?_⟩, hutxos, hrows, hcache, hmap, hpool⟩
  all_goals
    rw [heq]
  · exact ⟨rfl, rfl⟩
  · exact ⟨rfl, rfl⟩
  · rfl

end Load

end CoinCync

import CoinCync.System

/-!
# What a load leaves, whatever is on disk

`load_from_database` meets every shape of damage. The rebuild loop answers a missing body by skipping
it and a broken link by cutting the chain there, and neither answer touches the totals. `loaded_iff`
says what the height index must have named for the load to come back with a chain, its UTXO set and
its totals.
-/

namespace CoinCync

open List Node

variable {E : Env} {R : Rules E} {n n' : Node} {db : Database} {st : ChainStateData}
  {bs qs : List Block}

/-! ## Chains on disk -/

/-- The height index names the linked blocks `bs` up to `H`, the last with hash `k`. -/
structure IndexedChain (E : Env) (db : Database) (H : ℕ) (k : Hash) (bs : List Block) : Prop where
  length : bs.length = H + 1
  index : ∀ h b, bs[h]? = some b → db.getByHeight h = some b
  linked : Linked E bs
  last : ∃ b, bs.getLast? = some b ∧ E.blockHash b = k ∧ b.height = H

/-- It is about the entries up to `H`. -/
lemma IndexedChain.congr (h : IndexedChain E db H k bs)
    (hget : ∀ x ≤ H, db'.getByHeight x = db.getByHeight x) : IndexedChain E db' H k bs :=
  { h with
    index := by
      intro x b hb
      have hx := (List.getElem?_eq_some_iff.mp hb).1
      rw [h.length] at hx
      rw [hget x (Nat.le_of_lt_succ hx), h.index x b hb] }

/-- Supply, burn and work of the blocks `bs` from height zero on. -/
structure TotalsOf (E : Env) (bs : List Block) (supply burned work : ℕ) : Prop where
  supply : supply = ((List.range bs.length).map calculateBlockReward).sum
  burned : burned = (bs.map (blockFeeBurn E)).sum
  work : work = 1 + (bs.tail.map Block.work).sum

/-- The persisted totals are those of `qs`, the chain of the record, whose hashes no other stored
block has. -/
structure PersistedHistory (E : Env) (db : Database) (st : ChainStateData) (qs : List Block) :
    Prop where
  length : qs.length = st.height + 1
  linked : Linked E qs
  last : qs.getLast?.map E.blockHash = some st.tipHash
  same : ∀ k b, db.get k = some b → ∀ q ∈ qs, E.blockHash q = E.blockHash b → q = b
  totals : TotalsOf E qs st.totalSupply st.totalBurned st.totalDifficulty
  /-- The field is a `u128`. -/
  fits : st.totalDifficulty < 2 ^ 128

/-- Chains of one length that end in one hash are equal. -/
lemma eq_of_isChain_prevHash (hp : (a :: p).IsChain fun x y => x.prevHash = E.blockHash y)
    (hq : (b :: q).IsChain fun x y => x.prevHash = E.blockHash y) (hlen : p.length = q.length)
    (hhash : E.blockHash a = E.blockHash b)
    (hsame : ∀ x ∈ a :: p, ∀ y ∈ b :: q, E.blockHash x = E.blockHash y → x = y) :
    a :: p = b :: q := by
  induction p generalizing a b q with
  | nil =>
    obtain rfl : q = [] := length_eq_zero_iff.mp hlen.symm
    rw [hsame a (by simp) b (by simp) hhash]
  | cons c p ih =>
    cases q with
    | nil => simp at hlen
    | cons d q =>
      obtain rfl := hsame a (by simp) b (by simp) hhash
      obtain ⟨hac, hp⟩ := isChain_cons_cons.mp hp
      obtain ⟨had, hq⟩ := isChain_cons_cons.mp hq
      have hrest := ih hp hq (by simpa using hlen) (hac.symm.trans had) fun x hx y hy =>
        hsame x (mem_cons_of_mem _ hx) y (mem_cons_of_mem _ hy)
      rw [hrest]

/-- The chain of an intact index is that of the totals. -/
lemma IndexedChain.eq_history (h : IndexedChain E db st.height st.tipHash bs)
    (hq : PersistedHistory E db st qs) : bs = qs := by
  have hflip : ∀ {l : List Block}, Linked E l →
      l.reverse.IsChain fun x y => x.prevHash = E.blockHash y :=
    fun hl => isChain_reverse.mpr hl
  obtain ⟨b, hb, hbk, -⟩ := h.last
  obtain ⟨q, hqlast, hqk⟩ := Option.map_eq_some_iff.mp hq.last
  have hstored : ∀ x ∈ bs, ∃ k, db.get k = some x := by
    intro x hx
    obtain ⟨i, hi⟩ := getElem?_of_mem hx
    obtain ⟨k, -, hk⟩ := Option.bind_eq_some_iff.mp (h.index i x hi)
    exact ⟨k, hk⟩
  obtain ⟨bs', rfl⟩ := getLast?_eq_some_iff.mp hb
  obtain ⟨qs', rfl⟩ := getLast?_eq_some_iff.mp hqlast
  have hrev := eq_of_isChain_prevHash (a := b) (b := q)
    (by simpa using hflip h.linked) (by simpa using hflip hq.linked)
    (by have := h.length; have := hq.length; simp_all) (hbk.trans hqk.symm) ?_
  · have := congrArg reverse hrev
    simpa using this
  · intro x hx y hy hxy
    obtain ⟨k, hk⟩ := hstored x (by simpa [or_comm] using hx)
    exact (hq.same k x hk y (by simpa [or_comm] using hy) hxy.symm).symm

/-! ## The rebuild -/

/-- A cut keeps the index below it. -/
lemma Rebuild.getByHeight_truncate (r : Rebuild) (H : ℕ) (hx : x < h) :
    (r.truncate h H).node.db.getByHeight x = r.node.db.getByHeight x := by
  have hkeep : (r.truncate h H).node.db.heightIndex[x]? = r.node.db.heightIndex[x]? := by
    show (Table.eraseAll r.node.db.heightIndex (range' h (H + 1 - h)))[x]? = _
    rw [Table.getElem?_eraseAll, if_neg (by simp; omega)]
  rw [Database.getByHeight, hkeep]
  rfl

/-- The rebuild leaves tip, database and totals, or cuts at a break. -/
lemma Node.rebuildUtxoSet_cases (n : Node) (H : ℕ) :
    ((n.rebuildUtxoSet E H).tip = n.tip ∧ (n.rebuildUtxoSet E H).db = n.db) ∨
      ∃ h b, 0 < h ∧ h ≤ H ∧ n.db.getByHeight h = some b ∧
        b.prevHash ≠ (n.rebuildUtxoSet E H).tip.hash ∧
        (n.rebuildUtxoSet E H).tip.height = h - 1 ∧
        (∀ x < h, (n.rebuildUtxoSet E H).db.getByHeight x = n.db.getByHeight x) ∧
        (n.rebuildUtxoSet E H).stats.totalSupply = n.stats.totalSupply := by
  set start : Rebuild :=
    ⟨{ n with utxos := { UtxoSet.empty with db := n.utxos.db } }, 0, 0, 0⟩ with hstart
  simp only [rebuildUtxoSet]
  rcases rebuildLoop_cases H (H - 200) (range (H + 1)) start with
    ⟨_, _, _, hsame⟩ | ⟨h, hmem, r, b, ⟨_, _, _, hsame⟩, hpos, hb, hlink, hcut⟩
  · left
    rw [hsame]
    exact ⟨rfl, rfl⟩
  · right
    rw [mem_range] at hmem
    rw [hcut]
    refine ⟨h, b, hpos, by omega, hb, hlink, rfl, ?_, ?_⟩
    · intro x hx
      refine (r.getByHeight_truncate H hx).trans ?_
      rw [hsame]
    · show r.node.stats.totalSupply = _
      rw [hsame]

/-- Where the chain breaks above `H`, the rebuild cuts. -/
lemma Node.rebuildUtxoSet_cut (hbs : IndexedChain E n.db H k bs) (hlt : H < T)
    (hb : n.db.getByHeight (H + 1) = some b) (hlink : b.prevHash ≠ k) :
    (n.rebuildUtxoSet E T).tip.height = H ∧ (n.rebuildUtxoSet E T).tip.hash = k ∧
      (n.rebuildUtxoSet E T).utxos.toUtxoCore = replayFrom E 0 bs UtxoCore.empty ∧
      ∀ x ≤ H, (n.rebuildUtxoSet E T).db.getByHeight x = n.db.getByHeight x := by
  set start : Rebuild :=
    ⟨{ n with utxos := { UtxoSet.empty with db := n.utxos.db } }, 0, 0, 0⟩ with hstart
  set r := start.applyFrom E (T - 200) 0 bs with hr
  have happ : Rebuild.Applied E 0 bs start r := Rebuild.applied_applyFrom (T - 200) 0 bs start
  obtain ⟨a, ha, hak, -⟩ := hbs.last
  have hprev : r.prevHash = k := by
    rw [Rebuild.prevHash_applyFrom _ _ _ ha, hak]
  have hdb : r.node.db = n.db := by rw [happ.eq]
  have hloop : rebuildLoop E T (T - 200) (range (T + 1)) start = r.truncate (H + 1) T := by
    have hsplit : range (T + 1)
        = range' 0 bs.length ++ (H + 1) :: range' (H + 2) (T - H - 1) := by
      obtain ⟨d, rfl⟩ := Nat.exists_eq_add_of_lt hlt
      have hd : H + d + 1 - H - 1 = d := by omega
      have hcons : (H + 1) :: range' (H + 2) d = range' (0 + 1 * (H + 1)) (d + 1) := by
        rw [range'_succ]
        simp
      rw [range_eq_range', hbs.length, hd, hcons, range'_append]
      congr 1
      omega
    rw [hsplit, rebuildLoop_linked _ 0 start ?_ ?_ hbs.linked, rebuildLoop, hdb, hb]
    · simp only
      rw [if_pos ⟨Nat.succ_pos H, by rwa [hprev]⟩]
    · intro j x hx
      rw [zero_add]
      exact hbs.index j x hx
    · omega
  simp only [rebuildUtxoSet, ← hstart, hloop]
  refine ⟨rfl, hprev, ?_, ?_⟩
  · rw [UtxoSet.toUtxoCore_evictOldOutputs]
    exact happ.utxos
  · intro x hx
    refine (r.getByHeight_truncate T (Nat.lt_succ_of_le hx)).trans ?_
    rw [hdb]

/-! ## The load -/

/-- The index names a linked chain up to the tip, the UTXO set is its replay, and right totals stay
right. -/
def LoadPost (E : Env) (db : Database) (st : ChainStateData) (n' : Node) : Prop :=
  ∃ bs, IndexedChain E n'.db n'.tip.height n'.tip.hash bs ∧
    n'.utxos.toUtxoCore = replayFrom E 0 bs UtxoCore.empty ∧
    ((∃ qs, PersistedHistory E db st qs) →
      TotalsOf E bs n'.stats.totalSupply n'.stats.totalBurned n'.stats.totalDifficulty ∧
      ∃ st', n'.db.state = some st' ∧ st'.tipHash = n'.tip.hash ∧ st'.height = n'.tip.height ∧
        TotalsOf E bs st'.totalSupply st'.totalBurned st'.totalDifficulty)

/-- The index names a chain below the tip, and a break above it. -/
def CutsCleanly (E : Env) (db : Database) (st : ChainStateData) : Prop :=
  ∃ H k bs b, H < st.height ∧ IndexedChain E db H k bs ∧ db.getByHeight (H + 1) = some b ∧
    b.prevHash ≠ k

section Load

variable {rows : PublicKey → Option OutputIndexEntry} {pool : Option SparkPool}

/-- Adopting the record keeps the index. -/
lemma getByHeight_adopted (db : Database) (rows : PublicKey → Option OutputIndexEntry)
    (pool : Option SparkPool) (st : ChainStateData) (b : Block) (x : ℕ) :
    ((opened E db rows pool).adoptState st b).db.getByHeight x = db.getByHeight x := by
  rw [adoptState_eq]
  rfl

variable (hst : db.state = some st)
  (h : loadFromDatabase R (withDatabase db rows pool) = some (.ok (.loaded, n')))
include hst h

/-- An intact index loads as the contract asks. -/
lemma IndexedChain.loadPost (hbs : IndexedChain E db st.height st.tipHash bs) :
    LoadPost E db st n' := by
  have hload := loadFromDatabase_linked hst hbs.length hbs.index hbs.linked h
  obtain ⟨index, hdb⟩ := hload.db
  refine ⟨bs, ?_, hload.utxos, ?_⟩
  · rw [hload.tip.1, hload.tip.2, hdb]
    exact hbs.congr fun _ _ => rfl
  · rintro ⟨qs, hq⟩
    obtain rfl := hbs.eq_history hq
    have hwork : n'.stats.totalDifficulty = st.totalDifficulty := by
      have hfits := hq.fits
      rw [hload.work, ← hq.totals.work]
      omega
    refine ⟨?_, st, ?_, hload.tip.1.symm, hload.tip.2.symm, hq.totals⟩
    · rw [hload.supply, hload.burned, hwork]
      exact hq.totals
    · rw [hdb]
      exact hst

/-- A clean cut leaves a chain and its UTXO set. -/
lemma CutsCleanly.loadPost (hcut : CutsCleanly E db st)
    (hno : ¬ ∃ qs, PersistedHistory E db st qs) : LoadPost E db st n' := by
  obtain ⟨H, k, bs, c, hlt, hbs, hc, hlink⟩ := hcut
  obtain ⟨st', b, r, m, index, hst', -, -, hr, -, rfl⟩ := loadFromDatabase_loaded h
  obtain rfl := Option.mem_unique hst hst'
  have hget := getByHeight_adopted (E := E) db rows pool st b
  obtain ⟨hheight, hhash, hutxos, hkeep⟩ := rebuildUtxoSet_cut
    (hbs.congr fun x _ => hget x) hlt ((hget _).trans hc) hlink
  rw [hr] at hheight hhash hutxos hkeep
  refine ⟨bs, ?_, hutxos, fun hex => absurd hex hno⟩
  rw [hheight, hhash]
  exact hbs.congr fun x hx => (hkeep x hx).trans (hget x)

/-- What the index must have named for the contract to hold. -/
lemma LoadPost.index (hpost : LoadPost E db st n') :
    (∃ bs, IndexedChain E db st.height st.tipHash bs) ∨
      (¬ ∃ qs, PersistedHistory E db st qs) ∧ CutsCleanly E db st := by
  obtain ⟨bs, hbs, -, htotals⟩ := hpost
  obtain ⟨st', b, r, m, index, hst', -, -, hr, -, rfl⟩ := loadFromDatabase_loaded h
  obtain rfl := Option.mem_unique hst hst'
  have hget := getByHeight_adopted (E := E) db rows pool st b
  have hcases := rebuildUtxoSet_cases (E := E) ((opened E db rows pool).adoptState st b)
    st.height
  rw [hr] at hcases
  rcases hcases with ⟨htip, hdb⟩ | ⟨h, c, hpos, hle, hc, hlink, hheight, hkeep, hsupply⟩
  · -- nothing was cut, so the chain of the post-condition ends in the persisted tip
    left
    refine ⟨bs, ?_⟩
    rw [htip, hdb, adoptState_eq] at hbs
    exact hbs.congr fun _ _ => rfl
  · right
    rw [hheight] at hbs
    constructor
    · -- a cut keeps the supply of the higher tip, and emission is strictly increasing
      rintro ⟨qs, hq⟩
      have hnew : r.stats.totalSupply = ((range bs.length).map calculateBlockReward).sum :=
        (htotals ⟨qs, hq⟩).1.supply
      have hold := hq.totals.supply
      have hkept : r.stats.totalSupply = st.totalSupply := by rw [hsupply, adoptState_eq]
      rw [hbs.length] at hnew
      rw [hq.length] at hold
      have hmono : emittedThrough (h - 1) < emittedThrough st.height :=
        emittedThrough_strictMono (by omega)
      unfold emittedThrough at hmono
      omega
    · refine ⟨h - 1, r.tip.hash, bs, c, by omega, ?_, ?_, hlink⟩
      · exact hbs.congr fun x hx => ((hkeep x (by omega)).trans (hget x)).symm
      · rw [Nat.sub_add_cancel hpos, ← hget]
        exact hc

omit hst h

/-- For every disk a load accepts: the contract holds iff the height index named a linked chain up
to the persisted tip, or the persisted totals were wrong and the index named a linked chain up to a
break. -/
theorem loaded_iff (hst : db.state = some st)
    (h : loadFromDatabase R (withDatabase db rows pool) = some (.ok (.loaded, n'))) :
    LoadPost E db st n' ↔ (∃ bs, IndexedChain E db st.height st.tipHash bs) ∨
      (¬ ∃ qs, PersistedHistory E db st qs) ∧ CutsCleanly E db st := by
  constructor
  · intro hpost
    exact hpost.index hst h
  · rintro (⟨bs, hbs⟩ | ⟨hno, hcut⟩)
    · exact hbs.loadPost hst h
    · exact hcut.loadPost hst h hno

end Load

/-! ## Two disks -/

/-- Genesis, `A1`, `A2` and a sibling `B1` on disk; the record is that of `A2`, and `first` is at
height one. -/
def sampleDisk (first : Hash) : Database where
  blocks := (((Std.TreeMap.empty.insert 0 (sampleBlock 0 0 7 (2 ^ 255) [])).insert 1001
    (sampleBlock 1 1 0 (2 ^ 255) [])).insert 1002 (sampleBlock 1 2 0 (2 ^ 255) [])).insert 2001
    (sampleBlock 2 1 1001 (2 ^ 255) [])
  heightIndex := ((Std.TreeMap.empty.insert 0 0).insert 1 first).insert 2 2001
  state := some ⟨2001, 2, 3, emittedThrough 2, 0, 0⟩
  txIndex := ∅
  network := some .mainnet

/-- The chain of `A2`. -/
def sampleHistory : List Block :=
  [sampleBlock 0 0 7 (2 ^ 255) [], sampleBlock 1 1 0 (2 ^ 255) [], sampleBlock 2 1 1001 (2 ^ 255) []]

/-- Its totals are those of that chain. -/
lemma sampleDisk_history (first : Hash) :
    PersistedHistory (sampleEnv .mainnet 0) (sampleDisk first) ⟨2001, 2, 3, emittedThrough 2, 0, 0⟩
      sampleHistory where
  length := rfl
  linked := by unfold Linked; decide
  last := rfl
  same := by
    have hmem : ∀ k b, (sampleDisk first).get k = some b →
        b ∈ sampleBlock 1 2 0 (2 ^ 255) [] :: sampleHistory := by
      intro k b hb
      simp only [Database.get, sampleDisk, Table.getElem?_insert] at hb
      split_ifs at hb <;> simp_all [sampleHistory]
    have hdiff : ∀ b ∈ sampleBlock 1 2 0 (2 ^ 255) [] :: sampleHistory, ∀ q ∈ sampleHistory,
        (sampleEnv .mainnet 0).blockHash q = (sampleEnv .mainnet 0).blockHash b → q = b := by
      decide
    exact fun k b hb q hq h => hdiff b (hmem k b hb) q hq h
  totals := ⟨rfl, by decide +kernel, by decide +kernel⟩
  fits := by decide

/-- The intact disk, loaded. -/
theorem loaded_iff_intact :
    ∃ n', loadFromDatabase openMainnet
        (withDatabase (sampleDisk 1001) (fun _ => none) none) = some (.ok (.loaded, n')) ∧
      LoadPost (sampleEnv .mainnet 0) (sampleDisk 1001) ⟨2001, 2, 3, emittedThrough 2, 0, 0⟩ n' := by
  set R := openMainnet
  have hrun : ∃ r ∈ loadFromDatabase R (withDatabase (sampleDisk 1001) (fun _ => none) none),
      r.map (·.1) = .ok .loaded := by
    decide +kernel
  obtain ⟨r, hload, hr⟩ := hrun
  cases r with
  | error e => simp [Except.map] at hr
  | ok p =>
    obtain ⟨outcome, n'⟩ := p
    obtain rfl : outcome = .loaded := by simpa [Except.map] using hr
    refine ⟨n', hload, (loaded_iff rfl hload).mpr (.inl ⟨sampleHistory, rfl, ?_, ?_, _, rfl, rfl,
      rfl⟩)⟩
    · intro h b hb
      match h with
      | 0 | 1 | 2 =>
        rw [← hb]
        decide +kernel
      | h + 3 => simp [sampleHistory] at hb
    · unfold Linked
      decide

/-- An index entry that names the sibling: the load cuts to height one and keeps the supply of
height two. -/
theorem cut_keeps_totals :
    ∃ n', loadFromDatabase openMainnet
        (withDatabase (sampleDisk 1002) (fun _ => none) none) = some (.ok (.loaded, n')) ∧
      n'.tip.height = 1 ∧ n'.stats.totalSupply = emittedThrough 2 ∧
      n'.db.state.map (·.totalSupply) = some (emittedThrough 2) ∧
      ¬ LoadPost (sampleEnv .mainnet 0) (sampleDisk 1002) ⟨2001, 2, 3, emittedThrough 2, 0, 0⟩
        n' := by
  set R := openMainnet
  have hrun : (loadFromDatabase R (withDatabase (sampleDisk 1002) (fun _ => none) none)).map
      (·.map fun p => (p.1, p.2.tip.height, p.2.stats.totalSupply,
        p.2.db.state.map (·.totalSupply)))
      = some (.ok (.loaded, 1, emittedThrough 2, some (emittedThrough 2))) := by decide +kernel
  obtain ⟨r, hload, hr⟩ := Option.map_eq_some_iff.mp hrun
  cases r with
  | error e => simp [Except.map] at hr
  | ok p =>
    obtain ⟨outcome, n'⟩ := p
    simp only [Except.map, Except.ok.injEq, Prod.mk.injEq] at hr
    obtain ⟨rfl, hheight, hsupply, hsaved⟩ := hr
    refine ⟨n', hload, hheight, hsupply, hsaved, ?_⟩
    rintro ⟨bs, hbs, -, htotals⟩
    have hsum := (htotals ⟨_, sampleDisk_history 1002⟩).1.supply
    rw [hbs.length, hheight, hsupply] at hsum
    exact absurd hsum (by decide +kernel)

end CoinCync

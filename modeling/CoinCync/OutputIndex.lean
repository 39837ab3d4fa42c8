import CoinCync.UtxoReplay

/-!
# The persistent output index keeps the oldest output of an address

The row of an address is meant to be the entry of its oldest output (`oldestRow`). `remove_output`
drops only the owner's row. But `commit_block_atomic` filters a block's rows against the table as it
was, so of two new rows for one address the later one stays; and `apply_reorg_atomic` drops the row
of every disconnected output, whoever owns it. So the refinement holds along the runs that meet no
such collision (`RowsGuard`).
-/

namespace CoinCync

open List Option UtxoSet UtxoCore Ledger

variable {E : Env} {R : Rules E} {n n' : Node} {b : Block} {c c' : List Block}
variable {db : PublicKey → Option OutputIndexEntry} {u : UtxoSet} {added left : List NewOutput}
  {o s : List Block} {l l' : Ledger}

/-! ## Oldest wins -/

/-- Rows of the index. -/
abbrev Rows := List (PublicKey × OutputIndexEntry)

/-- The rows of blocks, oldest block first. -/
def chainRows (bs : List Block) : Rows := bs.flatMap fun b => outputRows b.height b.transactions

/-- The oldest output's entry, over blocks given oldest first. -/
def oldestRow (bs : List Block) (x : PublicKey) : Option OutputIndexEntry := (chainRows bs).lookup x

lemma chainRows_append (bs bs' : List Block) :
    chainRows (bs ++ bs') = chainRows bs ++ chainRows bs' := flatMap_append

lemma oldestRow_append (bs bs' : List Block) (x : PublicKey) :
    oldestRow (bs ++ bs') x = (oldestRow bs x).or (oldestRow bs' x) := by
  unfold oldestRow
  rw [chainRows_append, lookup_append]

lemma chainRows_singleton (b : Block) : chainRows [b] = outputRows b.height b.transactions :=
  flatMap_singleton _ _

lemma oldestRow_reverse_cons (b : Block) (c : List Block) (x : PublicKey) :
    oldestRow (b :: c).reverse x
      = (oldestRow c.reverse x).or ((outputRows b.height b.transactions).lookup x) := by
  rw [reverse_cons, oldestRow_append]
  unfold oldestRow
  rw [chainRows_singleton]

/-- Inserting keeps older rows. -/
lemma insertRows_eq (db : PublicKey → Option OutputIndexEntry) (rows : Rows) (x : PublicKey) :
    insertRows db rows x = (db x).or (rows.lookup x) := Table.foldl_update_getD rows db x

/-- Rows of the batch for an address with the predicate agree. -/
def RowsAgree (rows : Rows) (new : PublicKey → Prop) : Prop :=
  ∀ r ∈ rows, ∀ r' ∈ rows, r.1 = r'.1 → new r.1 → r.2 = r'.2

instance (rows : Rows) (new : PublicKey → Prop) [DecidablePred new] :
    Decidable (RowsAgree rows new) := by
  unfold RowsAgree
  infer_instance

/-- A batch is oldest-wins, if no removed address has a row left and additions agree. -/
lemma reorgRows_eq (hrem : ∀ x ∈ removals, db x = none)
    (hagree : RowsAgree additions fun x => db x = none) (x : PublicKey) :
    reorgRows db removals additions x = (db x).or (additions.lookup x) := by
  have hbase : (if x ∈ removals then none else db x) = db x := by
    split
    · rename_i hx
      exact (hrem x hx).symm
    · rfl
  have hpred : ∀ y, decide (y ∈ removals ∨ (db y).isNone) = (db y).isNone := by
    intro y
    cases hy : db y with
    | none => simp
    | some e =>
      have hnot : y ∉ removals := by
        intro hmem
        rw [hrem y hmem] at hy
        simp at hy
      simp [hnot]
  simp only [reorgRows, hpred]
  rw [writeRows, Table.foldl_update, hbase, ← filter_reverse,
    Table.lookup_filter _ fun y => (db y).isNone]
  cases hx : db x with
  | some e => simp
  | none =>
    have hall : ∀ r ∈ additions, ∀ r' ∈ additions, r.1 = x → r'.1 = x → r.2 = r'.2 := by
      rintro r hr r' hr' rfl hr'x
      exact hagree r hr r' hr' hr'x.symm hx
    simp [Table.lookup_reverse_of_agree hall]

/-- A single block is the case without removals. -/
lemma commitRows_eq (hagree : RowsAgree additions fun x => db x = none) (x : PublicKey) :
    commitRows db additions x = (db x).or (additions.lookup x) := by
  have hcase : commitRows db additions = reorgRows db [] additions := by
    unfold commitRows reorgRows
    simp only [not_mem_nil, false_or, if_false, Bool.decide_eq_true]
  rw [hcase, reorgRows_eq (by simp) hagree]

/-! ## The addresses of a chain -/

/-- The rows of a block carry its height. -/
lemma height_of_mem_outputRows (hr : r ∈ outputRows h txs) : r.2.height = h := by
  obtain ⟨tx, -, hr⟩ := mem_flatMap.mp hr
  obtain ⟨o, -, rfl⟩ := mem_map.mp hr
  rfl

/-- The addresses of a block. -/
lemma map_fst_outputRows (h : ℕ) (txs : List Transaction) :
    (outputRows h txs).map (·.1)
      = txs.flatMap fun tx => tx.outputs.map (·.stealthAddress) := by
  simp [outputRows, map_flatMap, Function.comp_def]

lemma map_address_adds (h : ℕ) (txs : List Transaction) :
    (txs.flatMap (newOutputs E h)).map (·.address) = (outputRows h txs).map (·.1) := by
  rw [map_fst_outputRows, map_flatMap]
  congr 1
  funext tx
  apply ext_getElem
  · simp [newOutputs]
  · simp [newOutputs, NewOutput.address]

/-- The addresses a reorganisation drops. -/
lemma mem_removedAddresses {o : List Block} :
    x ∈ removedAddresses (o.map (·.transactions)) ↔ x ∈ (chainRows o).map (·.1) := by
  unfold removedAddresses chainRows
  simp only [map_flatMap, map_fst_outputRows, flatMap_map]

/-- Additions claim exactly the addresses nobody holds. -/
lemma UtxoCore.stealthIndex_foldl_addOutput (l : List NewOutput) (u : UtxoCore) (x : PublicKey) :
    (l.foldl addOutput u).stealthIndex x = none
      ↔ u.stealthIndex x = none ∧ x ∉ l.map (·.address) := by
  rw [stealthIndex_foldl_addOutput_eq, or_eq_none_iff, Table.lookup_eq_none_iff_notMem,
    List.map_map]
  rfl

/-- The stealth index of a replay has its outputs' addresses. -/
lemma stealthIndex_replayUtxos (c : List Block) (x : PublicKey) :
    (replayUtxos E c).stealthIndex x = none ↔ oldestRow c.reverse x = none := by
  induction c with
  | nil => exact ⟨fun _ => rfl, fun _ => rfl⟩
  | cons b c ih =>
    rw [replayUtxos_cons, UtxoCore.connectBlock_eq, oldestRow_reverse_cons, or_eq_none_iff,
      ← ih, Table.lookup_eq_none_iff_notMem, ← map_address_adds]
    exact stealthIndex_foldl_addOutput _ _ x

/-! ## The rows along connections and disconnections -/

/-- A removal finds its output and is one step further. -/
lemma UtxoSet.removeOutput_midway (hcore : u.toUtxoCore = midway u0 added (a :: left))
    (hadd : (added.map (·.key)).Nodup) (hun : ∀ a ∈ added, u0.Unused a.key)
    (hsub : (a :: left).Sublist added) :
    (u.removeOutput a.key).toUtxoCore = midway u0 added left ∧
      u.addressOf a.key = some a.address := by
  have hmem : a ∈ added := hsub.subset mem_cons_self
  have hnd : ((a :: left).map (·.key)).Nodup := hadd.sublist (hsub.map _)
  constructor
  · show u.toUtxoCore.removeOutput a.key = _
    rw [hcore, UtxoCore.removeOutput_midway hadd hmem (nodup_cons.mp hnd).1 (hun a hmem)]
  · rw [hcore]
    simp only [UtxoCore.addressOf, UtxoCore.midway, find?_cons]
    rfl

/-- A row goes with the output that claimed its address. -/
lemma UtxoSet.db_foldl_removeOutput (hcore : u.toUtxoCore = midway u0 added left)
    (hadd : (added.map (·.key)).Nodup) (hun : ∀ a ∈ added, u0.Unused a.key)
    (hsub : left.Sublist added) (x : PublicKey) :
    ((left.map (·.key)).foldl removeOutput u).db x
      = if u0.stealthIndex x = none ∧ ∃ a ∈ left, added.find? (·.address = x) = some a then none
        else u.db x := by
  induction left generalizing u with
  | nil => simp
  | cons a left ih =>
    have hmem : a ∈ added := hsub.subset mem_cons_self
    obtain ⟨hcore', haddr⟩ := removeOutput_midway hcore hadd hun hsub
    -- the removed output owns its address only where it was the first of the batch to claim it
    have howns : u.owns a.key x = true
        ↔ u0.stealthIndex x = none ∧ added.find? (·.address = x) = some a := by
      simp only [owns, haddr]
      rw [hcore]
      cases hx : u0.stealthIndex x with
      | some k =>
        have hk : k ≠ a.key := fun e => (hun a hmem).stealthIndex x (e ▸ hx)
        simp [midway, hx, hk]
      | none =>
        cases hfind : added.find? (·.address = x) with
        | none => simp [midway, hx, hfind]
        | some d =>
          have hdx : d.address = x := by simpa using find?_some hfind
          by_cases hda : d.key = a.key
          · obtain rfl := inj_on_of_nodup_map hadd (mem_of_find?_eq_some hfind) hmem hda
            simp [midway, hx, hfind, hdx]
          · simp [midway, hx, hfind, hda, ne_of_apply_ne NewOutput.key hda]
    rw [map_cons, foldl_cons, ih hcore' ((sublist_cons_self a left).trans hsub)]
    show (if _ then none else if u.owns a.key x then none else u.db x) = _
    rw [← ite_or]
    refine if_congr ?_ rfl rfl
    rw [howns, ← and_or_left, exists_mem_cons_iff, or_comm]

/-- A replay is midway in its last block's disconnection, but for key images. -/
lemma UtxoSet.toUtxoCore_eq_midway (hu : u.toUtxoCore = replayUtxos E (b :: c))
    (hnd : (b.transactions.flatMap (removedKeys E)).Nodup) :
    ({ u with keyImages := (replayUtxos E c).keyImages } : UtxoSet).toUtxoCore
      = midway (replayUtxos E c) (b.transactions.flatMap (newOutputs E b.height))
        (b.transactions.flatMap (newOutputs E b.height)) := by
  rw [← map_key_adds E b.height] at hnd
  rw [hu, replayUtxos_cons, UtxoCore.connectBlock_eq, foldl_addOutput _ _ hnd]
  rfl

lemma FreshFor.unused (hf : FreshFor E b.transactions (replayUtxos E c)) :
    ∀ a ∈ b.transactions.flatMap (newOutputs E b.height), (replayUtxos E c).Unused a.key :=
  fun _ ha => replayUtxos_wellFormed c _
    (hf.outputs _ (map_key_adds E b.height b.transactions ▸ mem_map_of_mem ha))

/-- Disconnecting drops the rows of addresses only the block uses. -/
lemma UtxoSet.db_disconnectBlock (hu : u.toUtxoCore = replayUtxos E (b :: c))
    (hf : FreshFor E b.transactions (replayUtxos E c)) (x : PublicKey) :
    (u.disconnectBlock E b.transactions).db x
      = if oldestRow c.reverse x = none ∧ x ∈ (chainRows [b]).map (·.1) then none
        else u.db x := by
  obtain ⟨t, ht⟩ := disconnectBlock_eq u b.transactions (replayUtxos E c).keyImages
  have hcore := toUtxoCore_eq_midway hu hf.nodup
  have hun := hf.unused
  have hkeys := map_key_adds E b.height b.transactions
  set added := b.transactions.flatMap (newOutputs E b.height)
  have hnd : (added.map (·.key)).Nodup := hkeys ▸ hf.nodup
  have hrows : (u.disconnectBlock E b.transactions).db x
      = ((added.map (·.key)).foldl removeOutput
        { u with keyImages := (replayUtxos E c).keyImages }).db x := by
    rw [ht, hkeys]
  have hex : (∃ a ∈ added, added.find? (·.address = x) = some a) ↔ x ∈ added.map (·.address) := by
    rw [List.mem_map]
    constructor
    · rintro ⟨a, ha, hfind⟩
      exact ⟨a, ha, by simpa using find?_some hfind⟩
    · rintro ⟨a, ha, rfl⟩
      have hsome : (added.find? (·.address = a.address)).isSome := find?_isSome.mpr ⟨a, ha, by simp⟩
      obtain ⟨d, hd⟩ := isSome_iff_exists.mp hsome
      exact ⟨d, mem_of_find?_eq_some hd, hd⟩
  rw [hrows, db_foldl_removeOutput hcore hnd hun (List.Sublist.refl _)]
  refine if_congr (and_congr (stealthIndex_replayUtxos c x) ?_) rfl rfl
  rw [hex, chainRows_singleton, ← map_address_adds]

/-- The rows are those of the chain. -/
def Ledger.RowsOf (l : Ledger) (c : List Block) : Prop :=
  ∀ x, l.utxos.db x = oldestRow c.reverse x

lemma oldestRow_eq_none_of_suffix {s : List Block} (hs : s <:+ c)
    (hx : oldestRow c.reverse x = none) : oldestRow s.reverse x = none := by
  obtain ⟨o, rfl⟩ := hs
  rw [reverse_append, oldestRow_append, or_eq_none_iff] at hx
  exact hx.1

/-- So the rows are those of the chain below. -/
lemma UtxoSet.rows_disconnectBlock (hrows : ∀ x, u.db x = oldestRow (b :: c).reverse x)
    (hu : u.toUtxoCore = replayUtxos E (b :: c))
    (hf : FreshFor E b.transactions (replayUtxos E c)) (x : PublicKey) :
    (u.disconnectBlock E b.transactions).db x = oldestRow c.reverse x := by
  rw [db_disconnectBlock hu hf, hrows x, oldestRow_reverse_cons]
  cases hx : oldestRow c.reverse x with
  | some e => simp
  | none =>
    split
    · rfl
    · rename_i hnot
      have hout : x ∉ (outputRows b.height b.transactions).map (·.1) := by
        intro hmem
        exact hnot ⟨rfl, by rwa [chainRows_singleton]⟩
      rw [Table.lookup_eq_none_iff_notMem.mpr hout]
      rfl

/-- A disconnect loop leaves the rows of what remains. -/
lemma Ledger.RowsOf.disconnectAll (hrows : l.RowsOf (o ++ t :: s))
    (hl : Ledger.Replayed E l (o ++ t :: s)) (hfresh : FreshChain E (o ++ t :: s))
    (h : disconnectAll E o l = some l') : l'.RowsOf (t :: s) := by
  have hend := disconnectAll_rule (P := fun l r => Ledger.Replayed E l r ∧ l.RowsOf r) ?_
    ⟨hl, hrows⟩ h
  · exact hend.2
  rintro l l' x r hsuf hts ⟨hrep, hrow⟩ hd
  have hf := hfresh x r hsuf (hts.ne_nil (cons_ne_nil _ _))
  obtain ⟨-, -, hu, -⟩ := disconnect_eq_some hd
  refine ⟨hrep.disconnect hf hd, fun y => ?_⟩
  rw [hu]
  exact rows_disconnectBlock hrow hrep hf y

/-- Blocks connected and taken off uncommitted leave the rows alone. -/
lemma Ledger.RowsOf.undo (hrows : l.RowsOf (t :: s)) (hl : Ledger.Replayed E l (o ++ t :: s))
    (hfresh : FreshChain E (o ++ t :: s)) (h : Ledger.disconnectAll E o l = some l') :
    l'.RowsOf (t :: s) := by
  have hend := disconnectAll_rule
    (P := fun l r => Ledger.Replayed E l r ∧ l.RowsOf (t :: s)) ?_ ⟨hl, hrows⟩ h
  · exact hend.2
  rintro l l' x r hsuf hts ⟨hrep, hrow⟩ hd
  have hf := hfresh x r hsuf (hts.ne_nil (cons_ne_nil _ _))
  obtain ⟨-, -, hu, -⟩ := disconnect_eq_some hd
  refine ⟨hrep.disconnect hf hd, fun y => ?_⟩
  rw [hu, db_disconnectBlock hrep hf, hrow y]
  split
  · rename_i hy
    exact (oldestRow_eq_none_of_suffix hts hy.1).symm
  · rfl

/-- Connecting writes no row. -/
lemma Ledger.Connects.db_eq (h : Ledger.Connects R s g l l') : l'.utxos.db = l.utxos.db := by
  induction h with
  | nil => rfl
  | cons _ hc _ ih =>
    obtain ⟨-, -, hu, -⟩ := connect_eq_some hc
    rw [ih, hu, db_connectBlock]

/-- Re-applied blocks get their rows back. -/
lemma Ledger.RowsOf.reapply {l : Ledger} (hrows : l.RowsOf s) :
    (o.reverse.foldl (reapply E) l).RowsOf (o ++ s) := by
  induction o with
  | nil => exact hrows
  | cons b o ih =>
    intro x
    rw [reverse_cons, foldl_append, cons_append, oldestRow_reverse_cons, ← ih x]
    show insertRows (UtxoSet.connectBlock E _ b.height b.transactions).db _ x = _
    rw [db_connectBlock, insertRows_eq]

/-! ## Every run -/

/-- The batches `add_block` would commit on `b` bring one row for each new address, and no
disconnected output shares its address with a retained one. -/
def RowsClean (R : Rules E) (n : Node) (b : Block) : Prop :=
  (n.isMainChain b → RowsAgree (outputRows b.height b.transactions) fun x => n.utxos.db x = none) ∧
  ∀ forkPoint, reorgPoint R n b = some forkPoint →
    let retained := n.blocksAt (List.range (forkPoint + 1))
    let dropped := n.blocksAt (heightsAbove forkPoint n.tip.height)
    let connected := (n.storeBlock E b).collectForkChain b forkPoint ++ [b]
    (∀ r ∈ chainRows dropped, oldestRow retained r.1 = none) ∧
      RowsAgree (chainRows connected) fun x => oldestRow retained x = none

instance (R : Rules E) (n : Node) (b : Block) : Decidable (RowsClean R n b) :=
  inferInstanceAs (Decidable ((_ → _) ∧ ∀ forkPoint ∈ reorgPoint R n b, _ ∧ _))

/-- Steps that keep the rows those of the oldest outputs. -/
def RowsGuard (R : Rules E) (n : Node) : Op → Prop
  | .addBlock b => UtxoGuard R n (.addBlock b) ∧ RowsClean R n b
  | _ => True

/-- Adding a block keeps the rows. -/
lemma Added.rowsOf (h : Added R n c b n' r c') (hn : ChainInv R n c) (hu : UtxoInv R n c)
    (hrows : n.ledger.RowsOf c) (hfresh : DeliversFresh R n b) (hclean : RowsClean R n b) :
    n'.ledger.RowsOf c' := by
  cases h with
  | stopped _ | stored => exact hrows
  | @extended _ l hb hprev hl hforget =>
    have hmain : n.isMainChain b = true := by simp [Node.isMainChain, hprev]
    have hdb : l.utxos.db = n.utxos.db := by
      obtain ⟨-, -, hu, -⟩ := connect_eq_some hl
      rw [hu, db_connectBlock]
      rfl
    intro x
    rw [hforget.eq]
    show commitRows (l.utxos.evictOldOutputs b.height 1000).db _ x = _
    rw [db_evictOldOutputs, hdb, commitRows_eq (hclean.1 hmain), oldestRow_reverse_cons, ← hrows x]
    rfl
  | @failed _ o f g rest s t l1 l2 l3 e hb hf _ _ hg hl1 hl2 hl3 _ hres =>
    obtain ⟨hrep2, hfr2⟩ := hu.connects (hu.stored.storeBlock hn hb hfresh) hf hg hl1 hl2
    have hrep := hu.replayed
    have hfr := hu.fresh
    rw [hf.chain] at hrep hfr hrows
    have hrows1 := hrows.disconnectAll hrep hfr hl1
    have hrows2 : l2.RowsOf (t :: s) := fun x => by rw [hl2.db_eq]; exact hrows1 x
    rw [hres.eq, hf.chain]
    exact (hrows2.undo hrep2 hfr2 hl3).reapply
  | @reorged o f s t l1 l2 txs hb hf hpoint _ hl1 hl2 =>
    have hrep := hu.replayed
    have hfr := hu.fresh
    have hn1 := hn.stored hb
    have hfork := hn1.collectForkChain_eq hf.branch
    have hc := hf.chain
    subst hc
    have hrows1 := hrows.disconnectAll hrep hfr hl1
    have hdropped : n.blocksAt (heightsAbove t.height n.tip.height) = o := by
      rw [hn.heightsAbove_eq]
      exact hn.blocksAt_map_height fun x hx => mem_append_left _ hx
    obtain ⟨hrem, hagree⟩ := hclean.2 _ hpoint
    rw [hn.blocksAt_range, hdropped] at hrem
    rw [hn.blocksAt_range, hfork] at hagree
    have hdb : ∀ x, l2.utxos.db x = oldestRow (t :: s).reverse x := fun x => by
      rw [hl2.db_eq]
      exact hrows1 x
    intro x
    show reorgRows l2.utxos.db _ (chainRows (newBranch f b)) x = _
    rw [reorgRows_eq, hdb x]
    · have hrev : (b :: f ++ t :: s).reverse = (t :: s).reverse ++ newBranch f b := by
        simp [newBranch]
      rw [hrev, oldestRow_append]
      rfl
    · intro y hy
      rw [mem_removedAddresses] at hy
      obtain ⟨r, hr, rfl⟩ := mem_map.mp hy
      rw [hdb, hrem r hr]
    · intro r hr r' hr' heq hnew
      rw [hdb] at hnew
      exact hagree r hr r' hr' heq hnew

lemma Stepped.rowsOf (h : Stepped R n c op n' c') (hn : ChainInv R n c) (hu : UtxoInv R n c)
    (hrows : n.ledger.RowsOf c) (hok : RowsGuard R n op) : n'.ledger.RowsOf c' := by
  cases h with
  | added _ hadded => exact hadded.rowsOf hn hu hrows hok.1.2 hok.2
  | unchanged => exact hrows
  | rolledBack hc hl =>
    subst hc
    exact hrows.disconnectAll hu.replayed hu.fresh hl
  | restarted hst =>
    intro x
    show n'.utxos.db x = _
    rw [hst.rows]
    exact hrows x

lemma genesisNode_rowsOf (R : Rules E) (pool : Option SparkPool) :
    (genesisNode R pool).ledger.RowsOf [R.genesis] := by
  intro x
  show insertRows (UtxoSet.connectBlock E _ 0 R.genesis.transactions).db _ x = _
  rw [db_connectBlock, insertRows_eq, oldestRow_reverse_cons, R.genesis_height]
  rfl

/-- In every run without collisions the row of every address is that of its oldest canonical output.
-/
theorem rows_oldest_of_reaches {pool : Option SparkPool}
    (h : Run.Reaches (step R) (RowsGuard R) (genesisNode R pool) n) (x : PublicKey) :
    n.utxos.db x = oldestRow (n.blocksAt (List.range (n.tip.height + 1))) x := by
  have hinv : ∃ c, ChainInv R n c ∧ UtxoInv R n c ∧ n.ledger.RowsOf c := by
    refine reaches_invariant (P := fun m q => UtxoInv R m q ∧ m.ledger.RowsOf q)
      (fun m op hok => by cases op <;> first | exact hok.1.1 | trivial)
      ⟨genesisNode_utxoInv R pool, genesisNode_rowsOf R pool⟩ ?_ h
    rintro m m' q q' op hq ⟨hu, hr⟩ hok hs
    have hutxo : UtxoGuard R m op := by cases op <;> first | exact hok.1 | trivial
    exact ⟨hs.utxoInv hq hu hutxo, hs.rowsOf hq hu hr hok⟩
  obtain ⟨c, hn, -, hrows⟩ := hinv
  rw [hn.blocksAt_eq]
  exact hrows x

/-- A block with a heavier sibling: the row of the dropped output goes, that of the new one comes.
-/
theorem rows_oldest_of_reaches_sibling :
    ∃ n, Run.Reaches (step openMainnet) (RowsGuard openMainnet) (genesisNode openMainnet none) n ∧
      n.tip.hash = 1002 ∧
      ∀ x, n.utxos.db x = oldestRow (n.blocksAt (List.range (n.tip.height + 1))) x := by
  set R := openMainnet
  set a1 := sampleBlock 1 1 0 (2 ^ 255) [payTo 5 1]
  set b1 := sampleBlock 1 2 0 (2 ^ 130) [payTo 6 2]
  have hrun : ∃ n1 ∈ step R (genesisNode R none) (.addBlock a1), ReorgCached R n1 b1 ∧
      n1.db.get b1.prevHash = some R.genesis ∧ RowsClean R n1 b1 ∧
      ∃ n2 ∈ step R n1 (.addBlock b1), n2.tip.hash = 1002 := by
    decide +kernel
  obtain ⟨n1, hstep1, hcached, hprev, hclean, n2, hstep2, htip⟩ := hrun
  have hok1 : RowsGuard R (genesisNode R none) (.addBlock a1) :=
    ⟨⟨by decide +kernel, deliversFresh_on_genesis (by decide +kernel) rfl (by decide +kernel)⟩,
      by decide +kernel⟩
  have hok2 : RowsGuard R n1 (.addBlock b1) :=
    ⟨⟨hcached, deliversFresh_on_genesis hprev rfl (by decide +kernel)⟩, hclean⟩
  have hreach : Run.Reaches (step R) (RowsGuard R) (genesisNode R none) n2 :=
    .tail (.tail .refl hok1 hstep1) hok2 hstep2
  exact ⟨n2, hreach, htip, rows_oldest_of_reaches hreach⟩

/-- Two blocks pay to one address and a heavier sibling of the second does not: the reorganisation
drops the row of the first. -/
theorem reorg_drops_row_of_retained :
    ∃ n e, Run.Reaches (step openMainnet) (fun _ _ => True) (genesisNode openMainnet none) n ∧
      oldestRow (n.blocksAt (List.range (n.tip.height + 1))) 5 = some e ∧
      n.utxos.db 5 = none := by
  simp only [exists_and_left]
  apply Run.exists_reaches_of_exec [.addBlock (sampleBlock 1 1 0 (2 ^ 255) [payTo 5 1]),
    .addBlock (sampleBlock 2 1 1001 (2 ^ 255) [payTo 5 2]),
    .addBlock (sampleBlock 2 2 1001 (2 ^ 130) [])]
  decide +kernel

end CoinCync

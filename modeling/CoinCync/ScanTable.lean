import CoinCync.Lib.Rescan
import CoinCync.ScanCommand

/-!
# The balance as a table of the scanned blocks

For the blocks that a node ever serves (`known`) hashes are taken to be free of collisions, and distinct
outputs to have distinct key images (`Distinct`). The balance is then the table of a log in the sense
of `Rescan`: a block creates the rows of the outputs it pays to the wallet and marks those whose key
images it spends. Undoing blocks leaves the table of the blocks below, provided that the journal has
an entry for each and that no spend was missing from it (`Journal`).
-/

namespace CoinCync.Wallet

open List Option Balance

open Rescan (Feed)

/-- The flag, if the output's key image is among these. -/
def Utxo.flag (images : List KeyImage) (spent : Bool) (u : Utxo) : Utxo :=
  if u.keyImage ∈ images then { u with spent } else u

@[simp] lemma Utxo.keyImage_flag (images : List KeyImage) (spent : Bool) (u : Utxo) :
    (u.flag images spent).keyImage = u.keyImage := by
  unfold flag
  split_ifs <;> rfl

lemma Utxo.flag_nil (spent : Bool) : Utxo.flag [] spent = id := by
  funext u
  simp [flag]

lemma Utxo.flag_cons (ki : KeyImage) (images : List KeyImage) (spent : Bool) :
    Utxo.flag (ki :: images) spent = Utxo.flag images spent ∘ Utxo.withSpent ki spent := by
  funext u
  by_cases hki : u.keyImage = ki <;> by_cases himages : u.keyImage ∈ images <;>
    simp [flag, withSpent, hki]

lemma Utxo.flag_append (images images' : List KeyImage) (spent : Bool) (u : Utxo) :
    u.flag (images ++ images') spent = (u.flag images spent).flag images' spent := by
  by_cases h : u.keyImage ∈ images <;> by_cases h' : u.keyImage ∈ images' <;> simp [flag, h]

namespace Balance

variable {block : Block} {height : ℕ}

/-- An operation that sets the flag of one key image. -/
structure SetsFlag (op : Balance → KeyImage → Balance) (spent : Bool) : Prop where
  indexed : ∀ {b : Balance}, b.Indexed → ∀ ki, (op b ki).Indexed
  get : ∀ {b : Balance}, b.Indexed → ∀ ki key,
    (op b ki).get key = (b.get key).map (Utxo.withSpent ki spent)

lemma setsFlag_mark : SetsFlag markSpentByKeyImage true :=
  ⟨Indexed.markSpentByKeyImage, fun h _ _ => get_markSpentByKeyImage h⟩

lemma setsFlag_unmark : SetsFlag unmarkSpentByKeyImage false :=
  ⟨Indexed.unmarkSpentByKeyImage, fun h _ _ => get_unmarkSpentByKeyImage h⟩

lemma SetsFlag.foldl (hop : SetsFlag op spent) (h : b.Indexed) (images : List KeyImage) :
    (images.foldl op b).Indexed ∧
      ∀ key, (images.foldl op b).get key = (b.get key).map (Utxo.flag images spent) := by
  induction images generalizing b with
  | nil =>
    refine ⟨h, fun key => ?_⟩
    rw [Utxo.flag_nil, map_id_apply]
    rfl
  | cons ki images ih =>
    obtain ⟨hindexed, hget⟩ := ih (hop.indexed h ki)
    refine ⟨hindexed, fun key => ?_⟩
    rw [foldl_cons, hget, hop.get h, Option.map_map, Utxo.flag_cons]

/-- The key images a spent check writes to the journal. -/
def newlySpent : Balance → List KeyImage → List KeyImage
  | _, [] => []
  | b, ki :: images =>
    (if (b.lookupByKeyImage ki).isSome then [ki] else []) ++ newlySpent (b.markSpentByKeyImage ki) images

/-- They are those of the outputs that were unspent before. -/
lemma mem_newlySpent (h : b.Indexed) (hget : b.get key = some u) (images : List KeyImage) :
    u.keyImage ∈ newlySpent b images ↔ u.spent = false ∧ u.keyImage ∈ images := by
  induction images generalizing b u with
  | nil => simp [newlySpent]
  | cons ki images ih =>
    have hnext : (b.markSpentByKeyImage ki).get key = some (u.withSpent ki true) := by
      rw [get_markSpentByKeyImage h, hget, map_some]
    have hrest := ih (h.markSpentByKeyImage ki) hnext
    rw [newlySpent, mem_append]
    by_cases hki : u.keyImage = ki
    · have hlookup : (b.lookupByKeyImage ki).isSome = true ↔ u.spent = false := by
        rw [isSome_iff_exists]
        constructor
        · rintro ⟨key', hkey'⟩
          obtain ⟨v, hv, himage, hspent⟩ := (lookupByKeyImage_eq_some h).mp hkey'
          obtain rfl := h.eq_of_keyImage hget hv (hki.trans himage.symm)
          rwa [mem_unique hget hv]
        · exact fun hspent => ⟨key, (lookupByKeyImage_eq_some h).mpr ⟨u, hget, hki, hspent⟩⟩
      have hlater : u.keyImage ∉ newlySpent (b.markSpentByKeyImage ki) images := by
        simp only [Utxo.withSpent, hki, if_true] at hrest
        rw [hki]
        simp [hrest]
      by_cases hspent : u.spent = false
      · rw [if_pos (hlookup.mpr hspent)]
        simp [hki, hspent]
      · rw [if_neg (fun hsome => hspent (hlookup.mp hsome))]
        simp [hlater, hspent]
    · rw [Utxo.withSpent, if_neg hki] at hrest
      rw [hrest]
      split_ifs <;> simp [hki]

end Balance

/-- The spent check of a block. -/
lemma foldl_recordSpend (images : List KeyImage) (r : Scan)
    (hjournal : r.scanner.journal = diff :: rest) :
    images.foldl Scan.recordSpend r =
      { r with
        balance := images.foldl markSpentByKeyImage r.balance
        scanner :=
          { r.scanner with
            journal :=
              { diff with
                keyImagesMarkedSpent :=
                  diff.keyImagesMarkedSpent ++ newlySpent r.balance images } :: rest } } := by
  induction images generalizing r diff with
  | nil => simp [newlySpent, ← hjournal]
  | cons ki images ih =>
    rw [foldl_cons]
    cases hlookup : r.balance.lookupByKeyImage ki with
    | none =>
      have hrecord : r.recordSpend ki = { r with balance := r.balance.markSpentByKeyImage ki } := by
        simp [Scan.recordSpend, hlookup]
      rw [hrecord, ih { r with balance := r.balance.markSpentByKeyImage ki } hjournal]
      simp [newlySpent, hlookup]
    | some key =>
      have hrecord : r.recordSpend ki =
          { r with
            balance := r.balance.markSpentByKeyImage ki
            scanner :=
              { r.scanner with
                journal :=
                  { diff with keyImagesMarkedSpent := diff.keyImagesMarkedSpent ++ [ki] } :: rest } } := by
        simp [Scan.recordSpend, hlookup, WalletScanner.recordSpendForLastBlock, hjournal]
      rw [hrecord, ih _ rfl]
      simp [newlySpent, hlookup]

/-! ## Rows of the blocks -/

namespace ScanSetup

variable {F G : Type} [CommRing F] [AddCommGroup G] [Module F G] {C : Curve F G} (U : ScanSetup C)

/-- Hashes of blocks, of transactions, and key images of the wallet's outputs are distinct. -/
structure Distinct (known : List Block) : Prop where
  block_eq : ∀ b ∈ known, ∀ c ∈ known, U.env.blockHash b.header = U.env.blockHash c.header → b = c
  tx_eq : ∀ b ∈ known, ∀ c ∈ known, ∀ tx ∈ b.transactions, ∀ tx' ∈ c.transactions,
    U.env.txHash tx = U.env.txHash tx' → tx = tx'
  key_eq : ∀ b ∈ known, ∀ c ∈ known, ∀ u ∈ U.rows b, ∀ v ∈ U.rows c,
    u.keyImage = v.keyImage → u.key = v.key

/-- The key image of an output, from the transaction alone. -/
def keyImageAt (tx : Transaction) (index : ℕ) : Option KeyImage := do
  let output ← tx.outputs[index]?
  let d ← scanOutput C U.scanKeys output index (U.env.txHash tx) tx.isRevealed
  let secret ← (C.computeOneTimeSecret ⟨d.output.stealthAddress, d.output.txPublicKey⟩ U.keys.viewSecret
    (effectiveSpend C U.keys.spendSecret U.keys.viewSecret d.subaddressIndex) d.outputIndex).toOption
  return C.keyImage secret

variable {U}

lemma mem_rows (h : u ∈ U.rows block) :
    ∃ d ∈ scanBlock C U.env U.scanKeys block,
      decryptedToUtxo C d U.keys.viewSecret U.keys.spendSecret block.height = .ok u := by
  unfold rows received toUtxos at h
  cases hrows : (scanBlock C U.env U.scanKeys block).mapM fun d =>
      decryptedToUtxo C d U.keys.viewSecret U.keys.spendSecret block.height with
  | error e => simp [hrows, Except.toOption] at h
  | ok us =>
    rw [hrows] at h
    have hmap := Check.map_eq_of_mapM hrows
      fun _ _ h => h.symm
    have hmem : (Except.ok u : Except WalletError Utxo) ∈ us.map Except.ok :=
      mem_map_of_mem h
    rw [hmap] at hmem
    exact mem_map.mp hmem

lemma decryptedToUtxo_inv (h : decryptedToUtxo C d viewSecret spendSecret height = .ok u) :
    ∃ secret, C.computeOneTimeSecret ⟨d.output.stealthAddress, d.output.txPublicKey⟩ viewSecret
      (effectiveSpend C spendSecret viewSecret d.subaddressIndex) d.outputIndex = .ok secret ∧
      u = d.utxo C height secret := by
  obtain ⟨-, h⟩ := Check.seq_eq_ok.mp h
  obtain ⟨secret, hsecret, h⟩ := Check.bind_eq_ok.mp h
  exact ⟨secret, Check.mapError_eq_ok.mp hsecret, (Except.ok.inj h).symm⟩

lemma key_of_decryptedToUtxo (h : decryptedToUtxo C d viewSecret spendSecret height = .ok u) :
    u.key = (d.txHash, d.outputIndex) := by
  obtain ⟨secret, -, rfl⟩ := decryptedToUtxo_inv h
  rfl

/-- A row has the key image of its output. -/
lemma keyImageAt_of_mem_rows (h : u ∈ U.rows block) :
    ∃ tx ∈ block.transactions, u.txHash = U.env.txHash tx ∧
      U.keyImageAt tx u.outputIndex = some u.keyImage := by
  obtain ⟨d, hd, hu⟩ := mem_rows h
  obtain ⟨secret, hsecret, rfl⟩ := decryptedToUtxo_inv hu
  obtain ⟨tx, htx, hd⟩ := mem_flatMap.mp hd
  obtain ⟨paymentId, heq⟩ := scanBlockTransaction_eq (C := C) U.scanKeys block tx
  rw [heq] at hd
  obtain ⟨found, hfound, rfl⟩ := mem_map.mp hd
  obtain ⟨⟨output, i⟩, hmem, hscan⟩ := mem_filterMap.mp hfound
  obtain ⟨hhash, hindex⟩ := outputIndex_scanOutput hscan
  have houtput : tx.outputs[i]? = some output := by
    have htake := mk_mem_zipIdx_iff_getElem?.mp hmem
    rw [getElem?_take] at htake
    split_ifs at htake
    exact htake
  refine ⟨tx, htx, hhash, ?_⟩
  have hutxo : (DecryptedOutput.utxo C (found.complete (blockLocators U.env block) paymentId)
    block.height secret).outputIndex = i := hindex
  rw [hutxo]
  simp only [keyImageAt, houtput, hscan, bind_eq_bind, bind_some]
  have hcompute : C.computeOneTimeSecret ⟨found.output.stealthAddress, found.output.txPublicKey⟩
      U.keys.viewSecret (effectiveSpend C U.keys.spendSecret U.keys.viewSecret found.subaddressIndex)
      found.outputIndex = .ok secret := hsecret
  rw [hcompute]
  rfl

variable {known : List Block} (hdistinct : U.Distinct known)
include hdistinct

/-- Rows are told apart by their key images. -/
lemma Distinct.keyImage_iff (hb : b ∈ known) (hc : c ∈ known) (hu : u ∈ U.rows b)
    (hv : v ∈ U.rows c) : u.keyImage = v.keyImage ↔ u.key = v.key := by
  refine ⟨hdistinct.key_eq b hb c hc u hu v hv, fun hkey => ?_⟩
  obtain ⟨tx, htx, hhash, himage⟩ := keyImageAt_of_mem_rows hu
  obtain ⟨tx', htx', hhash', himage'⟩ := keyImageAt_of_mem_rows hv
  have hkeys := Prod.mk.inj hkey
  obtain rfl := hdistinct.tx_eq b hb c hc tx htx tx' htx' (hhash.symm.trans (hkeys.1.trans hhash'))
  rw [hkeys.2, himage'] at himage
  exact (some.inj himage).symm

omit hdistinct

/-! ## Reading blocks -/

variable (U) in
/-- What blocks do to the rows of the balance. -/
def feed : Feed Block UtxoKey Utxo where
  created block key := (U.rows block).reverse.find? (·.key = key)
  mark block := Utxo.flag block.keyImages true
  mark_mark block u := by by_cases h : u.keyImage ∈ block.keyImages <;> simp [Utxo.flag, h]
  mark_comm block block' u := by
    by_cases h : u.keyImage ∈ block.keyImages <;> by_cases h' : u.keyImage ∈ block'.keyImages <;>
      simp [Utxo.flag, h, h']

variable (U) in
/-- The index is right and the rows come from known blocks. -/
structure Sound (known : List Block) (b : Balance) : Prop where
  indexed : b.Indexed
  row : ∀ key u, b.get key = some u → ∃ block ∈ known, ∃ v ∈ U.rows block,
    v.key = key ∧ v.keyImage = u.keyImage

lemma sound_new : U.Sound known .new := ⟨indexed_new, by simp⟩

/-- A change of the flags. -/
lemma Sound.of_flags (h : U.Sound known b) (hindexed : b'.Indexed)
    (hget : ∀ key u, b'.get key = some u → ∃ v, b.get key = some v ∧ v.keyImage = u.keyImage) :
    U.Sound known b' := by
  refine ⟨hindexed, fun key u hu => ?_⟩
  obtain ⟨v, hv, himage⟩ := hget key u hu
  rw [← himage]
  exact h.row key v hv

lemma Sound.setFlags (h : U.Sound known b) (hop : Balance.SetsFlag op spent)
    (images : List KeyImage) : U.Sound known (images.foldl op b) := by
  obtain ⟨hindexed, hget⟩ := hop.foldl h.indexed images
  refine h.of_flags hindexed fun key u hu => ?_
  rw [hget] at hu
  obtain ⟨v, hv, rfl⟩ := map_eq_some_iff.mp hu
  exact ⟨v, hv, (Utxo.keyImage_flag images spent v).symm⟩

lemma Sound.removeOutputs (h : U.Sound known b) (keys : List UtxoKey) :
    U.Sound known (b.removeOutputs keys) := by
  refine h.of_flags (h.indexed.removeOutputs keys) fun key u hu => ?_
  rw [get_removeOutputs] at hu
  split_ifs at hu
  exact ⟨u, hu, rfl⟩

include hdistinct

/-- Rows of known outputs are added one by one. -/
lemma Sound.addUtxos (h : U.Sound known b) {us : List Utxo}
    (hus : ∀ u ∈ us, ∃ block ∈ known, ∃ v ∈ U.rows block, v.key = u.key ∧ v.keyImage = u.keyImage) :
    U.Sound known (us.foldl addUtxo b) ∧
      ∀ key, (us.foldl addUtxo b).get key = (us.reverse.find? (·.key = key)).or (b.get key) := by
  induction us generalizing b with
  | nil => exact ⟨h, by simp⟩
  | cons u us ih =>
    obtain ⟨block, hblock, v, hv, hkey, himage⟩ := hus u mem_cons_self
    have hnew : ∀ key w, b.get key = some w → (w.keyImage = u.keyImage ↔ key = u.key) := by
      intro key w hw
      obtain ⟨block', hblock', v', hv', rfl, himage'⟩ := h.row key w hw
      rw [← himage', ← himage, ← hkey]
      exact hdistinct.keyImage_iff hblock' hblock hv' hv
    have hsound : U.Sound known (b.addUtxo u) := by
      refine ⟨h.indexed.addUtxo hnew, fun key w hw => ?_⟩
      rw [get_addUtxo] at hw
      split_ifs at hw with hkey'
      · cases hw
        exact ⟨block, hblock, v, hv, hkey.trans hkey'.symm, himage⟩
      · exact h.row key w hw
    obtain ⟨hsound', hget⟩ := ih hsound fun w hw => hus w (mem_cons_of_mem _ hw)
    refine ⟨hsound', fun key => ?_⟩
    rw [foldl_cons, hget, get_addUtxo, reverse_cons, find?_append]
    cases us.reverse.find? (·.key = key) with
    | some w => rfl
    | none =>
      by_cases hk : key = u.key
      · simp [hk]
      · simp [hk, Ne.symm hk]

lemma Sound.addRows (h : U.Sound known b) {block : Block} (hblock : block ∈ known) :
    U.Sound known ((U.rows block).foldl addUtxo b) ∧
      ∀ key, ((U.rows block).foldl addUtxo b).get key
        = (U.feed.created block key).or (b.get key) :=
  h.addUtxos hdistinct fun u hu => ⟨block, hblock, u, hu, rfl, rfl⟩

/-- Reading a block applies it. -/
lemma Sound.readBlock (h : U.Sound known b) (hblock : block ∈ known) :
    U.Sound known (U.readBlock b block) ∧ (U.readBlock b block).get = U.feed.apply b.get block := by
  obtain ⟨hsound, hget⟩ := h.addRows hdistinct hblock
  refine ⟨hsound.setFlags setsFlag_mark _, ?_⟩
  funext key
  rw [ScanSetup.readBlock, (setsFlag_mark.foldl hsound.indexed _).2, hget]
  rfl

/-- Reading a chain replays it. -/
lemma get_freshScan {q : List Block} (hq : ∀ block ∈ q, block ∈ known) :
    U.Sound known (U.freshScan q) ∧ (U.freshScan q).get = U.feed.replay q := by
  induction q using reverseRecOn with
  | nil => exact ⟨sound_new, rfl⟩
  | append_singleton q block ih =>
    obtain ⟨hsound, hget⟩ := ih fun b hb => hq b (mem_append_left _ hb)
    have hblock : block ∈ known := hq block (by simp)
    have hread : U.freshScan (q ++ [block]) = U.readBlock (U.freshScan q) block := by
      simp [freshScan]
    rw [hread, Feed.replay_concat, ← hget]
    exact hsound.readBlock hdistinct hblock

/-- Opening the file builds the index anew. -/
lemma Sound.unlock {disk : StoredWallet} (h : U.Sound known disk.balance) :
    U.Sound known disk.unlock ∧ disk.unlock.get = disk.balance.get := by
  have hknown : ∀ u ∈ disk.balance.utxos, ∃ block ∈ known, ∃ v ∈ U.rows block,
      v.key = u.key ∧ v.keyImage = u.keyImage :=
    fun u hu => h.row u.key u (get_eq_some.mpr ⟨hu, rfl⟩)
  obtain ⟨hsound, hget⟩ := sound_new.addUtxos hdistinct hknown
  refine ⟨⟨hsound.indexed, hsound.row⟩, funext fun key => ext fun u => ?_⟩
  have hunlock : disk.unlock.get key = (disk.balance.utxos.foldl addUtxo .new).get key := rfl
  have hnodup : (disk.balance.utxos.reverse.map Utxo.key).Nodup := by
    rw [map_reverse]
    exact nodup_reverse.mpr disk.balance.utxos_nodup
  rw [hunlock, hget, get_new, or_none, Table.find?_eq_some_iff hnodup, mem_reverse, get_eq_some]

omit hdistinct

/-! ## The journal -/

variable (U) in
/-- The entry of a block read after the blocks `q`. Where fewer than `n` blocks stood before it,
what it spends may have been marked already, and is then not named. -/
structure Records (n : ℕ) (q : List Block) (block : Block) (diff : BlockApplyDiff) : Prop where
  height : diff.height = q.length
  hash : diff.blockHash = U.env.blockHash block.header
  outputs : ∀ key, key ∈ diff.outputsAdded ↔ (U.feed.created block key).isSome
  spends : n ≤ q.length → ∀ key u, (U.feed.created block key).or (U.feed.replay q key) = some u →
    (u.keyImage ∈ diff.keyImagesMarkedSpent ↔ u.spent = false ∧ u.keyImage ∈ block.keyImages)

variable (U) in
/-- The entries are those of the last blocks of `q`. -/
inductive Journal (n : ℕ) : List Block → List BlockApplyDiff → Prop
  | nil (q : List Block) : Journal n q []
  | cons {q : List Block} {block : Block} {diff : BlockApplyDiff} {journal : List BlockApplyDiff} :
      Journal n q journal → U.Records n q block diff → Journal n (q ++ [block]) (diff :: journal)

variable {q : List Block} {journal : List BlockApplyDiff}

lemma Journal.take (h : U.Journal n q journal) (m : ℕ) : U.Journal n q (journal.take m) := by
  induction h generalizing m with
  | nil q =>
    rw [take_nil]
    exact .nil q
  | cons _ hrecords ih =>
    cases m with
    | zero => exact .nil _
    | succ m => exact .cons (ih m) hrecords

lemma marks_eq (s : List Block) (u : Utxo) :
    U.feed.marks s u = u.flag (s.flatMap Block.keyImages) true := by
  induction s using reverseRecOn with
  | nil => exact (congrFun (Utxo.flag_nil true) u).symm
  | append_singleton s block ih =>
    have hmarks : U.feed.marks (s ++ [block]) u = (U.feed.marks s u).flag block.keyImages true := by
      simp [Feed.marks, feed]
    rw [hmarks, ih, flatMap_append, Utxo.flag_append]
    simp

/-- What entries above a height name: their outputs, and older ones they first spent. -/
structure Undoes (U : ScanSetup C) (undone : List BlockApplyDiff) (p s : List Block) : Prop where
  outputs : ∀ key, key ∈ undone.flatMap (·.outputsAdded) ↔ U.feed.Creates s key
  spends : ∀ key u, U.feed.replay p key = some u → ¬U.feed.Creates s key →
    (u.keyImage ∈ undone.flatMap (·.keyImagesMarkedSpent) ↔
      u.spent = false ∧ u.keyImage ∈ s.flatMap Block.keyImages)

lemma Undoes.nil (p : List Block) : Undoes U [] p [] := ⟨by simp [Feed.Creates], by simp⟩

lemma Undoes.concat (h : Undoes U undone p s) (hrecords : U.Records n (p ++ s) block diff)
    (hn : n ≤ (p ++ s).length) : Undoes U (diff :: undone) p (s ++ [block]) := by
  refine ⟨fun key => ?_, fun key u hu hcreates => ?_⟩
  · rw [flatMap_cons, mem_append, h.outputs, hrecords.outputs, Feed.creates_concat, or_comm]
  · rw [Feed.creates_concat, not_or, not_isSome_iff_eq_none] at hcreates
    have hbefore : (U.feed.created block key).or (U.feed.replay (p ++ s) key)
        = some (u.flag (s.flatMap Block.keyImages) true) := by
      rw [hcreates.2, none_or, Feed.replay_append_of_not_creates hcreates.1, hu, map_some, marks_eq]
    have hdiff := hrecords.spends hn key _ hbefore
    rw [Utxo.keyImage_flag] at hdiff
    rw [flatMap_cons, mem_append, h.spends key u hu hcreates.1, hdiff]
    -- spent by a block of `s` already, or not
    by_cases himage : u.keyImage ∈ s.flatMap Block.keyImages
    · simp [Utxo.flag, himage]
    · simp [Utxo.flag, himage]

/-- The entries above a fork. -/
lemma Journal.rewind (h : U.Journal n q journal) (hn : n ≤ fork + 1)
    (hwindow : q.length ≤ fork + 1 + journal.length) :
    U.Journal n (q.take (fork + 1)) (journal.dropWhile fun diff => fork < diff.height) ∧
      Undoes U (journal.takeWhile fun diff => fork < diff.height) (q.take (fork + 1))
        (q.drop (fork + 1)) := by
  induction h with
  | nil q =>
    have hq : q.length ≤ fork + 1 := by simpa using hwindow
    rw [drop_eq_nil_of_le hq]
    exact ⟨.nil _, .nil _⟩
  | @cons q block diff journal hjournal hrecords ih =>
    rw [length_append, length_singleton, length_cons] at hwindow
    by_cases hfork : fork < q.length
    · have hheight : fork < diff.height := by rw [hrecords.height]; exact hfork
      obtain ⟨hkept, hundoes⟩ := ih (by omega)
      rw [dropWhile_cons_of_pos (by simpa using hheight),
        takeWhile_cons_of_pos (by simpa using hheight), take_append_of_le_length hfork,
        drop_append_of_le_length hfork]
      refine ⟨hkept, hundoes.concat (n := n) ?_ ?_⟩
      · rwa [take_append_drop]
      · rw [take_append_drop]
        omega
    · have hheight : ¬fork < diff.height := by rw [hrecords.height]; exact hfork
      have hlen : (q ++ [block]).length ≤ fork + 1 := by
        rw [length_append, length_singleton]
        omega
      rw [dropWhile_cons_of_neg (by simpa using hheight),
        takeWhile_cons_of_neg (by simpa using hheight), take_of_length_le hlen,
        drop_eq_nil_of_le hlen]
      exact ⟨.cons hjournal hrecords, .nil _⟩

/-- Undoing `s` leaves the table of `p`, if no output is in both. -/
lemma Sound.undo (h : U.Sound known b) (hget : b.get = U.feed.replay (p ++ s))
    (hundoes : Undoes U undone p s) (honce : ∀ key, U.feed.Creates s key → ¬U.feed.Creates p key) :
    U.Sound known ((undone.flatMap (·.keyImagesMarkedSpent)).foldl unmarkSpentByKeyImage
      (b.removeOutputs (undone.flatMap (·.outputsAdded)))) ∧
    ((undone.flatMap (·.keyImagesMarkedSpent)).foldl unmarkSpentByKeyImage
      (b.removeOutputs (undone.flatMap (·.outputsAdded)))).get = U.feed.replay p := by
  have hremoved := h.removeOutputs (undone.flatMap (·.outputsAdded))
  refine ⟨hremoved.setFlags setsFlag_unmark _, ?_⟩
  funext key
  rw [(setsFlag_unmark.foldl hremoved.indexed _).2, get_removeOutputs]
  by_cases hcreates : U.feed.Creates s key
  · rw [if_pos ((hundoes.outputs key).mpr hcreates), Feed.replay_eq_none (honce key hcreates)]
    rfl
  · rw [if_neg (fun hmem => hcreates ((hundoes.outputs key).mp hmem)), hget, Feed.replay_append_of_not_creates hcreates]
    cases hu : U.feed.replay p key with
    | none => rfl
    | some u =>
      have hspends := hundoes.spends key u hu hcreates
      rw [map_some, map_some, marks_eq, Utxo.flag, Utxo.keyImage_flag]
      -- only what the entries name was marked by these blocks
      by_cases himage : u.keyImage ∈ s.flatMap Block.keyImages
      · by_cases hspent : u.spent = false
        · rw [if_pos (hspends.mpr ⟨hspent, himage⟩), Utxo.flag, if_pos himage, ← hspent]
        · rw [if_neg (fun hmem => hspent (hspends.mp hmem).1), Utxo.flag, if_pos himage]
          rw [Bool.not_eq_false] at hspent
          rw [← hspent]
      · rw [if_neg (fun hmem => himage (hspends.mp hmem).2), Utxo.flag, if_neg himage]

/-! ## One block of a batch -/

lemma keys_of_received (h : U.received block = .ok us) :
    (scanBlock C U.env U.scanKeys block).map (fun d => (d.txHash, d.outputIndex)) = us.map Utxo.key :=
  (Check.map_eq_of_mapM h fun _ _ h => key_of_decryptedToUtxo h).symm

/-- A block that extends the journal is read and journaled. -/
lemma scanOne_eq_ok (hreorg : r.scanner.reorgSignal block = none)
    (hmax : 0 < r.scanner.journalMax) (hus : U.received block = .ok us) :
    U.scanOne r block.height block = .ok (some
      { r with
        balance := U.readBlock r.balance block
        scanner :=
          { lastHeight := block.height
            lastHash := U.env.blockHash block.header
            journal :=
              { height := block.height
                blockHash := U.env.blockHash block.header
                prevBlockHash := block.header.prevHash
                outputsAdded := us.map Utxo.key
                keyImagesMarkedSpent :=
                  newlySpent ((U.rows block).foldl addUtxo r.balance) block.keyImages } ::
              r.scanner.journal.take (r.scanner.journalMax - 1)
            journalMax := r.scanner.journalMax }
        lastHeight := block.height }) := by
  have hrows : U.rows block = us := by simp [rows, hus, Except.toOption]
  have hus' : U.toUtxos (scanBlock C U.env U.scanKeys block) block.height = .ok us := hus
  obtain ⟨m, hm⟩ : ∃ m, r.scanner.journalMax = m + 1 := ⟨_, (Nat.succ_pred_eq_of_pos hmax).symm⟩
  unfold scanOne scanBlockWithResult
  simp only [hreorg, WalletScanner.recordJournalEntry, lt_irrefl, if_false, hm, hus', Except.mapError,
    take_succ_cons]
  simp only [bind, Except.bind, pure, Except.pure]
  rw [foldl_recordSpend _ _ rfl]
  simp only [keys_of_received hus, nil_append, readBlock, hrows, Nat.add_sub_cancel]

/-- A block with an output that cannot be read. -/
lemma scanOne_of_error (hreorg : r.scanner.reorgSignal block = none)
    (he : U.received block = .error e) : U.scanOne r block.height block = .error (.wallet e) := by
  have he' : U.toUtxos (scanBlock C U.env U.scanKeys block) block.height = .error e := he
  unfold scanOne scanBlockWithResult
  simp only [hreorg, he']
  rfl

/-- A block that does not extend the journal. -/
lemma scanOne_of_reorg (hreorg : r.scanner.reorgSignal block = some expected) :
    U.scanOne r height block = .ok none := by
  unfold scanOne scanBlockWithResult
  simp only [hreorg]

/-- The entry of the block. -/
lemma records_of_received (hdistinct : U.Distinct known) (hb : U.Sound known b)
    (hblock : block ∈ known) (hheight : block.height = q.length)
    (hus : U.received block = .ok us) (hget : n ≤ q.length → b.get = U.feed.replay q) :
    U.Records n q block
      { height := block.height
        blockHash := U.env.blockHash block.header
        prevBlockHash := block.header.prevHash
        outputsAdded := us.map Utxo.key
        keyImagesMarkedSpent :=
          newlySpent ((U.rows block).foldl addUtxo b) block.keyImages } where
  height := hheight
  hash := rfl
  outputs key := by
    have hrows : U.rows block = us := by simp [rows, hus, Except.toOption]
    simp only [feed, hrows, find?_isSome, List.mem_map, mem_reverse, decide_eq_true_eq]
  spends hn key u hu := by
    obtain ⟨hsound, hgets⟩ := hb.addRows hdistinct hblock
    apply mem_newlySpent hsound.indexed
    rw [hgets key, hget hn]
    exact hu

end ScanSetup

end CoinCync.Wallet

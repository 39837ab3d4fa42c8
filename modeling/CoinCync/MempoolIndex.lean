import CoinCync.Lib.Run
import CoinCync.Mempool

/-!
# The tables of the mempool

A mempool keeps its residents in one table and four summaries of it. Every way out of the mempool is
`remove`, so one lemma (`Coherent.remove`) covers all of them; the only way in is `insert`.
-/

namespace CoinCync

open Check List

variable {E : Env} {K : MempoolEnv E} {m m' : Mempool} {tx : Transaction} {h : Hash}
  {e : MempoolEntry} {now : ℕ}
variable {r : Hash × MempoolEntry} {replaced : List Hash} {images : List KeyImage}
  {ok : Mempool → MempoolOp → Prop} {op : MempoolOp} {txs : List Transaction} {rate : ℕ}

/-- The summaries describe residents with distinct hashes, key images and tags. -/
structure Mempool.Coherent (K : MempoolEnv E) (m : Mempool) : Prop where
  keys : (m.transactions.map (·.1)).Nodup
  hashes : ∀ r ∈ m.transactions, E.txHash r.2.tx = r.1
  byFee : m.byFee.Perm (m.transactions.map fun r => (r.2.feePerByte, r.1))
  images : Table.Summary (fun r => r.2.tx.keyImages) m.transactions m.keyImages
  ownImages : ∀ r ∈ m.transactions, r.2.tx.keyImages.Nodup
  tags : Table.Summary (fun r => linkingTagsOf K r.2.tx) m.transactions m.linkingTags
  size : m.currentSize = (m.transactions.map (·.2.size)).sum

/-- The transaction a call submits. -/
def MempoolOp.submits : MempoolOp → Option Transaction
  | .add tx _ => some tx
  | .addWithChain _ tx _ => some tx
  | _ => none

namespace Mempool

lemma withMaxSize_coherent (maxSize : ℕ) : (withMaxSize maxSize).Coherent K where
  keys := nodup_nil
  hashes r hr := by simp [withMaxSize] at hr
  byFee := List.Perm.refl _
  images := .nil _
  ownImages r hr := by simp [withMaxSize] at hr
  tags := .nil _
  size := rfl

/-! ## Removal -/

lemma get_eq_none : m.get h = none ↔ h ∉ m.transactions.map (·.1) :=
  Table.lookup_eq_none_iff_notMem

lemma filter_transactions (hnone : m.get h = none) :
    m.transactions.filter (·.1 ≠ h) = m.transactions := by
  apply filter_eq_self.mpr
  intro r hr
  simpa using fun hk : r.1 = h => get_eq_none.mp hnone (mem_map.mpr ⟨r, hr, hk⟩)

lemma transactions_remove : (m.remove K h).transactions = m.transactions.filter (·.1 ≠ h) := by
  unfold remove
  split
  · rename_i hnone
    exact (filter_transactions hnone).symm
  · rfl

lemma transactions_removeAll (hs : List Hash) :
    (m.removeAll K hs).transactions = m.transactions.filter (·.1 ∉ hs) := by
  induction hs generalizing m with
  | nil => simp [removeAll]
  | cons h hs ih =>
    have hcons : m.removeAll K (h :: hs) = (m.remove K h).removeAll K hs := rfl
    rw [hcons, ih, transactions_remove, filter_filter]
    simp [Bool.and_comm]

lemma mem_removeAll : r ∈ (m.removeAll K hs).transactions ↔ r ∈ m.transactions ∧ r.1 ∉ hs := by
  rw [transactions_removeAll, mem_filter, decide_eq_true_eq]

lemma removeAll_append (hs hs' : List Hash) :
    m.removeAll K (hs ++ hs') = (m.removeAll K hs).removeAll K hs' := foldl_append

namespace Coherent

/-- A lookup finds the resident. -/
lemma get_eq_some (hm : m.Coherent K) : m.get h = some e ↔ (h, e) ∈ m.transactions :=
  ⟨Table.mem_of_lookup_eq_some, Table.lookup_eq_some_of_mem hm.keys⟩

/-- A resident's key in the fee index is that of no other. -/
lemma filter_keys (hm : m.Coherent K) (hmem : (h, e) ∈ m.transactions) :
    (m.transactions.map fun r => (r.2.feePerByte, r.1)).filter (· ≠ (e.feePerByte, h))
      = (m.transactions.filter (·.1 ≠ h)).map fun r => (r.2.feePerByte, r.1) := by
  rw [filter_map]
  congr 1
  apply filter_congr
  intro r hr
  by_cases hk : r.1 = h
  · have hsame : m.get r.1 = some r.2 := hm.get_eq_some.mpr hr
    rw [hk, hm.get_eq_some.mpr hmem] at hsame
    cases hsame
    simp
  · simp [hk]

/-- A removal keeps the summaries exact. -/
lemma remove (hm : m.Coherent K) (h : Hash) : (m.remove K h).Coherent K := by
  cases hget : m.get h with
  | none =>
    have hsame : m.remove K h = m := by simp only [Mempool.remove, hget]
    rw [hsame]
    exact hm
  | some e =>
    have hmem : (h, e) ∈ m.transactions := hm.get_eq_some.mp hget
    have hsub : (m.transactions.filter (·.1 ≠ h)).Sublist m.transactions := filter_sublist
    have hsum := ((Table.perm_cons_filter hm.keys hmem).map (·.2.size)).sum_eq
    simp only [Mempool.remove, hget]
    refine ⟨(hsub.map _).nodup hm.keys, fun r hr => hm.hashes r (hsub.mem hr), ?_,
      hm.images.erase hm.keys hmem, fun r hr => hm.ownImages r (hsub.mem hr),
      hm.tags.erase hm.keys hmem, ?_⟩
    · have hperm := hm.byFee.filter (· ≠ (e.feePerByte, h))
      rw [hm.filter_keys hmem] at hperm
      exact hperm
    · show m.currentSize - e.size = _
      rw [hm.size, hsum]
      exact Nat.add_sub_cancel_left _ _

lemma removeAll (hm : m.Coherent K) (hs : List Hash) : (m.removeAll K hs).Coherent K := by
  induction hs generalizing m with
  | nil => exact hm
  | cons h hs ih => exact ih (hm.remove h)

end Coherent

/-! ## Insertion -/

lemma transactions_insert (hnew : m.get (E.txHash tx) = none) (now : ℕ) :
    (m.insert K tx now).transactions
      = (E.txHash tx, MempoolEntry.new E tx m.chainHeight now) :: m.transactions :=
  congrArg (cons _) (filter_transactions hnew)

/-- So does an insertion of something new. -/
lemma Coherent.insert (hm : m.Coherent K) (hnew : m.get (E.txHash tx) = none)
    (hown : tx.keyImages.Nodup) (himages : ∀ ki ∈ tx.keyImages, ki ∉ m.keyImages)
    (htags : ∀ t ∈ linkingTagsOf K tx, t ∉ m.linkingTags) : (m.insert K tx now).Coherent K := by
  have hkey : ∀ rate, (rate, E.txHash tx) ∉ m.byFee := by
    intro rate hmem
    obtain ⟨r, hr, heq⟩ := mem_map.mp (hm.byFee.mem_iff.mp hmem)
    exact get_eq_none.mp hnew (mem_map.mpr ⟨r, hr, (Prod.mk.inj heq).2⟩)
  have hrows := transactions_insert (K := K) hnew now
  refine ⟨?_, ?_, ?_, ?_, ?_, ?_, ?_⟩
  · rw [hrows, map_cons, nodup_cons]
    exact ⟨get_eq_none.mp hnew, hm.keys⟩
  · rw [hrows]
    exact forall_mem_cons.mpr ⟨rfl, hm.hashes⟩
  · have hbyFee : (m.insert K tx now).byFee = m.byFee.orderedInsert feeLe
        ((MempoolEntry.new E tx m.chainHeight now).feePerByte, E.txHash tx) := if_neg (hkey _)
    rw [hrows, hbyFee]
    exact (perm_orderedInsert _ _ _).trans (hm.byFee.cons _)
  · rw [hrows]
    exact hm.images.cons himages
  · rw [hrows]
    exact forall_mem_cons.mpr ⟨hown, hm.ownImages⟩
  · rw [hrows]
    exact hm.tags.cons htags
  · rw [hrows, map_cons, sum_cons, ← hm.size]
    exact add_comm _ _

/-! ## Admission -/

lemma mem_pushNew {h : Hash} : h ∈ pushNew found h' ↔ h ∈ found ∨ h = h' := by
  unfold pushNew
  split
  · rename_i hmem
    exact ⟨.inl, fun hor => hor.elim id fun heq => heq ▸ hmem⟩
  · simp

/-- The holder of a key image makes way, at a bump. -/
lemma replaceHolder_eq_ok {next : List Hash} (h : m.replaceHolder rate found ki = .ok next) :
    found ⊆ next ∧ (ki ∈ m.keyImages →
      ∃ r, m.holder ki = some r ∧ r.1 ∈ next ∧ Bumps rate r.2.feePerByte) := by
  unfold replaceHolder at h
  split at h
  · split at h
    · rename_i k e hholder
      split at h
      · rename_i hbump
        cases h
        exact ⟨fun x hx => mem_pushNew.mpr (.inl hx),
          fun _ => ⟨(k, e), hholder, mem_pushNew.mpr (.inr rfl), hbump⟩⟩
      · simp at h
    · simp at h
  · rename_i hfree
    cases h
    exact ⟨List.Subset.refl _, fun hin => absurd hin hfree⟩

/-- Whoever has a key image of the new transaction is replaced, at a bump. -/
lemma foldlM_replaceHolder_eq_ok {replaced : List Hash}
    (h : images.foldlM (m.replaceHolder rate) found = .ok replaced) :
    found ⊆ replaced ∧ ∀ ki ∈ images, ki ∈ m.keyImages →
      ∃ r, m.holder ki = some r ∧ r.1 ∈ replaced ∧ Bumps rate r.2.feePerByte := by
  induction images generalizing found with
  | nil =>
    cases h
    exact ⟨List.Subset.refl _, by simp⟩
  | cons ki images ih =>
    rw [foldlM_cons, bind_eq_ok] at h
    obtain ⟨next, hnext, hrest⟩ := h
    obtain ⟨hsub, hhead⟩ := replaceHolder_eq_ok hnext
    obtain ⟨hsub', htail⟩ := ih hrest
    refine ⟨List.Subset.trans hsub hsub', forall_mem_cons.mpr ⟨fun hin => ?_, htail⟩⟩
    obtain ⟨r, hholder, hmem, hbump⟩ := hhead hin
    exact ⟨r, hholder, hsub' hmem, hbump⟩

/-- What was decided before anything changed. -/
structure Admissible (K : MempoolEnv E) (m : Mempool) (tx : Transaction) (replaced : List Hash) :
    Prop where
  images : m.toReplace (scaledFeePerByte tx.fee (E.txSize tx)) tx.keyImages = .ok replaced
  tags : ∀ t ∈ linkingTagsOf K tx, t ∉ m.linkingTags ∨ t ∈ m.replacedTags K replaced
  fee : m.minFee (E.txSize tx) ≤ tx.fee
  fits : m.Fits (E.txSize tx) (scaledFeePerByte tx.fee (E.txSize tx)) replaced

lemma admissible_eq_ok (h : m.admissible K tx = .ok replaced) : m.Admissible K tx replaced := by
  unfold admissible at h
  simp only [bind_eq_ok, require_eq_ok, all_eq_ok, Except.ok.injEq] at h
  obtain ⟨_, -, tags, htags, _, hfee, r, hr, _, hall, _, hfits, rfl⟩ := h
  have hof : linkingTagsOf K tx = tags := by simp [linkingTagsOf, htags, Except.toOption]
  exact ⟨hr, hof ▸ hall, hfee, hfits⟩

/-- Eviction only removes. -/
lemma exists_evictToFit_eq (size left : ℕ) (m : Mempool) :
    ∃ hs, (evictToFit K size left m).1 = m.removeAll K hs := by
  induction left generalizing m with
  | zero =>
    refine ⟨[], ?_⟩
    unfold evictToFit
    split <;> rfl
  | succ left ih =>
    unfold evictToFit
    split
    · obtain ⟨hs, hnext⟩ : ∃ hs, m.evictLowestFee K = m.removeAll K hs := by
        unfold evictLowestFee
        split
        · exact ⟨[], rfl⟩
        · rename_i h _ _
          exact ⟨[h], rfl⟩
      simp only
      split
      · exact ⟨hs, hnext⟩
      · obtain ⟨hs', hrest⟩ := ih (m.evictLowestFee K)
        refine ⟨hs ++ hs', ?_⟩
        rw [hrest, hnext, removeAll_append]
    · exact ⟨[], rfl⟩

/-- What a submission does to the mempool. -/
inductive Submission (K : MempoolEnv E) (m : Mempool) (tx : Transaction) (now : ℕ) : Mempool → Prop
  | refused (hs : List Hash) : Submission K m tx now (m.removeAll K hs)
  | admitted {replaced hs : List Hash} (preflight : preflightCheck K tx = .ok ())
      (new : m.get (E.txHash tx) = none) (admissible : m.Admissible K tx replaced) :
      Submission K m tx now ((m.removeAll K (replaced ++ hs)).insert K tx now)

/-- `add` is one of these. -/
lemma add_submission (K : MempoolEnv E) (m : Mempool) (tx : Transaction) (now : ℕ) :
    Submission K m tx now (m.add K tx now).1 := by
  unfold add
  split
  · exact .refused []
  · rename_i hpre
    split
    · exact .refused []
    · rename_i hnew
      split
      · exact .refused []
      · unfold admitAfterChecks
        split
        · exact .refused []
        · rename_i replaced hadm
          obtain ⟨hs, hroom⟩ := exists_evictToFit_eq (K := K) (E.txSize tx) maxEvictionAttempts
            (m.removeAll K replaced)
          rw [← removeAll_append] at hroom
          split
          · rename_i hevict
            rw [hevict] at hroom
            exact hroom ▸ .refused _
          · rename_i hevict
            rw [hevict] at hroom
            simp only at hroom
            subst hroom
            exact .admitted hpre (by simpa [contains] using hnew) (admissible_eq_ok hadm)

/-- So is `add_with_chain`. -/
lemma addWithChain_submission (K : MempoolEnv E) (m : Mempool) (n : Node) (tx : Transaction)
    (now : ℕ) : Submission K m tx now (m.addWithChain K n tx now).1 := by
  unfold addWithChain
  split
  · exact .refused []
  · split
    · exact .refused []
    · exact add_submission K m tx now

/-- The preflight compares key images. -/
lemma nodup_keyImages_of_preflight (h : preflightCheck K tx = .ok ()) : tx.keyImages.Nodup := by
  unfold preflightCheck validateTransactionBasic at h
  simp only [seq_eq_ok, require_eq_ok] at h
  exact h.2.1.2.2.2.2.2.2.2.2.1

namespace Coherent

/-- No resident keeps a key image of an admitted transaction. -/
lemma images_free (hm : m.Coherent K) (hadm : m.Admissible K tx replaced) (hs : List Hash) :
    ∀ ki ∈ tx.keyImages, ki ∉ (m.removeAll K (replaced ++ hs)).keyImages := by
  intro ki hki hmem
  obtain ⟨r, hr, hrki⟩ := (hm.removeAll (replaced ++ hs)).images.mem_iff.mp hmem
  obtain ⟨hr, hstays⟩ := mem_removeAll.mp hr
  have hheld : ki ∈ m.keyImages := hm.images.mem_iff.mpr ⟨r, hr, hrki⟩
  obtain ⟨r', hholder, hgone, -⟩ := (foldlM_replaceHolder_eq_ok hadm.images).2 ki hki hheld
  have hr'ki : ki ∈ r'.2.tx.keyImages := by simpa using find?_some hholder
  -- the holder is the only resident with it, and it has gone
  have heq := hm.images.eq_of_mem hr (mem_of_find?_eq_some hholder) hrki hr'ki
  exact hstays (mem_append_left _ (heq ▸ hgone))

/-- Nor is a linking tag. -/
lemma tags_free (hm : m.Coherent K) (hadm : m.Admissible K tx replaced) (hs : List Hash) :
    ∀ t ∈ linkingTagsOf K tx, t ∉ (m.removeAll K (replaced ++ hs)).linkingTags := by
  intro t ht hmem
  obtain ⟨r, hr, hrt⟩ := (hm.removeAll (replaced ++ hs)).tags.mem_iff.mp hmem
  obtain ⟨hr, hstays⟩ := mem_removeAll.mp hr
  rcases hadm.tags t ht with hfree | hgone
  · exact hfree (hm.tags.mem_iff.mpr ⟨r, hr, hrt⟩)
  · obtain ⟨e, he, het⟩ := mem_flatMap.mp hgone
    obtain ⟨h, hh, hget⟩ := mem_filterMap.mp he
    have heq : r = (h, e) := hm.tags.eq_of_mem hr (hm.get_eq_some.mp hget) hrt het
    exact hstays (mem_append_left _ (heq ▸ hh))

/-- A submission keeps the tables coherent. -/
lemma submission (hm : m.Coherent K) (h : Submission K m tx now m') : m'.Coherent K := by
  cases h with
  | refused hs => exact hm.removeAll hs
  | @admitted replaced hs hpre hnew hadm =>
    refine (hm.removeAll _).insert ?_ (nodup_keyImages_of_preflight hpre) (hm.images_free hadm hs)
      (hm.tags_free hadm hs)
    rw [get_eq_none, transactions_removeAll]
    exact fun hmem => get_eq_none.mp hnew ((filter_sublist.map _).mem hmem)

end Coherent

/-! ## Confirmed blocks -/

lemma mem_foldl_noteHolder :
    x ∈ images.foldl m.noteHolder found ↔
      x ∈ found ∨ ∃ ki ∈ images, ∃ r, m.holder ki = some r ∧ r.1 = x := by
  induction images generalizing found with
  | nil => simp
  | cons ki images ih =>
    rw [foldl_cons, ih, exists_mem_cons_iff, ← or_assoc]
    unfold noteHolder
    cases m.holder ki with
    | none => simp
    | some r => simp only [mem_pushNew, Option.some.injEq, exists_eq_left', eq_comm]

/-- After a confirmation no resident has a key image of the block. -/
lemma Coherent.removeConfirmed_disjoint (hm : m.Coherent K)
    (hr : r ∈ (m.removeConfirmed K txs).transactions) :
    ∀ tx ∈ txs, ∀ ki ∈ tx.keyImages, ki ∉ r.2.tx.keyImages := by
  intro tx htx ki hki hrki
  have hrest := hm.removeAll (txs.map E.txHash)
  obtain ⟨hmem, hstays⟩ := mem_removeAll.mp hr
  obtain ⟨r', hholder⟩ : ∃ r', (m.removeAll K (txs.map E.txHash)).holder ki = some r' := by
    rw [← Option.isSome_iff_exists, holder, find?_isSome]
    exact ⟨r, hmem, by simpa using hrki⟩
  have hr'ki : ki ∈ r'.2.tx.keyImages := by simpa using find?_some hholder
  have heq : r' = r :=
    hrest.images.eq_of_mem (mem_of_find?_eq_some hholder) hmem hr'ki hrki
  apply hstays
  rw [conflictingHashes, mem_foldl_noteHolder]
  exact .inr ⟨ki, mem_flatMap.mpr ⟨tx, htx, hki⟩, r', hholder, by rw [heq]⟩

lemma mem_keyImages_of_spent {tx : Transaction} (h : ki ∈ spentKeyImages tx) :
    ki ∈ tx.keyImages := by
  unfold spentKeyImages at h
  split at h
  · simp at h
  · exact h

lemma mem_of_mem_removeConfirmed
    (hr : r ∈ (m.removeConfirmed K txs).transactions) : r ∈ m.transactions :=
  (mem_removeAll.mp (mem_removeAll.mp hr).1).1

/-! ## One call -/

/-- What a call does. -/
inductive Change (K : MempoolEnv E) (m : Mempool) (op : MempoolOp) : Mempool → Prop
  | removed (height : ℕ) (hs : List Hash) :
      Change K m op (removeAll K { m with chainHeight := height } hs)
  | cleared : Change K m op m.clear
  | submitted {next : Mempool} {tx : Transaction} {now : ℕ} (submits : op.submits = some tx)
      (submission : Submission K m tx now next) : Change K m op next

/-- Every call is one of these. -/
lemma step_cases (h : m.step K op = some m') : m.Change K op m' := by
  cases op with
  | add tx now =>
    cases h
    exact .submitted rfl (add_submission K m tx now)
  | addWithChain n tx now =>
    cases h
    exact .submitted rfl (addWithChain_submission K m n tx now)
  | remove k =>
    cases h
    exact .removed m.chainHeight [k]
  | removeConfirmed txs =>
    cases h
    rw [removeConfirmed, ← removeAll_append]
    exact .removed m.chainHeight _
  | removeConflicts images | expireOld maxAge time | shadowEvictInvalid n =>
    cases h
    exact .removed m.chainHeight _
  | setHeight height =>
    cases h
    exact .removed height _
  | clear =>
    cases h
    exact .cleared

/-- A call keeps the tables coherent. -/
lemma Coherent.change (hm : m.Coherent K) (h : m.Change K op m') : m'.Coherent K := by
  cases h with
  | removed height hs =>
    have hsame : Coherent K { m with chainHeight := height } := { hm with }
    exact hsame.removeAll hs
  | cleared => exact { withMaxSize_coherent (K := K) m.maxSize with }
  | submitted _ hsub => exact hm.submission hsub

/-- Where the residents after a call come from. -/
lemma Change.mem (h : m.Change K op m') (hr : r ∈ m'.transactions) :
    r ∈ m.transactions ∨ preflightCheck K r.2.tx = .ok () ∧ op.submits = some r.2.tx := by
  cases h with
  | removed height hs => exact .inl (mem_removeAll.mp hr).1
  | cleared => simp [clear] at hr
  | @submitted _ tx now hsubmits hsub =>
    cases hsub with
    | refused hs => exact .inl (mem_removeAll.mp hr).1
    | admitted hpre _ _ =>
      rcases mem_cons.mp hr with rfl | hr
      · exact .inr ⟨hpre, hsubmits⟩
      · exact .inl (mem_removeAll.mp (mem_filter.mp hr).1).1

/-- All residents have passed the checks without the chain. -/
lemma preflight_of_reaches {maxSize : ℕ} (h : Run.Reaches (step K) ok (withMaxSize maxSize) m) :
    ∀ r ∈ m.transactions, preflightCheck K r.2.tx = .ok () := by
  refine h.invariant (P := fun m => ∀ r ∈ m.transactions, preflightCheck K r.2.tx = .ok ())
    (by simp [withMaxSize]) ?_
  intro q op q' hq _ hstep r hr
  rcases (step_cases hstep).mem hr with hr | hr
  · exact hq r hr
  · exact hr.1

/-- In every run the tables are coherent. -/
lemma coherent_of_reaches {maxSize : ℕ}
    (h : Run.Reaches (step K) ok (withMaxSize maxSize) m) : m.Coherent K :=
  h.invariant (withMaxSize_coherent maxSize) fun _ _ _ hm _ hstep => hm.change (step_cases hstep)

end Mempool

end CoinCync

import CoinCync.AddressManager

/-!
# Proven peers in the address book

An address is proven when it answered while it was in the book and has since been neither purged nor
found to be our own. A full book evicts the entry seen longest ago, whether or not it is proven or
configured by the operator; and the `get_next` that starts a new cycle of attempts answers the entry
seen last, whatever it is.
-/

namespace CoinCync.Peers

open StableSort List PeerAddress AddressManager

variable {netgroup : SocketAddr → ℕ} {s : AddressManager} {a : SocketAddr} {pa : PeerAddress}

namespace AddressManager

lemma book_sort_perm (s : AddressManager) : s.sort.book.Perm s.book :=
  (byKey_perm _ _).map _

@[simp] lemma mem_book_sort : a ∈ s.sort.book ↔ a ∈ s.book := s.book_sort_perm.mem_iff

/-- The entry seen longest ago, of several the last. -/
def oldest (s : AddressManager) : Option PeerAddress :=
  s.addresses.reverse.argmin lastSeen

/-- The entry seen last; of several the one listed first. -/
def freshest (s : AddressManager) : Option PeerAddress := s.addresses.argmax lastSeen

lemma addr_mem_book_of_oldest (h : s.oldest = some e) : e.addr ∈ s.book :=
  mem_map_of_mem (mem_reverse.mp (argmin_mem h))

/-- `s'` is `s` without the address `a`; the tried set may differ. -/
structure Without (s : AddressManager) (a : SocketAddr) (s' : AddressManager) : Prop where
  nodup : s'.book.Nodup
  book : ∀ x, x ∈ s'.book ↔ x ≠ a ∧ x ∈ s.book
  knownAddrs : s'.knownAddrs = s.knownAddrs.erase a
  good : s'.good = s.good.erase a
  manual : s'.manual = s.manual

lemma without_remove (hnodup : s.book.Nodup) (a : SocketAddr) : s.Without a (s.remove a) where
  nodup := hnodup.sublist (filter_sublist.map _)
  book x := by
    simp only [remove, book, mem_map, mem_filter, decide_eq_true_eq]
    constructor
    · rintro ⟨e, ⟨he, hne⟩, rfl⟩
      exact ⟨hne, e, he, rfl⟩
    · rintro ⟨hne, e, he, rfl⟩
      exact ⟨e, ⟨he, hne⟩, rfl⟩
  knownAddrs := rfl
  good := rfl
  manual := rfl

lemma without_evictOldest (hnodup : s.book.Nodup) (he : s.oldest = some e) :
    s.Without e.addr s.evictOldest := by
  have hlast : s.sort.addresses.getLast? = some e :=
    (getLast?_byKey _ _).trans he
  have hsplit : s.sort.addresses.dropLast ++ [e] = s.sort.addresses :=
    dropLast_append_getLast? e hlast
  -- the sorted book is what stays, and then the evicted address
  have hperm : (e.addr :: s.sort.addresses.dropLast.map addr).Perm s.book := by
    refine (perm_append_singleton _ _).symm.trans ?_
    have hbook := s.book_sort_perm
    rw [book, ← hsplit, map_append] at hbook
    exact hbook
  have hnodup' := nodup_cons.mp (hperm.nodup_iff.mpr hnodup)
  have hevict : s.evictOldest = { s with
      addresses := s.sort.addresses.dropLast
      knownAddrs := s.knownAddrs.erase e.addr
      good := s.good.erase e.addr } := by
    rw [evictOldest, hlast]
  rw [hevict]
  refine ⟨hnodup'.2, fun x => ?_, rfl, rfl, rfl⟩
  rw [← hperm.mem_iff, mem_cons]
  constructor
  · intro hx
    exact ⟨fun h => hnodup'.1 (h ▸ hx), Or.inr hx⟩
  · rintro ⟨hne, hx⟩
    exact hx.resolve_left hne

lemma evictOldest_of_none (h : s.oldest = none) : s.evictOldest = s := by
  have hnil : s.addresses = [] := reverse_eq_nil_iff.mp (argmin_eq_none.mp h)
  have hsort : s.sort.addresses = [] := byKey_eq_nil.mpr hnil
  have hlast : s.sort.addresses.getLast? = none := by rw [hsort]; rfl
  rw [evictOldest, hlast]
  show { s with addresses := s.sort.addresses } = s
  rw [hsort, ← hnil]

/-- `add` gets past its checks: a new address, a group with room. -/
def Takes (netgroup : SocketAddr → ℕ) (s : AddressManager) (pa : PeerAddress) : Prop :=
  pa.addr ∉ s.selfAddresses ∧ pa.addr ∉ s.tried ∧ pa.addr ∉ s.knownAddrs ∧
    (pa.addr ∈ s.manual ∨ s.groupCount netgroup (netgroup pa.addr) < s.maxPerGroup)

instance : Decidable (s.Takes netgroup pa) := inferInstanceAs (Decidable (_ ∧ _))

lemma add_eq_ite : s.add netgroup pa =
    if s.Takes netgroup pa then
      if s.maxAddresses ≤ s.addresses.length then s.evictOldest.push pa else s.push pa
    else s := by
  unfold add Takes
  grind

@[simp] lemma manual_evictOldest (s : AddressManager) : s.evictOldest.manual = s.manual := by
  unfold evictOldest
  split <;> rfl

@[simp] lemma manual_push (s : AddressManager) (pa : PeerAddress) :
    (s.push pa).manual = s.manual := by
  unfold push
  split <;> rfl

@[simp] lemma manual_add : (s.add netgroup pa).manual = s.manual := by
  rw [add_eq_ite]
  split_ifs <;> simp

lemma push_of_notMem (h : pa.addr ∉ s.knownAddrs) :
    s.push pa = { s with
      knownAddrs := insert pa.addr s.knownAddrs, addresses := s.addresses ++ [pa] } :=
  if_neg h

lemma mem_book_push (h : pa.addr ∉ s.knownAddrs) :
    a ∈ (s.push pa).book ↔ a ∈ s.book ∨ a = pa.addr := by
  rw [push_of_notMem h]
  simp [book]

@[simp] lemma book_modifyEntry (hf : ∀ e, (f e).addr = e.addr) :
    (s.modifyEntry a f).book = s.book := by
  apply ext_getElem?
  intro i
  simp only [book, modifyEntry, getElem?_map, getElem?_modify]
  cases s.addresses[i]? with
  | none => rfl
  | some e => split <;> simp [hf]

lemma noteTried_frame (s : AddressManager) (a : SocketAddr) :
    (s.noteTried a).addresses = s.addresses ∧ (s.noteTried a).knownAddrs = s.knownAddrs ∧
      (s.noteTried a).good = s.good ∧ (s.noteTried a).manual = s.manual := by
  simp only [noteTried]
  split_ifs <;> exact ⟨rfl, rfl, rfl, rfl⟩

/-- `get_next` finds all it may dial tried, and starts a new cycle. -/
def Resets (s : AddressManager) : Prop :=
  (∀ a ∈ s.manual, s.dialable a = false) ∧ (∀ a ∈ s.anchors, s.dialable a = false) ∧
    (∀ a ∈ s.book, s.dialable a = false) ∧ s.tried ≠ ∅ ∧ s.addresses ≠ []

instance : Decidable s.Resets := inferInstanceAs (Decidable (_ ∧ _))

lemma head?_book_sort : s.sort.book.head? = s.freshest.map addr := by
  have h : s.sort.addresses.head? = s.freshest := head?_byKey _ _
  rw [book, head?_map, h]

/-- The answers of `get_next`. -/
inductive Answer (s : AddressManager) : Option SocketAddr × AddressManager → Prop
  | pinned {a : SocketAddr} (hreset : ¬ s.Resets) (ha : a ∈ s.manual ∨ a ∈ s.anchors) :
      Answer s (some a, s)
  | good {a : SocketAddr} (hreset : ¬ s.Resets) (ha : a ∈ s.good) : Answer s (some a, s.sort)
  | new {a : SocketAddr} (hreset : ¬ s.Resets) (hmanual : ∀ x ∈ s.manual, s.dialable x = false)
      (hanchors : ∀ x ∈ s.anchors, s.dialable x = false)
      (hgood : ∀ x ∈ s.book, x ∈ s.good → s.dialable x = false) : Answer s (some a, s.sort)
  | reset (hreset : s.Resets) :
      Answer s (s.freshest.map addr, s.sort.clearTried)
  | nothing (hreset : ¬ s.Resets) : Answer s (none, s.sort)

/-- While some address can be dialed no new cycle starts. -/
lemma not_resets_of_dialable (ha : a ∈ s.manual ∨ a ∈ s.anchors ∨ a ∈ s.book)
    (h : s.dialable a = true) : ¬ s.Resets := by
  rintro ⟨hmanual, hanchors, hbook, -⟩
  obtain ha | ha | ha := ha
  · exact Bool.false_ne_true ((hmanual a ha).symm.trans h)
  · exact Bool.false_ne_true ((hanchors a ha).symm.trans h)
  · exact Bool.false_ne_true ((hbook a ha).symm.trans h)

lemma answer_getNext (horder : order.toFinset = s.manual) : s.Answer (s.getNext order) := by
  have hmem : ∀ x, x ∈ s.manual ↔ x ∈ order := fun x => by rw [← horder, mem_toFinset]
  unfold getNext
  cases hm : order.find? s.dialable with
  | some a =>
    have ha : a ∈ s.manual := (hmem a).mpr (mem_of_find?_eq_some hm)
    exact .pinned (not_resets_of_dialable (Or.inl ha) (find?_some hm)) (Or.inl ha)
  | none =>
    have hmanual : ∀ x ∈ s.manual, s.dialable x = false := fun x hx => by
      simpa using find?_eq_none.mp hm x ((hmem x).mp hx)
    cases ha : s.anchors.find? s.dialable with
    | some a =>
      have hmem := mem_of_find?_eq_some ha
      exact .pinned (not_resets_of_dialable (Or.inr (Or.inl hmem)) (find?_some ha))
        (Or.inr hmem)
    | none =>
      have hanchors : ∀ x ∈ s.anchors, s.dialable x = false := fun x hx => by
        simpa using find?_eq_none.mp ha x hx
      cases hg : s.sort.book.find? fun a => decide (a ∈ s.good) && s.dialable a with
      | some a =>
        have hpick := find?_some hg
        simp only [Bool.and_eq_true, decide_eq_true_eq] at hpick
        have hmem := mem_book_sort.mp (mem_of_find?_eq_some hg)
        exact .good (not_resets_of_dialable (Or.inr (Or.inr hmem)) hpick.2) hpick.1
      | none =>
        have hgood : ∀ x ∈ s.book, x ∈ s.good → s.dialable x = false := fun x hx hxg => by
          simpa [hxg] using find?_eq_none.mp hg x (mem_book_sort.mpr hx)
        cases hn : s.sort.book.find? s.dialable with
        | some a =>
          have hmem := mem_book_sort.mp (mem_of_find?_eq_some hn)
          exact .new (not_resets_of_dialable (Or.inr (Or.inr hmem)) (find?_some hn)) hmanual
            hanchors hgood
        | none =>
          have hbook : ∀ x ∈ s.book, s.dialable x = false := fun x hx => by
            simpa using find?_eq_none.mp hn x (mem_book_sort.mpr hx)
          split_ifs with hreset
          · rw [head?_book_sort]
            exact .reset ⟨hmanual, hanchors, hbook, hreset.1, mt byKey_eq_nil.mpr hreset.2⟩
          · refine .nothing fun h => hreset ⟨h.2.2.2.1, mt byKey_eq_nil.mp h.2.2.2.2⟩

end AddressManager

namespace Book

open AddressManager

variable {b b' : Book}

/-- Addresses are distinct; what is proven is in the book and good, and what is good is proven or
the operator's. -/
structure Sound (b : Book) : Prop where
  nodup : b.manager.book.Nodup
  known : ∀ a, a ∈ b.manager.knownAddrs ↔ a ∈ b.manager.book
  proven : ∀ a ∈ b.proven, a ∈ b.manager.book ∧ a ∈ b.manager.good
  good : ∀ a ∈ b.manager.good, a ∈ b.proven ∨ a ∈ b.manager.manual

lemma sound_new (maxAddresses : ℕ) : Sound { manager := .new maxAddresses } where
  nodup := nodup_nil
  known a := by simp [new, book]
  proven a ha := absurd ha (Finset.notMem_empty a)
  good a ha := absurd ha (Finset.notMem_empty a)

/-- What `Sound` reads of a book. -/
lemma Sound.of_perm (hb : b.Sound) (hbook : s.book.Perm b.manager.book)
    (hknown : s.knownAddrs = b.manager.knownAddrs) (hgood : s.good = b.manager.good)
    (hmanual : b.manager.manual ⊆ s.manual) : Sound { b with manager := s } where
  nodup := hbook.nodup_iff.mpr hb.nodup
  known a := by
    rw [hknown, hbook.mem_iff, hb.known]
  proven a ha := by
    obtain ⟨hmem, hg⟩ := hb.proven a ha
    exact ⟨hbook.mem_iff.mpr hmem, hgood ▸ hg⟩
  good a ha := (hb.good a (hgood ▸ ha)).imp_right fun h => hmanual h

lemma Sound.without (hb : b.Sound) (hs : b.manager.Without a s) :
    Sound { manager := s, proven := b.proven.erase a } where
  nodup := hs.nodup
  known x := by
    rw [hs.knownAddrs, hs.book, Finset.mem_erase, hb.known]
  proven x hx := by
    obtain ⟨hne, hx⟩ := Finset.mem_erase.mp hx
    obtain ⟨hmem, hg⟩ := hb.proven x hx
    refine ⟨(hs.book x).mpr ⟨hne, hmem⟩, ?_⟩
    rw [hs.good]
    exact Finset.mem_erase.mpr ⟨hne, hg⟩
  good x hx := by
    rw [show x ∈ _ ↔ x ∈ b.manager.good.erase a from by rw [hs.good], Finset.mem_erase] at hx
    obtain hp | hm := hb.good x hx.2
    · exact Or.inl (Finset.mem_erase.mpr ⟨hx.1, hp⟩)
    · exact Or.inr (hs.manual ▸ hm)

lemma Sound.push (hb : b.Sound) (pa : PeerAddress) :
    Sound { b with manager := b.manager.push pa } := by
  by_cases hk : pa.addr ∈ b.manager.knownAddrs
  · rw [AddressManager.push, if_pos hk]
    exact hb
  · have hbook : ∀ x, _ := fun x => mem_book_push (a := x) hk
    rw [push_of_notMem hk] at hbook ⊢
    refine ⟨?_, fun x => ?_, fun x hx => ?_, hb.good⟩
    · show ((b.manager.addresses ++ [pa]).map addr).Nodup
      rw [map_append]
      exact hb.nodup.append (nodup_singleton _)
        (disjoint_singleton.mpr ((hb.known _).not.mp hk))
    · rw [hbook, Finset.mem_insert, hb.known, or_comm]
    · obtain ⟨hmem, hg⟩ := hb.proven x hx
      exact ⟨(hbook x).mpr (Or.inl hmem), hg⟩

/-- An `add` that evicts finds an oldest entry neither proven nor the operator's. -/
def SparesProven (netgroup : SocketAddr → ℕ) (b : Book) (pa : PeerAddress) : Prop :=
  b.manager.Takes netgroup pa → b.manager.maxAddresses ≤ b.manager.addresses.length →
    ∀ e ∈ b.manager.oldest, e.addr ∉ b.proven ∧ e.addr ∉ b.manager.manual

instance : Decidable (b.SparesProven netgroup pa) := inferInstanceAs (Decidable (_ → _))

/-- The new cycle starts with a preferred address, if there is one. -/
def ResetsToPreferred (b : Book) : Prop :=
  b.manager.Resets → (∀ e ∈ b.manager.freshest, e.addr ∈ b.preferred) ∨
    ∀ a ∈ b.preferred, a ∈ b.manager.selfAddresses

instance : Decidable b.ResetsToPreferred := inferInstanceAs (Decidable (_ → _))

/-- The condition on the single operations. -/
def Meets (netgroup : SocketAddr → ℕ) (b : Book) : Op → Prop
  | .add pa => b.SparesProven netgroup pa
  | .getNext _ => b.ResetsToPreferred
  | _ => True

instance (op : Op) : Decidable (b.Meets netgroup op) :=
  match op with
  | .add pa => inferInstanceAs (Decidable (b.SparesProven netgroup pa))
  | .getNext _ => inferInstanceAs (Decidable b.ResetsToPreferred)
  | .manual _ | .anchors _ | .markSelfAddress _ | .selectFeelerCandidate | .markTried _
  | .markSuccess _ _ | .clearTried | .services _ _ => isTrue trivial

/-- An addition that spares the proven. -/
lemma Sound.add (hb : b.Sound) (h : b.SparesProven netgroup pa) :
    Sound { b with manager := b.manager.add netgroup pa } := by
  rw [add_eq_ite]
  split_ifs with htakes hfull
  · cases ho : b.manager.oldest with
    | none =>
      rw [evictOldest_of_none ho]
      exact hb.push pa
    | some e =>
      have hev := hb.without (without_evictOldest hb.nodup ho)
      rw [Finset.erase_eq_of_notMem (h htakes hfull e ho).1] at hev
      exact hev.push pa
  · exact hb.push pa
  · exact hb

lemma Sound.remove (hb : b.Sound) {s : AddressManager} (haddresses : s.addresses = b.manager.addresses)
    (hknown : s.knownAddrs = b.manager.knownAddrs) (hgood : s.good = b.manager.good)
    (hmanual : s.manual = b.manager.manual) (a : SocketAddr) :
    Sound { manager := s.remove a, proven := b.proven.erase a } := by
  have hbook : s.book = b.manager.book := congrArg (map addr) haddresses
  have hs : Sound { b with manager := s } := hb.of_perm (List.Perm.of_eq hbook) hknown hgood
    (Finset.subset_of_eq hmanual.symm)
  exact hs.without (without_remove hs.nodup a)

lemma Sound.markTried (hb : b.Sound) (a : SocketAddr) :
    Sound { manager := b.manager.markTried a
            proven := if b.manager.purges a then b.proven.erase a else b.proven } := by
  -- the bound on the tried set and the failure count leave the book alone
  obtain ⟨haddresses, hknown, hgood, hmanual⟩ := b.manager.noteTried_frame a
  unfold AddressManager.markTried
  split_ifs with hp
  · refine hb.remove ?_ ?_ ?_ ?_ a
    · exact haddresses
    · exact hknown
    · exact hgood
    · exact hmanual
  · exact hb.of_perm (List.Perm.of_eq (congrArg (map addr) haddresses)) hknown
      hgood (Finset.subset_of_eq hmanual.symm)

lemma Sound.markSuccess (hb : b.Sound) (now : ℕ) (a : SocketAddr) :
    Sound { manager := b.manager.markSuccess now a
            proven := if a ∈ b.manager.book then insert a b.proven else b.proven } := by
  have hbook : (b.manager.markSuccess now a).book = b.manager.book :=
    book_modifyEntry fun _ => rfl
  have hgood : (b.manager.markSuccess now a).good =
      if a ∈ b.manager.knownAddrs ∨ a ∈ b.manager.manual then insert a b.manager.good
      else b.manager.good := rfl
  refine ⟨?_, fun x => ?_, fun x hx => ?_, fun x hx => ?_⟩
  · rw [hbook]
    exact hb.nodup
  · show x ∈ b.manager.knownAddrs ↔ x ∈ (b.manager.markSuccess now a).book
    rw [hbook, hb.known]
  · have := hb.known a
    have := hb.proven x
    grind
  · show x ∈ (if a ∈ b.manager.book then insert a b.proven else b.proven) ∨
      x ∈ b.manager.manual
    have := hb.known a
    have := hb.good x
    grind

lemma Sound.answer (hb : b.Sound) (h : b.manager.Answer r) : Sound { b with manager := r.2 } := by
  have hsort : Sound { b with manager := b.manager.sort } :=
    hb.of_perm b.manager.book_sort_perm rfl rfl (Finset.Subset.refl _)
  cases h with
  | pinned => exact hb
  | good _ _ | new _ _ _ _ | nothing => exact hsort
  | reset => exact hsort.of_perm (List.Perm.refl _) rfl rfl (Finset.Subset.refl _)

lemma Sound.step (hb : b.Sound) (hmeets : b.Meets netgroup op)
    (hstep : b.step netgroup op = some b') : b'.Sound := by
  cases op with
  | add pa =>
    cases hstep
    exact hb.add hmeets
  | manual a =>
    cases hstep
    exact hb.of_perm (List.Perm.refl _) rfl rfl (Finset.subset_insert _ _)
  | anchors l | clearTried =>
    cases hstep
    exact hb.of_perm (List.Perm.refl _) rfl rfl (Finset.Subset.refl _)
  | markSelfAddress a =>
    cases hstep
    refine hb.remove ?_ ?_ ?_ ?_ a <;> rfl
  | selectFeelerCandidate =>
    cases hstep
    exact hb.of_perm b.manager.book_sort_perm rfl rfl (Finset.Subset.refl _)
  | getNext order =>
    obtain ⟨horder, hstep⟩ := Option.ite_none_right_eq_some.mp hstep
    cases hstep
    exact hb.answer (answer_getNext horder)
  | markTried a =>
    cases hstep
    exact hb.markTried a
  | markSuccess now a =>
    cases hstep
    exact hb.markSuccess now a
  | services a bits =>
    cases hstep
    refine hb.of_perm (List.Perm.of_eq (book_modifyEntry fun _ => rfl)) rfl rfl
      (Finset.Subset.refl _)

/-- Along a run that meets the condition the book is sound. -/
lemma sound_of_reaches {maxAddresses : ℕ}
    (h : Run.Reaches (step netgroup) (Meets netgroup) { manager := .new maxAddresses } b) : b.Sound :=
  h.invariant (sound_new maxAddresses) fun _ _ _ hb hm hstep => hb.step hm hstep

/-- Every proven or manual address of the book is still in `s`. -/
def KeepsProven (b : Book) (s : AddressManager) : Prop :=
  ∀ a ∈ b.manager.book, a ∈ b.proven ∨ a ∈ b.manager.manual → a ∈ s.book

/-- An answer not to be preferred leaves no preferred address untried. -/
def Prefers (b : Book) (r : Option SocketAddr × AddressManager) : Prop :=
  ∀ a, r.1 = some a → a ∉ b.preferred →
    ∀ x ∈ b.preferred, x ∉ b.manager.selfAddresses → x ∈ r.2.tried

lemma mem_preferred : a ∈ b.preferred ↔
    a ∈ b.manager.manual ∨ a ∈ b.manager.anchors ∨ a ∈ b.proven := by
  simp [preferred]

lemma mem_tried_of_not_dialable {s : AddressManager} (h : s.dialable a = false)
    (hself : a ∉ s.selfAddresses) : a ∈ s.tried := by
  simpa [dialable, hself] using h

/-- What an addition displaces. -/
lemma keepsProven_add_iff (hb : b.Sound) (pa : PeerAddress) :
    b.KeepsProven (b.manager.add netgroup pa) ↔ b.SparesProven netgroup pa := by
  rw [add_eq_ite]
  split_ifs with htakes hfull
  · have hnew : pa.addr ∉ b.manager.knownAddrs := htakes.2.2.1
    cases ho : b.manager.oldest with
    | none =>
      rw [evictOldest_of_none ho]
      constructor
      · intro _ _ _ e he
        rw [ho] at he
        cases he
      · intro _ a ha _
        exact (mem_book_push hnew).mpr (Or.inl ha)
    | some e =>
      have hwithout := without_evictOldest hb.nodup ho
      have hnew' : pa.addr ∉ b.manager.evictOldest.knownAddrs := by
        rw [hwithout.knownAddrs]
        exact fun h => hnew (Finset.mem_of_mem_erase h)
      have hmem := addr_mem_book_of_oldest ho
      constructor
      · intro hkeeps _ _ e' he'
        obtain rfl := Option.mem_unique ho he'
        -- the evicted address is gone, and the one added in its place is another
        have hgone : e.addr ∉ (b.manager.evictOldest.push pa).book := by
          rw [mem_book_push hnew', hwithout.book]
          rintro (⟨hne, _⟩ | heq)
          · exact hne rfl
          · exact hnew (heq ▸ (hb.known _).mpr hmem)
        exact ⟨fun h => hgone (hkeeps _ hmem (Or.inl h)), fun h => hgone (hkeeps _ hmem (Or.inr h))⟩
      · intro hspares a ha hprot
        obtain ⟨hproven, hmanual⟩ := hspares htakes hfull e ho
        rw [mem_book_push hnew', hwithout.book]
        refine Or.inl ⟨?_, ha⟩
        rintro rfl
        exact hprot.elim hproven hmanual
  · constructor
    · exact fun _ _ h => absurd h hfull
    · exact fun _ a ha _ => (mem_book_push htakes.2.2.1).mpr (Or.inl ha)
  · constructor
    · exact fun _ h => absurd h htakes
    · exact fun _ a ha _ => ha

lemma prefers_iff_of_answer (hb : b.Sound) (h : b.manager.Answer r) :
    b.Prefers r ↔ b.ResetsToPreferred := by
  cases h with
  | pinned hreset ha =>
    refine iff_of_true ?_ fun h => absurd h hreset
    rintro a' ⟨⟩ hnot
    exact absurd (mem_preferred.mpr (ha.imp_right Or.inl)) hnot
  | good hreset ha =>
    refine iff_of_true ?_ fun h => absurd h hreset
    rintro a' ⟨⟩ hnot
    refine absurd (mem_preferred.mpr ?_) hnot
    exact (hb.good _ ha).elim (fun h => Or.inr (Or.inr h)) Or.inl
  | new hreset hmanual hanchors hgood =>
    refine iff_of_true ?_ fun h => absurd h hreset
    -- what is to be preferred and not our own was tried before, and a proven address is good
    intro _ _ _ x hx hself
    obtain hx | hx | hx := mem_preferred.mp hx
    · exact mem_tried_of_not_dialable (hmanual x hx) hself
    · exact mem_tried_of_not_dialable (hanchors x hx) hself
    · obtain ⟨hbook, hg⟩ := hb.proven x hx
      exact mem_tried_of_not_dialable (hgood x hbook hg) hself
  | reset hreset =>
    constructor
    · intro hprefers _
      by_contra hnot
      push Not at hnot
      obtain ⟨⟨e, he, hnew⟩, x, hx, hself⟩ := hnot
      have hnext : b.manager.freshest.map addr = some e.addr := by rw [he]; rfl
      exact absurd (hprefers e.addr hnext hnew x hx hself) (Finset.notMem_empty x)
    · intro hmeets a' ha' hnot x hx hself
      obtain ⟨e, he, rfl⟩ := Option.map_eq_some_iff.mp ha'
      obtain hfresh | hnone := hmeets hreset
      · exact absurd (hfresh e he) hnot
      · exact absurd (hnone x hx) hself
  | nothing hreset =>
    refine iff_of_true ?_ fun h => absurd h hreset
    rintro a' ⟨⟩

/-- Any number of additions that spare the proven addresses. -/
lemma keepsProven_of_reaches (hb : b.Sound)
    (h : Run.Reaches (step netgroup) (fun c op => (∃ pa, op = .add pa) ∧ c.Meets netgroup op) b b') :
    b.KeepsProven b'.manager := by
  have hinv : b'.Sound ∧ b'.proven = b.proven ∧ b'.manager.manual = b.manager.manual ∧
      b.KeepsProven b'.manager := by
    refine h.invariant (P := fun c => c.Sound ∧ c.proven = b.proven ∧
      c.manager.manual = b.manager.manual ∧ b.KeepsProven c.manager)
      ⟨hb, rfl, rfl, fun a ha _ => ha⟩ ?_
    rintro c op c' ⟨hc, hproven, hmanual, hkeeps⟩ ⟨⟨pa, rfl⟩, hmeets⟩ hstep
    cases hstep
    refine ⟨hc.add hmeets, hproven, manual_add.trans hmanual, fun a ha hprot => ?_⟩
    refine (keepsProven_add_iff hc pa).mpr hmeets a (hkeeps a ha hprot) ?_
    rw [hproven, hmanual]
    exact hprot
  exact hinv.2.2.2

/-- Along every run whose steps meet the condition: additions displace no proven or manual address
exactly when they meet it, and `get_next` prefers what it has to prefer exactly when it meets it. -/
theorem proven_kept_iff (netgroup : SocketAddr → ℕ) {maxAddresses : ℕ} {b : Book}
    (h : Run.Reaches (step netgroup) (Meets netgroup) { manager := .new maxAddresses } b) :
    (∀ pa, b.KeepsProven (b.manager.add netgroup pa) ↔ b.SparesProven netgroup pa) ∧
    (∀ b', Run.Reaches (step netgroup)
        (fun c op => (∃ pa, op = .add pa) ∧ c.Meets netgroup op) b b' → b.KeepsProven b'.manager) ∧
    ∀ order : List SocketAddr, order.toFinset = b.manager.manual →
      (b.Prefers (b.manager.getNext order) ↔ b.ResetsToPreferred) := by
  have hb := sound_of_reaches h
  refine ⟨fun pa => keepsProven_add_iff hb pa, fun b' h' => keepsProven_of_reaches hb h', ?_⟩
  intro order horder
  exact prefers_iff_of_answer hb (answer_getNext horder)

/-- An IPv4 address with port 1 on the wire. -/
def gossiped (ip timestamp : ℕ) : NetAddr := ⟨0xffff * 2 ^ 32 + ip, 1, timestamp, 0⟩

/-- A book of two: 1.0.0.0 answered at 60, and 2.0.0.0 was seen at 20. -/
def provenAndOlder : List Op :=
  [.add ⟨⟨2 ^ 24, 1⟩, 50, 0⟩, .markSuccess 60 ⟨2 ^ 24, 1⟩] ++ handleAddr 60 [gossiped (2 ^ 25) 20]

/-- The book of two, with newer gossip. -/
theorem proven_kept_two : ∃ b,
    Run.Reaches (step addrNetgroup) (Meets addrNetgroup) { manager := .new 2 } b ∧
      b.proven = {⟨2 ^ 24, 1⟩} ∧ b.manager.maxAddresses ≤ b.manager.addresses.length ∧
      b.KeepsProven (b.manager.add addrNetgroup ⟨⟨2 ^ 26, 1⟩, 70, 0⟩) ∧
      b.Prefers (b.manager.getNext []) := by
  refine Run.exists_reaches_of_exec_guarded provenAndOlder (P := fun b => b.proven = {⟨2 ^ 24, 1⟩} ∧
    b.manager.manual = ∅ ∧ b.manager.maxAddresses ≤ b.manager.addresses.length ∧
    b.SparesProven addrNetgroup ⟨⟨2 ^ 26, 1⟩, 70, 0⟩ ∧ b.ResetsToPreferred) (by decide +kernel) ?_
  intro b hreach ⟨hproven, hmanual, hfull, hspares, hresets⟩
  obtain ⟨hadd, -, hnext⟩ := proven_kept_iff addrNetgroup hreach
  exact ⟨hproven, hfull, (hadd _).mpr hspares, (hnext [] hmanual.symm).mpr hresets⟩

/-- The full book of two loses the peer that answered to gossip dated at its arrival; and with a
manual peer and a gossiped address both tried, the new cycle starts with the gossiped one. -/
theorem gossip_displaces_proven :
    (∃ b b', Run.exec (step addrNetgroup) { manager := .new 2 } provenAndOlder = some b ∧
      ⟨2 ^ 24, 1⟩ ∈ b.proven ∧ ⟨2 ^ 24, 1⟩ ∈ b.manager.book ∧
      Run.exec (step addrNetgroup) b
        (handleAddr 70 [gossiped (2 ^ 26) 70, gossiped (2 ^ 27) 70]) = some b' ∧
      ⟨2 ^ 24, 1⟩ ∈ b'.proven ∧ ⟨2 ^ 24, 1⟩ ∉ b'.manager.book) ∧
    ∃ b s, Run.exec (step addrNetgroup) { manager := .new 1000 }
        (addManual 10 ⟨2 ^ 24, 1⟩ ++ handleAddr 20 [gossiped (2 ^ 25) 20] ++
          [.markTried ⟨2 ^ 24, 1⟩, .markTried ⟨2 ^ 25, 1⟩]) = some b ∧
      b.manager.manual = {⟨2 ^ 24, 1⟩} ∧ ⟨2 ^ 24, 1⟩ ∉ b.manager.selfAddresses ∧
      b.manager.getNext [⟨2 ^ 24, 1⟩] = (some ⟨2 ^ 25, 1⟩, s) ∧ ⟨2 ^ 25, 1⟩ ∉ b.preferred ∧
      ⟨2 ^ 24, 1⟩ ∉ s.tried := by
  simp only [exists_and_left, Prod.ext_iff, and_assoc, exists_eq_left']
  decide +kernel

end Book

end CoinCync.Peers

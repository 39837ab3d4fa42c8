import CoinCync.ConnectionCap

/-!
# The cap on outbound connections of one subnet

`outbound_per_subnet` of the connection tracker and the `OutboundSubnetSlot` guards that count in it.
A dial takes a guard before its peer is listed, and the drop of a guard is a decrement and the removal
of a row left at zero. The health check reconciles the table when it differs from the list of peers:
it clears it and inserts the counts of the peers it was given, one row after another.
-/

namespace CoinCync.Peers

open List Option

/-- An address. -/
inductive IpAddr
  | v4 (a b c d : UInt8)
  | v6 (a b c d e f g h : UInt16)
deriving DecidableEq

/-- The /16 of an IPv4 address, the /32 of an IPv6 one. -/
def subnetKey : IpAddr → ℕ
  | .v4 a b _ _ => a.toNat <<< 8 ||| b.toNat
  | .v6 a b _ _ _ _ _ _ => a.toNat <<< 16 ||| b.toNat

/-- `MAX_OUTBOUND_PER_SUBNET`. -/
def maxOutboundPerSubnet : ℕ := 2

/-- The addresses of a subnet. -/
def perSubnet (l : List IpAddr) (k : ℕ) : ℕ := (l.map subnetKey).count k

/-- The table, the guards and what is under way. -/
structure Outbound where
  outboundPerSubnet : Counts := ∅
  /-- The guards whose drop has not begun. -/
  slots : List IpAddr := []
  /-- The drops that have left a row at zero and not removed it yet. -/
  dropping : List Untrack := []
  /-- The rows that a reconciliation has still to insert. -/
  inserting : List (ℕ × ℕ) := []

/-- The counts of `reconcile_outbound_subnets`. -/
def truth (liveOutbound : List IpAddr) : Counts :=
  liveOutbound.foldl (fun m a => m.insert (subnetKey a) (m.tracked (subnetKey a) + 1)) ∅

/-- What happens next. -/
inductive OutboundEvent
  /-- `try_track_outbound_subnet_owned`. -/
  | dial (addr : IpAddr)
  /-- A guard is dropped: the first half of `untrack_outbound_subnet`. -/
  | drop (addr : IpAddr)
  /-- The second half. -/
  | remove (u : Untrack)
  /-- `reconcile_outbound_subnets` clears the table; `rows` is the order in which it reads its own. -/
  | reconcile (liveOutbound : List IpAddr) (rows : List (ℕ × ℕ))
  | insert

namespace Outbound

/-- The drop of a guard, up to the removal of a row. -/
def dropSlot (s : Outbound) (addr : IpAddr) : Outbound :=
  let r := Untrack.step s.outboundPerSubnet ⟨subnetKey addr, false⟩
  { s with
    outboundPerSubnet := r.1, slots := s.slots.erase addr, dropping := r.2.toList ++ s.dropping }

/-- One event. -/
def step (s : Outbound) : OutboundEvent → Option Outbound
  | .dial addr =>
    match s.outboundPerSubnet.tryTrackConnection maxOutboundPerSubnet (subnetKey addr) with
    | some m => some { s with outboundPerSubnet := m, slots := addr :: s.slots }
    | none => some s
  | .drop addr => if addr ∈ s.slots then some (s.dropSlot addr) else none
  | .remove u =>
    if u ∈ s.dropping then
      some { s with
        outboundPerSubnet := (u.step s.outboundPerSubnet).1, dropping := s.dropping.erase u }
    else none
  | .reconcile liveOutbound rows =>
    if s.inserting = [] ∧ rows.Perm (truth liveOutbound).toList then
      some { s with outboundPerSubnet := ∅, inserting := rows }
    else none
  | .insert =>
    match s.inserting with
    | [] => none
    | r :: rows =>
      some { s with outboundPerSubnet := s.outboundPerSubnet.insert r.1 r.2, inserting := rows }

/-- A reconciliation is given the subnets of the guards and is over before the next dial or drop,
and a dial finds no release of its subnet half done. -/
def inOrder (s : Outbound) : OutboundEvent → Prop
  | .dial addr => s.inserting = [] ∧ ∀ u ∈ s.dropping, u.ip ≠ subnetKey addr
  | .drop _ => s.inserting = []
  | .reconcile liveOutbound _ => (liveOutbound.map subnetKey).Perm (s.slots.map subnetKey)
  | _ => True

instance (s : Outbound) (e : OutboundEvent) : Decidable (s.inOrder e) := by
  cases e <;> unfold inOrder <;> infer_instance

/-- The row of a subnet counts its guards. It is missing if there are none or it is still to be
inserted, and zero only until its drop removes it. -/
structure Exact (s : Outbound) : Prop where
  cap : ∀ k, perSubnet s.slots k ≤ maxOutboundPerSubnet
  row : ∀ k,
    s.outboundPerSubnet[k]? = none ∧
      (perSubnet s.slots k = 0 ∨ (k, perSubnet s.slots k) ∈ s.inserting) ∨
    s.outboundPerSubnet[k]? = some (perSubnet s.slots k) ∧
      (perSubnet s.slots k = 0 → ⟨k, true⟩ ∈ s.dropping)
  left : ∀ u ∈ s.dropping, u.zeroed = true ∧ perSubnet s.slots u.ip = 0
  due : ∀ r ∈ s.inserting, r.2 = perSubnet s.slots r.1 ∧ r.2 ≠ 0

end Outbound

lemma perSubnet_cons (a : IpAddr) (l : List IpAddr) (k : ℕ) :
    perSubnet (a :: l) k = perSubnet l k + if k = subnetKey a then 1 else 0 := by
  simp only [perSubnet, map_cons, count_cons, beq_iff_eq, @eq_comm _ k]

lemma perSubnet_erase (h : a ∈ l) (k : ℕ) :
    perSubnet l k = perSubnet (l.erase a) k + if k = subnetKey a then 1 else 0 := by
  rw [← perSubnet_cons]
  exact ((perm_cons_erase h).map subnetKey).count_eq k

/-- A reconciliation counts the peers it is given. -/
lemma getElem?_truth (l : List IpAddr) (k : ℕ) :
    (truth l)[k]? = if perSubnet l k = 0 then none else some (perSubnet l k) := by
  induction l using reverseRecOn with
  | nil => exact Std.TreeMap.getElem?_emptyc
  | append_singleton l a ih =>
    have hcount : perSubnet (l ++ [a]) k = perSubnet (a :: l) k :=
      ((perm_append_singleton a l).map subnetKey).count_eq k
    rw [hcount, perSubnet_cons, truth, foldl_append, foldl_cons, foldl_nil, Table.getElem?_insert]
    split
    · rename_i hk
      subst hk
      change some (((truth l)[subnetKey a]?).getD 0 + 1) = _
      rw [ih]
      split <;> simp [*]
    · exact ih

namespace Outbound

variable {s s' : Outbound}

section

variable (hs : Exact s)
include hs

/-- Between reconciliations a subnet with guards has its row. -/
lemma Exact.tracked_eq (hin : s.inserting = []) (k : ℕ) :
    s.outboundPerSubnet.tracked k = perSubnet s.slots k := by
  unfold Counts.tracked
  rcases hs.row k with ⟨hrow, hnone⟩ | ⟨hrow, -⟩
  · rw [hin] at hnone
    rw [hrow, getD_none, hnone.resolve_right not_mem_nil]
  · rw [hrow, getD_some]

lemma Exact.dial (hok : s.inOrder (.dial addr))
    (hm : s.outboundPerSubnet.tryTrackConnection maxOutboundPerSubnet (subnetKey addr) = some m) :
    Exact { s with outboundPerSubnet := m, slots := addr :: s.slots } := by
  obtain ⟨hroom, rfl⟩ := Counts.tryTrackConnection_eq_some (by decide) hm
  rw [hs.tracked_eq hok.1] at hroom ⊢
  refine ⟨fun k => ?_, fun k => ?_, fun u hu => ?_, hok.1 ▸ nofun⟩
  · rw [perSubnet_cons]
    split
    · rename_i hk
      rw [hk]
      exact hroom
    · exact hs.cap k
  · simp only [Table.getElem?_insert, perSubnet_cons]
    split
    · rename_i hk
      rw [hk]
      exact .inr ⟨rfl, nofun⟩
    · exact hs.row k
  · rw [perSubnet_cons, if_neg (hok.2 u hu)]
    exact hs.left u hu

lemma Exact.drop (hin : s.inserting = []) (haddr : addr ∈ s.slots) : Exact (s.dropSlot addr) := by
  have hcount := perSubnet_erase haddr
  have hpos := hcount (subnetKey addr)
  rw [if_pos rfl] at hpos
  -- the guard is counted, so its row is there
  have hrow : s.outboundPerSubnet[subnetKey addr]? = some (perSubnet s.slots (subnetKey addr)) := by
    rcases hs.row (subnetKey addr) with ⟨-, hnone⟩ | ⟨hrow, -⟩
    · rw [hin] at hnone
      have := hnone.resolve_right not_mem_nil
      omega
    · exact hrow
  simp only [dropSlot, Untrack.step, hrow, hpos, Bool.false_eq_true, if_false, Nat.add_sub_cancel]
  refine ⟨fun k => ?_, fun k => ?_, fun u hu => ?_, hin ▸ nofun⟩
  · exact (hcount k ▸ Nat.le_add_right ..).trans (hs.cap k)
  · have hk := hcount k
    simp only [Table.getElem?_insert]
    split_ifs at hk ⊢ with heq hzero
    · exact .inr ⟨by rw [heq], fun _ => by simp [heq]⟩
    · exact .inr ⟨by rw [heq], fun h => absurd (heq ▸ h) hzero⟩
    all_goals
      rw [← add_zero (perSubnet _ k), ← hk]
      exact (hs.row k).imp_right (.imp_right fun h hzero => mem_append_right _ (h hzero))
  · have hk := hcount u.ip
    rcases mem_append.mp hu with hnew | hold
    · split at hnew
      · obtain rfl := eq_of_mem_singleton hnew
        exact ⟨rfl, by assumption⟩
      · cases hnew
    · have := hs.left u hold
      exact ⟨this.1, by change perSubnet (s.slots.erase addr) u.ip = 0; omega⟩

lemma Exact.remove (hu : u ∈ s.dropping) :
    Exact { s with
      outboundPerSubnet := (u.step s.outboundPerSubnet).1, dropping := s.dropping.erase u } := by
  obtain ⟨hzeroed, hnone⟩ := hs.left u hu
  simp only [Untrack.step, hzeroed, if_true]
  refine ⟨hs.cap, fun k => ?_, fun v hv => hs.left v (mem_of_mem_erase hv), hs.due⟩
  simp only [Table.getElem?_erase]
  split
  · rename_i hk
    rw [hk]
    exact .inl ⟨rfl, .inl hnone⟩
  · rename_i hk
    refine (hs.row k).imp_right (.imp_right fun h hzero => ?_)
    exact (mem_erase_of_ne fun heq => hk (congrArg Untrack.ip heq)).mpr (h hzero)

/-- The table is cleared. -/
lemma Exact.reconcile (hok : (liveOutbound.map subnetKey).Perm (s.slots.map subnetKey))
    (hrows : rows.Perm (truth liveOutbound).toList) :
    Exact { s with outboundPerSubnet := ∅, inserting := rows } := by
  have hsame : ∀ k, perSubnet liveOutbound k = perSubnet s.slots k := hok.count_eq
  have hmem : ∀ r : ℕ × ℕ, r ∈ rows ↔ (truth liveOutbound)[r.1]? = some r.2 := fun r => by
    rw [hrows.mem_iff, Std.TreeMap.mem_toList_iff_getElem?_eq_some]
  refine ⟨hs.cap, fun k => .inl ⟨Std.TreeMap.getElem?_emptyc, ?_⟩, hs.left, fun r hr => ?_⟩
  · rw [hmem, getElem?_truth, hsame]
    split <;> simp [*]
  · have := (hmem r).mp hr
    rw [getElem?_truth, hsame, ite_none_left_eq_some] at this
    obtain ⟨hne, heq⟩ := this
    rw [some.inj heq] at hne
    exact ⟨(some.inj heq).symm, hne⟩

lemma Exact.insert (hin : s.inserting = r :: rows) :
    Exact { s with outboundPerSubnet := s.outboundPerSubnet.insert r.1 r.2, inserting := rows } := by
  obtain ⟨heq, hne⟩ := hs.due r (hin ▸ mem_cons_self)
  refine ⟨hs.cap, fun k => ?_, hs.left, fun r' hr' => hs.due r' (hin ▸ mem_cons_of_mem r hr')⟩
  simp only [Table.getElem?_insert]
  split
  · rename_i hk
    rw [hk, ← heq]
    exact .inr ⟨rfl, fun h => absurd h hne⟩
  · rename_i hk
    refine (hs.row k).imp_left (.imp_right (.imp_right fun h => ?_))
    rw [hin] at h
    exact (mem_cons.mp h).resolve_left fun heq => hk (congrArg Prod.fst heq)

lemma Exact.step (hok : s.inOrder e) (h : s.step e = some s') : Exact s' := by
  cases e with
  | dial addr =>
    simp only [Outbound.step] at h
    split at h <;> cases h
    · exact hs.dial hok (by assumption)
    · exact hs
  | drop addr =>
    obtain ⟨haddr, h⟩ := ite_none_right_eq_some.mp h
    cases h
    exact hs.drop hok haddr
  | remove u =>
    obtain ⟨hu, h⟩ := ite_none_right_eq_some.mp h
    cases h
    exact hs.remove hu
  | reconcile liveOutbound rows =>
    obtain ⟨hrows, h⟩ := ite_none_right_eq_some.mp h
    cases h
    exact hs.reconcile hok hrows.2
  | insert =>
    simp only [Outbound.step] at h
    split at h <;> cases h
    exact hs.insert (by assumption)

end

/-- In every run whose steps are in order, no subnet has more guards than the cap, and its row goes
with its last guard. -/
theorem subnet_cap_holds (hs : Run.Reaches step inOrder {} s) (k : ℕ) :
    perSubnet s.slots k ≤ maxOutboundPerSubnet ∧
      (perSubnet s.slots k = 0 → (∀ u ∈ s.dropping, u.ip ≠ k) →
        s.outboundPerSubnet[k]? = none) := by
  have hinit : Exact {} :=
    ⟨fun _ => Nat.zero_le _, fun _ => .inl ⟨Std.TreeMap.getElem?_emptyc, .inl rfl⟩, nofun, nofun⟩
  have hexact : Exact s := hs.invariant hinit fun _ _ _ h hok he => h.step hok he
  refine ⟨hexact.cap k, fun hzero hdone => ?_⟩
  rcases hexact.row k with ⟨hrow, -⟩ | ⟨-, hleft⟩
  · exact hrow
  · exact absurd rfl (hdone _ (hleft hzero))

/-- A host of one subnet. -/
def host (d : UInt8) : IpAddr := .v4 10 0 0 d

/-- Two dials, a reconciliation when both peers are listed, and the end of both connections. -/
theorem subnet_cap_holds_two :
    ∃ s, Run.Reaches step inOrder {} s ∧ perSubnet s.slots 2560 = 0 ∧ s.dropping = [] ∧
      s.outboundPerSubnet[2560]? = none := by
  refine Run.exists_reaches_of_exec_guarded [.dial (host 1), .dial (host 2),
    .reconcile [host 2, host 1] [(2560, 2)], .insert, .drop (host 1), .drop (host 2),
    .remove ⟨2560, true⟩] (P := fun s => perSubnet s.slots 2560 = 0 ∧ s.dropping = [])
    (by decide +kernel) ?_
  intro s hreach ⟨hzero, hdone⟩
  refine ⟨hzero, hdone, (subnet_cap_holds hreach 2560).2 hzero ?_⟩
  rw [hdone]
  nofun

/-- A reconciliation while two dials are pending makes room for two more; a guard dropped after the
peers were listed leaves a row for good; and a dial between the halves of a release is counted in
the row that the release removes. -/
theorem subnet_cap_exceeded :
    (∃ s, Run.exec step {} [.dial (host 1), .dial (host 2), .reconcile [] [], .dial (host 3),
      .dial (host 4)] = some s ∧ perSubnet s.slots 2560 = 4) ∧
    (∃ s, Run.exec step {} [.dial (host 1), .drop (host 1), .remove ⟨2560, true⟩,
      .reconcile [host 1] [(2560, 1)], .insert] = some s ∧
      s.slots = [] ∧ s.dropping = [] ∧ s.outboundPerSubnet[2560]? = some 1) ∧
    ∃ s, Run.exec step {} [.dial (host 1), .drop (host 1), .dial (host 2), .remove ⟨2560, true⟩,
      .dial (host 3), .dial (host 4)] = some s ∧ perSubnet s.slots 2560 = 3 := by
  decide +kernel

end Outbound

end CoinCync.Peers

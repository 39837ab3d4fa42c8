import CoinCync.Lib.Table
import Mathlib.Algebra.Order.Ring.Int

/-!
# The peer scorer

Reputations and bans by socket address (`network/scoring.rs`). Of a `PeerScore` only the reputation
decides about bans; an instant is a number of nanoseconds, and the ban list on disk is the list of
its entries.
-/

namespace CoinCync.Peers

open List Option

/-- IPv4 addresses are their 32 bits, IPv6 ones `2 ^ 32` plus 128 bits. -/
structure SocketAddr where
  ip : ℕ
  port : ℕ
deriving DecidableEq

namespace SocketAddr

instance : Ord SocketAddr := ⟨compareLex (compareOn ip) (compareOn port)⟩

instance : Std.TransOrd SocketAddr :=
  inferInstanceAs (Std.TransCmp (compareLex (compareOn ip) (compareOn port)))

instance : Std.LawfulEqOrd SocketAddr where
  eq_of_compare {a b} h := by
    obtain ⟨hip, hport⟩ := compareLex_eq_eq.mp h
    cases a
    cases b
    simp only [mk.injEq]
    exact ⟨Std.LawfulEqCmp.eq_of_compare hip, Std.LawfulEqCmp.eq_of_compare hport⟩

end SocketAddr

/-- One second in nanoseconds. -/
def second : ℕ := 1000000000

/-- Scores, and when bans end. -/
structure PeerScorer where
  scores : Std.TreeMap SocketAddr ℤ := ∅
  banned : Std.TreeMap SocketAddr ℕ := ∅
  banDuration : ℕ := 3600 * second

/-- An entry of the ban list on disk. -/
structure BanEntry where
  addr : SocketAddr
  remainingSecs : ℕ
deriving DecidableEq

/-- The reputation of `PeerScore::default`. -/
def defaultReputation : ℤ := 50

/-- `should_ban`. -/
def shouldBan (reputation : ℤ) : Bool := reputation ≤ -50

/-- `PeerScore::decay`. -/
def decay (neutral reputation : ℤ) : ℤ :=
  if neutral < reputation then reputation - 1
  else if reputation < neutral then reputation + 1
  else reputation

/-- `MAX_TRACKED_SCORES`. -/
def maxTrackedScores : ℕ := 4096

namespace PeerScorer

/-- `get_or_create(addr)` and `adjust_reputation(delta)`. -/
def adjustReputation (p : PeerScorer) (addr : SocketAddr) (delta : ℤ) : PeerScorer :=
  { p with scores :=
    p.scores.insert addr (max (-100) (min 100 (p.scores[addr]?.getD defaultReputation + delta))) }

/-- `decay_all`. -/
def decayAll (p : PeerScorer) (neutral : ℤ) : PeerScorer :=
  { p with scores := p.scores.map fun _ reputation => decay neutral reputation }

/-- `is_banned`. -/
def isBanned (p : PeerScorer) (now : ℕ) (addr : SocketAddr) : Bool :=
  p.banned[addr]?.any fun expiry => now < expiry

/-- `cleanup_bans`. -/
def cleanupBans (p : PeerScorer) (now : ℕ) : PeerScorer :=
  { p with banned := p.banned.filter fun _ expiry => now < expiry }

/-- `ban`. -/
def ban (p : PeerScorer) (now : ℕ) (addr : SocketAddr) : PeerScorer :=
  let p := p.cleanupBans now
  { p with
    banned := p.banned.insert addr (now + p.banDuration)
    scores := p.scores.erase addr }

/-- The addresses `auto_ban_bad_peers` bans. -/
def toBan (p : PeerScorer) : List SocketAddr :=
  (p.scores.toList.filter fun e => shouldBan e.2).map (·.1)

/-- `auto_ban_bad_peers`. -/
def autoBanBadPeers (p : PeerScorer) (now : ℕ) : PeerScorer := p.toBan.foldl (fun p a => p.ban now a) p

/-- Over the bound the best disconnected peers are forgotten. -/
def evictScores (connected : SocketAddr → Bool) (scores : Std.TreeMap SocketAddr ℤ) :
    Std.TreeMap SocketAddr ℤ :=
  let evictable := (scores.toList.filter fun e => !connected e.1).mergeSort fun a b => b.2 ≤ a.2
  let overflow := scores.size - maxTrackedScores
  Table.eraseAll scores ((evictable.take overflow).map (·.1))

/-- Disconnected peers of good standing go, others over the bound. -/
def pruneScores (p : PeerScorer) (connected : SocketAddr → Bool) : PeerScorer :=
  { p with scores := evictScores connected (p.scores.filter fun addr reputation =>
    connected addr || reputation < defaultReputation) }

/-- `save_bans_to_file`. -/
def saveBansToFile (p : PeerScorer) (now : ℕ) : List BanEntry :=
  (p.banned.toList.filter fun e => now < e.2).map fun e => ⟨e.1, (e.2 - now) / second⟩

/-- One entry. -/
def loadBan (now : ℕ) (p : PeerScorer) (entry : BanEntry) : PeerScorer :=
  if 0 < entry.remainingSecs then
    { p with banned := p.banned.insert entry.addr (now + entry.remainingSecs * second) }
  else p

/-- `load_bans_from_file`. -/
def loadBansFromFile (p : PeerScorer) (now : ℕ) (entries : List BanEntry) : PeerScorer :=
  entries.foldl (loadBan now) p

variable {p : PeerScorer} {now : ℕ} {addr : SocketAddr} {expiry : ℕ}

lemma isBanned_iff : p.isBanned now addr = true ↔ ∃ e, p.banned[addr]? = some e ∧ now < e := by
  rw [isBanned, Option.any_eq_true]
  simp

@[simp] lemma banned_decayAll (neutral : ℤ) : (p.decayAll neutral).banned = p.banned := rfl

@[simp] lemma banDuration_decayAll (neutral : ℤ) :
    (p.decayAll neutral).banDuration = p.banDuration := rfl

@[simp] lemma banned_pruneScores (connected : SocketAddr → Bool) :
    (p.pruneScores connected).banned = p.banned := by rw [pruneScores]

@[simp] lemma banDuration_pruneScores (connected : SocketAddr → Bool) :
    (p.pruneScores connected).banDuration = p.banDuration := by rw [pruneScores]

@[simp] lemma banDuration_cleanupBans : (p.cleanupBans now).banDuration = p.banDuration := rfl

@[simp] lemma banDuration_ban : (p.ban now addr).banDuration = p.banDuration := rfl

/-! ## A ban and its term -/

lemma getElem?_cleanupBans :
    (p.cleanupBans now).banned[addr]? = p.banned[addr]?.filter fun e => now < e :=
  Std.TreeMap.getElem?_filter'

/-- A ban, and the running ones. -/
lemma getElem?_ban : (p.ban now addr).banned[a]?
    = if a = addr then some (now + p.banDuration) else p.banned[a]?.filter fun e => now < e := by
  show ((p.cleanupBans now).banned.insert addr (now + p.banDuration))[a]? = _
  rw [Table.getElem?_insert, getElem?_cleanupBans]

/-- Until the instant, the address is on the ban list at least that long. -/
def Serving (p : PeerScorer) (now : ℕ) (addr : SocketAddr) (expiry : ℕ) : Prop :=
  now < expiry → ∃ e, p.banned[addr]? = some e ∧ expiry ≤ e

section

variable (h : p.Serving now addr expiry)
include h

lemma Serving.later {later : ℕ} (hle : now ≤ later) :
    p.Serving later addr expiry := fun hlt => h (by omega)

/-- Until then it is banned. -/
lemma Serving.isBanned (hlt : now < expiry) : p.isBanned now addr = true := by
  obtain ⟨e, he, hle⟩ := h hlt
  exact isBanned_iff.mpr ⟨e, he, by omega⟩

/-- Only the ban list matters. -/
lemma Serving.of_banned {q : PeerScorer} (hq : q.banned = p.banned) :
    q.Serving now addr expiry := by
  rw [Serving, hq]
  exact h

lemma Serving.cleanupBans : (p.cleanupBans now).Serving now addr expiry := by
  intro hlt
  obtain ⟨e, he, hle⟩ := h hlt
  refine ⟨e, ?_, hle⟩
  have hnow : now < e := by omega
  rw [getElem?_cleanupBans, he, filter_some, if_pos (by simpa using hnow)]

/-- A later ban ends no sooner than the one it replaces. -/
lemma Serving.ban (hend : expiry ≤ now + p.banDuration) :
    (p.ban now a).Serving now addr expiry := by
  intro hlt
  rw [getElem?_ban]
  split
  · exact ⟨_, rfl, hend⟩
  · have hkept := h.cleanupBans hlt
    rwa [getElem?_cleanupBans] at hkept

end

/-- A ban runs for the whole duration. -/
lemma serving_ban : (p.ban now addr).Serving now addr (now + p.banDuration) := fun _ =>
  ⟨_, by rw [getElem?_ban, if_pos rfl], le_rfl⟩

lemma banDuration_foldl_ban (l : List SocketAddr) (p : PeerScorer) :
    (l.foldl (fun p a => p.ban now a) p).banDuration = p.banDuration := by
  induction l generalizing p with
  | nil => rfl
  | cons a l ih => exact ih (p.ban now a)

@[simp] lemma banDuration_autoBanBadPeers :
    (p.autoBanBadPeers now).banDuration = p.banDuration := banDuration_foldl_ban p.toBan p

lemma Serving.foldl_ban (l : List SocketAddr) (h : p.Serving now addr expiry)
    (hend : expiry ≤ now + p.banDuration) :
    (l.foldl (fun p a => p.ban now a) p).Serving now addr expiry := by
  induction l generalizing p with
  | nil => exact h
  | cons a l ih => exact ih (h.ban hend) hend

/-- Automatic bans cut none short. -/
lemma Serving.autoBanBadPeers (h : p.Serving now addr expiry)
    (hend : expiry ≤ now + p.banDuration) : (p.autoBanBadPeers now).Serving now addr expiry :=
  h.foldl_ban p.toBan hend

lemma serving_foldl_ban {l : List SocketAddr} (ha : addr ∈ l) :
    (l.foldl (fun p a => p.ban now a) p).Serving now addr (now + p.banDuration) := by
  induction l generalizing p with
  | nil => simp at ha
  | cons a l ih =>
    rcases mem_cons.mp ha with rfl | hl
    · exact serving_ban.foldl_ban l le_rfl
    · exact ih hl

/-- They run for the whole duration. -/
lemma serving_autoBanBadPeers (ha : addr ∈ p.toBan) :
    (p.autoBanBadPeers now).Serving now addr (now + p.banDuration) := serving_foldl_ban ha

/-! ## The ban list on disk -/

lemma mem_saveBansToFile :
    entry ∈ p.saveBansToFile now ↔ ∃ e, p.banned[entry.addr]? = some e ∧ now < e ∧
      entry.remainingSecs = (e - now) / second := by
  simp only [saveBansToFile, List.mem_map, mem_filter, decide_eq_true_eq]
  constructor
  · rintro ⟨⟨a, e⟩, ⟨hmem, hlt⟩, rfl⟩
    exact ⟨e, Std.TreeMap.mem_toList_iff_getElem?_eq_some.mp hmem, hlt, rfl⟩
  · rintro ⟨e, he, hlt, hsecs⟩
    refine ⟨(entry.addr, e), ⟨Std.TreeMap.mem_toList_iff_getElem?_eq_some.mpr he, hlt⟩, ?_⟩
    rw [← hsecs]

/-- Loading a list with one entry for each address. -/
lemma getElem?_loadBansFromFile (entries : List BanEntry) (p : PeerScorer)
    (huniq : ∀ x ∈ entries, ∀ y ∈ entries, x.addr = y.addr → x = y) :
    (p.loadBansFromFile now entries).banned[addr]?
      = match entries.find? (fun x => x.addr = addr ∧ 0 < x.remainingSecs) with
        | some x => some (now + x.remainingSecs * second)
        | none => p.banned[addr]? := by
  induction entries generalizing p with
  | nil => rfl
  | cons entry entries ih =>
    have huniq' : ∀ x ∈ entries, ∀ y ∈ entries, x.addr = y.addr → x = y := fun x hx y hy =>
      huniq x (mem_cons_of_mem _ hx) y (mem_cons_of_mem _ hy)
    show ((loadBan now p entry).loadBansFromFile now entries).banned[addr]? = _
    rw [ih _ huniq', find?_cons]
    by_cases hentry : entry.addr = addr ∧ 0 < entry.remainingSecs
    · rw [decide_eq_true hentry]
      obtain ⟨rfl, hpos⟩ := hentry
      cases hfind : entries.find? (fun x => x.addr = entry.addr ∧ 0 < x.remainingSecs) with
      | none =>
        rw [loadBan, if_pos hpos]
        rw [Table.getElem?_insert, if_pos rfl]
      | some x =>
        have hx := find?_some hfind
        simp only [decide_eq_true_eq] at hx
        rw [huniq x (mem_cons_of_mem _ (mem_of_find?_eq_some hfind)) entry
          mem_cons_self hx.1]
    · rw [decide_eq_false hentry]
      have hsame : (loadBan now p entry).banned[addr]? = p.banned[addr]? := by
        unfold loadBan
        split
        · rename_i hpos
          rw [Table.getElem?_insert, if_neg fun h => hentry ⟨h.symm, hpos⟩]
        · rfl
      rw [hsame]

/-- The loaded list bars for the whole seconds left of a ban. -/
lemma getElem?_load_save :
    (({} : PeerScorer).loadBansFromFile now (p.saveBansToFile now)).banned[addr]?
      = p.banned[addr]?.bind fun e =>
        if 0 < (e - now) / second then some (now + (e - now) / second * second) else none := by
  have huniq : ∀ x ∈ p.saveBansToFile now, ∀ y ∈ p.saveBansToFile now, x.addr = y.addr → x = y := by
    rintro ⟨a, n⟩ hx ⟨b, m⟩ hy (rfl : a = b)
    obtain ⟨e, he, -, hn⟩ := mem_saveBansToFile.mp hx
    obtain ⟨e', he', -, hm⟩ := mem_saveBansToFile.mp hy
    cases mem_unique he he'
    rw [show n = m from hn.trans hm.symm]
  rw [getElem?_loadBansFromFile _ _ huniq]
  have hempty : ({} : PeerScorer).banned[addr]? = none := Std.TreeMap.getElem?_emptyc
  cases hfind : (p.saveBansToFile now).find? (fun x => x.addr = addr ∧ 0 < x.remainingSecs) with
  | some x =>
    have hx := find?_some hfind
    simp only [decide_eq_true_eq] at hx
    obtain ⟨rfl, hpos⟩ := hx
    obtain ⟨e, he, -, hsecs⟩ := mem_saveBansToFile.mp (mem_of_find?_eq_some hfind)
    rw [he, bind_some, ← hsecs, if_pos hpos]
  | none =>
    rw [hempty]
    cases he : p.banned[addr]? with
    | none => rfl
    | some e =>
      have hzero : ¬ 0 < (e - now) / second := by
        intro hpos
        have hnow : now < e := by
          have := Nat.div_le_self (e - now) second
          omega
        have hmem : (⟨addr, (e - now) / second⟩ : BanEntry) ∈ p.saveBansToFile now :=
          mem_saveBansToFile.mpr ⟨e, he, hnow, rfl⟩
        have hnone := find?_eq_none.mp hfind _ hmem
        simp [hpos] at hnone
      rw [bind_some, if_neg hzero]

/-- After a reload, barred are those that were, if for a second more. -/
lemma isBanned_load_save (ht : now ≤ t) :
    ((({} : PeerScorer).loadBansFromFile now (p.saveBansToFile now)).isBanned t addr = true →
      p.isBanned t addr = true) ∧
    (p.isBanned (t + second) addr = true →
      (({} : PeerScorer).loadBansFromFile now (p.saveBansToFile now)).isBanned t addr = true) := by
  have hsecond : 0 < second := by decide
  simp only [isBanned_iff, getElem?_load_save]
  cases p.banned[addr]? with
  | none => simp
  | some e =>
    have hdiv := Nat.div_add_mod (e - now) second
    have hmod := Nat.mod_lt (e - now) hsecond
    rw [mul_comm] at hdiv
    constructor
    · rintro ⟨e', he', hlt⟩
      rw [bind_some, ite_none_right_eq_some] at he'
      obtain ⟨-, he'⟩ := he'
      cases he'
      exact ⟨e, rfl, by omega⟩
    · rintro ⟨e', he', hlt⟩
      cases he'
      have hpos : 0 < (e - now) / second := Nat.div_pos (by omega) hsecond
      exact ⟨_, by rw [bind_some, if_pos hpos], by omega⟩

end PeerScorer

end CoinCync.Peers

import CoinCync.Lib.Run
import CoinCync.Lib.StableSort
import CoinCync.PeerScorer
import Mathlib.Data.Finset.Card

/-!
# The address book

`AddressManager` of `network/bootstrap.rs`: the addresses a node knows, which of them it tried, which
answered, and which one it dials next. A hash set is a `Finset`; the order in which `get_next` walks
through the manual set is an argument. The grouping of addresses is a parameter, which `addrNetgroup`
fills.
-/

namespace CoinCync.Peers

open StableSort

/-- An entry of the book. -/
structure PeerAddress where
  addr : SocketAddr
  lastSeen : ℕ
  services : ℕ := 0
deriving DecidableEq

/-- The book and what was tried. -/
structure AddressManager where
  addresses : List PeerAddress := []
  knownAddrs : Finset SocketAddr := ∅
  tried : Finset SocketAddr := ∅
  /-- Tried addresses, from the least to the most recently failed. -/
  triedOrder : List SocketAddr := []
  /-- Addresses that answered at least once. -/
  good : Finset SocketAddr := ∅
  selfAddresses : Finset SocketAddr := ∅
  anchors : List SocketAddr := []
  failures : Std.TreeMap SocketAddr ℕ := ∅
  manual : Finset SocketAddr := ∅
  maxAddresses : ℕ
  maxPerGroup : ℕ

/-- `FAILURE_PURGE_THRESHOLD`. -/
def failurePurgeThreshold : ℕ := 5

/-- `MAX_TRIED`. -/
def maxTried : ℕ := 5000

namespace AddressManager

/-- `new`. -/
def new (maxAddresses : ℕ) : AddressManager :=
  { maxAddresses, maxPerGroup := max (maxAddresses / 8) 8 }

/-- The addresses in the book. -/
def book (s : AddressManager) : List SocketAddr := s.addresses.map PeerAddress.addr

/-- Neither tried in this cycle nor our own. -/
def dialable (s : AddressManager) (addr : SocketAddr) : Bool :=
  addr ∉ s.tried ∧ addr ∉ s.selfAddresses

/-- The entries of a group. -/
def groupCount (netgroup : SocketAddr → ℕ) (s : AddressManager) (group : ℕ) : ℕ :=
  s.addresses.countP fun e => netgroup e.addr = group

/-- `addresses.sort_by_key(Reverse(last_seen))`. -/
def sort (s : AddressManager) : AddressManager :=
  { s with addresses := byKey PeerAddress.lastSeen s.addresses }

/-- The last entry of the sorted book goes. -/
def evictOldest (s : AddressManager) : AddressManager :=
  match s.sort.addresses.getLast? with
  | none => s.sort
  | some e =>
    { s with
      addresses := s.sort.addresses.dropLast
      knownAddrs := s.knownAddrs.erase e.addr
      good := s.good.erase e.addr }

/-- Append a new address. -/
def push (s : AddressManager) (pa : PeerAddress) : AddressManager :=
  if pa.addr ∈ s.knownAddrs then s
  else { s with knownAddrs := insert pa.addr s.knownAddrs, addresses := s.addresses ++ [pa] }

/-- `add`. -/
def add (netgroup : SocketAddr → ℕ) (s : AddressManager) (pa : PeerAddress) : AddressManager :=
  if pa.addr ∈ s.selfAddresses then s
  else if pa.addr ∈ s.tried ∨ pa.addr ∈ s.knownAddrs then s
  else if pa.addr ∉ s.manual ∧ s.maxPerGroup ≤ s.groupCount netgroup (netgroup pa.addr) then s
  else if s.maxAddresses ≤ s.addresses.length then s.evictOldest.push pa
  else s.push pa

/-- Take an address out of the book. -/
def remove (s : AddressManager) (addr : SocketAddr) : AddressManager :=
  { s with
    addresses := s.addresses.filter (·.addr ≠ addr)
    knownAddrs := s.knownAddrs.erase addr
    good := s.good.erase addr }

/-- `mark_self_address`. -/
def markSelfAddress (s : AddressManager) (addr : SocketAddr) : AddressManager :=
  { s with selfAddresses := insert addr s.selfAddresses }.remove addr

/-- `clear_tried`. -/
def clearTried (s : AddressManager) : AddressManager :=
  { s with tried := ∅, triedOrder := [] }

/-- `select_feeler_candidate`. -/
def selectFeelerCandidate (s : AddressManager) : Option SocketAddr × AddressManager :=
  (s.sort.book.find? fun addr => addr ∉ s.good ∧ addr ∉ s.tried ∧ addr ∉ s.selfAddresses ∧
    addr ∉ s.manual ∧ addr ∉ s.anchors, s.sort)

/-- `get_next`, with `order` its order through the manual set. -/
def getNext (s : AddressManager) (order : List SocketAddr) : Option SocketAddr × AddressManager :=
  match order.find? s.dialable with
  | some a => (some a, s)
  | none =>
    match s.anchors.find? s.dialable with
    | some a => (some a, s)
    | none =>
      match s.sort.book.find? fun a => decide (a ∈ s.good) && s.dialable a with
      | some a => (some a, s.sort)
      | none =>
        match s.sort.book.find? s.dialable with
        | some a => (some a, s.sort)
        | none =>
          -- everything has been tried: start a new cycle with the first address
          if s.tried ≠ ∅ ∧ s.sort.addresses ≠ [] then (s.sort.book.head?, s.sort.clearTried)
          else (none, s.sort)

/-- The bounded tried set: the address that failed longest ago leaves it. -/
def noteTried (s : AddressManager) (addr : SocketAddr) : AddressManager :=
  let rest := if addr ∈ s.tried then s.triedOrder.filter (· ≠ addr) else s.triedOrder
  let tried := insert addr s.tried
  let order := rest ++ [addr]
  if maxTried < tried.card then
    { s with tried := tried.erase (order.head (by simp [order])), triedOrder := order.tail }
  else { s with tried, triedOrder := order }

/-- Consecutive failures after one more. -/
def failureCount (s : AddressManager) (addr : SocketAddr) : ℕ := s.failures.getD addr 0 + 1

/-- One more failure purges the address. -/
def purges (s : AddressManager) (addr : SocketAddr) : Bool :=
  failurePurgeThreshold ≤ s.failureCount addr ∧ addr ∉ s.manual

/-- Drop an address that failed too often. -/
def purge (s : AddressManager) (addr : SocketAddr) : AddressManager :=
  { s with
    tried := s.tried.erase addr
    triedOrder := s.triedOrder.filter (· ≠ addr)
    failures := s.failures.erase addr }.remove addr

/-- `mark_tried`. -/
def markTried (s : AddressManager) (addr : SocketAddr) : AddressManager :=
  let s' := { s.noteTried addr with failures := s.failures.insert addr (s.failureCount addr) }
  if s.purges addr then s'.purge addr else s'

/-- Change the first entry of an address. -/
def modifyEntry (s : AddressManager) (addr : SocketAddr) (f : PeerAddress → PeerAddress) :
    AddressManager :=
  { s with addresses := s.addresses.modify (s.addresses.findIdx (·.addr = addr)) f }

/-- `mark_success`. -/
def markSuccess (s : AddressManager) (now : ℕ) (addr : SocketAddr) : AddressManager :=
  { s with
    tried := s.tried.erase addr
    triedOrder := s.triedOrder.filter (· ≠ addr)
    failures := s.failures.erase addr
    good := if addr ∈ s.knownAddrs ∨ addr ∈ s.manual then insert addr s.good else s.good
    }.modifyEntry addr fun e => { e with lastSeen := now }

end AddressManager

/-- The single operations. -/
inductive Op
  | add (pa : PeerAddress)
  | manual (addr : SocketAddr)
  | anchors (addrs : List SocketAddr)
  | markSelfAddress (addr : SocketAddr)
  | selectFeelerCandidate
  | getNext (order : List SocketAddr)
  | markTried (addr : SocketAddr)
  | markSuccess (now : ℕ) (addr : SocketAddr)
  | clearTried
  | services (addr : SocketAddr) (bits : ℕ)
deriving DecidableEq

/-- `add_many`. -/
def addMany (addrs : List PeerAddress) : List Op := addrs.map .add

/-- An `--addnode` peer is dialed first and never purged. -/
def addManual (now : ℕ) (addr : SocketAddr) : List Op := [.manual addr, .add ⟨addr, now, 0⟩]

/-- `set_anchors`. -/
def setAnchors (now : ℕ) (addrs : List SocketAddr) : List Op :=
  addMany (addrs.map fun a => ⟨a, now, 0⟩) ++ [.anchors addrs]

/-- `mark_noise_capable`. -/
def markNoiseCapable (s : AddressManager) (now : ℕ) (addr : SocketAddr) (bit : ℕ) : Op :=
  if addr ∈ s.book then .services addr bit else .add ⟨addr, now, bit⟩

/-- `addr_netgroup`: 16 bits of an IPv4 address, 32 of an IPv6 one behind a marker. -/
def addrNetgroup (a : SocketAddr) : ℕ :=
  if a.ip < 2 ^ 32 then a.ip / 2 ^ 16 else 2 ^ 32 + (a.ip - 2 ^ 32) / 2 ^ 96

/-! ## Gossip -/

/-- An `Addr` entry, with the 128 bits of an IPv6 address. -/
structure NetAddr where
  ip : ℕ
  port : ℕ
  timestamp : ℕ
  services : ℕ
deriving DecidableEq

/-- `to_socket_addr`: an IPv4-mapped address is unwrapped. -/
def toSocketAddr (n : NetAddr) : Option SocketAddr :=
  if n.port = 0 then none
  else if n.ip / 2 ^ 32 = 0xffff then some ⟨n.ip % 2 ^ 32, n.port⟩
  else if n.ip = 0 then none
  else some ⟨2 ^ 32 + n.ip, n.port⟩

/-- `is_routable` of an IPv4 address. -/
def isRoutableV4 (ip : ℕ) : Bool :=
  let o0 := ip / 2 ^ 24
  let o1 := ip / 2 ^ 16 % 256
  let o2 := ip / 2 ^ 8 % 256
  ¬(o0 = 127 ∨ ip = 0 ∨ o0 &&& 0xf0 = 0xe0 ∨ o0 = 10 ∨ o0 = 172 ∧ o1 &&& 0xf0 = 16 ∨
    o0 = 192 ∧ o1 = 168 ∨ o0 = 169 ∧ o1 = 254 ∨ o0 = 100 ∧ o1 &&& 0xc0 = 64 ∨
    o0 = 192 ∧ o1 = 0 ∧ o2 = 2 ∨ o0 = 198 ∧ o1 = 51 ∧ o2 = 100 ∨ o0 = 203 ∧ o1 = 0 ∧ o2 = 113 ∨
    o0 = 198 ∧ o1 &&& 0xfe = 18 ∨ ip = 2 ^ 32 - 1 ∨ o0 = 0)

/-- `is_routable` of an IPv6 address. -/
def isRoutableV6 (ip : ℕ) : Bool :=
  let s0 := ip / 2 ^ 112
  let s1 := ip / 2 ^ 96 % 2 ^ 16
  ¬(ip = 1 ∨ ip = 0 ∨ s0 / 2 ^ 8 = 0xff ∨ s0 &&& 0xfe00 = 0xfc00 ∨ s0 &&& 0xffc0 = 0xfe80 ∨
    s0 = 0x2001 ∧ s1 = 0x0db8 ∨ ip / 2 ^ 32 = 0)

/-- `is_routable`. -/
def isRoutable (ip : ℕ) : Bool :=
  if ip < 2 ^ 32 then isRoutableV4 ip else isRoutableV6 (ip - 2 ^ 32)

/-- The additions of `handle_addr` for a message at `now`. -/
def handleAddr (now : ℕ) (addrs : List NetAddr) : List Op :=
  addMany <| addrs.filterMap fun n =>
    if now + 600 < n.timestamp then none
    else if 7 * 24 * 3600 < now - n.timestamp then none
    else (toSocketAddr n).bind fun a =>
      if isRoutable a.ip then some ⟨a, min n.timestamp now, n.services⟩ else none

/-- The book, and the addresses proven in it. -/
structure Book where
  manager : AddressManager
  proven : Finset SocketAddr := ∅

namespace Book

open AddressManager

variable (netgroup : SocketAddr → ℕ)

/-- One operation. -/
def step (b : Book) : Op → Option Book
  | .add pa => some { b with manager := b.manager.add netgroup pa }
  | .manual a => some { b with manager := { b.manager with manual := insert a b.manager.manual } }
  | .anchors l => some { b with manager := { b.manager with anchors := l } }
  | .markSelfAddress a =>
    some { manager := b.manager.markSelfAddress a, proven := b.proven.erase a }
  | .selectFeelerCandidate => some { b with manager := b.manager.selectFeelerCandidate.2 }
  | .getNext order =>
    if order.toFinset = b.manager.manual then
      some { b with manager := (b.manager.getNext order).2 }
    else none
  | .markTried a =>
    some { manager := b.manager.markTried a
           proven := if b.manager.purges a then b.proven.erase a else b.proven }
  | .markSuccess now a =>
    some { manager := b.manager.markSuccess now a
           proven := if a ∈ b.manager.book then insert a b.proven else b.proven }
  | .clearTried => some { b with manager := b.manager.clearTried }
  | .services a bits =>
    some { b with
      manager := b.manager.modifyEntry a fun e => { e with services := e.services ||| bits } }

/-- The addresses `get_next` has to prefer. -/
def preferred (b : Book) : Finset SocketAddr :=
  b.manager.manual ∪ b.manager.anchors.toFinset ∪ b.proven

end Book

end CoinCync.Peers

import CoinCync.AddBlock
import CoinCync.UtxosTheorems

/-!
# The ledger of a chain

What a chain of blocks, newest first, is worth: functions of the chain alone that say what the
node's accumulators are for. `Ledger` is the part of the node the connect and disconnect sites
change. A property of a ledger and a chain that one connect extends by the block, and one disconnect
shortens by it, is carried through whole loops by `Connects.rule` and `disconnectAll_rule`.
-/

namespace CoinCync

open List Option MachineInt

section Replay

variable (E : Env)
variable {b : Block} {R : Rules E}

/-- What a block adds to the work; genesis is the fixed base. -/
def Block.weight (b : Block) : ℕ := if b.height = 0 then 1 else b.work

/-- Cumulative work. -/
def chainWork (c : List Block) : ℕ := (c.map Block.weight).sum

/-- Rewards paid. -/
def chainEmission (c : List Block) : ℕ := (c.map fun b => calculateBlockReward b.height).sum

/-- Fees burnt. -/
def chainBurn (c : List Block) : ℕ := (c.map (blockFeeBurn E)).sum

/-- The UTXO set of a chain: its blocks applied from genesis. -/
def replayUtxos (c : List Block) : UtxoCore :=
  c.foldr (fun b u => u.connectBlock E b.height b.transactions) UtxoCore.empty

/-- The pool of a chain: cleared, then fed every block. -/
def replayPool : List Block → Option SparkPool
  | [] => some SparkPool.cleared
  | b :: c => (replayPool c).bind fun p => p.applySparkV2Txs E b.transactions b.height

end Replay

variable {E : Env}

@[simp] lemma chainWork_cons (b : Block) (c : List Block) :
    chainWork (b :: c) = b.weight + chainWork c := by simp [chainWork]

@[simp] lemma chainEmission_cons (b : Block) (c : List Block) :
    chainEmission (b :: c) = calculateBlockReward b.height + chainEmission c := by
  simp [chainEmission]

@[simp] lemma chainBurn_cons (b : Block) (c : List Block) :
    chainBurn E (b :: c) = blockFeeBurn E b + chainBurn E c := by simp [chainBurn]

@[simp] lemma replayUtxos_cons (b : Block) (c : List Block) :
    replayUtxos E (b :: c) = (replayUtxos E c).connectBlock E b.height b.transactions := rfl

lemma Block.weight_pos (b : Block) : 0 < b.weight := by
  unfold Block.weight
  split
  · exact one_pos
  · exact b.work_pos

lemma chainWork_append (c d : List Block) : chainWork (c ++ d) = chainWork c + chainWork d := by
  simp [chainWork]

/-- The emission of a lineage depends on its height alone. -/
lemma chainEmission_eq_emittedThrough {get : Hash → Option Block}
    (hc : Lineage E.linking get k (b :: c)) : chainEmission (b :: c) = emittedThrough b.height := by
  have hh : b.height = c.length := hc.height_head
  have hmap : (b :: c).map Block.height = (range (c.length + 1)).reverse := hc.map_height
  have hcomp : chainEmission (b :: c) = (((b :: c).map Block.height).map calculateBlockReward).sum := by
    rw [List.map_map]
    rfl
  rw [hcomp, hmap, map_reverse, sum_reverse, hh]
  rfl

/-- Every replay is well formed. -/
lemma replayUtxos_wellFormed (c : List Block) : (replayUtxos E c).WellFormed := by
  induction c with
  | nil => exact UtxoCore.wellFormed_empty
  | cons b c ih => exact ih.connectBlock b.height b.transactions

/-- No block above genesis repeats an output key or key image of its past. -/
def FreshChain (E : Env) (c : List Block) : Prop :=
  ∀ b r, b :: r <:+ c → r ≠ [] → FreshFor E b.transactions (replayUtxos E r)

lemma FreshChain.suffix (hc : FreshChain E c) (hr : r <:+ c) :
    FreshChain E r := fun b q hq hne => hc b q (hq.trans hr) hne

/-- One fresh block more. -/
lemma FreshChain.cons (hc : FreshChain E c)
    (hb : FreshFor E b.transactions (replayUtxos E c)) : FreshChain E (b :: c) := by
  intro x r hx hne
  rcases suffix_cons_iff.mp hx with heq | hx
  · obtain ⟨rfl, rfl⟩ := cons.inj heq
    exact hb
  · exact hc x r hx hne

/-! ## Ledgers -/

/-- The accumulators that connecting and disconnecting change. -/
structure Ledger where
  supply : ℕ
  burned : ℕ
  utxos : UtxoSet
  pool : Option SparkPool

namespace Ledger

variable (E : Env)

/-- Connecting a block; `none` is a panic. -/
def connect (l : Ledger) (b : Block) : Option Ledger := do
  let supply ← checkedAdd 128 l.supply (calculateBlockReward b.height)
  let burned ← checkedAdd 128 l.burned (blockFeeBurn E b)
  let pool ← connectPool E l.pool b.height b.transactions
  some ⟨supply, burned, l.utxos.connectBlock E b.height b.transactions, pool⟩

/-- Disconnecting a block at height `h`. -/
def disconnect (l : Ledger) (h : ℕ) (b : Block) : Option Ledger := do
  let supply ← checkedSub l.supply (calculateBlockReward h)
  let burned ← checkedSub l.burned (blockFeeBurn E b)
  some ⟨supply, burned, l.utxos.disconnectBlock E b.transactions, rewindPool l.pool⟩

/-- Disconnecting blocks in descending order. -/
def disconnectAll (o : List Block) (l : Ledger) : Option Ledger :=
  o.foldlM (fun l b => disconnect E l b.height b) l

variable {E}

/-- What connecting changes. -/
lemma connect_eq_some {l l' : Ledger} {b : Block} (h : l.connect E b = some l') :
    l'.supply = l.supply + calculateBlockReward b.height ∧
      l'.burned = l.burned + blockFeeBurn E b ∧
      l'.utxos = l.utxos.connectBlock E b.height b.transactions ∧
      connectPool E l.pool b.height b.transactions = some l'.pool := by
  simp only [connect, bind_eq_bind, bind_eq_some_iff, some.injEq] at h
  obtain ⟨supply, hs, burned, hb, pool, hp, rfl⟩ := h
  exact ⟨(checkedAdd_eq_some.mp hs).2, (checkedAdd_eq_some.mp hb).2, rfl, hp⟩

/-- What disconnecting changes. -/
lemma disconnect_eq_some {l l' : Ledger} {b : Block} (hd : l.disconnect E h b = some l') :
    l.supply = l'.supply + calculateBlockReward h ∧
      l.burned = l'.burned + blockFeeBurn E b ∧
      l'.utxos = l.utxos.disconnectBlock E b.transactions ∧
      l'.pool = rewindPool l.pool := by
  simp only [disconnect, bind_eq_bind, bind_eq_some_iff, some.injEq] at hd
  obtain ⟨supply, hs, burned, hb, rfl⟩ := hd
  exact ⟨checkedSub_eq_some.mp hs, checkedSub_eq_some.mp hb, rfl, rfl⟩

@[simp] lemma disconnectAll_nil (l : Ledger) : disconnectAll E [] l = some l := rfl

@[simp] lemma disconnectAll_cons (b : Block) (o : List Block) (l : Ledger) :
    disconnectAll E (b :: o) l = (l.disconnect E b.height b).bind (disconnectAll E o) := rfl

section Rules

variable {P : Ledger → List Block → Prop} {l l' : Ledger} {s : List Block}

/-- What one disconnect carries down by a block, the loop carries to `s`. -/
lemma disconnectAll_rule (hstep : ∀ l l' b r, b :: r <:+ o ++ s → s <:+ r → P l (b :: r) →
      l.disconnect E b.height b = some l' → P l' r) (hP : P l (o ++ s))
    (h : disconnectAll E o l = some l') : P l' s := by
  induction o generalizing l with
  | nil =>
    cases h
    exact hP
  | cons b o ih =>
    rw [disconnectAll_cons, bind_eq_some_iff] at h
    obtain ⟨l1, h1, h⟩ := h
    refine ih (fun l l' x r hx => ?_) ?_ h
    · exact hstep l l' x r (hx.trans (suffix_cons b _))
    · exact hstep l l1 b (o ++ s) (suffix_refl _) (suffix_append _ _) hP h1

/-- Blocks connected on `s` in turn, each valid on its parent and UTXO set. -/
inductive Connects (R : Rules E) : List Block → List Block → Ledger → Ledger → Prop
  | nil {s : List Block} {l : Ledger} : Connects R s [] l l
  | cons {s g : List Block} {b : Block} {l l₁ l₂ : Ledger} :
      R.validateBlockCtx b s.head? l.utxos none true = .valid → l.connect E b = some l₁ →
      Connects R (b :: s) g l₁ l₂ → Connects R s (b :: g) l l₂

/-- Two connect loops are one. -/
lemma Connects.append (h : Connects R s g l l1) (h' : Connects R (g.reverse ++ s) g' l1 l') :
    Connects R s (g ++ g') l l' := by
  induction h with
  | nil => exact h'
  | cons hv hc _ ih =>
    rw [reverse_cons, append_assoc] at h'
    exact .cons hv hc (ih h')

/-- What one valid connect carries up by a block, the loop carries from `s` on. -/
lemma Connects.rule {R : Rules E} (hstep : ∀ l l' b r, b :: r <:+ g.reverse ++ s → P l r →
      R.validateBlockCtx b r.head? l.utxos none true = .valid → l.connect E b = some l' →
      P l' (b :: r)) (hP : P l s) (h : Connects R s g l l') : P l' (g.reverse ++ s) := by
  induction h with
  | nil => exact hP
  | @cons s g b l l1 l2 hv hc _ ih =>
    have hrev : (b :: g).reverse ++ s = g.reverse ++ b :: s := by
      rw [reverse_cons, append_assoc, singleton_append]
    rw [hrev] at hstep ⊢
    exact ih hstep (hstep l l1 b s (suffix_append _ _) hP hv hc)

end Rules

/-! ### Totals -/

/-- Supply and burn are those of the chain. -/
def Balanced (E : Env) (l : Ledger) (c : List Block) : Prop :=
  l.supply = chainEmission c ∧ l.burned = chainBurn E c

lemma Balanced.connect {l l' : Ledger} {b : Block} (hl : Balanced E l c)
    (h : l.connect E b = some l') : Balanced E l' (b :: c) := by
  obtain ⟨hs, hb, -⟩ := connect_eq_some h
  constructor
  · rw [hs, hl.1, chainEmission_cons, add_comm]
  · rw [hb, hl.2, chainBurn_cons, add_comm]

lemma Balanced.disconnect {l l' : Ledger} {b : Block} (hl : Balanced E l (b :: c))
    (h : l.disconnect E b.height b = some l') : Balanced E l' c := by
  obtain ⟨hs, hb, -⟩ := disconnect_eq_some h
  constructor
  · have := hl.1
    rw [chainEmission_cons] at this
    omega
  · have := hl.2
    rw [chainBurn_cons] at this
    omega

/-! ### The UTXO set -/

/-- The UTXO tables are the replay of the chain. -/
def Replayed (E : Env) (l : Ledger) (c : List Block) : Prop :=
  l.utxos.toUtxoCore = replayUtxos E c

lemma Replayed.connect {l l' : Ledger} {b : Block} (hl : Replayed E l c)
    (h : l.connect E b = some l') : Replayed E l' (b :: c) := by
  obtain ⟨-, -, hu, -⟩ := connect_eq_some h
  rw [Replayed, hu, UtxoSet.toUtxoCore_connectBlock, hl, replayUtxos_cons]

/-- Disconnecting a fresh block undoes the end of the replay. -/
lemma Replayed.disconnect {l l' : Ledger} {b : Block} (hl : Replayed E l (b :: c))
    (hf : FreshFor E b.transactions (replayUtxos E c)) (hd : l.disconnect E h b = some l') :
    Replayed E l' c := by
  obtain ⟨-, -, hu, -⟩ := disconnect_eq_some hd
  rw [Replayed, hu, UtxoSet.toUtxoCore_disconnectBlock, hl]
  exact UtxoCore.disconnectBlock_connectBlock (replayUtxos_wellFormed c) b.height hf

end Ledger

/-! ## The ledger of a node -/

namespace Node

/-- The ledger of the node. -/
def ledger (n : Node) : Ledger := ⟨n.stats.totalSupply, n.stats.totalBurned, n.utxos, n.sparkPool⟩

/-- The node with another ledger. -/
def withLedger (n : Node) (l : Ledger) : Node :=
  { n with
    stats := { n.stats with totalSupply := l.supply, totalBurned := l.burned }
    utxos := l.utxos
    sparkPool := l.pool }

@[simp] lemma withLedger_ledger (n : Node) : n.withLedger n.ledger = n := rfl

@[simp] lemma ledger_storeBlock (n : Node) (b : Block) : (n.storeBlock E b).ledger = n.ledger :=
  rfl

/-- The connect sites act on the ledger alone. -/
lemma connectState_eq (n : Node) (b : Block) :
    n.connectState E b = (n.ledger.connect E b).map n.withLedger := by
  simp only [connectState, Ledger.connect, ledger]
  cases checkedAdd 128 n.stats.totalSupply (calculateBlockReward b.height) with
  | none => rfl
  | some s =>
    cases checkedAdd 128 n.stats.totalBurned (blockFeeBurn E b) with
    | none => rfl
    | some t => cases connectPool E n.sparkPool b.height b.transactions <;> rfl

/-- So do the disconnect sites. -/
lemma disconnectState_eq (n : Node) (h : ℕ) (b : Block) :
    n.disconnectState E h b = (n.ledger.disconnect E h b).map n.withLedger := by
  simp only [disconnectState, Ledger.disconnect, ledger]
  cases checkedSub n.stats.totalSupply (calculateBlockReward h) with
  | none => rfl
  | some s => cases checkedSub n.stats.totalBurned (blockFeeBurn E b) <;> rfl

end Node

end CoinCync

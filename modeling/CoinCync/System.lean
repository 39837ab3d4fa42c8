import CoinCync.Lib.Run
import CoinCync.Restart
import CoinCync.RollbackTheorems

/-!
# The node as a system

A run of the node is any sequence of its operations, which all run under the writer's lock. `Stepped`
says what one operation can do to a node with a canonical chain, and every invariant over runs is
proved by cases on it.
-/

namespace CoinCync

/-- An operation on the node. -/
inductive Op
  | addBlock (b : Block)
  | rollback (target : ℕ)
  | restart
deriving DecidableEq

variable {E : Env} {n' : Node} {c' : List Block}

/-- One operation; `none` when the process stops. -/
def step (R : Rules E) (n : Node) : Op → Option Node
  | .addBlock b => (addBlock R n b).map (·.1)
  | .rollback target => (rollbackToHeight E n target).map (·.1)
  | .restart => restart R n

/-- Reorganisations find everything in the cache. -/
def OpCached (R : Rules E) (n : Node) : Op → Prop
  | .addBlock b => ReorgCached R n b
  | _ => True

/-- What an operation does to a node with chain `c`. -/
inductive Stepped (R : Rules E) (n : Node) (c : List Block) : Op → Node → List Block → Prop
  | added {b : Block} {r : AddResult} {n' : Node} {c' : List Block} :
      addBlock R n b = some (n', r) → Added R n c b n' r c' → Stepped R n c (.addBlock b) n' c'
  | unchanged {target : ℕ} : Stepped R n c (.rollback target) n c
  | rolledBack {o s : List Block} {t : Block} {l : Ledger} : c = o ++ t :: s →
      Ledger.disconnectAll E o n.ledger = some l →
      Stepped R n c (.rollback t.height) (n.rolledBack E o t l) (t :: s)
  | restarted {st : ChainStateData} {n' : Node} : Restarted R n c st n' →
      Stepped R n c .restart n' c

/-- Every operation is one of them. -/
lemma step_stepped (hn : ChainInv R n c) (hop : OpCached R n op) (h : step R n op = some n') :
    ∃ c', Stepped R n c op n' c' := by
  cases op with
  | addBlock b =>
    obtain ⟨⟨m, r⟩, hadd, rfl⟩ := Option.map_eq_some_iff.mp h
    obtain ⟨c', hadded⟩ := addBlock_added hn hop hadd
    exact ⟨c', .added hadd hadded⟩
  | rollback target =>
    obtain ⟨⟨m, r⟩, hroll, rfl⟩ := Option.map_eq_some_iff.mp h
    rcases rollbackToHeight_cases hn hroll with rfl | ⟨o, t, s, l, hc, rfl, hl, rfl, -⟩
    · exact ⟨c, .unchanged⟩
    · exact ⟨t :: s, .rolledBack hc hl⟩
  | restart =>
    obtain ⟨st, hst⟩ := hn.restarted h
    exact ⟨c, .restarted hst⟩

/-- Each leaves a node with the chain it names. -/
lemma Stepped.chainInv (h : Stepped R n c op n' c') (hn : ChainInv R n c) : ChainInv R n' c' := by
  cases h with
  | added _ hadded => exact hadded.chainInv hn
  | unchanged => exact hn
  | rolledBack hc =>
    subst hc
    exact hn.rolledBack _
  | restarted hst => exact hst.chainInv

/-! ## Invariants over runs -/

/-- What guarded operations carry along holds in every guarded run. -/
lemma reaches_invariant {P : Node → List Block → Prop}
    (hcached : ∀ m op, ok m op → OpCached R m op) (hgenesis : P (genesisNode R pool) [R.genesis])
    (hstep : ∀ m m' q q' op, ChainInv R m q → P m q → ok m op → Stepped R m q op m' q' → P m' q')
    (h : Run.Reaches (step R) ok (genesisNode R pool) n) : ∃ c, ChainInv R n c ∧ P n c := by
  refine Run.Reaches.invariant (P := fun m => ∃ q, ChainInv R m q ∧ P m q)
    ⟨_, genesisNode_chainInv R pool, hgenesis⟩ ?_ h
  rintro m op m' ⟨q, hq, hP⟩ hok hm
  obtain ⟨q', hq'⟩ := step_stepped hq (hcached m op hok) hm
  exact ⟨q', hq'.chainInv hq, hstep m m' q q' op hq hP hok hq'⟩

/-! ## A network to run -/

/-- A hash tells height, nonce and `extra` apart, a mint bundle is a coin of its value. -/
def sampleEnv (network : NetworkType) (txSize : ℕ) : Env where
  network := network
  headerHash h := 1000 * h.height + h.nonce
  txHash tx := match tx.extra with
    | .bytes b => 3 * b
    | .shieldedV1 p => 3 * p.balanceProof + 1
    | .sparkV2 p => 3 * p.mint.getD 0 + 2
  txSize _ := txSize
  spendTags b := some [b]
  verifyMintBundle b := some (b, [b])
  spendOutputs _ := none
  spendVout _ := some 0
  spendFee _ := some 0
  deriveOutpoint images i := 256 * images.sum + i
  serialContext h := h
  coinId c := c

lemma genesis_of_checkpoint (E : Env) (genesis : Block) (k : Hash)
    (h : (if 0 = 0 then some (decide (k = E.blockHash genesis)) else none) ≠ some false) :
    k = E.blockHash genesis := by
  simpa using h

/-- The rules of a network that checks nothing but `valid`. -/
def openRules (E : Env) (genesis : Block) (hheight : genesis.height = 0)
    (hcoinbase : ∀ tx ∈ genesis.transactions, tx.isCoinbase) (valid : Block → Bool) : Rules E where
  genesis := genesis
  genesis_height := hheight
  genesis_coinbase := hcoinbase
  verifyCheckpoint h k := if h = 0 then some (decide (k = E.blockHash genesis)) else none
  checkpoint_genesis := genesis_of_checkpoint E genesis
  anchorOk _ := true
  timestampOk _ _ := true
  targetOk _ _ _ := true
  validateBlockCtx b parent _ _ contextual :=
    if (b.height = 0 ∨ parent.isSome) ∧ (contextual → valid b) then .valid else .invalid
  validate_parent b u cp ctx h := by
    by_contra hb
    simp [hb] at h
  supplyCommitmentOk _ _ _ := true
  verifyBlockSparkV2 _ _ _ := true
  reorgTargetOk _ _ _ _ := true

/-- A block of the sample network. -/
def sampleBlock (height nonce prevHash target : ℕ) (txs : List Transaction) : Block :=
  ⟨{ height := height, prevHash := prevHash, target := target, nonce := nonce }, txs⟩

/-- The open network with an empty genesis of hash `0`. -/
def sampleRules (network : NetworkType) (txSize : ℕ) (valid : Block → Bool) :
    Rules (sampleEnv network txSize) :=
  openRules _ (sampleBlock 0 0 7 (2 ^ 255) []) rfl (by simp [sampleBlock]) valid

/-- The sample network on mainnet, where every block is valid. -/
def openMainnet : Rules (sampleEnv .mainnet 0) := sampleRules .mainnet 0 fun _ => true

end CoinCync

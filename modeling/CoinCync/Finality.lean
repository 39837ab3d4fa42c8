import CoinCync.Block
import CoinCync.Lib.Bytes
import CoinCync.Lib.Run
import Mathlib.Data.List.Infix

/-!
# Rolling soft finality

The finality tracker of CIP-009.D and the adapter that feeds it. Miners attest, in the coinbases of
their blocks, to a height and a block hash; a height whose hash has two thirds of the miners active
there becomes soft-final, and a reorganisation from a fork point at or below it is refused. The
tracker keeps the soft-final height only and does not know the chain; `FinalityNode` puts the
canonical chain beside it.
-/

namespace CoinCync

open Bytes Run

/-! ## Attestations on the wire -/

/-- A miner's key. -/
abbrev MinerPubkey := List UInt8

/-- A block hash. -/
abbrev BlockHash := List UInt8

/-- A miner's signed vote for a block. -/
structure FinalityAttestation where
  minerPubkey : MinerPubkey
  targetHeight : ℕ
  targetHash : BlockHash
  signature : List UInt8
deriving DecidableEq

/-- Why bytes are no attestation. -/
inductive WireError
  | tooShort
  | badMagic
  | unknownVersion (version : UInt8)
  | borshDecode
  | wrongSignatureLength (actual : ℕ)
deriving DecidableEq

/-- The letters `CIP9`. -/
def wireMagic : List UInt8 := [67, 73, 80, 57]

/-- `WIRE_VERSION`. -/
def wireVersion : UInt8 := 1

/-- `SIGNATURE_LEN`. -/
def signatureLen : ℕ := 64

/-- The fields as Borsh writes them. -/
def encodeBody (a : FinalityAttestation) : List UInt8 :=
  a.minerPubkey ++ (toLe 8 a.targetHeight ++ (a.targetHash ++ (toLe 4 a.signature.length ++ a.signature)))

/-- `WireAttestation::try_from_slice`, which reads every byte. -/
def decodeBody (bytes : List UInt8) : Option FinalityAttestation := do
  let (minerPubkey, bytes) ← split 32 bytes
  let (height, bytes) ← split 8 bytes
  let (targetHash, bytes) ← split 32 bytes
  let (length, bytes) ← split 4 bytes
  let (signature, bytes) ← split (ofLe length) bytes
  if bytes = [] then some ⟨minerPubkey, ofLe height, targetHash, signature⟩ else none

/-- `codec::encode`. -/
def encodeAttestation (a : FinalityAttestation) : List UInt8 :=
  wireMagic ++ wireVersion :: encodeBody a

/-- `codec::decode`. -/
def decodeAttestation (bytes : List UInt8) : Except WireError FinalityAttestation :=
  if bytes.length < wireMagic.length + 1 then .error .tooShort
  else if bytes.take wireMagic.length ≠ wireMagic then .error .badMagic
  else if bytes.getD wireMagic.length 0 ≠ wireVersion then
    .error (.unknownVersion (bytes.getD wireMagic.length 0))
  else match decodeBody (bytes.drop (wireMagic.length + 1)) with
    | none => .error .borshDecode
    | some a =>
      if a.signature.length ≠ signatureLen then .error (.wrongSignatureLength a.signature.length)
      else .ok a

/-- `find_attestation`: the bytes from the first magic on. -/
def findAttestation : List UInt8 → Option (List UInt8)
  | [] => none
  | b :: bs => if (b :: bs).take wireMagic.length = wireMagic then some (b :: bs) else findAttestation bs

/-- The sizes of the fields of the source's type. -/
structure FinalityAttestation.Sized (a : FinalityAttestation) : Prop where
  minerPubkey : a.minerPubkey.length = 32
  targetHeight : a.targetHeight < 2 ^ 64
  targetHash : a.targetHash.length = 32
  signature : a.signature.length = signatureLen

/-- The fields are read back. -/
lemma decodeBody_encodeBody (ha : a.Sized) : decodeBody (encodeBody a) = some a := by
  have hlen : ofLe (toLe 4 a.signature.length) = a.signature.length :=
    ofLe_toLe (by rw [ha.signature]; decide)
  have hheight : ofLe (toLe 8 a.targetHeight) = a.targetHeight := ofLe_toLe ha.targetHeight
  have hsig : split a.signature.length a.signature = some (a.signature, []) := by
    simpa using split_append rfl ([] : List UInt8)
  simp [decodeBody, encodeBody, split_append ha.minerPubkey, split_append ha.targetHash,
    split_append (length_toLe _ _), hlen, hheight, hsig]

/-- Every attestation comes out of the coinbase it is written to. -/
theorem decode_found (ha : a.Sized) :
    (findAttestation (encodeAttestation a)).map decodeAttestation = some (.ok a) := by
  have hbody := decodeBody_encodeBody ha
  simp [findAttestation, encodeAttestation, decodeAttestation, wireMagic, hbody, ha.signature]

/-! ## The active set -/

/-- First and last block of a miner. -/
structure MinerRecord where
  firstSeenHeight : ℕ
  lastSeenHeight : ℕ
deriving DecidableEq

/-- The miners' records, one for each, and the activity window. -/
structure ActiveMinerSet where
  miners : List (MinerPubkey × MinerRecord) := []
  window : ℕ
deriving DecidableEq

namespace ActiveMinerSet

variable (s : ActiveMinerSet)
variable {a : FinalityAttestation}

/-- `ActiveMinerSet::record_block`. -/
def recordBlock (miner : MinerPubkey) (height : ℕ) : ActiveMinerSet :=
  match s.miners.lookup miner with
  | some _ => { s with miners := s.miners.map fun r =>
      if r.1 = miner ∧ r.2.lastSeenHeight < height then
        (r.1, { r.2 with lastSeenHeight := height })
      else r }
  | none => { s with miners := (miner, ⟨height, height⟩) :: s.miners }

/-- `is_active_record`. -/
def isActiveRecord (r : MinerRecord) (atHeight window : ℕ) : Bool :=
  if atHeight < r.firstSeenHeight then false
  else if atHeight - r.firstSeenHeight < window then true
  else decide (r.lastSeenHeight ≤ atHeight ∧ atHeight - r.lastSeenHeight < window)

/-- `is_active`. -/
def isActive (miner : MinerPubkey) (atHeight : ℕ) : Bool :=
  match s.miners.lookup miner with
  | some r => isActiveRecord r atHeight s.window
  | none => false

/-- `active_count`. -/
def activeCount (atHeight : ℕ) : ℕ :=
  (s.miners.filter fun r => isActiveRecord r.2 atHeight s.window).length

end ActiveMinerSet

/-! ## The tracker -/

/-- Why an attestation is refused. -/
inductive FinalityError
  | invalidSignature
  | futureTarget (targetHeight trackerTip : ℕ)
  | staleTarget (targetHeight earliestAccepted : ℕ)
  | minerNotActive (height : ℕ)
  | duplicateAttestation (targetHeight : ℕ)
deriving DecidableEq

/-- `ApplyOutcome`. -/
inductive ApplyOutcome
  | accepted
  | newlyFinalized (height : ℕ) (hash : BlockHash)
deriving DecidableEq

/-- A vote that counts. -/
structure RecordedAttestation where
  minerPubkey : MinerPubkey
  targetHeight : ℕ
  targetHash : BlockHash
deriving DecidableEq

/-- The tracker. -/
structure FinalityTracker where
  minQuorum : ℕ
  staleHorizon : ℕ
  activeSet : ActiveMinerSet
  chainTip : ℕ := 0
  /-- The signers of every height and hash. -/
  attestations : List RecordedAttestation := []
  softFinalHeight : Option ℕ := none
  totalRecorded : ℕ := 0
deriving DecidableEq

/-- `ceil_two_thirds`. -/
def ceilTwoThirds (n : ℕ) : ℕ := (n * 2 + 2) / 3

namespace FinalityTracker

variable (t : FinalityTracker)

/-- `FinalityTracker::with_params`. -/
def withParams (window minQuorum staleHorizon : ℕ) : FinalityTracker where
  minQuorum := minQuorum
  staleHorizon := staleHorizon
  activeSet := { window := window }

/-- `FinalityTracker::new_default`. -/
def newDefault : FinalityTracker := withParams 10000 5 10000

/-- `prune_stale_attestations`. -/
def pruneStaleAttestations : FinalityTracker :=
  { t with attestations := t.attestations.filter (t.chainTip - t.staleHorizon ≤ ·.targetHeight) }

/-- `FinalityTracker::record_block`. -/
def recordBlock (miner : MinerPubkey) (blockHeight : ℕ) : FinalityTracker :=
  let t := { t with activeSet := t.activeSet.recordBlock miner blockHeight }
  if t.chainTip < blockHeight then pruneStaleAttestations { t with chainTip := blockHeight } else t

/-- `signer_count`. -/
def signerCount (height : ℕ) (hash : BlockHash) : ℕ :=
  (t.attestations.filter fun r => r.targetHeight = height ∧ r.targetHash = hash).length

/-- Enter a vote. -/
def record (a : FinalityAttestation) : FinalityTracker :=
  { t with
    attestations := ⟨a.minerPubkey, a.targetHeight, a.targetHash⟩ :: t.attestations
    totalRecorded := t.totalRecorded + 1 }

/-- Two thirds of the miners active at the height, who are enough, voted for the hash. -/
def Quorum (height : ℕ) (hash : BlockHash) : Prop :=
  t.minQuorum ≤ t.activeSet.activeCount height ∧
    ceilTwoThirds (t.activeSet.activeCount height) ≤ t.signerCount height hash

instance (height : ℕ) (hash : BlockHash) : Decidable (t.Quorum height hash) :=
  inferInstanceAs (Decidable (_ ∧ _))

/-- `apply_attestation`, with the verifier as a function. -/
def applyAttestation (verify : FinalityAttestation → Bool) (a : FinalityAttestation) :
    FinalityTracker × Except FinalityError ApplyOutcome :=
  if verify a = false then (t, .error .invalidSignature)
  else if t.chainTip < a.targetHeight then (t, .error (.futureTarget a.targetHeight t.chainTip))
  else if a.targetHeight < t.chainTip - t.staleHorizon then
    (t, .error (.staleTarget a.targetHeight (t.chainTip - t.staleHorizon)))
  else if t.activeSet.isActive a.minerPubkey a.targetHeight = false then
    (t, .error (.minerNotActive a.targetHeight))
  else if ⟨a.minerPubkey, a.targetHeight, a.targetHash⟩ ∈ t.attestations then
    (t, .error (.duplicateAttestation a.targetHeight))
  else if (t.record a).Quorum a.targetHeight a.targetHash ∧
      ∀ current ∈ t.softFinalHeight, current < a.targetHeight then
    ({ t.record a with softFinalHeight := some a.targetHeight },
      .ok (.newlyFinalized a.targetHeight a.targetHash))
  else (t.record a, .ok .accepted)

/-- `would_reorg_violate_finality`. -/
def wouldReorgViolateFinality (proposedForkHeight : ℕ) : Bool :=
  match t.softFinalHeight with
  | some softFinal => decide (proposedForkHeight ≤ softFinal)
  | none => false

end FinalityTracker

/-! ## The adapter -/

/-- `OnBlockOutcome`. -/
inductive OnBlockOutcome
  | noAttestation
  | malformed (e : WireError)
  | rejected (e : FinalityError)
  | recorded
  | newlyFinalized (height : ℕ) (hash : BlockHash)
deriving DecidableEq

/-- `RollingFinality::on_accepted_block`. -/
def onAcceptedBlock (verify : FinalityAttestation → Bool) (t : FinalityTracker) (blockHeight : ℕ)
    (coinbaseExtra : List UInt8) : FinalityTracker × OnBlockOutcome :=
  match findAttestation coinbaseExtra with
  | none => (t, .noAttestation)
  | some bytes =>
    match decodeAttestation bytes with
    | .error e => (t, .malformed e)
    | .ok a =>
      match (t.recordBlock a.minerPubkey blockHeight).applyAttestation verify a with
      | (t, .ok .accepted) => (t, .recorded)
      | (t, .ok (.newlyFinalized height hash)) => (t, .newlyFinalized height hash)
      | (t, .error e) => (t, .rejected e)

/-- The attestation a coinbase carries. -/
def attestationOf (coinbaseExtra : List UInt8) : Option FinalityAttestation :=
  (findAttestation coinbaseExtra).bind fun bytes => (decodeAttestation bytes).toOption

@[simp] lemma softFinalHeight_recordBlock (t : FinalityTracker) (miner : MinerPubkey) (h : ℕ) :
    (t.recordBlock miner h).softFinalHeight = t.softFinalHeight := by
  unfold FinalityTracker.recordBlock
  dsimp only
  split <;> rfl

/-- The tracker after an accepted block. -/
lemma fst_onAcceptedBlock (verify : FinalityAttestation → Bool) (t : FinalityTracker) (height : ℕ)
    (extra : List UInt8) : (onAcceptedBlock verify t height extra).1 =
      match attestationOf extra with
      | none => t
      | some a => ((t.recordBlock a.minerPubkey height).applyAttestation verify a).1 := by
  unfold onAcceptedBlock attestationOf
  cases findAttestation extra with
  | none => rfl
  | some bytes =>
    dsimp only [Option.bind_some]
    cases decodeAttestation bytes with
    | error e => rfl
    | ok a =>
      dsimp only [Except.toOption]
      rcases (t.recordBlock a.minerPubkey height).applyAttestation verify a with ⟨t', e | (_ | _)⟩ <;> rfl

/-- A block leaves the soft-final height, or its attestation completes a quorum. -/
lemma onAcceptedBlock_softFinal (verify : FinalityAttestation → Bool) (t : FinalityTracker)
    (height : ℕ) (extra : List UInt8) :
    (onAcceptedBlock verify t height extra).1.softFinalHeight = t.softFinalHeight ∨
      ∃ a, attestationOf extra = some a ∧ verify a = true ∧
        (onAcceptedBlock verify t height extra).1.softFinalHeight = some a.targetHeight ∧
        (onAcceptedBlock verify t height extra).1.Quorum a.targetHeight a.targetHash := by
  rw [fst_onAcceptedBlock]
  cases attestationOf extra with
  | none => exact .inl rfl
  | some a =>
    dsimp only
    rw [← softFinalHeight_recordBlock t a.minerPubkey height]
    unfold FinalityTracker.applyAttestation
    split_ifs with hverify _ _ _ _ hquorum
    any_goals exact .inl rfl
    exact .inr ⟨a, rfl, by simpa using hverify, rfl, hquorum.1⟩

/-! ## Beside the chain -/

namespace NetworkType

/-- Where attestations are recorded. -/
def rollingFinalityEnableHeight : NetworkType → ℕ
  | .mainnet => 25000
  | .testnet | .regtest | .beta => 50000

/-- Where reorganisations are refused. -/
def rollingFinalityEnforceHeight : NetworkType → ℕ
  | .mainnet => 50000
  | .testnet | .regtest | .beta => 75000

end NetworkType

/-- The hashes of the canonical chain, and the tracker. -/
structure FinalityNode where
  hashAt : ℕ → BlockHash
  tip : ℕ
  tracker : FinalityTracker

/-- An operation on the node. -/
inductive FinalityOp
  /-- A block on the tip. -/
  | extend (hash : BlockHash) (coinbaseExtra : List UInt8)
  /-- A heavier branch above a common ancestor. -/
  | reorg (forkPoint : ℕ) (branch : List BlockHash)
  | rollback (target : ℕ)

namespace FinalityNode

variable (net : NetworkType) (verify : FinalityAttestation → Bool) (s : FinalityNode)

/-- The hash of the canonical block of a height. -/
def canonical (h : ℕ) : Option BlockHash := if h ≤ s.tip then some (s.hashAt h) else none

/-- The chain with another branch above the fork point. -/
def withBranch (forkPoint : ℕ) (branch : List BlockHash) : FinalityNode :=
  { s with
    hashAt := fun h => if h ≤ forkPoint then s.hashAt h else branch.getD (h - forkPoint - 1) []
    tip := forkPoint + branch.length }

/-- A block on the tip is fed to the tracker from the enable height on; a reorganisation asks it
from the enforce height on. -/
def step (s : FinalityNode) : FinalityOp → Option FinalityNode
  | .extend hash extra =>
    some { s.withBranch s.tip [hash] with
      tracker := if net.rollingFinalityEnableHeight ≤ s.tip + 1 then
        (onAcceptedBlock verify s.tracker (s.tip + 1) extra).1 else s.tracker }
  | .reorg forkPoint branch =>
    if s.tip ≤ forkPoint ∨ branch = [] then none
    else if net.rollingFinalityEnforceHeight ≤ forkPoint + branch.length ∧
        s.tracker.wouldReorgViolateFinality forkPoint = true then some s
    else some (s.withBranch forkPoint branch)
  | .rollback target => if target < s.tip then some { s with tip := target } else none

/-- Attestations name canonical blocks, and nothing goes behind the soft-final height. -/
def Honest (s : FinalityNode) : FinalityOp → Prop
  | .extend hash extra => ∀ a ∈ attestationOf extra, verify a = true →
      (s.withBranch s.tip [hash]).canonical a.targetHeight = some a.targetHash
  | .reorg forkPoint _ => ∀ h ∈ s.tracker.softFinalHeight, h ≤ forkPoint
  | .rollback target => ∀ h ∈ s.tracker.softFinalHeight, h ≤ target

instance (s : FinalityNode) : ∀ op, Decidable (Honest verify s op)
  | .extend _ _ => inferInstanceAs (Decidable (∀ a ∈ _, _))
  | .reorg _ _ | .rollback _ => inferInstanceAs (Decidable (∀ h ∈ _, _))

/-- At some moment of the run the hash had its quorum. -/
def Gathered (s₀ : FinalityNode) (ops : List FinalityOp) (h : ℕ) (hash : BlockHash) : Prop :=
  ∃ ops₁ ops₂ s, ops = ops₁ ++ ops₂ ∧ exec (step net verify) s₀ ops₁ = some s ∧
    s.tracker.Quorum h hash

/-- A refusal protects a canonical block above the fork point that gathered its quorum, and a fork
point at the soft-final block or higher is not refused. -/
def ProtectsAttested (s₀ : FinalityNode) (ops : List FinalityOp) (s : FinalityNode) (f : ℕ) : Prop :=
  (s.tracker.wouldReorgViolateFinality f = true →
    ∃ h hash, f < h ∧ s.canonical h = some hash ∧ Gathered net verify s₀ ops h hash) ∧
  ∀ h, s.tracker.softFinalHeight = some h → h ≤ f → s.tracker.wouldReorgViolateFinality f = false

/-- A node at any height, with its tracker. -/
def start (hashAt : ℕ → BlockHash) (tip : ℕ) (tracker : FinalityTracker) : FinalityNode :=
  ⟨hashAt, tip, tracker⟩

variable {net verify s}
variable {t : FinalityNode} {ops : List FinalityOp} {h : ℕ} {hash : BlockHash}

/-- The chain up to the tip. -/
lemma canonical_eq_some : s.canonical h = some hash ↔ h ≤ s.tip ∧ s.hashAt h = hash := by
  unfold canonical
  rw [Option.ite_none_right_eq_some, Option.some.injEq]

/-- Another branch keeps the blocks up to the fork point. -/
lemma canonical_withBranch (hs : s.canonical h = some hash) (hle : h ≤ forkPoint) :
    (s.withBranch forkPoint branch).canonical h = some hash := by
  obtain ⟨-, hhash⟩ := canonical_eq_some.mp hs
  refine canonical_eq_some.mpr ⟨?_, ?_⟩
  · show h ≤ forkPoint + branch.length
    omega
  · show (if h ≤ forkPoint then s.hashAt h else _) = hash
    rw [if_pos hle, hhash]

lemma Gathered.append (hg : Gathered net verify s₀ ops h hash) (op : FinalityOp) :
    Gathered net verify s₀ (ops ++ [op]) h hash := by
  obtain ⟨ops1, ops2, s, rfl, hs⟩ := hg
  exact ⟨ops1, ops2 ++ [op], s, by simp, hs⟩

/-- The canonical block at the soft-final height gathered its quorum. -/
def Attested (net : NetworkType) (verify : FinalityAttestation → Bool) (s₀ : FinalityNode)
    (ops : List FinalityOp) (s : FinalityNode) : Prop :=
  ∀ h, s.tracker.softFinalHeight = some h →
    ∃ hash, s.canonical h = some hash ∧ Gathered net verify s₀ ops h hash

/-- One honest operation. -/
lemma Attested.step (hs : Attested net verify s₀ ops s)
    (hrun : exec (FinalityNode.step net verify) s₀ ops = some s) (hop : Honest verify s op)
    (hstep : s.step net verify op = some t) : Attested net verify s₀ (ops ++ [op]) t := by
  have hrun' : exec (FinalityNode.step net verify) s₀ (ops ++ [op]) = some t :=
    exec_append_eq_some.mpr ⟨s, hrun, exec_cons_eq_some.mpr ⟨t, hstep, rfl⟩⟩
  intro h hsoft
  cases op with
  | extend hash extra =>
    cases hstep
    -- the chain keeps its blocks whatever the tracker does
    have hkeep : s.tracker.softFinalHeight = some h →
        ∃ hash', (s.withBranch s.tip [hash]).canonical h = some hash' ∧
          Gathered net verify s₀ (ops ++ [.extend hash extra]) h hash' := by
      intro hbefore
      obtain ⟨hash', hcanon, hgathered⟩ := hs h hbefore
      exact ⟨hash', canonical_withBranch hcanon (canonical_eq_some.mp hcanon).1, hgathered.append _⟩
    dsimp only at hsoft
    split at hsoft
    · rename_i henabled
      rcases onAcceptedBlock_softFinal verify s.tracker (s.tip + 1) extra with
        hsame | ⟨a, ha, hverify, hnew, hquorum⟩
      · exact hkeep (hsame ▸ hsoft)
      · obtain rfl := Option.mem_unique hnew hsoft
        refine ⟨a.targetHash, hop a ha hverify, _, [], _, (List.append_nil _).symm, hrun', ?_⟩
        dsimp only
        rw [if_pos henabled]
        exact hquorum
    · exact hkeep hsoft
  | reorg forkPoint branch =>
    simp only [FinalityNode.step] at hstep
    split at hstep
    · cases hstep
    split at hstep
    · cases hstep
      obtain ⟨hash, hcanon, hgathered⟩ := hs h hsoft
      exact ⟨hash, hcanon, hgathered.append _⟩
    · cases hstep
      obtain ⟨hash, hcanon, hgathered⟩ := hs h hsoft
      exact ⟨hash, canonical_withBranch hcanon (hop h hsoft), hgathered.append _⟩
  | rollback target =>
    simp only [FinalityNode.step, Option.ite_none_right_eq_some, Option.some.injEq] at hstep
    obtain ⟨-, rfl⟩ := hstep
    obtain ⟨hash, hcanon, hgathered⟩ := hs h hsoft
    refine ⟨hash, canonical_eq_some.mpr ⟨hop h hsoft, (canonical_eq_some.mp hcanon).2⟩, ?_⟩
    exact hgathered.append _

/-- Along every honest run. -/
lemma attested_of_exec (hfresh : s₀.tracker.softFinalHeight = none)
    (hrun : exec (guarded (step net verify) (Honest verify)) s₀ ops = some s) :
    Attested net verify s₀ ops s := by
  refine exec_induction (P := Attested net verify s₀) (fun h hsoft => ?_) ?_ hrun
  · simp [hfresh] at hsoft
  · intro ops s op t hrun hs hstep
    obtain ⟨hop, hstep⟩ := guarded_eq_some.mp hstep
    exact hs.step (exec_of_guarded hrun) hop hstep

/-- Along every run whose signed attestations name canonical blocks and which keeps the soft-final
height, refusals protect what was attested exactly at the fork points other than the soft-final
height. -/
theorem protectsAttested_iff {hashAt : ℕ → BlockHash} {tip window minQuorum staleHorizon : ℕ}
    (hrun : exec (guarded (step net verify) (Honest verify))
      (start hashAt tip (.withParams window minQuorum staleHorizon)) ops = some s) (f : ℕ) :
    ProtectsAttested net verify (start hashAt tip (.withParams window minQuorum staleHorizon)) ops s f
      ↔ s.tracker.softFinalHeight ≠ some f := by
  have hattested := attested_of_exec rfl hrun
  constructor
  · rintro ⟨-, hfree⟩ hsoft
    have hfalse := hfree f hsoft (le_refl f)
    simp [FinalityTracker.wouldReorgViolateFinality, hsoft] at hfalse
  · intro hne
    cases hsoft : s.tracker.softFinalHeight with
    | none =>
      refine ⟨fun hviolates => ?_, fun h hh => ?_⟩
      · simp [FinalityTracker.wouldReorgViolateFinality, hsoft] at hviolates
      · simp [hsoft] at hh
    | some h =>
      have hh : f ≠ h := fun heq => hne (heq ▸ hsoft)
      simp only [ProtectsAttested, FinalityTracker.wouldReorgViolateFinality, hsoft,
        decide_eq_true_eq, decide_eq_false_iff_not, Option.some.injEq, forall_eq']
      refine ⟨fun hle => ?_, fun hle hle' => hh (le_antisymm hle' hle)⟩
      obtain ⟨hash, hcanon, hgathered⟩ := hattested h hsoft
      exact ⟨h, hash, by omega, hcanon, hgathered⟩

/-! ## Soft finality is final -/

/-- The block is on the chain, at or below the soft-final height. -/
def SoftFinal (s : FinalityNode) (h : ℕ) (hash : BlockHash) : Prop :=
  s.canonical h = some hash ∧ ∃ f ≥ h, s.tracker.softFinalHeight = some f

/-- A reorganisation asks the tracker; a rollback stops at the soft-final height. -/
def Enforced (net : NetworkType) (s : FinalityNode) : FinalityOp → Prop
  | .extend _ _ => True
  | .reorg forkPoint branch => net.rollingFinalityEnforceHeight ≤ forkPoint + branch.length
  | .rollback target => ∀ f ∈ s.tracker.softFinalHeight, f ≤ target

/-- The soft-final height never falls. -/
lemma softFinalHeight_mono {t : FinalityTracker} (hf : t.softFinalHeight = some f)
    (verify : FinalityAttestation → Bool) (height : ℕ) (extra : List UInt8) :
    ∃ g ≥ f, (onAcceptedBlock verify t height extra).1.softFinalHeight = some g := by
  rw [fst_onAcceptedBlock]
  cases attestationOf extra with
  | none => exact ⟨f, le_rfl, hf⟩
  | some a =>
    rw [← softFinalHeight_recordBlock t a.minerPubkey height] at hf
    unfold FinalityTracker.applyAttestation
    dsimp only
    split_ifs with _ _ _ _ _ hnew
    all_goals first | exact ⟨f, le_rfl, hf⟩ | exact ⟨_, (hnew.2 f hf).le, rfl⟩

/-- One enforced operation. -/
lemma SoftFinal.step (hs : s.SoftFinal h hash) (hop : Enforced net s op)
    (hstep : s.step net verify op = some t) : t.SoftFinal h hash := by
  obtain ⟨hcanon, f, hle, hf⟩ := hs
  obtain ⟨htip, hhash⟩ := canonical_eq_some.mp hcanon
  cases op with
  | extend b extra =>
    cases hstep
    refine ⟨canonical_withBranch hcanon htip, ?_⟩
    dsimp only
    split
    · obtain ⟨g, hg, hsoft⟩ := softFinalHeight_mono hf verify (s.tip + 1) extra
      exact ⟨g, hle.trans hg, hsoft⟩
    · exact ⟨f, hle, hf⟩
  | reorg forkPoint branch =>
    have hasked : net.rollingFinalityEnforceHeight ≤ forkPoint + branch.length := hop
    simp only [FinalityNode.step] at hstep
    split_ifs at hstep with _ hrefused <;> cases hstep
    · exact ⟨hcanon, f, hle, hf⟩
    · -- the tracker has let the fork point pass
      have hpass : f < forkPoint := by
        simpa [hasked, FinalityTracker.wouldReorgViolateFinality, hf] using hrefused
      exact ⟨canonical_withBranch hcanon (by omega), f, hle, hf⟩
  | rollback target =>
    simp only [FinalityNode.step, Option.ite_none_right_eq_some, Option.some.injEq] at hstep
    obtain ⟨-, rfl⟩ := hstep
    exact ⟨canonical_eq_some.mpr ⟨hle.trans (hop f hf), hhash⟩, f, hle, hf⟩

/-- From the enforce height on a soft-final block stays on the chain, whatever is attested. -/
theorem softFinal_stays (hs : s.SoftFinal h hash)
    (hrun : Reaches (step net verify) (Enforced net) s t) : t.SoftFinal h hash :=
  hrun.invariant (P := (SoftFinal · h hash)) hs fun _ _ _ hu hop hstep => hu.step hop hstep

end FinalityNode

/-! ## Runs -/

/-- The canonical hash of a height in the runs below. -/
def sampleHash (h : ℕ) : BlockHash := toLe 32 h

/-- The coinbase bytes of miner `i` for a height and hash. -/
def sampleExtra (i height : ℕ) (hash : BlockHash) : List UInt8 :=
  encodeAttestation ⟨toLe 32 i, height, hash, List.replicate 64 0⟩

/-- The attestation of the runs below. -/
theorem decode_found_sample :
    (findAttestation (sampleExtra 3 50005 (sampleHash 7))).map decodeAttestation
      = some (.ok ⟨toLe 32 3, 50005, sampleHash 7, List.replicate 64 0⟩) :=
  decode_found ⟨rfl, by decide, rfl, rfl⟩

/-- Five miners mine on the tip 50000, and four attest to `hash` at 50005. -/
def attestingRun (hash : BlockHash) : List FinalityOp :=
  (List.range 9).map fun i => .extend (sampleHash (50001 + i))
    (sampleExtra (i % 5) (if i < 5 then 50000 else 50005) (if i < 5 then sampleHash 50000 else hash))

/-- The node the runs start from. -/
def attestingStart : FinalityNode := .start sampleHash 50000 .newDefault

/-- Four of five miners attest to the canonical block, and it is protected below its height. -/
theorem protectsAttested_iff_canonical :
    ∃ s, exec (guarded (FinalityNode.step .mainnet fun _ => true)
        (FinalityNode.Honest fun _ => true)) attestingStart (attestingRun (sampleHash 50005)) = some s ∧
      s.tracker.softFinalHeight = some 50005 ∧
      FinalityNode.ProtectsAttested .mainnet (fun _ => true) attestingStart
        (attestingRun (sampleHash 50005)) s 50004 := by
  simp only [← and_assoc]
  refine Exists.imp (fun s h => ⟨h, (FinalityNode.protectsAttested_iff h.1 50004).mpr ?_⟩) ?_
  · rw [h.2]
    decide
  · decide +kernel

/-- A branch above the soft-final block. -/
theorem softFinal_stays_50005 : ∃ t, FinalityNode.step .mainnet (fun _ => true)
    (.start sampleHash 50009 { FinalityTracker.newDefault with softFinalHeight := some 50005 })
    (.reorg 50006 [[1]]) = some t ∧ t.SoftFinal 50005 (sampleHash 50005) := by
  refine Exists.imp (fun t ht => ⟨ht, ?_⟩) ⟨_, rfl⟩
  refine FinalityNode.softFinal_stays ⟨rfl, 50005, le_rfl, rfl⟩ (.tail .refl ?_ ht)
  show 50000 ≤ 50007
  decide

/-- Whether a canonical block above the height ever has its quorum. -/
def quorumAbove (f : ℕ) (ops : List FinalityOp) : Bool :=
  ops.inits.any fun ops₁ => (exec (FinalityNode.step .mainnet fun _ => true) attestingStart
    ops₁).any fun s => (List.range 5).any fun i =>
      decide (s.tracker.Quorum (f + 1 + i) (sampleHash (f + 1 + i)))

/-- Four of five miners attest to a hash that is not on the chain: fork points below are refused,
and no canonical block has its quorum. With the canonical hash, a fork point at the soft-final block
itself is refused. -/
theorem refusal_without_attested_block :
    (∃ s, exec (FinalityNode.step .mainnet fun _ => true) attestingStart
        (attestingRun (sampleHash 7)) = some s ∧
      s.tracker.wouldReorgViolateFinality 50004 = true ∧
      ∀ h hash, 50004 < h → s.canonical h = some hash →
        ¬ FinalityNode.Gathered .mainnet (fun _ => true) attestingStart
          (attestingRun (sampleHash 7)) h hash) ∧
    ∃ s, exec (FinalityNode.step .mainnet fun _ => true) attestingStart
        (attestingRun (sampleHash 50005)) = some s ∧
      s.tracker.softFinalHeight = some 50005 ∧
      s.tracker.wouldReorgViolateFinality 50005 = true := by
  constructor
  · have hrun : ∃ s ∈ exec (FinalityNode.step .mainnet fun _ => true) attestingStart
        (attestingRun (sampleHash 7)), s.tracker.wouldReorgViolateFinality 50004 = true ∧
          s.tip = 50009 ∧ ∀ i < 5, s.hashAt (50005 + i) = sampleHash (50005 + i) := by
      decide +kernel
    have hnone : quorumAbove 50004 (attestingRun (sampleHash 7)) = false := by decide +kernel
    obtain ⟨s, hs, hviolates, htip, hhashes⟩ := hrun
    refine ⟨s, hs, hviolates, fun h hash hlow hcanon hgathered => ?_⟩
    obtain ⟨hle, rfl⟩ := FinalityNode.canonical_eq_some.mp hcanon
    obtain ⟨i, hi, rfl⟩ : ∃ i < 5, h = 50005 + i := ⟨h - 50005, by omega, by omega⟩
    obtain ⟨ops1, ops2, s1, hsplit, hs1, hquorum⟩ := hgathered
    rw [hhashes i hi] at hquorum
    have htrue : quorumAbove 50004 (attestingRun (sampleHash 7)) = true := by
      simp only [quorumAbove, List.any_eq_true, Option.any_eq_true, List.mem_range,
        decide_eq_true_eq]
      exact ⟨ops1, (List.mem_inits _ _).mpr ⟨ops2, hsplit.symm⟩, s1, hs1, i, hi, hquorum⟩
    simp [hnone] at htrue
  · decide +kernel

end CoinCync

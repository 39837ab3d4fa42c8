import CoinCync.Block
import CoinCync.Lib.Check

/-!
# The checks on a chain snapshot

What `snapshot::import` checks before it touches the disk (signature, network, genesis and digest)
and after the copy (the tip of the manifest and the checkpoints), and what a snapshot that passes
satisfies.
-/

namespace CoinCync.Snapshot

open Check

/-- `SnapshotManifest`. -/
structure SnapshotManifest where
  network : String
  genesisHash : String
  height : ℕ
  tipHash : String
  dbBlake3 : String
deriving DecidableEq

/-- `ManifestSignature`. -/
structure ManifestSignature where
  signerPubkey : String
  signature : String
deriving DecidableEq

/-- What the node trusts. -/
structure ImportPolicy where
  network : NetworkType
  expectedGenesis : Hash
  checkpoints : List (ℕ × Hash)
  trustedSigners : List String
deriving DecidableEq

/-- Why a snapshot is refused. -/
inductive SnapshotError
  | readManifest
  | parseManifest
  | missingSignature
  | parseSignature
  | signerNotHex
  | signerNotTrusted (signer : String)
  | signatureNotHex
  | invalidPubkey
  | signatureFailed
  | wrongNetwork (snapshot local_ : String)
  | wrongGenesis (snapshot expected : String)
  | dbMissing
  | oversized
  | integrity (computed manifest : String)
  | cannotOpen
  | noChainState
  | heightMismatch (manifest db : ℕ)
  | tipMismatch (manifest db : String)
  | checkpointMismatch (height : ℕ) (actual expected : Hash)
  | checkpointMissing (height : ℕ) (expected : Hash)
deriving DecidableEq

/-- Formats, signatures, directory digests and databases. -/
structure SnapshotEnv (D : Type) where
  parseManifest : String → Option SnapshotManifest
  parseSignature : String → Option ManifestSignature
  decodeFixed : ℕ → String → Option (List UInt8)
  verifyingKey : List UInt8 → Bool
  verifySignature : List UInt8 → String → List UInt8 → Bool
  toHex : Hash → String
  blake3OfDir : D → Except SnapshotError String
  opens : D → Bool
  /-- Height and hash of the tip, unless the database has no chain state. -/
  tip : D → Option (ℕ × Hash)
  blockHash : D → ℕ → Option Hash
  /-- Copying a directory into one that is there. -/
  overlay : D → D → D

/-- A snapshot directory; an absent file cannot be read. -/
structure SnapshotDir (D : Type) where
  manifestJson : Option String
  signatureJson : Option String
  db : Option D

/-- `network_str`. -/
def networkStr : NetworkType → String
  | .mainnet => "mainnet"
  | .testnet => "testnet"
  | .regtest => "regtest"
  | .beta => "beta"

section Checks

variable {D : Type} (E : SnapshotEnv D)

/-- `verify_manifest_signature`. -/
def verifyManifestSignature (json : String) (sig : ManifestSignature) (trusted : List String) :
    Except SnapshotError Unit := do
  let pubkey ← fromSome (E.decodeFixed 32 sig.signerPubkey) .signerNotHex
  require (pubkey ∈ trusted.filterMap (E.decodeFixed 32)) (.signerNotTrusted sig.signerPubkey)
  let signature ← fromSome (E.decodeFixed 64 sig.signature) .signatureNotHex
  require (E.verifyingKey pubkey) .invalidPubkey
  require (E.verifySignature pubkey json signature) .signatureFailed

/-- The part of the signature gate that reads the files. -/
def signatureGate (policy : ImportPolicy) (snapshot : SnapshotDir D) (json : String) :
    Except SnapshotError Unit := do
  let raw ← fromSome snapshot.signatureJson .missingSignature
  let sig ← fromSome (E.parseSignature raw) .parseSignature
  verifyManifestSignature E json sig policy.trustedSigners

/-- The checks of `import` before it touches the disk. -/
def importChecks (policy : ImportPolicy) (snapshot : SnapshotDir D) :
    Except SnapshotError (SnapshotManifest × D) := do
  let json ← fromSome snapshot.manifestJson .readManifest
  let manifest ← fromSome (E.parseManifest json) .parseManifest
  when (policy.trustedSigners ≠ []) (signatureGate E policy snapshot json)
  require (manifest.network = networkStr policy.network)
    (.wrongNetwork manifest.network (networkStr policy.network))
  require (manifest.genesisHash = E.toHex policy.expectedGenesis)
    (.wrongGenesis manifest.genesisHash (E.toHex policy.expectedGenesis))
  let db ← fromSome snapshot.db .dbMissing
  let actual ← E.blake3OfDir db
  require (actual = manifest.dbBlake3) (.integrity actual manifest.dbBlake3)
  return (manifest, db)

/-- One checkpoint. -/
def verifyCheckpoint (db : D) (tipHeight : ℕ) (checkpoint : ℕ × Hash) : Except SnapshotError Unit :=
  if checkpoint.1 > tipHeight then .ok ()
  else match E.blockHash db checkpoint.1 with
    | some actual =>
      require (actual = checkpoint.2) (.checkpointMismatch checkpoint.1 actual checkpoint.2)
    | none => .error (.checkpointMissing checkpoint.1 checkpoint.2)

/-- `verify_chain_binding`. -/
def verifyChainBinding (manifest : SnapshotManifest) (db : D) (tip : ℕ × Hash)
    (checkpoints : List (ℕ × Hash)) : Except SnapshotError Unit := do
  require (tip.1 = manifest.height) (.heightMismatch manifest.height tip.1)
  require (E.toHex tip.2 = manifest.tipHash) (.tipMismatch manifest.tipHash (E.toHex tip.2))
  all checkpoints (verifyCheckpoint E db tip.1)

/-- `verify_installed_db`. -/
def verifyInstalledDb (db : D) (manifest : SnapshotManifest) (checkpoints : List (ℕ × Hash)) :
    Except SnapshotError Unit := do
  require (E.opens db) .cannotOpen
  let tip ← fromSome (E.tip db) .noChainState
  verifyChainBinding E manifest db tip checkpoints

/-- A snapshot that passes all the checks. Without trusted signers no signature is asked for, and
without checkpoints the database is not looked into. -/
structure Accepted (policy : ImportPolicy) (snapshot : SnapshotDir D) (db : D) : Prop where
  isDb : snapshot.db = some db
  checked : ∃ json manifest, snapshot.manifestJson = some json ∧ E.parseManifest json = some manifest ∧
    (policy.trustedSigners ≠ [] → ∃ raw sig pubkey signature,
      snapshot.signatureJson = some raw ∧ E.parseSignature raw = some sig ∧
        E.decodeFixed 32 sig.signerPubkey = some pubkey ∧
        pubkey ∈ policy.trustedSigners.filterMap (E.decodeFixed 32) ∧
        E.decodeFixed 64 sig.signature = some signature ∧ E.verifySignature pubkey json signature) ∧
    manifest.network = networkStr policy.network ∧
    manifest.genesisHash = E.toHex policy.expectedGenesis ∧
    E.blake3OfDir db = .ok manifest.dbBlake3 ∧
    (policy.checkpoints ≠ [] → ∃ tip, E.tip db = some tip ∧ tip.1 = manifest.height ∧
      E.toHex tip.2 = manifest.tipHash ∧
      ∀ checkpoint ∈ policy.checkpoints, checkpoint.1 ≤ tip.1 →
        E.blockHash db checkpoint.1 = some checkpoint.2)

variable {E} {snapshot : SnapshotDir D} {manifest : SnapshotManifest} {db : D}

/-- A signature that passes. -/
lemma verifyManifestSignature_eq_ok (h : verifyManifestSignature E json sig trusted = .ok ()) :
    ∃ pubkey signature, E.decodeFixed 32 sig.signerPubkey = some pubkey ∧
      pubkey ∈ trusted.filterMap (E.decodeFixed 32) ∧
      E.decodeFixed 64 sig.signature = some signature ∧ E.verifySignature pubkey json signature := by
  obtain ⟨pubkey, hpubkey, h⟩ := bind_eq_ok.mp h
  obtain ⟨htrusted, h⟩ := seq_eq_ok.mp h
  obtain ⟨signature, hsignature, h⟩ := bind_eq_ok.mp h
  obtain ⟨-, h⟩ := seq_eq_ok.mp h
  exact ⟨pubkey, signature, fromSome_eq_ok.mp hpubkey, require_eq_ok.mp htrusted,
    fromSome_eq_ok.mp hsignature, require_eq_ok.mp h⟩

lemma verifyCheckpoint_eq_ok :
    verifyCheckpoint E db tipHeight checkpoint = .ok () ↔
      (checkpoint.1 ≤ tipHeight → E.blockHash db checkpoint.1 = some checkpoint.2) := by
  unfold verifyCheckpoint
  split_ifs with habove
  · exact iff_of_true rfl fun hle => absurd hle (not_le.mpr habove)
  · have hle : checkpoint.1 ≤ tipHeight := not_lt.mp habove
    cases hblock : E.blockHash db checkpoint.1 with
    | none | some actual => simp [hle]

/-- A database that passes. -/
lemma verifyInstalledDb_eq_ok (h : verifyInstalledDb E db manifest checkpoints = .ok ()) :
    ∃ tip, E.tip db = some tip ∧ tip.1 = manifest.height ∧ E.toHex tip.2 = manifest.tipHash ∧
      ∀ checkpoint ∈ checkpoints, checkpoint.1 ≤ tip.1 →
        E.blockHash db checkpoint.1 = some checkpoint.2 := by
  obtain ⟨-, h⟩ := seq_eq_ok.mp h
  obtain ⟨tip, htip, h⟩ := bind_eq_ok.mp h
  obtain ⟨hheight, h⟩ := seq_eq_ok.mp h
  obtain ⟨hhash, h⟩ := seq_eq_ok.mp h
  refine ⟨tip, fromSome_eq_ok.mp htip, require_eq_ok.mp hheight,
    require_eq_ok.mp hhash, ?_⟩
  intro checkpoint hmem
  exact verifyCheckpoint_eq_ok.mp (all_eq_ok.mp h checkpoint hmem)

lemma accepted_of_checks (h : importChecks E policy snapshot = .ok (manifest, db))
    (hverify : policy.checkpoints ≠ [] →
      verifyInstalledDb E db manifest policy.checkpoints = .ok ()) : Accepted E policy snapshot db := by
  obtain ⟨json, hjson, h⟩ := bind_eq_ok.mp h
  obtain ⟨manifest', hmanifest, h⟩ := bind_eq_ok.mp h
  obtain ⟨hsignature, h⟩ := seq_eq_ok.mp h
  obtain ⟨hnetwork, h⟩ := seq_eq_ok.mp h
  obtain ⟨hgenesis, h⟩ := seq_eq_ok.mp h
  obtain ⟨db', hdb, h⟩ := bind_eq_ok.mp h
  obtain ⟨actual, hactual, h⟩ := bind_eq_ok.mp h
  obtain ⟨hdigest, h⟩ := seq_eq_ok.mp h
  obtain ⟨rfl, rfl⟩ := Prod.mk.inj (Except.ok.inj h)
  refine ⟨fromSome_eq_ok.mp hdb, json, manifest', fromSome_eq_ok.mp hjson,
    fromSome_eq_ok.mp hmanifest, ?_, require_eq_ok.mp hnetwork,
    require_eq_ok.mp hgenesis, ?_, fun hne => verifyInstalledDb_eq_ok (hverify hne)⟩
  · intro hne
    have hgate := when_eq_ok.mp hsignature hne
    obtain ⟨raw, hraw, hgate⟩ := bind_eq_ok.mp hgate
    obtain ⟨sig, hsig, hgate⟩ := bind_eq_ok.mp hgate
    obtain ⟨pubkey, signature, hkey⟩ := verifyManifestSignature_eq_ok hgate
    exact ⟨raw, sig, pubkey, signature, fromSome_eq_ok.mp hraw, fromSome_eq_ok.mp hsig, hkey⟩
  · rw [hactual, require_eq_ok.mp hdigest]

end Checks

end CoinCync.Snapshot

import CoinCync.Lib.Run
import CoinCync.WalletScan

/-!
# The scan command of a wallet

`cmd_scan` as a system of steps. The wallet file holds the balance and the scanned height; an
invocation reads it, starts a scanner with an empty journal a few blocks below the scanned height,
pulls batches of blocks from a node and writes the file back at its end. The node answers each request
from the chain it has at that moment, so the chain may change between any two answers.
-/

namespace CoinCync.Wallet

open Balance

/-! ## The scanner and its journal -/

/-- An entry of the journal. -/
structure BlockApplyDiff where
  height : ℕ
  blockHash : Hash
  prevBlockHash : Hash
  outputsAdded : List UtxoKey
  keyImagesMarkedSpent : List KeyImage
deriving DecidableEq

/-- The length of a journal. -/
def journalMaxDefault : ℕ := 1100

/-- The state of a scanner; its keys are in `ScanSetup`. -/
structure WalletScanner where
  lastHeight : ℕ
  lastHash : Hash
  /-- Newest first. -/
  journal : List BlockApplyDiff
  journalMax : ℕ
deriving DecidableEq

/-- `ScanResult`. -/
inductive ScanResult (F : Type)
  | scanned (outputs : List (DecryptedOutput F)) (height : ℕ) (blockHash : Hash)
  | reorgDetected (atHeight : ℕ) (actualPrev expectedPrev : Hash)

/-- `RewindError`. -/
inductive RewindError
  | targetAboveCurrent (targetHeight currentHeight : ℕ)
  | outsideJournalWindow (targetHeight earliestInJournal : ℕ)
deriving DecidableEq

/-- `RewindOutcome`. -/
structure RewindOutcome where
  entriesUndone : ℕ
  outputsToRemove : List UtxoKey
  keyImagesToUnspend : List KeyImage
  newHeight : ℕ
  newHash : Hash
deriving DecidableEq

namespace WalletScanner

/-- An empty journal. -/
def new : WalletScanner := ⟨0, 0, [], journalMaxDefault⟩

variable (w : WalletScanner)

/-- `record_journal_entry`. -/
def recordJournalEntry (diff : BlockApplyDiff) : WalletScanner :=
  if diff.height < w.lastHeight then w
  else
    { w with
      lastHeight := diff.height
      lastHash := diff.blockHash
      journal := (diff :: w.journal).take w.journalMax }

/-- `record_spend_for_last_block`. -/
def recordSpendForLastBlock (ki : KeyImage) : WalletScanner :=
  match w.journal with
  | [] => w
  | diff :: rest =>
    { w with
      journal := { diff with keyImagesMarkedSpent := diff.keyImagesMarkedSpent ++ [ki] } :: rest }

/-- The hash that a block should have had as its parent. -/
def reorgSignal (block : Block) : Option Hash :=
  match w.journal with
  | [] => none
  | prev :: _ =>
    if block.height = prev.height + 1 ∧ block.header.prevHash ≠ prev.blockHash then some prev.blockHash
    else if block.height ≤ prev.height then some prev.blockHash
    else none

/-- `rewind_to_height`. -/
def rewindToHeight (targetHeight : ℕ) : Except RewindError (WalletScanner × RewindOutcome) := do
  Check.require (targetHeight ≤ w.lastHeight) (.targetAboveCurrent targetHeight w.lastHeight)
  match w.journal.getLast? with
  | some front =>
    Check.require (¬(targetHeight < front.height ∧ targetHeight ≠ 0))
      (.outsideJournalWindow targetHeight front.height)
  | none => pure ()
  let undone := w.journal.takeWhile fun diff => targetHeight < diff.height
  let kept := w.journal.dropWhile fun diff => targetHeight < diff.height
  let back := (kept.head?.map fun diff => (diff.height, diff.blockHash)).getD (0, 0)
  return (
    { w with lastHeight := back.1, lastHash := back.2, journal := kept },
    { entriesUndone := undone.length
      outputsToRemove := undone.flatMap (·.outputsAdded)
      keyImagesToUnspend := undone.flatMap (·.keyImagesMarkedSpent)
      newHeight := back.1
      newHash := back.2 })

/-- Oldest first. -/
def journalPairs : List (ℕ × Hash) := w.journal.reverse.map fun diff => (diff.height, diff.blockHash)

end WalletScanner

/-! ## The node -/

/-- The most blocks of an answer. -/
def maxRange : ℕ := 100

/-- `get_block_range` with the heights of the blocks. -/
def getBlockRange (chain : List Block) (start last : ℕ) : List (ℕ × Block) :=
  (List.range' start (min (last - start + 1) maxRange)).filterMap fun h =>
    chain[h]?.map fun block => (h, block)

/-- `get_block_hash`. -/
def getBlockHash (S : ScanEnv) (chain : List Block) (height : ℕ) : Option Hash :=
  chain[height]?.map fun block => S.blockHash block.header

/-- `fork_point_in_journal`. -/
def forkPointInJournal (journal : List (ℕ × Hash)) (canonicalHashAt : ℕ → Option Hash) : Option ℕ :=
  ((journal.filter fun entry => canonicalHashAt entry.1 = some entry.2).map (·.1)).max?

/-! ## The command -/

/-- `SCAN_BACKSTOP_BLOCKS`. -/
def scanBackstopBlocks : ℕ := 20

/-- `tx.key_images()` over a block. -/
def Block.keyImages (block : Block) : List KeyImage :=
  block.transactions.flatMap fun tx => tx.inputs.map (·.keyImage)

/-- The wallet file. -/
structure StoredWallet where
  balance : Balance
  scannedHeight : ℕ

namespace StoredWallet

/-- A new wallet. -/
def new : StoredWallet := ⟨Balance.new, 0⟩

/-- The balance when the file is opened. -/
def unlock (w : StoredWallet) : Balance :=
  (fromUtxos w.balance.utxos).restoreReservations w.balance.reservations w.scannedHeight

end StoredWallet

/-- The variables of an invocation. -/
structure Scan where
  balance : Balance
  scanner : WalletScanner
  cursor : ℕ
  batchSpan : ℕ
  last : ℕ
  lastHeight : ℕ
  /-- A reorganisation was detected and the fork point asked for. -/
  recovering : Bool

/-- Why an invocation fails. -/
inductive ScanError
  | rpc
  | wallet (e : WalletError)
  | rewind (e : RewindError)
deriving DecidableEq

/-- What a wallet scans with. -/
structure ScanSetup {F G : Type} [CommRing F] [AddCommGroup G] [Module F G] (C : Curve F G) where
  env : ScanEnv
  keys : KeyEpoch C
  table : List (ℕ × ℕ × PublicKey)

/-- The spent check of one input. -/
def Scan.recordSpend (r : Scan) (ki : KeyImage) : Scan :=
  { r with
    scanner :=
      if (r.balance.lookupByKeyImage ki).isSome then r.scanner.recordSpendForLastBlock ki else r.scanner
    balance := r.balance.markSpentByKeyImage ki }

/-- How the loop goes on after an answer. -/
inductive Next
  | running (r : Scan)
  | done (r : Scan)

/-- The node and the wallet. -/
structure State where
  chain : List Block
  disk : StoredWallet
  scan : Option Scan
  /-- What the last invocation returned. -/
  outcome : Option (Except ScanError Unit)

/-- What happens next. -/
inductive Event
  /-- The chain of the node is another one. -/
  | chain (blocks : List Block)
  | begin (maxBlocks : ℕ)
  /-- The node answers. -/
  | answer
  /-- The blocks of a batch do not fit in a response. -/
  | tooBig
  /-- Another error of the transport, or the process is stopped. -/
  | fail

variable {F G : Type} [CommRing F] [AddCommGroup G] [Module F G] {C : Curve F G} (U : ScanSetup C)

namespace ScanSetup

/-- Its key sets. -/
def scanKeys : List ScanKeys := [U.keys.scanKeys U.table]

/-- `scan_block_with_result`. -/
def scanBlockWithResult (w : WalletScanner) (block : Block) : WalletScanner × ScanResult F :=
  let blockHash := U.env.blockHash block.header
  match w.reorgSignal block with
  | some expectedPrev => (w, .reorgDetected block.height block.header.prevHash expectedPrev)
  | none =>
    let found := scanBlock C U.env U.scanKeys block
    let diff : BlockApplyDiff :=
      { height := block.height
        blockHash
        prevBlockHash := block.header.prevHash
        outputsAdded := found.map fun d => (d.txHash, d.outputIndex)
        keyImagesMarkedSpent := [] }
    ({ w with lastHeight := block.height, lastHash := blockHash }.recordJournalEntry diff,
      .scanned found block.height blockHash)

/-- The rows for the outputs that were found in a block. -/
def toUtxos (found : List (DecryptedOutput F)) (height : ℕ) : Except WalletError (List Utxo) :=
  found.mapM fun d => decryptedToUtxo C d U.keys.viewSecret U.keys.spendSecret height

/-- One block of a batch: `none` is a reorganisation. -/
def scanOne (r : Scan) (height : ℕ) (block : Block) : Except ScanError (Option Scan) :=
  match U.scanBlockWithResult r.scanner block with
  | (_, .reorgDetected ..) => .ok none
  | (scanner, .scanned outputs _ _) => do
    let utxos ← (U.toUtxos outputs height).mapError .wallet
    let added := { r with scanner, balance := utxos.foldl addUtxo r.balance }
    return some { block.keyImages.foldl Scan.recordSpend added with lastHeight := height }

/-- The loop over a batch, and whether a reorganisation left it. -/
def scanBatch : Scan → List (ℕ × Block) → Except ScanError (Scan × Bool)
  | r, [] => .ok (r, false)
  | r, (height, block) :: rest => do
    match ← U.scanOne r height block with
    | none => return (r, true)
    | some r => scanBatch r rest

/-- A batch that fits lets the next one grow. -/
def grow (batchSpan : ℕ) : ℕ := min (batchSpan * 2) 100

/-- The answer to `find_fork_point`; a fork below the journal ends the loop. -/
def recover (r : Scan) (chain : List Block) : Except ScanError Next :=
  match forkPointInJournal r.scanner.journalPairs (getBlockHash U.env chain) with
  | none => .ok (.done r)
  | some fork => do
    let (scanner, outcome) ← (r.scanner.rewindToHeight fork).mapError .rewind
    let balance := outcome.keyImagesToUnspend.foldl unmarkSpentByKeyImage
      (r.balance.removeOutputs outcome.outputsToRemove)
    return .running
      { r with
        balance
        scanner
        cursor := fork + 1
        batchSpan := grow r.batchSpan
        recovering := false }

/-- The answer to `get_block_range`, if the loop goes on. -/
def pull (r : Scan) (chain : List Block) : Except ScanError Next :=
  if r.last < r.cursor then .ok (.done r)
  else
    let batchEnd := min (r.cursor + r.batchSpan - 1) r.last
    match getBlockRange chain r.cursor batchEnd with
    | [] => .ok (.done r)
    | entry :: rest => do
      let (r, reorg) ← U.scanBatch r (entry :: rest)
      if reorg then return .running { r with recovering := true }
      else return .running { r with cursor := batchEnd + 1, batchSpan := grow r.batchSpan }

/-- One answer of the node. -/
def answer (r : Scan) (chain : List Block) : Except ScanError Next :=
  if r.recovering then U.recover r chain else U.pull r chain

end ScanSetup

/-- The start of an invocation without `--from`. -/
def Scan.start (disk : StoredWallet) (last : ℕ) : Scan where
  balance := disk.unlock
  scanner := .new
  cursor := disk.scannedHeight - scanBackstopBlocks
  batchSpan := 100
  last := last
  lastHeight := disk.scannedHeight - scanBackstopBlocks
  recovering := false

namespace State

/-- A new wallet before a chain. -/
def new (chain : List Block) : State := ⟨chain, .new, none, none⟩

/-- The file is only written at the end of the loop. -/
def settle (s : State) : Except ScanError Next → State
  | .ok (.running r) => { s with scan := some r }
  | .ok (.done r) =>
    { s with
      disk := ⟨r.balance.releaseExpiredReservations r.lastHeight, r.lastHeight⟩
      scan := none
      outcome := some (.ok ()) }
  | .error e => { s with scan := none, outcome := some (.error e) }

/-- One event. -/
def step (s : State) : Event → Option State
  | .chain blocks => some { s with chain := blocks }
  | .begin maxBlocks =>
    match s.scan with
    | some _ => none
    | none =>
      (MachineInt.checkedAdd 64 (s.disk.scannedHeight - scanBackstopBlocks) maxBlocks).map fun last =>
        { s with scan := some (Scan.start s.disk last), outcome := none }
  | .answer => s.scan.map fun r => s.settle (U.answer r s.chain)
  | .tooBig =>
    match s.scan with
    | none => none
    | some r =>
      if r.recovering ∨ r.last < r.cursor then none
      else if 1 < r.batchSpan then some { s with scan := some { r with batchSpan := max (r.batchSpan / 2) 1 } }
      else some (s.settle (.error .rpc))
  | .fail => s.scan.map fun _ => s.settle (.error .rpc)

end State

/-! ## One fresh scan -/

namespace ScanSetup

/-- The rows that a block adds. -/
def received (block : Block) : Except WalletError (List Utxo) :=
  U.toUtxos (scanBlock C U.env U.scanKeys block) block.height

/-- The same, empty on an error. -/
def rows (block : Block) : List Utxo := (U.received block).toOption.getD []

/-- A block read into a balance. -/
def readBlock (b : Balance) (block : Block) : Balance :=
  block.keyImages.foldl markSpentByKeyImage ((U.rows block).foldl addUtxo b)

/-- A whole chain, from an empty balance. -/
def freshScan (chain : List Block) : Balance := chain.foldl U.readBlock .new

end ScanSetup

end CoinCync.Wallet

import CoinCync.Block
import CoinCync.Lib.Table
import Mathlib.Data.Finset.Insert
import Mathlib.Data.Nat.Digits.Defs

/-!
# The stratum server's shares

The submit handlers of `handle_stratum_message`, native and legacy, and the job updater. A handler
takes the lock of the current job, of the nonce ledger and of the statistics one after the other, so
a submission is a task with a phase between any two of its critical sections, and a run interleaves
tasks and job rotations. Texts are lists of characters, a hexadecimal digit being its number. Counters
are `u64` and wrap. The difficulty a share is held to is part of the submission.
-/

namespace CoinCync.Stratum

/-- A text. -/
abbrev Text := List ℕ

/-- A worker. -/
abbrev WorkerId := ℕ

/-- A task. -/
abbrev TaskId := ℕ

/-- `format!("08x")`. -/
def formatJobId (n : ℕ) : Text :=
  List.replicate (8 - (Nat.digits 16 n).length) 0 ++ (Nat.digits 16 n).reverse

/-- `MiningJob`. -/
structure MiningJob where
  jobId : Text
  anchor : Hash
  txRoot : Hash
  target : Hash
  height : ℕ
deriving DecidableEq

/-! ## Difficulty -/

/-- `Hash::meets_difficulty`, on big-endian numbers. -/
def meetsDifficulty (hash target : Hash) : Bool := hash ≤ target

/-- `Hash::from_difficulty`: a zero bit for each doubling. -/
def fromDifficulty (difficulty : ℕ) : Hash :=
  if difficulty = 0 then 2 ^ 256 - 1 else 2 ^ (256 - Nat.log2 difficulty) - 1

/-- The leading zero bits of a hash. -/
def leadingZeros (target : Hash) : ℕ := if target = 0 then 256 else 255 - Nat.log2 target

/-- `Hash::to_difficulty`. -/
def toDifficulty (target : Hash) : ℕ :=
  if leadingZeros target < 64 then 2 ^ leadingZeros target else 2 ^ 64 - 1

/-- `effective_share_difficulty`. -/
def effectiveShareDifficulty (requested : ℕ) (blockTarget : Hash) : ℕ :=
  max (min requested (max (toDifficulty blockTarget) 1)) 1

/-- `share_work`. -/
def shareWork (difficulty : ℕ) : ℕ := toDifficulty (fromDifficulty difficulty)

/-! ## The ledger -/

/-- The nonces claimed for a job. -/
structure JobNonceLedger where
  jobId : Text
  nonces : Finset ℕ
deriving DecidableEq

/-- `NonceClaim`. -/
inductive NonceClaim
  | accepted
  | staleJob
  | duplicate
deriving DecidableEq

/-- The first critical section of `claim_canonical_nonce`: the current job. -/
def canonicalJob (currentJob : Option MiningJob) (submittedJobId : Text) :
    Except NonceClaim MiningJob :=
  match currentJob with
  | none => .error .staleJob
  | some job => if job.jobId = submittedJobId then .ok job else .error .staleJob

/-- The second critical section, on the ledger. -/
def JobNonceLedger.claim (ledger : JobNonceLedger) (job : MiningJob) (nonce : ℕ) :
    JobNonceLedger × NonceClaim :=
  let ledger := if ledger.jobId = job.jobId then ledger else ⟨job.jobId, ∅⟩
  if nonce ∈ ledger.nonces then (ledger, .duplicate)
  else ({ ledger with nonces := insert nonce ledger.nonces }, .accepted)

/-- `canonical_job_unchanged`. -/
def canonicalJobUnchanged (currentJob : Option MiningJob) (expectedJobId : Text) : Bool :=
  match currentJob with
  | some job => job.jobId = expectedJobId
  | none => false

/-! ## Accounting -/

/-- `ShareResult`. -/
inductive ShareResult
  | valid
  | block
  | stale
  | invalid
  | duplicate
  | unauthenticated
deriving DecidableEq

/-- The fields of a worker that crediting reads. -/
structure Worker where
  authorized : Bool
  payoutLogin : Text
deriving DecidableEq

/-- The bound on the tally. -/
def MAX_TALLY_LOGINS : ℕ := 10000

/-- The work of each login. -/
abbrev Tally := List (Text × ℕ)

/-- `tally_has_room`. -/
def tallyHasRoom (tally : Tally) (login : Text) : Bool :=
  tally.length < MAX_TALLY_LOGINS ∨ tally.lookup login ≠ none

/-- `credit_share`; the sum saturates at `u128`. -/
def creditShare (tally : Tally) (login : Text) (difficulty : ℕ) : Tally :=
  if login = [] then tally
  else
    Table.modify login (fun entry => MachineInt.satAdd 128 entry (max difficulty 1))
      (Table.orInsert login 0 tally)

/-- `StratumStats`. -/
structure StratumStats where
  totalShares : ℕ
  validShares : ℕ
  staleShares : ℕ
  invalidShares : ℕ
  blockPowHits : ℕ
  work : ℕ
  shareTally : Tally
deriving DecidableEq

/-- A counter of the statistics goes up. -/
def bump (a b : ℕ) : ℕ := (a + b) % 2 ^ 64

/-- A submission as the throttle passes it on. -/
structure Submission where
  worker : WorkerId
  /-- `submit`, or else the legacy `mining.submit`. -/
  native : Bool
  jobId : Text
  nonce : ℕ
  difficulty : ℕ
deriving DecidableEq

/-- A share about to be credited, with its worker's login. -/
structure Credit where
  task : TaskId
  sub : Submission
  job : MiningJob
  effective : ℕ
  login : Option Text
  /-- The hash meets the block target. -/
  block : Bool
deriving DecidableEq

namespace StratumStats

/-- A share without credit in the statistics. The native protocol counts one gone stale after its
claim only. -/
def refuse (s : StratumStats) (native claimed : Bool) (result : ShareResult) : StratumStats :=
  match native, result with
  | true, .stale => if claimed then { s with staleShares := bump s.staleShares 1 } else s
  | true, _ => s
  | false, .stale =>
    { s with totalShares := bump s.totalShares 1, staleShares := bump s.staleShares 1 }
  | false, .invalid | false, .duplicate =>
    { s with totalShares := bump s.totalShares 1, invalidShares := bump s.invalidShares 1 }
  | false, _ => s

/-- The critical section of the statistics. -/
def credit (s : StratumStats) (c : Credit) : StratumStats :=
  let s := { s with
    totalShares := bump s.totalShares 1
    validShares := bump s.validShares 1
    blockPowHits := if c.block then bump s.blockPowHits 1 else s.blockPowHits }
  if c.sub.native then
    { s with
      work := bump s.work (shareWork c.effective)
      shareTally := match c.login with
        | some login =>
          if login = [] ∨ tallyHasRoom s.shareTally login then
            creditShare s.shareTally login (shareWork c.effective)
          else s.shareTally
        | none => s.shareTally }
  else s

end StratumStats

/-! ## The server -/

/-- Where the task of a submission is. -/
inductive Phase
  | idle
  | submitted (sub : Submission)
  /-- The current job was read. -/
  | read (sub : Submission) (job : MiningJob)
  /-- The nonce was claimed; the hash is being computed. -/
  | claimed (sub : Submission) (job : MiningJob)
  | hashed (sub : Submission) (job : MiningJob) (effective : ℕ) (block : Bool)
  /-- The job was still the current one after the hash. -/
  | revalidated (sub : Submission) (job : MiningJob) (effective : ℕ) (block : Bool)
  | done (result : ShareResult)
deriving DecidableEq

/-- An accepted claim on a job that was the current one. -/
structure Claim where
  task : TaskId
  jobId : Text
  nonce : ℕ
deriving DecidableEq

/-- `compute_pow_hash` with RandomX. -/
structure PowEnv where
  computePowHash : Hash → ℕ → Hash → ℕ → Option Hash

/-- The server and its tasks. -/
structure Server where
  currentJob : Option MiningJob
  nextJobId : ℕ
  ledger : JobNonceLedger
  workers : WorkerId → Option Worker
  stats : StratumStats
  tasks : TaskId → Phase
  /-- The accepted claims and the credits so far, which the server itself does not keep. -/
  claims : List Claim
  credits : List Credit

/-- A step of the updater or of a task. -/
inductive Event
  | login (worker : WorkerId) (login : Text)
  | leave (worker : WorkerId)
  /-- A tip change; without a candidate block the id is used up and nothing else happens. -/
  | rotate (candidate : Option (Hash × Hash × Hash × ℕ))
  | submit (task : TaskId) (sub : Submission)
  | read (task : TaskId)
  | enter (task : TaskId)
  | hash (task : TaskId)
  | revalidate (task : TaskId)
  | credit (task : TaskId)
deriving DecidableEq

namespace Server

/-- `StratumServer::new`, with the tally of the last run. -/
def new (tally : Tally) : Server where
  currentJob := none
  nextJobId := 1
  ledger := ⟨[], ∅⟩
  workers _ := none
  stats := ⟨0, 0, 0, 0, 0, 0, tally⟩
  tasks _ := .idle
  claims := []
  credits := []

/-- The task is at another phase. -/
def setTask (p : Server) (task : TaskId) (phase : Phase) : Server :=
  { p with tasks := Function.update p.tasks task phase }

/-- A task ends without credit. -/
def finish (p : Server) (task : TaskId) (sub : Submission) (claimed : Bool) (result : ShareResult) :
    Server :=
  { p.setTask task (.done result) with stats := p.stats.refuse sub.native claimed result }

/-- The job updater. -/
def rotate (p : Server) (candidate : Option (Hash × Hash × Hash × ℕ)) : Server :=
  let p' := { p with nextJobId := (p.nextJobId + 1) % 2 ^ 64 }
  match candidate with
  | none => p'
  | some (anchor, txRoot, target, height) =>
    { p' with currentJob := some ⟨formatJobId p.nextJobId, anchor, txRoot, target, height⟩ }

/-- The check of the worker before a submission. -/
def submit (p : Server) (task : TaskId) (sub : Submission) : Server :=
  if (p.workers sub.worker).any (·.authorized) then p.setTask task (.submitted sub)
  else p.finish task sub false .unauthenticated

/-- The critical section of the job. -/
def readJob (p : Server) (task : TaskId) (sub : Submission) : Server :=
  match canonicalJob p.currentJob sub.jobId with
  | .ok job => p.setTask task (.read sub job)
  | .error _ => p.finish task sub false .stale

/-- The critical section of the ledger. -/
def enter (p : Server) (task : TaskId) (sub : Submission) (job : MiningJob) : Server :=
  let p' := { p with ledger := (p.ledger.claim job sub.nonce).1 }
  match (p.ledger.claim job sub.nonce).2 with
  | .accepted =>
    { p'.setTask task (.claimed sub job) with
      claims := if canonicalJobUnchanged p.currentJob job.jobId then
          p.claims ++ [⟨task, job.jobId, sub.nonce⟩]
        else p.claims }
  | .staleJob => p'.finish task sub false .stale
  | .duplicate => p'.finish task sub false .duplicate

/-- The hash against the share target and the block target. -/
def hash (E : PowEnv) (p : Server) (task : TaskId) (sub : Submission) (job : MiningJob) : Server :=
  match E.computePowHash job.anchor sub.nonce job.txRoot job.height with
  | none => p.finish task sub true .invalid
  | some pow =>
    let effective := effectiveShareDifficulty sub.difficulty job.target
    if meetsDifficulty pow (fromDifficulty effective) then
      p.setTask task (.hashed sub job effective (meetsDifficulty pow job.target))
    else p.finish task sub true .invalid

/-- The job once more, after the hash. -/
def revalidate (p : Server) (task : TaskId) (sub : Submission) (job : MiningJob) (effective : ℕ)
    (block : Bool) : Server :=
  if canonicalJobUnchanged p.currentJob job.jobId then
    p.setTask task (.revalidated sub job effective block)
  else p.finish task sub true .stale

def credit (p : Server) (task : TaskId) (sub : Submission) (job : MiningJob) (effective : ℕ)
    (block : Bool) : Server :=
  let c : Credit := ⟨task, sub, job, effective, (p.workers sub.worker).map (·.payoutLogin), block⟩
  { p.setTask task (.done (if block then .block else .valid)) with
    stats := p.stats.credit c
    credits := p.credits ++ [c] }

/-- A step of the updater, or the next one of a task. -/
def step (E : PowEnv) (p : Server) : Event → Option Server
  | .login worker login => some { p with workers := Function.update p.workers worker (some ⟨true, login⟩) }
  | .leave worker => some { p with workers := Function.update p.workers worker none }
  | .rotate candidate => some (p.rotate candidate)
  | .submit task sub =>
    match p.tasks task with
    | .idle => some (p.submit task sub)
    | _ => none
  | .read task =>
    match p.tasks task with
    | .submitted sub => some (p.readJob task sub)
    | _ => none
  | .enter task =>
    match p.tasks task with
    | .read sub job => some (p.enter task sub job)
    | _ => none
  | .hash task =>
    match p.tasks task with
    | .claimed sub job => some (p.hash E task sub job)
    | _ => none
  | .revalidate task =>
    match p.tasks task with
    | .hashed sub job effective block => some (p.revalidate task sub job effective block)
    | _ => none
  | .credit task =>
    match p.tasks task with
    | .revalidated sub job effective block => some (p.credit task sub job effective block)
    | _ => none

end Server

end CoinCync.Stratum

import Mathlib.Order.Defs.LinearOrder
import Taas.Infra.Program
import Taas.Services.Load
import Taas.Services.Store

/-!
# The Redis state machine for jobs

`app/services/redis_jobs.py`: every state function as a program of Redis commands. A
`MULTI` block or a script is one command; a plain pipeline is one command after another.
What a function reads from the clock (`time.time()`) is an argument (`now`, `time`).

The events a command logs are what others can observe of it: a job put on a pending queue,
a job claimed, a message published.
-/

namespace Taas

open Infra Infra.Prog

/-- `Settings`: what the modelled code reads of it. -/
structure Settings where
  pollBackoffInitial : ℚ := 1
  unstoredJobMax : Nat := 100
  wsCatchUpSeconds : ℚ := 120

/-- A job event as clients receive it. -/
structure JobEvent where
  jobId : JobId
  externalId : Option String
  status : JobStatus
  batchId : Option BatchId := none
  error : Option String := none
  /-- When the job finished; only catch-up events have it. -/
  ts : Option ℚ := none
  /-- `alto_url`, …: only done events have them. -/
  urls : List (String × String) := []
deriving DecidableEq

/-- A message on a user's channel: a job event or a batch's progress (`batch_event`). -/
inductive Message where
  | job (event : JobEvent)
  | batch (batchId : BatchId) (counts : BatchCounts)
deriving DecidableEq

inductive Event where
  /-- The job was added to a pending queue. -/
  | put (jobId : JobId)
  /-- A worker took the job off its pending queue to dispatch it. -/
  | claimed (jobId : JobId)
  | published (username : String) (message : Message)
deriving DecidableEq

/-- A program of Redis commands. -/
abbrev RedisProg (α : Type) := Prog Redis Event α

/-! ## Reading -/

/-- The job's state; `none` when its hash expired or isn't a whole job's. -/
def Redis.state (r : Redis) (jobId : JobId) : Option JobState :=
  (r.jobs.lookup jobId).bind JobState.fromHash

def getJob (jobId : JobId) : RedisProg (Option JobState) := query fun r => r.state jobId

/-- `get_job` for many jobs, one `HGETALL` after another. -/
def getJobs : List JobId → RedisProg (List (JobId × Option JobState))
  | [] => pure []
  | jobId :: jobIds => do
    let state ← getJob jobId
    let states ← getJobs jobIds
    pure ((jobId, state) :: states)

def jobLoadField (state : JobState) : String := loadField state.domain state.outputs

/-! ## The pending queues -/

def signalSubmit : RedisProg Unit := act Redis.rpushSubmit

def signalPoll : RedisProg Unit := act Redis.rpushPoll

/-- Add a job to its priority ZSET, register the level, and wake the submit worker. -/
def addPending (priority : Int) (jobId : JobId) (score : ℚ) : RedisProg Unit := do
  callLog (fun _ => [.put jobId]) (fun _ => ()) (Redis.zaddPending priority jobId score)
  act (Redis.saddLevel priority)
  signalSubmit

def JobHash.scored (score : ℚ) (h : JobHash) : JobHash := { h with queueScore := some score }

def JobHash.avoiding (backends : Finset BackendId) (h : JobHash) : JobHash :=
  { h with avoidBackends := some backends }

/-- The accumulating part of `schedule_retry`; `avoid_backends` is comma-separated and
deduplicated. -/
def avoidBackend (jobId : JobId) : Option BackendId → RedisProg Unit
  | none => pure ()
  | some avoid => do
    let existing ← query fun r => (r.jobs.lookup jobId).bind fun h => h.avoidBackends
    act (Redis.hset jobId (JobHash.avoiding (insert avoid (existing.getD ∅))))

/-- Schedule a job for delayed retry. -/
def scheduleRetry (now : ℚ) (jobId : JobId) (originalScore delayS : ℚ)
    (avoidBackendId : Option BackendId) : RedisProg Unit := do
  act (Redis.hset jobId (JobHash.scored originalScore))
  avoidBackend jobId avoidBackendId
  act (Redis.zaddDelayed jobId (now + delayS))

/-- The body of `promote_due_retries`' loop; whether the job was promoted. -/
def promoteMember (time : ℚ) (jobId : JobId) : RedisProg Bool := do
  let removed ← call (fun r => (r.delayed.lookup jobId).isSome) (Redis.zremDelayed jobId)
  if removed then
    match ← getJob jobId with
    | none => pure false
    | some state =>
      addPending state.priority jobId (state.queueScore.getD time)
      pure true
  else pure false -- another worker already promoted it

def promoteMembers (time : ℚ) : List JobId → RedisProg Nat
  | [] => pure 0
  | jobId :: jobIds => do
    let promoted ← promoteMember time jobId
    let count ← promoteMembers time jobIds
    pure (count + promoted.toNat)

/-- Promote delayed retries that are now due; how many were promoted. -/
def promoteDueRetries (now time : ℚ) : RedisProg Nat := do
  let members ← query fun r => (r.delayed.range.filter fun e => e.2 ≤ now).map Prod.fst
  promoteMembers time members

/-- Jobs per `enqueue_jobs` transaction. -/
def enqueueChunk : Nat := 500

/-- The list in pieces of `n`: `items[start : start + n] for start in range(0, len, n)`. -/
def chunks {α : Type} (n : Nat) (l : List α) : List (List α) :=
  (List.range ((l.length + n - 1) / n)).map fun i => (l.drop (i * n)).take n

/-- `HSET` of every field that `new` has. -/
def JobHash.overlay (new old : JobHash) : JobHash where
  status := new.status <|> old.status
  username := new.username <|> old.username
  externalId := new.externalId <|> old.externalId
  batchId := new.batchId <|> old.batchId
  fmt := new.fmt <|> old.fmt
  domain := new.domain <|> old.domain
  outputs := new.outputs <|> old.outputs
  mp := new.mp <|> old.mp
  submittedAt := new.submittedAt <|> old.submittedAt
  priority := new.priority <|> old.priority
  claimedAt := new.claimedAt <|> old.claimedAt
  queueScore := new.queueScore <|> old.queueScore
  avoidBackends := new.avoidBackends <|> old.avoidBackends
  requeues := new.requeues <|> old.requeues
  engineJobId := new.engineJobId <|> old.engineJobId
  backendUrl := new.backendUrl <|> old.backendUrl
  backendId := new.backendId <|> old.backendId
  nextPollAt := new.nextPollAt <|> old.nextPollAt
  lastPoll := new.lastPoll <|> old.lastPoll
  harvestTimes := new.harvestTimes <|> old.harvestTimes
  harvestAttempts := new.harvestAttempts <|> old.harvestAttempts
  error := new.error <|> old.error
  finishedAt := new.finishedAt <|> old.finishedAt
  ttl := old.ttl

/-- One job's commands of an `enqueue_jobs` transaction. -/
def Redis.enqueue (stateTtl : Nat) (r : Redis) (job : JobId × JobState) : Redis :=
  ((((r.hset job.1 job.2.toHash.overlay).expire job.1 stateTtl).incrLoadQueued
    (jobLoadField job.2) 1).zaddPending job.2.priority job.1 job.2.submittedAt).saddLevel
      job.2.priority

def enqueueTransaction (stateTtl : Nat) (jobs : List (JobId × JobState)) : RedisProg Unit :=
  callLog (fun _ => jobs.map fun job => .put job.1) (fun _ => ())
    fun r => jobs.foldl (Redis.enqueue stateTtl) r

def enqueueTransactions (stateTtl : Nat) : List (List (JobId × JobState)) → RedisProg Unit
  | [] => pure ()
  | chunk :: rest => do
    enqueueTransaction stateTtl chunk
    enqueueTransactions stateTtl rest

/-- Store new jobs' states and put them on their priority queues, a chunk per round trip,
then wake the submit worker once. -/
def enqueueJobs (jobs : List (JobId × JobState)) (stateTtl : Nat) : RedisProg Unit := do
  enqueueTransactions stateTtl (chunks enqueueChunk jobs)
  when (!jobs.isEmpty) signalSubmit

/-- The registered priority levels, highest first (`[0]` when none are). -/
def Redis.pendingLevels (r : Redis) : List Int :=
  match sorted (· ≥ ·) r.levels.val with
  | [] => [0]
  | prios => prios

/-- A job in a pending queue: its id, its queue score and the level whose queue it's in. -/
structure QueueEntry where
  jobId : JobId
  score : ℚ
  priority : Int
deriving DecidableEq

def peekLevels (count : Nat) : List Int → List QueueEntry → RedisProg (List QueueEntry)
  | [], results => pure results
  | prio :: prios, results =>
    if count ≤ results.length then pure results
    else do
      let batch ← query fun r => (r.pending prio).range.take (count - results.length)
      peekLevels count prios (results ++ batch.map fun e => ⟨e.1, e.2, prio⟩)

/-- The first `count` pending jobs, highest priority first and oldest first within one.
Nothing is removed. -/
def peekPending (count : Nat) : RedisProg (List QueueEntry) := do
  let prios ← query Redis.pendingLevels
  peekLevels count prios []

/-- Whether `_CLAIM_LUA` answers 1. -/
def Redis.claimable (entry : QueueEntry) (r : Redis) : Bool :=
  ((r.pending entry.priority).lookup entry.jobId).isSome && (r.jobs.lookup entry.jobId).isSome

def JobHash.claimed (now : ℚ) (h : JobHash) : JobHash := { h with claimedAt := some now }

/-- `_CLAIM_LUA`: `ZREM`, else nothing; then `claimed_at`, unless the hash is gone. -/
def Redis.claim (now : ℚ) (entry : QueueEntry) (r : Redis) : Redis :=
  if (r.pending entry.priority).lookup entry.jobId = none then r
  else if r.jobs.lookup entry.jobId = none then r.zremPending entry.priority entry.jobId
  else (r.zremPending entry.priority entry.jobId).hset entry.jobId (JobHash.claimed now)

def claimOne (now : ℚ) (entry : QueueEntry) : RedisProg Bool :=
  callLog (fun r => if r.claimable entry then [.claimed entry.jobId] else [])
    (Redis.claimable entry) (Redis.claim now entry)

/-- Take peeked jobs off their queues to dispatch them; the ids this worker claimed. -/
def claimPending (now : ℚ) : List QueueEntry → RedisProg (Finset JobId)
  | [] => pure ∅
  | entry :: entries => do
    let claimed ← claimOne now entry
    let rest ← claimPending now entries
    pure (if claimed then insert entry.jobId rest else rest)

/-- Take peeked jobs whose state is gone off their queues. -/
def dropPending : List QueueEntry → RedisProg Unit
  | [] => pure ()
  | entry :: entries => do
    act (Redis.zremPending entry.priority entry.jobId)
    dropPending entries

/-! ## Orphans -/

/-- The checks of `_REQUEUE_ORPHAN_LUA` on the job's hash `h`: queued, in no queue, and not
claimed within the grace. -/
def Redis.orphaned (now claimGraceS : ℚ) (jobId : JobId) (h : JobHash) (r : Redis) : Bool :=
  h.status = some .queued && (r.delayed.lookup jobId).isNone &&
    h.claimedAt.all (fun claimedAt => claimGraceS ≤ now - claimedAt) &&
      ((r.pending (h.priority.getD 0)).lookup jobId).isNone

/-- Whether `_REQUEUE_ORPHAN_LUA` answers 1. -/
def Redis.requeues (now claimGraceS : ℚ) (jobId : JobId) (r : Redis) : Bool :=
  (r.jobs.lookup jobId).any fun h => r.orphaned now claimGraceS jobId h

/-- `_REQUEUE_ORPHAN_LUA`. -/
def Redis.requeueOrphan (now claimGraceS : ℚ) (jobId : JobId) (r : Redis) : Redis :=
  match r.jobs.lookup jobId with
  | none => r
  | some h =>
    if r.orphaned now claimGraceS jobId h then
      (r.zaddPending (h.priority.getD 0) jobId (h.submittedAt.getD now)).saddLevel
        (h.priority.getD 0)
    else r

def requeueOrphan (now claimGraceS : ℚ) (jobId : JobId) : RedisProg Bool :=
  callLog (fun r => if r.requeues now claimGraceS jobId then [.put jobId] else [])
    (Redis.requeues now claimGraceS jobId) (Redis.requeueOrphan now claimGraceS jobId)

def requeueOrphanScripts (now claimGraceS : ℚ) : List JobId → RedisProg (List JobId)
  | [] => pure []
  | jobId :: jobIds => do
    let added ← requeueOrphan now claimGraceS jobId
    let rest ← requeueOrphanScripts now claimGraceS jobIds
    pure (if added then jobId :: rest else rest)

/-- Put back on their queue the jobs that Redis still has as queued but in no queue;
the ids requeued. -/
def requeueOrphans (jobIds : List JobId) (now claimGraceS : ℚ) : RedisProg (List JobId) := do
  let requeued ← requeueOrphanScripts now claimGraceS jobIds
  when (!requeued.isEmpty) signalSubmit
  pure requeued

/-! ## Dispatch -/

/-- A missing backend id, and the id 0, are false. -/
def truthy (backendId : Option BackendId) : Option BackendId := backendId.filter fun b => b ≠ 0

/-- The counters `set_running` moves once the job really entered the in-flight set. -/
def Redis.countRunning (backendId : BackendId) (state : Option JobState) (r : Redis) : Redis :=
  match state with
  | none => r.incrBackend backendId 1
  | some state =>
    let counted := ((r.incrBackend backendId 1).incrLoadQueued (jobLoadField state)
      (-1)).incrLoadInflight (jobLoadField state) 1
    match nonEmpty state.batchId with
    | none => counted
    | some batchId => counted.incrBatchPages backendId batchId 1

/-- The fields `set_running` writes. -/
def JobHash.running (now : ℚ) (settings : Settings) (engineJobId backendUrl : String)
    (backendId : BackendId) (h : JobHash) : JobHash :=
  { h with
    status := some .running
    engineJobId := some engineJobId
    backendUrl := some backendUrl
    backendId := some backendId
    nextPollAt := some (now + settings.pollBackoffInitial) }

/-- The part of `set_running` for a job that entered the in-flight set. -/
def enteredInflight (jobId : JobId) (backendId : BackendId) : RedisProg Unit := do
  let state ← getJob jobId
  act (Redis.countRunning backendId state)

def setRunning (settings : Settings) (now : ℚ) (jobId : JobId) (engineJobId backendUrl : String)
    (backendId : BackendId) (stateTtl : Nat) : RedisProg Unit := do
  act (Redis.hset jobId (JobHash.running now settings engineJobId backendUrl backendId))
  act (Redis.expire jobId stateTtl)
  let added ← call (fun r => decide (jobId ∉ r.inflight)) (Redis.saddInflight jobId)
  when added (enteredInflight jobId backendId)
  signalPoll

/-- Count one more requeue of the job against its retry budget. -/
def countRequeue (jobId : JobId) : RedisProg Unit :=
  act (Redis.hset jobId fun h => { h with requeues := some (h.requeues.getD 0 + 1) })

def JobHash.polled (at' now : ℚ) (h : JobHash) : JobHash :=
  { h with nextPollAt := some at', lastPoll := some now }

/-- Record a status check of a running job and when the next one is due. -/
def scheduleNextPoll (jobId : JobId) (at' now : ℚ) : RedisProg Unit :=
  act (Redis.hset jobId (JobHash.polled at' now))

def requeueJob (jobId : JobId) (originalScore : ℚ) : RedisProg Unit := do
  let state ← getJob jobId
  addPending ((state.map fun s => s.priority).getD 0) jobId originalScore

/-! ## Batches -/

/-- Start (or, for a retry, restart) a batch's progress counters. -/
def initBatch (batchId : BatchId) (counts : BatchCounts) : RedisProg Unit :=
  act (Redis.hsetBatch batchId counts)

/-- `HINCRBY batch:<id> <status> 1`; only the terminal statuses are counted. -/
def BatchCounts.count (status : JobStatus) (counts : BatchCounts) : BatchCounts :=
  match status with
  | .done => { counts with done := counts.done + 1 }
  | .failed => { counts with failed := counts.failed + 1 }
  | _ => counts

def Redis.countedBatch (batchId : BatchId) (status : JobStatus) (r : Redis) : BatchCounts :=
  ((r.batches.lookup batchId).getD {}).count status

/-- Count one finished page of a batch, unless the job had already finished; the batch's new
counts. -/
def countBatchPage (state : Option JobState) (status : JobStatus) :
    RedisProg (Option (BatchId × BatchCounts)) :=
  match state with
  | none => pure none
  | some state =>
    match state.batchId with
    | none => pure none
    | some batchId =>
      if state.status.isTerminal then pure none
      else (fun counts => some (batchId, counts)) <$> call (Redis.countedBatch batchId status)
        fun r => r.hsetBatch batchId (r.countedBatch batchId status)

/-- One page of a batch left the backend; drop the batch when it was the last. -/
def releaseBatch (backendId : BackendId) (state : Option JobState) : RedisProg Unit :=
  match state.bind fun s => s.batchId with
  | none => pure ()
  | some batchId => do
    let left ← call (fun r => (r.backendBatches backendId).value batchId - 1)
      (Redis.incrBatchPages backendId batchId (-1))
    when (left ≤ 0) (act (Redis.hdelBatchPages backendId batchId))

/-! ## Engine done -/

/-- The counters `_RELEASE_DONE_LUA` moves for a job with this backend and batch. -/
def Redis.countReleased (state : JobState) (r : Redis) : Redis :=
  let counted := r.incrLoadInflight (jobLoadField state) (-1)
  match state.backendId with
  | none => counted
  | some backendId =>
    let counted := counted.incrBackend backendId (-1)
    match nonEmpty state.batchId with
    | none => counted
    | some batchId =>
      let counted := counted.incrBatchPages backendId batchId (-1)
      if (counted.backendBatches backendId).value batchId ≤ 0 then
        counted.hdelBatchPages backendId batchId
      else counted

def JobHash.storing (run : EngineRun) (h : JobHash) : JobHash :=
  { h with
    status := some .storing
    harvestTimes := some run
    harvestAttempts := some 0 }

/-- `_RELEASE_DONE_LUA`: the `SREM` result gates the whole transition. -/
def Redis.releaseDone (now : ℚ) (jobId : JobId) (state : JobState) (run : EngineRun)
    (r : Redis) : Redis :=
  if jobId ∈ r.inflight then
    (((r.sremInflight jobId).zaddHarvest jobId now).hmod jobId
      (JobHash.storing run)).countReleased state
  else r

/-- Release a finished job's engine slot and queue its harvest, atomically; whether this
call made the transition. -/
def releaseDone (now : ℚ) (jobId : JobId) (state : JobState) (run : EngineRun := {}) :
    RedisProg Bool := do
  let released ← call (fun r => decide (jobId ∈ r.inflight)) (Redis.releaseDone now jobId state run)
  when released signalSubmit
  pure released

/-- Engine work still in flight and observed completions awaiting storage. -/
def unstoredDepth : RedisProg (Nat × Nat) := do
  let inflight ← query fun r => r.inflight.card
  let storing ← query fun r => r.pendingHarvest.keys.card
  pure (inflight, storing)

def JobHash.attempted (h : JobHash) : JobHash :=
  { h with harvestAttempts := some (h.harvestAttempts.getD 0 + 1) }

/-- Back off a failed harvest: bump its attempt count, retry it after `delayS`. -/
def rescheduleHarvest (now : ℚ) (jobId : JobId) (delayS : ℚ) : RedisProg Unit :=
  act fun r => (r.hset jobId JobHash.attempted).zaddHarvest jobId (now + delayS)

/-- Which of `jobIds` are waiting to be harvested. -/
def pendingHarvestMembers (jobIds : List JobId) : RedisProg (List JobId) :=
  query fun r => jobIds.filter fun jobId => (r.pendingHarvest.lookup jobId).isSome

/-- Drop harvest entries whose job state expired. -/
def forgetHarvests (jobIds : List JobId) : RedisProg Unit :=
  act fun r => jobIds.foldl (fun r jobId => r.zremHarvest jobId) r

/-! ## Finishing -/

/-- `HDEL job:<id> harvest_times harvest_attempts` -/
def JobHash.clearHarvest (h : JobHash) : JobHash :=
  { h with harvestTimes := none, harvestAttempts := none }

/-- The slot release of `set_done`, for a job that was still in flight. -/
def releaseDoneSlot (state : Option JobState) : RedisProg Unit := do
  match state with
  | none => pure ()
  | some state => act (Redis.incrLoadInflight (jobLoadField state) (-1))
  match truthy (state.bind fun s => s.backendId) with
  | none => pure ()
  | some backendId =>
    act (Redis.incrBackend backendId (-1))
    signalSubmit
    releaseBatch backendId state

/-- The end of `set_done`: a job still in flight gives its slot up, a harvested one leaves
room for the next harvest. -/
def settleDone (removed harvestRemoved : Bool) (state : Option JobState) : RedisProg Unit :=
  if removed then releaseDoneSlot state else when harvestRemoved signalSubmit

/-- The snapshot `set_done` works from: a batch page re-reads the hash. -/
def doneState (jobId : JobId) (state : Option JobState) : RedisProg (Option JobState) :=
  if state.all fun s => s.batchId.isSome then getJob jobId else pure state

def JobHash.finished (now : ℚ) (h : JobHash) : JobHash :=
  { h with status := some .done, finishedAt := some now }

/-- Mark the job done and drop it from the harvest queue; a batch page's new counts. -/
def setDone (now : ℚ) (jobId : JobId) (stateTtl : Nat) (state : Option JobState := none) :
    RedisProg (Option (BatchId × BatchCounts)) := do
  let state ← doneState jobId state
  let batch ← countBatchPage state .done
  act (Redis.hset jobId (JobHash.finished now))
  act (Redis.expire jobId stateTtl)
  let removed ← call (fun r => decide (jobId ∈ r.inflight)) (Redis.sremInflight jobId)
  let harvestRemoved ← call (fun r => (r.pendingHarvest.lookup jobId).isSome)
    (Redis.zremHarvest jobId)
  act (Redis.hmod jobId JobHash.clearHarvest)
  settleDone removed harvestRemoved state
  pure batch

def JobHash.failed (now : ℚ) (error : String) (h : JobHash) : JobHash :=
  { h with status := some .failed, error := some error, finishedAt := some now }

/-- The transaction of `set_failed`. -/
def Redis.markFailed (now : ℚ) (jobId : JobId) (error : String) (stateTtl : Nat) (r : Redis) :
    Redis :=
  (((r.hset jobId (JobHash.failed now error)).expire jobId stateTtl).zremHarvest jobId).hmod
    jobId JobHash.clearHarvest

/-- The load counter `set_failed` moves: inflight for a job that ran, queued for one that
never did. -/
def countFailed (removed : Bool) (state : Option JobState) : RedisProg Unit :=
  match state with
  | none => pure ()
  | some state =>
    if removed then act (Redis.incrLoadInflight (jobLoadField state) (-1))
    else when (state.status = .queued) (act (Redis.incrLoadQueued (jobLoadField state) (-1)))

/-- The backend's part of giving up a slot. -/
def releaseSlot (removed : Bool) (state : Option JobState) : RedisProg Unit :=
  match truthy (state.bind fun s => s.backendId) with
  | none => pure ()
  | some backendId => when removed do
    act (Redis.incrBackend backendId (-1))
    releaseBatch backendId state

/-- Mark the job failed and release its slot; a batch page's new counts. -/
def setFailed (now : ℚ) (jobId : JobId) (error : String) (stateTtl : Nat) :
    RedisProg (Option (BatchId × BatchCounts)) := do
  let state ← getJob jobId
  let batch ← countBatchPage state .failed
  let harvestRemoved ← call (fun r => (r.pendingHarvest.lookup jobId).isSome)
    (Redis.markFailed now jobId error stateTtl)
  let removed ← call (fun r => decide (jobId ∈ r.inflight)) (Redis.sremInflight jobId)
  countFailed removed state
  when harvestRemoved signalSubmit
  releaseSlot removed state
  when (removed && (truthy (state.bind fun s => s.backendId)).isSome) signalSubmit
  pure batch

/-! ## Back to the queue -/

/-- `HDEL` of what a dispatch recorded. -/
def JobHash.clearDispatch (h : JobHash) : JobHash :=
  { h with
    engineJobId := none
    backendUrl := none
    backendId := none
    harvestTimes := none
    harvestAttempts := none }

/-- The load counters of a job that goes from in flight back to queued. -/
def countRequeued (removed : Bool) (state : Option JobState) : RedisProg Unit :=
  match state with
  | none => pure ()
  | some state => when removed (act fun r =>
      (r.incrLoadInflight (jobLoadField state) (-1)).incrLoadQueued (jobLoadField state) 1)

/-- The last step of `release_and_requeue`: the delayed queue, or a pending one. -/
def requeueReleased (now : ℚ) (jobId : JobId) (score delayS : ℚ)
    (avoidBackendId : Option BackendId) (state : Option JobState) : RedisProg Unit :=
  if 0 < delayS then scheduleRetry now jobId score delayS avoidBackendId
  else addPending ((state.map fun s => s.priority).getD 0) jobId score

def JobHash.queued (h : JobHash) : JobHash := { h with status := some .queued }

/-- The first half of `release_and_requeue`: the in-flight slot and its counters. -/
def giveUpSlot (jobId : JobId) : RedisProg (Option JobState) := do
  let state ← getJob jobId
  let removed ← call (fun r => decide (jobId ∈ r.inflight)) (Redis.sremInflight jobId)
  countRequeued removed state
  releaseSlot removed state
  pure state

/-- The second half of `release_and_requeue`, once the hash says queued. -/
def backToQueue (now : ℚ) (jobId : JobId) (score : ℚ) (stateTtl : Nat) (delayS : ℚ)
    (avoidBackendId : Option BackendId) (state : Option JobState) : RedisProg Unit := do
  act (Redis.hmod jobId JobHash.clearDispatch)
  act (Redis.zremHarvest jobId)
  act (Redis.expire jobId stateTtl)
  requeueReleased now jobId score delayS avoidBackendId state

/-- Release an in-flight job's slot and put it back on the pending queue, or on the delayed
one when `0 < delayS`. -/
def releaseAndRequeue (now : ℚ) (jobId : JobId) (score : ℚ) (stateTtl : Nat) (delayS : ℚ := 0)
    (avoidBackendId : Option BackendId := none) : RedisProg Unit := do
  let state ← giveUpSlot jobId
  act (Redis.hset jobId JobHash.queued)
  backToQueue now jobId score stateTtl delayS avoidBackendId state

/-! ## Publishing -/

/-- An empty `external_id` is null, an empty `batch_id` is left out. -/
def jobEventPayload (event : JobEvent) : Message :=
  .job { event with externalId := nonEmpty event.externalId, batchId := nonEmpty event.batchId }

def batchEvent (counts : BatchId × BatchCounts) : Message := .batch counts.1 counts.2

/-- `PUBLISH` on the user's channel. -/
def publishEvent (username : String) (message : Message) : RedisProg Unit :=
  callLog (fun _ => [.published username message]) (fun _ => ()) id

end Taas

import Taas.Infra.Gather
import Taas.Workers.Rows
import Taas.Workers.Submit

/-!
# The submit worker's tick

`app/workers/submit/worker.py`: `run_tick` and what it calls. What the tick learns from outside
Redis and the database is its input: the enabled backends, their health and capabilities, the
scores, the clock, and how each engine answers.

* `dispatchJob` — one job, handed to its engine.
* `dispatchTier` — the peeked jobs over one tier's backends.
* `runTick` — the tiers, until the budget or the queue is used up.
-/

namespace Taas

open Infra Infra.Prog

/-- Why a dispatch failed, and whether another backend might succeed. -/
structure DispatchFailure where
  error : String
  httpStatus : Option Int := none
  transient : Bool

/-- What came of reading the image and handing it to the engine. -/
inductive DispatchReply where
  /-- The image was not readable. -/
  | unreadable (error : String)
  | accepted (engineJobId : String) (engineVersion : Option String)
  /-- Accepted, but `set_running` raised after so many commands. -/
  | unrecorded (engineJobId : String) (commands : Nat) (failure : DispatchFailure)
  /-- `EngineFullError` -/
  | full
  | failed (failure : DispatchFailure)

/-- What one tick is given. -/
structure TickInput where
  now : ℚ
  /-- The enabled backends, highest priority first. -/
  backends : List Backend
  healthy : BackendId → Bool
  capabilities : BackendId → Domains
  spp : BackendId → String → ℚ
  affinityTolerance : ℚ
  stateTtl : Nat
  maxRequeues : Nat
  backoffSeconds : Int → ℚ
  reply : JobId → BackendId → DispatchReply
  /-- In which order a tier's dispatches take turns. -/
  turns : Int → List Nat
  /-- After how many commands a job's dispatch raises, if it does. -/
  dispatchRaises : JobId → Option Nat := fun _ => none
  /-- After how many commands the tick itself raises, if it does. -/
  raises : Option Nat := none

variable {ι : Type} [DecidableEq ι] (i : ι) (settings : Settings) (input : TickInput)

/-! ## One job -/

/-- Retry a transient failure while the budget lasts; fail the job otherwise. -/
def dispatchFailed (jobId : JobId) (originalScore : ℚ) (state : JobState) (backend : Backend)
    (failure : DispatchFailure) : WorkerProg ι Unit :=
  if failure.transient && state.requeues < input.maxRequeues then
    retryLater i input.now jobId originalScore backend.id failure.httpStatus failure.error
      (input.backoffSeconds state.requeues)
  else
    let msg := if failure.transient then
        failure.error ++ " (exceeded " ++ toString input.maxRequeues ++ " requeue attempts)"
      else failure.error
    failJob i input.now jobId state
      (failedDispatchAttempt input.now backend.id failure.httpStatus msg) input.stateTtl

/-- `_submit`, once the engine accepted the job. -/
def submitted (jobId : JobId) (backend : Backend) (engineJobId : String)
    (engineVersion : Option String) : WorkerProg ι Unit := do
  onRedis i (setRunning settings input.now jobId engineJobId backend.url backend.id
    input.stateTtl)
  recordRunning i input.now jobId backend.id engineJobId engineVersion

def dispatchJob (jobId : JobId) (originalScore : ℚ) (slot : BackendSlot) (state : JobState) :
    WorkerProg ι Unit :=
  if serves slot.domains state.domain state.outputs then
    match input.reply jobId slot.backend.id with
    | .unreadable error =>
      failJob i input.now jobId state
        (failedDispatchAttempt input.now slot.backend.id none ("Failed to read image: " ++ error))
        input.stateTtl
    | .accepted engineJobId engineVersion =>
      submitted i settings input jobId slot.backend engineJobId engineVersion
    | .unrecorded engineJobId commands failure => do
      onRedis i (first commands (setRunning settings input.now jobId engineJobId slot.backend.url
        slot.backend.id input.stateTtl))
      dispatchFailed i input jobId originalScore state slot.backend failure
    | .full => onRedis i (requeueJob jobId originalScore)
    | .failed failure => dispatchFailed i input jobId originalScore state slot.backend failure
  else onRedis i (requeueJob jobId originalScore)

/-! ## One tier -/

/-- A dict of the entries: a later one takes the place of an earlier one. -/
def asDict {β : Type} (entries : List (JobId × β)) (jobId : JobId) : Option β :=
  entries.reverse.lookup jobId

/-- The peeked jobs' states; those whose state is gone are dropped from their queues. -/
def queuedStates (entries : List QueueEntry) : RedisProg (JobId → Option JobState) := do
  let found ← getJobs (entries.map fun entry => entry.jobId)
  let gone := entries.filter fun entry => ((asDict found entry.jobId).join).isNone
  dropPending gone
  pure fun jobId => (asDict found jobId).join

/-- The jobs of a tier, claimed and with their slots. -/
structure Assignment where
  job : PendingJob
  slot : BackendSlot
  state : JobState

/-- Allocate the peeked jobs over the tier's backends, claim and dispatch them; how many were
dispatched. -/
def dispatchTier (tier : List BackendSlot) (priority : Int) (entries : List QueueEntry) :
    WorkerProg ι Nat := do
  let states ← onRedis i (queuedStates entries)
  let pending := entries.filterMap fun entry => (states entry.jobId).map (pendingJob entry)
  let allocated := (allocateScored input.spp input.affinityTolerance 0 tier pending).1
  let byId := asDict (entries.map fun entry => (entry.jobId, entry))
  let claimed ← onRedis i (claimPending input.now (allocated.filterMap fun a => byId a.1.jobId))
  let assignments := allocated.filterMap fun a =>
    if a.1.jobId ∈ claimed then (states a.1.jobId).map fun state => Assignment.mk a.1 a.2 state
    else none
  gather (assignments.map fun a =>
      (dispatchJob i settings input a.job.jobId a.job.score a.slot a.state).upTo
        (input.dispatchRaises a.job.jobId))
    (input.turns priority)
  pure assignments.length

/-! ## The tick -/

/-- `get_backends_state`: one `MGET`, then an `HGETALL` for each backend. -/
def getBackendsState (backendIds : List BackendId) :
    RedisProg (List (Int × (BatchId → Int))) := do
  let inflight ← query fun r => backendIds.map r.backendInflight.value
  let batches ← batchesOf backendIds
  pure (inflight.zip batches)
where
  batchesOf : List BackendId → RedisProg (List (BatchId → Int))
    | [] => pure []
    | backendId :: rest => do
      let batches ← query fun r => (r.backendBatches backendId).value
      let others ← batchesOf rest
      pure (batches :: others)

/-- This tick's eligible backends: the healthy ones, with their free capacity. Full ones stay
in, so a retry waits for them rather than falling back to the backend it avoids. -/
def eligibleSlots : RedisProg (List BackendSlot) := do
  let healthy := input.backends.filter fun backend => input.healthy backend.id
  let states ← getBackendsState (healthy.map fun backend => backend.id)
  pure ((healthy.zip states).map fun (backend, inflight, batches) =>
    { backend := backend
      free := (backend.maxInflight - inflight).toNat
      domains := input.capabilities backend.id
      inflight := inflight
      batches := batches })

/-- How many jobs may still be dispatched before results waiting to be stored hit the limit. -/
def dispatchBudget : RedisProg Nat := do
  let (inflight, storing) ← unstoredDepth
  pure (unstoredCapacity settings.unstoredJobMax inflight storing)

/-- The tiers' priorities, highest first. -/
def tierPriorities (eligible : List BackendSlot) : List Int :=
  sorted (· ≥ ·) ((eligible.map fun slot => slot.backend.priority).toFinset.val)

/-- The loop over the tiers. -/
def dispatchTiers (eligible : List BackendSlot) : List Int → Nat → WorkerProg ι Unit
  | [], _ => pure ()
  | priority :: lower, remaining =>
    let tier := eligible.filter fun slot => slot.backend.priority = priority
    let capacity := min ((tier.map fun slot => slot.free).sum) remaining
    if capacity = 0 then dispatchTiers eligible lower remaining
    else do
      let entries ← onRedis i (peekPending capacity)
      if entries.isEmpty then pure ()
      else do
        let dispatched ← dispatchTier i settings input tier priority entries
        dispatchTiers eligible lower (remaining - dispatched)

/-- Dispatch as many queued jobs as the healthy backends and the storage budget allow, tier by
tier. -/
def runTick : WorkerProg ι Unit := do
  let _ ← onRedis i (promoteDueRetries input.now input.now)
  let eligible ← onRedis i (eligibleSlots input)
  let remaining ← onRedis i (dispatchBudget settings)
  if remaining = 0 then pure ()
  else dispatchTiers i settings input eligible (tierPriorities eligible) remaining

/-- The submit worker: one tick after another, whether they raise or not. -/
def submitWorker : List TickInput → WorkerProg ι Unit
  | [] => pure ()
  | input :: inputs => do
    (runTick i settings input).upTo input.raises
    submitWorker inputs

end Taas

import Taas.Services.BatchStore
import Taas.Services.RedisJobs

/-!
# Who writes a job's row

The functions of the submit worker, the pollers and the reaper that write `jobs` rows, with
the Redis calls they make before and after. Each runs as client `i`, whose transactions carry
its name.

* `Stores` — Redis and Postgres together.
* `recordRunning`, `retryLater`, `failJob` — `app/workers/submit/worker.py`.
* `recordDone`, `harvest`, `markFailed`, `requeue`, `releaseForHarvest` —
  `app/workers/poller/worker.py`.
* `reapStaleJobs` — `app/services/reaper.py`.
-/

namespace Taas

open Infra Infra.Prog

structure Stores (ι : Type) where
  redis : Redis := {}
  db : Postgres ι

/-- Who did what. -/
structure Note (ι : Type) where
  actor : ι
  what : Event ⊕ Statement
deriving DecidableEq

/-- A program of Redis commands and database statements. -/
abbrev WorkerProg (ι α : Type) := Prog (Stores ι) (Note ι) α

variable {ι : Type} [DecidableEq ι] (i : ι)

def onRedis {α : Type} (p : RedisProg α) : WorkerProg ι α :=
  zoom Stores.redis (fun redis s => { s with redis := redis }) (fun e => ⟨i, .inl e⟩) p

def onDb {α : Type} (p : DbProg ι α) : WorkerProg ι α :=
  zoom Stores.db (fun db s => { s with db := db }) (fun e => ⟨i, .inr e⟩) p

omit [DecidableEq ι] in
theorem onRedis_bind {α β : Type} (p : RedisProg α) (f : α → RedisProg β) :
    onRedis i (p >>= f) = onRedis i p >>= fun a => onRedis i (f a) := zoom_bind p f

omit [DecidableEq ι] in
theorem onDb_bind {α β : Type} (p : DbProg ι α) (f : α → DbProg ι β) :
    onDb i (p >>= f) = onDb i p >>= fun a => onDb i (f a) := zoom_bind p f

omit [DecidableEq ι] in
theorem run_onRedis {α : Type} (p : RedisProg α) (s : Stores ι) :
    run (onRedis i p) s = ((run p s.redis).1, { s with redis := (run p s.redis).2 }) := by
  have h : run (onRedis i p) s = ((run p s.redis).1, { s with redis := (run p s.redis).2 }) ∧
      trace (onRedis i p) s = (trace p s.redis).map fun e => ⟨i, .inl e⟩ := by
    unfold onRedis
    refine run_zoom_eq ?_ ?_ ?_ p s
    · exact fun _ _ => rfl
    · exact fun _ => rfl
    · exact fun _ _ _ => rfl
  exact h.1

omit [DecidableEq ι] in
theorem run_onDb {α : Type} (p : DbProg ι α) (s : Stores ι) :
    run (onDb i p) s = ((run p s.db).1, { s with db := (run p s.db).2 }) := by
  have h : run (onDb i p) s = ((run p s.db).1, { s with db := (run p s.db).2 }) ∧
      trace (onDb i p) s = (trace p s.db).map fun e => ⟨i, .inr e⟩ := by
    unfold onDb
    refine run_zoom_eq ?_ ?_ ?_ p s
    · exact fun _ _ => rfl
    · exact fun _ => rfl
    · exact fun _ _ _ => rfl
  exact h.1

def publishBatch (username : String) : Option (BatchId × BatchCounts) → WorkerProg ι Unit
  | none => pure ()
  | some counts => onRedis i (publishEvent username (batchEvent counts))

/-- `append_attempt` -/
def JobRow.append (attempt : Option Attempt) (row : JobRow) : JobRow :=
  { row with attempts := row.attempts ++ attempt.toList }

/-! ## Transactions -/

/-- One page is written and its batch looked at. -/
def finishPage (now : ℚ) (writer : Writer) (jobId : JobId) (cond : JobRow → Bool)
    (values : JobRow → JobRow) (batchId : Option BatchId) : DbProg ι Bool := do
  let matched ← updateJob i writer jobId cond values
  finishIfDone i now batchId
  commit i
  pure matched

def notDone (row : JobRow) : Bool := row.status ≠ .done

/-- The engine's own stamps of a run, parsed (`engine_stamps`). -/
structure EngineStamps where
  engineReceivedAt : Option ℚ := none
  startedAt : Option ℚ := none
  finishedAt : Option ℚ := none

/-- The columns for the stamps that the engine reported. -/
def JobRow.stamped (stamps : EngineStamps) (row : JobRow) : JobRow :=
  { row with
    engineReceivedAt := stamps.engineReceivedAt <|> row.engineReceivedAt
    startedAt := stamps.startedAt <|> row.startedAt
    finishedAt := stamps.finishedAt <|> row.finishedAt }

/-! ## The submit worker -/

/-- Mirror the dispatch on the job's row. -/
def recordRunning (now : ℚ) (jobId : JobId) (backendId : BackendId) (engineJobId : String)
    (engineVersion : Option String) : WorkerProg ι Unit := onDb i do
  let _ ← updateJob i .recordRunning jobId (fun _ => true) fun row =>
    { row with
      status := .running
      dispatchedAt := some now
      engineJobId := some engineJobId
      engineVersion := engineVersion
      backendId := some backendId }
  commit i

def failedDispatchAttempt (now : ℚ) (backendId : BackendId) (httpStatus : Option Int)
    (error : String) : Attempt :=
  ⟨now, .dispatch, some backendId, httpStatus, error, false⟩

def retriedDispatchAttempt (now : ℚ) (backendId : BackendId) (httpStatus : Option Int)
    (error : String) : Attempt :=
  { failedDispatchAttempt now backendId httpStatus error with retry := true }

/-- A transient failure with budget left: bump the requeue counters and schedule a delayed
retry away from the backend. -/
def retryLater (now : ℚ) (jobId : JobId) (originalScore : ℚ) (backendId : BackendId)
    (httpStatus : Option Int) (error : String) (delay : ℚ) : WorkerProg ι Unit := do
  onRedis i (countRequeue jobId)
  onRedis i (scheduleRetry now jobId originalScore delay (some backendId))
  onDb i do
    let _ ← updateJob i .retryLater jobId (fun _ => true) fun row =>
      { row with requeues := row.requeues + 1 }.append
        (some (retriedDispatchAttempt now backendId httpStatus error))
    commit i

/-- Fail the job for good at dispatch, in Redis and its row, and report it. -/
def failJob (now : ℚ) (jobId : JobId) (state : JobState) (attempt : Attempt) (stateTtl : Nat) :
    WorkerProg ι Unit := do
  let batch ← onRedis i (setFailed now jobId attempt.error stateTtl)
  let _ ← onDb i (finishPage i now .failJob jobId (fun _ => true) (fun row =>
    { row with
      status := .failed
      error := some attempt.error
      finishedAt := some now }.append (some attempt)) state.batchId)
  onRedis i (publishEvent state.username (jobEventPayload
    { jobId := jobId, externalId := state.externalId, status := .failed,
      batchId := state.batchId, error := some attempt.error }))
  publishBatch i state.username batch

/-! ## The pollers -/

/-- Mark the job done; whether this harvest was the first to mark it. -/
def recordDone (now : ℚ) (jobId : JobId) (batchId : Option BatchId) (stamps : EngineStamps) :
    WorkerProg ι Bool :=
  onDb i (finishPage i now .recordDone jobId notDone (fun row =>
    { row with
      status := .done
      storedAt := some now
      finishedAt := some now }.stamped stamps) batchId)

/-- The select and the late check of `mark_failed`. -/
def selectStatus (jobId : JobId) : DbProg ι (Option JobStatus) :=
  (fun row => row.map fun row => row.status) <$> selectJob i jobId

/-- The rest of `mark_failed`'s transaction; the job as it ended. -/
def recordFailed (now : ℚ) (jobId : JobId) (error : String) (attempt : Option Attempt)
    (stamps : EngineStamps) (batchId : Option BatchId) : DbProg ι (Option JobRow) := do
  let _ ← updateJob i .markFailed jobId notDone fun row =>
    ({ row with
      status := .failed
      error := some error
      finishedAt := some now }.stamped stamps).append attempt
  let record ← selectJob i jobId
  finishIfDone i now batchId
  commit i
  pure record

/-- `mark_failed` for a job that its select did not find done. -/
def failUndone (now : ℚ) (jobId : JobId) (state : JobState) (error : String)
    (attempt : Option Attempt) (stamps : EngineStamps) (stateTtl : Nat) : WorkerProg ι Unit := do
  let batch ← onRedis i (setFailed now jobId error stateTtl)
  let _ ← onDb i (recordFailed i now jobId error attempt stamps state.batchId)
  onRedis i (publishEvent state.username (jobEventPayload
    { jobId := jobId, externalId := state.externalId, status := .failed,
      batchId := state.batchId, error := some error }))
  publishBatch i state.username batch

/-- `mark_failed` for a job that another harvest already finished: it stays done. -/
def keepDone (now : ℚ) (jobId : JobId) (state : JobState) (stateTtl : Nat) : WorkerProg ι Unit := do
  let _ ← onRedis i (setDone now jobId stateTtl (some state))
  onDb i (rollback i)

/-- Fail the job for good. -/
def markFailed (now : ℚ) (jobId : JobId) (state : JobState) (error : String)
    (attempt : Option Attempt) (stamps : EngineStamps) (stateTtl : Nat) : WorkerProg ι Unit := do
  let status ← onDb i (selectStatus i jobId)
  if status = some .done then keepDone i now jobId state stateTtl
  else failUndone i now jobId state error attempt stamps stateTtl

/-- `_report_done`: what clients see of it. -/
def reportDone (jobId : JobId) (state : JobState) (urls : List (String × String))
    (batch : Option (BatchId × BatchCounts)) : WorkerProg ι Unit := do
  onRedis i (publishEvent state.username (jobEventPayload
    { jobId := jobId, externalId := state.externalId, status := .done,
      batchId := state.batchId, urls := urls.map fun u => (u.1 ++ "_url", u.2) }))
  publishBatch i state.username batch

/-- `_harvest`, once the outputs are fetched and stored at `urls`. -/
def harvestStored (now : ℚ) (jobId : JobId) (state : JobState) (stamps : EngineStamps)
    (urls : List (String × String)) (stateTtl : Nat) : WorkerProg ι Unit := do
  let firstHarvest ← recordDone i now jobId state.batchId stamps
  let batch ← onRedis i (setDone now jobId stateTtl (some state))
  if firstHarvest then reportDone i jobId state urls batch
  else publishBatch i state.username batch

/-- What fetching and storing the outputs came to. -/
inductive Fetched where
  | stored (urls : List (String × String))
  /-- The engine can't produce an output this job asked for. -/
  | unavailable (error : String)
  | failed (error : String) (transient : Bool)

/-- Harvest a job whose engine is done. -/
def harvest (now : ℚ) (jobId : JobId) (state : JobState) (stamps : EngineStamps)
    (fetched : Fetched) (delay : ℚ) (stateTtl : Nat) : WorkerProg ι Unit :=
  match fetched with
  | .stored urls => harvestStored i now jobId state stamps urls stateTtl
  | .unavailable error =>
    markFailed i now jobId state error (some ⟨now, .harvest, state.backendId, some 409, error, false⟩)
      stamps stateTtl
  | .failed error transient =>
    if transient then onRedis i (rescheduleHarvest now jobId delay)
    else markFailed i now jobId state error none stamps stateTtl

/-- A polled job that goes back on the queue. -/
structure RequeuedPoll where
  jobId : JobId
  state : JobState
  delayS : ℚ
  attempt : Attempt

def requeueInRedis (now : ℚ) (stateTtl : Nat) : List RequeuedPoll → WorkerProg ι Unit
  | [] => pure ()
  | poll :: polls => do
    onRedis i (releaseAndRequeue now poll.jobId poll.state.submittedAt stateTtl poll.delayS
      poll.state.backendId)
    onRedis i (countRequeue poll.jobId)
    requeueInRedis now stateTtl polls

def requeueRows : List RequeuedPoll → DbProg ι Unit
  | [] => pure ()
  | poll :: polls => do
    let _ ← updateJob i .requeue poll.jobId (fun _ => true) fun row =>
      { row with
        status := .queued
        engineJobId := none
        backendId := none
        dispatchedAt := none
        requeues := row.requeues + 1 }.append (some poll.attempt)
    requeueRows polls

/-- `_requeue`: first Redis, then the rows in one transaction. -/
def requeue (now : ℚ) (polls : List RequeuedPoll) (stateTtl : Nat) : WorkerProg ι Unit := do
  requeueInRedis i now stateTtl polls
  onDb i do
    requeueRows i polls
    commit i

/-- A polled job whose engine is done. -/
structure DonePoll where
  jobId : JobId
  state : JobState
  run : EngineRun

/-- The jobs that this poller moved to the harvest queue. -/
def releasePolls (now : ℚ) : List DonePoll → WorkerProg ι (List JobId)
  | [] => pure []
  | poll :: polls => do
    let released ← onRedis i (releaseDone now poll.jobId poll.state poll.run)
    let rest ← releasePolls now polls
    pure (if released then poll.jobId :: rest else rest)

def storeRows : List JobId → DbProg ι Unit
  | [] => pure ()
  | jobId :: jobIds => do
    let _ ← updateJob i .releaseForHarvest jobId (fun row => row.status = .running) fun row =>
      { row with status := .storing }
    storeRows jobIds

/-- `_release_for_harvest`: Redis owns the harvest before Postgres says `storing`. -/
def releaseForHarvest (now : ℚ) (polls : List DonePoll) : WorkerProg ι Unit := do
  let storing ← releasePolls i now polls
  if storing.isEmpty then pure ()
  else onDb i do
    storeRows i storing
    commit i

/-! ## The reaper -/

/-- `REAP_MAX_PER_TICK` -/
def reapMaxPerTick : Nat := 500

/-- The reasons of `select_stale_jobs` for one job: each phase has its own clock. -/
def staleReason (now : ℚ) (queuedTimeout : Nat) (runningTimeoutFor : Option String → Nat)
    (row : JobRow) : Option String :=
  match row.status with
  | .queued =>
    if row.submittedAt < now - queuedTimeout then
      some ("timed out in queue after " ++ toString queuedTimeout ++ "s")
    else none
  | .running | .storing =>
    match row.dispatchedAt with
    | none => none
    | some dispatchedAt =>
      if dispatchedAt < now - runningTimeoutFor row.domain then
        some ("timed out while processing after " ++ toString (runningTimeoutFor row.domain) ++ "s")
      else none
  | _ => none

def selectStaleJobs (now : ℚ) (queuedTimeout : Nat) (runningTimeoutFor : Option String → Nat)
    (jobs : List (JobId × JobRow)) : List (JobId × JobRow × String) :=
  jobs.filterMap fun job => (staleReason now queuedTimeout runningTimeoutFor job.2).map
    fun reason => (job.1, job.2, reason)

/-- `SELECT … FROM jobs WHERE status IN (…) LIMIT …`: `limited` is what the database returns of
the active rows. -/
def selectActive (limited : List (JobId × JobRow) → List (JobId × JobRow)) :
    DbProg ι (List (JobId × JobRow)) :=
  query fun db => limited (((sorted (· ≤ ·) db.jobs.rows.val).map fun k =>
    (k, db.jobs.sees i k)).filter fun job => job.2.status.isActive)

def failStale (now : ℚ) (stateTtl : Nat) :
    List (JobId × JobRow × String) → WorkerProg ι (List (Option (BatchId × BatchCounts)))
  | [] => pure []
  | (jobId, _, reason) :: stale => do
    let batch ← onRedis i (setFailed now jobId reason stateTtl)
    let batches ← failStale now stateTtl stale
    pure (batch :: batches)

/-- The flush of the loaded objects: an update by id for each. -/
def reapRows (now : ℚ) : List (JobId × JobRow × String) → DbProg ι Unit
  | [] => pure ()
  | (jobId, _, reason) :: stale => do
    let _ ← updateJob i .reap jobId (fun _ => true) fun row =>
      { row with status := .failed, error := some reason, finishedAt := some now }
    reapRows now stale

def finishBatches (now : ℚ) : List BatchId → DbProg ι Unit
  | [] => pure ()
  | batchId :: batchIds => do
    finishIfDone i now (some batchId)
    finishBatches now batchIds

/-- The batches of the stale jobs, each once. -/
def staleBatches (stale : List (JobId × JobRow × String)) : List BatchId :=
  (stale.filterMap fun job => nonEmpty job.2.1.batchId).dedup

def publishStale : List (JobId × JobRow × String) → WorkerProg ι Unit
  | [] => pure ()
  | (jobId, row, reason) :: stale => do
    onRedis i (publishEvent row.username (jobEventPayload
      { jobId := jobId, externalId := row.externalId, status := .failed,
        batchId := row.batchId, error := some reason }))
    publishStale stale

def publishBatches : List (String × Option (BatchId × BatchCounts)) → WorkerProg ι Unit
  | [] => pure ()
  | (username, batch) :: batches => do
    publishBatch i username batch
    publishBatches batches

/-- The part of the sweep for jobs that are stale and don't wait for their harvest. -/
def reapStale (now : ℚ) (stateTtl : Nat) (stale : List (JobId × JobRow × String)) :
    WorkerProg ι Unit := do
  let batches ← failStale i now stateTtl stale
  onDb i do
    reapRows i now stale
    finishBatches i now (staleBatches stale)
    commit i
  publishStale i stale
  publishBatches i ((stale.map fun job => job.2.1.username).zip batches)

/-- Find stale jobs, fail them, release their Redis state and report them. -/
def reapStaleJobs (now : ℚ) (limited : List (JobId × JobRow) → List (JobId × JobRow))
    (queuedTimeout : Nat) (runningTimeoutFor : Option String → Nat) (stateTtl : Nat) :
    WorkerProg ι Unit := do
  let candidates ← onDb i (selectActive i limited)
  let stale := selectStaleJobs now queuedTimeout runningTimeoutFor candidates
  let harvesting ← onRedis i (pendingHarvestMembers (stale.map Prod.fst))
  let stale := stale.filter fun job => job.1 ∉ harvesting
  if stale.isEmpty then onDb i (rollback i) else reapStale i now stateTtl stale

end Taas

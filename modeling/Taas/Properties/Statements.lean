import Taas.Workers.Rows

/-!
# What the workers do to the rows

Every database command of the functions that write `jobs` rows, said once.

* `RowUpdate` — the updates: by whom, on which rows, and what they set.
* `RowStatement` — the commands: one of these updates, a commit or a rollback, or nothing to rows.
* `RowCall.statements` — every command of every call is one of them.
-/

namespace Taas

open Infra Infra.Prog

/-- One call of a function that writes rows. -/
inductive RowCall {ι : Type} [DecidableEq ι] (i : ι) : WorkerProg ι Unit → Prop
  | recordRunning (now jobId backendId engineJobId engineVersion) :
      RowCall i (recordRunning i now jobId backendId engineJobId engineVersion)
  | retryLater (now jobId originalScore backendId httpStatus error delay) :
      RowCall i (retryLater i now jobId originalScore backendId httpStatus error delay)
  | failJob (now jobId state attempt stateTtl) :
      RowCall i (failJob i now jobId state attempt stateTtl)
  | harvest (now jobId state stamps fetched delay stateTtl) :
      RowCall i (harvest i now jobId state stamps fetched delay stateTtl)
  | markFailed (now jobId state error attempt stamps stateTtl) :
      RowCall i (markFailed i now jobId state error attempt stamps stateTtl)
  | requeue (now polls stateTtl) : RowCall i (requeue i now polls stateTtl)
  | releaseForHarvest (now polls) : RowCall i (releaseForHarvest i now polls)
  | reapStaleJobs (now limited queuedTimeout runningTimeoutFor stateTtl) :
      RowCall i (reapStaleJobs i now limited queuedTimeout runningTimeoutFor stateTtl)

/-- A worker: one call after another. -/
inductive RowWriter {ι : Type} [DecidableEq ι] (i : ι) : WorkerProg ι Unit → Prop
  | done : RowWriter i (pure ())
  | call {p rest : WorkerProg ι Unit} (hp : RowCall i p) (hrest : RowWriter i rest) :
      RowWriter i (p >>= fun _ => rest)

/-! ## The commands -/

/-- The updates of `jobs` rows. -/
inductive RowUpdate : Writer → (JobRow → Bool) → (JobRow → JobRow) → Prop
  | recordRunning (now backendId engineJobId engineVersion) :
      RowUpdate .recordRunning (fun _ => true) fun row =>
        { row with
          status := .running
          dispatchedAt := some now
          engineJobId := some engineJobId
          engineVersion := engineVersion
          backendId := some backendId }
  | retryLater (attempt) : RowUpdate .retryLater (fun _ => true) fun row =>
      { row with requeues := row.requeues + 1 }.append attempt
  | failJob (now error attempt) : RowUpdate .failJob (fun _ => true) fun row =>
      { row with status := .failed, error := some error, finishedAt := some now }.append attempt
  | recordDone (now stamps) : RowUpdate .recordDone notDone fun row =>
      { row with status := .done, storedAt := some now, finishedAt := some now }.stamped stamps
  | markFailed (now error attempt stamps) : RowUpdate .markFailed notDone fun row =>
      ({ row with
        status := .failed
        error := some error
        finishedAt := some now }.stamped stamps).append attempt
  | requeue (attempt) : RowUpdate .requeue (fun _ => true) fun row =>
      { row with
        status := .queued
        engineJobId := none
        backendId := none
        dispatchedAt := none
        requeues := row.requeues + 1 }.append attempt
  | releaseForHarvest : RowUpdate .releaseForHarvest (fun row => row.status = .running) fun row =>
      { row with status := .storing }
  | reap (now reason) : RowUpdate .reap (fun _ => true) fun row =>
      { row with status := .failed, error := some reason, finishedAt := some now }

section

variable {ι : Type} [DecidableEq ι] (W : Writer → Prop) (i : ι)

/-- A command of client `i` on the database, whose updates are by writers in `W`. -/
inductive RowStatement : (Postgres ι → Postgres ι) → (Postgres ι → List Statement) → Prop
  | other {effect : Postgres ι → Postgres ι} (h : ∀ db, (effect db).jobs = db.jobs) :
      RowStatement effect fun _ => []
  | update {writer : Writer} {cond : JobRow → Bool} {values : JobRow → JobRow} (jobId : JobId)
      (h : RowUpdate writer cond values) (hw : W writer) :
      RowStatement (Postgres.update i jobId cond values) fun _ => [.update writer jobId]
  | commit : RowStatement (Postgres.commit i) fun db => [.committed (db.ended i)]
  | rollback : RowStatement (Postgres.rollback i) fun _ => []

/-- A command of a worker: one on Redis, or one on the database. -/
def WorkerStatement (effect : Stores ι → Stores ι) (log : Stores ι → List (Note ι)) : Prop :=
  (∀ s, (effect s).db = s.db) ∨
    ∃ dbEffect dbLog, RowStatement W i dbEffect dbLog ∧
      (∀ s, (effect s).db = dbEffect s.db) ∧
        ∀ s, log s = (dbLog s.db).map fun statement => ⟨i, .inr statement⟩

end

/-! ## The database part -/

section

variable {ι : Type} [DecidableEq ι] {W : Writer → Prop} {i : ι} {jobId : JobId}

/-- A writer's update waits for the row and writes it. -/
theorem statements_updateJob {writer : Writer} {cond : JobRow → Bool} {values : JobRow → JobRow}
    (h : RowUpdate writer cond values) (hw : W writer) :
    Each (RowStatement W i) (updateJob i writer jobId cond values) :=
  each_await (.update jobId h hw)

theorem statements_query {α : Type} {reply : Postgres ι → α} :
    Each (RowStatement W i) (query reply : DbProg ι α) := each_call (.other fun _ => rfl)

theorem statements_commit : Each (RowStatement W i) (commit i : DbProg ι Unit) :=
  each_callLog .commit

theorem statements_rollback : Each (RowStatement W i) (rollback i : DbProg ι Unit) :=
  each_call .rollback

/-- A batch's status is in another table. -/
theorem statements_finishIfDone (now : ℚ) (batchId : Option BatchId) :
    Each (RowStatement W i) (finishIfDone i now batchId) := by
  unfold finishIfDone
  split
  · exact each_pure _
  · refine Each.bind (each_await (.other fun db => ?_)) fun _ => each_await (.other fun db => ?_)
    all_goals split <;> rfl

/-- One page's update, with the look at its batch and the commit. -/
theorem statements_finishPage {now : ℚ} {writer : Writer} {cond : JobRow → Bool}
    {values : JobRow → JobRow} {batchId : Option BatchId} (h : RowUpdate writer cond values)
    (hw : W writer) : Each (RowStatement W i) (finishPage i now writer jobId cond values batchId) :=
  (statements_updateJob h hw).bind fun _ => (statements_finishIfDone now batchId).bind fun _ =>
    statements_commit.bind fun _ => each_pure _

/-- The transaction of `mark_failed` after its select. -/
theorem statements_recordFailed (now : ℚ) (error : String) (attempt : Option Attempt)
    (stamps : EngineStamps) (batchId : Option BatchId) (hw : W .markFailed) :
    Each (RowStatement W i) (recordFailed i now jobId error attempt stamps batchId) :=
  (statements_updateJob (.markFailed now error attempt stamps) hw).bind fun _ =>
    Each.bind statements_query fun _ => (statements_finishIfDone now batchId).bind fun _ =>
      statements_commit.bind fun _ => each_pure _

/-- One update for each poll, without a commit in between. -/
theorem statements_requeueRows (polls : List RequeuedPoll) (hw : W .requeue) :
    Each (RowStatement W i) (requeueRows i polls) := by
  induction polls with
  | nil => exact each_pure _
  | cons poll polls ih => exact (statements_updateJob (.requeue _) hw).bind fun _ => ih

theorem statements_storeRows (jobIds : List JobId) (hw : W .releaseForHarvest) :
    Each (RowStatement W i) (storeRows i jobIds) := by
  induction jobIds with
  | nil => exact each_pure _
  | cons jobId jobIds ih => exact (statements_updateJob .releaseForHarvest hw).bind fun _ => ih

/-- One update by id for each stale job. -/
theorem statements_reapRows (now : ℚ) (stale : List (JobId × JobRow × String)) (hw : W .reap) :
    Each (RowStatement W i) (reapRows i now stale) := by
  induction stale with
  | nil => exact each_pure _
  | cons job stale ih => exact (statements_updateJob (.reap now _) hw).bind fun _ => ih

theorem statements_finishBatches (now : ℚ) (batchIds : List BatchId) :
    Each (RowStatement W i) (finishBatches i now batchIds) := by
  induction batchIds with
  | nil => exact each_pure _
  | cons batchId batchIds ih => exact (statements_finishIfDone now _).bind fun _ => ih

/-! ## The calls -/

/-- A call to Redis leaves the rows alone. -/
theorem statements_onRedis {α : Type} (p : RedisProg α) :
    Each (WorkerStatement W i) (onRedis i p) :=
  (each_of_forall (C := fun _ _ => True) (fun _ _ => trivial) p).zoom
    fun _ _ _ => Or.inl fun _ => rfl

/-- A transaction's statements are those of its worker. -/
theorem statements_onDb {α : Type} {p : DbProg ι α} (h : Each (RowStatement W i) p) :
    Each (WorkerStatement W i) (onDb i p) :=
  h.zoom fun effect log hc => Or.inr ⟨effect, log, hc, fun _ => rfl, fun _ => rfl⟩

theorem statements_publishBatch (username : String) (batch : Option (BatchId × BatchCounts)) :
    Each (WorkerStatement W i) (publishBatch i username batch) := by
  unfold publishBatch
  split
  · exact each_pure _
  · exact statements_onRedis _

/-- Whichever way `mark_failed` goes, it updates at most this job's row. -/
theorem statements_markFailed (now : ℚ) (state : JobState) (error : String)
    (attempt : Option Attempt) (stamps : EngineStamps) (stateTtl : Nat) (hw : W .markFailed) :
    Each (WorkerStatement W i) (markFailed i now jobId state error attempt stamps stateTtl) := by
  refine (statements_onDb (Each.map _ statements_query)).bind fun status => ?_
  split
  · exact (statements_onRedis _).bind fun _ => statements_onDb statements_rollback
  · exact (statements_onRedis _).bind fun _ =>
      (statements_onDb (statements_recordFailed _ _ _ _ _ hw)).bind fun _ =>
        (statements_onRedis _).bind fun _ => statements_publishBatch _ _

/-- A harvest whose outputs are stored updates with its guard on `done`. -/
theorem statements_harvestStored (now : ℚ) (state : JobState) (stamps : EngineStamps)
    (urls : List (String × String)) (stateTtl : Nat) (hw : W .recordDone) :
    Each (WorkerStatement W i) (harvestStored i now jobId state stamps urls stateTtl) := by
  have hdone : Each (WorkerStatement W i) (recordDone i now jobId state.batchId stamps) :=
    statements_onDb (statements_finishPage (.recordDone now stamps) hw)
  refine hdone.bind fun first => (statements_onRedis _).bind fun batch => ?_
  split
  · exact (statements_onRedis _).bind fun _ => statements_publishBatch _ _
  · exact statements_publishBatch _ _

/-- A harvest writes `done`, or fails the job, or puts it off. -/
theorem statements_harvest (now : ℚ) (state : JobState) (stamps : EngineStamps)
    (fetched : Fetched) (delay : ℚ) (stateTtl : Nat) (hdone : W .recordDone)
    (hfailed : W .markFailed) :
    Each (WorkerStatement W i) (harvest i now jobId state stamps fetched delay stateTtl) := by
  cases fetched with
  | stored urls => exact statements_harvestStored now state stamps urls stateTtl hdone
  | unavailable error => exact statements_markFailed now state error _ stamps stateTtl hfailed
  | failed error transient =>
    show Each (WorkerStatement W i) (if transient then _ else _)
    split
    · exact statements_onRedis _
    · exact statements_markFailed now state error none stamps stateTtl hfailed

/-- A retry bumps the row's counter only. -/
theorem statements_retryLater (now : ℚ) (originalScore : ℚ) (backendId : BackendId)
    (httpStatus : Option Int) (error : String) (delay : ℚ) (hw : W .retryLater) :
    Each (WorkerStatement W i)
      (retryLater i now jobId originalScore backendId httpStatus error delay) :=
  (statements_onRedis _).bind fun _ => (statements_onRedis _).bind fun _ =>
    statements_onDb ((statements_updateJob (.retryLater _) hw).bind fun _ => statements_commit)

/-- A dispatch that fails for good. -/
theorem statements_failJob (now : ℚ) (state : JobState) (attempt : Attempt) (stateTtl : Nat)
    (hw : W .failJob) : Each (WorkerStatement W i) (failJob i now jobId state attempt stateTtl) :=
  (statements_onRedis _).bind fun _ =>
    (statements_onDb (statements_finishPage (.failJob now _ _) hw)).bind fun _ =>
      (statements_onRedis _).bind fun _ => statements_publishBatch _ _

theorem statements_requeueInRedis (now : ℚ) (stateTtl : Nat) (polls : List RequeuedPoll) :
    Each (WorkerStatement W i) (requeueInRedis i now stateTtl polls) := by
  induction polls with
  | nil => exact each_pure _
  | cons poll polls ih =>
    exact (statements_onRedis _).bind fun _ => (statements_onRedis _).bind fun _ => ih

/-- First Redis, then the rows in one transaction. -/
theorem statements_requeue (now : ℚ) (polls : List RequeuedPoll) (stateTtl : Nat)
    (hw : W .requeue) : Each (WorkerStatement W i) (requeue i now polls stateTtl) :=
  (statements_requeueInRedis _ _ _).bind fun _ =>
    statements_onDb ((statements_requeueRows _ hw).bind fun _ => statements_commit)

theorem statements_releasePolls (now : ℚ) (polls : List DonePoll) :
    Each (WorkerStatement W i) (releasePolls i now polls) := by
  induction polls with
  | nil => exact each_pure _
  | cons poll polls ih => exact (statements_onRedis _).bind fun _ => ih.bind fun _ => each_pure _

/-- The rows of the polls that Redis let go. -/
theorem statements_releaseForHarvest (now : ℚ) (polls : List DonePoll)
    (hw : W .releaseForHarvest) : Each (WorkerStatement W i) (releaseForHarvest i now polls) := by
  refine (statements_releasePolls now polls).bind fun storing => ?_
  split
  · exact each_pure _
  · exact statements_onDb ((statements_storeRows storing hw).bind fun _ => statements_commit)

theorem statements_failStale (now : ℚ) (stateTtl : Nat)
    (stale : List (JobId × JobRow × String)) :
    Each (WorkerStatement W i) (failStale i now stateTtl stale) := by
  induction stale with
  | nil => exact each_pure _
  | cons job stale ih => exact (statements_onRedis _).bind fun _ => ih.bind fun _ => each_pure _

theorem statements_publishStale (stale : List (JobId × JobRow × String)) :
    Each (WorkerStatement W i) (publishStale i stale) := by
  induction stale with
  | nil => exact each_pure _
  | cons job stale ih => exact (statements_onRedis _).bind fun _ => ih

theorem statements_publishBatches (batches : List (String × Option (BatchId × BatchCounts))) :
    Each (WorkerStatement W i) (publishBatches i batches) := by
  induction batches with
  | nil => exact each_pure _
  | cons batch batches ih => exact (statements_publishBatch _ _).bind fun _ => ih

/-- The reaper's transaction between its calls to Redis. -/
theorem statements_reapStale (now : ℚ) (stateTtl : Nat)
    (stale : List (JobId × JobRow × String)) (hw : W .reap) :
    Each (WorkerStatement W i) (reapStale i now stateTtl stale) := by
  have hrows : Each (RowStatement W i) (do
      reapRows i now stale
      finishBatches i now (staleBatches stale)
      commit i : DbProg ι Unit) :=
    (statements_reapRows now stale hw).bind fun _ =>
      (statements_finishBatches now _).bind fun _ => statements_commit
  exact (statements_failStale now stateTtl stale).bind fun _ => (statements_onDb hrows).bind fun _ =>
    (statements_publishStale stale).bind fun _ => statements_publishBatches _

/-- The whole sweep, with the selects before it. -/
theorem statements_reapStaleJobs (now : ℚ)
    (limited : List (JobId × JobRow) → List (JobId × JobRow)) (queuedTimeout : Nat)
    (runningTimeoutFor : Option String → Nat) (stateTtl : Nat) (hw : W .reap) :
    Each (WorkerStatement W i)
      (reapStaleJobs i now limited queuedTimeout runningTimeoutFor stateTtl) := by
  refine (statements_onDb statements_query).bind fun candidates => ?_
  refine (statements_onRedis _).bind fun harvesting => ?_
  dsimp only
  split
  · exact statements_onDb statements_rollback
  · exact statements_reapStale now stateTtl _ hw

/-- **Every command of every call is one of these.** -/
theorem RowCall.statements {p : WorkerProg ι Unit} (h : RowCall i p) (hW : ∀ writer, W writer) :
    Each (WorkerStatement W i) p := by
  cases h with
  | recordRunning =>
    exact statements_onDb ((statements_updateJob (.recordRunning _ _ _ _) (hW _)).bind
      fun _ => statements_commit)
  | retryLater => exact statements_retryLater _ _ _ _ _ _ (hW _)
  | failJob => exact statements_failJob _ _ _ _ (hW _)
  | harvest => exact statements_harvest _ _ _ _ _ _ (hW _) (hW _)
  | markFailed => exact statements_markFailed _ _ _ _ _ _ (hW _)
  | requeue => exact statements_requeue _ _ _ (hW _)
  | releaseForHarvest => exact statements_releaseForHarvest _ _ (hW _)
  | reapStaleJobs => exact statements_reapStaleJobs _ _ _ _ _ (hW _)

end

end Taas

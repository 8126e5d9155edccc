import Taas.Workers.Attempts

/-!
# From a dispatch to its harvest

One job after its dispatch, with the clock and the TTL of its hash: pollers poll it, queue its
harvest and harvest it until that succeeds or fails for good; a reaper fails it unless it waits to
be harvested.

* `getStateTtlSeconds` — the TTL that a dispatch gives the hash.
* `Vigil` — Redis, the clock, and what each of the workers is in the middle of.
* `Chore`, `Vigil.step` — what the workers do, and the time that passes.
-/

namespace Taas

open Infra Infra.Prog

/-! ## The TTL of a job's state -/

/-- The timeouts of the runtime config, and the running timeouts that domains override. -/
structure Timeouts where
  queuedTimeoutSeconds : Nat := 900
  runningTimeoutSeconds : Nat := 300
  domainLimits : List (Option Nat) := []

def stateTtlMarginSeconds : Nat := 60

/-- Redis job-state TTL: long enough to outlive the full queued+running lifecycle. -/
def getStateTtlSeconds (config : Timeouts) : Nat :=
  let running := config.domainLimits.foldl (fun running limit => max running (limit.getD 0))
    config.runningTimeoutSeconds
  config.queuedTimeoutSeconds + running + stateTtlMarginSeconds

/-! ## The store and its clock -/

/-- The hash without its TTL. -/
def JobHash.untimed (h : JobHash) : JobHash := { h with ttl := none }

/-- How far a poller's pass is with a job that is in flight, or due to be harvested. -/
inductive PassAt where
  | idle
  /-- It has the job's id from the in-flight set or from the harvest queue. -/
  | listed
  /-- It has what there is of the job's state. -/
  | read (state : Option JobState)
deriving DecidableEq

/-- Redis and the clock, as far as they are about one job, and the workers. -/
structure Vigil (ι : Type) where
  redis : Redis
  now : ℚ
  /-- When Redis drops the job's hash. -/
  expiresAt : Option ℚ := none
  /-- Each poller's poll of the job. -/
  polls : ι → PassAt := fun _ => .idle
  /-- Each poller's harvest of the job. -/
  harvests : ι → PassAt := fun _ => .idle
  /-- What each reaper is to fail the job with, after it did not find it among those that wait to
  be harvested. -/
  reaps : ι → Option (String × Nat) := fun _ => none

/-- What the engine's answer comes to. -/
inductive PollEnd where
  | running (delayS : ℚ)
  | done (run : EngineRun)
  | requeued (stateTtl : Nat) (delayS : ℚ)
  | failed (error : String) (stateTtl : Nat) (rowDone : Bool)

/-- What a harvest comes to. -/
inductive HarvestEnd where
  | stored (stateTtl : Nat)
  /-- The database or the storage is down for now. -/
  | transient (delayS : ℚ)
  | lost (error : String) (stateTtl : Nat) (rowDone : Bool)
deriving DecidableEq

/-- The harvest succeeded, or failed for good. -/
def HarvestEnd.final : HarvestEnd → Bool
  | transient _ => false
  | _ => true

inductive Chore (ι : Type) where
  /-- Time passes. -/
  | wait (duration : ℚ)
  /-- `get_inflight_ids`, and then `get_jobs` -/
  | listPoll (i : ι)
  | readPoll (i : ι)
  /-- The engine has answered, and the poller does what its answer comes to. -/
  | endPoll (i : ι) (outcome : PollEnd)
  /-- `due_harvest_ids`, and then `get_jobs` -/
  | listHarvest (i : ι)
  | readHarvest (i : ι)
  /-- `forget_harvests` -/
  | forget (i : ι)
  | endHarvest (i : ι) (outcome : HarvestEnd)
  /-- The reaper finds the job's row stale, and looks at the harvest queue. -/
  | beginReap (i : ι) (error : String) (stateTtl : Nat)
  /-- The reaper's `set_failed`. -/
  | endReap (i : ι)
  /-- The worker dies, and is started again. -/
  | restart (i : ι)

section

variable {ι : Type} (jobId : JobId)

/-- The Redis part of the outcome of a poll. -/
def PollEnd.prog (now : ℚ) (state : JobState) : PollEnd → RedisProg Unit
  | running delayS => scheduleNextPoll jobId (now + delayS) now
  | done run => do let _ ← releaseDone now jobId state run
  | requeued stateTtl delayS => do
    releaseAndRequeue now jobId state.submittedAt stateTtl delayS state.backendId
    countRequeue jobId
  | failed error stateTtl rowDone => pollerMarkFailed jobId now state error stateTtl rowDone

/-- The Redis part of the end of a harvest. -/
def HarvestEnd.prog (now : ℚ) (state : JobState) : HarvestEnd → RedisProg Unit
  | stored stateTtl => (HarvestRound.stored now stateTtl).harvest jobId state
  | transient delayS => (HarvestRound.unstored now delayS).harvest jobId state
  | lost error stateTtl rowDone =>
    (HarvestRound.lost now error stateTtl rowDone).harvest jobId state

/-- Whether `due_harvest_ids` has the job. -/
def Redis.harvestDue (now : ℚ) (r : Redis) : Bool :=
  (r.pendingHarvest.lookup jobId).any fun at' => at' ≤ now

namespace Vigil

/-- When the hash expires after a call: an `EXPIRE` sets its `ttl`. -/
def deadline (now : ℚ) (expiresAt : Option ℚ) (hash : Option JobHash) : Option ℚ :=
  hash.bind fun h => match h.ttl with
    | some ttl => some (now + ttl)
    | none => expiresAt

/-- After a whole call. -/
def call (p : RedisProg Unit) (s : Vigil ι) : Vigil ι :=
  let r := (run p s.redis).2
  { s with
    redis := r.hmod jobId JobHash.untimed
    expiresAt := deadline s.now s.expiresAt (r.jobs.lookup jobId) }

/-- Time passes, and the hash expires. -/
def wait (duration : ℚ) (s : Vigil ι) : Vigil ι :=
  if s.expiresAt.any fun at' => at' ≤ s.now + duration then
    { s with
      redis := s.redis.expireNow jobId
      now := s.now + duration
      expiresAt := none }
  else { s with now := s.now + duration }

variable [DecidableEq ι]

def setPoll (i : ι) (a : PassAt) (s : Vigil ι) : Vigil ι :=
  { s with polls := Function.update s.polls i a }

def setHarvest (i : ι) (a : PassAt) (s : Vigil ι) : Vigil ι :=
  { s with harvests := Function.update s.harvests i a }

def setReap (i : ι) (verdict : Option (String × Nat)) (s : Vigil ι) : Vigil ι :=
  { s with reaps := Function.update s.reaps i verdict }

/-- What each worker can't do now does nothing. -/
def step (s : Vigil ι) : Chore ι → Vigil ι
  | .wait duration => s.wait jobId duration
  | .listPoll i =>
    -- not while a batch of polls is still running
    match s.polls i with
    | .idle => if jobId ∈ s.redis.inflight then s.setPoll i .listed else s
    | _ => s
  | .readPoll i =>
    match s.polls i with
    | .listed => s.setPoll i
        (.read ((s.redis.state jobId).filter fun state => state.nextPollAt.getD 0 ≤ s.now))
    | _ => s
  | .endPoll i outcome =>
    match s.polls i with
    | .read none => s.setPoll i .idle
    | .read (some state) => (s.call jobId (outcome.prog jobId s.now state)).setPoll i .idle
    | _ => s
  | .listHarvest i =>
    -- nor while its last harvests are still running
    match s.harvests i with
    | .idle => if s.redis.harvestDue jobId s.now then s.setHarvest i .listed else s
    | _ => s
  | .readHarvest i =>
    match s.harvests i with
    | .listed => s.setHarvest i (.read (s.redis.state jobId))
    | _ => s
  | .forget i =>
    match s.harvests i with
    | .read none => (s.call jobId (forgetHarvests [jobId])).setHarvest i .idle
    | _ => s
  | .endHarvest i outcome =>
    match s.harvests i with
    | .read (some state) => (s.call jobId (outcome.prog jobId s.now state)).setHarvest i .idle
    | _ => s
  | .beginReap i error stateTtl =>
    if s.reaps i = none ∧ jobId ∉ (run (pendingHarvestMembers [jobId]) s.redis).1 then
      s.setReap i (some (error, stateTtl))
    else s
  | .endReap i =>
    match s.reaps i with
    | none => s
    | some (error, stateTtl) =>
      (s.call jobId (do let _ ← setFailed s.now jobId error stateTtl)).setReap i none
  | .restart i => ((s.setPoll i .idle).setHarvest i .idle).setReap i none

end Vigil

/-- The job is dispatched. -/
structure Handover where
  settings : Settings := {}
  now : ℚ
  engineJobId : String
  backend : Backend
  config : Timeouts := {}

namespace Handover

variable (d : Handover)

/-- When the job's hash expires, as the dispatch has it. -/
def due : ℚ := d.now + getStateTtlSeconds d.config

/-- After `set_running`. Workers may still be busy with what they read of the job before. -/
def vigil (polls : ι → PassAt) (reaps : ι → Option (String × Nat)) (r : Redis) : Vigil ι :=
  Vigil.call jobId (setRunning d.settings d.now jobId d.engineJobId d.backend.url d.backend.id
    (getStateTtlSeconds d.config)) { redis := r, now := d.now, polls, reaps }

end Handover

end

end Taas

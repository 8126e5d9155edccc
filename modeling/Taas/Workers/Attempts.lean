import Taas.Workers.Tick

/-!
# One job's attempts

What the submit worker and the poller do in Redis about one job, and how they spend its retry
budget.

* `Spending` — Redis, and the put-backs so far: how many, and how many are not counted yet.
* `attend` — commands of a worker, and what they mean for the budget.
* `SubmitRound.prog` — the submit worker promotes the job, or dispatches it.
* `PollRound.prog`, `HarvestRound.prog` — the poller polls it, or harvests it.
* `Rounds.prog` — each of them, time after time.
-/

namespace Taas

open Infra Infra.Prog

/-! ## The budget -/

/-- Redis, and how often the job was put back to wait after a failed attempt. -/
structure Spending where
  redis : Redis
  puts : Nat := 0
  /-- The put-backs that are not counted in the job's `requeues` yet. -/
  uncounted : Nat := 0

/-- `requeues` on the job's hash. -/
def Redis.requeuesOf (jobId : JobId) (r : Redis) : Int :=
  ((r.jobs.lookup jobId).bind fun h => h.requeues).getD 0

/-- Whether the command puts the job into `jobs:delayed` or a pending queue. -/
def putsBack (jobId : JobId) (effect : Redis → Redis) (events : List Event) : Bool :=
  ((effect {}).delayed.lookup jobId).isSome || .put jobId ∈ events

/-- What a command means for the budget; `put` says whether it puts the job back. -/
structure Booking where
  /-- The `requeues` that was read, for the command that begins to spend. -/
  begins : Bool → Option Int := fun _ => none
  books : Bool → Spending → Spending := fun _ t => t

namespace Booking

/-- It is no retry. -/
def plain : Booking := {}

/-- `count_requeue` before the put-back. -/
def countsFirst (requeues : Int) : Booking where
  begins _ := some requeues

/-- A put-back that is counted already. -/
def puts : Booking where
  books put t := if put then { t with puts := t.puts + 1 } else t

/-- A put-back that is counted after it. -/
def putsFirst (requeues : Int) : Booking where
  begins put := if put then some requeues else none
  books put t := if put then { t with puts := t.puts + 1, uncounted := t.uncounted + 1 } else t

/-- `count_requeue` after the put-back. -/
def counts : Booking where
  books _ t := { t with uncounted := t.uncounted - 1 }

end Booking

/-- Commands of a worker, booked. -/
def attend {α : Type} (jobId : JobId) (b : Booking) :
    RedisProg α → Prog Spending (Event ⊕ Int) α
  | .ret a => .ret a
  | .cmd ready effect log next =>
    .cmd (fun t => ready t.redis)
      (fun t => b.books (putsBack jobId effect (log t.redis)) { t with redis := effect t.redis })
      (fun t => (b.begins (putsBack jobId effect (log t.redis))).toList.map Sum.inr ++
        (log t.redis).map Sum.inl)
      fun t => attend jobId b (next t.redis)

theorem attend_bind {α β : Type} (jobId : JobId) (b : Booking) (p : RedisProg α)
    (f : α → RedisProg β) :
    attend jobId b (p >>= f) = attend jobId b p >>= fun a => attend jobId b (f a) := by
  change attend jobId b (p.bind f) = (attend jobId b p).bind fun a => attend jobId b (f a)
  induction p with
  | ret a => rfl
  | cmd ready effect log next ih => simp only [Prog.bind, attend, ih]

/-! ## The submit worker -/

/-- What one dispatch of the job is given. -/
structure DispatchRound where
  now : ℚ
  entry : QueueEntry
  backend : Backend
  reply : DispatchReply
  stateTtl : Nat
  delayS : ℚ

/-- What the submit worker does about the job. -/
inductive SubmitRound where
  | promote (now time : ℚ)
  | dispatch (d : DispatchRound)

section

variable (jobId : JobId) (maxRequeues : Nat) (settings : Settings)

/-- Commands that are no retry. -/
abbrev plainly {α : Type} (p : RedisProg α) : Prog Spending (Event ⊕ Int) α :=
  attend jobId .plain p

namespace DispatchRound

variable (d : DispatchRound) (state : JobState)

/-- The Redis part of `_retry_later`. -/
def retryLater : Prog Spending (Event ⊕ Int) Unit := do
  attend jobId (.countsFirst state.requeues) (countRequeue jobId)
  attend jobId .puts (scheduleRetry d.now jobId d.entry.score d.delayS (some d.backend.id))

/-- The Redis part of `_fail_job`. -/
def failJob (error : String) : Prog Spending (Event ⊕ Int) Unit :=
  plainly jobId do let _ ← setFailed d.now jobId error d.stateTtl

/-- The Redis part of `_dispatch_failed`. -/
def dispatchFailed (failure : DispatchFailure) : Prog Spending (Event ⊕ Int) Unit :=
  if failure.transient && state.requeues < maxRequeues then d.retryLater jobId state
  else d.failJob jobId failure.error

/-- The Redis part of `dispatch_job`. -/
def dispatchJob : Prog Spending (Event ⊕ Int) Unit :=
  match d.reply with
  | .unreadable error => d.failJob jobId error
  | .accepted engineJobId _ =>
    plainly jobId (setRunning settings d.now jobId engineJobId d.backend.url d.backend.id
      d.stateTtl)
  | .unrecorded engineJobId commands failure => do
    plainly jobId (first commands (setRunning settings d.now jobId engineJobId d.backend.url
      d.backend.id d.stateTtl))
    d.dispatchFailed jobId maxRequeues state failure
  | .full => plainly jobId (requeueJob jobId d.entry.score)
  | .failed failure => d.dispatchFailed jobId maxRequeues state failure

/-- The job's part of `_dispatch_tier`: its state is read, and the job claimed. -/
def prog : Prog Spending (Event ⊕ Int) Unit := do
  match ← plainly jobId (getJob jobId) with
  | none => plainly jobId (dropPending [d.entry])
  | some state =>
    if ← plainly jobId (claimOne d.now d.entry) then
      d.dispatchJob jobId maxRequeues settings state
    else pure ()

end DispatchRound

def SubmitRound.prog : SubmitRound → Prog Spending (Event ⊕ Int) Unit
  | .promote now time => plainly jobId do let _ ← promoteDueRetries now time
  | .dispatch d => d.prog jobId maxRequeues settings

end

/-! ## The poller -/

/-- What one status check found: the engine's state, or why there was none. -/
inductive PollStatus where
  | queued
  | running
  | done
  | failed
  | error
  | unknown
  | unreachable
deriving DecidableEq

/-- What the poller does with a job after a status check. -/
inductive PollAction where
  | harvest
  | requeue
  | fail
  | running
deriving DecidableEq

/-- Decide what to do with a polled job. -/
def classifyPollResult (status : PollStatus) (retryable : Bool) (requeues : Int)
    (maxRequeues : Nat) : PollAction :=
  match status with
  | .done => .harvest
  | .failed | .error | .unreachable =>
    if retryable && requeues < maxRequeues then .requeue else .fail
  | .queued | .running | .unknown => .running

/-- What one poll of the job is given. -/
structure PollRound where
  now : ℚ
  status : PollStatus
  retryable : Bool
  run : EngineRun := {}
  error : String := ""
  stateTtl : Nat
  /-- Until the next poll, or the retry. -/
  delayS : ℚ
  /-- Whether the job's row is done by then. -/
  rowDone : Bool := false

/-- What came of a harvest of the job. -/
inductive HarvestRound where
  | stored (now : ℚ) (stateTtl : Nat)
  /-- It will be tried again. -/
  | unstored (now delayS : ℚ)
  /-- It failed for good. -/
  | lost (now : ℚ) (error : String) (stateTtl : Nat) (rowDone : Bool)

section

variable (jobId : JobId) (maxRequeues : Nat)

/-- The Redis part of the poller's `mark_failed`. -/
def pollerMarkFailed (now : ℚ) (state : JobState) (error : String) (stateTtl : Nat)
    (rowDone : Bool) : RedisProg Unit :=
  if rowDone then do let _ ← setDone now jobId stateTtl (some state)
  else do let _ ← setFailed now jobId error stateTtl

namespace PollRound

variable (d : PollRound)

/-- `_requeue_in_redis` -/
def requeueInRedis (state : JobState) : Prog Spending (Event ⊕ Int) Unit := do
  attend jobId (.putsFirst state.requeues)
    (releaseAndRequeue d.now jobId state.submittedAt d.stateTtl d.delayS state.backendId)
  attend jobId .counts (countRequeue jobId)

/-- The job's part of `process_chunk`. -/
def processChunk (state : JobState) : Prog Spending (Event ⊕ Int) Unit :=
  match classifyPollResult d.status d.retryable state.requeues maxRequeues with
  | .harvest => plainly jobId do let _ ← releaseDone d.now jobId state d.run
  | .requeue => d.requeueInRedis jobId state
  | .fail => plainly jobId (pollerMarkFailed jobId d.now state d.error d.stateTtl d.rowDone)
  | .running => plainly jobId (scheduleNextPoll jobId (d.now + d.delayS) d.now)

/-- The job's part of a batch of polls: its state is read, the engine asked, and the outcome
applied. -/
def prog : Prog Spending (Event ⊕ Int) Unit := do
  match ← plainly jobId (getJob jobId) with
  | none => pure ()
  | some state => d.processChunk jobId maxRequeues state

end PollRound

namespace HarvestRound

/-- The Redis part of `harvest`. -/
def harvest (state : JobState) : HarvestRound → RedisProg Unit
  | stored now stateTtl => do let _ ← setDone now jobId stateTtl (some state)
  | unstored now delayS => rescheduleHarvest now jobId delayS
  | lost now error stateTtl rowDone => pollerMarkFailed jobId now state error stateTtl rowDone

/-- The job's part of `_harvest_due`. -/
def prog (d : HarvestRound) : Prog Spending (Event ⊕ Int) Unit :=
  plainly jobId do
    match ← getJob jobId with
    | none => forgetHarvests [jobId]
    | some state => d.harvest jobId state

end HarvestRound

end

/-! ## Both workers -/

/-- Round after round. A round may raise after some commands; the worker goes on with the next
one, also when it was restarted. -/
def inRounds {ρ : Type} (body : ρ → Prog Spending (Event ⊕ Int) Unit) :
    List (Option Nat × ρ) → Prog Spending (Event ⊕ Int) Unit
  | [] => pure ()
  | (raises, round) :: rounds => do
    (body round).upTo raises
    inRounds body rounds

/-- The submit worker, and the two loops of the poller. -/
inductive Loop where
  | submit
  | poll
  | harvest
deriving DecidableEq

/-- What each loop does about the job. -/
structure Rounds where
  submit : List (Option Nat × SubmitRound)
  poll : List (Option Nat × PollRound)
  harvest : List (Option Nat × HarvestRound)

def Rounds.prog (rounds : Rounds) (jobId : JobId) (maxRequeues : Nat) (settings : Settings) :
    Loop → Prog Spending (Event ⊕ Int) Unit
  | .submit => inRounds (SubmitRound.prog jobId maxRequeues settings) rounds.submit
  | .poll => inRounds (PollRound.prog jobId maxRequeues) rounds.poll
  | .harvest => inRounds (HarvestRound.prog jobId) rounds.harvest

end Taas

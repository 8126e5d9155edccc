import Taas.Infra.Silent
import Taas.Properties.Rebuild

/-!
# The calls that move slots

The calls of `app/services/redis_jobs.py` that take and release the slots of a backend, and the
rebuild. Each of them has a copy that notes what its commands are about.

* `SlotStep` — what a command on the in-flight set, a job's backend or a counter is about.
* `SlotStep.Clean` — the stores in which it does what its call makes of it.
* `SlotCall.noted` — the copies; `silent_noted` — they are copies.
-/

namespace Taas

open Infra Infra.Prog

/-! ## The counters of a backend -/

/-- The backend's counters are right: the in-flight jobs on it, and their pages per batch. -/
def Redis.RightOn (r : Redis) (b : BackendId) : Prop :=
  r.backendInflight.value b = (r.jobsOn b).card ∧
    ∀ batchId, (r.backendBatches b).value batchId = (r.pagesOn b batchId).card

def Redis.Right (r : Redis) : Prop := ∀ b, r.RightOn b

/-- The batch that the job's hash names. -/
def Redis.batchOf (r : Redis) (jobId : JobId) : Option BatchId :=
  nonEmpty ((r.jobs.lookup jobId).bind fun h => h.batchId)

/-- The backend and the batch that the job's hash names. -/
def Redis.slotOf (r : Redis) (jobId : JobId) : Option (BackendId × Option BatchId) :=
  ((r.jobs.lookup jobId).bind fun h => h.backendId).map fun b => (b, r.batchOf jobId)

/-- The slot that `set_done`, `set_failed` and `release_and_requeue` count down for a job in this
state. -/
def leftSlot (state : Option JobState) : Option (BackendId × Option BatchId) :=
  (truthy (state.bind fun s => s.backendId)).map fun b => (b, state.bind fun s => s.batchId)

/-- The slot that `release_done` counts down. -/
def releasedSlot (state : JobState) : Option (BackendId × Option BatchId) :=
  state.backendId.map fun b => (b, nonEmpty state.batchId)

/-! ## What commands are about -/

inductive SlotStep where
  /-- `set_running` writes the backend to the hash. -/
  | dispatch (jobId : JobId) (backendId : BackendId)
  /-- `set_running` adds the job to the in-flight set. -/
  | enter (jobId : JobId) (backendId : BackendId)
  /-- `set_running` reads the state that it counts. -/
  | count (jobId : JobId)
  /-- A call that works from `state` takes the job off the in-flight set. -/
  | leave (jobId : JobId) (state : Option JobState)
  /-- The script of `release_done`. -/
  | release (jobId : JobId) (state : JobState)
  /-- The last page of a batch left the backend, and the batch is dropped. -/
  | dropBatch (backendId : BackendId) (batchId : BatchId)
  /-- `release_and_requeue` deletes the backend from the hash. -/
  | clear (jobId : JobId)
  /-- The script of a rebuild, for these backends and those with a job. -/
  | recount (backendIds : List BackendId)

/-- The store before a command that keeps the counters and the in-flight set together, with what
its call does after it. -/
def SlotStep.Clean (r : Redis) : SlotStep → Prop
  | dispatch jobId backendId =>
    jobId ∈ r.inflight → r.slotOf jobId = some (backendId, r.batchOf jobId)
  | enter jobId backendId =>
    jobId ∉ r.inflight → r.slotOf jobId = some (backendId, r.batchOf jobId)
  | count jobId => r.batchOf jobId = none ∨ (r.state jobId).isSome
  | leave jobId state => jobId ∈ r.inflight → r.slotOf jobId = leftSlot state
  | release jobId state => jobId ∈ r.inflight → r.slotOf jobId = releasedSlot state ∧
    ∀ b batchId, r.slotOf jobId = some (b, some batchId) → 1 ≤ (r.backendBatches b).value batchId
  | dropBatch backendId batchId => (r.backendBatches backendId).value batchId = 0
  | clear jobId => jobId ∈ r.inflight → r.slotOf jobId = none
  | recount backendIds => ∀ b, b ∈ backendIds ∨ (r.jobsOn b).Nonempty → r.RightOn b

/-! ## The calls, with notes -/

/-- A program of Redis commands that notes the ones on slots. -/
abbrev SlotProg (α : Type) := Prog Redis SlotStep α

/-- A command with a note. -/
def noting {β : Type} (step : SlotStep) (reply : Redis → β) (effect : Redis → Redis) : SlotProg β :=
  callLog (fun _ => [step]) reply effect

namespace Noted

def enteredInflight (jobId : JobId) (backendId : BackendId) : SlotProg Unit := do
  let state ← noting (.count jobId) (fun r => r.state jobId) id
  act (Redis.countRunning backendId state)

def setRunning (settings : Settings) (now : ℚ) (jobId : JobId) (engineJobId backendUrl : String)
    (backendId : BackendId) (stateTtl : Nat) : SlotProg Unit := do
  noting (.dispatch jobId backendId) (fun _ => ())
    (Redis.hset jobId (JobHash.running now settings engineJobId backendUrl backendId))
  act (Redis.expire jobId stateTtl)
  let added ← noting (.enter jobId backendId) (fun r => decide (jobId ∉ r.inflight))
    (Redis.saddInflight jobId)
  when added (enteredInflight jobId backendId)
  signalPoll.silent

def releaseBatch (backendId : BackendId) (state : Option JobState) : SlotProg Unit :=
  match state.bind fun s => s.batchId with
  | none => pure ()
  | some batchId => do
    let left ← call (fun r => (r.backendBatches backendId).value batchId - 1)
      (Redis.incrBatchPages backendId batchId (-1))
    when (left ≤ 0)
      (noting (.dropBatch backendId batchId) (fun _ => ())
        (Redis.hdelBatchPages backendId batchId))

def takeOff (jobId : JobId) (state : Option JobState) : SlotProg Bool :=
  noting (.leave jobId state) (fun r => decide (jobId ∈ r.inflight)) (Redis.sremInflight jobId)

def releaseDoneSlot (state : Option JobState) : SlotProg Unit := do
  match state with
  | none => pure ()
  | some state => act (Redis.incrLoadInflight (jobLoadField state) (-1))
  match truthy (state.bind fun s => s.backendId) with
  | none => pure ()
  | some backendId =>
    act (Redis.incrBackend backendId (-1))
    signalSubmit.silent
    releaseBatch backendId state

def settleDone (removed harvestRemoved : Bool) (state : Option JobState) : SlotProg Unit :=
  if removed then releaseDoneSlot state else when harvestRemoved signalSubmit.silent

def setDone (now : ℚ) (jobId : JobId) (stateTtl : Nat) (state : Option JobState) :
    SlotProg (Option (BatchId × BatchCounts)) := do
  let state ← (doneState jobId state).silent
  let batch ← (countBatchPage state .done).silent
  act (Redis.hset jobId (JobHash.finished now))
  act (Redis.expire jobId stateTtl)
  let removed ← takeOff jobId state
  let harvestRemoved ← call (fun r => (r.pendingHarvest.lookup jobId).isSome)
    (Redis.zremHarvest jobId)
  act (Redis.hmod jobId JobHash.clearHarvest)
  settleDone removed harvestRemoved state
  pure batch

def releaseSlot (removed : Bool) (state : Option JobState) : SlotProg Unit :=
  match truthy (state.bind fun s => s.backendId) with
  | none => pure ()
  | some backendId => when removed do
    act (Redis.incrBackend backendId (-1))
    releaseBatch backendId state

def setFailed (now : ℚ) (jobId : JobId) (error : String) (stateTtl : Nat) :
    SlotProg (Option (BatchId × BatchCounts)) := do
  let state ← (getJob jobId).silent
  let batch ← (countBatchPage state .failed).silent
  let harvestRemoved ← call (fun r => (r.pendingHarvest.lookup jobId).isSome)
    (Redis.markFailed now jobId error stateTtl)
  let removed ← takeOff jobId state
  (countFailed removed state).silent
  when harvestRemoved signalSubmit.silent
  releaseSlot removed state
  when (removed && (truthy (state.bind fun s => s.backendId)).isSome) signalSubmit.silent
  pure batch

def releaseDone (now : ℚ) (jobId : JobId) (state : JobState) (run : EngineRun) :
    SlotProg Bool := do
  let released ← noting (.release jobId state) (fun r => decide (jobId ∈ r.inflight))
    (Redis.releaseDone now jobId state run)
  when released signalSubmit.silent
  pure released

def releaseAndRequeue (now : ℚ) (jobId : JobId) (score : ℚ) (stateTtl : Nat) (delayS : ℚ)
    (avoidBackendId : Option BackendId) : SlotProg Unit := do
  let state ← (getJob jobId).silent
  let removed ← takeOff jobId state
  (countRequeued removed state).silent
  releaseSlot removed state
  act (Redis.hset jobId JobHash.queued)
  noting (.clear jobId) (fun _ => ()) (Redis.hmod jobId JobHash.clearDispatch)
  act (Redis.zremHarvest jobId)
  act (Redis.expire jobId stateTtl)
  (requeueReleased now jobId score delayS avoidBackendId state).silent

def rebuildBackendCounters : SlotProg Nat := do
  let backendIds ← query fun r => sorted (· ≤ ·) r.backendInflight.keys.val
  noting (.recount backendIds) (fun r => (r.rebuild backendIds).1)
    fun r => (r.rebuild backendIds).2

end Noted

/-- A call that moves slots, or a rebuild. -/
inductive SlotCall where
  | setRunning (settings : Settings) (now : ℚ) (jobId : JobId) (engineJobId backendUrl : String)
    (backendId : BackendId) (stateTtl : Nat)
  | setDone (now : ℚ) (jobId : JobId) (stateTtl : Nat) (state : Option JobState)
  | setFailed (now : ℚ) (jobId : JobId) (error : String) (stateTtl : Nat)
  | releaseDone (now : ℚ) (jobId : JobId) (state : JobState) (run : EngineRun)
  | releaseAndRequeue (now : ℚ) (jobId : JobId) (score : ℚ) (stateTtl : Nat) (delayS : ℚ)
    (avoidBackendId : Option BackendId)
  | rebuildBackendCounters

namespace SlotCall

def prog : SlotCall → RedisProg Unit
  | setRunning settings now jobId engineJobId backendUrl backendId stateTtl =>
    Taas.setRunning settings now jobId engineJobId backendUrl backendId stateTtl
  | setDone now jobId stateTtl state => (fun _ => ()) <$> Taas.setDone now jobId stateTtl state
  | setFailed now jobId error stateTtl =>
    (fun _ => ()) <$> Taas.setFailed now jobId error stateTtl
  | releaseDone now jobId state run => (fun _ => ()) <$> Taas.releaseDone now jobId state run
  | releaseAndRequeue now jobId score stateTtl delayS avoidBackendId =>
    Taas.releaseAndRequeue now jobId score stateTtl delayS avoidBackendId
  | rebuildBackendCounters => (fun _ => ()) <$> Taas.rebuildBackendCounters

def noted : SlotCall → SlotProg Unit
  | setRunning settings now jobId engineJobId backendUrl backendId stateTtl =>
    Noted.setRunning settings now jobId engineJobId backendUrl backendId stateTtl
  | setDone now jobId stateTtl state => (fun _ => ()) <$> Noted.setDone now jobId stateTtl state
  | setFailed now jobId error stateTtl =>
    (fun _ => ()) <$> Noted.setFailed now jobId error stateTtl
  | releaseDone now jobId state run => (fun _ => ()) <$> Noted.releaseDone now jobId state run
  | releaseAndRequeue now jobId score stateTtl delayS avoidBackendId =>
    Noted.releaseAndRequeue now jobId score stateTtl delayS avoidBackendId
  | rebuildBackendCounters => (fun _ => ()) <$> Noted.rebuildBackendCounters

end SlotCall

/-! ## The notes change nothing -/

variable {δ : Type}

@[simp] theorem silent_noting {β : Type} (step : SlotStep) (reply : Redis → β)
    (effect : Redis → Redis) :
    ((noting step reply effect).silent : Prog Redis δ β) = call reply effect := rfl

theorem silent_releaseBatch (b : BackendId) (state : Option JobState) :
    ((Noted.releaseBatch b state).silent : Prog Redis δ Unit) = (releaseBatch b state).silent := by
  unfold Noted.releaseBatch releaseBatch
  cases state.bind fun s => s.batchId <;> simp [act]

theorem silent_releaseDoneSlot (state : Option JobState) :
    ((Noted.releaseDoneSlot state).silent : Prog Redis δ Unit) =
      (releaseDoneSlot state).silent := by
  unfold Noted.releaseDoneSlot releaseDoneSlot
  cases state with
  | none => cases truthy _ <;> simp [silent_releaseBatch]
  | some s => cases truthy _ <;> simp [silent_releaseBatch]

theorem silent_settleDone (removed harvestRemoved : Bool) (state : Option JobState) :
    ((Noted.settleDone removed harvestRemoved state).silent : Prog Redis δ Unit) =
      (settleDone removed harvestRemoved state).silent := by
  unfold Noted.settleDone settleDone
  split
  · exact silent_releaseDoneSlot state
  · simp

theorem silent_releaseSlot (removed : Bool) (state : Option JobState) :
    ((Noted.releaseSlot removed state).silent : Prog Redis δ Unit) =
      (releaseSlot removed state).silent := by
  unfold Noted.releaseSlot releaseSlot
  cases truthy (state.bind fun s => s.backendId) <;> simp [silent_releaseBatch]

/-- **The copy with notes does what the call does.** -/
theorem SlotCall.silent_noted (c : SlotCall) :
    (c.noted.silent : Prog Redis δ Unit) = c.prog.silent := by
  cases c with
  | setRunning settings now jobId engineJobId backendUrl backendId stateTtl =>
    simp [noted, prog, Noted.setRunning, Taas.setRunning, Noted.enteredInflight, enteredInflight,
      getJob, query, act]
  | setDone now jobId stateTtl state =>
    simp [noted, prog, Noted.setDone, Taas.setDone, Noted.takeOff, silent_settleDone]
  | setFailed now jobId error stateTtl =>
    simp [noted, prog, Noted.setFailed, Taas.setFailed, Noted.takeOff, silent_releaseSlot]
  | releaseDone now jobId state run => simp [noted, prog, Noted.releaseDone, Taas.releaseDone]
  | releaseAndRequeue now jobId score stateTtl delayS avoidBackendId =>
    simp [noted, prog, Noted.releaseAndRequeue, Taas.releaseAndRequeue, giveUpSlot, backToQueue,
      Noted.takeOff, silent_releaseSlot, act]
  | rebuildBackendCounters =>
    simp [noted, prog, Noted.rebuildBackendCounters, Taas.rebuildBackendCounters]

end Taas

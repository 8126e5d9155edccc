import Mathlib.Data.List.Perm.Basic

/-!
# The poller's sliding window

`drain_poll_queue` (`app/workers/poller/steps.py`) as it runs on an event loop: between two of
its own steps checks complete, somebody sets `stop`, or the caller is cancelled.

* `Drain` — the coroutine's variables, and where it is suspended.
* `Drain.Step` — what can happen next.
* `drainPollQueue` — up to the first suspension.
-/

namespace Taas

/-- How a status check ended. -/
inductive CheckResult (ω : Type) where
  | returned (outcome : ω)
  | raised
  /-- `CancelledError`, which is no `Exception`. -/
  | cancelled

/-- The future of one status check. -/
structure Check (ι ω : Type) where
  jobId : ι
  result : Option (CheckResult ω) := none
  /-- Whether `cancel()` was called on it. -/
  cancelRequested : Bool := false

/-- How the coroutine ended. -/
inductive DrainExit where
  | returned
  | raised
  | cancelled
deriving DecidableEq

/-- Where the coroutine is. -/
inductive DrainPhase where
  /-- In `asyncio.wait(active)`. -/
  | waiting
  /-- In `process(statuses)`. -/
  | processing
  /-- In the `gather` of `_cancel_checks`. -/
  | cancelling (exit : DrainExit)
  | over (exit : DrainExit)
deriving DecidableEq

structure Drain (ι ω : Type) where
  /-- What the iterator has left. -/
  pending : List ι
  active : List (Check ι ω) := []
  phase : DrainPhase := .waiting
  stop : Bool
  /-- The ids `check` was called with, in this order. -/
  started : List ι := []
  /-- The checks that ended, in this order. -/
  finished : List (ι × CheckResult ω) := []
  /-- What `process` was called with. -/
  handed : List ω := []

variable {ι ω : Type}

def Check.isDone (c : Check ι ω) : Bool := c.result.isSome

/-- The outcome of a check that did not raise. -/
def CheckResult.outcome : CheckResult ω → Option ω
  | returned outcome => some outcome
  | raised | cancelled => none

/-- The outcomes of finished checks; a check that raised is left out. `none` when one of them
was cancelled, whose `result()` is not caught. -/
def completedChecks : List (Check ι ω) → Option (List ω)
  | [] => some []
  | c :: completed =>
    match c.result with
    | some (.returned outcome) => (completedChecks completed).map fun statuses => outcome :: statuses
    | some .cancelled => none
    | some .raised | none => completedChecks completed

namespace Drain

/-- `check(job_id)` for the next id of the iterator. -/
def start (jobId : ι) (rest : List ι) (d : Drain ι ω) : Drain ι ω :=
  { d with
    pending := rest
    active := d.active ++ [{ jobId := jobId }]
    started := d.started ++ [jobId] }

/-- The loop of `fill_slots`, over what the iterator has left. -/
def fillFrom (concurrency : Nat) : List ι → Drain ι ω → Drain ι ω
  | [], d => d
  | jobId :: rest, d =>
    if d.active.length < concurrency && !d.stop then fillFrom concurrency rest (d.start jobId rest)
    else d

def fillSlots (concurrency : Nat) (d : Drain ι ω) : Drain ι ω := d.fillFrom concurrency d.pending

/-- `_cancel_checks`, up to its `gather`. -/
def cancelChecks (exit : DrainExit) (d : Drain ι ω) : Drain ι ω :=
  { d with
    active := d.active.map fun c => { c with cancelRequested := true }
    phase := if d.active.isEmpty then .over exit else .cancelling exit }

/-- The head of the loop: wait for the active checks, or leave when there are none. -/
def loop (d : Drain ι ω) : Drain ι ω :=
  if d.active.isEmpty then d.cancelChecks .returned else { d with phase := .waiting }

def process (statuses : List ω) (d : Drain ι ω) : Drain ι ω :=
  { d with handed := d.handed ++ statuses, phase := .processing }

/-- `active.difference_update(completed)` -/
def dropDone (d : Drain ι ω) : Drain ι ω := { d with active := d.active.filter fun c => !c.isDone }

/-- From the end of `asyncio.wait` to the next suspension. -/
def resume (concurrency : Nat) (completed : List (Check ι ω)) (d : Drain ι ω) : Drain ι ω :=
  match completedChecks completed with
  | none => d.dropDone.cancelChecks .cancelled
  | some statuses =>
    let d := d.dropDone.fillSlots concurrency
    if statuses.isEmpty then d.loop else d.process statuses

/-- What can happen next. -/
inductive Step (concurrency : Nat) : Drain ι ω → Drain ι ω → Prop
  /-- A check ends. -/
  | complete {d : Drain ι ω} {before after : List (Check ι ω)} {jobId : ι} {cancelRequested : Bool}
      (result : CheckResult ω) (h : d.active = before ++ ⟨jobId, none, cancelRequested⟩ :: after) :
      Step concurrency d
        { d with
          active := before ++ ⟨jobId, some result, cancelRequested⟩ :: after
          finished := d.finished ++ [(jobId, result)] }
  /-- `asyncio.wait` returns the set of the checks that ended by then. -/
  | wake {d : Drain ι ω} {completed : List (Check ι ω)} (hphase : d.phase = .waiting)
      (hcompleted : completed.Perm (d.active.filter Check.isDone)) (hne : completed ≠ []) :
      Step concurrency d (d.resume concurrency completed)
  | processed {d : Drain ι ω} (hphase : d.phase = .processing) : Step concurrency d d.loop
  | processRaised {d : Drain ι ω} (hphase : d.phase = .processing) :
      Step concurrency d (d.cancelChecks .raised)
  /-- `CancelledError` at the `await` the coroutine is in. -/
  | cancel {d : Drain ι ω} (hphase : d.phase = .waiting ∨ d.phase = .processing) :
      Step concurrency d (d.cancelChecks .cancelled)
  | setStop {d : Drain ι ω} : Step concurrency d { d with stop := true }
  /-- `CancelledError` at the `gather`, which still waits for all of them. -/
  | cancelAgain {d : Drain ι ω} {exit : DrainExit} (hphase : d.phase = .cancelling exit) :
      Step concurrency d { d with phase := .cancelling .cancelled }
  /-- The `gather` has all its checks. -/
  | awaited {d : Drain ι ω} {exit : DrainExit} (hphase : d.phase = .cancelling exit)
      (hdone : ∀ c ∈ d.active, c.isDone = true) :
      Step concurrency d { d with phase := .over exit }

end Drain

/-- Status-check `due` with a sliding window of at most `concurrency` in flight. -/
def drainPollQueue (due : List ι) (concurrency : Nat) (stop : Bool) :
    Except String (Drain ι ω) :=
  if concurrency < 1 then .error "poller poll concurrency must be at least 1"
  else .ok (Drain.fillSlots concurrency { pending := due, stop := stop }).loop

end Taas

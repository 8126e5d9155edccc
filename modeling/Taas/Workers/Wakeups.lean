import Taas.Infra.Bells
import Taas.System

/-!
# The workers' wakeup lists

`signal_submit`, `wait_for_submit_signal` and their siblings for the poller in
`app/services/redis_jobs.py`, and the loops that wait (`run` of `app/workers/submit/worker.py` and
of `app/workers/poller/worker.py`).

* `submitBell` — `jobs:submit_wakeup`. Work for it is a job put on a pending queue.
* `pollBell` — `jobs:poll_wakeup`. Work for it is a job that entered the in-flight set.
* `Hand` — who has to do with a list: workers, callers of state functions, and the time.
-/

namespace Taas

open Infra Infra.Prog

def submitWakeupTtlSeconds : ℚ := 60

def pollWakeupTtlSeconds : ℚ := 60

def Event.isPut : Event → Bool
  | put _ => true
  | _ => false

def submitBell : Bell Redis Event where
  tokens r := r.submitWakeup
  put n r := { r with submitWakeup := n }
  tokens_put _ _ := rfl
  work _ _ log := log.any Event.isPut
  ttl := submitWakeupTtlSeconds

def pollBell : Bell Redis Event where
  tokens r := r.pollWakeup
  put n r := { r with pollWakeup := n }
  tokens_put _ _ := rfl
  work r r' _ := !decide (r'.inflight ⊆ r.inflight)
  ttl := pollWakeupTtlSeconds

/-- A program of Redis with a clock, and with the time to live of a wakeup list. -/
abbrev TimedProg (α : Type) := Prog (Timed Redis) (Chime Event) α

/-- Block until a wakeup token arrives or `timeout` elapses, then drain the backlog. -/
def waitForSubmitSignal (timeout : ℚ) : TimedProg Unit := submitBell.waitForSignal timeout

/-- The same for the poller; a non-positive timeout is not to wait. -/
def waitForPollSignal (timeout : ℚ) : TimedProg Unit :=
  if timeout ≤ 0 then pure () else pollBell.waitForSignal timeout

/-! ## Who has to do with a list -/

section

variable (b : Bell Redis Event) (claimGraceS : ℚ)

/-- One call of a state function, at its time. -/
def callAction (a : Action) : TimedProg Unit := do
  let now ← query fun t => t.now
  (fun _ => ()) <$> b.timed (a.prog claimGraceS now)

def callActions : List Action → TimedProg Unit
  | [] => pure ()
  | a :: as => do
    callAction b claimGraceS a
    callActions as

/-- A pass of a worker: its calls, and how long it waits after them. -/
def passRound (calls : List Action) (timeout : ℚ) : TimedProg ℚ := do
  callActions b claimGraceS calls
  pure timeout

inductive Hand where
  /-- A worker, with the calls of each pass and the time to wait after it. -/
  | worker (passes : List (List Action × ℚ))
  /-- A request, another worker or the reaper. -/
  | caller (calls : List Action)
  | clock (durations : List ℚ)

def Hand.prog (wait : ℚ → TimedProg Unit) : Hand → TimedProg Unit
  | worker passes => Bell.worker wait (passes.map fun p => passRound b claimGraceS p.1 p.2)
  | caller calls => callActions b claimGraceS calls
  | clock durations => b.clock durations

def Hand.isWorker : Hand → Bool
  | worker _ => true
  | _ => false

/-- Time does not go back. -/
def Hand.Forward : Hand → Prop
  | clock durations => ∀ d ∈ durations, 0 ≤ d
  | _ => True

/-- Everybody at the start. -/
def handsPool {ι : Type} (wait : ℚ → TimedProg Unit) (hands : ι → Option Hand)
    (t : Timed Redis) : Pool (Timed Redis) (Chime Event) ι where
  shared := t
  procs i := (hands i).map fun hand => hand.prog b claimGraceS wait
  history := []

end

end Taas

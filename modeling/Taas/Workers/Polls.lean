import Taas.Services.RedisJobs

/-!
# When a running job is polled next

`next_poll_delay` of `app/workers/poller/steps.py` and `_schedule_next_poll` of
`app/workers/poller/worker.py`.

* `nextPollDelay` — the backoff, from the hash's last gap.
* `scheduleRunning` — a job found running.
* `checkWhenDue` — a status check at the job's `next_poll_at`.
-/

namespace Taas

open Infra Infra.Prog

/-- `value or now`: zero is no time. -/
def orNow (value : Option ℚ) (now : ℚ) : ℚ := (value.filter fun t => t ≠ 0).getD now

/-- How long until a still-running job's next status check: double the last gap, within
`[initial, cap]`. -/
def nextPollDelay (state : JobState) (now initial cap : ℚ) : ℚ :=
  let current := orNow state.nextPollAt now - orNow state.lastPoll now
  min (max (current * 2) initial) cap

/-- Back off the next status check; by how long. -/
def scheduleRunning (settings : Settings) (pollBackoffMax now : ℚ) (jobId : JobId)
    (state : JobState) : RedisProg ℚ := do
  let delay := nextPollDelay state now settings.pollBackoffInitial pollBackoffMax
  scheduleNextPoll jobId (now + delay) now
  pure delay

/-- A status check, made exactly when it is due, that finds the job still running; by how long the
next one is put off. -/
def checkWhenDue (settings : Settings) (pollBackoffMax : ℚ) (jobId : JobId) :
    RedisProg (Option ℚ) := do
  match ← getJob jobId with
  | none => pure none
  | some state =>
    let delay ← scheduleRunning settings pollBackoffMax (state.nextPollAt.getD 0) jobId state
    pure (some delay)

end Taas

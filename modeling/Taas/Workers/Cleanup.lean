import Taas.Workers.Rows

/-!
# The cleanup worker

`requeue_lost_jobs` of `app/workers/cleanup.py`.
-/

namespace Taas

open Infra Infra.Prog

/-- `ORPHAN_SCAN_LIMIT` -/
def orphanScanLimit : Nat := 10000

/-- `ORPHAN_MIN_AGE`, in seconds. -/
def orphanMinAge : ℚ := 60

/-- What `requeue_orphans` takes for the claim grace when it is not told, in seconds. -/
def orphanClaimGrace : ℚ := 300

variable {ι : Type} [DecidableEq ι] (i : ι)

/-- The jobs whose rows are queued and older than `cutoff`. -/
def Postgres.queuedBefore (cutoff : ℚ) (db : Postgres ι) : List JobId :=
  (sorted (· ≤ ·) db.jobs.rows.val).filter fun k =>
    (db.jobs.sees i k).status = .queued ∧ (db.jobs.sees i k).submittedAt < cutoff

/-- `SELECT id FROM jobs WHERE status = 'queued' AND submitted_at < … LIMIT …`: `limited` is what
the database returns of them. -/
def selectQueued (cutoff : ℚ) (limited : List JobId → List JobId) : DbProg ι (List JobId) :=
  query fun db => limited (db.queuedBefore i cutoff)

/-- Put back on their queue the queued jobs that are in none; how many they were. `now` is the
cutoff's clock, and `time` the one that `requeue_orphans` gets. -/
def requeueLostJobs (now time : ℚ) (limited : List JobId → List JobId) : WorkerProg ι Nat := do
  let ids ← onDb i (selectQueued i (now - orphanMinAge) limited)
  let requeued ← onRedis i (requeueOrphans ids time orphanClaimGrace)
  pure requeued.length

end Taas

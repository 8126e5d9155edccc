import Taas.Services.RedisJobs

/-!
# Recounting the backend counters

The repair of `app/services/redis_jobs.py`: the counters of a backend move in their own steps,
so a crash leaves one off, and a rebuild counts the in-flight jobs anew.

* `Redis.rebuild` — the script.
* `rebuildBackendCounters` — the call.
-/

namespace Taas

open Infra Infra.Prog

/-- What the script counts: the in-flight jobs of each backend, and the pages of each batch on
it. -/
structure BackendTally where
  inflight : Counter BackendId := ∅
  batches : BackendId → Counter BatchId := fun _ => ∅

namespace BackendTally

/-- One more page of the job's batch on the backend. -/
def addPage (b : BackendId) (batchId : Option BatchId) (t : BackendTally) : BackendTally :=
  match nonEmpty batchId with
  | none => t
  | some batchId =>
    { t with batches := Function.update t.batches b ((t.batches b).incrBy batchId 1) }

/-- The body of the first loop: `HMGET job:<id> backend_id batch_id`. -/
def add (t : BackendTally) (h : Option JobHash) : BackendTally :=
  match h.bind fun h => h.backendId with
  | none => t
  | some b => addPage b (h.bind fun h => h.batchId) { t with inflight := t.inflight.incrBy b 1 }

/-- `if not inflight[b] then inflight[b] = 0 end` -/
def zero (t : BackendTally) (b : BackendId) : BackendTally :=
  if (t.inflight.lookup b).isNone then { t with inflight := t.inflight.insert b 0 } else t

end BackendTally

/-- The first loop, over `SMEMBERS jobs:inflight`. -/
def Redis.tallyBackends (r : Redis) : BackendTally :=
  (sorted (· ≤ ·) r.inflight.val).foldl (fun t jobId => t.add (r.jobs.lookup jobId)) {}

/-- `SET backend:<b>:inflight`; `DEL backend:<b>:batches` and an `HSET` of each batch. -/
def Redis.setBackend (b : BackendId) (n : Int) (pages : Counter BatchId) (r : Redis) : Redis :=
  { r with
    backendInflight := r.backendInflight.insert b n
    backendBatches := Function.update r.backendBatches b pages }

/-- The body of the last loop; the counters that were wrong so far come with it. -/
def Redis.recount (t : BackendTally) (fixed : Nat × Redis) (b : BackendId) : Nat × Redis :=
  let n := t.inflight.value b
  (if fixed.2.backendInflight.value b ≠ n then fixed.1 + 1 else fixed.1,
    fixed.2.setBackend b n (t.batches b))

/-- `_REBUILD_BACKEND_COUNTERS_LUA` -/
def Redis.rebuild (backendIds : List BackendId) (r : Redis) : Nat × Redis :=
  let t := backendIds.foldl BackendTally.zero r.tallyBackends
  (sorted (· ≤ ·) t.inflight.keys.val).foldl (Redis.recount t) (0, r)

/-- Recount each backend's in-flight slots (and batch pages, for affinity) from the in-flight
jobs. Returns how many backends were off. -/
def rebuildBackendCounters : RedisProg Nat := do
  let backendIds ← query fun r => sorted (· ≤ ·) r.backendInflight.keys.val
  call (fun r => (r.rebuild backendIds).1) fun r => (r.rebuild backendIds).2

end Taas

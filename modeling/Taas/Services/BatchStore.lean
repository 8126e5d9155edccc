import Taas.Models.Db
import Taas.Schemas.Redis

/-!
# The batch state changes the workers make

`app/services/batch_store.py`: `finish_if_done` and `finish_stalled`.
-/

namespace Taas

open Infra Infra.Prog

variable {ι : Type} [DecidableEq ι] (i : ι)

namespace Postgres

/-- Whether transaction `i` sees a page of the batch that is queued, running or storing. -/
def hasActivePage (i : ι) (batchId : BatchId) (db : Postgres ι) : Bool :=
  decide (∃ k ∈ db.jobs.rows,
    (db.jobs.sees i k).batchId = some batchId ∧ (db.jobs.sees i k).status.isActive = true)

/-- Whether `i` sees the batch, queued. -/
def batchQueued (i : ι) (batchId : BatchId) (db : Postgres ι) : Bool :=
  batchId ∈ db.batches.rows && (db.batches.sees i batchId).status = .queued

def writeFinished (i : ι) (batchId : BatchId) (now : ℚ) (db : Postgres ι) : Postgres ι :=
  { db with
    batches := db.batches.write i batchId
      { db.batches.sees i batchId with status := .finished, finishedAt := some now } }

end Postgres

/-- `_LOCK` -/
def lockBatch (batchId : BatchId) : DbProg ι Unit :=
  await (fun db => batchId ∉ db.batches.rows || db.batches.free i batchId) (fun _ => [])
    (fun _ => ())
    fun db => if batchId ∈ db.batches.rows then
      { db with batches := db.batches.lock i batchId } else db

/-- `_FINISH` -/
def finish (now : ℚ) (batchId : BatchId) : DbProg ι Unit :=
  await (fun db => !(db.batchQueued i batchId && !db.hasActivePage i batchId) ||
      db.batches.free i batchId) (fun _ => []) (fun _ => ())
    fun db => if db.batchQueued i batchId && !db.hasActivePage i batchId then
      db.writeFinished i batchId now else db

/-- Mark the batch finished once none of its pages is active. The batch row is locked first;
the caller commits. -/
def finishIfDone (now : ℚ) (batchId : Option BatchId) : DbProg ι Unit :=
  match nonEmpty batchId with
  | none => pure ()
  | some batchId => do
    lockBatch i batchId
    finish i now batchId

/-- The rows that `_FINISH_STALLED` picked, one after another. Each may have to wait for its
lock, and is looked at again then. -/
def finishStalledBatches (now : ℚ) : List BatchId → DbProg ι Unit
  | [] => pure ()
  | batchId :: batchIds => do
    await (fun db => !db.batchQueued i batchId || db.batches.free i batchId) (fun _ => [])
      (fun _ => ())
      fun db => if db.batchQueued i batchId then db.writeFinished i batchId now else db
    finishStalledBatches now batchIds

/-- Finish every queued batch with no page left to run. The pages are looked at when the
statement starts; `batchIds` is the order in which it comes to the batches. -/
def finishStalled (now : ℚ) (batchIds : List BatchId) : DbProg ι Unit := do
  let stalled ← query fun db => batchIds.filter fun batchId =>
    db.batchQueued i batchId && !db.hasActivePage i batchId
  finishStalledBatches i now stalled
  commit i

end Taas

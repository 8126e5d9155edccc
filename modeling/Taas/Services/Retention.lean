import Taas.Models.Catalog
import Taas.Services.BatchArchive

/-!
# Retention

`delete_expired_batches` and `evict_results` of `app/services/retention.py`, with the rows of
`job_results` and the results bucket that they empty.

* `Shelf` — the tables and the bucket; `Vault` — with the columns that the storage cap is about.
* `batchExpired` — when a finished batch goes.
* `deleteExpiredBatches` — the sweep of the batches.
* `planEviction` — what goes when too much is stored.
* `evictResults` — the sweep of the results.
-/

namespace Taas

open Infra Infra.Prog

/-- `DELETE_BATCH` -/
def deleteBatchSize : Nat := 1000

/-- A row of `job_results`. -/
structure ResultRow where
  jobId : JobId
  fmt : Text
  evictedAt : Option ℚ := none
deriving DecidableEq

/-- An object of the results bucket. -/
inductive ResultPath where
  /-- `_object`: `<username>/<job id>.<ext>.zst` -/
  | output (username : String) (jobId : JobId) (ext : Text)
  /-- `batch_archive_path`, and whether it is the one still being written. -/
  | archive (username : String) (batchId : BatchId) (unfinished : Bool)
deriving DecidableEq

structure Shelf (ι : Type) where
  catalog : Catalog ι
  results : List ResultRow := []
  /-- The objects in the results bucket. -/
  objects : Finset ResultPath := ∅

/-- A program of the retention sweeps. -/
abbrev ShelfProg (ι α : Type) := Prog (Shelf ι) Filed α

/-- What the sweep reads of a finished batch. -/
structure FinishedBatch where
  id : BatchId
  username : String
  finishedAt : ℚ
  anyFailed : Bool
deriving DecidableEq

/-- A finished batch goes after the done TTL, or the failed TTL if any page failed. -/
def batchExpired (finishedAt : ℚ) (anyFailed : Bool) (now : ℚ) (doneTtl failedTtl : Int) : Bool :=
  finishedAt < now - (if anyFailed then failedTtl else doneTtl : Int)

variable {ι : Type} [DecidableEq ι] (i : ι)

/-- Whether a page of the batch failed. -/
def Postgres.anyFailed (batchId : BatchId) (db : Postgres ι) : Bool :=
  decide (∃ k ∈ db.jobs.rows, (db.jobs.sees i k).batchId = some batchId ∧
    (db.jobs.sees i k).status = .failed)

/-- The finished batches that finished before `cutoff`. -/
def Catalog.finishedBefore (cutoff : ℚ) (c : Catalog ι) : List FinishedBatch :=
  (sorted (· ≤ ·) c.db.batches.rows.val).filterMap fun batchId =>
    match (c.db.batches.sees i batchId).finishedAt with
    | none => none
    | some finishedAt =>
      if (c.db.batches.sees i batchId).status = .finished ∧ finishedAt < cutoff then
        some ⟨batchId, (c.batches.sees i batchId).username, finishedAt, c.db.anyFailed i batchId⟩
      else none

/-- `SELECT … FROM batches WHERE … ORDER BY finished_at LIMIT …`: `limited` is what the database
returns of them. -/
def selectFinished (cutoff : ℚ) (limited : List FinishedBatch → List FinishedBatch) :
    ShelfProg ι (List FinishedBatch) :=
  query fun s => limited (s.catalog.finishedBefore i cutoff)

/-- The result rows of the batch's pages. -/
def Shelf.batchResults (batchId : BatchId) (s : Shelf ι) : List ResultRow :=
  s.results.filter fun row => row.jobId ∈ s.catalog.db.jobs.rows ∧
    (s.catalog.db.jobs.sees i row.jobId).batchId = some batchId

/-- The objects of an expired batch: its pages' results that were not evicted, and its archives. -/
def Shelf.batchPaths (batch : FinishedBatch) (s : Shelf ι) : List ResultPath :=
  ((s.batchResults i batch.id).filter fun row => row.evictedAt = none).map (fun row =>
    .output batch.username row.jobId (extFor row.fmt)) ++
  [.archive batch.username batch.id false, .archive batch.username batch.id true]

/-- A `delete_objects` for each chunk of paths. -/
def deleteChunks : List (List ResultPath) → ShelfProg ι Unit
  | [] => pure ()
  | paths :: chunks => do
    act fun s => { s with objects := s.objects.filter (· ∉ paths) }
    deleteChunks chunks

/-- `DELETE FROM job_results WHERE job_id IN (SELECT id FROM jobs WHERE batch_id = …)` -/
def Shelf.deleteResults (batchId : BatchId) (s : Shelf ι) : Shelf ι :=
  { s with results := s.results.filter (· ∉ s.batchResults i batchId) }

/-- One expired batch goes, with all that is stored of it. -/
def deleteBatch (batch : FinishedBatch) : ShelfProg ι Unit := do
  let paths ← query (Shelf.batchPaths i batch)
  deleteChunks (paths.toChunks deleteBatchSize)
  act (Shelf.deleteResults i batch.id)
  act fun s => { s with catalog := s.catalog.deleteBatch i batch.id }
  act fun s => { s with catalog := s.catalog.commit i }

def deleteBatches : List FinishedBatch → ShelfProg ι Unit
  | [] => pure ()
  | batch :: batches => do
    deleteBatch i batch
    deleteBatches batches

/-- Delete finished batches past their TTL; how many went. -/
def deleteExpiredBatches (now : ℚ) (doneTtl failedTtl : Int)
    (limited : List FinishedBatch → List FinishedBatch) : ShelfProg ι Nat := do
  let finished ← selectFinished i (now - (min doneTtl failedTtl : Int)) limited
  let expired := finished.filter fun batch =>
    batchExpired batch.finishedAt batch.anyFailed now doneTtl failedTtl
  deleteBatches i expired
  pure expired.length

/-! ## Results past the max age or over the storage cap -/

/-- `MAX_BATCHES_PER_TICK` -/
def maxBatchesPerTick : Nat := 20

/-- `EVICT_TO` -/
def evictTo : ℚ := 9 / 10

/-- The walk of `plan_eviction`: what goes until the usage is down at the target. -/
def evictDown {K : Type} (target : ℚ) : List (K × Int) → Int → List K
  | [], _ => []
  | (key, size) :: rest, usedBytes =>
    if usedBytes ≤ target then [] else key :: evictDown target rest (usedBytes - size)

/-- Which results to evict, oldest first; nothing goes while usage is within the cap. -/
def planEviction {K : Type} (oldestFirst : List (K × Int)) (usedBytes capBytes : Int) : List K :=
  if usedBytes ≤ capBytes then [] else evictDown (capBytes * evictTo) oldestFirst usedBytes

/-- The shelf with the columns that only this sweep reads and writes. -/
structure Vault (ι : Type) where
  shelf : Shelf ι
  /-- `job_results.size_bytes`, by primary key. -/
  sizeBytes : JobId × Text → Option Int
  presignedUrl : JobId × Text → Option String
  /-- `batches.archive_size_bytes` -/
  archiveSizeBytes : BatchId → Option Int

abbrev VaultProg (ι α : Type) := Prog (Vault ι) Filed α

def ResultRow.key (row : ResultRow) : JobId × Text := (row.jobId, row.fmt)

/-- A live result joined with its job. The queries filter and order by `storedAt`. -/
structure LiveResult where
  jobId : JobId
  fmt : Text
  username : String
  sizeBytes : Option Int
  storedAt : Option ℚ
deriving DecidableEq

/-- A batch archive. The queries filter and order by `builtAt`. -/
structure BuiltArchive where
  batchId : BatchId
  username : String
  sizeBytes : Option Int
  builtAt : ℚ
deriving DecidableEq

namespace Vault

variable (s : Vault ι)

/-- The rows of `job_results` with `evicted_at IS NULL`, joined with `jobs`. -/
def liveResults : List LiveResult :=
  s.shelf.results.filterMap fun row =>
    if row.evictedAt = none ∧ row.jobId ∈ s.shelf.catalog.db.jobs.rows then
      let job := s.shelf.catalog.db.jobs.sees i row.jobId
      some ⟨row.jobId, row.fmt, job.username, s.sizeBytes row.key, job.storedAt⟩
    else none

/-- The rows of `batches` with `archive_built_at IS NOT NULL`. -/
def builtArchives : List BuiltArchive :=
  (sorted (· ≤ ·) s.shelf.catalog.batches.rows.val).filterMap fun batchId =>
    let batch := s.shelf.catalog.batches.sees i batchId
    batch.archiveBuiltAt.map fun builtAt =>
      ⟨batchId, batch.username, s.archiveSizeBytes batchId, builtAt⟩

def agedResults (cutoff : ℚ) : List LiveResult :=
  (s.liveResults i).filter fun r => r.storedAt.any fun t => t < cutoff

def newerResults (cutoff : ℚ) : List LiveResult :=
  (s.liveResults i).filter fun r => r.storedAt.any fun t => cutoff ≤ t

def agedArchives (cutoff : ℚ) : List BuiltArchive :=
  (s.builtArchives i).filter fun a => a.builtAt < cutoff

def newerArchives (cutoff : ℚ) : List BuiltArchive :=
  (s.builtArchives i).filter fun a => cutoff ≤ a.builtAt

/-- `SELECT coalesce(sum(size_bytes), 0) FROM job_results WHERE evicted_at IS NULL` -/
def storedBytes : Int :=
  ((s.shelf.results.filter fun row => row.evictedAt = none).map fun row =>
    (s.sizeBytes row.key).getD 0).sum

/-- The same of the archives. -/
def storedArchiveBytes : Int :=
  ((s.builtArchives i).map fun a => a.sizeBytes.getD 0).sum

/-- `UPDATE job_results SET evicted_at = …, presigned_url = NULL WHERE job_id = … AND fmt = …` -/
def markEvicted (now : ℚ) (key : JobId × Text) (s : Vault ι) : Vault ι :=
  { s with
    shelf := { s.shelf with
      results := s.shelf.results.map fun row =>
        if row.key = key then { row with evictedAt := some now } else row }
    presignedUrl := Function.update s.presignedUrl key none }

/-- `UPDATE batches SET archive_built_at = NULL, archive_size_bytes = NULL WHERE id IN (…)` -/
def clearArchives (batchIds : List BatchId) (s : Vault ι) : Vault ι :=
  { s with
    shelf := { s.shelf with
      catalog := batchIds.foldl (fun c batchId => c.updateBatch i batchId id fun columns =>
        { columns with archiveBuiltAt := none }) s.shelf.catalog }
    archiveSizeBytes := fun batchId =>
      if batchId ∈ batchIds then none else s.archiveSizeBytes batchId }

end Vault

/-- What may go over the cap, as the tuples of `candidates`. -/
inductive Candidate where
  | archive (batchId : BatchId) (username : String)
  | result (jobId : JobId) (fmt : Text) (username : String)
deriving DecidableEq

namespace Candidate

def result? : Candidate → Option (JobId × Text × String)
  | result jobId fmt username => some (jobId, fmt, username)
  | archive _ _ => none

def archive? : Candidate → Option (BatchId × String)
  | archive batchId username => some (batchId, username)
  | result _ _ _ => none

end Candidate

def LiveResult.size (r : LiveResult) : Int := r.sizeBytes.getD 0

def BuiltArchive.size (a : BuiltArchive) : Int := a.sizeBytes.getD 0

def LiveResult.candidate (r : LiveResult) : Candidate × Int :=
  (.result r.jobId r.fmt r.username, r.size)

def BuiltArchive.candidate (a : BuiltArchive) : Candidate × Int :=
  (.archive a.batchId a.username, a.size)

/-- What the database returns of the rows of the four limited queries. -/
structure EvictAnswers where
  aged : List LiveResult → List LiveResult
  agedArchives : List BuiltArchive → List BuiltArchive
  newerArchives : List BuiltArchive → List BuiltArchive
  oldest : List LiveResult → List LiveResult

/-- What goes because too much is stored, after `aged` and `agedArchives` went. -/
def planOverCap (cutoff : ℚ) (cap : Option Int) (answers : EvictAnswers) (aged : List LiveResult)
    (agedArchives : List BuiltArchive) : VaultProg ι (List Candidate) :=
  match cap with
  | none => pure []
  | some cap => do
    let stored ← query Vault.storedBytes
    let storedArchives ← query (Vault.storedArchiveBytes i)
    let used := stored + storedArchives - (aged.map LiveResult.size).sum -
      (agedArchives.map BuiltArchive.size).sum
    if cap < used then do
      let newerArchives ← query fun s => answers.newerArchives (s.newerArchives i cutoff)
      let oldest ← query fun s => answers.oldest (s.newerResults i cutoff)
      let candidates := newerArchives.map BuiltArchive.candidate ++
        oldest.map LiveResult.candidate
      pure (planEviction candidates used cap)
    else pure []

/-- The objects of what is evicted. -/
def evictedPaths (evict : List (JobId × Text × String)) (evictArchives : List (BatchId × String)) :
    List ResultPath :=
  evict.map (fun (jobId, fmt, username) => .output username jobId (extFor fmt)) ++
    evictArchives.map fun (batchId, username) => .archive username batchId false

/-- An `UPDATE` for each evicted result. -/
def markResults (now : ℚ) : List (JobId × Text × String) → VaultProg ι Unit
  | [] => pure ()
  | (jobId, fmt, _) :: evict => do
    act (Vault.markEvicted now (jobId, fmt))
    markResults now evict

/-- What is to go goes: the objects, then their marks. -/
def removeEvicted (now : ℚ) (evict : List (JobId × Text × String))
    (evictArchives : List (BatchId × String)) : VaultProg ι Unit := do
  zoom Vault.shelf (fun shelf s => { s with shelf }) id
    (deleteChunks ((evictedPaths evict evictArchives).toChunks deleteBatchSize))
  markResults now evict
  when (evictArchives ≠ []) (act (Vault.clearArchives i (evictArchives.map Prod.fst)))
  act fun s => { s with shelf := { s.shelf with catalog := s.shelf.catalog.commit i } }

/-- Delete result objects past the max age, then the oldest ones while the results stored exceed
the cap; how many were evicted. -/
def evictResults (now : ℚ) (maxAgeSeconds : Int) (maxBytes : Option Int) (answers : EvictAnswers) :
    VaultProg ι Nat := do
  let cutoff := now - maxAgeSeconds
  let aged ← query fun s => answers.aged (s.agedResults i cutoff)
  let agedArchives ← query fun s => answers.agedArchives (s.agedArchives i cutoff)
  let planned ← planOverCap i cutoff maxBytes answers aged agedArchives
  let evict := (aged.map fun r => (r.jobId, r.fmt, r.username)) ++
    planned.filterMap Candidate.result?
  let evictArchives := (agedArchives.map fun a => (a.batchId, a.username)) ++
    planned.filterMap Candidate.archive?
  if evict = [] ∧ evictArchives = [] then pure 0
  else do
    removeEvicted i now evict evictArchives
    pure (evict.length + evictArchives.length)

end Taas

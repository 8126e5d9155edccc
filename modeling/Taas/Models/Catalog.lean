import Mathlib.Data.List.MinMax
import Taas.Infra.PosixPath
import Taas.Models.Db

/-!
# The tables as the batch endpoints use them

The columns of `jobs` and `batches` that only `app/routers/batches.py` reads or writes, rows that
are inserted, and the queries of `app/services/batch_store.py` that the endpoints answer from.

* `Catalog` — the two tables with these columns, and what a transaction has inserted.
* `Catalog.commit` — the rows become visible.
* `Catalog.latestPages` — a batch's current job for each of its pages.
* `names_latestPages` — it has one entry for each name.
-/

namespace Taas

open Infra Infra.Prog

/-- The columns of a page's row that nothing updates. -/
structure PageColumns where
  /-- The page's path inside the uploaded archive; every page of a batch has one. -/
  sourceName : Text
  fmt : String
  outputs : Finset String
  fileSizeBytes : Option Nat := none
  megapixels : Option ℚ := none
deriving DecidableEq

/-- The columns of a row of `batches` that the workers leave alone. -/
structure BatchColumns where
  username : String
  externalId : Option String := none
  domain : String
  outputs : Finset String
  total : Nat := 0
  archiveBuiltAt : Option ℚ := none
deriving DecidableEq

/-- A row of `jobs` to be inserted. -/
structure NewJob where
  id : JobId
  row : JobRow
  columns : PageColumns

structure Catalog (ι : Type) where
  db : Postgres ι
  batches : Table BatchId BatchColumns ι
  pages : JobId → PageColumns
  /-- What a transaction inserted and has not committed. -/
  inserted : ι → List NewJob := fun _ => []

/-- A job whose row was committed, and its page. -/
abbrev Filed := JobId × Text

/-- A program of database statements of the endpoints. -/
abbrev CatalogProg (ι α : Type) := Prog (Catalog ι) Filed α

namespace Catalog

variable {ι : Type} [DecidableEq ι] (i : ι)

/-- The rows that a commit adds. -/
def file (c : Catalog ι) (jobs : List NewJob) : Catalog ι :=
  { c with
    db := { c.db with jobs := jobs.foldl (fun t job => t.add job.id job.row) c.db.jobs }
    pages := jobs.foldl (fun pages job => Function.update pages job.id job.columns) c.pages }

def commit (c : Catalog ι) : Catalog ι :=
  file
    { c with
      db := c.db.commit i
      batches := c.batches.commit i
      inserted := Function.update c.inserted i [] }
    (c.inserted i)

def rollback (c : Catalog ι) : Catalog ι :=
  { c with
    db := c.db.rollback i
    batches := c.batches.rollback i
    inserted := Function.update c.inserted i [] }

/-- `INSERT INTO batches` -/
def insertBatch (batchId : BatchId) (row : BatchRow) (columns : BatchColumns) (c : Catalog ι) :
    Catalog ι :=
  { c with
    db := { c.db with batches := c.db.batches.add batchId row }
    batches := c.batches.add batchId columns }

/-- `UPDATE batches SET … WHERE id = …` -/
def updateBatch (batchId : BatchId) (row : BatchRow → BatchRow)
    (columns : BatchColumns → BatchColumns) (c : Catalog ι) : Catalog ι :=
  { c with
    db := { c.db with batches := c.db.batches.write i batchId (row (c.db.batches.sees i batchId)) }
    batches := c.batches.write i batchId (columns (c.batches.sees i batchId)) }

/-- `DELETE FROM batches WHERE id = …`; the jobs go with the batch row. -/
def deleteBatch (batchId : BatchId) (c : Catalog ι) : Catalog ι :=
  { c with
    db :=
      { jobs :=
          { c.db.jobs with
            rows := c.db.jobs.rows.filter fun k => (c.db.jobs.sees i k).batchId ≠ some batchId }
        batches := { c.db.batches with rows := c.db.batches.rows.erase batchId } }
    batches := { c.batches with rows := c.batches.rows.erase batchId } }

/-! ## The queries of `batch_store` -/

/-- The batch's rows, in the order of the table. -/
def batchJobs (batchId : BatchId) (c : Catalog ι) : List (JobId × JobRow) :=
  ((sorted (· ≤ ·) c.db.jobs.rows.val).map fun k => (k, c.db.jobs.sees i k)).filter
    fun job => job.2.batchId = some batchId

/-- The names of the batch's pages, each once, in their order. -/
def sourceNames (batchId : BatchId) (c : Catalog ι) : List Text :=
  sorted (· ≤ ·) ((c.batchJobs i batchId).map fun job => (c.pages job.1).sourceName).toFinset.val

/-- The row that `DISTINCT ON (source_name) … ORDER BY source_name, submitted_at DESC` keeps. -/
def newest (batchId : BatchId) (c : Catalog ι) (name : Text) : Option (JobId × JobRow) :=
  ((c.batchJobs i batchId).filter fun job => (c.pages job.1).sourceName = name).argmax
    fun job => job.2.submittedAt

/-- The batch's current job per page: a retried page has several jobs, the newest one counts. -/
def latestPages (batchId : BatchId) (c : Catalog ι) : List (JobId × JobRow) :=
  (c.sourceNames i batchId).filterMap (c.newest i batchId)

end Catalog

/-- A page of a batch as its listing shows it. -/
structure CurrentPage where
  jobId : JobId
  sourceName : Text
  status : JobStatus
  error : Option String
deriving DecidableEq

section

variable {ι : Type} [DecidableEq ι] (i : ι)

def Catalog.currentPages (batchId : BatchId) (c : Catalog ι) : List CurrentPage :=
  (c.latestPages i batchId).map fun job =>
    ⟨job.1, (c.pages job.1).sourceName, job.2.status, job.2.error⟩

/-- Every page (its current job), ordered by source name. -/
def batchPages (batchId : BatchId) : CatalogProg ι (List CurrentPage) :=
  query (Catalog.currentPages i batchId)

def Catalog.statusCounts (batchId : BatchId) (c : Catalog ι) (status : JobStatus) : Nat :=
  ((c.latestPages i batchId).filter fun job => job.2.status = status).length

/-- status → number of the batch's pages in it. -/
def pageCounts (batchId : BatchId) : CatalogProg ι (JobStatus → Nat) :=
  query (Catalog.statusCounts i batchId)

/-! ## The statements of the endpoints -/

/-- `SELECT … FROM batches WHERE id = … AND username = …` -/
def ownedBatch (batchId : BatchId) (username : String) :
    CatalogProg ι (Option (BatchRow × BatchColumns)) :=
  query fun c =>
    if batchId ∈ c.db.batches.rows ∧ (c.batches.sees i batchId).username = username then
      some (c.db.batches.sees i batchId, c.batches.sees i batchId)
    else none

/-- `SELECT id, megapixels FROM jobs WHERE id IN (…)` -/
def selectMegapixels (jobIds : List JobId) : CatalogProg ι (JobId → Option ℚ) :=
  query fun c jobId =>
    if jobId ∈ jobIds ∧ jobId ∈ c.db.jobs.rows then (c.pages jobId).megapixels else none

/-- `UPDATE batches SET … WHERE id = …`, which may have to wait for the row. -/
def updateBatch (batchId : BatchId) (row : BatchRow → BatchRow)
    (columns : BatchColumns → BatchColumns) : CatalogProg ι Unit :=
  await (fun c => c.db.batches.free i batchId) (fun _ => []) (fun _ => ())
    (Catalog.updateBatch i batchId row columns)

/-- `INSERT INTO jobs …` -/
def insertJobs (jobs : List NewJob) : CatalogProg ι Unit :=
  act fun c => { c with inserted := Function.update c.inserted i (c.inserted i ++ jobs) }

def commitCatalog : CatalogProg ι Unit :=
  callLog (fun c => (c.inserted i).map fun job => (job.id, job.columns.sourceName)) (fun _ => ())
    (Catalog.commit i)

def rollbackCatalog : CatalogProg ι Unit := act (Catalog.rollback i)

end

/-! ## What the listing shows -/

section

variable {ι : Type} [DecidableEq ι] {i : ι} {batchId : BatchId} {c : Catalog ι} {name : Text}
  {job : JobId × JobRow}

namespace Catalog

theorem mem_of_newest (h : c.newest i batchId name = some job) :
    job ∈ c.batchJobs i batchId ∧ (c.pages job.1).sourceName = name := by
  have hmem := List.mem_filter.mp (List.argmax_mem h)
  exact ⟨hmem.1, by simpa using hmem.2⟩

theorem mem_sourceNames : name ∈ c.sourceNames i batchId ↔
    ∃ job ∈ c.batchJobs i batchId, (c.pages job.1).sourceName = name := by
  simp [sourceNames]

theorem nodup_sourceNames : (c.sourceNames i batchId).Nodup :=
  nodup_sorted _ |>.mpr (Finset.nodup _)

theorem exists_newest (h : name ∈ c.sourceNames i batchId) :
    ∃ job, c.newest i batchId name = some job := by
  obtain ⟨job, hjob, hname⟩ := mem_sourceNames.mp h
  refine Option.ne_none_iff_exists'.mp fun hnone => ?_
  have hnil := List.argmax_eq_none.mp hnone
  have hmem : job ∈ (c.batchJobs i batchId).filter
      fun job => (c.pages job.1).sourceName = name := List.mem_filter.mpr ⟨hjob, by simpa using hname⟩
  rw [hnil] at hmem
  cases hmem

/-- The listing has one entry for each name. -/
theorem names_latestPages : (c.latestPages i batchId).map (fun job => (c.pages job.1).sourceName) =
    c.sourceNames i batchId := by
  have key : ∀ names : List Text, (∀ name ∈ names, name ∈ c.sourceNames i batchId) →
      (names.filterMap (c.newest i batchId)).map (fun job => (c.pages job.1).sourceName) =
        names := by
    intro names
    induction names with
    | nil => intro _; rfl
    | cons name names ih =>
      intro h
      obtain ⟨job, hjob⟩ := exists_newest (h name List.mem_cons_self)
      rw [List.filterMap_cons_some hjob, List.map_cons, (mem_of_newest hjob).2,
        ih fun n hn => h n (List.mem_cons_of_mem _ hn)]
  exact key _ fun _ h => h

theorem names_currentPages :
    (c.currentPages i batchId).map CurrentPage.sourceName = c.sourceNames i batchId := by
  rw [currentPages, List.map_map]
  exact names_latestPages

end Catalog

end

end Taas

import Taas.Models.Catalog
import Taas.Workers.Rows

/-!
# Batches

`app/routers/batches.py`: `submit_batch` and `retry_batch`, with the rules of
`app/services/batches.py`. What an endpoint gets from its request, its clock and its uuids is its
argument; the request was checked and its archive was recognised before.

* `ApiStores` — the tables, Redis and the bucket of uploaded pages.
* `storePages` — the loop over the archive's members.
* `submitBatch`, `retryBatch` — the endpoints.
-/

namespace Taas

open Infra Infra.Prog

/-- The object of an uploaded page: `<username>/<job id><ext>`. -/
structure IncomingPath where
  username : String
  jobId : JobId
  ext : Text
deriving DecidableEq

structure ApiStores (ι : Type) where
  catalog : Catalog ι
  redis : Redis := {}
  /-- The objects in the incoming bucket. -/
  incoming : Finset IncomingPath := ∅

/-- A program of the endpoints and the workers. -/
abbrev ApiProg (ι α : Type) := Prog (ApiStores ι) (Filed ⊕ Note ι) α

variable {ι : Type}

def ApiStores.stores (s : ApiStores ι) : Stores ι := ⟨s.redis, s.catalog.db⟩

def ApiStores.setStores (stores : Stores ι) (s : ApiStores ι) : ApiStores ι :=
  { s with redis := stores.redis, catalog := { s.catalog with db := stores.db } }

def onCatalog {α : Type} (p : CatalogProg ι α) : ApiProg ι α :=
  zoom ApiStores.catalog (fun catalog s => { s with catalog := catalog }) .inl p

/-- What a worker does. -/
def onStores {α : Type} (p : WorkerProg ι α) : ApiProg ι α :=
  zoom ApiStores.stores ApiStores.setStores .inr p

def putObject (path : IncomingPath) : ApiProg ι Unit :=
  act fun s => { s with incoming := insert path s.incoming }

def deleteObjects (paths : List IncomingPath) : ApiProg ι Unit :=
  act fun s => { s with incoming := s.incoming.filter (· ∉ paths) }

/-- Server-side copy; whether the source was there. -/
def copyObject (src dst : IncomingPath) : ApiProg ι Bool :=
  call (fun s => decide (src ∈ s.incoming))
    fun s => if src ∈ s.incoming then { s with incoming := insert dst s.incoming } else s

/-! ## The rules -/

/-- What the endpoints read of the settings, and Python's `str.lower`. -/
structure UploadSettings where
  maxUploadBytes : Nat
  batchMaxPages : Nat
  allowedExtensions : List Text
  lower : Text → Text

/-- An archive's member (`app/services/archive.py`). -/
structure Member where
  name : Text
  size : Nat
  data : List UInt8

/-- `PurePosixPath(name).suffix.lower()` -/
def UploadSettings.ext (settings : UploadSettings) (name : Text) : Text :=
  settings.lower (PurePosixPath.parse name).suffix

/-- Whether a member becomes a page. -/
def planBatchMember (settings : UploadSettings) (name : Text) : Bool :=
  settings.ext name ∈ settings.allowedExtensions

/-- A page in the incoming bucket. -/
structure UploadedPage where
  jobId : JobId
  ext : Text
  megapixels : ℚ

def UploadedPage.incomingPath (page : UploadedPage) (username : String) : IncomingPath :=
  ⟨username, page.jobId, page.ext⟩

/-- `PAGE_SCORE_STEP` -/
def pageScoreStep : ℚ := 1 / 1000000

/-- The queue score of a batch's `index`-th page. -/
def pageScore (batchSubmittedAt : ℚ) (index : Nat) : ℚ := batchSubmittedAt + index * pageScoreStep

/-- `jobs.fmt` for a set of outputs. -/
def fmtLabel (outputs : Finset String) : String :=
  if outputs = Fmt.alto.outputs then "alto"
  else if outputs = Fmt.txt.outputs then "txt"
  else if outputs = Fmt.multi.outputs then "multi"
  else "custom"

/-- The states that a batch's pages are queued with. -/
def pageStates (username : String) (batchId : BatchId) (domain : String) (outputs : Finset String)
    (priority : Int) (submitted : ℚ) (pages : List UploadedPage) : List (JobId × JobState) :=
  pages.zipIdx.map fun (page, index) => (page.jobId,
    { username := username
      batchId := some batchId
      fmt := fmtLabel outputs
      domain := domain
      outputs := outputs
      megapixels := page.megapixels
      submittedAt := pageScore submitted index
      priority := priority })

/-! ## Submitting -/

/-- Job rows are committed this many at a time while the archive is read. -/
def commitEvery : Nat := 100

/-- A batch being submitted. -/
structure Submission where
  id : BatchId
  username : String
  externalId : Option String := none
  domain : String
  outputs : Finset String
  members : List Member
  imageMegapixels : List UInt8 → ℚ
  /-- The uuid of each page. -/
  jobId : Nat → JobId
  /-- The time of the transaction that is committed when so many pages are stored. -/
  now : Nat → ℚ
  /-- Whether an upload has failed by the time that so many pages are stored. -/
  uploadFailed : Nat → Bool := fun _ => false
  submitted : ℚ
  stateTtl : Nat
  priority : Int := 0

inductive SubmitError where
  | payloadTooLarge
  | unprocessable
  /-- An exception of the upload. -/
  | upload
deriving DecidableEq

structure StoredPages where
  pages : List UploadedPage
  skipped : List Text

section

variable (settings : UploadSettings) (batch : Submission)

/-- The row of a page, as the transaction at `now` inserts it. -/
def Submission.newJob (page : UploadedPage) (member : Member) (now : ℚ) : NewJob where
  id := page.jobId
  row :=
    { username := batch.username
      domain := some batch.domain
      batchId := some batch.id
      submittedAt := now }
  columns :=
    { sourceName := member.name
      fmt := fmtLabel batch.outputs
      outputs := batch.outputs
      fileSizeBytes := some member.size
      megapixels := some page.megapixels }

/-- The page that an image member becomes. -/
def Submission.page (index : Nat) (member : Member) : UploadedPage where
  jobId := batch.jobId index
  ext := settings.ext member.name
  megapixels := batch.imageMegapixels member.data

variable [DecidableEq ι] (i : ι)

/-- The loop of `_store_pages`: `unsaved` are the rows that were added to the session since the
last commit. A member over the upload limit is refused before it is looked at. -/
def storePages : List Member → List UploadedPage → List (ℚ → NewJob) → List Text →
    ApiProg ι (Except (SubmitError × List UploadedPage) (StoredPages × List (ℚ → NewJob)))
  | [], pages, unsaved, skipped =>
    if pages.isEmpty then pure (.error (.unprocessable, pages))
    else if batch.uploadFailed pages.length then pure (.error (.upload, pages))
    else pure (.ok (⟨pages, skipped⟩, unsaved))
  | member :: members, pages, unsaved, skipped =>
    if settings.maxUploadBytes < member.size then pure (.error (.payloadTooLarge, pages))
    else if member.data.isEmpty || !planBatchMember settings member.name then
      storePages members pages unsaved (skipped ++ [member.name])
    else if settings.batchMaxPages ≤ pages.length then pure (.error (.payloadTooLarge, pages))
    else if batch.uploadFailed pages.length then pure (.error (.upload, pages))
    else do
      let page := batch.page settings pages.length member
      let stored := pages.length + 1
      let added := unsaved ++ [batch.newJob page member]
      putObject (page.incomingPath batch.username)
      if stored % commitEvery = 0 then do
        onCatalog (insertJobs i (added.map fun job => job (batch.now stored)))
        onCatalog (commitCatalog i)
        storePages members (pages ++ [page]) [] skipped
      else storePages members (pages ++ [page]) added skipped

/-- Undo a batch that failed while being read: its uploaded pages and its rows. -/
def abandon (pages : List UploadedPage) : ApiProg ι Unit := do
  onCatalog (rollbackCatalog i)
  when (!pages.isEmpty)
    (deleteObjects (pages.map fun page => page.incomingPath batch.username))
  onCatalog (act (Catalog.deleteBatch i batch.id))
  onCatalog (commitCatalog i)

/-- Start the batch's counters and queue its pages, in archive order. -/
def enqueuePages (pages : List UploadedPage) : ApiProg ι Unit := do
  onStores (onRedis i (initBatch batch.id { total := pages.length }))
  onStores (onRedis i (enqueueJobs
    (pageStates batch.username batch.id batch.domain batch.outputs batch.priority batch.submitted
      pages) batch.stateTtl))

/-- Submit many pages at once; the number of pages and the skipped members. -/
def submitBatch : ApiProg ι (Except SubmitError (Nat × List Text)) := do
  onCatalog (act (Catalog.insertBatch batch.id {}
    { username := batch.username, externalId := batch.externalId, domain := batch.domain,
      outputs := batch.outputs }))
  match ← storePages settings batch i batch.members [] [] [] with
  | .error (error, pages) =>
    abandon batch i pages
    pure (.error error)
  | .ok (stored, unsaved) =>
    onCatalog (updateBatch i batch.id (fun row => { row with status := .queued })
      fun columns => { columns with total := stored.pages.length })
    onCatalog (insertJobs i (unsaved.map fun job => job (batch.now (stored.pages.length + 1))))
    onCatalog (commitCatalog i)
    enqueuePages batch i stored.pages
    pure (.ok (stored.pages.length, stored.skipped))

end

/-! ## Retrying -/

/-- A request to retry a batch. -/
structure RetryCall where
  username : String
  /-- The time of its transaction. -/
  now : ℚ
  /-- The uuid of the new job of a failed one. -/
  jobId : JobId → JobId
  submitted : ℚ
  stateTtl : Nat
  priority : Int := 0

inductive RetryAnswer where
  | notFound
  | conflict
  | retried (count : Nat) (expired : List Text)
deriving DecidableEq

section

variable (settings : UploadSettings) (batchId : BatchId) (request : RetryCall)

/-- The page of a failed job's new job. A row without megapixels counts as 1 MP. -/
def RetryCall.page (megapixels : JobId → Option ℚ) (oldId : JobId) (name : Text) :
    UploadedPage where
  jobId := request.jobId oldId
  ext := settings.ext name
  megapixels := ((megapixels oldId).filter fun mp => mp ≠ 0).getD 1

def RetryCall.newJob (batch : BatchColumns) (megapixels : JobId → Option ℚ) (oldId : JobId)
    (name : Text) : NewJob where
  id := request.jobId oldId
  row :=
    { username := request.username
      domain := some batch.domain
      batchId := some batchId
      submittedAt := request.now }
  columns :=
    { sourceName := name
      fmt := fmtLabel batch.outputs
      outputs := batch.outputs
      megapixels := megapixels oldId }

/-- The failed pages whose uploads could be copied, and the names of those that expired. -/
def copyFailed (megapixels : JobId → Option ℚ) :
    List CurrentPage → ApiProg ι (List CurrentPage × List Text)
  | [] => pure ([], [])
  | old :: failed => do
    let page := request.page settings megapixels old.jobId old.sourceName
    let copied ← copyObject ⟨request.username, old.jobId, page.ext⟩
      (page.incomingPath request.username)
    let (retried, expired) ← copyFailed megapixels failed
    pure (if copied then (old :: retried, expired) else (retried, old.sourceName :: expired))

variable [DecidableEq ι] (i : ι)

/-- What `retry_batch` goes on with once the batch is open again. -/
structure Reopened where
  batch : BatchColumns
  retried : List UploadedPage
  expired : List Text

/-- Resubmit the failed pages of a finished batch, up to the commit. -/
def reopenBatch : ApiProg ι (Except RetryAnswer Reopened) := do
  match ← onCatalog (ownedBatch i batchId request.username) with
  | none => pure (.error .notFound)
  | some (row, batch) =>
    if row.status ≠ .finished then pure (.error .conflict)
    else do
      let pages ← onCatalog (batchPages i batchId)
      let failed := pages.filter fun page => page.status = .failed
      let megapixels ← onCatalog (selectMegapixels (failed.map fun page => page.jobId))
      let (retried, expired) ← copyFailed settings request megapixels failed
      if retried.isEmpty then pure (.error (.retried 0 expired))
      else do
        onCatalog (updateBatch i batchId
          (fun row => { row with status := .queued, finishedAt := none })
          fun columns => { columns with archiveBuiltAt := none })
        onCatalog (insertJobs i (retried.map fun page =>
          request.newJob batchId batch megapixels page.jobId page.sourceName))
        onCatalog (commitCatalog i)
        pure (.ok ⟨batch, retried.map fun page =>
          request.page settings megapixels page.jobId page.sourceName, expired⟩)

/-- The rest of `retry_batch`: the counters restart from what the pages are now, and the retried
ones are queued. -/
def requeueRetried (reopened : Reopened) : ApiProg ι RetryAnswer := do
  let counts ← onCatalog (pageCounts i batchId)
  onStores (onRedis i (initBatch batchId
    { total := reopened.batch.total, done := counts .done, failed := counts .failed }))
  onStores (onRedis i (enqueueJobs
    (pageStates request.username batchId reopened.batch.domain reopened.batch.outputs
      request.priority request.submitted reopened.retried) request.stateTtl))
  pure (.retried reopened.retried.length reopened.expired)

/-- Resubmit every failed page of a finished batch as a new job, and reopen the batch. -/
def retryBatch : ApiProg ι RetryAnswer := do
  match ← reopenBatch settings batchId request i with
  | .error answer => pure answer
  | .ok reopened => requeueRetried batchId request i reopened

end

end Taas

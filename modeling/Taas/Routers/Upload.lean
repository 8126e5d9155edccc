import Taas.Infra.Pool
import Taas.Routers.Batches

/-!
# A batch's archive is stored

`_store_pages` of `app/routers/batches.py` with its `Uploads`, which go on in the background, and
with all that may fail on the way: reading the archive, an upload, a commit, and the storage call
of the undo.

* `Uploads` — the slots and the tasks; `uploadTask` is what a task does.
* `storeMembers` — the loop over the members.
* `storeArchive` — `_store_pages`; what came of it is noted in the store.
-/

namespace Taas

open Infra Infra.Prog

/-- `UPLOAD_CONCURRENCY` -/
def uploadConcurrency : Nat := 8

/-- A task of a batch's uploads, from its start on. -/
inductive UploadTask where
  | running (path : IncomingPath)
  | stored (path : IncomingPath)
  | failed
  | cancelled

/-- `Uploads`: the free slots of its semaphore, and its tasks in the order of their starts. -/
structure Uploads where
  slots : Nat := uploadConcurrency
  tasks : Nat → Option UploadTask := fun _ => none

/-- What `_store_pages` raises. -/
inductive StoreError where
  | payloadTooLarge (detail : String)
  | unprocessable (detail : String)
  /-- What the archive's reader, an upload, a commit or the storage raised. -/
  | failed
deriving DecidableEq

/-- What came of `_store_pages`; a job row that no commit has saved yet is in the session. -/
inductive StoreOutcome where
  | returned (stored : StoredPages) (unsaved : List (ℚ → NewJob))
  /-- With the pages that were to be undone. -/
  | raised (error : StoreError) (pages : List UploadedPage)

structure UploadStores (ι : Type) where
  api : ApiStores ι
  uploads : Uploads := {}
  outcome : Option StoreOutcome := none

abbrev UploadProg (ι α : Type) := Prog (UploadStores ι) (Filed ⊕ Note ι) α

/-- How a commit goes. -/
inductive CommitReply where
  | ok
  | raised
  /-- The rows were committed, but the connection broke before the answer came. -/
  | lost
deriving DecidableEq

/-- What goes wrong. -/
structure UploadFaults where
  /-- Reading the archive's next member raises, after so many. -/
  unreadable : Nat → Bool := fun _ => false
  uploadFails : Nat → Bool := fun _ => false
  /-- How the commit goes when so many pages are stored. -/
  commit : Nat → CommitReply := fun _ => .ok
  /-- `remove_objects` raises. -/
  deleteRaises : Bool := false

section

variable {ι : Type} (settings : UploadSettings) (batch : Submission) (faults : UploadFaults)

def onApi {α : Type} (p : ApiProg ι α) : UploadProg ι α :=
  zoom UploadStores.api (fun api s => { s with api := api }) id p

/-! ## The uploads -/

def UploadStores.setTask (k : Nat) (task : UploadTask) (s : UploadStores ι) : UploadStores ι :=
  { s with uploads := { s.uploads with tasks := Function.update s.uploads.tasks k (some task) } }

def UploadStores.setSlots (f : Nat → Nat) (s : UploadStores ι) : UploadStores ι :=
  { s with uploads := { s.uploads with slots := f s.uploads.slots } }

def UploadTask.isFailed : UploadTask → Bool
  | failed => true
  | _ => false

def UploadTask.isRunning : UploadTask → Bool
  | running _ => true
  | _ => false

/-- `_raise_failed`: whether one of the first `n` uploads has failed. -/
def Uploads.raiseFailed (n : Nat) (uploads : Uploads) : Bool :=
  (List.range n).any fun k => (uploads.tasks k).any UploadTask.isFailed

/-- Whether all of the first `n` uploads are over. -/
def Uploads.over (n : Nat) (uploads : Uploads) : Bool :=
  (List.range n).all fun k => !(uploads.tasks k).any UploadTask.isRunning

/-- `start`: the `k`-th upload begins once a slot is free; whether no earlier one had failed. -/
def startUpload (k : Nat) (path : IncomingPath) : UploadProg ι Bool := do
  await (fun s => 0 < s.uploads.slots) (fun _ => []) (fun _ => ())
    (UploadStores.setSlots fun slots => slots - 1)
  let raised ← query fun s => s.uploads.raiseFailed k
  when (!raised) (act (UploadStores.setTask k (.running path)))
  pure !raised

/-- `finish`: wait for every upload, or for the first that failed; whether none had. -/
def finishUploads (n : Nat) : UploadProg ι Bool :=
  await (fun s => s.uploads.raiseFailed n || s.uploads.over n) (fun _ => [])
    (fun s => !s.uploads.raiseFailed n) id

def UploadTask.cancel : UploadTask → UploadTask
  | running _ => cancelled
  | task => task

/-- `cancel` -/
def cancelUploads : UploadProg ι Unit :=
  act fun s =>
    { s with uploads := { s.uploads with tasks := fun k => (s.uploads.tasks k).map UploadTask.cancel } }

/-- What a running task does: its `put_object`. -/
def UploadStores.put (k : Nat) (s : UploadStores ι) : UploadStores ι :=
  match s.uploads.tasks k with
  | some (.running path) =>
    if faults.uploadFails k then s.setTask k .failed
    else
      { s.setTask k (.stored path) with
        api := { s.api with incoming := insert path s.api.incoming } }
  | _ => s

/-- The `k`-th task, with its `_release`. -/
def uploadTask (k : Nat) : UploadProg ι Unit := do
  await (fun s => (s.uploads.tasks k).any UploadTask.isRunning) (fun _ => []) (fun _ => ())
    (UploadStores.put faults k)
  act (UploadStores.setSlots fun slots => slots + 1)

/-! ## The members -/

/-- `str(MemberTooLarge(…))` -/
def memberTooLarge (member : Member) : String :=
  String.ofList member.name ++ ": " ++ toString member.size ++ " bytes, over the " ++
    toString settings.maxUploadBytes ++ "-byte page limit"

/-- A member that is no page. -/
def skips (member : Member) : Bool :=
  member.data.isEmpty || !planBatchMember settings member.name

variable [DecidableEq ι] (i : ι)

/-- A commit of the rows so far; whether it raised. -/
def commitRows (rows : List NewJob) : CommitReply → UploadProg ι Bool
  | .ok => do
    onApi (onCatalog (insertJobs i rows))
    onApi (onCatalog (commitCatalog i))
    pure false
  | .raised => do
    onApi (onCatalog (insertJobs i rows))
    pure true
  | .lost => do
    onApi (onCatalog (insertJobs i rows))
    onApi (onCatalog (commitCatalog i))
    pure true

/-- The loop of `_store_pages` after `read` members, with the rows since the last commit. -/
def storeMembers : Nat → List Member → List UploadedPage → List (ℚ → NewJob) → List Text →
    UploadProg ι (Except (StoreError × List UploadedPage) (StoredPages × List (ℚ → NewJob)))
  | read, [], pages, unsaved, skipped =>
    if faults.unreadable read then pure (.error (.failed, pages))
    else if pages.isEmpty then pure (.error (.unprocessable "No images in the archive", pages))
    else do
      let finished ← finishUploads pages.length
      pure (if finished then .ok (⟨pages, skipped⟩, unsaved) else .error (.failed, pages))
  | read, member :: members, pages, unsaved, skipped =>
    if faults.unreadable read then pure (.error (.failed, pages))
    else if settings.maxUploadBytes < member.size then
      pure (.error (.payloadTooLarge (memberTooLarge settings member), pages))
    else if skips settings member then
      storeMembers (read + 1) members pages unsaved (skipped ++ [member.name])
    else if settings.batchMaxPages ≤ pages.length then
      pure (.error (.payloadTooLarge
        ("More than " ++ toString settings.batchMaxPages ++ " pages"), pages))
    else do
      let page := batch.page settings pages.length member
      let stored := pages.length + 1
      let added := unsaved ++ [batch.newJob page member]
      let started ← startUpload pages.length (page.incomingPath batch.username)
      if !started then pure (.error (.failed, pages))
      else if stored % commitEvery = 0 then do
        let raised ← commitRows i (added.map fun job => job (batch.now stored)) (faults.commit stored)
        if raised then pure (.error (.failed, pages ++ [page]))
        else storeMembers (read + 1) members (pages ++ [page]) [] skipped
      else storeMembers (read + 1) members (pages ++ [page]) added skipped

/-- `_abandon`; whether its storage call raised, before the rows were deleted. -/
def abandonPages (pages : List UploadedPage) : UploadProg ι Bool :=
  if !pages.isEmpty && faults.deleteRaises then do
    onApi (onCatalog (rollbackCatalog i))
    pure true
  else do
    onApi (abandon batch i pages)
    pure false

def note (outcome : StoreOutcome) : UploadProg ι Unit :=
  act fun s => { s with outcome := some outcome }

/-- `_store_pages` of the batch's archive. -/
def storeArchive : UploadProg ι Unit := do
  match ← storeMembers settings batch faults i 0 batch.members [] [] [] with
  | .ok (stored, unsaved) => note (.returned stored unsaved)
  | .error (error, pages) =>
    cancelUploads
    let raised ← abandonPages batch faults i pages
    note (.raised (if raised then .failed else error) pages)

/-- `_store_pages` and its tasks; at the start nothing is uploaded. -/
def storingPool (api : ApiStores ι) : Pool (UploadStores ι) (Filed ⊕ Note ι) (Option Nat) where
  shared := { api }
  procs client := match client with
    | none => some (storeArchive settings batch faults i)
    | some k => some (uploadTask faults k)
  history := []

end

end Taas

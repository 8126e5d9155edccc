import Mathlib.Data.List.MinMax
import Taas.Services.RedisJobs

/-!
# Which backend a pending job goes to

`app/workers/submit/types.py` and the allocation of `app/workers/submit/steps.py`.

* `PendingJob`, `BackendSlot` — what dispatch allocates.
* `canServe`, `expectedFinish` — the pieces of a score.
* `allocateScored` — the jobs in queue order, each to the backend that would finish it first.
-/

namespace Taas

open Infra

/-- A row of `backends`, with the columns that dispatch reads. -/
structure Backend where
  id : BackendId
  url : String
  priority : Int := 0
  maxInflight : Int := 4
deriving DecidableEq

/-- What a backend serves: a domain's outputs. -/
abbrev Domains := String → Option (Finset String)

/-- A job waiting to be dispatched, carrying its avoid-list from prior failures. -/
structure PendingJob where
  jobId : JobId
  score : ℚ
  domain : String
  outputs : Finset String
  avoid : Finset BackendId := ∅
  megapixels : ℚ := 1
  batchId : Option BatchId := none
deriving DecidableEq

/-- A healthy backend, its remaining free capacity and what it serves. For scoring: its pages
in flight, the batches among them, and what this tick assigned it. -/
structure BackendSlot where
  backend : Backend
  free : Nat
  domains : Domains
  inflight : Int := 0
  batches : BatchId → Int := fun _ => 0
  assigned : Nat := 0

/-- A peeked job as dispatch sees it. -/
def pendingJob (entry : QueueEntry) (state : JobState) : PendingJob where
  jobId := entry.jobId
  score := entry.score
  domain := state.domain
  outputs := state.outputs
  avoid := state.avoidBackends
  megapixels := state.megapixels
  batchId := state.batchId

/-- Whether a backend serving `domains` can run a `domain` job wanting `outputs`. -/
def serves (domains : Domains) (domain : String) (outputs : Finset String) : Bool :=
  (domains domain).any fun served => outputs ⊆ served

/-- Dispatch credits left until results already in progress are stored. -/
def unstoredCapacity (limit inflight storing : Nat) : Nat := limit - inflight - storing

def canServe (slot : BackendSlot) (job : PendingJob) : Bool :=
  serves slot.domains job.domain job.outputs

/-- When the job would finish on the backend, in seconds from now. -/
def expectedFinish (slot : BackendSlot) (job : PendingJob) (secondsPerMp : ℚ) : ℚ :=
  (slot.inflight + slot.assigned + 1) * secondsPerMp * job.megapixels /
    (max 1 slot.backend.maxInflight : Int)

/-- The slot after one more job. -/
def BackendSlot.assign (job : PendingJob) (slot : BackendSlot) : BackendSlot :=
  let assigned := { slot with free := slot.free - 1, assigned := slot.assigned + 1 }
  match nonEmpty job.batchId with
  | none => assigned
  | some batchId =>
    { assigned with batches := Function.update slot.batches batchId (slot.batches batchId + 1) }

/-- The slots that may take the job: those that serve it and have a free slot; one to avoid only
if all that serve it are. -/
def candidates (slots : List BackendSlot) (job : PendingJob) : List (Nat × BackendSlot) :=
  let serving := slots.zipIdx.filter fun s => canServe s.1 job
  let allowAvoided := serving.all fun s => s.1.backend.id ∈ job.avoid
  (serving.filter fun s => 0 < s.1.free && (allowAvoided || s.1.backend.id ∉ job.avoid)).map
    Prod.swap

/-- The slots of the best score: among the batch's own, if there are some within the
tolerance. -/
def scoredPool (spp : BackendId → String → ℚ) (tolerance : ℚ) (job : PendingJob)
    (candidates : List (Nat × BackendSlot)) : List (Nat × BackendSlot) :=
  let finish := fun s : Nat × BackendSlot =>
    expectedFinish s.2 job (spp s.2.backend.id job.domain)
  let best := (candidates.map finish).min?.getD 0
  let near := candidates.filter fun s => finish s ≤ best * (1 + tolerance)
  let affine := near.filter fun s => (nonEmpty job.batchId).any fun batchId => 0 < s.2.batches batchId
  if affine.isEmpty then candidates.filter fun s => finish s = best
  else
    let poolBest := (affine.map finish).min?.getD 0
    affine.filter fun s => finish s = poolBest

/-- The slot for the job; exact ties rotate, starting after the last backend chosen. -/
def chooseSlot (spp : BackendId → String → ℚ) (tolerance : ℚ) (start : Nat)
    (slots : List BackendSlot) (job : PendingJob) : Option (Nat × BackendSlot) :=
  (scoredPool spp tolerance job (candidates slots job)).argmin fun s =>
    (s.1 + slots.length - start) % slots.length

/-- Give each job, in queue order, to the backend that would finish it first: each placed job
with its slot, and the slots as they are then. -/
def allocateScored (spp : BackendId → String → ℚ) (tolerance : ℚ) (start : Nat)
    (slots : List BackendSlot) : List PendingJob → List (PendingJob × BackendSlot) × List BackendSlot
  | [] => ([], slots)
  | job :: jobs =>
    match chooseSlot spp tolerance start slots job with
    | none => allocateScored spp tolerance start slots jobs
    | some (i, slot) =>
      let rest := allocateScored spp tolerance ((i + 1) % slots.length)
        (slots.set i (slot.assign job)) jobs
      ((job, slot) :: rest.1, rest.2)

end Taas

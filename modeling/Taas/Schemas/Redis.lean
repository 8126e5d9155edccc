import Mathlib.Algebra.Order.Ring.Rat
import Taas.Vocabulary

/-!
# The Redis hashes of taas

`app/schemas/redis.py`. A `job:<id>` hash holds a field for everything the submit wrote
and what dispatch, polling and harvesting recorded since; any of them may be missing.

* `JobHash` — the hash as it is stored, one optional entry per field, with its TTL.
* `JobState` — the hash as the workers read it.
* `JobState.fromHash`, `JobState.toHash` — the two directions.
-/

namespace Taas

/-- A metric of an engine run. -/
inductive Metric where
  | int (n : Int)
  | float (x : ℚ)
  | str (s : String)
deriving DecidableEq

/-- The engine's last status of a job's run: its stamps (ISO strings, engine clock) and its
metrics. -/
structure EngineRun where
  createdAt : Option String := none
  startedAt : Option String := none
  finishedAt : Option String := none
  metrics : List (String × Metric) := []
deriving DecidableEq

/-- A `job:<id>` hash. -/
structure JobHash where
  status : Option JobStatus := none
  username : Option String := none
  externalId : Option String := none
  batchId : Option String := none
  fmt : Option String := none
  domain : Option String := none
  outputs : Option (Finset String) := none
  mp : Option ℚ := none
  submittedAt : Option ℚ := none
  priority : Option Int := none
  claimedAt : Option ℚ := none
  queueScore : Option ℚ := none
  avoidBackends : Option (Finset Nat) := none
  requeues : Option Int := none
  engineJobId : Option String := none
  backendUrl : Option String := none
  backendId : Option Nat := none
  nextPollAt : Option ℚ := none
  lastPoll : Option ℚ := none
  harvestTimes : Option EngineRun := none
  harvestAttempts : Option Int := none
  error : Option String := none
  finishedAt : Option ℚ := none
  /-- Seconds of the last `EXPIRE`; `none` for a hash that never expires. -/
  ttl : Option Nat := none
deriving DecidableEq

def JobHash.expiring (ttl : Nat) (h : JobHash) : JobHash := { h with ttl := some ttl }

/-- A job's hash as the workers read it. -/
structure JobState where
  status : JobStatus := .queued
  username : String
  externalId : Option String := none
  batchId : Option String := none
  fmt : String
  domain : String := defaultDomain
  outputs : Finset String
  megapixels : ℚ := 1
  submittedAt : ℚ
  priority : Int := 0
  claimedAt : Option ℚ := none
  queueScore : Option ℚ := none
  avoidBackends : Finset Nat := ∅
  requeues : Int := 0
  engineJobId : Option String := none
  backendUrl : Option String := none
  backendId : Option Nat := none
  nextPollAt : Option ℚ := none
  lastPoll : Option ℚ := none
  harvestTimes : Option EngineRun := none
  harvestAttempts : Int := 0
  error : Option String := none
  finishedAt : Option ℚ := none
deriving DecidableEq

/-- An empty string is how the writers store "none". -/
def nonEmpty (text : Option String) : Option String := text.filter fun t => t ≠ ""

@[simp] theorem nonEmpty_none : nonEmpty none = none := rfl

theorem nonEmpty_some {t : String} (h : t ≠ "") : nonEmpty (some t) = some t := by
  simp [nonEmpty, h]

theorem nonEmpty_idem (t : Option String) : nonEmpty (nonEmpty t) = nonEmpty t := by
  unfold nonEmpty
  cases t with
  | none => rfl
  | some t => by_cases h : t = "" <;> simp [h]

namespace JobState

/-- The outputs of a hash; one enqueued by a release that stored only the legacy fmt has
none of its own. -/
def hashOutputs (raw : JobHash) : Option (Finset String) :=
  match raw.outputs.filter (fun o => o ≠ ∅) with
  | some outputs => some outputs
  | none => ((nonEmpty raw.fmt).bind Fmt.parse).map Fmt.outputs

/-- Parse a hash; `none` for one that lacks what every submit writes. -/
def fromHash (raw : JobHash) : Option JobState :=
  match nonEmpty raw.username, nonEmpty raw.fmt, hashOutputs raw, raw.submittedAt with
  | some username, some fmt, some outputs, some submittedAt =>
    some
      { status := raw.status.getD .queued
        username := username
        externalId := nonEmpty raw.externalId
        batchId := nonEmpty raw.batchId
        fmt := fmt
        domain := (nonEmpty raw.domain).getD defaultDomain
        outputs := outputs
        megapixels := raw.mp.getD 1
        submittedAt := submittedAt
        priority := raw.priority.getD 0
        claimedAt := raw.claimedAt
        queueScore := raw.queueScore
        avoidBackends := raw.avoidBackends.getD ∅
        requeues := raw.requeues.getD 0
        engineJobId := nonEmpty raw.engineJobId
        backendUrl := nonEmpty raw.backendUrl
        backendId := raw.backendId
        nextPollAt := raw.nextPollAt
        lastPoll := raw.lastPoll
        harvestTimes := raw.harvestTimes
        harvestAttempts := raw.harvestAttempts.getD 0
        error := nonEmpty raw.error
        finishedAt := raw.finishedAt }
  | _, _, _, _ => none

/-- The fields to `HSET`; what is `none` is left out. -/
def toHash (state : JobState) : JobHash where
  status := some state.status
  username := some state.username
  externalId := state.externalId
  batchId := state.batchId
  fmt := some state.fmt
  domain := some state.domain
  outputs := some state.outputs
  mp := some state.megapixels
  submittedAt := some state.submittedAt
  priority := some state.priority
  claimedAt := state.claimedAt
  queueScore := state.queueScore
  avoidBackends := some state.avoidBackends
  requeues := some state.requeues
  engineJobId := state.engineJobId
  backendUrl := state.backendUrl
  backendId := state.backendId
  nextPollAt := state.nextPollAt
  lastPoll := state.lastPoll
  harvestTimes := state.harvestTimes
  harvestAttempts := some state.harvestAttempts
  error := state.error
  finishedAt := state.finishedAt

/-- What a submit fills in: a queued job with a user, a format, a domain and outputs. -/
structure Submitted (state : JobState) : Prop where
  status : state.status = .queued
  username : state.username ≠ ""
  fmt : state.fmt ≠ ""
  domain : state.domain ≠ ""
  outputs : state.outputs ≠ ∅

end JobState

/-- A batch's `batch:<id>` progress counters. -/
structure BatchCounts where
  total : Int := 0
  done : Int := 0
  failed : Int := 0
deriving DecidableEq, Repr

end Taas

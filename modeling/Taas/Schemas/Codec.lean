import Mathlib
import Taas.Infra.SortedSet
import Taas.Strings
import Taas.Schemas.Redis

/-!
# The encoding of a job's hash

`JobState.from_hash` and `JobState.to_hash` of `app/schemas/redis.py`, string by string: a hash
stores every value as a text, sets as comma-separated values, options and the engine's last
status as JSON, and an empty string for "none".

* `EngineRun.toFlat`, `EngineRun.validate` — a run in JSON, its stamps beside its metrics.
* `FullState.toHash` — `model_dump`, then `_encode` of every value.
* `FullState.fromHash` — the texts by field, then `model_validate`.
-/

namespace Taas

/-- A JSON document. -/
inductive Json where
  | null
  | bool (b : Bool)
  | int (n : Int)
  | float (x : ℚ)
  | str (s : String)
  | arr (items : List Json)
  | obj (members : List (String × Json))

/-- How Python writes and reads floats and JSON. -/
structure Printing where
  strFloat : ℚ → String
  parseFloat : String → Option ℚ
  dumps : Json → String
  loads : String → Option Json

/-- A key or value of an `HGETALL` reply. -/
inductive RedisText where
  | str (s : String)
  | bytes (b : ByteArray)

/-- `_text`; `none` for bytes that are no UTF-8. -/
def RedisText.text : RedisText → Option String
  | str s => some s
  | bytes b => String.fromUTF8? b

/-! ## Engine runs -/

/-- `_RUN_STAMPS` -/
def runStamps : List String := ["created_at", "started_at", "finished_at"]

namespace Metric

def toJson : Metric → Json
  | int n => .int n
  | float x => .float x
  | str s => .str s

/-- `int | float | str`; a boolean is read as an integer. -/
def validate : Json → Option Metric
  | .int n => some (int n)
  | .float x => some (float x)
  | .str s => some (str s)
  | .bool b => some (int b.toInt)
  | _ => none

end Metric

namespace EngineRun

def stampJson (stamp : Option String) : Json := stamp.elim .null .str

/-- `_to_flat`: a stamp takes the place of a metric of its name. -/
def toFlat (run : EngineRun) : List (String × Json) :=
  ((run.metrics.filter fun m => m.1 ∉ runStamps).map fun m => (m.1, m.2.toJson)) ++
    [("created_at", stampJson run.createdAt), ("started_at", stampJson run.startedAt),
      ("finished_at", stampJson run.finishedAt)]

def isNull : Json → Bool
  | .null => true
  | _ => false

/-- `_from_flat` -/
def fromFlat (data : List (String × Json)) : List (String × Json) :=
  if (data.lookup "metrics").isSome then data
  else
    (runStamps.filterMap fun k => (data.lookup k).map fun v => (k, v)) ++
      [("metrics", .obj (data.filter fun kv => kv.1 ∉ runStamps ∧ !isNull kv.2))]

/-- `str | None = None` -/
def validateStamp (data : List (String × Json)) (stamp : String) : Option (Option String) :=
  match data.lookup stamp with
  | none | some .null => some none
  | some (.str s) => some (some s)
  | some _ => none

def validateMetrics (data : List (String × Json)) : Option (List (String × Metric)) :=
  match data.lookup "metrics" with
  | none => some []
  | some (.obj metrics) => metrics.mapM fun kv => (Metric.validate kv.2).map fun m => (kv.1, m)
  | some _ => none

def validate (data : List (String × Json)) : Option EngineRun := do
  let data := fromFlat data
  let createdAt ← validateStamp data "created_at"
  let startedAt ← validateStamp data "started_at"
  let finishedAt ← validateStamp data "finished_at"
  let metrics ← validateMetrics data
  return ⟨createdAt, startedAt, finishedAt, metrics⟩

end EngineRun

/-! ## States -/

/-- `JobState` whole: with the engine options, the image's extension and the trace context. -/
structure FullState extends JobState where
  options : List (String × Json) := []
  ext : String := ".jpg"
  /-- A dict, as the partial function it is. -/
  trace : String → Option String := fun _ => none

/-- `_CSV_FIELDS` -/
def csvFields : List String := ["outputs", "avoid_backends"]

/-- `_JSON_FIELDS` -/
def jsonFields : List String := ["options", "harvest_times"]

/-- `_TRACE_FIELDS` -/
def traceFields : List String := ["traceparent", "tracestate", "baggage"]

/-! ## Writing -/

/-- A value of `model_dump`. -/
inductive Dumped where
  | text (t : String)
  | int (n : Int)
  | float (x : ℚ)
  /-- A set, its items as texts. -/
  | set (items : Finset String)
  | dict (members : List (String × Json))

/-- `",".join(items)` -/
def joinCsv (items : List String) : String :=
  String.ofList ([','].intercalate (items.map String.toList))

/-- `text.split(",")` -/
def splitCsv (text : String) : List String := (text.toList.splitOn ',').map String.ofList

/-- `_encode` -/
def encode (io : Printing) : Dumped → String
  | .text t => t
  | .int n => n.repr
  | .float x => io.strFloat x
  | .set items => joinCsv (items.sort (· ≤ ·))
  | .dict members => io.dumps (.obj members)

namespace FullState

/-- `model_dump(by_alias=True, exclude={"trace"})`, with what is `None`. -/
def modelDump (s : FullState) : List (String × Option Dumped) :=
  [("status", some (.text s.status.value)),
    ("username", some (.text s.username)),
    ("external_id", s.externalId.map .text),
    ("batch_id", s.batchId.map .text),
    ("fmt", some (.text s.fmt)),
    ("domain", some (.text s.domain)),
    ("outputs", some (.set s.outputs)),
    ("options", some (.dict s.options)),
    ("ext", some (.text s.ext)),
    ("mp", some (.float s.megapixels)),
    ("submitted_at", some (.float s.submittedAt)),
    ("priority", some (.int s.priority)),
    ("claimed_at", s.claimedAt.map .float),
    ("queue_score", s.queueScore.map .float),
    ("avoid_backends", some (.set (s.avoidBackends.image Nat.repr))),
    ("requeues", some (.int s.requeues)),
    ("engine_job_id", s.engineJobId.map .text),
    ("backend_url", s.backendUrl.map .text),
    ("backend_id", s.backendId.map fun b => .int b),
    ("next_poll_at", s.nextPollAt.map .float),
    ("last_poll", s.lastPoll.map .float),
    ("harvest_times", s.harvestTimes.map fun run => .dict run.toFlat),
    ("harvest_attempts", some (.int s.harvestAttempts)),
    ("error", s.error.map .text),
    ("finished_at", s.finishedAt.map .float)]

/-- `to_hash`: the fields to `HSET`; what is `None` is left out. -/
def toHash (io : Printing) (s : FullState) : List (String × String) :=
  (s.modelDump.filterMap fun (name, value) => value.map fun v => (name, encode io v)) ++
    traceFields.filterMap fun name => (s.trace name).map fun value => (name, value)

end FullState

/-! ## Reading -/

/-- A value of `fields`, before validation. -/
inductive FieldValue where
  | text (t : String)
  | items (items : List String)
  | json (document : Json)
  | headers (trace : String → Option String)

/-- The dict that `from_hash` fills. -/
abbrev Fields := String → Option FieldValue

/-- `item.strip()` is not empty. -/
def NonBlank (item : String) : Prop := ∃ c ∈ item.toList, isSpace c = false

instance (item : String) : Decidable (NonBlank item) :=
  inferInstanceAs (Decidable (∃ c ∈ item.toList, isSpace c = false))

/-- `fields.setdefault("trace", {})[name] = text` -/
def Fields.setHeader (fields : Fields) (name text : String) : Option Fields :=
  match fields "trace" with
  | none =>
    some (Function.update fields "trace"
      (some (.headers (Function.update (fun _ => none) name (some text)))))
  | some (.headers trace) =>
    some (Function.update fields "trace"
      (some (.headers (Function.update trace name (some text)))))
  | some _ => none

/-- One turn of the loop over the reply. -/
def readItem (io : Printing) (fields : Fields) (item : String × String) : Option Fields :=
  let (name, text) := item
  if text = "" then some fields  -- how the writers store "none"
  else if name ∈ traceFields then fields.setHeader name text
  else if name ∈ csvFields then
    some (Function.update fields name (some (.items ((splitCsv text).filter NonBlank))))
  else if name ∈ jsonFields then
    (io.loads text).map fun document => Function.update fields name (some (.json document))
  else some (Function.update fields name (some (.text text)))

/-- The outputs of a hash that was enqueued with only the legacy `fmt`. -/
def legacyOutputs (fields : Fields) : Option Fields :=
  match fields "outputs", fields "fmt" with
  | none, some (.text fmt) => (Fmt.parse fmt).map fun f =>
    Function.update fields "outputs" (some (.items (f.outputs.sort (· ≤ ·))))
  | _, _ => some fields

namespace FieldValue

def parseText : FieldValue → Option String
  | text t => some t
  | _ => none

def parseInt : FieldValue → Option Int
  | text t => t.toInt?
  | _ => none

/-- A backend's id. -/
def parseId : FieldValue → Option Nat
  | text t => t.toNat?
  | _ => none

def parseFloat (io : Printing) : FieldValue → Option ℚ
  | text t => io.parseFloat t
  | _ => none

def parseStatus : FieldValue → Option JobStatus
  | text t => JobStatus.parse t
  | _ => none

def parseNames : FieldValue → Option (Finset String)
  | items l => some l.toFinset
  | _ => none

def parseIds : FieldValue → Option (Finset Nat)
  | items l => (l.mapM String.toNat?).map List.toFinset
  | _ => none

def parseDict : FieldValue → Option (List (String × Json))
  | json (.obj members) => some members
  | _ => none

/-- `EngineRun | None` -/
def parseRun : FieldValue → Option (Option EngineRun)
  | json .null => some none
  | json (.obj members) => (EngineRun.validate members).map some
  | _ => none

def parseTrace : FieldValue → Option (String → Option String)
  | headers trace => some trace
  | _ => none

end FieldValue

namespace Fields

variable {α : Type} (fields : Fields) (name : String) (parse : FieldValue → Option α)

/-- A field without a default. -/
def required : Option α := (fields name).bind parse

/-- A field with one. -/
def orElse (default : α) : Option α := (fields name).elim (some default) parse

/-- A field that may be `None`. -/
def optional : Option (Option α) := (fields name).elim (some none) fun v => (parse v).map some

end Fields

open FieldValue in
/-- `model_validate`; `none` is a `ValidationError`. -/
def FullState.validate (io : Printing) (fields : Fields) : Option FullState := do
  let status ← fields.orElse "status" parseStatus .queued
  let username ← fields.required "username" parseText
  let externalId ← fields.optional "external_id" parseText
  let batchId ← fields.optional "batch_id" parseText
  let fmt ← fields.required "fmt" parseText
  let domain ← fields.orElse "domain" parseText defaultDomain
  let outputs ← fields.required "outputs" parseNames
  let options ← fields.orElse "options" parseDict []
  let ext ← fields.orElse "ext" parseText ".jpg"
  let megapixels ←
    if (fields "megapixels").isSome then fields.required "megapixels" (parseFloat io)
    else fields.orElse "mp" (parseFloat io) 1
  let submittedAt ← fields.required "submitted_at" (parseFloat io)
  let priority ← fields.orElse "priority" parseInt 0
  let trace ← fields.orElse "trace" parseTrace fun _ => none
  let claimedAt ← fields.optional "claimed_at" (parseFloat io)
  let queueScore ← fields.optional "queue_score" (parseFloat io)
  let avoidBackends ← fields.orElse "avoid_backends" parseIds ∅
  let requeues ← fields.orElse "requeues" parseInt 0
  let engineJobId ← fields.optional "engine_job_id" parseText
  let backendUrl ← fields.optional "backend_url" parseText
  let backendId ← fields.optional "backend_id" parseId
  let nextPollAt ← fields.optional "next_poll_at" (parseFloat io)
  let lastPoll ← fields.optional "last_poll" (parseFloat io)
  let harvestTimes ← fields.orElse "harvest_times" parseRun none
  let harvestAttempts ← fields.orElse "harvest_attempts" parseInt 0
  let error ← fields.optional "error" parseText
  let finishedAt ← fields.optional "finished_at" (parseFloat io)
  let state : JobState :=
    { status, username, externalId, batchId, fmt, domain, outputs, megapixels, submittedAt,
      priority, claimedAt, queueScore, avoidBackends, requeues, engineJobId, backendUrl,
      backendId, nextPollAt, lastPoll, harvestTimes, harvestAttempts, error, finishedAt }
  return { state with options, ext, trace }

/-- `from_hash`: an `HGETALL` reply, in the order it came. -/
def FullState.fromHash (io : Printing) (raw : List (RedisText × RedisText)) :
    Option FullState := do
  let items ← raw.mapM fun (key, value) => do
    let name ← key.text
    let text ← value.text
    return (name, text)
  let fields ← items.foldlM (readItem io) fun _ => none
  let fields ← legacyOutputs fields
  FullState.validate io fields

end Taas

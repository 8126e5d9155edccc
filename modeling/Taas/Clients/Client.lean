import Taas.Schemas.Events

/-!
# The Python client's event handler

`clients/python/taas_client/client.py` and `_common.py`: what a client makes of the events that
come over its WebSocket.

* `isPageEvent`, `parseBatchEvent` — what an event is about.
* `TaasClient.handleEvent` — the handler: it fetches a job's outputs and calls the user back.
* `TaasClient.handleEvents` — one event after another.
-/

namespace Taas

abbrev Bytes := List UInt8

/-- A batch progress event pushed over the WebSocket. -/
structure BatchProgress where
  batchId : BatchId
  total : Int
  done : Int
  failed : Int
deriving DecidableEq

def BatchProgress.finished (progress : BatchProgress) : Bool :=
  progress.total ≤ progress.done + progress.failed

structure JobResult where
  jobId : JobId
  externalId : Option String := none
  alto : Option Bytes := none
  txt : Option Bytes := none
deriving DecidableEq

/-- A failed job, as `on_error` gets it. -/
structure JobFailure where
  jobId : JobId
  externalId : Option String := none
  error : Option String := none
  ts : Option ℚ := none
deriving DecidableEq

/-- The user's functions, with what they are called with. -/
inductive Callback where
  | onResult (result : JobResult)
  | onError (failure : JobFailure)
  | onBatch (progress : BatchProgress)
deriving DecidableEq

/-! ## Reading an event -/

namespace JsonValue

def truthy : JsonValue → Bool
  | null => false
  | str text => text ≠ ""
  | int n => n ≠ 0
  | uuid _ => true
  | time _ => true

def text? : JsonValue → Option String
  | str text => some text
  | _ => none

def int? : JsonValue → Option Int
  | int n => some n
  | _ => none

/-- `UUID(…)` of a job's id -/
def uuid? : JsonValue → Option JobId
  | uuid jobId => some jobId
  | _ => none

def time? : JsonValue → Option ℚ
  | time t => some t
  | _ => none

end JsonValue

/-- `event.get(key)`, when it is true. -/
def JsonObject.getTruthy (key : String) (event : JsonObject) : Option JsonValue :=
  (event.lookup key).filter JsonValue.truthy

def JsonObject.getText (key : String) (event : JsonObject) : Option String :=
  (event.lookup key).bind JsonValue.text?

/-- The outer `none` is a `KeyError` or a `ValueError`. -/
def parseBatchEvent (event : JsonObject) : Option (Option BatchProgress) :=
  if event.lookup "type" ≠ some (.str "batch") then some none
  else do
    let batchId ← event.getText "batch_id"
    let total ← (event.lookup "total").bind JsonValue.int?
    let done ← (event.lookup "done").bind JsonValue.int?
    let failed ← (event.lookup "failed").bind JsonValue.int?
    some (some ⟨batchId, total, done, failed⟩)

/-- A per-page job event this client fetches results for. Pages of a batch are left out: a
batch's results are downloaded as one archive. -/
def isPageEvent (event : JsonObject) : Bool :=
  (event.lookup "job_id").isSome && (event.lookup "status").isSome &&
    (event.getTruthy "batch_id").isNone

/-! ## The client -/

/-- What a client remembers. -/
structure TaasClient where
  /-- Whether the user gave an `on_batch`. -/
  hasOnBatch : Bool := false
  pending : Finset JobId := ∅
  allDone : Bool := false
  /-- Oldest first. -/
  finishedEarly : List JobId := []
  /-- The batches that someone waits for, and whether they finished. -/
  batchWaiters : Finmap (fun _ : BatchId => Bool) := ∅

/-- `_FINISHED_EARLY_MAX` -/
def finishedEarlyMax : Nat := 10000

namespace TaasClient

def resolve (jobId : JobId) (c : TaasClient) : TaasClient :=
  if jobId ∈ c.pending then
    { c with
      pending := c.pending.erase jobId
      allDone := c.allDone || decide (c.pending.erase jobId = ∅) }
  else
    let early := if jobId ∈ c.finishedEarly then c.finishedEarly else c.finishedEarly ++ [jobId]
    { c with finishedEarly := if finishedEarlyMax < early.length then early.tail else early }

/-- The end of a batch wakes the one who waits for it. -/
def progressed (progress : BatchProgress) (c : TaasClient) : TaasClient :=
  if (c.batchWaiters.lookup progress.batchId).isSome && progress.finished then
    { c with batchWaiters := c.batchWaiters.insert progress.batchId true }
  else c

variable (decompress : Bytes → Option Bytes) (fetchUrl : String → Option Bytes)

/-- The output behind a URL of the event, if it has one. The outer `none` is an exception: of
the request or of the decompression. -/
def fetchOutput (key : String) (event : JsonObject) : Option (Option Bytes) :=
  match event.getTruthy key with
  | none => some none
  | some url => (url.text?.bind fetchUrl >>= decompress).map some

/-- `_handle_event`; `none` when it raises, which is before it calls anybody back. -/
def handleEvent (event : JsonObject) (c : TaasClient) : Option (List Callback × TaasClient) := do
  let progress ← parseBatchEvent event
  match progress with
  | some progress =>
    some (if c.hasOnBatch then [.onBatch progress] else [], c.progressed progress)
  | none =>
    if !isPageEvent event then some ([], c) -- a batch page, or an event this client doesn't know
    else
      let jobId ← (event.lookup "job_id").bind JsonValue.uuid?
      let externalId := event.getText "external_id"
      if event.lookup "status" = some (.str "failed") then
        some ([.onError ⟨jobId, externalId, event.getText "error",
          (event.lookup "ts").bind JsonValue.time?⟩], c.resolve jobId)
      else if event.lookup "status" = some (.str "done") then do
        let alto ← fetchOutput decompress fetchUrl "alto_url" event
        let txt ← fetchOutput decompress fetchUrl "txt_url" event
        some ([.onResult ⟨jobId, externalId, alto, txt⟩], c.resolve jobId)
      else some ([], c)

end TaasClient

/-- A message that came over a connection, and what a request to a URL gives at that moment. -/
structure Delivery where
  message : Message
  fetchUrl : String → Option Bytes

/-- The handler on one event after another, whatever the connection. An event on which it raises
ends the connection: what that had still to bring is not among the events. -/
def TaasClient.handleEvents (decompress : Bytes → Option Bytes) :
    List Delivery → TaasClient → List Callback
  | [], _ => []
  | d :: ds, c =>
    match c.handleEvent decompress d.fetchUrl d.message.json with
    | none => handleEvents decompress ds c
    | some (calls, c) => calls ++ handleEvents decompress ds c

end Taas

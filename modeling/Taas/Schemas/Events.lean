import Taas.Services.RedisJobs

/-!
# Events on the wire

What a message is once it is JSON: the objects that `job_event_payload` and `batch_event`
build, as a client reads them.

* `JsonObject` — an object of an event.
* `Message.json` — the object of a message.
-/

namespace Taas

/-- The values that events have. -/
inductive JsonValue where
  | null
  | str (text : String)
  | int (n : Int)
  | uuid (jobId : JobId)
  | time (t : ℚ)
deriving DecidableEq

abbrev JsonObject := Finmap fun _ : String => JsonValue

namespace JsonObject

def set (key : String) (value : JsonValue) (o : JsonObject) : JsonObject := o.insert key value

/-- A field that is left out when it has no value. -/
def setSome (key : String) (value : Option JsonValue) (o : JsonObject) : JsonObject :=
  match value with
  | none => o
  | some value => o.set key value

variable {o : JsonObject} {key key' : String}

theorem lookup_set (value : JsonValue) :
    (o.set key value).lookup key' = if key' = key then some value else o.lookup key' := by
  by_cases h : key' = key
  · subst h
    rw [if_pos rfl]
    exact Finmap.lookup_insert _
  · rw [if_neg h]
    exact Finmap.lookup_insert_of_ne _ h

theorem lookup_setSome (value : Option JsonValue) :
    (o.setSome key value).lookup key' = if key' = key then value <|> o.lookup key' else
      o.lookup key' := by
  cases value with
  | none => simp [setSome]
  | some value => simp [setSome, lookup_set]

/-- `{f"{output}_url": url for …}` -/
def setUrls (urls : List (String × String)) (o : JsonObject) : JsonObject :=
  urls.foldl (fun o url => o.set url.1 (.str url.2)) o

theorem lookup_setUrls_of_not_mem {urls : List (String × String)} (h : key ∉ urls.map Prod.fst) :
    (o.setUrls urls).lookup key = o.lookup key := by
  induction urls generalizing o with
  | nil => rfl
  | cons url urls ih =>
    rw [List.map_cons, List.mem_cons, not_or] at h
    refine (ih h.2).trans ?_
    rw [lookup_set, if_neg h.1]

theorem lookup_setUrls_of_mem {urls : List (String × String)} (hnodup : (urls.map Prod.fst).Nodup)
    {url : String} (h : (key, url) ∈ urls) : (o.setUrls urls).lookup key = some (.str url) := by
  induction urls generalizing o with
  | nil => cases h
  | cons u urls ih =>
    rw [List.map_cons, List.nodup_cons] at hnodup
    rcases List.mem_cons.mp h with rfl | h
    · refine (lookup_setUrls_of_not_mem hnodup.1).trans ?_
      rw [lookup_set, if_pos rfl]
    · exact ih hnodup.2 h

end JsonObject

/-- The object that `job_event_payload` returns, with the `error` that the catch-up adds. -/
def JobEvent.json (event : JobEvent) : JsonObject :=
  (((((JsonObject.set "job_id" (.uuid event.jobId) ∅).set "external_id"
    ((event.externalId.map .str).getD .null)).set "status" (.str event.status.value)).setUrls
      event.urls).setSome "ts" (event.ts.map .time)).setSome "error" (event.error.map .str)
        |>.setSome "batch_id" (event.batchId.map .str)

/-- The object that `batch_event` returns. -/
def BatchCounts.json (batchId : BatchId) (counts : BatchCounts) : JsonObject :=
  ((((JsonObject.set "type" (.str "batch") ∅).set "batch_id" (.str batchId)).set "total"
    (.int counts.total)).set "done" (.int counts.done)).set "failed" (.int counts.failed)

def Message.json : Message → JsonObject
  | .job event => event.json
  | .batch batchId counts => counts.json batchId

end Taas

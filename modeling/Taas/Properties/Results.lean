import Taas.Clients.Client
import Taas.Routers.Ws

/-!
# What clients get of a job

The server sends a finished job twice, as a live event and when a connection catches up, and
the client decides from the fields that are there.

* `Sends` — the events that the server can send for a job.
* `handleEvent_done`, `handleEvent_failed` — what the client makes of each.
* `results_iff` — a client gets the right results unless a replayed event says otherwise.
-/

namespace Taas

open Infra Infra.Prog

/-! ## The object of an event -/

namespace JobEvent

variable {event : JobEvent} {key : String}

/-- The other fields than the URLs. -/
def fields (event : JobEvent) : JsonObject :=
  ((JsonObject.set "job_id" (.uuid event.jobId) ∅).set "external_id"
    ((event.externalId.map .str).getD .null)).set "status" (.str event.status.value)

theorem lookup_json (key : String) : event.json.lookup key =
    if key = "batch_id" then event.batchId.map .str <|> (event.fields.setUrls event.urls).lookup key
    else if key = "error" then event.error.map .str <|> (event.fields.setUrls event.urls).lookup key
    else if key = "ts" then event.ts.map .time <|> (event.fields.setUrls event.urls).lookup key
    else (event.fields.setUrls event.urls).lookup key := by
  rw [json, JsonObject.lookup_setSome, JsonObject.lookup_setSome, JsonObject.lookup_setSome]
  by_cases hbatch : key = "batch_id"
  · subst hbatch
    simp [fields]
  · by_cases herror : key = "error"
    · subst herror
      simp [fields]
    · simp [fields, hbatch, herror]

/-- The keys of the URLs are no other field's. -/
def Plain (event : JobEvent) : Prop :=
  ∀ key ∈ ["type", "job_id", "external_id", "status", "ts", "error", "batch_id"],
    key ∉ event.urls.map Prod.fst

theorem lookup_fields (hkey : key ∉ event.urls.map Prod.fst) :
    (event.fields.setUrls event.urls).lookup key = event.fields.lookup key :=
  JsonObject.lookup_setUrls_of_not_mem hkey

variable (h : event.Plain)
include h

theorem lookup_type : event.json.lookup "type" = none := by
  rw [lookup_json, lookup_fields (h _ (by decide))]
  simp [fields, JsonObject.lookup_set]

theorem lookup_jobId : event.json.lookup "job_id" = some (.uuid event.jobId) := by
  rw [lookup_json, lookup_fields (h _ (by decide))]
  simp [fields, JsonObject.lookup_set]

theorem lookup_status : event.json.lookup "status" = some (.str event.status.value) := by
  rw [lookup_json, lookup_fields (h _ (by decide))]
  simp [fields, JsonObject.lookup_set]

theorem lookup_batchId : event.json.lookup "batch_id" = event.batchId.map .str := by
  rw [lookup_json, lookup_fields (h _ (by decide))]
  simp [fields, JsonObject.lookup_set]

theorem isPageEvent_json : isPageEvent event.json = (nonEmpty event.batchId).isNone := by
  unfold isPageEvent JsonObject.getTruthy
  rw [lookup_jobId h, lookup_status h, lookup_batchId h]
  cases event.batchId with
  | none => rfl
  | some batchId => by_cases hb : batchId = "" <;> simp [JsonValue.truthy, nonEmpty, hb]

theorem parseBatchEvent_json : parseBatchEvent event.json = some none := by
  rw [parseBatchEvent, if_pos]
  rw [lookup_type h]
  exact nofun

end JobEvent

/-- A progress event is one. -/
theorem parseBatchEvent_batch (batchId : BatchId) (counts : BatchCounts) :
    parseBatchEvent (counts.json batchId) =
      some (some ⟨batchId, counts.total, counts.done, counts.failed⟩) := by
  simp [parseBatchEvent, BatchCounts.json, JsonObject.getText, JsonObject.lookup_set,
    JsonValue.text?, JsonValue.int?]

/-! ## A job and its events -/

/-- An output that a job stored: what it is, its URL and its text. -/
structure StoredOutput where
  output : String
  url : String
  raw : Bytes

/-- A finished job. A presigned URL is never empty. -/
structure FinishedJob where
  jobId : JobId
  batchId : Option BatchId
  outputs : List StoredOutput
  nodup : (outputs.map StoredOutput.output).Nodup
  presigned : ∀ out ∈ outputs, out.url ≠ ""

namespace FinishedJob

/-- `stored.urls` -/
def urls (job : FinishedJob) : List (String × String) :=
  job.outputs.map fun out => (out.output, out.url)

/-- The live event of `_report_done`. -/
def doneEvent (job : FinishedJob) (externalId : Option String) : JobEvent where
  jobId := job.jobId
  externalId := nonEmpty externalId
  status := .done
  batchId := nonEmpty job.batchId
  urls := job.urls.map fun u => (u.1 ++ "_url", u.2)

/-- The event of the job when it failed. -/
def failedEvent (job : FinishedJob) (externalId : Option String) (error : String) : JobEvent where
  jobId := job.jobId
  externalId := externalId
  status := .failed
  batchId := job.batchId
  error := some error

/-- The job is a page of a batch. -/
def IsPage (job : FinishedJob) : Prop := nonEmpty job.batchId ≠ none

end FinishedJob

/-- What the server can send a connection for the job. -/
inductive Sends (job : FinishedJob) : Message → Prop
  /-- A row that the catch-up query found. -/
  | catchUp {username : String} {cutoff : ℚ} {row : JobRow} (hrow : row.recent username cutoff)
      (hbatch : row.batchId = job.batchId) : Sends job (catchUpEvent (job.jobId, row))
  /-- A message of a whole `_report_done` for the job. -/
  | reported {ι : Type} {i : ι} {state : JobState} {batch : Option (BatchId × BatchCounts)}
      {stores : Stores ι} {username : String} {message : Message}
      (hbatch : state.batchId = job.batchId)
      (hmem : ⟨i, .inl (.published username message)⟩ ∈
        trace (reportDone i job.jobId state job.urls batch) stores) : Sends job message
  /-- The event of a failed job. -/
  | failed (externalId : Option String) (error : String) :
      Sends job (jobEventPayload (job.failedEvent externalId error))

/-- A done job that a connection caught up with: only catch-up events have a time. -/
def Message.Replays (message : Message) : Prop :=
  ∃ event, message = .job event ∧ event.status = .done ∧ event.ts ≠ none

theorem trace_publishEvent {ι : Type} (i : ι) (username : String) (message : Message)
    (stores : Stores ι) : trace (onRedis i (publishEvent username message)) stores =
      [⟨i, .inl (.published username message)⟩] := rfl

theorem trace_publishBatch {ι : Type} (i : ι) (username : String)
    (batch : Option (BatchId × BatchCounts)) (stores : Stores ι) :
    trace (publishBatch i username batch) stores =
      batch.toList.map fun counts => ⟨i, .inl (.published username (batchEvent counts))⟩ := by
  cases batch with
  | none => rfl
  | some counts => rfl

/-- The events are of four kinds. -/
theorem Sends.cases {job : FinishedJob} {message : Message} (h : Sends job message) :
    (∃ row : JobRow, row.status.isTerminal = true ∧ row.finishedAt ≠ none ∧
        message = catchUpEvent (job.jobId, row)) ∨
      (∃ externalId, message = .job (job.doneEvent externalId)) ∨
        (∃ externalId error, message = jobEventPayload (job.failedEvent externalId error)) ∨
          ∃ batchId counts, message = .batch batchId counts := by
  cases h with
  | @catchUp username cutoff row hrow hbatch =>
    simp only [JobRow.recent, Bool.and_eq_true] at hrow
    refine Or.inl ⟨row, hrow.2, fun hnone => ?_, rfl⟩
    rw [hnone] at hrow
    exact Bool.false_ne_true hrow.1.2
  | @reported ι i state batch stores username _ hbatch hmem =>
    rw [reportDone, trace_bind, trace_publishEvent, trace_publishBatch] at hmem
    rcases List.mem_append.mp hmem with hmem | hmem
    · refine Or.inr (Or.inl ⟨state.externalId, ?_⟩)
      cases List.mem_singleton.mp hmem
      rw [FinishedJob.doneEvent, ← hbatch]
      rfl
    · obtain ⟨counts, -, heq⟩ := List.mem_map.mp hmem
      cases heq
      exact Or.inr (Or.inr (Or.inr ⟨counts.1, counts.2, rfl⟩))
  | failed externalId error => exact Or.inr (Or.inr (Or.inl ⟨externalId, error, rfl⟩))

/-! ## What the client makes of them -/

/-- No field has the key of a URL. -/
theorem url_ne {output key : String} (hkey : key.toList.getLast? ≠ some 'l') :
    output ++ "_url" ≠ key := by
  rintro rfl
  refine hkey ?_
  rw [String.toList_append, List.getLast?_append]
  rfl

theorem FinishedJob.plain_doneEvent (job : FinishedJob) (externalId : Option String) :
    (job.doneEvent externalId).Plain := by
  intro key hkey hmem
  obtain ⟨u, hu, rfl⟩ := List.mem_map.mp hmem
  obtain ⟨u, -, rfl⟩ := List.mem_map.mp hu
  have hlast : ∀ key ∈ ["type", "job_id", "external_id", "status", "ts", "error", "batch_id"],
    key.toList.getLast? ≠ some 'l' := by decide
  exact url_ne (hlast _ hkey) rfl

/-- An event without URLs. -/
theorem JobEvent.plain_of_no_urls {event : JobEvent} (h : event.urls = []) : event.Plain := by
  intro key _ hmem
  rw [h] at hmem
  cases hmem

variable {decompress : Bytes → Option Bytes} {fetchUrl : String → Option Bytes} {c c' : TaasClient}
  {calls : List Callback} {event : JobEvent}

/-- The client passes over the pages of batches. -/
theorem handleEvent_page (h : event.Plain) (hpage : nonEmpty event.batchId ≠ none) :
    c.handleEvent decompress fetchUrl event.json = some ([], c) := by
  have hevent : isPageEvent event.json = false := by
    rw [JobEvent.isPageEvent_json h, Option.isNone_eq_false_iff, Option.isSome_iff_ne_none]
    exact hpage
  rw [TaasClient.handleEvent, JobEvent.parseBatchEvent_json h]
  simp [hevent]

theorem handleEvent_failed (h : event.Plain) (hfailed : event.status = .failed)
    (hcalls : c.handleEvent decompress fetchUrl event.json = some (calls, c')) :
    ∀ result, .onResult result ∉ calls := by
  intro result hmem
  by_cases hpage : nonEmpty event.batchId = none
  · rw [TaasClient.handleEvent, JobEvent.parseBatchEvent_json h] at hcalls
    simp [JobEvent.isPageEvent_json h, hpage, JobEvent.lookup_jobId h, JobEvent.lookup_status h,
      hfailed, JobStatus.value, JsonValue.uuid?] at hcalls
    rw [← hcalls.1] at hmem
    cases List.mem_singleton.mp hmem
  · rw [handleEvent_page h hpage] at hcalls
    cases hcalls
    cases hmem

/-- A done job that is not a page is fetched and reported. -/
theorem handleEvent_done (h : event.Plain) (hdone : event.status = .done)
    (hpage : nonEmpty event.batchId = none) :
    c.handleEvent decompress fetchUrl event.json =
      (TaasClient.fetchOutput decompress fetchUrl "alto_url" event.json).bind fun alto =>
        (TaasClient.fetchOutput decompress fetchUrl "txt_url" event.json).bind fun txt =>
          some ([.onResult ⟨event.jobId, event.json.getText "external_id", alto, txt⟩],
            c.resolve event.jobId) := by
  rw [TaasClient.handleEvent, JobEvent.parseBatchEvent_json h]
  simp [JobEvent.isPageEvent_json h, hpage, JobEvent.lookup_jobId h, JobEvent.lookup_status h,
    hdone, JobStatus.value, JsonValue.uuid?]

theorem lookup_url (event : JobEvent) (output : String)
    (hkey : output ++ "_url" ∉ ["type", "job_id", "external_id", "status", "ts", "error",
      "batch_id"]) :
    event.json.lookup (output ++ "_url") =
      (event.fields.setUrls event.urls).lookup (output ++ "_url") := by
  simp only [List.mem_cons, not_or] at hkey
  rw [JobEvent.lookup_json, if_neg hkey.2.2.2.2.2.2.1, if_neg hkey.2.2.2.2.2.1, if_neg hkey.2.2.2.2.1]

theorem lookup_fields_url {event : JobEvent} {output : String}
    (hkey : output ++ "_url" ∉ ["type", "job_id", "external_id", "status", "ts", "error",
      "batch_id"]) : event.fields.lookup (output ++ "_url") = none := by
  simp only [List.mem_cons, not_or] at hkey
  simp [JobEvent.fields, JsonObject.lookup_set, hkey]

/-- An event without URLs has nothing to fetch. -/
theorem fetchOutput_of_no_urls (output : String) (h : event.urls = [])
    (hkey : output ++ "_url" ∉ ["type", "job_id", "external_id", "status", "ts", "error",
      "batch_id"]) :
    TaasClient.fetchOutput decompress fetchUrl (output ++ "_url") event.json = some none := by
  have hnone : event.json.getTruthy (output ++ "_url") = none := by
    rw [JsonObject.getTruthy, lookup_url event output hkey, h]
    change (event.fields.lookup _).filter _ = none
    rw [lookup_fields_url hkey, Option.filter_none]
  rw [TaasClient.fetchOutput, hnone]

/-- What the client gets of a stored output: its text, unless it can't be fetched. -/
theorem fetchOutput_done {job : FinishedJob} {externalId : Option String} {out : StoredOutput}
    (hout : out ∈ job.outputs)
    (hfetch : ∀ z, fetchUrl out.url = some z → decompress z = some out.raw)
    (hkey : out.output ++ "_url" ∉ ["type", "job_id", "external_id", "status", "ts", "error",
      "batch_id"]) {result : Option Bytes}
    (h : TaasClient.fetchOutput decompress fetchUrl (out.output ++ "_url")
      (job.doneEvent externalId).json = some result) : result = some out.raw := by
  have hmem : (out.output ++ "_url", out.url) ∈ (job.doneEvent externalId).urls :=
    List.mem_map.mpr ⟨(out.output, out.url), List.mem_map_of_mem hout, rfl⟩
  -- different outputs have different keys
  have hnodup : ((job.doneEvent externalId).urls.map Prod.fst).Nodup := by
    have hmap : (job.doneEvent externalId).urls.map Prod.fst =
        (job.outputs.map StoredOutput.output).map (· ++ "_url") := by
      simp [FinishedJob.doneEvent, FinishedJob.urls]
    rw [hmap]
    exact job.nodup.map fun _ _ => String.append_left_inj _ |>.mp
  have hlookup := (lookup_url (job.doneEvent externalId) out.output hkey).trans
    (JsonObject.lookup_setUrls_of_mem hnodup hmem)
  have hget : (job.doneEvent externalId).json.getTruthy (out.output ++ "_url") =
      some (.str out.url) := by
    rw [JsonObject.getTruthy, hlookup, Option.filter_some_pos]
    exact decide_eq_true (job.presigned out hout)
  rw [TaasClient.fetchOutput, hget] at h
  change ((fetchUrl out.url).bind decompress).map some = some result at h
  cases hz : fetchUrl out.url with
  | none => rw [hz] at h; cases h
  | some z =>
    rw [hz, Option.bind_some, hfetch z hz, Option.map_some, Option.some.injEq] at h
    exact h.symm

/-! ## The results -/

/-- A call of `on_result` is for no batch page, and it carries the ALTO and the text that the job
stored. -/
def Callback.Right (job : FinishedJob) : Callback → Prop
  | .onResult result => ¬job.IsPage ∧ ∀ out ∈ job.outputs,
      (out.output = "alto" → result.alto = some out.raw) ∧
        (out.output = "txt" → result.txt = some out.raw)
  | .onError _ => True
  | .onBatch _ => True

/-- The job is not a page and stored neither ALTO nor text. -/
def FinishedJob.Bare (job : FinishedJob) : Prop :=
  ¬job.IsPage ∧ ∀ out ∈ job.outputs, out.output ≠ "alto" ∧ out.output ≠ "txt"

/-- What a replayed event of a done job leads to. -/
theorem handleEvent_catchUp (jobId : JobId) {row : JobRow} (hdone : row.status = .done) :
    (c.handleEvent decompress fetchUrl (catchUpEvent (jobId, row)).json =
      some ([.onResult ⟨jobId, (catchUpEvent (jobId, row)).json.getText "external_id", none, none⟩],
        c.resolve jobId)) := by
  set event : JobEvent := { jobId := jobId, externalId := nonEmpty row.externalId,
                            status := row.status, ts := row.finishedAt,
                            error := nonEmpty row.error } with hevent
  change c.handleEvent decompress fetchUrl event.json = some ([.onResult ⟨event.jobId,
    event.json.getText "external_id", none, none⟩], c.resolve event.jobId)
  have hplain : event.Plain := JobEvent.plain_of_no_urls rfl
  have halto : TaasClient.fetchOutput decompress fetchUrl "alto_url" event.json = some none :=
    fetchOutput_of_no_urls "alto" rfl (by decide)
  have htxt : TaasClient.fetchOutput decompress fetchUrl "txt_url" event.json = some none :=
    fetchOutput_of_no_urls "txt" rfl (by decide)
  rw [handleEvent_done hplain hdone rfl, halto, htxt]
  rfl

/-- **One event: the calls are right unless it is replayed, for a job that is not bare.** -/
theorem handleEvent_right_iff {job : FinishedJob} {message : Message} (hsends : Sends job message)
    (hfetch : ∀ out ∈ job.outputs, ∀ z, fetchUrl out.url = some z → decompress z = some out.raw) :
    (∀ calls c', c.handleEvent decompress fetchUrl message.json = some (calls, c') →
      ∀ call ∈ calls, call.Right job) ↔ (message.Replays → job.Bare) := by
  rcases hsends.cases with ⟨row, hterminal, hts, rfl⟩ | ⟨externalId, rfl⟩ |
    ⟨externalId, error, rfl⟩ | ⟨batchId, counts, rfl⟩
  · cases hstatus : row.status with
    | done =>
      have hreplays : (catchUpEvent (job.jobId, row)).Replays := ⟨_, rfl, hstatus, hts⟩
      rw [handleEvent_catchUp job.jobId hstatus, forall_prop_of_true hreplays]
      constructor
      · intro h
        obtain ⟨hpage, hout⟩ := h _ _ rfl _ List.mem_cons_self
        exact ⟨hpage, fun out hmem => ⟨fun he => (nomatch (hout out hmem).1 he),
          fun he => (nomatch (hout out hmem).2 he)⟩⟩
      · rintro hbare calls c' heq call hcall
        cases heq
        obtain rfl := List.mem_singleton.mp hcall
        exact ⟨hbare.1, fun out hmem => ⟨fun he => absurd he (hbare.2 out hmem).1,
          fun he => absurd he (hbare.2 out hmem).2⟩⟩
    | failed =>
      refine iff_of_true (fun calls c' heq call hcall => ?_) ?_
      · have hno := handleEvent_failed (JobEvent.plain_of_no_urls rfl) hstatus heq
        cases call with
        | onResult result => exact absurd hcall (hno result)
        | onError failure => trivial
        | onBatch progress => trivial
      · rintro ⟨event, heq, hdone, -⟩
        cases heq
        rw [hstatus] at hdone
        cases hdone
    | queued => rw [hstatus] at hterminal; cases hterminal
    | running => rw [hstatus] at hterminal; cases hterminal
    | storing => rw [hstatus] at hterminal; cases hterminal
  · refine iff_of_true (fun calls c' heq call hcall => ?_) ?_
    · by_cases hpage : nonEmpty (job.doneEvent externalId).batchId = none
      · change c.handleEvent decompress fetchUrl (job.doneEvent externalId).json = _ at heq
        rw [handleEvent_done (job.plain_doneEvent externalId) rfl hpage] at heq
        obtain ⟨alto, halto, heq⟩ := Option.bind_eq_some_iff.mp heq
        obtain ⟨txt, htxt, heq⟩ := Option.bind_eq_some_iff.mp heq
        cases heq
        obtain rfl := List.mem_singleton.mp hcall
        refine ⟨fun hp => hp ?_, fun out hmem => ⟨fun he => ?_, fun he => ?_⟩⟩
        · change nonEmpty (nonEmpty job.batchId) = none at hpage
          rwa [nonEmpty_idem] at hpage
        · refine fetchOutput_done hmem (hfetch out hmem) ?_ (by rw [he]; exact halto)
          rw [he]
          decide
        · refine fetchOutput_done hmem (hfetch out hmem) ?_ (by rw [he]; exact htxt)
          rw [he]
          decide
      · change c.handleEvent decompress fetchUrl (job.doneEvent externalId).json = _ at heq
        rw [handleEvent_page (job.plain_doneEvent externalId) hpage] at heq
        cases heq
        cases hcall
    · rintro ⟨event, heq, -, hts⟩
      cases heq
      exact absurd rfl hts
  · refine iff_of_true (fun calls c' heq call hcall => ?_) ?_
    · have hno := handleEvent_failed (JobEvent.plain_of_no_urls rfl) rfl heq
      cases call with
      | onResult result => exact absurd hcall (hno result)
      | onError failure => trivial
      | onBatch progress => trivial
    · rintro ⟨event, heq, hdone, -⟩
      cases heq
      cases hdone
  · refine iff_of_true (fun calls c' heq call hcall => ?_) ?_
    · change c.handleEvent decompress fetchUrl (counts.json batchId) = _ at heq
      rw [TaasClient.handleEvent, parseBatchEvent_batch] at heq
      cases heq
      split at hcall
      · obtain rfl := List.mem_singleton.mp hcall
        trivial
      · cases hcall
    · rintro ⟨event, heq, -⟩
      cases heq

/-- **The clients get the right results, and only their own pages', exactly if no event of a done
job is replayed to them that is a batch page or stored ALTO or text.** -/
theorem results_iff (decompress : Bytes → Option Bytes) (job : FinishedJob) (ds : List Delivery)
    (hsends : ∀ d ∈ ds, Sends job d.message)
    (hfetch : ∀ d ∈ ds, ∀ out ∈ job.outputs, ∀ z, d.fetchUrl out.url = some z →
      decompress z = some out.raw) (c : TaasClient) :
    (∀ call ∈ c.handleEvents decompress ds, call.Right job) ↔
      ∀ d ∈ ds, d.message.Replays → job.Bare := by
  induction ds generalizing c with
  | nil => exact iff_of_true (fun _ h => nomatch h) fun _ h => nomatch h
  | cons d ds ih =>
    have hfirst := handleEvent_right_iff (c := c) (hsends d List.mem_cons_self)
      (hfetch d List.mem_cons_self)
    have hrest := fun c => ih (fun d hd => hsends d (List.mem_cons_of_mem _ hd))
      (fun d hd => hfetch d (List.mem_cons_of_mem _ hd)) c
    rw [List.forall_mem_cons, ← hfirst, TaasClient.handleEvents]
    cases hcalls : c.handleEvent decompress d.fetchUrl d.message.json with
    | none =>
      refine (hrest c).trans (iff_and_self.mpr fun _ calls c' heq => nomatch heq)
    | some result =>
      dsimp only
      rw [List.forall_mem_append, hrest]
      refine and_congr_left fun _ => ⟨fun h calls c' heq => ?_, fun h => h _ _ rfl⟩
      cases heq
      exact h

/-- A job that stored its ALTO. -/
def altoJob (batchId : Option BatchId) : FinishedJob where
  jobId := 1
  batchId := batchId
  outputs := [⟨"alto", "https://minio/1.xml.zst", [1, 2]⟩]
  nodup := by decide
  presigned := by decide

/-- A Zstandard frame of one raw block that says its size in a byte. -/
def unframe : Bytes → Option Bytes
  | 0x28 :: 0xB5 :: 0x2F :: 0xFD :: 0x20 :: size :: block :: 0 :: 0 :: raw =>
    if size.toNat = raw.length ∧ block.toNat = 8 * raw.length + 1 then some raw else none
  | _ => none

/-- The storage, up. -/
def storageUp (url : String) : Option Bytes :=
  if url = "https://minio/1.xml.zst" then
    some [0x28, 0xB5, 0x2F, 0xFD, 0x20, 2, 0x11, 0, 0, 1, 2]
  else if url = "https://minio/1.txt.zst" then
    some [0x28, 0xB5, 0x2F, 0xFD, 0x20, 1, 0x09, 0, 0, 3]
  else none

/-- The job's row after its harvest. -/
def altoRow (batchId : Option BatchId) : JobRow where
  username := "alice"
  status := .done
  batchId := batchId
  submittedAt := 0
  finishedAt := some 5

/-- A connection catches up with the job. -/
def altoReplay (batchId : Option BatchId) : Delivery :=
  ⟨catchUpEvent (1, altoRow batchId), storageUp⟩

theorem sends_altoReplay (batchId : Option BatchId) :
    Sends (altoJob batchId) (altoReplay batchId).message :=
  @Sends.catchUp (altoJob batchId) "alice" 0 (altoRow batchId)
    (by simp [JobRow.recent, altoRow, JobStatus.isTerminal]) rfl

/-- The client is called back without the ALTO. -/
theorem handleEvents_altoReplay (batchId : Option BatchId) :
    TaasClient.handleEvents unframe [altoReplay batchId] {} =
      [.onResult ⟨1, none, none, none⟩] := by
  have hcalls : TaasClient.handleEvent unframe (altoReplay batchId).fetchUrl
      (altoReplay batchId).message.json {} =
        some ([.onResult ⟨1, none, none, none⟩], TaasClient.resolve 1 {}) := by
    refine Eq.trans (handleEvent_catchUp 1 rfl) ?_
    have hlabel : (catchUpEvent (1, altoRow batchId)).json.getText "external_id" = none := by
      show (catchUpEvent (1, altoRow none)).json.getText "external_id" = none
      decide +kernel
    rw [hlabel]
  rw [TaasClient.handleEvents, hcalls]
  rfl

/-- A client that reconnects gets a result without its ALTO, and one for the page of a batch. -/
theorem replayed_result :
    (Sends (altoJob none) (altoReplay none).message ∧ ¬∀ call ∈
      TaasClient.handleEvents unframe [altoReplay none] {}, call.Right (altoJob none)) ∧
    (Sends (altoJob (some "b")) (altoReplay (some "b")).message ∧ ¬∀ call ∈
      TaasClient.handleEvents unframe [altoReplay (some "b")] {},
        call.Right (altoJob (some "b"))) := by
  refine ⟨⟨sends_altoReplay none, fun h => ?_⟩, ⟨sends_altoReplay _, fun h => ?_⟩⟩
  · rw [handleEvents_altoReplay] at h
    obtain ⟨-, hout⟩ := h _ List.mem_cons_self
    cases (hout _ List.mem_cons_self).1 rfl
  · rw [handleEvents_altoReplay] at h
    obtain ⟨hpage, -⟩ := h _ List.mem_cons_self
    exact hpage (show nonEmpty (some "b") ≠ none by decide)

/-- A job that stored its ALTO and its text. -/
def bothJob : FinishedJob where
  jobId := 1
  batchId := none
  outputs := [⟨"alto", "https://minio/1.xml.zst", [1, 2]⟩, ⟨"txt", "https://minio/1.txt.zst", [3]⟩]
  nodup := by decide
  presigned := by decide

/-- What the poller that harvested the job has of it. -/
def bothState : JobState where
  username := "alice"
  fmt := "alto"
  outputs := {"alto", "txt"}
  submittedAt := 0

def altoStores : Stores Unit where
  db := { jobs := { rows := {1}, committed := fun _ => altoRow none }
          batches := { rows := ∅, committed := fun _ => {} } }

/-- The job as the reaper left it, and its live event, once while the storage is down. -/
def bothDeliveries : List Delivery :=
  [⟨catchUpEvent (1, { altoRow none with status := .failed }), fun _ => none⟩,
    ⟨.job (bothJob.doneEvent none), fun _ => none⟩, ⟨.job (bothJob.doneEvent none), storageUp⟩]

/-- The failure is reported, and the last event brings the ALTO and the text. -/
theorem results_iff_live : ∃ calls,
    calls = TaasClient.handleEvents unframe bothDeliveries {} ∧
      calls = [.onError ⟨1, none, none, some 5⟩, .onResult ⟨1, none, some [1, 2], some [3]⟩] ∧
        ∀ call ∈ calls, call.Right bothJob := by
  have hfailed : Sends bothJob (catchUpEvent (1, { altoRow none with status := .failed })) :=
    @Sends.catchUp bothJob "alice" 0 { altoRow none with status := .failed }
      (by simp [JobRow.recent, altoRow, JobStatus.isTerminal]) rfl
  have hlive : Sends bothJob (.job (bothJob.doneEvent none)) :=
    @Sends.reported bothJob Unit () bothState none altoStores "alice" _ rfl
      (List.mem_append_left _ List.mem_cons_self)
  have hthree : ∀ d ∈ bothDeliveries, d = bothDeliveries[0] ∨ d = bothDeliveries[1] ∨
      d = bothDeliveries[2] := by
    simp [bothDeliveries]
  refine ⟨_, rfl, by decide +kernel,
    (results_iff unframe bothJob bothDeliveries (fun d hd => ?_) (fun d hd out hout z hz => ?_)
      {}).mpr fun d hd hreplays => ?_⟩
  · obtain rfl | rfl | rfl := hthree d hd
    · exact hfailed
    · exact hlive
    · exact hlive
  · have hup : storageUp out.url = some z := by
      obtain rfl | rfl | rfl := hthree d hd
      · cases hz
      · cases hz
      · exact hz
    have hboth : out = bothJob.outputs[0] ∨ out = bothJob.outputs[1] := by
      simpa [bothJob] using hout
    obtain rfl | rfl := hboth
    · cases hup
      rfl
    · cases hup
      rfl
  · obtain ⟨event, heq, hdone, hts⟩ := hreplays
    obtain rfl | rfl | rfl := hthree d hd
    · cases heq
      cases hdone
    · cases heq
      exact absurd rfl hts
    · cases heq
      exact absurd rfl hts

end Taas

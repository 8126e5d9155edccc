import Taas.Infra.Lists
import Taas.Schemas.Codec

/-!
# The job hash codec loses nothing

Reading back what `to_hash` wrote gives the state, in whatever order the fields come and
whether Redis returns texts or bytes; so it does when `release_done` wrote the engine's run
into the hash.

* `splitCsv_joinCsv`, `EngineRun.validate_toFlat` — the two encodings that are not one text.
* `Reading` — the dict `from_hash` has filled after some of the fields, and its step lemma.
* `validate_fieldsOf` — the filled dict validates to the state.
* `hash_codec` — the round trip.
-/

namespace Taas

open Infra

/-! ## Texts -/

/-- A reply holds a text as it is, or its UTF-8. -/
def Spells (raw : RedisText) (s : String) : Prop := raw = .str s ∨ raw = .bytes s.toByteArray

theorem Spells.text {raw : RedisText} {s : String} (h : Spells raw s) : raw.text = some s := by
  rcases h with rfl | rfl
  · rfl
  · simp only [RedisText.text, String.fromUTF8?, s.isValidUTF8, dite_true]
    rfl

/-- Items without commas are split where they were joined. -/
theorem splitCsv_joinCsv {items : List String} (hne : items ≠ [])
    (h : ∀ item ∈ items, ',' ∉ item.toList) : splitCsv (joinCsv items) = items := by
  have hjoin : joinCsv items = (String.singleton ',').intercalate items := by
    rw [← String.toList_inj, joinCsv, String.toList_ofList, String.toList_intercalate,
      String.toList_singleton]
  rw [hjoin]
  exact split_join hne h

/-- Items that are not blank leave no empty text. -/
theorem joinCsv_ne_empty {items : List String} (hne : items ≠ [])
    (h : ∀ item ∈ items, ',' ∉ item.toList ∧ NonBlank item) : joinCsv items ≠ "" := by
  intro hempty
  have hsplit := splitCsv_joinCsv hne fun item hitem => (h item hitem).1
  rw [hempty] at hsplit
  have hsplit : [""] = items := hsplit
  obtain ⟨c, hc, -⟩ := (h "" (by simp [← hsplit])).2
  simp at hc

/-! ## Engine runs -/

@[simp] theorem Metric.validate_toJson (m : Metric) : Metric.validate m.toJson = some m := by
  cases m <;> rfl

namespace EngineRun

/-- No metric takes a stamp's name, or that of the metrics as a whole. -/
def MetricsNamed (run : EngineRun) : Prop :=
  ∀ m ∈ run.metrics, m.1 ∉ runStamps ∧ m.1 ≠ "metrics"

variable {run : EngineRun}

/-- The metrics stand in front of the stamps. -/
theorem toFlat_eq (h : run.MetricsNamed) :
    run.toFlat = run.metrics.map (fun m => (m.1, m.2.toJson)) ++
      [("created_at", stampJson run.createdAt), ("started_at", stampJson run.startedAt),
        ("finished_at", stampJson run.finishedAt)] := by
  unfold toFlat
  rw [List.filter_eq_self.mpr fun m hm => by simpa using (h m hm).1]

theorem lookup_metrics (run : EngineRun) {k : String} (h : ∀ m ∈ run.metrics, m.1 ≠ k) :
    (run.metrics.map fun m => (m.1, m.2.toJson)).lookup k = none := by
  rw [List.lookup_eq_none_iff]
  intro kv hkv
  obtain ⟨m, hm, rfl⟩ := List.mem_map.mp hkv
  exact bne_iff_ne.mpr (h m hm).symm

theorem isNull_toJson (m : Metric) : isNull m.toJson = false := by cases m <;> rfl

/-- The flat run, taken apart again. -/
theorem fromFlat_toFlat (h : run.MetricsNamed) :
    fromFlat run.toFlat =
      [("created_at", stampJson run.createdAt), ("started_at", stampJson run.startedAt),
        ("finished_at", stampJson run.finishedAt),
        ("metrics", .obj (run.metrics.map fun m => (m.1, m.2.toJson)))] := by
  have hstamp : ∀ k ∈ runStamps,
      (run.metrics.map fun m => (m.1, m.2.toJson)).lookup k = none := fun k hk =>
    run.lookup_metrics fun m hm he => (h m hm).1 (he ▸ hk)
  have hmetrics : (run.metrics.map fun m => (m.1, m.2.toJson)).lookup "metrics" = none :=
    run.lookup_metrics fun m hm => (h m hm).2
  have hkept : (run.metrics.map fun m => (m.1, m.2.toJson)).filter
      (fun kv => decide (kv.1 ∉ runStamps ∧ (!isNull kv.2) = true)) =
        run.metrics.map fun m => (m.1, m.2.toJson) := by
    refine List.filter_eq_self.mpr fun kv hkv => ?_
    obtain ⟨m, hm, rfl⟩ := List.mem_map.mp hkv
    simp [(h m hm).1, isNull_toJson]
  have hcreated := hstamp "created_at" (by decide)
  have hstarted := hstamp "started_at" (by decide)
  have hfinished := hstamp "finished_at" (by decide)
  unfold fromFlat
  rw [toFlat_eq h, List.lookup_append, hmetrics, if_neg (by simp [List.lookup]),
    List.filter_append, hkept]
  simp [runStamps, List.lookup_append, hcreated, hstarted, hfinished, List.lookup]

theorem validateStamp_stampJson {data : List (String × Json)} {stamp : String}
    (text : Option String) (h : data.lookup stamp = some (stampJson text)) :
    validateStamp data stamp = some text := by
  unfold validateStamp
  rw [h]
  cases text <;> rfl

/-- **A run is read back from its flat form.** -/
theorem validate_toFlat (h : run.MetricsNamed) : validate run.toFlat = some run := by
  have hmetrics : validateMetrics (fromFlat run.toFlat) = some run.metrics := by
    rw [fromFlat_toFlat h]
    have hmap : (run.metrics.map fun m => (m.1, m.2.toJson)).mapM
        (fun kv => (Metric.validate kv.2).map fun m => (kv.1, m)) = some run.metrics := by
      rw [mapM_eq_some_iff, List.map_map]
      exact List.map_congr_left fun m _ => by simp
    simpa [validateMetrics, List.lookup] using hmap
  unfold validate
  dsimp only
  rw [validateStamp_stampJson run.createdAt (by rw [fromFlat_toFlat h]; rfl),
    validateStamp_stampJson run.startedAt (by rw [fromFlat_toFlat h]; rfl),
    validateStamp_stampJson run.finishedAt (by rw [fromFlat_toFlat h]; rfl), hmetrics]
  rfl

end EngineRun

/-! ## States -/

namespace FullState

/-- The JSON documents of a state's hash. -/
def documents (s : FullState) : List Json :=
  .obj s.options :: s.harvestTimes.toList.map fun run => .obj run.toFlat

/-- The floats of a state's hash. -/
def floats (s : FullState) : List ℚ :=
  s.megapixels :: s.submittedAt :: (s.claimedAt.toList ++ s.queueScore.toList ++
    s.nextPollAt.toList ++ s.lastPoll.toList ++ s.finishedAt.toList)

/-- The texts are not empty, the outputs are some names without commas, the trace context has
W3C headers, and the metrics names of their own. -/
structure Storable (s : FullState) : Prop where
  username : s.username ≠ ""
  externalId : s.externalId ≠ some ""
  batchId : s.batchId ≠ some ""
  fmt : s.fmt ≠ ""
  domain : s.domain ≠ ""
  ext : s.ext ≠ ""
  engineJobId : s.engineJobId ≠ some ""
  backendUrl : s.backendUrl ≠ some ""
  error : s.error ≠ some ""
  outputs : s.outputs ≠ ∅
  names : ∀ output ∈ s.outputs, ',' ∉ output.toList ∧ NonBlank output
  trace : ∀ name value, s.trace name = some value → name ∈ traceFields ∧ value ≠ ""
  run : ∀ run ∈ s.harvestTimes, run.MetricsNamed

end FullState

/-- Python reads these documents and floats as it wrote them, and an empty text as neither. -/
structure Printing.Undoes (io : Printing) (documents : List Json) (floats : List ℚ) : Prop where
  json : ∀ document ∈ documents, io.loads (io.dumps document) = some document
  float : ∀ x ∈ floats, io.parseFloat (io.strFloat x) = some x
  noJson : io.loads "" = none
  noFloat : io.parseFloat "" = none

/-! ## Fields -/

/-- What `from_hash` makes of a value that `to_hash` wrote; an empty set is stored as
"none". -/
def Dumped.read (io : Printing) : Dumped → Option FieldValue
  | .text t => some (.text t)
  | .int n => some (.text n.repr)
  | .float x => some (.text (io.strFloat x))
  | .set names => if names = ∅ then none else some (.items (names.sort (· ≤ ·)))
  | .dict members => some (.json (.obj members))

/-- A name whose value is read as a text. -/
def Plain (name : String) : Prop :=
  name ≠ "trace" ∧ name ∉ traceFields ∧ name ∉ csvFields ∧ name ∉ jsonFields

instance (name : String) : Decidable (Plain name) := inferInstanceAs (Decidable (_ ∧ _))

/-- A value under a name from which `from_hash` reads it back. -/
inductive Kept (io : Printing) (name : String) : Dumped → Prop where
  | text {t : String} (hname : Plain name) (h : t ≠ "") : Kept io name (.text t)
  | int {n : Int} (hname : Plain name) : Kept io name (.int n)
  | float {x : ℚ} (hname : Plain name) (h : io.strFloat x ≠ "") : Kept io name (.float x)
  | set {names : Finset String} (hname : name ∈ csvFields)
      (h : ∀ item ∈ names, ',' ∉ item.toList ∧ NonBlank item) : Kept io name (.set names)
  | dict {members : List (String × Json)} (hname : name ∈ jsonFields)
      (h : io.loads (io.dumps (.obj members)) = some (.obj members))
      (hne : io.dumps (.obj members) ≠ "") : Kept io name (.dict members)

theorem not_traceField_of_csv {name : String} (h : name ∈ csvFields) :
    name ≠ "trace" ∧ name ∉ traceFields := by
  revert name
  decide

theorem not_traceField_of_json {name : String} (h : name ∈ jsonFields) :
    name ≠ "trace" ∧ name ∉ traceFields ∧ name ∉ csvFields := by
  revert name
  decide

theorem repr_ne_empty (n : Int) : n.repr ≠ "" := by
  rw [Int.repr_eq_if]
  split
  · exact Nat.repr_ne_empty
  · simp

variable {io : Printing}

theorem readItem_plain {fields : Fields} {name text : String} (hname : Plain name)
    (h : text ≠ "") :
    readItem io fields (name, text) =
      some (Function.update fields name (some (.text text))) := by
  simp [readItem, h, hname.2.1, hname.2.2.1, hname.2.2.2]

/-- A kept value is put under its name, or, if it is stored as "none", passed over. -/
theorem Kept.readItem {name : String} {value : Dumped} (h : Kept io name value)
    (fields : Fields) :
    readItem io fields (name, encode io value) =
      some ((value.read io).elim fields fun v => Function.update fields name (some v)) := by
  cases h with
  | text hname h => exact readItem_plain hname h
  | int hname => exact readItem_plain hname (repr_ne_empty _)
  | float hname h => exact readItem_plain hname h
  | @set names hname h =>
    by_cases hempty : names = ∅
    · subst hempty
      have htext : encode io (.set ∅) = "" := by simp [encode, joinCsv]
      rw [htext]
      rfl
    · have hne : names.sort (· ≤ ·) ≠ [] := by
        intro hsort
        exact hempty (by rw [← Finset.sort_toFinset names (· ≤ ·), hsort]; rfl)
      have hitems : ∀ item ∈ names.sort (· ≤ ·), ',' ∉ item.toList ∧ NonBlank item :=
        fun item hitem => h item ((Finset.mem_sort _).mp hitem)
      have hfilter : (names.sort (· ≤ ·)).filter (fun item => NonBlank item) =
          names.sort (· ≤ ·) :=
        List.filter_eq_self.mpr fun item hitem => decide_eq_true (hitems item hitem).2
      simp [Taas.readItem, encode, joinCsv_ne_empty hne hitems, (not_traceField_of_csv hname).2,
        hname, splitCsv_joinCsv hne fun item hitem => (hitems item hitem).1, hfilter,
        Dumped.read, hempty]
  | dict hname h hne =>
    obtain ⟨-, htrace, hcsv⟩ := not_traceField_of_json hname
    simp [Taas.readItem, encode, hne, htrace, hcsv, hname, h, Dumped.read]

/-- A kept name is not the trace's, nor a header's. -/
theorem Kept.name {name : String} {value : Dumped} (h : Kept io name value) :
    name ≠ "trace" ∧ name ∉ traceFields := by
  cases h with
  | text hname => exact ⟨hname.1, hname.2.1⟩
  | int hname => exact ⟨hname.1, hname.2.1⟩
  | float hname => exact ⟨hname.1, hname.2.1⟩
  | set hname => exact not_traceField_of_csv hname
  | dict hname =>
    obtain ⟨htrace, hheader, -⟩ := not_traceField_of_json hname
    exact ⟨htrace, hheader⟩

/-! ## Filling the dict -/

/-- The dict `from_hash` has filled for a state when it has read the fields `read`. -/
def Reading (io : Printing) (s : FullState) (read : List String) : Fields := fun name =>
  if name = "trace" then
    if ∃ header ∈ read, header ∈ traceFields then
      some (.headers fun header => if header ∈ read then s.trace header else none)
    else none
  else if name ∈ read then (s.modelDump.lookup name).join.bind (Dumped.read io) else none

/-- Every value of a storable state is kept. -/
def EachKept (io : Printing) (s : FullState) : Prop :=
  ∀ name value, (name, some value) ∈ s.modelDump → Kept io name value

/-- A field of the hash: one that `model_dump` has, or a trace header. -/
def FieldOf (io : Printing) (s : FullState) (item : String × String) : Prop :=
  (∃ value, (item.1, some value) ∈ s.modelDump ∧ item.2 = encode io value) ∨
    s.trace item.1 = some item.2

theorem nodup_modelDump (s : FullState) : (s.modelDump.map Prod.fst).Nodup := by
  have hnames : s.modelDump.map Prod.fst =
      ["status", "username", "external_id", "batch_id", "fmt", "domain", "outputs", "options",
        "ext", "mp", "submitted_at", "priority", "claimed_at", "queue_score",
        "avoid_backends", "requeues", "engine_job_id", "backend_url", "backend_id",
        "next_poll_at", "last_poll", "harvest_times", "harvest_attempts", "error",
        "finished_at"] := rfl
  rw [hnames]
  decide

theorem lookup_modelDump {s : FullState} {name : String} {value : Option Dumped}
    (h : (name, value) ∈ s.modelDump) : (s.modelDump.lookup name).join = value := by
  rw [lookup_of_mem (nodup_modelDump s) h]
  rfl

namespace Reading

variable {s : FullState} {read : List String} {name : String}

/-- One more field read changes what stands under its name, and, if it is a header, the
trace. -/
theorem cons_of_ne {n : String} (hn : n ≠ name) (htrace : n ≠ "trace") :
    Reading io s (name :: read) n = Reading io s read n := by
  simp [Reading, hn, htrace]

theorem cons_self (htrace : name ≠ "trace") :
    Reading io s (name :: read) name = (s.modelDump.lookup name).join.bind (Dumped.read io) := by
  simp [Reading, htrace]

theorem cons_trace (hs : s.Storable) (hname : name ∉ traceFields) :
    Reading io s (name :: read) "trace" = Reading io s read "trace" := by
  have hnone : s.trace name = none := by
    by_contra hsome
    obtain ⟨value, hvalue⟩ := Option.ne_none_iff_exists'.mp hsome
    exact hname (hs.trace name value hvalue).1
  have hheaders : (fun header => if header = name ∨ header ∈ read then s.trace header else none) =
      fun header => if header ∈ read then s.trace header else none := by
    funext header
    by_cases he : header = name
    · subst he
      simp [hnone]
    · simp [he]
  simp [Reading, hname, hheaders]

/-- A header's name is none of `model_dump`'s. -/
theorem cons_header {n : String} (hname : name ∈ traceFields) (htrace : n ≠ "trace") :
    Reading io s (name :: read) n = Reading io s read n := by
  by_cases hn : n = name
  · subst hn
    have hlookup : s.modelDump.lookup n = none := by
      rcases List.mem_cons.mp hname with rfl | hname
      · rfl
      rcases List.mem_cons.mp hname with rfl | hname
      · rfl
      · obtain rfl := List.mem_singleton.mp hname
        rfl
    simp [Reading, htrace, hlookup]
  · exact cons_of_ne hn htrace

/-- The headers read so far, and one more. -/
theorem setHeader {text : String} (hs : s.Storable) (h : s.trace name = some text) :
    Fields.setHeader (Reading io s read) name text = some (Reading io s (name :: read)) := by
  have hname := (hs.trace name text h).1
  have hother : ∀ header, header ∉ traceFields → s.trace header = none := by
    intro header hheader
    by_contra hsome
    obtain ⟨value, hvalue⟩ := Option.ne_none_iff_exists'.mp hsome
    exact hheader (hs.trace header value hvalue).1
  have hafter : Reading io s (name :: read) "trace" =
      some (.headers fun header => if header ∈ name :: read then s.trace header else none) := by
    simp [Reading, hname]
  have hupdate : ∀ trace : String → Option String,
      Function.update trace name (some text) =
        (fun header => if header ∈ name :: read then s.trace header else none) →
      Function.update (Reading io s read) "trace"
        (some (.headers (Function.update trace name (some text)))) =
          Reading io s (name :: read) := by
    intro trace htrace
    funext n
    by_cases hn : n = "trace"
    · rw [hn, Function.update_self, htrace, hafter]
    · rw [Function.update_of_ne hn, cons_header hname hn]
  by_cases hread : ∃ header ∈ read, header ∈ traceFields
  · have hbefore : Reading io s read "trace" =
        some (.headers fun header => if header ∈ read then s.trace header else none) := by
      simp only [Reading, if_pos hread, if_true]
    rw [Fields.setHeader, hbefore]
    refine congrArg some (hupdate _ ?_)
    funext header
    by_cases he : header = name
    · rw [he, Function.update_self, if_pos List.mem_cons_self, h]
    · simp [he]
  · have hbefore : Reading io s read "trace" = none := by
      simp only [Reading, if_neg hread, if_true]
    rw [Fields.setHeader, hbefore]
    refine congrArg some (hupdate _ ?_)
    funext header
    by_cases he : header = name
    · rw [he, Function.update_self, if_pos List.mem_cons_self, h]
    · rw [Function.update_of_ne he]
      split
      · rename_i hmem
        have hmem := (List.mem_cons.mp hmem).resolve_left he
        rw [hother header fun hheader => hread ⟨header, hmem, hheader⟩]
      · rfl

end Reading

/-- One turn of the loop reads one more field. -/
theorem readItem_reading {s : FullState} (hs : s.Storable) (hkept : EachKept io s)
    (read : List String) {item : String × String} (h : FieldOf io s item) :
    readItem io (Reading io s read) item = some (Reading io s (item.1 :: read)) := by
  obtain ⟨name, text⟩ := item
  rcases h with ⟨value, hmem, htext⟩ | htext
  · dsimp only at hmem htext ⊢
    have hvalue := hkept name value hmem
    rw [htext, hvalue.readItem]
    refine congrArg some ?_
    have hname : name ≠ "trace" ∧ name ∉ traceFields := hvalue.name
    have hself : Reading io s (name :: read) name =
        (s.modelDump.lookup name).join.bind (Dumped.read io) := Reading.cons_self hname.1
    rw [lookup_modelDump hmem, Option.bind_some] at hself
    funext n
    by_cases hn : n = name
    · subst hn
      rw [hself]
      cases hread : value.read io with
      | some v => simp
      | none =>
        have hnone : Reading io s read n = none := by
          simp [Reading, hname.1, lookup_modelDump hmem, hread]
        simpa using hnone
    · have hsame : Reading io s (name :: read) n = Reading io s read n := by
        by_cases htrace : n = "trace"
        · rw [htrace, Reading.cons_trace hs hname.2]
        · exact Reading.cons_of_ne hn htrace
      rw [hsame]
      cases value.read io with
      | none => rfl
      | some v => exact Function.update_of_ne hn _ _
  · dsimp only at htext ⊢
    obtain ⟨hname, hne⟩ := hs.trace name text htext
    simp only [readItem, hne, hname, if_true, if_false]
    exact Reading.setHeader hs htext

/-- Reading all of the items. -/
theorem foldlM_reading {s : FullState} (hs : s.Storable) (hkept : EachKept io s)
    {items : List (String × String)} (h : ∀ item ∈ items, FieldOf io s item)
    (read : List String) :
    items.foldlM (readItem io) (Reading io s read) =
      some (Reading io s ((items.map Prod.fst).reverse ++ read)) := by
  induction items generalizing read with
  | nil => rfl
  | cons item items ih =>
    have hitem := readItem_reading hs hkept read (h item List.mem_cons_self)
    rw [List.foldlM_cons, hitem]
    simp only [Option.bind_eq_bind, Option.bind_some]
    rw [ih fun other hother => h other (List.mem_cons_of_mem _ hother)]
    simp

/-! ## Validation -/

namespace Fields

variable {α : Type} {fields : Fields} {name : String} {parse : FieldValue → Option α}

theorem required_eq {v : FieldValue} {a : α} (h : fields name = some v) (hp : parse v = some a) :
    fields.required name parse = some a := by
  simp [required, h, hp]

theorem orElse_eq {v : FieldValue} {a default : α} (h : fields name = some v)
    (hp : parse v = some a) : fields.orElse name parse default = some a := by
  simp [orElse, h, hp]

theorem optional_eq {a : Option α} (print : α → FieldValue) (h : fields name = a.map print)
    (hp : ∀ x ∈ a, parse (print x) = some x) : fields.optional name parse = some a := by
  cases a with
  | none => simp [optional, h]
  | some x => simp [optional, h, hp x rfl]

end Fields

/-- The items cover the hash: no value of `model_dump`, and no header, is missing. -/
def Covers (s : FullState) (names : List String) : Prop :=
  (∀ name value, (name, some value) ∈ s.modelDump → name ∈ names) ∧
    ∀ header value, s.trace header = some value → header ∈ names

namespace Reading

variable {s : FullState} {read : List String}

/-- A field as the whole hash gives it. -/
theorem field (hcovers : Covers s read) {name : String} {value : Option Dumped}
    (hmem : (name, value) ∈ s.modelDump) (htrace : name ≠ "trace") :
    Reading io s read name = value.bind (Dumped.read io) := by
  unfold Reading
  rw [if_neg htrace, lookup_modelDump hmem]
  split
  · rfl
  · rename_i hread
    cases value with
    | none => rfl
    | some value => exact absurd (hcovers.1 name value hmem) hread

/-- The trace as the whole hash gives it. -/
theorem trace (hs : s.Storable) (hcovers : Covers s read) :
    Fields.orElse (Reading io s read) "trace" FieldValue.parseTrace (fun _ => none) =
      some s.trace := by
  have hall : (fun header => if header ∈ read then s.trace header else none) = s.trace := by
    funext header
    cases hheader : s.trace header with
    | none => simp
    | some value => rw [if_pos (hcovers.2 header value hheader)]
  by_cases hread : ∃ header ∈ read, header ∈ traceFields
  · have hbefore : Reading io s read "trace" = some (.headers s.trace) := by
      simp only [Reading, if_pos hread, if_true, hall]
    exact Fields.orElse_eq hbefore rfl
  · have hbefore : Reading io s read "trace" = none := by
      simp only [Reading, if_neg hread, if_true]
    have hnone : s.trace = fun _ => none := by
      funext header
      by_contra hsome
      obtain ⟨value, hvalue⟩ := Option.ne_none_iff_exists'.mp hsome
      exact hread ⟨header, hcovers.2 header value hvalue, (hs.trace header value hvalue).1⟩
    rw [hnone]
    simp [Fields.orElse, hbefore]

end Reading

theorem repr_kept (n : Nat) : ',' ∉ n.repr.toList ∧ NonBlank n.repr := by
  have hdigit : ∀ c ∈ n.repr.toList, c.isDigit = true := by
    intro c hc
    rw [Nat.toList_repr] at hc
    exact Nat.isDigit_of_mem_toDigits (by decide) (by decide) hc
  constructor
  · intro hc
    exact absurd (hdigit _ hc) (by decide)
  · have hne : n.repr.toList ≠ [] := by simp
    obtain ⟨c, rest, hrepr⟩ := List.exists_cons_of_ne_nil hne
    have hc : c ∈ n.repr.toList := by simp [hrepr]
    refine ⟨c, hc, ?_⟩
    have hc := hdigit c hc
    simp only [Char.isDigit, ge_iff_le, Bool.and_eq_true, decide_eq_true_eq] at hc
    have hlow : 48 ≤ c.toNat := hc.1
    have hhigh : c.toNat ≤ 57 := hc.2
    simp [isSpace]
    omega

/-- Ids that were written as texts are parsed again. -/
theorem parseIds_sort (ids : Finset Nat) :
    FieldValue.parseIds (.items ((ids.image Nat.repr).sort (· ≤ ·))) = some ids := by
  have hparsed : ∃ parsed, ((ids.image Nat.repr).sort (· ≤ ·)).mapM String.toNat? = some parsed := by
    refine exists_mapM fun item hitem => ?_
    obtain ⟨n, -, rfl⟩ := Finset.mem_image.mp ((Finset.mem_sort _).mp hitem)
    exact ⟨n, Nat.toNat?_repr n⟩
  obtain ⟨parsed, hparsed⟩ := hparsed
  have hmap := mapM_eq_some_iff.mp hparsed
  rw [FieldValue.parseIds, hparsed, Option.map_some, Option.some.injEq]
  ext n
  have hiff : n ∈ parsed ↔ some n ∈ parsed.map some := by simp
  rw [List.mem_toFinset, hiff, ← hmap, List.mem_map]
  constructor
  · rintro ⟨item, hitem, hn⟩
    obtain ⟨m, hm, rfl⟩ := Finset.mem_image.mp ((Finset.mem_sort _).mp hitem)
    rw [Nat.toNat?_repr, Option.some.injEq] at hn
    exact hn ▸ hm
  · intro hn
    exact ⟨n.repr, (Finset.mem_sort _).mpr (Finset.mem_image_of_mem _ hn), Nat.toNat?_repr n⟩

section

variable {s : FullState} {read : List String}

/-- The floats of a state are read as they were written, and are not empty texts. -/
theorem Printing.Undoes.floatText (hio : io.Undoes s.documents s.floats) {x : ℚ}
    (hx : x ∈ s.floats) : io.strFloat x ≠ "" := by
  intro hempty
  have hparse := hio.float x hx
  rw [hempty, hio.noFloat] at hparse
  cases hparse

theorem Printing.Undoes.dictText (hio : io.Undoes s.documents s.floats) {document : Json}
    (h : document ∈ s.documents) : io.dumps document ≠ "" := by
  intro hempty
  have hloads := hio.json document h
  rw [hempty, hio.noJson] at hloads
  cases hloads

/-- An optional value is kept if it is when it is there. -/
theorem kept_map {α : Type} {a : Option α} {print : α → Dumped} {name : String}
    (h : ∀ x ∈ a, Kept io name (print x)) :
    ∀ value, a.map print = some value → Kept io name value := by
  intro value hvalue
  obtain ⟨x, hx, rfl⟩ := Option.map_eq_some_iff.mp hvalue
  exact h x hx

theorem kept_some {name : String} {value : Dumped} (h : Kept io name value) :
    ∀ v, some value = some v → Kept io name v := by
  rintro v ⟨⟩
  exact h

/-- **Every value of a storable state is written so that it is read back.** -/
theorem eachKept (hs : s.Storable) (hio : io.Undoes s.documents s.floats) : EachKept io s := by
  have hfloat : ∀ name, Plain name → ∀ a : Option ℚ, a.toList ⊆ s.floats →
      ∀ value, a.map Dumped.float = some value → Kept io name value := by
    intro name hname a ha
    exact kept_map fun x hx => .float hname (hio.floatText (ha (by simpa using hx)))
  have htext : ∀ name, Plain name → ∀ a : Option String, a ≠ some "" →
      ∀ value, a.map Dumped.text = some value → Kept io name value := by
    intro name hname a ha
    refine kept_map fun t ht => .text hname ?_
    rintro rfl
    exact ha ht
  have hstatus : s.status.value ≠ "" := by cases s.status <;> decide
  have hall : ∀ entry ∈ s.modelDump, ∀ value, entry.2 = some value → Kept io entry.1 value := by
    unfold FullState.modelDump
    simp only [List.forall_mem_cons, List.not_mem_nil, false_implies, implies_true, and_true]
    refine ⟨kept_some (.text (by decide) hstatus), kept_some (.text (by decide) hs.username),
      htext _ (by decide) _ hs.externalId, htext _ (by decide) _ hs.batchId,
      kept_some (.text (by decide) hs.fmt), kept_some (.text (by decide) hs.domain),
      kept_some (.set (by decide) hs.names),
      kept_some (.dict (by decide) (hio.json _ (by simp [FullState.documents]))
        (hio.dictText (by simp [FullState.documents]))),
      kept_some (.text (by decide) hs.ext),
      kept_some (.float (by decide) (hio.floatText (by simp [FullState.floats]))),
      kept_some (.float (by decide) (hio.floatText (by simp [FullState.floats]))),
      kept_some (.int (by decide)),
      hfloat _ (by decide) _ (by intro x; simp +contextual [FullState.floats]),
      hfloat _ (by decide) _ (by intro x; simp +contextual [FullState.floats]),
      kept_some (.set (by decide) fun item hitem => ?_),
      kept_some (.int (by decide)),
      htext _ (by decide) _ hs.engineJobId, htext _ (by decide) _ hs.backendUrl,
      kept_map fun b _ => .int (by decide),
      hfloat _ (by decide) _ (by intro x; simp +contextual [FullState.floats]),
      hfloat _ (by decide) _ (by intro x; simp +contextual [FullState.floats]),
      kept_map fun run hrun => .dict (by decide) (hio.json _ ?_) (hio.dictText ?_),
      kept_some (.int (by decide)), htext _ (by decide) _ hs.error,
      hfloat _ (by decide) _ (by intro x; simp +contextual [FullState.floats])⟩
    · obtain ⟨n, -, rfl⟩ := Finset.mem_image.mp hitem
      exact repr_kept n
    · simp [FullState.documents, Option.mem_def.mp hrun]
    · simp [FullState.documents, Option.mem_def.mp hrun]
  exact fun name value hmem => hall _ hmem value rfl

/-- A value that `model_dump` always has, under a field without a default. -/
theorem Reading.required {α : Type} (hcovers : Covers s read) {name : String} (value : Dumped)
    {v : FieldValue} {parse : FieldValue → Option α} {a : α}
    (hmem : (name, some value) ∈ s.modelDump) (htrace : name ≠ "trace")
    (hread : value.read io = some v) (hparse : parse v = some a) :
    Fields.required (Reading io s read) name parse = some a :=
  Fields.required_eq ((Reading.field hcovers hmem htrace).trans hread) hparse

/-- One under a field with a default. -/
theorem Reading.orElse {α : Type} (hcovers : Covers s read) {name : String} (value : Dumped)
    {v : FieldValue} {parse : FieldValue → Option α} {a default : α}
    (hmem : (name, some value) ∈ s.modelDump) (htrace : name ≠ "trace")
    (hread : value.read io = some v) (hparse : parse v = some a) :
    Fields.orElse (Reading io s read) name parse default = some a :=
  Fields.orElse_eq ((Reading.field hcovers hmem htrace).trans hread) hparse

theorem Reading.text (hcovers : Covers s read) {name : String} (a : Option String)
    (hmem : (name, a.map Dumped.text) ∈ s.modelDump) (htrace : name ≠ "trace") :
    Fields.optional (Reading io s read) name FieldValue.parseText = some a := by
  have hfield : Reading io s read name = (a.map Dumped.text).bind (Dumped.read io) :=
    Reading.field hcovers hmem htrace
  exact Fields.optional_eq .text (by rw [hfield]; cases a <;> rfl) fun _ _ => rfl

theorem Reading.float (hcovers : Covers s read) (hio : io.Undoes s.documents s.floats)
    {name : String} (a : Option ℚ) (hmem : (name, a.map Dumped.float) ∈ s.modelDump)
    (htrace : name ≠ "trace") (ha : a.toList ⊆ s.floats) :
    Fields.optional (Reading io s read) name (FieldValue.parseFloat io) = some a := by
  have hfield : Reading io s read name = (a.map Dumped.float).bind (Dumped.read io) :=
    Reading.field hcovers hmem htrace
  refine Fields.optional_eq (fun x => .text (io.strFloat x))
    (by rw [hfield]; cases a <;> rfl) fun x hx => ?_
  exact hio.float x (ha (by simpa using hx))

/-- The backends to avoid; none are stored as "none", which is the default. -/
theorem Reading.avoidBackends (hcovers : Covers s read) :
    Fields.orElse (Reading io s read) "avoid_backends" FieldValue.parseIds ∅ =
      some s.avoidBackends := by
  have hfield : Reading io s read "avoid_backends" =
      (some (Dumped.set (s.avoidBackends.image Nat.repr))).bind (Dumped.read io) :=
    Reading.field hcovers (by simp [FullState.modelDump]) (by decide)
  by_cases hempty : s.avoidBackends = ∅
  · have hnone : Reading io s read "avoid_backends" = none := by
      rw [hfield]
      simp [Dumped.read, hempty]
    simp [Fields.orElse, hnone, hempty]
  · refine Fields.orElse_eq (v := .items ((s.avoidBackends.image Nat.repr).sort (· ≤ ·))) ?_
      (parseIds_sort _)
    rw [hfield]
    simp [Dumped.read, hempty]

theorem Reading.harvestTimes (hs : s.Storable) (hcovers : Covers s read) :
    Fields.orElse (Reading io s read) "harvest_times" FieldValue.parseRun none =
      some s.harvestTimes := by
  have hfield : Reading io s read "harvest_times" =
      (s.harvestTimes.map fun run => Dumped.dict run.toFlat).bind (Dumped.read io) :=
    Reading.field hcovers (by simp [FullState.modelDump]) (by decide)
  cases hrun : s.harvestTimes with
  | none =>
    rw [hrun] at hfield
    simp [Fields.orElse, hfield]
  | some run =>
    rw [hrun] at hfield
    refine Fields.orElse_eq (v := .json (.obj run.toFlat)) hfield ?_
    rw [FieldValue.parseRun, EngineRun.validate_toFlat (hs.run run hrun), Option.map_some]

theorem Reading.backendId (hcovers : Covers s read) :
    Fields.optional (Reading io s read) "backend_id" FieldValue.parseId = some s.backendId := by
  have hfield : Reading io s read "backend_id" =
      (s.backendId.map fun b => Dumped.int b).bind (Dumped.read io) :=
    Reading.field hcovers (by simp [FullState.modelDump]) (by decide)
  exact Fields.optional_eq (fun b => .text b.repr)
    (by rw [hfield]; cases s.backendId <;> rfl) fun b _ => Nat.toNat?_repr b

open FieldValue in
/-- **The dict of the whole hash validates to the state.** -/
theorem validate_reading (hs : s.Storable) (hio : io.Undoes s.documents s.floats)
    (hcovers : Covers s read) : FullState.validate io (Reading io s read) = some s := by
  have hmega : (Reading io s read "megapixels").isSome = false := by
    have hlookup : s.modelDump.lookup "megapixels" = none := rfl
    simp [Reading, hlookup]
  have hstatus : (Reading io s read).orElse "status" parseStatus .queued = some s.status :=
    Reading.orElse hcovers (.text s.status.value) (by simp [FullState.modelDump])
      (by decide) rfl (JobStatus.parse_value _)
  have husername : (Reading io s read).required "username" parseText = some s.username :=
    Reading.required hcovers (.text s.username) (by simp [FullState.modelDump])
      (by decide) rfl rfl
  have hfmt : (Reading io s read).required "fmt" parseText = some s.fmt :=
    Reading.required hcovers (.text s.fmt) (by simp [FullState.modelDump])
      (by decide) rfl rfl
  have hdomain : (Reading io s read).orElse "domain" parseText defaultDomain = some s.domain :=
    Reading.orElse hcovers (.text s.domain) (by simp [FullState.modelDump])
      (by decide) rfl rfl
  have houtputs : (Reading io s read).required "outputs" parseNames = some s.outputs :=
    Reading.required hcovers (.set s.outputs) (by simp [FullState.modelDump])
      (by decide) (if_neg hs.outputs) (by simp [parseNames])
  have hoptions : (Reading io s read).orElse "options" parseDict [] = some s.options :=
    Reading.orElse hcovers (.dict s.options) (by simp [FullState.modelDump])
      (by decide) rfl rfl
  have hext : (Reading io s read).orElse "ext" parseText ".jpg" = some s.ext :=
    Reading.orElse hcovers (.text s.ext) (by simp [FullState.modelDump])
      (by decide) rfl rfl
  have hmp : (Reading io s read).orElse "mp" (parseFloat io) 1 = some s.megapixels :=
    Reading.orElse hcovers (.float s.megapixels) (by simp [FullState.modelDump])
      (by decide) rfl
      (hio.float _ (by simp [FullState.floats]))
  have hsubmitted : (Reading io s read).required "submitted_at" (parseFloat io) =
      some s.submittedAt :=
    Reading.required hcovers (.float s.submittedAt) (by simp [FullState.modelDump])
      (by decide) rfl
      (hio.float _ (by simp [FullState.floats]))
  have hpriority : (Reading io s read).orElse "priority" parseInt 0 = some s.priority :=
    Reading.orElse hcovers (.int s.priority) (by simp [FullState.modelDump])
      (by decide) rfl (Int.toInt?_repr _)
  have hrequeues : (Reading io s read).orElse "requeues" parseInt 0 = some s.requeues :=
    Reading.orElse hcovers (.int s.requeues) (by simp [FullState.modelDump])
      (by decide) rfl (Int.toInt?_repr _)
  have hattempts : (Reading io s read).orElse "harvest_attempts" parseInt 0 =
      some s.harvestAttempts :=
    Reading.orElse hcovers (.int s.harvestAttempts) (by simp [FullState.modelDump])
      (by decide) rfl (Int.toInt?_repr _)
  have htrace : (Reading io s read).orElse "trace" parseTrace (fun _ => none) = some s.trace :=
    Reading.trace hs hcovers
  have hfloat : ∀ (name : String) (a : Option ℚ), (name, a.map Dumped.float) ∈ s.modelDump →
      name ≠ "trace" → a.toList ⊆ s.floats →
      (Reading io s read).optional name (parseFloat io) = some a :=
    fun _ => Reading.float hcovers hio
  have htext : ∀ (name : String) (a : Option String), (name, a.map Dumped.text) ∈ s.modelDump →
      name ≠ "trace" → (Reading io s read).optional name parseText = some a :=
    fun _ => Reading.text hcovers
  have hclaimed := hfloat "claimed_at" s.claimedAt (by simp [FullState.modelDump])
    (by decide) (by intro x; simp +contextual [FullState.floats])
  have hscore := hfloat "queue_score" s.queueScore (by simp [FullState.modelDump])
    (by decide) (by intro x; simp +contextual [FullState.floats])
  have hnext := hfloat "next_poll_at" s.nextPollAt (by simp [FullState.modelDump])
    (by decide) (by intro x; simp +contextual [FullState.floats])
  have hlast := hfloat "last_poll" s.lastPoll (by simp [FullState.modelDump])
    (by decide) (by intro x; simp +contextual [FullState.floats])
  have hfinished := hfloat "finished_at" s.finishedAt (by simp [FullState.modelDump])
    (by decide) (by intro x; simp +contextual [FullState.floats])
  have hexternal := htext "external_id" s.externalId
    (by simp [FullState.modelDump]) (by decide)
  have hbatch := htext "batch_id" s.batchId
    (by simp [FullState.modelDump]) (by decide)
  have hengine := htext "engine_job_id" s.engineJobId (by simp [FullState.modelDump]) (by decide)
  have hurl := htext "backend_url" s.backendUrl
    (by simp [FullState.modelDump]) (by decide)
  have herror := htext "error" s.error
    (by simp [FullState.modelDump]) (by decide)
  simp only [FullState.validate, hmega, hstatus, husername, hexternal, hbatch, hfmt, hdomain,
    houtputs, hoptions, hext, hmp, hsubmitted, hpriority, htrace, hclaimed, hscore,
    Reading.avoidBackends hcovers, hrequeues, hengine, hurl, Reading.backendId hcovers, hnext,
    hlast, Reading.harvestTimes hs hcovers, hattempts, herror, hfinished,
    Option.bind_eq_bind, Option.bind_some, Bool.false_eq_true, if_false]
  rfl

/-! ## The round trip -/

/-- A reply with these items: in any order, each key and value as text or bytes. -/
def Replies (raw : List (RedisText × RedisText)) (items : List (String × String)) : Prop :=
  ∃ ordered : List (String × String), ordered.Perm items ∧
    List.Forall₂ (fun r item => Spells r.1 item.1 ∧ Spells r.2 item.2) raw ordered

/-- `HSET` of one field. -/
def hsetField (name text : String) (items : List (String × String)) : List (String × String) :=
  items.filter (fun item => item.1 ≠ name) ++ [(name, text)]

theorem Replies.items {raw : List (RedisText × RedisText)} {ordered : List (String × String)}
    (h : List.Forall₂ (fun r item => Spells r.1 item.1 ∧ Spells r.2 item.2) raw ordered) :
    (raw.mapM fun (key, value) => do
      let name ← key.text
      let text ← value.text
      return (name, text)) = some ordered := by
  rw [mapM_eq_some_iff]
  induction h with
  | nil => rfl
  | @cons r item _ _ hitem _ ih =>
    obtain ⟨key, value⟩ := r
    rw [List.map_cons, List.map_cons, ih]
    simp [hitem.1.text, hitem.2.text]

/-- **A reply with all of a storable state's fields, and no others, reads as the state.** -/
theorem fromHash_of_fields (hs : s.Storable) (hio : io.Undoes s.documents s.floats)
    {items : List (String × String)} (hfields : ∀ item ∈ items, FieldOf io s item)
    (hcovers : Covers s (items.map Prod.fst)) {raw : List (RedisText × RedisText)}
    (hraw : Replies raw items) : FullState.fromHash io raw = some s := by
  obtain ⟨ordered, hperm, hraw⟩ := hraw
  have hread := foldlM_reading hs (eachKept hs hio)
    (fun item hitem => hfields item (hperm.mem_iff.mp hitem)) []
  have hempty : Reading io s [] = fun _ => none := by
    funext name
    simp [Reading]
  rw [hempty, List.append_nil] at hread
  have hcovers : Covers s (ordered.map Prod.fst).reverse := by
    have hmem : ∀ name, name ∈ (ordered.map Prod.fst).reverse ↔ name ∈ items.map Prod.fst :=
      fun name => List.mem_reverse.trans (hperm.map Prod.fst).mem_iff
    exact ⟨fun name value h => (hmem name).mpr (hcovers.1 name value h),
      fun header value h => (hmem header).mpr (hcovers.2 header value h)⟩
  have houtputs : Reading io s (ordered.map Prod.fst).reverse "outputs" =
      (some (Dumped.set s.outputs)).bind (Dumped.read io) :=
    Reading.field hcovers (by simp [FullState.modelDump]) (by decide)
  have hlegacy : legacyOutputs (Reading io s (ordered.map Prod.fst).reverse) =
      some (Reading io s (ordered.map Prod.fst).reverse) := by
    rw [legacyOutputs, houtputs]
    simp [Dumped.read, hs.outputs]
  unfold FullState.fromHash
  rw [Replies.items hraw]
  simp only [Option.bind_eq_bind, Option.bind_some, hread, hlegacy]
  exact validate_reading hs hio hcovers

/-- The entries that the workers are modelled with read as the texts do. -/
theorem fromHash_entries (hs : s.Storable) :
    JobState.fromHash s.toJobState.toHash = some s.toJobState := by
  have htext : ∀ {t : Option String}, t ≠ some "" → nonEmpty t = t := by
    intro t ht
    cases t with
    | none => rfl
    | some t => exact nonEmpty_some fun h => ht (h ▸ rfl)
  have houtputs : JobState.hashOutputs s.toJobState.toHash = some s.outputs := by
    have hkept : (some s.outputs).filter (fun o => o ≠ ∅) = some s.outputs := by
      rw [Option.filter_some, if_pos (by simpa using hs.outputs)]
    simp only [JobState.hashOutputs, JobState.toHash, hkept]
  unfold JobState.fromHash
  rw [houtputs]
  simp only [JobState.toHash, nonEmpty_some hs.username, nonEmpty_some hs.fmt,
    nonEmpty_some hs.domain, htext hs.externalId, htext hs.batchId, htext hs.engineJobId,
    htext hs.backendUrl, htext hs.error, Option.getD_some]

/-- What `to_hash` writes are the state's fields, all of them. -/
theorem fields_toHash (hs : s.Storable) :
    (∀ item ∈ s.toHash io, FieldOf io s item) ∧ Covers s ((s.toHash io).map Prod.fst) := by
  unfold FullState.toHash
  refine ⟨fun item hitem => ?_, fun name value hmem => ?_, fun header value hheader => ?_⟩
  · rcases List.mem_append.mp hitem with hitem | hitem
    · obtain ⟨⟨name, value⟩, hmem, hitem⟩ := List.mem_filterMap.mp hitem
      obtain ⟨value, rfl, rfl⟩ := Option.map_eq_some_iff.mp hitem
      exact Or.inl ⟨value, hmem, rfl⟩
    · obtain ⟨name, -, hitem⟩ := List.mem_filterMap.mp hitem
      obtain ⟨value, hvalue, rfl⟩ := Option.map_eq_some_iff.mp hitem
      exact Or.inr hvalue
  · refine List.mem_map.mpr ⟨(name, encode io value), ?_, rfl⟩
    exact List.mem_append_left _ (List.mem_filterMap.mpr ⟨(name, some value), hmem, rfl⟩)
  · refine List.mem_map.mpr ⟨(header, value), List.mem_append_right _ ?_, rfl⟩
    exact List.mem_filterMap.mpr
      ⟨header, (hs.trace header value hheader).1, by rw [hheader]; rfl⟩

/-- The state with the run that `release_done` writes into its hash. -/
def FullState.withRun (s : FullState) (run : EngineRun) : FullState :=
  { s with harvestTimes := some run }

/-- The other fields are those of the state without the run. -/
theorem mem_withRun {run : EngineRun} {name : String} {value : Option Dumped} :
    (name, value) ∈ (s.withRun run).modelDump ↔
      (name ≠ "harvest_times" ∧ (name, value) ∈ s.modelDump) ∨
        (name = "harvest_times" ∧ value = some (.dict run.toFlat)) := by
  have hsplit : ∀ t : FullState, ∃ before after : List (String × Option Dumped),
      "harvest_times" ∉ (before ++ after).map Prod.fst ∧
        ∀ harvestTimes, FullState.modelDump { t with harvestTimes } =
          before ++ ("harvest_times", harvestTimes.map fun run => .dict run.toFlat) :: after := by
    intro t
    refine ⟨t.modelDump.take 21, t.modelDump.drop 22, ?_, fun _ => rfl⟩
    have hnames : (t.modelDump.take 21 ++ t.modelDump.drop 22).map Prod.fst =
        ["status", "username", "external_id", "batch_id", "fmt", "domain", "outputs", "options",
          "ext", "mp", "submitted_at", "priority", "claimed_at", "queue_score",
          "avoid_backends", "requeues", "engine_job_id", "backend_url", "backend_id",
          "next_poll_at", "last_poll", "harvest_attempts", "error", "finished_at"] := rfl
    rw [hnames]
    decide
  obtain ⟨before, after, hother, hdump⟩ := hsplit s
  have hne : ∀ v, ("harvest_times", v) ∉ before ∧ ("harvest_times", v) ∉ after := by
    intro v
    constructor
    · exact fun hmem => hother (List.mem_map.mpr ⟨_, List.mem_append_left _ hmem, rfl⟩)
    · exact fun hmem => hother (List.mem_map.mpr ⟨_, List.mem_append_right _ hmem, rfl⟩)
  have hself := hdump s.harvestTimes
  have hrun := hdump (some run)
  rw [show s.modelDump = _ from hself, show (s.withRun run).modelDump = _ from hrun]
  by_cases hname : name = "harvest_times"
  · subst hname
    simp [hne value]
  · simp [hname]

/-- With the run written over, the hash has the fields of the state with the run. -/
theorem fields_hsetField (hs : s.Storable) (run : EngineRun) :
    (∀ item ∈ hsetField "harvest_times" (io.dumps (.obj run.toFlat)) (s.toHash io),
      FieldOf io (s.withRun run) item) ∧
    Covers (s.withRun run)
      ((hsetField "harvest_times" (io.dumps (.obj run.toFlat)) (s.toHash io)).map Prod.fst) := by
  obtain ⟨hfields, hdump, htrace⟩ : (∀ item ∈ s.toHash io, FieldOf io s item) ∧
      Covers s ((s.toHash io).map Prod.fst) := fields_toHash hs
  have hkept : ∀ name, name ≠ "harvest_times" → name ∈ (s.toHash io).map Prod.fst →
      name ∈ (hsetField "harvest_times" (io.dumps (.obj run.toFlat)) (s.toHash io)).map Prod.fst := by
    intro name hname hmem
    obtain ⟨item, hitem, rfl⟩ := List.mem_map.mp hmem
    refine List.mem_map.mpr ⟨item, List.mem_append_left _ ?_, rfl⟩
    exact List.mem_filter.mpr ⟨hitem, decide_eq_true hname⟩
  refine ⟨fun item hitem => ?_, fun name value hmem => ?_, fun header value hheader => ?_⟩
  · rcases List.mem_append.mp hitem with hitem | hitem
    · obtain ⟨hitem, hname⟩ := List.mem_filter.mp hitem
      rcases hfields item hitem with ⟨value, hmem, htext⟩ | htext
      · exact Or.inl ⟨value, mem_withRun.mpr (Or.inl ⟨of_decide_eq_true hname, hmem⟩), htext⟩
      · exact Or.inr htext
    · obtain rfl := List.mem_singleton.mp hitem
      exact Or.inl ⟨.dict run.toFlat, mem_withRun.mpr (Or.inr ⟨rfl, rfl⟩), rfl⟩
  · rcases mem_withRun.mp hmem with ⟨hname, hmem⟩ | ⟨rfl, -⟩
    · exact hkept name hname (hdump name value hmem)
    · exact List.mem_map.mpr ⟨_, List.mem_append_right _ (List.mem_singleton.mpr rfl), rfl⟩
  · refine hkept header ?_ (htrace header value hheader)
    rintro rfl
    exact absurd (hs.trace _ value hheader).1 (by decide)

theorem FullState.Storable.withRun (hs : s.Storable) {run : EngineRun}
    (hrun : run.MetricsNamed) : (s.withRun run).Storable :=
  { hs with
    run := by
      rintro _ ⟨⟩
      exact hrun }

/-- **The job hash codec loses nothing**: neither what `to_hash` wrote, nor a run that
`release_done` wrote into the hash. -/
theorem hash_codec (hs : s.Storable) (hio : io.Undoes s.documents s.floats) :
    (∀ raw, Replies raw (s.toHash io) → FullState.fromHash io raw = some s) ∧
    ∀ run : EngineRun, run.MetricsNamed →
      io.Undoes (s.withRun run).documents (s.withRun run).floats →
      ∀ raw, Replies raw (hsetField "harvest_times" (io.dumps (.obj run.toFlat)) (s.toHash io)) →
        FullState.fromHash io raw = some (s.withRun run) := by
  constructor
  · intro raw hraw
    obtain ⟨hfields, hcovers⟩ := fields_toHash hs
    exact fromHash_of_fields hs hio hfields hcovers hraw
  · intro run hrun hio raw hraw
    obtain ⟨hfields, hcovers⟩ := fields_hsetField hs run
    exact fromHash_of_fields (hs.withRun hrun) hio hfields hcovers hraw

end

/-- Keys as texts, values as bytes. -/
def mixedReply (items : List (String × String)) : List (RedisText × RedisText) :=
  items.map fun item => (.str item.1, .bytes item.2.toByteArray)

theorem replies_mixedReply (items : List (String × String)) :
    Replies (mixedReply items) items := by
  refine ⟨items, List.Perm.refl _, ?_⟩
  unfold mixedReply
  induction items with
  | nil => exact .nil
  | cons item items ih => exact .cons ⟨Or.inl rfl, Or.inr rfl⟩ ih

/-- A state as a submit writes it. -/
def submittedState : FullState :=
  { username := "alice", fmt := "multi", outputs := {"alto", "txt"},
    submittedAt := 3500000001 / 2,
    trace := fun name => if name = "traceparent" then some "00-abc-def-01" else none }

def lineRun : EngineRun :=
  { startedAt := some "2026-10-22T10:00:00", metrics := [("n_lines", .int 42)] }

/-- How Python writes and reads what the hash of the state holds. -/
def samplePrinting : Printing where
  strFloat x := if x = 1 then "1.0" else "1750000000.5"
  parseFloat t :=
    if t = "1.0" then some 1 else if t = "1750000000.5" then some (3500000001 / 2) else none
  dumps
    | .obj [] => "{}"
    | _ => "\x7b\"n_lines\": 42, \"created_at\": null, " ++
        "\"started_at\": \"2026-10-22T10:00:00\", \"finished_at\": null\x7d"
  loads t :=
    if t = "{}" then some (.obj []) else if t = "" then none else some (.obj lineRun.toFlat)

theorem hash_codec_sample :
    FullState.fromHash samplePrinting
        (mixedReply (submittedState.toHash samplePrinting)) = some submittedState ∧
      FullState.fromHash samplePrinting
        (mixedReply (hsetField "harvest_times" (samplePrinting.dumps (.obj lineRun.toFlat))
          (submittedState.toHash samplePrinting))) = some (submittedState.withRun lineRun) := by
  have hs : submittedState.Storable :=
    { username := by decide, externalId := by decide, batchId := by decide, fmt := by decide,
      domain := by decide, ext := by decide, engineJobId := by decide, backendUrl := by decide,
      error := by decide, outputs := by decide
      names := by
        intro output houtput
        rcases Finset.mem_insert.mp houtput with rfl | houtput
        · exact ⟨by decide, 'a', by decide, by decide⟩
        · obtain rfl := Finset.mem_singleton.mp houtput
          exact ⟨by decide, 't', by decide, by decide⟩
      trace := by
        intro name value h
        simp only [submittedState] at h
        split at h
        · rename_i hname
          subst hname
          obtain rfl := Option.some.inj h
          decide
        · cases h
      run := by rintro _ ⟨⟩ }
  have hfloats : ∀ x ∈ submittedState.floats,
      samplePrinting.parseFloat (samplePrinting.strFloat x) = some x := by decide +kernel
  have hio : samplePrinting.Undoes submittedState.documents submittedState.floats :=
    { json := by
        intro document hdocument
        obtain rfl := List.mem_singleton.mp hdocument
        rfl
      float := hfloats, noJson := rfl, noFloat := rfl }
  obtain ⟨hwritten, hreleased⟩ := hash_codec hs hio
  refine ⟨hwritten _ (replies_mixedReply _), hreleased lineRun ?_ ?_ _ (replies_mixedReply _)⟩
  · intro m hm
    obtain rfl := List.mem_singleton.mp hm
    decide
  · refine { json := ?_, float := hfloats, noJson := rfl, noFloat := rfl }
    intro document hdocument
    rcases List.mem_cons.mp hdocument with rfl | hdocument
    · rfl
    · obtain rfl := List.mem_singleton.mp hdocument
      rfl

end Taas

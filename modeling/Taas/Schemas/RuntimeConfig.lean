import Taas.Infra.Maps
import Taas.Schemas.Codec
import Taas.Services.RateLimit

/-!
# The runtime config

`app/schemas/runtime_config.py`: the values taas reads from the `config` table. Reading falls back
to the default on a malformed value; writing refuses it. What pydantic takes for a number in its
lax mode, and its messages, are parameters.

* `RuntimeConfig.fromRows` — the table's rows as a config.
* `RuntimeConfig.parseEntry` — a value as it should be stored.
-/

namespace Taas

open Infra

/-! ## What pydantic does -/

/-- Which JSON values are taken for numbers. -/
structure Coercions where
  int : Json → Option Int
  float : Json → Option ℚ

/-- `strict=True`: an integer also stands for a float, and nothing else for a number. -/
def Coercions.strict : Coercions where
  int
    | .int n => some n
    | _ => none
  float
    | .int n => some n
    | .float x => some x
    | _ => none

/-- A field's annotation and bounds. -/
inductive Kind where
  | int (ge le : Option Int)
  | intOrNone (ge : Int)
  | floatGe (ge : ℚ)
  | floatGt (gt : ℚ)

namespace Kind

abbrev Value : Kind → Type
  | int .. => Int
  | intOrNone _ => Option Int
  | floatGe _ => ℚ
  | floatGt _ => ℚ

def validate (coercions : Coercions) : (kind : Kind) → Json → Option kind.Value
  | int ge le, value =>
    (coercions.int value).filter fun n => ge.all (· ≤ n) && le.all (n ≤ ·)
  | intOrNone _, .null => some none
  | intOrNone ge, value => ((coercions.int value).filter fun n => ge ≤ n).map some
  | floatGe ge, value => (coercions.float value).filter fun x => ge ≤ x
  | floatGt gt, value => (coercions.float value).filter fun x => gt < x

/-- `dump_python(mode="json")` -/
def dump : (kind : Kind) → kind.Value → Json
  | int .., n => .int n
  | intOrNone _, n => n.elim .null .int
  | floatGe _, x => .float x
  | floatGt _, x => .float x

end Kind

structure Pydantic where
  lax : Coercions
  /-- The message of a refused value, in strict mode. -/
  message : Kind → Json → String
  /-- `repr` of a string. -/
  repr : String → String

/-- `text.removeprefix(start)`, if `text.startswith(start)`. -/
def afterPrefix? (start text : String) : Option String :=
  (start.toList.isPrefixOf? text.toList).map String.ofList

/-- `text.removesuffix(stop)`, if `text.endswith(stop)`. -/
def beforeSuffix? (stop text : String) : Option String :=
  (stop.toList.isSuffixOf? text.toList).map String.ofList

/-! ## Rate limits -/

namespace RateLimit

abbrev unbounded : Kind := .int none none

/-- `model_dump` -/
def modelDump (limit : RateLimit) : List (String × Json) :=
  [("per_minute", .int limit.perMinute), ("burst", .int limit.burst)]

/-- `old | new`, of two dicts. -/
def union (old new : List (String × Json)) : List (String × Json) :=
  old.map (fun m => (m.1, (new.lookup m.1).getD m.2)) ++
    new.filter fun m => m.1 ∉ old.map Prod.fst

/-- A field of the model; `error` has where and on what the validation failed. -/
def field (coercions : Coercions) (name : String) (fields : List (String × Json)) :
    Except (String × Json) Int :=
  let value := (fields.lookup name).getD .null
  match unbounded.validate coercions value with
  | some n => .ok n
  | none => .error (name, value)

/-- `model_validate`; `error` is the first one. -/
def modelValidate (coercions : Coercions) (fields : List (String × Json)) :
    Except (String × Json) RateLimit := do
  let perMinute ← field coercions "per_minute" fields
  let burst ← field coercions "burst" fields
  return ⟨perMinute, burst⟩

/-- A `rate_limit.<class>` row; a key it leaves out keeps the fallback's value. -/
def fromConfig (coercions : Coercions) (value : Option Json) (fallback : RateLimit) : RateLimit :=
  match value with
  | some (.obj members) =>
    (modelValidate coercions (union fallback.modelDump members)).toOption.getD fallback
  | _ => fallback

/-- This limit with a user's overrides applied; `none` keeps this limit's value. -/
def overridden (limit : RateLimit) (perMinute burst : Option Int) : RateLimit where
  perMinute := perMinute.getD limit.perMinute
  burst := burst.getD limit.burst

end RateLimit

/-- `FALLBACK_RATE_LIMITS`: used while no `rate_limit.<class>` row exists. -/
def fallbackRateLimits : LimitClass → RateLimit
  | .submit => ⟨60, 10⟩
  | .query => ⟨120, 20⟩
  | .wsConnect => ⟨5, 2⟩

def rateLimitPrefix : String := "rate_limit."

def rateLimitKey (limitClass : LimitClass) : String := rateLimitPrefix ++ limitClass.value

/-! ## Settings -/

/-- The fields of `RuntimeConfig` with a key of their own. -/
inductive Setting where
  | queuedTimeoutSeconds
  | runningTimeoutSeconds
  | maxRequeues
  /-- Retention: finished job rows, and result data. -/
  | doneTtlSeconds
  | failedTtlSeconds
  | presignedTtlMinutes
  | resultsMaxAgeSeconds
  /-- The results storage cap; `none` = no cap, results go by age only. -/
  | resultsMaxBytes
  | affinityTolerance
  | defaultSecondsPerPage
deriving DecidableEq

namespace Setting

def all : List Setting :=
  [queuedTimeoutSeconds, runningTimeoutSeconds, maxRequeues, doneTtlSeconds, failedTtlSeconds,
    presignedTtlMinutes, resultsMaxAgeSeconds, resultsMaxBytes, affinityTolerance,
    defaultSecondsPerPage]

@[simp] theorem mem_all (s : Setting) : s ∈ all := by
  cases s <;> simp [all]

/-- The alias: its key in the table. -/
def key : Setting → String
  | queuedTimeoutSeconds => "jobs.queued_timeout_seconds"
  | runningTimeoutSeconds => "jobs.running_timeout_seconds"
  | maxRequeues => "jobs.max_requeues"
  | doneTtlSeconds => "jobs.done_ttl_seconds"
  | failedTtlSeconds => "jobs.failed_ttl_seconds"
  | presignedTtlMinutes => "presigned.ttl_minutes"
  | resultsMaxAgeSeconds => "storage.results_max_age_seconds"
  | resultsMaxBytes => "storage.results_max_bytes"
  | affinityTolerance => "dispatch.affinity_tolerance"
  | defaultSecondsPerPage => "load.default_seconds_per_page"

/-- The field's own name, which `populate_by_name` reads too. -/
def name : Setting → String
  | queuedTimeoutSeconds => "queued_timeout_seconds"
  | runningTimeoutSeconds => "running_timeout_seconds"
  | maxRequeues => "max_requeues"
  | doneTtlSeconds => "done_ttl_seconds"
  | failedTtlSeconds => "failed_ttl_seconds"
  | presignedTtlMinutes => "presigned_ttl_minutes"
  | resultsMaxAgeSeconds => "results_max_age_seconds"
  | resultsMaxBytes => "results_max_bytes"
  | affinityTolerance => "affinity_tolerance"
  | defaultSecondsPerPage => "default_seconds_per_page"

abbrev kind : Setting → Kind
  | queuedTimeoutSeconds => .int (some 1) none
  | runningTimeoutSeconds => .int (some 1) none
  | maxRequeues => .int (some 0) none
  | doneTtlSeconds => .int (some 0) none
  | failedTtlSeconds => .int (some 0) none
  | presignedTtlMinutes => .int (some 1) (some (7 * 24 * 60))
  | resultsMaxAgeSeconds => .int (some 0) none
  | resultsMaxBytes => .intOrNone 1
  | affinityTolerance => .floatGe 0
  | defaultSecondsPerPage => .floatGt 0

def default : (s : Setting) → s.kind.Value
  | queuedTimeoutSeconds => 900
  | runningTimeoutSeconds => 300
  | maxRequeues => 5
  | doneTtlSeconds => 86400
  | failedTtlSeconds => 604800
  | presignedTtlMinutes => 60
  | resultsMaxAgeSeconds => 86400
  | resultsMaxBytes => none
  | affinityTolerance => 15 / 100
  | defaultSecondsPerPage => 10

/-- The row that a setting is read from: that of its key, else one of its name. -/
def row (s : Setting) (fields : List (String × Json)) : Option (String × Json) :=
  ((fields.lookup s.key).map fun value => (s.key, value)).or
    ((fields.lookup s.name).map fun value => (s.name, value))

/-- `error` has the `loc` of the failed validation. -/
def read (coercions : Coercions) (fields : List (String × Json)) (s : Setting) :
    Except String s.kind.Value :=
  match s.row fields with
  | none => .ok s.default
  | some (loc, value) =>
    match s.kind.validate coercions value with
    | some v => .ok v
    | none => .error loc

def loc (coercions : Coercions) (fields : List (String × Json)) (s : Setting) : Option String :=
  match s.read coercions fields with
  | .ok _ => none
  | .error loc => some loc

/-- The part of `model_validate` that the settings are; `error` has every `loc`. -/
def validate (coercions : Coercions) (fields : List (String × Json)) :
    Except (List String) ((s : Setting) → s.kind.Value) :=
  let malformed := all.filterMap (loc coercions fields)
  if malformed = [] then .ok fun s => (s.read coercions fields).toOption.getD s.default
  else .error malformed

end Setting

/-! ## Buckets -/

def storageTtlDefaultMinutes : Int := 60

/-- `BucketTtlMinutes` -/
abbrev bucketTtl : Kind := .int (some 1) none

/-- `_STORAGE_TTL_KEY`: how long the cleanup keeps a bucket's objects. -/
def storageTtlKey (bucket : String) : String := "storage." ++ bucket ++ "_ttl_minutes"

/-- `_STORAGE_TTL_KEY.fullmatch`. The `.` of the pattern takes no line break. -/
def storageTtlBucket (key : String) : Option String :=
  (((afterPrefix? "storage." key).bind (beforeSuffix? "_ttl_minutes"))).filter fun bucket =>
    bucket ≠ "" && '\n' ∉ bucket.toList

/-- `_bucket_ttls`: a malformed one is left out, not the other buckets with it. -/
def bucketTtls (coercions : Coercions) (rows : List (String × Json)) : List (String × Int) :=
  rows.filterMap fun row => (storageTtlBucket row.1).bind fun bucket =>
    (bucketTtl.validate coercions row.2).map fun ttl => (bucket, ttl)

/-! ## The config -/

/-- Every runtime policy value of the `config` table. -/
structure RuntimeConfig where
  setting : (s : Setting) → s.kind.Value
  bucketTtlMinutes : List (String × Int) := []
  rateLimits : LimitClass → RateLimit := fallbackRateLimits

/-- An `InvalidConfigEntry` is its text. -/
abbrev InvalidConfigEntry := String

namespace RuntimeConfig

def queuedTimeoutSeconds (config : RuntimeConfig) : Int := config.setting .queuedTimeoutSeconds

def runningTimeoutSeconds (config : RuntimeConfig) : Int := config.setting .runningTimeoutSeconds

def storageTtlMinutes (config : RuntimeConfig) (bucket : String) : Int :=
  (config.bucketTtlMinutes.lookup bucket).getD storageTtlDefaultMinutes

/-- The rows with a value. -/
def present (rows : List (String × Json)) : List (String × Json) :=
  rows.filter fun row => !EngineRun.isNull row.2

/-- Parse the table's `key -> value` rows; keys taas doesn't read are ignored. `none` is a
`ValidationError`.

The two fields that are computed pass their validation: no setting is read from them. -/
def fromRows (coercions : Coercions) (rows : List (String × Json)) : Option RuntimeConfig :=
  let fields := present rows
  let bucketTtlMinutes := bucketTtls coercions fields
  let rateLimits limitClass := RateLimit.fromConfig coercions
    (rows.lookup (rateLimitKey limitClass)) (fallbackRateLimits limitClass)
  match Setting.validate coercions fields with
  | .ok setting => some { setting, bucketTtlMinutes, rateLimits }
  | .error malformed =>
    match Setting.validate coercions (fields.filter fun row => row.1 ∉ malformed) with
    | .ok setting => some { setting, bucketTtlMinutes, rateLimits }
    | .error _ => none

/-- `_annotation_for`, `none` for an unknown key. -/
def annotationFor (key : String) : Option Kind :=
  if (storageTtlBucket key).isSome then some bucketTtl
  else (Setting.all.find? fun s => s.key = key).map Setting.kind

/-- A `rate_limit.<class>` value: `per_minute` and/or `burst`; a key it leaves out keeps the
built-in value. -/
def parseRateLimitEntry (py : Pydantic) (key limitClass : String) (value : Json) :
    Except InvalidConfigEntry Json :=
  match LimitClass.parse limitClass with
  | none => .error ("unknown config key " ++ py.repr key)
  | some limitClass =>
    match value with
    | .obj members =>
      let unknown := sorted (· ≤ ·) ((members.map Prod.fst).toFinset \ {"per_minute", "burst"}).val
      if unknown ≠ [] then .error (key ++ ": unknown field(s) " ++ ", ".intercalate unknown)
      else
        match RateLimit.modelValidate .strict
          (RateLimit.union (fallbackRateLimits limitClass).modelDump members) with
        | .error (loc, refused) =>
          .error (key ++ ": " ++ loc ++ ": " ++ py.message RateLimit.unbounded refused)
        | .ok merged => .ok (.obj (merged.modelDump.filter fun m => m.1 ∈ members.map Prod.fst))
    | _ => .error (key ++ ": expected an object with per_minute and/or burst")

/-- `value` as it should be stored under `key`. Reading falls back to the default on a malformed
value; writing refuses it instead. -/
def parseEntry (py : Pydantic) (key : String) (value : Json) : Except InvalidConfigEntry Json :=
  match afterPrefix? rateLimitPrefix key with
  | some limitClass => parseRateLimitEntry py key limitClass value
  | none =>
    match annotationFor key with
    | none => .error ("unknown config key " ++ py.repr key)
    | some kind =>
      match kind.validate .strict value with
      | some v => .ok (kind.dump v)
      | none => .error (key ++ ": " ++ py.message kind value)

end RuntimeConfig

end Taas

import Taas.Infra.TtlCache
import Taas.Schemas.RuntimeConfig

/-!
# Cached access to the config

`app/services/config.py`: a process keeps the parsed config table, the users' own limits and the
domains' own limits for some seconds, so the hot path doesn't ask Postgres per request.

* `getRuntimeConfig`, `getUserOverrides`, `getDomainLimits` — what is kept.
* `effectiveLimits`, `getStateTtlSeconds` — what is computed from it.
* `setValues` — a write to the config table.
-/

namespace Taas

open Infra Infra.Prog

/-- The `config` table. -/
abbrev ConfigTable := Finmap fun _ : String => Json

namespace ConfigTable

/-- `get_all` -/
def getAll (table : ConfigTable) : List (String × Json) := items table

/-- `set_values` up to its commit. -/
def setValues (values : List (String × Json)) (table : ConfigTable) : ConfigTable :=
  upsertAll Prod.fst (fun entry _ => some entry.2) values table

end ConfigTable

/-- A user's own rate limits; `none` = the global default of that class. -/
structure UserLimitOverrides where
  rateSubmitPerMinute : Option Int := none
  burstSubmit : Option Int := none
  rateQueryPerMinute : Option Int := none
  burstQuery : Option Int := none
  rateWsPerMinute : Option Int := none
  burstWs : Option Int := none

namespace UserLimitOverrides

/-- The fields that `limit_fields` names. -/
def limitFields (overrides : UserLimitOverrides) : LimitClass → Option Int × Option Int
  | .submit => (overrides.rateSubmitPerMinute, overrides.burstSubmit)
  | .query => (overrides.rateQueryPerMinute, overrides.burstQuery)
  | .wsConnect => (overrides.rateWsPerMinute, overrides.burstWs)

/-- The class's default with this user's overrides of it applied. -/
def apply (overrides : UserLimitOverrides) (limitClass : LimitClass) (default : RateLimit) :
    RateLimit :=
  default.overridden (overrides.limitFields limitClass).1 (overrides.limitFields limitClass).2

end UserLimitOverrides

/-- A domain's own limits; `none` = the global value. -/
structure DomainLimits where
  maxUploadBytes : Option Int := none
  runningTimeoutSeconds : Option Int := none
deriving DecidableEq

/-- What is read from Postgres. -/
structure ConfigDb where
  config : ConfigTable := ∅
  users : Finmap fun _ : String => UserLimitOverrides := ∅
  domains : Finmap fun _ : String => DomainLimits := ∅

/-- The limits of every domain that overrides one. -/
def ConfigDb.domainLimits (db : ConfigDb) : List (String × DomainLimits) :=
  (items db.domains).filter fun domain =>
    domain.2.maxUploadBytes.isSome || domain.2.runningTimeoutSeconds.isSome

/-! ## The cache -/

/-- The keys of `_cache`. -/
inductive ConfigKey where
  | runtimeConfig
  | user (username : String)
  | domainLimits
deriving DecidableEq

inductive ConfigValue where
  | config (config : RuntimeConfig)
  | overrides (overrides : UserLimitOverrides)
  | limits (limits : List (String × DomainLimits))
  /-- The reader raised. -/
  | raised

def ConfigValue.isRaised : ConfigValue → Bool
  | raised => true
  | _ => false

def cacheTtlSeconds : ℚ := 10

/-- `_cache_get` and `_cache_put`: an entry has the time of the note. -/
def configCache : CachePolicy ConfigValue where
  ttl := cacheTtlSeconds
  keep value := !value.isRaised
  early := false

variable {δ α : Type}

abbrev ConfigProg (δ α : Type) := CacheProg ConfigDb ConfigKey ConfigValue δ α

namespace Config

def stateTtlMarginSeconds : Int := 60

section

variable (coercions : Coercions)

/-- The query of a miss. -/
def ask (key : ConfigKey) (db : ConfigDb) : ConfigValue :=
  match key with
  | .runtimeConfig =>
    match RuntimeConfig.fromRows coercions db.config.getAll with
    | some config => .config config
    | none => .raised
  | .user username => .overrides ((db.users.lookup username).getD {})
  | .domainLimits => .limits db.domainLimits

def cached (key : ConfigKey) : ConfigProg δ ConfigValue :=
  configCache.fetch (ask coercions key) key

/-- The whole config table, parsed. -/
def getRuntimeConfig : ConfigProg δ (Option RuntimeConfig) := do
  match ← cached coercions .runtimeConfig with
  | .config config => pure (some config)
  | _ => pure none

def getUserOverrides (username : String) : ConfigProg δ (Option UserLimitOverrides) := do
  match ← cached coercions (.user username) with
  | .overrides overrides => pure (some overrides)
  | _ => pure none

/-- Every domain that overrides a limit. -/
def getDomainLimits : ConfigProg δ (Option (List (String × DomainLimits))) := do
  match ← cached coercions .domainLimits with
  | .limits limits => pure (some limits)
  | _ => pure none

/-- The program goes on with what it got; where the reader raised, it ends. -/
def withSome {β : Type} (p : ConfigProg δ (Option α)) (f : α → ConfigProg δ (Option β)) :
    ConfigProg δ (Option β) := do
  match ← p with
  | some a => f a
  | none => pure none

def effectiveLimits (username : String) (limitClass : LimitClass) :
    ConfigProg δ (Option RateLimit) :=
  withSome (getRuntimeConfig coercions) fun config =>
    withSome (getUserOverrides coercions username) fun overrides =>
      pure (some (overrides.apply limitClass (config.rateLimits limitClass)))

/-- The longest running timeout: a domain with a longer one must not outlive its Redis state. -/
def longestRunning (running : Int) (limits : List (String × DomainLimits)) : Int :=
  limits.foldl (fun running domain => domain.2.runningTimeoutSeconds.elim running (max running))
    running

def stateTtlSeconds (config : RuntimeConfig) (limits : List (String × DomainLimits)) : Int :=
  config.queuedTimeoutSeconds + longestRunning config.runningTimeoutSeconds limits +
    stateTtlMarginSeconds

/-- Redis job-state TTL: long enough to outlive the full queued+running lifecycle. -/
def getStateTtlSeconds : ConfigProg δ (Option Int) :=
  withSome (getRuntimeConfig coercions) fun config =>
    withSome (getDomainLimits coercions) fun limits => pure (some (stateTtlSeconds config limits))

/-- `submit_job`: the domain's own limit (maps are big) or the global one. -/
def maxUploadBytes (limits : List (String × DomainLimits)) (domain : Option String)
    (settings : Int) : Int :=
  ((limits.lookup ((nonEmpty domain).getD defaultDomain)).bind DomainLimits.maxUploadBytes).getD
    settings

def getMaxUploadBytes (domain : Option String) (settings : Int) : ConfigProg δ (Option Int) :=
  withSome (getDomainLimits coercions) fun limits =>
    pure (some (maxUploadBytes limits domain settings))

end

/-- `set_values` -/
def setValues (values : List (String × Json)) : ConfigProg δ Unit := do
  CachePolicy.change fun db => { db with config := db.config.setValues values }
  CachePolicy.drop fun key => key = .runtimeConfig

def invalidateUser (username : String) : ConfigProg δ Unit :=
  CachePolicy.drop fun key => key = .user username

def clearCache : ConfigProg δ Unit := CachePolicy.drop fun _ => true

/-! ## Who has to do with the cache -/

/-- A question to the config. -/
inductive Question where
  | limits (username : String) (limitClass : LimitClass)
  | stateTtl
  | maxUpload (domain : Option String) (settings : Int)
deriving DecidableEq

/-- What a question was answered, and when it was asked. -/
structure Answer where
  question : Question
  began : ℚ
  answer : RateLimit ⊕ Int
deriving DecidableEq

def Question.prog (coercions : Coercions) :
    Question → ConfigProg δ (Option (RateLimit ⊕ Int))
  | limits username limitClass =>
    withSome (effectiveLimits coercions username limitClass) fun limit => pure (some (.inl limit))
  | stateTtl => withSome (getStateTtlSeconds coercions) fun ttl => pure (some (.inr ttl))
  | maxUpload domain settings =>
    withSome (getMaxUploadBytes coercions domain settings) fun bytes => pure (some (.inr bytes))

def answerQuestion (coercions : Coercions) (question : Question) :
    ConfigProg Answer Unit := do
  let began ← CachePolicy.time
  match ← question.prog coercions with
  | some answer => CachePolicy.tell ⟨question, began, answer⟩
  | none => pure ()

inductive Hand where
  | ask (question : Question)
  /-- Another process writes to the tables. -/
  | admin (write : ConfigDb → ConfigDb)
  | setValues (values : List (String × Json))
  /-- `update_user`: the fields present in the body are set. -/
  | updateUser (username : String) (write : UserLimitOverrides → UserLimitOverrides)
  | clearCache
  | clock (durations : List ℚ)

def Hand.prog (coercions : Coercions) : Hand → ConfigProg Answer Unit
  | ask question => answerQuestion coercions question
  | admin write => CachePolicy.change write
  | setValues values => Config.setValues values
  | updateUser username write => do
    CachePolicy.change fun db =>
      { db with users := upsert username (fun overrides => overrides.map write) db.users }
    invalidateUser username
  | clearCache => Config.clearCache
  | clock durations => CachePolicy.clock durations

/-- Time does not go back. -/
def Hand.Forward : Hand → Prop
  | clock durations => ∀ d ∈ durations, 0 ≤ d
  | _ => True

/-- A process that just started, and everybody around it. -/
def pool {ι : Type} (coercions : Coercions) (hands : ι → Option Hand) (db : ConfigDb)
    (now : ℚ) : Pool (Cached ConfigDb ConfigKey ConfigValue)
      (CacheNote ConfigKey ConfigValue Answer) ι where
  shared := { source := db, now := now }
  procs i := (hands i).map (Hand.prog coercions)
  history := []

end Config

end Taas

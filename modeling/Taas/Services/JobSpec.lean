import Taas.Engines
import Taas.Infra.TtlCache
import Taas.Services.Domains
import Taas.Strings

/-!
# What a submitted job asks for

`app/services/job_spec.py`: a submit's domain, outputs and options, and their validation against
what domain sync recorded. What the `json` module, a JSON schema and the Unicode database say is a
parameter.

* `parseOutputs`, `parseExternalId`, `parseOptions` — the form fields.
* `specOf` — the checks, given what the enabled backends serve.
* `resolveJobSpec` — the same with the process's cache of capabilities.
-/

namespace Taas

open Infra Infra.Prog

/-- The `outputs` form field (comma-separated) as a set; `fmt` decides when it's absent. -/
def parseOutputs (table : CaseTable) (raw : Option String) (fmt : Fmt) :
    Except String (Finset String) :=
  match raw with
  | none => .ok fmt.outputs
  | some raw =>
    let items := (split ',' raw).map fun item => table.lower (strip item)
    if items.any fun item => item = "" then
      .error "outputs must be a comma-separated list of output names"
    else .ok items.toFinset

variable {S : Type}

/-- The parts of the checks that are not taas's own. -/
structure SpecReader (S : Type) where
  /-- `str.isprintable` -/
  isPrintable : String → Bool
  /-- `json.loads`; `error` has the message of a `JSONDecodeError`. -/
  loads : String → Except String Json
  /-- The validator's messages, each with its path. -/
  schemaErrors : S → Options → List String

namespace SpecReader

variable (reader : SpecReader S)

def externalIdMax : Nat := 255

/-- The caller's `external_id` label: optional, 1–255 printable characters, never parsed. -/
def parseExternalId (raw : Option String) : Except String (Option String) :=
  match nonEmpty raw with
  | none => .ok none
  | some label =>
    if externalIdMax < label.length then .error "external_id is longer than 255 characters"
    else if reader.isPrintable label then .ok (some label)
    else .error "external_id must be printable text"

/-- The `options` form field: a JSON object, `{}` when absent. -/
def parseOptions (raw : Option String) : Except String Options :=
  match raw.filter fun text => strip text ≠ "" with
  | none => .ok []
  | some text =>
    match reader.loads text with
    | .error message => .error ("options must be a JSON object: " ++ message)
    | .ok (.obj options) => .ok options
    | .ok _ => .error "options must be a JSON object"

/-- Why `options` don't satisfy `schema`; empty when they do. A domain with no stored schema yet
accepts only `{}`. -/
def optionsErrors (schema : Option S) (options : Options) : List String :=
  match schema with
  | none => (sorted (· ≤ ·) (options.map Prod.fst : Multiset String)).map fun key =>
      "unknown option '" ++ key ++ "'"
  | some schema => sorted (· ≤ ·) (reader.schemaErrors schema options : Multiset String)

end SpecReader

/-! ## What the enabled backends serve -/

/-- What one enabled backend does for a domain. -/
structure BackendCapability (S : Type) where
  outputs : Finset String
  optionsSchema : Option S
  adapter : AdapterId

/-- The query of `_domain_capabilities`: each enabled backend serving `name`. -/
def ServiceDb.capabilities (db : ServiceDb S) (name : String) : List (BackendCapability S) :=
  db.enabledBackends.filterMap fun backend => (db.link backend.id name).map fun link =>
    { outputs := link.outputs.toFinset, optionsSchema := db.schemaOf name,
      adapter := backend.adapter }

/-- The engine-specific checks: fine if any adapter that could take the request accepts it; else
the first adapter's reason, in the order of their ids. -/
def adapterRejection (adapters : List AdapterId) (outputs : Finset String) (options : Options) :
    Option String :=
  let asked := [AdapterId.tuzkam, .tuzkaocr].filter fun adapter => adapter ∈ adapters
  if asked.any fun adapter => (validateRequest adapter outputs options).isNone then none
  else (asked.filterMap fun adapter => validateRequest adapter outputs options).head?

structure JobSpec where
  domain : String
  outputs : Finset String
  options : Options

/-- The checks of `resolve_job_spec` against the backends that serve the domain; `error` is the
text of a 422. -/
def specOf (reader : SpecReader S) (name : String) (outputs : Finset String) (options : Options)
    (backends : List (BackendCapability S)) : Except String JobSpec :=
  match backends with
  | [] => .error ("No backend serves domain '" ++ name ++ "' — see GET /api/v1/domains")
  | first :: _ =>
    -- One backend has to produce all of them: a job isn't split across backends.
    let able := backends.filter fun backend => outputs ⊆ backend.outputs
    if able.isEmpty then
      let offered := sorted (· ≤ ·) (backends.flatMap fun backend =>
        sorted (· ≤ ·) backend.outputs.val).toFinset.val
      .error ("Domain '" ++ name ++ "' can't produce outputs " ++
        ", ".intercalate (sorted (· ≤ ·) outputs.val) ++ " together; its outputs are " ++
        ", ".intercalate offered)
    else
      match reader.optionsErrors first.optionsSchema options with
      | [] =>
        match adapterRejection (able.map (·.adapter)) outputs options with
        | some reason => .error ("Invalid request for domain '" ++ name ++ "': " ++ reason)
        | none => .ok { domain := name, outputs, options }
      | errors => .error ("Invalid options for domain '" ++ name ++ "': " ++ "; ".intercalate errors)

/-! ## The cache -/

def capabilitiesTtlSeconds : ℚ := 5

/-- `_capabilities`: only served domains are kept, as of the time before the query. -/
def capabilityCache : CachePolicy (List (BackendCapability S)) where
  ttl := capabilitiesTtlSeconds
  keep backends := !backends.isEmpty
  early := true

variable {δ : Type}

abbrev SpecProg (S δ α : Type) := CacheProg (ServiceDb S) String (List (BackendCapability S)) δ α

/-- Each enabled backend serving `name`. -/
def domainCapabilities (name : String) : SpecProg S δ (List (BackendCapability S)) :=
  capabilityCache.fetch (fun db => db.capabilities name) name

/-- Validate a submit's domain, outputs and options, in that order. A missing domain is
`default`. -/
def resolveJobSpec (reader : SpecReader S) (domain : Option String) (outputs : Finset String)
    (rawOptions : Option String) : SpecProg S δ (Except String JobSpec) :=
  let name := (nonEmpty domain).getD defaultDomain
  if reader.isPrintable name then
    match reader.parseOptions rawOptions with
    | .error message => pure (.error message)
    | .ok options => do
      let backends ← domainCapabilities name
      pure (specOf reader name outputs options backends)
  else pure (.error "domain must be printable text — see GET /api/v1/domains")

end Taas

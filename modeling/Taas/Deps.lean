import Taas.Infra.TtlCache
import Taas.Services.Scopes

/-!
# Who is calling

`app/deps.py`: the lookup of an API key, with the process's cache of valid keys. The hash of a key
(`hash_key`, SHA-256) is a parameter.

* `authenticatePrincipal` — the one path on which a key is looked up.
* `requirePrincipal`, `requireUser` — what a request gets, or the text of its 401.
-/

namespace Taas

open Infra Infra.Prog

/-- What a row of `users` says about its key. -/
structure UserRow where
  username : String
  hashedKey : String
  active : Bool := true
  allowedDomains : Option (List String) := none
  allowedOutputs : Option (List String) := none
deriving DecidableEq

/-- `_scope` -/
def scope (values : Option (List String)) : Option (Finset String) := values.map List.toFinset

def UserRow.principal (user : UserRow) : Principal where
  username := user.username
  allowedDomains := scope user.allowedDomains
  allowedOutputs := scope user.allowedOutputs

def userCacheTtl : ℚ := 10

def userCacheMax : Nat := 10000

/-- `_user_cache`: only valid users are kept, as of the time before the query. -/
def userCache : CachePolicy (Option Principal) where
  ttl := userCacheTtl
  keep principal := principal.isSome
  early := true
  cap := some userCacheMax

/-- The active user with this key. Where there are several, `pick` says which row the database
returns first. -/
def activeUser (pick : Nat) (hashed : String) (users : List UserRow) : Option UserRow :=
  let rows := users.filter fun user => user.hashedKey = hashed && user.active
  rows[pick % rows.length]?

variable {δ : Type}

/-- A program of a process that authenticates its callers. -/
abbrev AuthProg (δ α : Type) := CacheProg (List UserRow) String (Option Principal) δ α

section

variable (hashKey : String → String) (pick : Nat)

/-- The caller for a valid, active API key, or `none`. -/
def authenticatePrincipal (apiKey : String) : AuthProg δ (Option Principal) :=
  userCache.fetch (fun users => (activeUser pick (hashKey apiKey) users).map UserRow.principal)
    (hashKey apiKey)

def authenticateApiKey (apiKey : String) : AuthProg δ (Option String) :=
  (fun principal => principal.map Principal.username) <$> authenticatePrincipal hashKey pick apiKey

/-- The caller with their key's scope; `error` is the text of a 401. -/
def requirePrincipal (apiKey : Option String) : AuthProg δ (Except String Principal) :=
  match apiKey.filter fun key => key ≠ "" with
  | none => pure (.error "Missing X-API-Key header")
  | some key =>
    (fun principal => principal.elim (.error "Invalid API key") .ok) <$>
      authenticatePrincipal hashKey pick key

def requireUser (apiKey : Option String) : AuthProg δ (Except String String) :=
  match apiKey.filter fun key => key ≠ "" with
  | none => pure (.error "Missing X-API-Key header")
  | some key =>
    (fun username => username.elim (.error "Invalid API key") .ok) <$>
      authenticateApiKey hashKey pick key

end

/-- Drop all cached API-key lookups. -/
def invalidateAuthCache : AuthProg δ Unit := CachePolicy.drop fun _ => true

/-! ## Who has to do with the cache -/

/-- A request that was let in: its key's hash, the caller, and when the request began. -/
structure Admission where
  hashedKey : String
  principal : Principal
  began : ℚ
deriving DecidableEq

/-- A request with an API key. -/
def request (hashKey : String → String) (pick : Nat) (apiKey : Option String) :
    AuthProg Admission Unit := do
  let began ← CachePolicy.time
  match ← requirePrincipal hashKey pick apiKey with
  | .error _ => pure ()
  | .ok principal => CachePolicy.tell ⟨hashKey (apiKey.getD ""), principal, began⟩

inductive AuthHand where
  | request (pick : Nat) (apiKey : Option String)
  /-- Somebody writes to `users`. -/
  | admin (write : List UserRow → List UserRow)
  | invalidate
  | clock (durations : List ℚ)

def AuthHand.prog (hashKey : String → String) : AuthHand → AuthProg Admission Unit
  | request pick apiKey => Taas.request hashKey pick apiKey
  | admin write => CachePolicy.change write
  | invalidate => invalidateAuthCache
  | clock durations => CachePolicy.clock durations

/-- Time does not go back. -/
def AuthHand.Forward : AuthHand → Prop
  | clock durations => ∀ d ∈ durations, 0 ≤ d
  | _ => True

/-- A process that just started, and everybody around it. -/
def authPool {ι : Type} (hashKey : String → String) (hands : ι → Option AuthHand)
    (users : List UserRow) (now : ℚ) :
    Pool (Cached (List UserRow) String (Option Principal))
      (CacheNote String (Option Principal) Admission) ι where
  shared := { source := users, now := now }
  procs i := (hands i).map (AuthHand.prog hashKey)
  history := []

end Taas

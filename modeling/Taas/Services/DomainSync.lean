import Taas.Infra.Maps
import Taas.Schemas.Codec
import Taas.Services.Store
import Taas.Vocabulary

/-!
# Domain sync

`app/services/domain_sync.py`: an engine's `describe()`, or what a registration declares, turned
into rows of `domains` and `backend_domains`.

A domain's name stands for its id: both are unique, and no domain is deleted. The options schemas
are of any type of documents with a `==`; Python's, on JSON, is `Json.pyEq`.
-/

namespace Taas

open Infra

variable {S : Type}

structure DomainInfo (S : Type) where
  outputs : Finset String
  /-- `none` = the engine didn't describe any. -/
  optionsSchema : Option S := none

structure EngineInfo (S : Type) where
  /-- Empty = the engine advertised nothing. -/
  domains : Finmap fun _ : String => DomainInfo S

/-- A row of `backend_domains`. -/
structure BackendDomain where
  outputs : List String
  source : DomainSource := .engine
deriving DecidableEq

structure DomainDb (S : Type) where
  /-- `domains`: the options schema by name. -/
  domains : Finmap fun _ : String => Option S := ∅
  /-- `backend_domains`, by its primary key. -/
  backendDomains : BackendId → Finmap fun _ : String => BackendDomain := fun _ => ∅

/-! ## The rules -/

/-- What `plan_domain_links` returns. -/
structure DomainPlan (S : Type) where
  links : List (String × Finset String)
  /-- Domains whose options schema should be written: new ones, and ones whose stored schema
  differs. -/
  schemasToStore : List (String × S)
  /-- The ones that replace a different stored schema. -/
  changed : List String

/-- A turn of the loop: the schema to write for a described domain, if any. A backend that
describes no schema never clears a stored one. -/
def schemaToStore [BEq S] (knownSchemas : String → Option S) :
    String × DomainInfo S → Option (String × S)
  | (name, domain) =>
    match domain.optionsSchema with
    | none => none
    | some schema =>
      if (knownSchemas name).any fun known => known == schema then none
      else some (name, schema)

def planDomainLinks [BEq S] (info : EngineInfo S) (knownSchemas : String → Option S) :
    DomainPlan S :=
  let schemasToStore := (items info.domains).filterMap (schemaToStore knownSchemas)
  { links := (items info.domains).map fun (name, domain) => (name, domain.outputs)
    schemasToStore := schemasToStore
    changed := (schemasToStore.map Prod.fst).filter fun name => (knownSchemas name).isSome }

/-! ## The statements -/

namespace DomainDb

/-- `_domain_rows`: every name gets a row, if it has none. -/
def domainRows (db : DomainDb S) (names : List String) : DomainDb S :=
  { db with
    domains := upsertAll id (fun _ row => if row.isSome then none else some none) names db.domains }

/-- The schema stored for a domain. -/
def schemaOf (db : DomainDb S) (name : String) : Option S := (db.domains.lookup name).join

/-- `UPDATE domains SET options_schema = … WHERE id = …`, for each domain. -/
def storeSchemas (db : DomainDb S) (schemas : List (String × S)) : DomainDb S :=
  { db with
    domains :=
      upsertAll Prod.fst (fun kv row => row.map fun _ => some kv.2) schemas db.domains }

/-- Every row of the backend is deleted, and these are inserted. -/
def replaceLinks (db : DomainDb S) (backendId : BackendId) (links : List (String × Finset String)) :
    DomainDb S :=
  { db with
    backendDomains := Function.update db.backendDomains backendId
      (upsertAll Prod.fst (fun kv _ => some { outputs := sorted (· ≤ ·) kv.2.val }) links ∅) }

/-- `INSERT INTO backend_domains … ON CONFLICT … DO UPDATE SET outputs = … WHERE source =
'declared'`: what is written, given the row there. -/
def declare (declared : List String) : Option BackendDomain → Option BackendDomain
  | none => some { outputs := sorted (· ≤ ·) declared.toFinset.val, source := .declared }
  | some row =>
    if row.source = .declared then
      some { row with outputs := sorted (· ≤ ·) declared.toFinset.val }
    else none

/-- The statement, for each domain. -/
def declareLinks (db : DomainDb S) (backendId : BackendId) (links : List (String × List String)) :
    DomainDb S :=
  { db with
    backendDomains := Function.update db.backendDomains backendId
      (upsertAll Prod.fst (fun kv => declare kv.2) links (db.backendDomains backendId)) }

end DomainDb

/-! ## The two writers -/

def applyDomainSync [BEq S] (db : DomainDb S) (backendId : BackendId) (info : EngineInfo S) :
    DomainDb S :=
  let names := sorted (· ≤ ·) info.domains.keys.val
  if names = [] then db
  else
    let db := db.domainRows names
    let plan := planDomainLinks info db.schemaOf
    let db := db.storeSchemas plan.schemasToStore
    db.replaceLinks backendId plan.links

def applyDeclaredCapabilities (db : DomainDb S) (backendId : BackendId)
    (declared : Finmap fun _ : String => List String) : DomainDb S :=
  let db := db.domainRows (sorted (· ≤ ·) declared.keys.val)
  -- the domains come in any order, each of them once
  db.declareLinks backendId (items declared)

/-- A call of one of them. -/
inductive DomainCall (S : Type) where
  | sync (backendId : BackendId) (info : EngineInfo S)
  | declare (backendId : BackendId) (declared : Finmap fun _ : String => List String)

def DomainDb.call [BEq S] (db : DomainDb S) : DomainCall S → DomainDb S
  | .sync backendId info => applyDomainSync db backendId info
  | .declare backendId declared => applyDeclaredCapabilities db backendId declared

/-! ## Python's `==` on JSON documents -/

namespace Json

/-- The number that a value is: `True == 1` and `1 == 1.0`. -/
def number : Json → Option ℚ
  | bool b => some (if b then 1 else 0)
  | int n => some n
  | float x => some x
  | _ => none

mutual

def pyEq : Json → Json → Bool
  | null, null => true
  | str s, str t => s = t
  | arr items, arr items' => itemsEq items items'
  | obj members, obj members' =>
    members.length = members'.length && membersEq members members'
  | a, b =>
    match a.number, b.number with
    | some x, some y => x = y
    | _, _ => false

def itemsEq : List Json → List Json → Bool
  | [], [] => true
  | item :: items, item' :: items' => item.pyEq item' && itemsEq items items'
  | _, _ => false

/-- Every member of the first dict is one of the second. -/
def membersEq : List (String × Json) → List (String × Json) → Bool
  | [], _ => true
  | (key, value) :: members, members' =>
    ((members'.lookup key).any fun value' => value.pyEq value') && membersEq members members'

end

instance pythonEq : BEq Json := ⟨pyEq⟩

end Json

end Taas

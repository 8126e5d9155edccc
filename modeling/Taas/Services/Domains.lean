import Taas.Services.DomainSync
import Taas.Services.Scopes

/-!
# The domains taas serves

`app/services/domains.py`, the queries of `app/services/domain_sync.py` and `list_domains` of
`app/routers/jobs.py`.

* `ServiceDb.allServedCapabilities` — what dispatch checks a job against.
* `ServiceDb.servedDomains` — the domains that at least one enabled backend serves.
* `listDomains` — what a key sees of them.
-/

namespace Taas

open Infra

variable {S : Type}

/-- A row of `backends`, with the columns that a submit depends on. -/
structure BackendRow where
  id : BackendId
  adapter : AdapterId := .tuzkaocr
  enabled : Bool := true
deriving DecidableEq

/-- What an admin sets on a domain. -/
structure DomainLabels where
  label : Option String := none
  description : Option String := none
  legacyEngineId : Option Int := none
deriving DecidableEq

/-- The tables that say what is served. -/
structure ServiceDb (S : Type) extends DomainDb S where
  backends : List BackendRow := []
  labels : String → DomainLabels := fun _ => {}

namespace ServiceDb

variable (db : ServiceDb S)

/-- A backend's row for a domain, joined with the domain's. -/
def link (backendId : BackendId) (name : String) : Option BackendDomain :=
  (db.domains.lookup name).bind fun _ => (db.backendDomains backendId).lookup name

/-- `all_served_capabilities`: backend id → domain → outputs, for every backend. -/
def allServedCapabilities (backendId : BackendId) (name : String) : Option (Finset String) :=
  (db.link backendId name).map fun link => link.outputs.toFinset

def enabledBackends : List BackendRow := db.backends.filter fun backend => backend.enabled

end ServiceDb

/-- A domain at least one enabled backend serves, and every output they produce. -/
structure ServedDomain (S : Type) where
  name : String
  labels : DomainLabels
  optionsSchema : Option S
  outputs : List String

namespace ServiceDb

variable (db : ServiceDb S)

/-- The rows of the join for a domain, with their outputs unnested. -/
def unnested (name : String) : List String :=
  db.enabledBackends.flatMap fun backend => ((db.link backend.id name).map (·.outputs)).getD []

/-- The group of a domain, unless it is empty. -/
def servedDomain (name : String) : Option (ServedDomain S) :=
  let outputs := sorted (· ≤ ·) (db.unnested name).toFinset.val
  if outputs = [] then none
  else some { name, outputs, labels := db.labels name, optionsSchema := db.schemaOf name }

/-- `_SERVED_DOMAINS_SQL`: a domain served by several backends reports the union of what they
produce. The texts are in the order of their code points. -/
def servedDomains : List (ServedDomain S) :=
  (sorted (· ≤ ·) db.domains.keys.val).filterMap db.servedDomain

end ServiceDb

/-- The entry of a domain, unless the key sees nothing of it. -/
def Principal.domainEntry (principal : Principal) (domain : ServedDomain S) :
    Option (ServedDomain S) :=
  let outputs := principal.visibleOutputs domain.name domain.outputs.toFinset
  if outputs = ∅ then none
  else some { domain with outputs := domain.outputs.filter fun o => o ∈ outputs }

/-- `GET /domains`: the domains served by at least one enabled backend that the key may use. -/
def listDomains (principal : Principal) (db : ServiceDb S) : List (ServedDomain S) :=
  db.servedDomains.filterMap principal.domainEntry

end Taas

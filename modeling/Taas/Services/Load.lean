import Taas.Infra.Counter
import Taas.Infra.Maps
import Taas.Strings
import Taas.Vocabulary

/-!
# Load arithmetic

`app/services/load.py`: the field a job is counted under in the load counters, and the totals
that `GET /load` makes of the counters, as a whole or in groups.

* `computeLoad` — the total over the fields that pass the filters.
* `groupLoad` — a total for each domain, or for each adapter.
-/

namespace Taas

open Infra

/-- The load-counter field for a (domain, outputs) pair, e.g. `default|alto,txt`. -/
def loadField (domain : String) (outputs : Finset String) : String :=
  domain ++ "|" ++ ",".intercalate (Infra.sorted (· ≤ ·) outputs.val)

/-- `parse_load_field` -/
def parseLoadField (field : String) : String × Finset String :=
  let (domain, outputs) := partition '|' field
  (domain, ((split ',' outputs).filter (· ≠ "")).toFinset)

@[ext] structure LoadTotals where
  queued : Int := 0
  inflight : Int := 0
  /-- Seconds of engine work not finished yet. -/
  backlogS : ℚ := 0
deriving DecidableEq

/-- A counter field, read. -/
structure LoadCount where
  domain : String
  outputs : Finset String
  queued : Int
  inflight : Int

/-- Outputs by domain. -/
abbrev Capabilities := Finmap fun _ : String => Finset String

/-- `_matches` -/
def loadMatches (domain : String) (outputs : Finset String) (domains : Option (Finset String))
    (caps : Option Capabilities) : Bool :=
  if domains.any fun ds => domain ∉ ds then false
  else
    match caps with
    | some caps => (caps.lookup domain).any fun served => outputs ⊆ served
    | none => true

section Totals

variable (queued inflight : Counter String)

/-- `_counts`. The set of the fields has no order in Python; here they come sorted. -/
def loadCounts : List LoadCount :=
  (sorted (· ≤ ·) (queued.keys ∪ inflight.keys).val).map fun field =>
    let (domain, outputs) := parseLoadField field
    ⟨domain, outputs, queued.value field, inflight.value field⟩

-- Seconds per page by domain, and for a domain without a measurement.
variable (spp : Finmap fun _ : String => ℚ) (defaultSpp : ℚ)

/-- One turn of the loop of `compute_load`. -/
def LoadTotals.count (domains : Option (Finset String)) (caps : Option Capabilities)
    (totals : LoadTotals) (c : LoadCount) : LoadTotals :=
  if loadMatches c.domain c.outputs domains caps then
    let q := max c.queued 0
    let i := max c.inflight 0
    { queued := totals.queued + q
      inflight := totals.inflight + i
      backlogS := totals.backlogS + (q + i) * (spp.lookup c.domain).getD defaultSpp }
  else totals

def computeLoad (domains : Option (Finset String)) (caps : Option Capabilities) : LoadTotals :=
  (loadCounts queued inflight).foldl (LoadTotals.count spp defaultSpp domains caps) {}

/-- The dict of the groups, in its order. -/
def groupLoad (groupBy : LoadGroupBy) (adapterCaps : Finmap fun _ : String => Capabilities)
    (domains : Option (Finset String)) : List (String × LoadTotals) :=
  match groupBy with
  | .adapter =>
    (items adapterCaps).map fun (adapter, caps) =>
      (adapter, computeLoad queued inflight spp defaultSpp domains (some caps))
  | .domain =>
    let names := ((loadCounts queued inflight).map LoadCount.domain).toFinset
    ((sorted (· ≤ ·) names.val).filter fun name => domains.all fun ds => name ∈ ds).map
      fun name => (name, computeLoad queued inflight spp defaultSpp (some {name}) none)

end Totals

end Taas

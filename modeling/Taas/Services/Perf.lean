import Mathlib.Algebra.Order.Ring.Rat
import Mathlib.Data.List.Sort
import Taas.Infra.Pool
import Taas.Infra.SortedSet
import Taas.Services.Store

/-!
# Measured engine speed

`app/services/perf.py`: the seconds per megapixel of a backend in a domain, made worse by failures,
which dispatch plans with. Floats are rationals here.

* `PerfStore` — the hashes, in which the three fields of a domain are told apart by their names
  alone.
* `recordService`, `recordFailure` — what pollers and dispatch record, command by command.
* `loadScores` — the scores of a tick.
* `effectiveSpp` — the figure to plan with.
* `PerfHand`, `perfPool` — everybody who has to do with the scores.
-/

namespace Taas

open Infra Infra.Prog

/-! ## The arithmetic -/

/-- `ewma`: the first sample is taken as-is. -/
def ewma (prev : Option ℚ) (sample alpha : ℚ) : ℚ :=
  match prev with
  | none => sample
  | some prev => alpha * sample + (1 - alpha) * prev

/-- Weight of the newest page in the average. -/
def perfAlpha : ℚ := 1 / 5

/-- Below this, a backend borrows the other backends' median. -/
def coldSamples : Int := 5

def penaltyFactor : ℚ := 3 / 2

def maxPenalty : ℚ := 10

/-- A thumbnail doesn't make the per-MP figure explode. -/
def minMegapixels : ℚ := 1 / 100

/-- The penalty factor after one more failure. -/
def penalize (penalty : ℚ) : ℚ := min (penalty * penaltyFactor) maxPenalty

/-- The penalty factor after a page finished fine: failures fade as it recovers. -/
def ease (penalty : ℚ) : ℚ := max 1 (penalty / penaltyFactor)

/-- `statistics.median` of some values. -/
def median (values : List ℚ) : ℚ :=
  let ordered := values.insertionSort (· ≤ ·)
  let middle := ordered.length / 2
  if ordered.length % 2 = 1 then ordered.getD middle 0
  else (ordered.getD (middle - 1) 0 + ordered.getD middle 0) / 2

structure Score where
  spp : ℚ
  samples : Int
  penalty : ℚ
deriving DecidableEq

/-- A dict by backend and domain. -/
abbrev Scores := List ((BackendId × String) × Score)

/-- Seconds per megapixel to plan with, penalty included. -/
def effectiveSpp (backendId : BackendId) (domain : String) (scores : Scores) (fallback : ℚ) : ℚ :=
  let own := scores.lookup (backendId, domain)
  let penalty := own.elim 1 Score.penalty
  match own.filter fun own => coldSamples ≤ own.samples with
  | some own => own.spp * penalty
  | none =>
    let warm := (scores.filter fun entry => entry.1.2 = domain ∧ entry.1.1 ≠ backendId ∧
      coldSamples ≤ entry.2.samples).map fun entry => entry.2.spp
    if warm ≠ [] then median warm * penalty
    else
      match own.filter fun own => 0 < own.samples with
      | some own => own.spp * penalty
      | none => fallback * penalty

/-! ## The store -/

/-- What a field holds: the text of a float, or of a count that only `HINCRBY` wrote. -/
inductive Figure where
  | float (x : ℚ)
  | count (n : Int)
deriving DecidableEq

/-- `float(value)` -/
def Figure.toFloat : Figure → ℚ
  | float x => x
  | count n => n

/-- `int(value)`, which takes no text of a float. -/
def Figure.toInt : Figure → Option Int
  | float _ => none
  | count n => some n

/-- The hashes `perf:{backend_id}`. -/
abbrev PerfStore := BackendId → String → Option Figure

/-- The fields of a domain beside its average, `{domain}`. -/
def samplesField (domain : String) : String := domain ++ ":n"

def penaltyField (domain : String) : String := domain ++ ":pen"

/-- `HSET` of a float -/
def PerfStore.hset (backendId : BackendId) (field : String) (x : ℚ) (s : PerfStore) : PerfStore :=
  Function.update s backendId (Function.update (s backendId) field (some (.float x)))

/-- `HINCRBY … 1`, which fails on the text of a float. -/
def PerfStore.hincr (backendId : BackendId) (field : String) (s : PerfStore) : PerfStore :=
  match s backendId field with
  | some (.float _) => s
  | some (.count n) =>
    Function.update s backendId (Function.update (s backendId) field (some (.count (n + 1))))
  | none => Function.update s backendId (Function.update (s backendId) field (some (.count 1)))

/-- What a tick planned with for a backend in a domain. -/
structure Planned where
  backendId : BackendId
  domain : String
  spp : ℚ
deriving DecidableEq

abbrev PerfProg (α : Type) := Prog PerfStore Planned α

/-- Fold one finished page into the backend's average for the domain, and ease its failure penalty.
The pipeline is no transaction: others come in between its commands. -/
def recordService (backendId : BackendId) (domain : String) (seconds megapixels : ℚ) :
    PerfProg Unit := do
  let sample := seconds / max megapixels minMegapixels
  let found ← query fun s : PerfStore => (s backendId domain, s backendId (penaltyField domain))
  act (PerfStore.hset backendId domain (ewma (found.1.map Figure.toFloat) sample perfAlpha))
  act (PerfStore.hincr backendId (samplesField domain))
  match found.2 with
  | none => pure ()
  | some penalty => act (PerfStore.hset backendId (penaltyField domain) (ease penalty.toFloat))

/-- `_f(value) or 1.0` -/
def orOne (penalty : Option ℚ) : ℚ := (penalty.filter fun penalty => penalty ≠ 0).getD 1

/-- A failed attempt on the backend for the domain makes it look slower. -/
def recordFailure (backendId : BackendId) (domain : String) : PerfProg Unit := do
  let penalty ← query fun s : PerfStore => s backendId (penaltyField domain)
  act (PerfStore.hset backendId (penaltyField domain)
    (penalize (orOne (penalty.map Figure.toFloat))))

/-- The score that the three fields of a domain stand for, if they do; `none` when `int` raises. -/
def scoreOf (spp samples penalty : Option Figure) : Option (Option Score) :=
  match spp, penalty with
  | some spp, penalty =>
    (samples.elim (some 0) Figure.toInt).map fun samples =>
      some { spp := spp.toFloat, samples, penalty := orOne (penalty.map Figure.toFloat) }
  | none, some penalty => some (some { spp := 0, samples := 0, penalty := penalty.toFloat })
  | none, none => some none

/-- The scores in a backend's reply. -/
def rowScores (backendId : BackendId) (row : List (String × (Option Figure × Option Figure ×
    Option Figure))) : Option Scores :=
  (row.mapM fun field => (scoreOf field.2.1 field.2.2.1 field.2.2.2).map fun score =>
    score.map fun score => ((backendId, field.1), score)).map (List.filterMap id)

/-- The replies of the pipeline: one command reads all fields of a backend. -/
def scoreRows (domains : List String) : List BackendId → PerfProg (Option Scores)
  | [] => pure (some [])
  | backendId :: ids => do
    let row ← query fun s : PerfStore => domains.map fun domain => (domain, s backendId domain,
      s backendId (samplesField domain), s backendId (penaltyField domain))
    let rest ← scoreRows domains ids
    pure do
      let scores ← rowScores backendId row
      let rest ← rest
      pure (scores ++ rest)

/-- Every (backend, domain) score in one round trip, for one dispatch tick. -/
def loadScores (ids : List BackendId) (domains : List String) : PerfProg (Option Scores) :=
  scoreRows (sorted (· ≤ ·) domains.toFinset.val) ids

/-! ## Who has to do with the scores -/

/-- What a tick plans with, for each of its backends and domains. -/
def planned (ids : List BackendId) (domains : List String) (fallback : String → ℚ)
    (scores : Scores) : List Planned :=
  ids.flatMap fun backendId => domains.map fun domain =>
    { backendId, domain, spp := effectiveSpp backendId domain scores (fallback domain) }

inductive PerfHand where
  /-- A poller stored a page's results. -/
  | service (backendId : BackendId) (domain : String) (seconds megapixels : ℚ)
  | failure (backendId : BackendId) (domain : String)
  /-- A tick of the submit worker. -/
  | tick (ids : List BackendId) (domains : List String) (fallback : String → ℚ)

def PerfHand.prog : PerfHand → PerfProg Unit
  | service backendId domain seconds megapixels =>
    recordService backendId domain seconds megapixels
  | failure backendId domain => recordFailure backendId domain
  | tick ids domains fallback => do
    match ← loadScores ids domains with
    | none => pure ()
    | some scores => callLog (fun _ => planned ids domains fallback scores) (fun _ => ()) id

end Taas

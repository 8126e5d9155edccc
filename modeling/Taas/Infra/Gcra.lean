import Mathlib.Algebra.Order.Field.Basic
import Mathlib.Data.List.Basic
import Mathlib.Tactic.Linarith
import Mathlib.Tactic.Ring

/-!
# The generic cell rate algorithm

A limiter remembers one time, the theoretical arrival time of the next request. A request that
comes more than `tau` before it is denied; one that is allowed moves it by `T`.

* `Gcra.allowed` — the requests that are allowed.
* `Gcra.window` — the bound on those in an interval.
* `Gcra.allowed_replicate` — the burst.
* `Gcra.denied_iff` — when a denied request may be made again.
-/

namespace Infra.Gcra

variable {K : Type} [Field K] [LinearOrder K] [IsStrictOrderedRing K] {T tau : K}

/-- When the request was due: now, if the limiter has been idle. -/
def arrival (now : K) : Option K → K
  | none => now
  | some tat => max tat now

omit [Field K] [IsStrictOrderedRing K] in
theorem le_arrival (now : K) (tat : Option K) : now ≤ arrival now tat := by
  cases tat with
  | none => exact le_refl now
  | some tat => exact le_max_right tat now

/-- The times of the requests that are allowed. -/
def allowed (T tau : K) : Option K → List K → List K
  | _, [] => []
  | tat, now :: times =>
    if arrival now tat - now ≤ tau then now :: allowed T tau (some (arrival now tat + T)) times
    else allowed T tau tat times

/-- Each allowed request moves the arrival time by `T`, and the last one is not before it. -/
theorem length_le_of_tat (hT : 0 ≤ T) (tau until' tat : K) (times : List K) :
    ((allowed T tau (some tat) times).filter (· ≤ until')).length = 0 ∨
      tat + (((allowed T tau (some tat) times).filter (· ≤ until')).length - 1) * T ≤
        until' + tau := by
  induction times generalizing tat with
  | nil => exact Or.inl rfl
  | cons now times ih =>
    have hle := le_max_left tat now
    unfold allowed
    split
    · next hallowed =>
      rw [arrival] at hallowed ⊢
      by_cases hnow : now ≤ until'
      · right
        rw [List.filter_cons_of_pos (by simpa using hnow), List.length_cons]
        rcases ih (max tat now + T) with hnil | hrest
        · rw [hnil]
          push_cast
          linarith
        · push_cast
          linarith
      · rw [List.filter_cons_of_neg (by simpa using hnow)]
        rcases ih (max tat now + T) with hnil | hrest
        · exact Or.inl hnil
        · right
          linarith
    · exact ih tat

/-- **In an interval of length `L` at most `1 + (tau + L) / T` requests are allowed.** -/
theorem window (hT : 0 < T) (tat : Option K) (times : List K) (t L : K) (hL : 0 ≤ L)
    (htau : 0 ≤ tau) :
    (((allowed T tau tat times).filter fun now => t ≤ now ∧ now ≤ t + L).length - 1 : K) * T ≤
      tau + L := by
  induction times generalizing tat with
  | nil =>
    simp only [allowed, List.filter_nil, List.length_nil]
    push_cast
    linarith
  | cons now times ih =>
    unfold allowed
    split
    · by_cases hnow : t ≤ now ∧ now ≤ t + L
      · rw [List.filter_cons_of_pos (by simpa using hnow), List.length_cons]
        set rest := allowed T tau (some (arrival now tat + T)) times with hrest
        -- those in the interval are among those up to its end
        have hsub : (rest.filter fun now => t ≤ now ∧ now ≤ t + L).length ≤
            (rest.filter (· ≤ t + L)).length := by
          refine List.Sublist.length_le (List.monotone_filter_right rest fun s hs => ?_)
          simp only [decide_eq_true_eq] at hs ⊢
          exact hs.2
        have hcast : ((rest.filter fun now => t ≤ now ∧ now ≤ t + L).length : K) ≤
            ((rest.filter (· ≤ t + L)).length : K) := by exact_mod_cast hsub
        have harrival := le_arrival now tat
        rcases length_le_of_tat hT.le tau (t + L) (arrival now tat + T) times with hnil | hle
        · rw [← hrest] at hnil
          rw [hnil] at hcast
          have hpos : ((rest.filter fun now => t ≤ now ∧ now ≤ t + L).length : K) * T ≤ 0 := by
            refine mul_nonpos_of_nonpos_of_nonneg ?_ hT.le
            simpa using hcast
          push_cast
          linarith
        · rw [← hrest] at hle
          have hmul := mul_le_mul_of_nonneg_right hcast hT.le
          push_cast
          linarith [hnow.1]
      · rw [List.filter_cons_of_neg (by simpa using hnow)]
        exact ih _
    · exact ih tat

/-! ## The burst, and trying again -/

/-- Requests at one moment: as many are allowed as fit into `tau`. -/
theorem allowed_replicate (hT : 0 ≤ T) (now tat : K) (n : Nat) (hle : now ≤ tat)
    (hn : tat + (n - 1) * T ≤ now + tau) :
    allowed T tau (some tat) (List.replicate n now) = List.replicate n now := by
  induction n generalizing tat with
  | zero => rfl
  | succ n ih =>
    have hnonneg : 0 ≤ (n : K) * T := mul_nonneg (Nat.cast_nonneg n) hT
    push_cast at hn
    have harrival : arrival now (some tat) = tat := max_eq_left hle
    rw [List.replicate_succ, allowed, harrival, if_pos (by linarith)]
    rw [ih (tat + T) (by linarith) (by linarith)]

/-- A limiter that has been idle. -/
theorem allowed_burst (hT : 0 ≤ T) {now : K} {tat : Option K} (hidle : arrival now tat = now)
    (n : Nat) (hn : (n - 1) * T ≤ tau) (htau : 0 ≤ tau) :
    allowed T tau tat (List.replicate n now) = List.replicate n now := by
  cases n with
  | zero => rfl
  | succ n =>
    push_cast at hn
    rw [List.replicate_succ, allowed, hidle, if_pos (by linarith)]
    rw [allowed_replicate hT now (now + T) n (by linarith) (by linarith)]

/-- What a denied request waits for. -/
theorem denied_iff {now : K} (later : K) {tat : Option K} (htau : 0 ≤ tau)
    (hnow : ¬arrival now tat - now ≤ tau) :
    arrival later tat - later ≤ tau ↔ now + (arrival now tat - tau - now) ≤ later := by
  cases tat with
  | none =>
    rw [arrival, sub_self] at hnow
    exact absurd htau hnow
  | some tat =>
    -- the request was denied, so the arrival time is ahead
    have hahead : now ≤ tat := by
      by_contra hlt
      rw [arrival, max_eq_right (not_le.mp hlt).le, sub_self] at hnow
      exact hnow htau
    rw [arrival, arrival, max_eq_left hahead]
    constructor
    · intro h
      have := le_max_left tat later
      linarith
    · intro h
      rcases le_total tat later with hle | hle
      · rw [max_eq_right hle, sub_self]
        exact htau
      · rw [max_eq_left hle]
        linarith

end Infra.Gcra

import Mathlib.Data.Finmap
import Mathlib.Data.Finset.Card
import Mathlib.Tactic.Linarith

/-!
# Counters

A hash of integer counters, in which a missing field counts as zero (`Counter`), and the
number of the elements with a property (`Numbers`), which changes by one at most when only
one of them changes (`Numbers.update`).
-/

namespace Infra

/-- Integer counters by field. -/
abbrev Counter (K : Type) := Finmap fun _ : K => Int

namespace Counter

variable {K : Type} [DecidableEq K]

def value (c : Counter K) (k : K) : Int := (c.lookup k).getD 0

def incrBy (c : Counter K) (k : K) (d : Int) : Counter K := c.insert k (c.value k + d)

@[simp] theorem value_empty (k : K) : value (∅ : Counter K) k = 0 := by
  simp [value]

@[simp] theorem value_incrBy (c : Counter K) (k k' : K) (d : Int) :
    (c.incrBy k d).value k' = c.value k' + if k' = k then d else 0 := by
  by_cases h : k' = k
  · subst h
    simp [value, incrBy]
  · simp [value, incrBy, Finmap.lookup_insert_of_ne _ h, h]

/-- No field is kept at zero. -/
def Tight (c : Counter K) : Prop := ∀ k, c.lookup k ≠ some 0

/-- Without zeros, a field that counts nothing is missing. -/
theorem Tight.lookup_eq_none {c : Counter K} (h : c.Tight) {k : K} :
    c.lookup k = none ↔ c.value k = 0 := by
  unfold value
  cases hl : c.lookup k with
  | none => simp
  | some n =>
    have hn : n ≠ 0 := fun h0 => h k (h0 ▸ hl)
    simp [hn]

theorem tight_empty : Tight (∅ : Counter K) := fun k => by simp

/-- A field may be changed to anything but zero. -/
theorem Tight.incrBy {c : Counter K} (h : c.Tight) {k : K} {d : Int} (hd : c.value k + d ≠ 0) :
    (c.incrBy k d).Tight := by
  intro k'
  by_cases hk : k' = k
  · subst hk
    simpa [Counter.incrBy] using hd
  · rw [Counter.incrBy, Finmap.lookup_insert_of_ne _ hk]
    exact h k'

/-- Every field is positive. -/
def Positive (c : Counter K) : Prop := ∀ k n, c.lookup k = some n → 0 < n

theorem positive_empty : Positive (∅ : Counter K) := fun k n h => by simp at h

/-- A positive counter has no zeros. -/
theorem Positive.tight {c : Counter K} (h : c.Positive) : c.Tight := fun k h0 =>
  absurd (h k 0 h0) (lt_irrefl 0)

theorem Positive.value_nonneg {c : Counter K} (h : c.Positive) (k : K) : 0 ≤ c.value k := by
  unfold value
  cases hl : c.lookup k with
  | none => exact le_refl 0
  | some n => exact (h k n hl).le

/-- A counter that only grows stays positive. -/
theorem Positive.incrBy {c : Counter K} (h : c.Positive) {k : K} {d : Int} (hd : 0 < d) :
    (c.incrBy k d).Positive := by
  intro k' n hn
  by_cases hk : k' = k
  · subst hk
    rw [Counter.incrBy, Finmap.lookup_insert, Option.some.injEq] at hn
    have := h.value_nonneg k'
    omega
  · rw [Counter.incrBy, Finmap.lookup_insert_of_ne _ hk] at hn
    exact h k' n hn

/-- Without zeros the fields are given by the values. -/
theorem Tight.lookup_eq {c : Counter K} (h : c.Tight) (k : K) :
    c.lookup k = if c.value k = 0 then none else some (c.value k) := by
  split
  · next h0 => exact h.lookup_eq_none.mpr h0
  · next h0 =>
    unfold value at h0 ⊢
    cases hl : c.lookup k with
    | none => exact absurd (congrArg (fun o => o.getD 0) hl) h0
    | some n => rfl

/-- One less, and the field deleted at zero. -/
def drop (c : Counter K) (k : K) : Counter K :=
  if (c.incrBy k (-1)).value k ≤ 0 then (c.incrBy k (-1)).erase k else c.incrBy k (-1)

/-- A drop takes one off, whether it deletes the field or not. -/
theorem value_drop {c : Counter K} {k : K} (h : 1 ≤ c.value k) (k' : K) :
    (c.drop k).value k' = c.value k' - if k' = k then 1 else 0 := by
  unfold drop
  split
  · next hle =>
    rw [value_incrBy, if_pos rfl] at hle
    by_cases hk : k' = k
    · subst hk
      have herase : value ((c.incrBy k' (-1)).erase k') k' = 0 := by simp [value]
      rw [herase, if_pos rfl]
      omega
    · have hincr := value_incrBy c k k' (-1)
      rw [if_neg hk, add_zero] at hincr
      rw [value, Finmap.lookup_erase_ne hk, if_neg hk, sub_zero]
      exact hincr
  · rw [value_incrBy]
    split <;> omega

/-- A drop leaves no zero. -/
theorem Tight.drop {c : Counter K} (h : c.Tight) (k : K) : (c.drop k).Tight := by
  unfold Counter.drop
  split
  · intro k'
    by_cases hk : k' = k
    · subst hk
      simp
    · rw [Finmap.lookup_erase_ne hk, Counter.incrBy, Finmap.lookup_insert_of_ne _ hk]
      exact h k'
  · next hlt =>
    rw [value_incrBy, if_pos rfl] at hlt
    exact h.incrBy (by omega)

end Counter

/-- `1` when `p` holds, else `0`. -/
def indicator (p : Prop) [Decidable p] : Int := if p then 1 else 0

@[simp] theorem indicator_true : indicator True = 1 := rfl

@[simp] theorem indicator_false : indicator False = 0 := rfl

/-- Exactly `n` elements have `P`. -/
def Numbers {α : Type} (P : α → Prop) (n : Int) : Prop :=
  ∃ S : Finset α, (∀ x, x ∈ S ↔ P x) ∧ n = S.card

namespace Numbers

variable {α : Type} {P Q : α → Prop} {n : Int}

theorem nonneg (h : Numbers P n) : 0 ≤ n := by
  obtain ⟨S, -, rfl⟩ := h
  exact Int.natCast_nonneg _

/-- A number is positive once one element is counted. -/
theorem one_le (h : Numbers P n) {a : α} (ha : P a) : 1 ≤ n := by
  obtain ⟨S, hS, rfl⟩ := h
  have : 0 < S.card := Finset.card_pos.mpr ⟨a, (hS a).mpr ha⟩
  omega

/-- There is one such number. -/
theorem eq_card (h : Numbers P n) {S : Finset α} (hS : ∀ x, x ∈ S ↔ P x) : n = S.card := by
  obtain ⟨T, hT, rfl⟩ := h
  have : T = S := Finset.ext fun x => (hT x).trans (hS x).symm
  rw [this]

theorem of_forall_not (h : ∀ x, ¬P x) : Numbers P 0 :=
  ⟨∅, fun x => by simp [h x], by simp⟩

/-- When only `a` changes, the number changes by whether `a` is counted. -/
theorem update [DecidableEq α] (h : Numbers P n) (a : α) (hPQ : ∀ x, x ≠ a → (Q x ↔ P x))
    [Decidable (P a)] [Decidable (Q a)] :
    Numbers Q (n + indicator (Q a) - indicator (P a)) := by
  obtain ⟨S, hS, rfl⟩ := h
  have hcard : ∀ T : Finset α, (T.card : Int) = (T.erase a).card + indicator (a ∈ T) := by
    intro T
    by_cases ha : a ∈ T
    · rw [← Finset.card_erase_add_one ha]
      simp [indicator, ha]
    · rw [Finset.erase_eq_of_notMem ha]
      simp [indicator, ha]
  refine ⟨if Q a then insert a S else S.erase a, fun x => ?_, ?_⟩
  · by_cases hx : x = a
    · subst hx
      split <;> simp_all
    · have := hPQ x hx
      split <;> simp [hx, hS, this]
  · rw [hcard S, hcard (if Q a then insert a S else S.erase a)]
    by_cases hQ : Q a <;> by_cases hP : P a <;> simp [indicator, hQ, hP, hS]

end Numbers

end Infra

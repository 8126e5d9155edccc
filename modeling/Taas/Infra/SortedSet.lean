import Mathlib.Algebra.BigOperators.Group.Finset.Defs
import Mathlib.Data.Finmap
import Mathlib.Data.List.Sort
import Mathlib.Data.String.Basic
import Mathlib.Algebra.Order.Ring.Rat

/-!
# Sorted sets

A sorted set gives each of its members a score. It is read in the order of the scores,
members with the same score in their own order. `range` is that reading.
-/

namespace Infra

/-! ## Sorting a multiset -/

section Sorted

variable {α : Type} (r : α → α → Prop) [DecidableRel r] [IsTrans α r] [Std.Total r]
  [Std.Antisymm r]

/-- The elements in the order of `r`. It computes in the kernel, unlike a merge sort. -/
def sorted (s : Multiset α) : List α :=
  Quot.liftOn s (List.insertionSort r) fun l l' h =>
    List.Perm.eq_of_pairwise' (List.pairwise_insertionSort r l) (List.pairwise_insertionSort r l')
      ((List.perm_insertionSort r l).trans (h.trans (List.perm_insertionSort r l').symm))

theorem coe_sorted (s : Multiset α) : (sorted r s : Multiset α) = s := by
  induction s using Quot.inductionOn with
  | h l => exact Quot.sound (List.perm_insertionSort r l)

theorem sorted_pairwise (s : Multiset α) : (sorted r s).Pairwise r := by
  induction s using Quot.inductionOn with
  | h l => exact List.pairwise_insertionSort r l

@[simp] theorem mem_sorted {s : Multiset α} {a : α} : a ∈ sorted r s ↔ a ∈ s := by
  rw [← Multiset.mem_coe, coe_sorted]

theorem nodup_sorted {s : Multiset α} : (sorted r s).Nodup ↔ s.Nodup := by
  rw [← Multiset.coe_nodup, coe_sorted]

theorem filter_sorted (s : Multiset α) (p : α → Prop) [DecidablePred p] :
    (sorted r s).filter (fun a => decide (p a)) = sorted r (s.filter p) := by
  refine List.Perm.eq_of_pairwise' ((sorted_pairwise r s).filter _) (sorted_pairwise r _) ?_
  rw [← Multiset.coe_eq_coe, coe_sorted, ← Multiset.filter_coe, coe_sorted]

theorem sum_sorted {M : Type} [AddCommMonoid M] (s : Finset α) (f : α → M) :
    ((sorted r s.val).map f).sum = ∑ a ∈ s, f a := by
  rw [Finset.sum, ← Multiset.sum_coe, ← Multiset.map_coe, coe_sorted]

end Sorted

/-! ### Names upwards, numbers downwards -/

instance isTransNames : IsTrans String (· ≤ ·) := ⟨fun _ _ _ => le_trans⟩

instance antisymmNames : Std.Antisymm (α := String) (· ≤ ·) := ⟨fun _ _ => le_antisymm⟩

instance totalNames : Std.Total (α := String) (· ≤ ·) := ⟨le_total⟩

instance isTransPriorities : IsTrans ℤ (· ≥ ·) := ⟨fun _ _ _ => ge_trans⟩

instance antisymmPriorities : Std.Antisymm (α := ℤ) (· ≥ ·) := ⟨fun _ _ => ge_antisymm⟩

instance totalPriorities : Std.Total (α := ℤ) (· ≥ ·) := ⟨fun a b => le_total b a⟩

/-! ## Members with scores -/

/-- Members with their scores. -/
abbrev SortedSet (M : Type) := Finmap fun _ : M => ℚ

namespace SortedSet

variable {M : Type} [LinearOrder M]

/-- Score first, then member. -/
def Entry.le (a b : M × ℚ) : Prop := a.2 < b.2 ∨ a.2 = b.2 ∧ a.1 ≤ b.1

instance : DecidableRel (Entry.le (M := M)) := fun a b =>
  inferInstanceAs (Decidable (a.2 < b.2 ∨ a.2 = b.2 ∧ a.1 ≤ b.1))

instance : IsTrans (M × ℚ) Entry.le where
  trans := by
    rintro a b c (hab | ⟨hab, hab'⟩) (hbc | ⟨hbc, hbc'⟩)
    · exact Or.inl (hab.trans hbc)
    · exact Or.inl (hbc ▸ hab)
    · exact Or.inl (hab ▸ hbc)
    · exact Or.inr ⟨hab.trans hbc, hab'.trans hbc'⟩

instance : Std.Total (Entry.le (M := M)) where
  total := by
    intro a b
    rcases lt_trichotomy a.2 b.2 with h | h | h
    · exact Or.inl (Or.inl h)
    · rcases le_total a.1 b.1 with h' | h'
      · exact Or.inl (Or.inr ⟨h, h'⟩)
      · exact Or.inr (Or.inr ⟨h.symm, h'⟩)
    · exact Or.inr (Or.inl h)

instance : Std.Antisymm (Entry.le (M := M)) where
  antisymm := by
    rintro ⟨a, s⟩ ⟨b, t⟩ (hab | ⟨hab, hab'⟩) (hba | ⟨hba, hba'⟩)
    · exact absurd hab hba.asymm
    · exact absurd (hba ▸ hab) (lt_irrefl _)
    · exact absurd (hab ▸ hba) (lt_irrefl _)
    · exact Prod.ext (le_antisymm hab' hba') hab

/-- The members and their scores, lowest first. -/
def range (z : SortedSet M) : List (M × ℚ) :=
  sorted Entry.le (z.entries.map fun e => (e.1, e.2))

@[simp] theorem mem_range {z : SortedSet M} {m : M} {s : ℚ} :
    (m, s) ∈ z.range ↔ z.lookup m = some s := by
  rw [range, mem_sorted, Multiset.mem_map, Finmap.lookup_eq_some_iff]
  constructor
  · rintro ⟨⟨a, b⟩, h, heq⟩
    cases heq
    exact h
  · exact fun h => ⟨⟨m, s⟩, h, rfl⟩

/-- No member is read twice. -/
theorem nodup_range (z : SortedSet M) : (z.range.map Prod.fst).Nodup := by
  have h : ((z.range.map Prod.fst : List M) : Multiset M) = z.entries.keys := by
    rw [← Multiset.map_coe, range, coe_sorted, Multiset.map_map]
    rfl
  rw [← Multiset.coe_nodup, h]
  exact Multiset.nodup_keys.mpr z.nodupKeys

theorem pairwise_range (z : SortedSet M) : z.range.Pairwise Entry.le := sorted_pairwise _ _

/-- Without one member the others are read in the same order. -/
theorem range_erase (z : SortedSet M) (m : M) :
    SortedSet.range (z.erase m) = z.range.filter fun e => e.1 ≠ m := by
  have hnodup : ∀ y : SortedSet M, y.range.Nodup := fun y => (nodup_range y).of_map
  refine List.Perm.eq_of_pairwise' (pairwise_range _) ((pairwise_range z).filter _) ?_
  refine (List.perm_ext_iff_of_nodup (hnodup _) ((hnodup z).filter _)).mpr ?_
  rintro ⟨k, s⟩
  rw [mem_range, List.mem_filter, mem_range, decide_eq_true_eq]
  by_cases hk : k = m
  · subst hk
    simp
  · simp [Finmap.lookup_erase_ne hk, hk]

end SortedSet

end Infra

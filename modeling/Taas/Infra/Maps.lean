import Taas.Infra.Lists
import Taas.Infra.SortedSet

/-!
# Maps

Values by key: a dict, or the rows of a table by a unique key.

* `lookup_filter` — a list of pairs with distinct keys, as a dict.
* `items` — the keys with their values, in the order of the keys.
* `upsert` — a statement that writes a row depending on the one that is there; `upsertAll` — one
  statement for each element of a list.
* `lookup_upsertAll_of_mem` — with distinct keys every row is written once.
-/

namespace Infra

variable {K V α : Type}

/-! ## Pairs with distinct keys -/

section Pairs

variable [BEq K] [LawfulBEq K] {l : List (K × V)}

theorem lookup_iff_mem (h : (l.map Prod.fst).Nodup) {k : K} {v : V} :
    l.lookup k = some v ↔ (k, v) ∈ l := by
  refine ⟨fun hk => ?_, lookup_of_mem h⟩
  obtain ⟨l₁, l₂, rfl, -⟩ := List.lookup_eq_some_iff.mp hk
  simp

theorem lookup_filter (h : (l.map Prod.fst).Nodup) (p : K × V → Bool) (k : K) :
    (l.filter p).lookup k = (l.lookup k).filter fun v => p (k, v) := by
  ext v
  rw [lookup_iff_mem (h.sublist (List.filter_sublist.map _)), List.mem_filter,
    Option.filter_eq_some_iff, lookup_iff_mem h]

end Pairs

/-! ## In the order of the keys -/

section Items

/-- `sorted(m.items())` -/
def items (m : Finmap fun _ : String => V) : List (String × V) :=
  (sorted (· ≤ ·) m.keys.val).filterMap fun k => (m.lookup k).map fun v => (k, v)

variable {m : Finmap fun _ : String => V}

@[simp] theorem mem_items {k : String} {v : V} : (k, v) ∈ items m ↔ m.lookup k = some v := by
  rw [items, List.mem_filterMap]
  constructor
  · rintro ⟨k', -, h⟩
    obtain ⟨v', hv, heq⟩ := Option.map_eq_some_iff.mp h
    cases heq
    exact hv
  · intro h
    refine ⟨k, (mem_sorted _).mpr ?_, by rw [h]; rfl⟩
    exact Finmap.mem_keys.mpr (Finmap.lookup_isSome.mp (by rw [h]; rfl))

theorem map_fst_items : (items m).map Prod.fst = sorted (· ≤ ·) m.keys.val := by
  have hall : ∀ k ∈ sorted (· ≤ ·) m.keys.val,
      ((m.lookup k).map fun v => (k, v)).map Prod.fst = some k := by
    intro k hk
    have hmem : k ∈ m := Finmap.mem_keys.mp ((mem_sorted _).mp hk)
    obtain ⟨v, hv⟩ := Option.isSome_iff_exists.mp (Finmap.lookup_isSome.mpr hmem)
    rw [hv]
    rfl
  rw [items, List.map_filterMap, List.filterMap_congr hall, List.filterMap_some]

theorem nodup_items : ((items m).map Prod.fst).Nodup := by
  rw [map_fst_items]
  exact (nodup_sorted _).mpr m.keys.nodup

theorem lookup_items (k : String) : (items m).lookup k = m.lookup k := by
  ext v
  rw [lookup_iff_mem nodup_items, mem_items]

end Items

/-! ## Writing a row -/

section Upsert

variable [DecidableEq K]

/-- Write the row of key `k`: `write` tells what, given the row that is there, or to write
nothing. -/
def upsert (k : K) (write : Option V → Option V) (m : Finmap fun _ : K => V) :
    Finmap fun _ : K => V :=
  match write (m.lookup k) with
  | some v => m.insert k v
  | none => m

theorem lookup_upsert (k : K) (write : Option V → Option V) (m : Finmap fun _ : K => V) :
    (upsert k write m).lookup k = (write (m.lookup k)).or (m.lookup k) := by
  unfold upsert
  cases h : write (m.lookup k) with
  | some v => exact Finmap.lookup_insert m
  | none => rfl

theorem lookup_upsert_of_ne {k k' : K} (h : k' ≠ k) (write : Option V → Option V)
    (m : Finmap fun _ : K => V) : (upsert k write m).lookup k' = m.lookup k' := by
  unfold upsert
  split
  · exact Finmap.lookup_insert_of_ne m h
  · rfl

/-- One after the other. -/
def upsertAll (key : α → K) (write : α → Option V → Option V) (l : List α)
    (m : Finmap fun _ : K => V) : Finmap fun _ : K => V :=
  l.foldl (fun m a => upsert (key a) (write a) m) m

variable {f : α → K} {w : α → Option V → Option V} {l : List α}

theorem lookup_upsertAll_of_notMem {k : K} (h : k ∉ l.map f) (m : Finmap fun _ : K => V) :
    (upsertAll f w l m).lookup k = m.lookup k := by
  unfold upsertAll
  induction l generalizing m with
  | nil => rfl
  | cons a l ih =>
    rw [List.map_cons, List.mem_cons, not_or] at h
    rw [List.foldl_cons, ih h.2, lookup_upsert_of_ne h.1]

/-- With distinct keys a row is written by its own statement only. -/
theorem lookup_upsertAll_of_mem (hl : (l.map f).Nodup) {a : α} (ha : a ∈ l)
    (m : Finmap fun _ : K => V) :
    (upsertAll f w l m).lookup (f a) = (w a (m.lookup (f a))).or (m.lookup (f a)) := by
  induction l generalizing m with
  | nil => cases ha
  | cons b l ih =>
    rw [List.map_cons, List.nodup_cons] at hl
    have hstep : upsertAll f w (b :: l) m = upsertAll f w l (upsert (f b) (w b) m) := rfl
    rw [hstep]
    rcases List.mem_cons.mp ha with rfl | ha
    · rw [lookup_upsertAll_of_notMem hl.1, lookup_upsert]
    · have hne : f a ≠ f b := fun heq => hl.1 (heq ▸ List.mem_map_of_mem ha)
      rw [ih hl.2 ha, lookup_upsert_of_ne hne]

/-- No row is lost. -/
theorem isSome_lookup_upsertAll {m : Finmap fun _ : K => V} {k : K} (h : (m.lookup k).isSome) :
    ((upsertAll f w l m).lookup k).isSome := by
  unfold upsertAll
  induction l generalizing m with
  | nil => exact h
  | cons a l ih =>
    rw [List.foldl_cons]
    refine ih ?_
    by_cases hk : k = f a
    · subst hk
      rw [lookup_upsert, Option.isSome_or, h, Bool.or_true]
    · rwa [lookup_upsert_of_ne hk]

/-- Statements that find nothing to write. -/
theorem upsertAll_eq_self {m : Finmap fun _ : K => V}
    (h : ∀ a ∈ l, w a (m.lookup (f a)) = none) : upsertAll f w l m = m := by
  unfold upsertAll
  induction l with
  | nil => rfl
  | cons a l ih =>
    have hfirst : upsert (f a) (w a) m = m := by
      rw [upsert, h a List.mem_cons_self]
    rw [List.foldl_cons, hfirst]
    exact ih fun b hb => h b (List.mem_cons_of_mem _ hb)

end Upsert

end Infra

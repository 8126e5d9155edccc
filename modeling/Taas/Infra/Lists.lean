import Mathlib.Data.List.Nodup

/-!
# Lists of keys and values, loops that may fail, splitting and parts

* `lookup_of_mem` — every entry of an association list with distinct keys is found.
* `mapM_eq_some_iff` — the results of a loop that raises nothing.
* `not_mem_of_mem_splitOn` — what is split at a separator holds none.
* `filter_notMem_perm` — a list without the part of it that goes.
* `flatten_toChunks` — chunks make up the list.
-/

namespace Infra

variable {α β : Type}

theorem lookup_of_mem [BEq α] [LawfulBEq α] {l : List (α × β)} (h : (l.map Prod.fst).Nodup) {k : α}
    {v : β} (hm : (k, v) ∈ l) : l.lookup k = some v := by
  induction l with
  | nil => cases hm
  | cons entry l ih =>
    obtain ⟨k', v'⟩ := entry
    rw [List.map_cons, List.nodup_cons] at h
    rcases List.mem_cons.mp hm with he | hm
    · cases he
      simp
    · have hne : k ≠ k' := by
        intro he
        have hmem : k ∈ l.map Prod.fst := List.mem_map_of_mem (f := Prod.fst) hm
        exact h.1 (he ▸ hmem)
      rw [List.lookup_cons, beq_false_of_ne hne]
      exact ih h.2 hm

/-- The results of a loop that raises nothing. -/
theorem mapM_eq_some_iff {f : α → Option β} {l : List α} {results : List β} :
    l.mapM f = some results ↔ l.map f = results.map some := by
  induction l generalizing results with
  | nil => cases results <;> simp
  | cons x l ih =>
    simp only [List.mapM_cons, List.map_cons, Option.bind_eq_bind, Option.pure_def]
    constructor
    · intro h
      obtain ⟨y, hx, h⟩ := Option.bind_eq_some_iff.mp h
      obtain ⟨ys, hl, h⟩ := Option.bind_eq_some_iff.mp h
      obtain rfl := Option.some.inj h
      rw [hx, ih.mp hl, List.map_cons]
    · intro h
      match results, h with
      | y :: ys, h =>
        obtain ⟨hx, hl⟩ := List.cons_eq_cons.mp h
        rw [hx, ih.mpr hl]
        rfl

/-- A loop none of whose steps raises. -/
theorem exists_mapM {f : α → Option β} {l : List α} (h : ∀ x ∈ l, ∃ y, f x = some y) :
    ∃ results, l.mapM f = some results := by
  induction l with
  | nil => exact ⟨[], rfl⟩
  | cons x l ih =>
    obtain ⟨y, hy⟩ := h x List.mem_cons_self
    obtain ⟨ys, hys⟩ := ih fun z hz => h z (List.mem_cons_of_mem _ hz)
    exact ⟨y :: ys, by simp [List.mapM_cons, hy, hys]⟩

/-- What is split holds no separator. -/
theorem not_mem_of_mem_splitOn [BEq α] [LawfulBEq α] {sep : α} {l part : List α}
    (h : part ∈ l.splitOn sep) : sep ∉ part := by
  induction l generalizing part with
  | nil =>
    obtain rfl := List.mem_singleton.mp h
    exact List.not_mem_nil
  | cons x l ih =>
    rw [List.splitOn_cons_eq_if_modifyHead] at h
    split at h
    · rcases List.mem_cons.mp h with rfl | h
      · exact List.not_mem_nil
      · exact ih h
    · next hx =>
      obtain ⟨first, rest, hl⟩ := List.exists_cons_of_ne_nil (List.splitOn_ne_nil sep l)
      rw [hl, List.modifyHead_cons] at h
      rw [hl] at ih
      rcases List.mem_cons.mp h with rfl | h
      · intro hmem
        rcases List.mem_cons.mp hmem with rfl | hmem
        · exact hx (beq_self_eq_true _)
        · exact ih List.mem_cons_self hmem
      · exact ih (List.mem_cons_of_mem _ h)

/-- Keys stay distinct when some of the elements are left out. -/
theorem nodup_map_filterMap {γ : Type} {f : α → Option β} {key : β → γ} {key' : α → γ}
    (hf : ∀ a b, f a = some b → key b = key' a) {l : List α} (h : (l.map key').Nodup) :
    ((l.filterMap f).map key).Nodup := by
  rw [List.Nodup, List.pairwise_map, List.pairwise_filterMap]
  refine (List.pairwise_map.mp h).imp ?_
  intro a a' hne b hb b' hb'
  rw [hf a b hb, hf a' b' hb']
  exact hne

/-- Of a list with distinct keys, the elements that are not of the one part are the other part. -/
theorem filter_notMem_perm [BEq β] [LawfulBEq β] {f : α → β} {l gone kept : List α}
    (h : l.Perm (gone ++ kept)) (hkeys : (l.map f).Nodup) :
    (l.filter fun x => f x ∉ gone.map f).Perm kept := by
  have hkeys' : ((gone ++ kept).map f).Nodup := (h.map f).nodup_iff.mp hkeys
  rw [List.map_append, List.nodup_append] at hkeys'
  have hgone : gone.filter (fun x => f x ∉ gone.map f) = [] := by
    rw [List.filter_eq_nil_iff]
    intro x hx
    simpa using ⟨x, hx, rfl⟩
  have hkept : kept.filter (fun x => f x ∉ gone.map f) = kept := by
    rw [List.filter_eq_self]
    intro x hx
    exact decide_eq_true fun hmem => hkeys'.2.2 (f x) hmem (f x) (List.mem_map_of_mem hx) rfl
  have hfilter := h.filter fun x => f x ∉ gone.map f
  rwa [List.filter_append, hgone, hkept, List.nil_append] at hfilter

theorem flatten_toChunks_go (n : Nat) (l : List α) (chunk : Array α) (chunks : Array (List α)) :
    (List.toChunks.go n l chunk chunks).flatten =
      chunks.toList.flatten ++ chunk.toList ++ l := by
  induction l generalizing chunk chunks with
  | nil => simp [List.toChunks.go]
  | cons x l ih =>
    rw [List.toChunks.go]
    split
    · rw [ih]
      simp
    · rw [ih]
      simp

/-- The chunks make up the list. -/
theorem flatten_toChunks (n : Nat) (l : List α) : (l.toChunks n).flatten = l := by
  unfold List.toChunks
  split
  · rfl
  · simp
  · rw [flatten_toChunks_go]
    simp

end Infra

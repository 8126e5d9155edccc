import Mathlib.Data.Finset.Card
import Mathlib.Data.Prod.Lex

/-!
# Sweeps under a cap

A query with a `LIMIT` answers with the first rows of some order that its `ORDER BY` allows, and
whoever asked looks through the answer for what it is after.

* `Returned` — the answers that the database may give.
* `hits_iff`, `room_iff` — when each of them holds a row that is wanted.
* `Sweep` — what waits for a sweep, what the sweep would take, and what it may leave.
* `Sweep.ProgressesWhen` — it deals with something exactly under a condition, and sweeps under it
  deal with everything.
-/

namespace Infra

/-! ## A query with a `LIMIT` -/

section

variable {α β : Type} [LinearOrder β] {key : α → β} {cap : ℕ} {rows result : List α}
  {p : α → Bool}

/-- `result` is an answer to `SELECT … ORDER BY key LIMIT cap` over the matching `rows`. With a
constant `key` the rows come in any order. -/
def Returned (key : α → β) (cap : ℕ) (rows result : List α) : Prop :=
  ∃ order : List α, order.Perm rows ∧ order.Pairwise (fun x y => key x ≤ key y) ∧
    result = order.take cap

theorem Returned.subset (h : Returned key cap rows result) : result ⊆ rows := by
  obtain ⟨order, hperm, -, rfl⟩ := h
  exact fun x hx => hperm.mem_iff.mp (List.mem_of_mem_take hx)

/-- Up to the limit the answer is all of the rows. -/
theorem Returned.whole (h : Returned key cap rows result) (hcap : rows.length ≤ cap) :
    result.Perm rows ∧ result.Pairwise fun x y => key x ≤ key y := by
  obtain ⟨order, hperm, hsorted, rfl⟩ := h
  rw [List.take_of_length_le (hperm.length_eq ▸ hcap)]
  exact ⟨hperm, hsorted⟩

/-- The rows that are not wanted and may come before `x`. -/
def ahead (key : α → β) (p : α → Bool) (x : α) (y : α) : Bool := !p y && decide (key y ≤ key x)

/-- The order in which the rows that are not wanted come first, as far as `key` allows. -/
theorem exists_worst (key : α → β) (p : α → Bool) (rows : List α) :
    ∃ order : List α, order.Perm rows ∧
      order.Pairwise fun x y => key x ≤ key y ∧ (key y ≤ key x → p x = true → p y = true) := by
  let le : α → α → Bool := fun x y => toLex (key x, p x) ≤ toLex (key y, p y)
  refine ⟨rows.mergeSort le, List.mergeSort_perm rows le, ?_⟩
  have hsorted : (rows.mergeSort le).Pairwise fun x y => le x y = true := by
    refine List.pairwise_mergeSort ?_ ?_ rows
    · intro x y z hxy hyz
      exact decide_eq_true (le_trans (of_decide_eq_true hxy) (of_decide_eq_true hyz))
    · intro x y
      rcases le_total (toLex (key x, p x)) (toLex (key y, p y)) with h | h
      · simp [le, h]
      · simp [le, h]
  refine hsorted.imp fun {x y} h => ?_
  rcases Prod.Lex.toLex_le_toLex.mp (of_decide_eq_true h) with hlt | ⟨heq, hle⟩
  · exact ⟨hlt.le, fun hyx => absurd hyx (not_le.mpr hlt)⟩
  · exact ⟨heq.le, fun _ hx => hle hx⟩

/-- A wanted row that few enough rows may come before is always seen, or another one is. -/
theorem Returned.hits (h : Returned key cap rows result) {x : α} (hx : x ∈ rows)
    (hp : p x = true) (hcap : (rows.filter (ahead key p x)).length < cap) :
    ∃ y ∈ result, p y = true := by
  obtain ⟨order, hperm, hsorted, rfl⟩ := h
  by_contra hnone
  have hnot : ∀ y ∈ order.take cap, p y = false := fun y hy =>
    Bool.eq_false_iff.mpr fun hpy => hnone ⟨y, hy, hpy⟩
  rw [← List.take_append_drop cap order] at hsorted
  have hdrop : x ∈ order.drop cap := by
    have hmem : x ∈ order.take cap ++ order.drop cap := by
      rw [List.take_append_drop]
      exact hperm.mem_iff.mpr hx
    rcases List.mem_append.mp hmem with htake | hdrop
    · rw [hnot x htake] at hp
      cases hp
    · exact hdrop
  -- so the whole answer may come before `x`
  have hall : (order.take cap).filter (ahead key p x) = order.take cap := by
    refine List.filter_eq_self.mpr fun y hy => ?_
    have hle := (List.pairwise_append.mp hsorted).2.2 y hy x hdrop
    simp [ahead, hnot y hy, hle]
  have hlong : (order.take cap).length = cap := by
    have := List.length_pos_of_mem hdrop
    simp only [List.length_drop] at this
    simp only [List.length_take]
    omega
  have hle : (order.take cap).length ≤ (rows.filter (ahead key p x)).length := by
    rw [← (hperm.filter _).length_eq, ← hall]
    exact ((List.take_sublist cap order).filter _).length_le
  omega

/-- **Every answer holds a wanted row exactly when, before some wanted row, there is not room for
`cap` rows that are not.** -/
theorem hits_iff : (∀ result, Returned key cap rows result → ∃ y ∈ result, p y = true) ↔
    ∃ x ∈ rows, p x = true ∧ (rows.filter (ahead key p x)).length < cap := by
  constructor
  · intro h
    obtain ⟨order, hperm, hsorted⟩ := exists_worst key p rows
    obtain ⟨x, hx, hp⟩ := h _ ⟨order, hperm, hsorted.imp And.left, rfl⟩
    refine ⟨x, hperm.mem_iff.mp (List.mem_of_mem_take hx), hp, ?_⟩
    obtain ⟨before, after, hsplit⟩ := List.append_of_mem hx
    have horder : order = before ++ (x :: after ++ order.drop cap) := by
      rw [← List.append_assoc, ← hsplit, List.take_append_drop]
    -- whatever comes after `x` in this order is wanted or has a larger key
    have hafter : (x :: after ++ order.drop cap).filter (ahead key p x) = [] := by
      rw [horder] at hsorted
      have htail := (List.pairwise_append.mp hsorted).2.1
      rw [List.cons_append] at htail ⊢
      refine List.filter_eq_nil_iff.mpr fun y hy hahead => ?_
      simp only [ahead, Bool.and_eq_true, Bool.not_eq_true', decide_eq_true_eq] at hahead
      rcases List.mem_cons.mp hy with rfl | hy
      · rw [hp] at hahead
        cases hahead.1
      · rw [(List.rel_of_pairwise_cons htail hy).2 hahead.2 hp] at hahead
        cases hahead.1
    have hcount : (rows.filter (ahead key p x)).length ≤ before.length := by
      rw [← (hperm.filter _).length_eq, horder, List.filter_append, hafter, List.append_nil]
      exact List.length_filter_le ..
    have hlen := congrArg List.length hsplit
    simp only [List.length_take, List.length_append, List.length_cons] at hlen
    omega
  · rintro ⟨x, hx, hp, hcap⟩ result hresult
    exact hresult.hits hx hp hcap

/-- Without an order, any row that is not wanted may come first. -/
theorem room_iff (hwanted : ∃ x ∈ rows, p x = true) :
    (∃ x ∈ rows, p x = true ∧ (rows.filter (ahead (fun _ => ()) p x)).length < cap) ↔
      (rows.filter fun y => !p y).length < cap := by
  have hahead : ∀ x, rows.filter (ahead (fun _ => ()) p x) = rows.filter fun y => !p y :=
    fun x => List.filter_congr fun y _ => by simp [ahead]
  simp only [hahead]
  obtain ⟨x, hx, hp⟩ := hwanted
  constructor
  · rintro ⟨-, -, -, hcap⟩
    exact hcap
  · exact fun hcap => ⟨x, hx, hp, hcap⟩

end

/-! ## Sweeps -/

/-- What a sweep is there for and what it does, over states `σ` and keys `κ`. -/
structure Sweep (σ κ : Type) where
  /-- What should be dealt with. -/
  backlog : σ → Finset κ
  /-- What the sweep deals with once it sees it. -/
  eligible : σ → Finset κ
  /-- The states that a sweep may leave. -/
  next : σ → σ → Prop
  /-- What is dealt with between two states. -/
  handled : σ → σ → κ → Prop
  backlog_subset : ∀ s, backlog s ⊆ eligible s
  backlog_next : ∀ {s s'}, next s s' → backlog s' ⊆ backlog s
  eligible_next : ∀ {s s'}, next s s' → eligible s' ⊆ eligible s
  leaves : ∀ {s s' k}, next s s' → handled s s' k → k ∈ eligible s ∧ k ∉ eligible s'

namespace Sweep

variable {σ κ : Type} (w : Sweep σ κ)

/-- Whatever a sweep from `s` does, it deals with something if anything should be dealt with. -/
def Progress (s : σ) : Prop := (w.backlog s).Nonempty → ∀ s', w.next s s' → ∃ k, w.handled s s' k

/-- A sweep is bound to make progress from the states of `cond` and no others, and sweeps that all
start in such a state leave no backlog in the end. -/
structure ProgressesWhen (cond : σ → Prop) : Prop where
  exactly : ∀ s, w.Progress s ↔ cond s
  clears : ∀ run : ℕ → σ, (∀ n, w.next (run n) (run (n + 1))) → (∀ n, cond (run n)) →
    ∀ n, (w.eligible (run 0)).card ≤ n → w.backlog (run n) = ∅

variable {w}

/-- A sweep that deals with something if and only if the answer it gets holds a wanted row. -/
theorem progress_iff {α β : Type} [LinearOrder β] {s : σ} {key : α → β} {cap : ℕ} {rows : List α}
    {p : α → Bool} {after : List α → σ}
    (hnext : ∀ s', w.next s s' ↔ ∃ result, Returned key cap rows result ∧ s' = after result)
    (hsees : ∀ result, Returned key cap rows result →
      ((∃ k, w.handled s (after result) k) ↔ ∃ x ∈ result, p x = true)) :
    w.Progress s ↔ ((w.backlog s).Nonempty →
      ∃ x ∈ rows, p x = true ∧ (rows.filter (ahead key p x)).length < cap) := by
  refine imp_congr_right fun _ => ?_
  rw [← hits_iff]
  constructor
  · intro h result hresult
    exact (hsees result hresult).mp (h _ ((hnext _).mpr ⟨result, hresult, rfl⟩))
  · intro h s' hs'
    obtain ⟨result, hresult, rfl⟩ := (hnext s').mp hs'
    exact (hsees result hresult).mpr (h result hresult)

variable {run : ℕ → σ}

/-- As long as there is a backlog, each sweep leaves less that is eligible. -/
theorem card_eligible_add (hrun : ∀ n, w.next (run n) (run (n + 1)))
    (hprogress : ∀ n, w.Progress (run n)) (n : ℕ) :
    w.backlog (run n) = ∅ ∨ (w.eligible (run n)).card + n ≤ (w.eligible (run 0)).card := by
  induction n with
  | zero => exact Or.inr (Nat.le_refl _)
  | succ n ih =>
    rcases (w.backlog (run n)).eq_empty_or_nonempty with hempty | hsome
    · refine Or.inl (Finset.subset_empty.mp ?_)
      rw [← hempty]
      exact w.backlog_next (hrun n)
    · obtain ⟨k, hk⟩ := hprogress n hsome _ (hrun n)
      obtain ⟨hmem, hleft⟩ := w.leaves (hrun n) hk
      have hlt : (w.eligible (run (n + 1))).card < (w.eligible (run n)).card :=
        Finset.card_lt_card ⟨w.eligible_next (hrun n), fun hsub => hleft (hsub hmem)⟩
      rcases ih with hempty | hcard
      · rw [hempty] at hsome
        exact absurd hsome Finset.not_nonempty_empty
      · exact Or.inr (by omega)

/-- What makes each sweep progress makes sweeps clear the backlog. -/
theorem progressesWhen {cond : σ → Prop} (h : ∀ s, w.Progress s ↔ cond s) :
    w.ProgressesWhen cond where
  exactly := h
  clears run hrun hcond n hn := by
    rcases card_eligible_add hrun (fun n => (h _).mpr (hcond n)) n with hempty | hcard
    · exact hempty
    · have hnone : w.eligible (run n) = ∅ := Finset.card_eq_zero.mp (by omega)
      exact Finset.subset_empty.mp (hnone ▸ w.backlog_subset (run n))

end Sweep

end Infra

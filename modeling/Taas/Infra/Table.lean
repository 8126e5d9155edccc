import Mathlib.Data.Finset.Basic
import Mathlib.Data.List.Induction
import Mathlib.Logic.Function.Basic

/-!
# Tables under READ COMMITTED

A table keeps the committed version of every row, and for each row that a transaction has
locked that transaction's own version. A statement sees what was committed before it and what
its own transaction wrote (`Table.sees`), and waits for a row that another one holds
(`Table.free`).

* `Table.write`, `Table.commit`, `Table.rollback` — the effects.
* `Table.commit_writeAll` — several rows of a table at rest, written and committed.
* `Table.Foreign` — what the statements of the others leave to a transaction: its rows.
-/

namespace Infra

/-- Rows of type `ρ` under keys `κ`, and the transactions `ι` that use them. -/
structure Table (κ ρ ι : Type) where
  /-- The keys that have a row. -/
  rows : Finset κ
  committed : κ → ρ
  /-- Who holds the row, with its version. -/
  draft : κ → Option (ι × ρ) := fun _ => none

namespace Table

variable {κ ρ ι : Type}

section

variable [DecidableEq ι]

/-- The row as transaction `i` sees it. -/
def sees (i : ι) (t : Table κ ρ ι) (k : κ) : ρ :=
  match t.draft k with
  | none => t.committed k
  | some (j, row) => if j = i then row else t.committed k

/-- Transaction `i` need not wait for the row. -/
def free (i : ι) (k : κ) (t : Table κ ρ ι) : Bool := (t.draft k).all fun d => d.1 = i

/-- The versions of the other transactions. -/
def others (i : ι) (t : Table κ ρ ι) (k : κ) : Option (ι × ρ) :=
  (t.draft k).filter fun d => d.1 ≠ i

def commit (i : ι) (t : Table κ ρ ι) : Table κ ρ ι :=
  { t with committed := t.sees i, draft := t.others i }

def rollback (i : ι) (t : Table κ ρ ι) : Table κ ρ ι := { t with draft := t.others i }

end

/-- Transaction `i` locks the row, with this version. -/
def write [DecidableEq κ] (i : ι) (k : κ) (row : ρ) (t : Table κ ρ ι) : Table κ ρ ι :=
  { t with draft := Function.update t.draft k (some (i, row)) }

/-- `SELECT … FOR UPDATE` -/
def lock [DecidableEq κ] [DecidableEq ι] (i : ι) (k : κ) (t : Table κ ρ ι) : Table κ ρ ι :=
  t.write i k (t.sees i k)

/-- A new row, committed. -/
def add [DecidableEq κ] (k : κ) (row : ρ) (t : Table κ ρ ι) : Table κ ρ ι :=
  { t with rows := insert k t.rows, committed := Function.update t.committed k row }

/-- The table when nobody holds a row any more. -/
def atRest (t : Table κ ρ ι) : Table κ ρ ι := { t with draft := fun _ => none }

/-- Transaction `i` holds no row. -/
def Idle (i : ι) (t : Table κ ρ ι) : Prop := ∀ k row, t.draft k ≠ some (i, row)

/-- The rows of transaction `i` are as they were: its versions, and the committed ones. -/
structure Foreign (i : ι) (t t' : Table κ ρ ι) : Prop where
  draft : ∀ k row, t'.draft k = some (i, row) ↔ t.draft k = some (i, row)
  committed : ∀ k row, t.draft k = some (i, row) → t'.committed k = t.committed k

variable {t t' : Table κ ρ ι} {i j : ι} {k k' : κ} {row : ρ}

theorem Foreign.refl (i : ι) (t : Table κ ρ ι) : t.Foreign i t :=
  ⟨fun _ _ => Iff.rfl, fun _ _ _ => rfl⟩

/-- A transaction without rows is given none by others. -/
theorem Foreign.idle (h : t.Foreign i t') (hi : t.Idle i) : t'.Idle i :=
  fun k row hd => hi k row ((h.draft k row).mp hd)

/-! ## What a transaction sees -/

section

variable [DecidableEq ι]

/-- A transaction sees its own version. -/
theorem sees_of_draft (h : t.draft k = some (i, row)) : t.sees i k = row := by
  simp [sees, h]

/-- Of any other row it sees the committed one. -/
theorem sees_of_not_draft (h : ∀ row, t.draft k ≠ some (i, row)) :
    t.sees i k = t.committed k := by
  unfold sees
  split
  · rfl
  · next j row hd =>
    rw [if_neg]
    rintro rfl
    exact h row hd

/-- A transaction that has written nothing sees what is committed. -/
theorem sees_of_idle (h : t.Idle i) : t.sees i = t.committed :=
  funext fun k => sees_of_not_draft (h k)

theorem sees_of_rest (h : t.draft = fun _ => none) : t.sees i = t.committed :=
  sees_of_idle fun k row hk => by
    rw [h] at hk
    cases hk

@[simp] theorem sees_atRest : t.atRest.sees i = t.committed := rfl

/-- A row that somebody else holds is seen as it was committed. -/
theorem sees_of_other (h : t.draft k = some (j, row)) (hji : j ≠ i) :
    t.sees i k = t.committed k :=
  sees_of_not_draft fun _ h' => hji (Prod.mk.inj (Option.some.inj (h.symm.trans h'))).1

/-- A row is free for the one who holds it. -/
theorem free_iff : t.free i k = true ↔ ∀ j row, t.draft k = some (j, row) → j = i := by
  unfold free
  cases t.draft k with
  | none => simp
  | some d =>
    simp only [Option.all_some, decide_eq_true_eq, Option.some.injEq]
    exact ⟨fun h j row hd => by rw [hd] at h; exact h, fun h => h d.1 d.2 rfl⟩

@[simp] theorem rows_commit : (t.commit i).rows = t.rows := rfl

@[simp] theorem rows_rollback : (t.rollback i).rows = t.rows := rfl

@[simp] theorem committed_commit : (t.commit i).committed = t.sees i := rfl

@[simp] theorem committed_rollback : (t.rollback i).committed = t.committed := rfl

/-- A commit drops the versions of its transaction and keeps the others. -/
theorem draft_commit : (t.commit i).draft k = some (j, row) ↔
    t.draft k = some (j, row) ∧ j ≠ i := by
  simp only [commit, others, Option.filter_eq_some_iff, decide_eq_true_eq]

theorem draft_rollback : (t.rollback i).draft k = some (j, row) ↔
    t.draft k = some (j, row) ∧ j ≠ i := draft_commit

/-- After a commit its transaction holds nothing. -/
theorem idle_commit : (t.commit i).Idle i := fun _ _ h => (draft_commit.mp h).2 rfl

theorem idle_rollback : (t.rollback i).Idle i := fun _ _ h => (draft_rollback.mp h).2 rfl

/-- The commit of another transaction leaves the rows that one holds. -/
theorem foreign_commit (hji : j ≠ i) : t.Foreign i (t.commit j) where
  draft k row := by rw [draft_commit, and_iff_left (Ne.symm hji)]
  committed k row h := sees_of_other h (Ne.symm hji)

/-- So does its rollback. -/
theorem foreign_rollback (hji : j ≠ i) : t.Foreign i (t.rollback j) where
  draft k row := by rw [draft_rollback, and_iff_left (Ne.symm hji)]
  committed _ _ _ := rfl

end

/-! ## Writes -/

section

variable [DecidableEq κ]

@[simp] theorem committed_write : (t.write i k row).committed = t.committed := rfl

@[simp] theorem rows_write : (t.write i k row).rows = t.rows := rfl

@[simp] theorem draft_write_self : (t.write i k row).draft k = some (i, row) :=
  Function.update_self ..

theorem draft_write_of_ne (h : k' ≠ k) : (t.write i k row).draft k' = t.draft k' :=
  Function.update_of_ne h ..

variable [DecidableEq ι]

@[simp] theorem sees_write_self : (t.write i k row).sees i k = row :=
  sees_of_draft draft_write_self

/-- A write is seen on its own row only. -/
theorem sees_write_of_ne (h : k' ≠ k) : (t.write i k row).sees i k' = t.sees i k' := by
  simp only [sees, draft_write_of_ne h, committed_write]

/-- Who waits for a row before writing takes none from the others. -/
theorem foreign_write (hji : j ≠ i) (hf : t.free j k = true) :
    t.Foreign i (t.write j k row) where
  draft k' row' := by
    by_cases hk : k' = k
    · subst hk
      rw [draft_write_self]
      constructor
      · intro h
        exact absurd (Prod.mk.inj (Option.some.inj h)).1 hji
      · intro h
        exact absurd (free_iff.mp hf i row' h).symm hji
    · rw [draft_write_of_ne hk]
  committed _ _ _ := rfl

/-! ### Several rows at rest -/

/-- One row after the other is written anew. -/
def writeAll (i : ι) (change : ρ → ρ) (keys : List κ) (t : Table κ ρ ι) : Table κ ρ ι :=
  keys.foldl (fun t k => t.write i k (change (t.sees i k))) t

variable {change : ρ → ρ} {keys : List κ}

@[simp] theorem writeAll_append_singleton :
    t.writeAll i change (keys ++ [k]) =
      (t.writeAll i change keys).write i k (change ((t.writeAll i change keys).sees i k)) :=
  List.foldl_append

theorem rows_writeAll : (t.writeAll i change keys).rows = t.rows := by
  induction keys using List.reverseRecOn with
  | nil => rfl
  | append_singleton keys k ih => rw [writeAll_append_singleton, rows_write, ih]

/-- Nothing is committed by writing. -/
theorem committed_writeAll : (t.writeAll i change keys).committed = t.committed := by
  induction keys using List.reverseRecOn with
  | nil => rfl
  | append_singleton keys k ih => rw [writeAll_append_singleton, committed_write, ih]

/-- A change that leaves what it changed alone is made once, however often it is written. -/
theorem draft_writeAll (hrest : t.draft = fun _ => none)
    (hchange : ∀ row, change (change row) = change row) (k : κ) :
    (t.writeAll i change keys).draft k =
      if k ∈ keys then some (i, change (t.committed k)) else none := by
  induction keys using List.reverseRecOn generalizing k with
  | nil => exact congrFun hrest k
  | append_singleton keys k' ih =>
    rw [writeAll_append_singleton]
    by_cases hk : k = k'
    · subst hk
      rw [draft_write_self, if_pos (List.mem_append_right keys List.mem_cons_self)]
      by_cases hmem : k ∈ keys
      · have hdraft := ih k
        rw [if_pos hmem] at hdraft
        rw [sees_of_draft hdraft, hchange]
      · have hdraft := ih k
        rw [if_neg hmem] at hdraft
        rw [sees_of_not_draft fun row h => by simp [hdraft] at h, committed_writeAll]
    · rw [draft_write_of_ne hk, ih]
      simp [hk]

/-- **What the writes leave once they are committed.** -/
theorem commit_writeAll (hrest : t.draft = fun _ => none)
    (hchange : ∀ row, change (change row) = change row) :
    (t.writeAll i change keys).commit i =
      { t with
        committed := fun k => if k ∈ keys then change (t.committed k) else t.committed k } := by
  have hsees : (t.writeAll i change keys).sees i =
      fun k => if k ∈ keys then change (t.committed k) else t.committed k := by
    funext k
    have hdraft : (t.writeAll i change keys).draft k =
        if k ∈ keys then some (i, change (t.committed k)) else none :=
      draft_writeAll hrest hchange k
    split
    · next hk =>
      rw [if_pos hk] at hdraft
      exact sees_of_draft hdraft
    · next hk =>
      rw [if_neg hk] at hdraft
      rw [sees_of_not_draft fun row h => by simp [hdraft] at h, committed_writeAll]
  have hothers : (t.writeAll i change keys).others i = t.draft := by
    funext k
    rw [others, draft_writeAll hrest hchange, hrest]
    split
    · simp
    · rfl
  rw [commit, hsees, hothers, rows_writeAll]

/-- A commit of nothing. -/
theorem commit_of_rest (hrest : t.draft = fun _ => none) : t.commit i = t := by
  have h : (t.writeAll i id []).commit i = _ := commit_writeAll hrest fun _ => rfl
  simpa [writeAll] using h

end

end Table

end Infra

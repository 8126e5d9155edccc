import Taas.Infra.Pool
import Taas.Workers.Rows

/-!
# A batch finishes with its last page

Any number of transactions each take one page to a terminal status, call `finish_if_done` and
commit, statement by statement, while the cleanup worker's `finish_stalled` runs as often as it
likes. `pages` says which batch each job belongs to.

* `BatchOk` — what holds of a batch in every reachable state: when it is finished, none of its
  pages is active, and who is about to finish it sees no active page.
* `Allows` — what a transaction leaves to the others. Above all, the pages of a batch only
  change when the transaction that changes them holds the batch.
* `batch_finishes_with_last_page` — the batch is finished only when no page is active, and once
  a transaction has ended, as soon as no page is active.
-/

namespace Taas

open Infra Infra.Prog

namespace Postgres

variable {ι : Type}

/-- A committed page of the batch is queued, running or storing. -/
def ActivePage (batchId : BatchId) (db : Postgres ι) : Prop :=
  ∃ k ∈ db.jobs.rows, (db.jobs.committed k).batchId = some batchId ∧
    (db.jobs.committed k).status.isActive = true

/-- The batch is committed as finished. -/
def IsFinished (batchId : BatchId) (db : Postgres ι) : Prop :=
  (db.batches.committed batchId).status = .finished

/-- The batch is finished, or some page of it will finish it. -/
def Settled (batchId : BatchId) (db : Postgres ι) : Prop :=
  db.IsFinished batchId ∨ db.ActivePage batchId

/-- Transaction `i` holds the batch. -/
def Holds (i : ι) (batchId : BatchId) (db : Postgres ι) : Prop :=
  ∃ row, db.batches.draft batchId = some (i, row)

end Postgres

/-- A transaction that ends a page, and the batch that it may finish. `pages` says which batch a
job belongs to. -/
inductive Finisher {ι : Type} [DecidableEq ι] (pages : JobId → Option BatchId) (i : ι) :
    Option BatchId → DbProg ι Unit → Prop
  | finishPage (now : ℚ) (writer : Writer) (jobId : JobId) (cond : JobRow → Bool)
      {values : JobRow → JobRow} (hstatus : ∀ row, (values row).status.isActive = false)
      (hbatch : ∀ row, (values row).batchId = row.batchId) :
      Finisher pages i (pages jobId)
        (Taas.finishPage i now writer jobId cond values (pages jobId) >>= fun _ => pure ())
  | recordFailed (now : ℚ) (jobId : JobId) (error : String) (attempt : Option Attempt)
      (stamps : EngineStamps) :
      Finisher pages i (pages jobId)
        (Taas.recordFailed i now jobId error attempt stamps (pages jobId) >>= fun _ => pure ())
  | finishStalled (now : ℚ) (batchIds : List BatchId) :
      Finisher pages i none (Taas.finishStalled i now batchIds)

section

variable {ι : Type} [DecidableEq ι] {pages : JobId → Option BatchId} {b : BatchId}
  {db db' : Postgres ι} {i j : ι}

/-! ## The invariant -/

structure BatchOk (pages : JobId → Option BatchId) (b : BatchId) (db : Postgres ι) : Prop where
  exists' : b ∈ db.batches.rows
  batchId : ∀ k, (db.jobs.committed k).batchId = pages k
  /-- Whoever writes a page ends it, and leaves it in its batch. -/
  drafts : ∀ k i row, db.jobs.draft k = some (i, row) →
    row.status.isActive = false ∧ row.batchId = pages k
  safe : db.IsFinished b → ¬db.ActivePage b
  /-- The batch is queued or finished, also for who holds it. -/
  started : (db.batches.committed b).status ≠ .opened ∧
    ∀ i row, db.batches.draft b = some (i, row) → row.status ≠ .opened
  /-- Who is about to finish the batch sees no active page. -/
  closing : ∀ i row, db.batches.draft b = some (i, row) → row.status = .finished →
    ∀ k ∈ db.jobs.rows, pages k = some b → (db.jobs.sees i k).status.isActive = false

/-- What transaction `i` does to the store, as far as the others care. -/
structure Allows (pages : JobId → Option BatchId) (b : BatchId) (i : ι) (db db' : Postgres ι) :
    Prop where
  rows : db'.jobs.rows = db.jobs.rows
  jobs : ∀ j, j ≠ i → db.jobs.Foreign j db'.jobs
  batches : ∀ j, j ≠ i → db.batches.Foreign j db'.batches
  /-- Only who holds the batch changes its pages. -/
  locked : ¬db.Holds i b → ∀ k, pages k = some b → db'.jobs.committed k = db.jobs.committed k
  /-- No page becomes active again. -/
  active : ∀ k, (db'.jobs.committed k).status.isActive = true →
    (db.jobs.committed k).status.isActive = true
  settled : db.Settled b → db'.Settled b

omit [DecidableEq ι] in
theorem Allows.refl (i : ι) (db : Postgres ι) : Allows pages b i db db :=
  ⟨rfl, fun j _ => .refl j _, fun j _ => .refl j _, fun _ _ _ => rfl, fun _ => id, id⟩

/-- A transaction sees a page as terminal that it ended, or that is committed so. -/
theorem BatchOk.active_of_sees (h : BatchOk pages b db) {k : JobId}
    (ha : (db.jobs.sees i k).status.isActive = true) :
    (∀ row, db.jobs.draft k ≠ some (i, row)) ∧ (db.jobs.committed k).status.isActive = true := by
  have hnone : ∀ row, db.jobs.draft k ≠ some (i, row) := by
    intro row hd
    rw [Table.sees_of_draft hd, (h.drafts k i row hd).1] at ha
    cases ha
  rw [Table.sees_of_not_draft hnone] at ha
  exact ⟨hnone, ha⟩

theorem BatchOk.batchId_sees (h : BatchOk pages b db) (i : ι) (k : JobId) :
    (db.jobs.sees i k).batchId = pages k := by
  by_cases hd : ∃ row, db.jobs.draft k = some (i, row)
  · obtain ⟨row, hd⟩ := hd
    rw [Table.sees_of_draft hd]
    exact (h.drafts k i row hd).2
  · rw [Table.sees_of_not_draft (not_exists.mp hd)]
    exact h.batchId k

/-- Who is about to finish the batch is not disturbed. -/
theorem BatchOk.closing_of_allows (h : BatchOk pages b db) (ha : Allows pages b i db db')
    (hji : j ≠ i) {row : BatchRow} (hd : db.batches.draft b = some (j, row))
    (hf : row.status = .finished) {k : JobId} (hk : k ∈ db'.jobs.rows) (hb : pages k = some b)
    (hbatch : ∀ row, db'.jobs.draft k = some (j, row) → row.status.isActive = false) :
    (db'.jobs.sees j k).status.isActive = false := by
  rw [Bool.eq_false_iff]
  intro hactive
  have hold := h.closing j row hd hf k (ha.rows ▸ hk) hb
  by_cases hdraft : ∃ page, db'.jobs.draft k = some (j, page)
  · obtain ⟨page, hdraft⟩ := hdraft
    rw [Table.sees_of_draft hdraft, hbatch page hdraft] at hactive
    cases hactive
  · rw [Table.sees_of_not_draft (not_exists.mp hdraft)] at hactive
    have hnone : ∀ page, db.jobs.draft k ≠ some (j, page) := by
      intro page hpage
      exact hdraft ⟨page, ((ha.jobs j hji).draft k page).mpr hpage⟩
    rw [Table.sees_of_not_draft hnone, ha.active k hactive] at hold
    cases hold

/-! ## Writing a page -/

/-- `i` holds no row at all. -/
def Postgres.Idle (i : ι) (db : Postgres ι) : Prop := db.jobs.Idle i ∧ db.batches.Idle i

/-- `i` may have written pages of one batch. -/
def Postgres.Written (i : ι) (pages : JobId → Option BatchId) (batchId : Option BatchId)
    (db : Postgres ι) : Prop :=
  db.batches.Idle i ∧ ∀ k row, db.jobs.draft k = some (i, row) → pages k = batchId

theorem allows_writeJob {jobId : JobId} {values : JobRow → JobRow}
    (hf : db.jobs.free i jobId = true) : Allows pages b i db (db.writeJob i jobId values) where
  rows := rfl
  jobs _ hj := Table.foreign_write (Ne.symm hj) hf
  batches j _ := .refl j _
  locked _ _ _ := rfl
  active _ := id
  settled := id

theorem BatchOk.writeJob (h : BatchOk pages b db) {jobId : JobId} {values : JobRow → JobRow}
    (hidle : db.Idle i) (hf : db.jobs.free i jobId = true)
    (hstatus : ∀ row, (values row).status.isActive = false)
    (hbatch : ∀ row, (values row).batchId = row.batchId) :
    BatchOk pages b (db.writeJob i jobId values) := by
  have hdrafts : ∀ k j row, (db.writeJob i jobId values).jobs.draft k = some (j, row) →
      row.status.isActive = false ∧ row.batchId = pages k := by
    intro k j row hd
    by_cases hk : k = jobId
    · subst hk
      rw [Postgres.writeJob, Table.draft_write_self] at hd
      rw [← (Prod.mk.inj (Option.some.inj hd)).2, hbatch]
      exact ⟨hstatus _, h.batchId_sees i k⟩
    · rw [Postgres.writeJob, Table.draft_write_of_ne hk] at hd
      exact h.drafts k j row hd
  refine ⟨h.exists', h.batchId, hdrafts, h.safe, h.started, fun j row hd hfin k hk hb => ?_⟩
  have hji : j ≠ i := by
    rintro rfl
    exact hidle.2 b row hd
  exact h.closing_of_allows (allows_writeJob hf) hji hd hfin hk hb
    fun page hpage => (hdrafts k j page hpage).1

theorem written_writeJob {jobId : JobId} {values : JobRow → JobRow} (hidle : db.Idle i) :
    (db.writeJob i jobId values).Written i pages (pages jobId) := by
  refine ⟨hidle.2, fun k row hd => ?_⟩
  by_cases hk : k = jobId
  · rw [hk]
  · rw [Postgres.writeJob, Table.draft_write_of_ne hk] at hd
    exact absurd hd (hidle.1 k row)

/-! ## Writing a batch -/

def Postgres.writeBatch (i : ι) (batchId : BatchId) (row : BatchRow) (db : Postgres ι) :
    Postgres ι :=
  { db with batches := db.batches.write i batchId row }

variable {batchId : BatchId} {row : BatchRow}

theorem allows_writeBatch (hf : db.batches.free i batchId = true) :
    Allows pages b i db (db.writeBatch i batchId row) where
  rows := rfl
  jobs j _ := .refl j _
  batches _ hj := Table.foreign_write (Ne.symm hj) hf
  locked _ _ _ := rfl
  active _ := id
  settled := id

/-- A version of the batch that says finished is written by who sees no active page. -/
theorem BatchOk.writeBatch (h : BatchOk pages b db) (hs : batchId = b → row.status ≠ .opened)
    (hc : batchId = b → row.status = .finished → ∀ k ∈ db.jobs.rows, pages k = some b →
      (db.jobs.sees i k).status.isActive = false) :
    BatchOk pages b (db.writeBatch i batchId row) := by
  have hdraft : ∀ j row', (db.writeBatch i batchId row).batches.draft b = some (j, row') →
      batchId = b ∧ i = j ∧ row = row' ∨ db.batches.draft b = some (j, row') := by
    intro j row' hd
    by_cases hb : b = batchId
    · subst hb
      rw [Postgres.writeBatch, Table.draft_write_self] at hd
      exact Or.inl ⟨rfl, Prod.mk.inj (Option.some.inj hd)⟩
    · rw [Postgres.writeBatch, Table.draft_write_of_ne hb] at hd
      exact Or.inr hd
  refine ⟨h.exists', h.batchId, h.drafts, h.safe, ⟨h.started.1, fun j row' hd => ?_⟩,
    fun j row' hd hfin => ?_⟩
  · rcases hdraft j row' hd with ⟨hb, -, rfl⟩ | hd
    · exact hs hb
    · exact h.started.2 j row' hd
  · rcases hdraft j row' hd with ⟨hb, rfl, rfl⟩ | hd
    · exact hc hb hfin
    · exact h.closing j row' hd hfin

/-- When the batch is finished, everybody sees its pages ended. -/
theorem BatchOk.sees_of_finished (h : BatchOk pages b db) (hf : db.IsFinished b) {k : JobId}
    (hk : k ∈ db.jobs.rows) (hb : pages k = some b) :
    (db.jobs.sees i k).status.isActive = false := by
  rw [Bool.eq_false_iff]
  intro ha
  exact h.safe hf ⟨k, hk, (h.batchId k).trans hb, (h.active_of_sees ha).2⟩

theorem BatchOk.started_sees (h : BatchOk pages b db) (i : ι) :
    (db.batches.sees i b).status ≠ .opened := by
  by_cases hd : ∃ row, db.batches.draft b = some (i, row)
  · obtain ⟨row, hd⟩ := hd
    rw [Table.sees_of_draft hd]
    exact h.started.2 i row hd
  · rw [Table.sees_of_not_draft (not_exists.mp hd)]
    exact h.started.1

theorem BatchOk.sees_of_not_active (h : BatchOk pages b db)
    (hn : db.hasActivePage i b = false) {k : JobId} (hk : k ∈ db.jobs.rows)
    (hb : pages k = some b) : (db.jobs.sees i k).status.isActive = false := by
  rw [Bool.eq_false_iff]
  intro ha
  exact of_decide_eq_false hn ⟨k, hk, (h.batchId_sees i k).trans hb, ha⟩

/-! ## Committing -/

/-- `i` may commit: it holds the batch if it wrote pages of it, and finishes it unless another
page is still active. -/
structure Ready (pages : JobId → Option BatchId) (b : BatchId) (i : ι) (db : Postgres ι) :
    Prop where
  holds : ∀ k row, db.jobs.draft k = some (i, row) → pages k = some b → db.Holds i b
  finishes : ∀ row, db.batches.draft b = some (i, row) → row.status = .finished ∨
    ∃ k ∈ db.jobs.rows, pages k = some b ∧ (db.jobs.committed k).status.isActive = true ∧
      ∀ page, db.jobs.draft k ≠ some (i, page)

theorem Postgres.sees_of_not_holds (h : ¬db.Holds i b) :
    db.batches.sees i b = db.batches.committed b :=
  Table.sees_of_not_draft (not_exists.mp h)

/-- What is committed as active afterwards was so before, and was not written. -/
theorem BatchOk.active_of_commit (h : BatchOk pages b db) {k : JobId}
    (ha : ((db.commit i).jobs.committed k).status.isActive = true) :
    (db.jobs.committed k).status.isActive = true :=
  (h.active_of_sees ha).2

/-- The commit of who holds the batch finishes it, or another page is still active. -/
theorem BatchOk.settled_commit (h : BatchOk pages b db) (hr : Ready pages b i db)
    (hh : db.Holds i b) : (db.commit i).Settled b := by
  obtain ⟨row, hd⟩ := hh
  rcases hr.finishes row hd with hfin | ⟨k, hk, hb, hactive, hnone⟩
  · left
    show (db.batches.sees i b).status = .finished
    rw [Table.sees_of_draft hd]
    exact hfin
  · right
    refine ⟨k, hk, ?_, ?_⟩
    · exact (h.batchId_sees i k).trans hb
    · show (db.jobs.sees i k).status.isActive = true
      rw [Table.sees_of_not_draft hnone]
      exact hactive

theorem BatchOk.allows_commit (h : BatchOk pages b db) (hr : Ready pages b i db) :
    Allows pages b i db (db.commit i) := by
  have hlocked : ¬db.Holds i b → ∀ k, pages k = some b →
      (db.commit i).jobs.committed k = db.jobs.committed k := by
    intro hn k hb
    refine Table.sees_of_not_draft fun row hd => ?_
    exact hn (hr.holds k row hd hb)
  refine ⟨rfl, fun j hj => Table.foreign_commit (Ne.symm hj),
    fun j hj => Table.foreign_commit (Ne.symm hj), hlocked, fun k => h.active_of_commit, ?_⟩
  intro hs
  by_cases hh : db.Holds i b
  · exact h.settled_commit hr hh
  · rcases hs with hfin | ⟨k, hk, hb, hactive⟩
    · left
      show (db.batches.sees i b).status = .finished
      rw [Postgres.sees_of_not_holds hh]
      exact hfin
    · right
      have hsame := hlocked hh k ((h.batchId k).symm.trans hb)
      exact ⟨k, hk, by rw [hsame]; exact hb, by rw [hsame]; exact hactive⟩

theorem BatchOk.commit (h : BatchOk pages b db) (hr : Ready pages b i db) :
    BatchOk pages b (db.commit i) := by
  have hdrafts : ∀ k j row, (db.commit i).jobs.draft k = some (j, row) →
      row.status.isActive = false ∧ row.batchId = pages k :=
    fun k j row hd => h.drafts k j row (Table.draft_commit.mp hd).1
  refine ⟨h.exists', fun k => h.batchId_sees i k, hdrafts, ?_,
    ⟨h.started_sees i, fun j row hd => h.started.2 j row (Table.draft_commit.mp hd).1⟩, ?_⟩
  · rintro hfin ⟨k, hk, hb, hactive⟩
    have hpage : pages k = some b := (h.batchId_sees i k).symm.trans hb
    by_cases hh : db.Holds i b
    · -- its own version says finished, so it saw no active page
      obtain ⟨row, hd⟩ := hh
      have hrow : row.status = .finished := by
        have hfin' : (db.batches.sees i b).status = .finished := hfin
        rwa [Table.sees_of_draft hd] at hfin'
      have hended := h.closing i row hd hrow k hk hpage
      rw [show (db.jobs.sees i k).status.isActive = true from hactive] at hended
      cases hended
    · have hfin' : (db.batches.sees i b).status = .finished := hfin
      rw [Postgres.sees_of_not_holds hh] at hfin'
      exact h.safe hfin' ⟨k, hk, (h.batchId k).trans hpage, h.active_of_commit hactive⟩
  · intro j row hd hfin k hk hb
    obtain ⟨hd, hji⟩ := Table.draft_commit.mp hd
    exact h.closing_of_allows (h.allows_commit hr) hji hd hfin hk hb
      fun page hpage => (hdrafts k j page hpage).1

theorem allows_rollback : Allows pages b i db (db.rollback i) where
  rows := rfl
  jobs _ hj := Table.foreign_rollback (Ne.symm hj)
  batches _ hj := Table.foreign_rollback (Ne.symm hj)
  locked _ _ _ := rfl
  active _ := id
  settled := id

theorem BatchOk.rollback (h : BatchOk pages b db) (i : ι) : BatchOk pages b (db.rollback i) := by
  have hdrafts : ∀ k j row, (db.rollback i).jobs.draft k = some (j, row) →
      row.status.isActive = false ∧ row.batchId = pages k :=
    fun k j row hd => h.drafts k j row (Table.draft_rollback.mp hd).1
  refine ⟨h.exists', h.batchId, hdrafts, h.safe,
    ⟨h.started.1, fun j row hd => h.started.2 j row (Table.draft_rollback.mp hd).1⟩,
    fun j row hd hfin k hk hb => ?_⟩
  obtain ⟨hd, hji⟩ := Table.draft_rollback.mp hd
  exact h.closing_of_allows allows_rollback hji hd hfin hk hb
    fun page hpage => (hdrafts k j page hpage).1

/-! ## What each transaction does -/

/-- Sessions: one that dies loses its transaction. -/
def sessions : Regime (Postgres ι) Statement ι where
  allowed _ _ := True
  clean := Postgres.rollback

/-- The batch is all right, and everybody leaves the others what they rely on. -/
def closes (pages : JobId → Option BatchId) (b : BatchId) : Contract (Postgres ι) Statement ι where
  inv db _ := BatchOk pages b db
  guar i db _ db' _ := Allows pages b i db db'

abbrev Runs {α : Type} (pages : JobId → Option BatchId) (b : BatchId) (i : ι) (p : DbProg ι α)
    (P : Postgres ι → Prop) (Q : α → Postgres ι → Prop) : Prop :=
  Contract.Triple sessions (closes pages b) i p (fun db _ => P db) fun a db _ => Q a db

/-- What the others leave true for `i`. -/
def Lasting (pages : JobId → Option BatchId) (b : BatchId) (i : ι) (P : Postgres ι → Prop) : Prop :=
  ∀ j, i ≠ j → ∀ db db', BatchOk pages b db → BatchOk pages b db' → Allows pages b j db db' →
    P db → P db'

theorem Lasting.stable {P : Postgres ι → Prop} (h : Lasting pages b i P) :
    (closes pages b).Stable i fun db _ => P db :=
  fun j hj _ _ _ _ hi hi' hg hp => h j (Ne.symm hj) _ _ hi hi' hg hp

theorem lasting_idle : Lasting pages b i (Postgres.Idle i) :=
  fun _ hij _ _ _ _ ha h => ⟨(ha.jobs i hij).idle h.1, (ha.batches i hij).idle h.2⟩

theorem lasting_written {batchId : Option BatchId} :
    Lasting pages b i (Postgres.Written i pages batchId) :=
  fun _ hij _ _ _ _ ha h => ⟨(ha.batches i hij).idle h.1,
    fun k row hd => h.2 k row (((ha.jobs i hij).draft k row).mp hd)⟩

omit [DecidableEq ι] in
theorem Postgres.Holds.allows (h : db.Holds i b) (ha : Allows pages b j db db') (hij : i ≠ j) :
    db'.Holds i b := by
  obtain ⟨row, hd⟩ := h
  exact ⟨row, ((ha.batches i hij).draft b row).mpr hd⟩

omit [DecidableEq ι] in
/-- A batch that `i` holds is held by nobody else. -/
theorem Postgres.Holds.not_holds (h : db.Holds i b) (hij : i ≠ j) : ¬db.Holds j b := by
  rintro ⟨row', hd'⟩
  obtain ⟨row, hd⟩ := h
  rw [hd] at hd'
  exact hij (Prod.mk.inj (Option.some.inj hd')).1

omit [DecidableEq ι] in
theorem Ready.allows (h : Ready pages b i db) (ha : Allows pages b j db db') (hij : i ≠ j) :
    Ready pages b i db' where
  holds k row hd hb := (h.holds k row (((ha.jobs i hij).draft k row).mp hd) hb).allows ha hij
  finishes row hd := by
    have hold := ((ha.batches i hij).draft b row).mp hd
    rcases h.finishes row hold with hfin | ⟨k, hk, hb, hactive, hnone⟩
    · exact Or.inl hfin
    · -- nobody else changes the pages while `i` holds the batch
      have hsame := ha.locked (Postgres.Holds.not_holds ⟨row, hold⟩ hij) k hb
      refine Or.inr ⟨k, ha.rows ▸ hk, hb, by rw [hsame]; exact hactive, fun page hd' => ?_⟩
      exact hnone page (((ha.jobs i hij).draft k page).mp hd')

/-! ### Committing -/

/-- `i` may commit, and holds the batch if it is to finish it. -/
def Closing (pages : JobId → Option BatchId) (b : BatchId) (i : ι) (batchId : Option BatchId)
    (db : Postgres ι) : Prop :=
  Ready pages b i db ∧ (batchId = some b → db.Holds i b)

/-- The transaction for this batch has ended. -/
def Closed (b : BatchId) (batchId : Option BatchId) (db : Postgres ι) : Prop :=
  batchId = some b → db.Settled b

theorem lasting_closing {batchId : Option BatchId} :
    Lasting pages b i (Closing pages b i batchId) :=
  fun _ hij _ _ _ _ ha h => ⟨h.1.allows ha hij, fun hb => (h.2 hb).allows ha hij⟩

theorem lasting_closed {batchId : Option BatchId} : Lasting pages b i (Closed b batchId) :=
  fun _ _ _ _ _ _ ha h hb => ha.settled (h hb)

theorem runs_commit {batchId : Option BatchId} :
    Runs pages b i (commit i) (Closing pages b i batchId) fun _ => Closed b batchId := by
  refine Contract.triple_callLog (fun db es hi hp _ => ?_) fun _ => lasting_closed.stable
  refine ⟨hi.commit hp.1, hi.allows_commit hp.1, fun hb => ?_⟩
  exact hi.settled_commit hp.1 (hp.2 hb)

/-! ### Finishing a batch -/

/-- `i` holds the batch whose pages it wrote. -/
def Locked (pages : JobId → Option BatchId) (b : BatchId) (i : ι) (batchId : BatchId)
    (db : Postgres ι) : Prop :=
  (batchId = b → db.Holds i b) ∧ (batchId ≠ b → ¬db.Holds i b) ∧
    ∀ k row, db.jobs.draft k = some (i, row) → pages k = some batchId

theorem lasting_locked : Lasting pages b i (Locked pages b i batchId) := by
  intro j hij db db' _ _ ha h
  refine ⟨fun hb => (h.1 hb).allows ha hij, fun hb hh => ?_, fun k row hd => ?_⟩
  · obtain ⟨row, hd⟩ := hh
    exact h.2.1 hb ⟨row, ((ha.batches i hij).draft b row).mp hd⟩
  · exact h.2.2 k row (((ha.jobs i hij).draft k row).mp hd)

omit [DecidableEq ι] in
theorem holds_writeBatch : (db.writeBatch i b row).Holds i b := ⟨row, Table.draft_write_self⟩

omit [DecidableEq ι] in
theorem holds_writeBatch_of_ne (hb : batchId ≠ b) :
    (db.writeBatch i batchId row).Holds i b ↔ db.Holds i b := by
  unfold Postgres.Holds Postgres.writeBatch
  rw [Table.draft_write_of_ne (Ne.symm hb)]

theorem runs_lockBatch : Runs pages b i (lockBatch i batchId)
    (Postgres.Written i pages (some batchId)) fun _ => Locked pages b i batchId := by
  refine Contract.triple_await (fun db es hi hw hready _ => ?_) fun _ => lasting_locked.stable
  rw [List.append_nil]
  have hnot : ¬db.Holds i b := fun ⟨row, hd⟩ => hw.1 b row hd
  dsimp only at hready ⊢
  by_cases hmem : batchId ∈ db.batches.rows
  · rw [if_pos hmem]
    have hfree : db.batches.free i batchId = true := by simpa [hmem] using hready
    have hsees : db.batches.sees i = db.batches.committed := Table.sees_of_idle hw.1
    show BatchOk pages b (db.writeBatch i batchId (db.batches.sees i batchId)) ∧
      Allows pages b i db (db.writeBatch i batchId _) ∧ Locked pages b i batchId (db.writeBatch i batchId _)
    refine ⟨hi.writeBatch (fun hb => hb ▸ hi.started_sees i) fun hb hfin k hk hpage => ?_,
      allows_writeBatch hfree, ?_, ?_, hw.2⟩
    · -- the version that was locked is the committed one
      rw [hb, hsees] at hfin
      exact hi.sees_of_finished hfin hk hpage
    · rintro rfl
      exact holds_writeBatch
    · intro hb
      rw [holds_writeBatch_of_ne hb]
      exact hnot
  · rw [if_neg hmem]
    refine ⟨hi, .refl i db, fun hb => ?_, fun _ => hnot, hw.2⟩
    exact absurd (hb ▸ hi.exists') hmem

/-- The batch is finished, or somebody else's page is still active. -/
theorem BatchOk.closing_of_locked (h : BatchOk pages b db) (hh : Locked pages b i batchId db)
    (hfin : batchId = b → (db.batches.sees i b).status = .finished ∨
      db.hasActivePage i b = true) : Closing pages b i (some batchId) db := by
  refine ⟨⟨fun k row hd hb => ?_, fun row hd => ?_⟩, fun hb => hh.1 (Option.some.inj hb)⟩
  · exact hh.1 (Option.some.inj ((hh.2.2 k row hd).symm.trans hb))
  · have hb : batchId = b := by
      by_contra hb
      exact hh.2.1 hb ⟨row, hd⟩
    rcases hfin hb with hfin | hactive
    · rw [Table.sees_of_draft hd] at hfin
      exact Or.inl hfin
    · obtain ⟨k, hk, hpage, hactive⟩ := of_decide_eq_true hactive
      obtain ⟨hnone, hcommitted⟩ := h.active_of_sees hactive
      exact Or.inr ⟨k, hk, (h.batchId_sees i k).symm.trans hpage, hcommitted, hnone⟩

theorem runs_finish (now : ℚ) : Runs pages b i (finish i now batchId) (Locked pages b i batchId)
    fun _ => Closing pages b i (some batchId) := by
  refine Contract.triple_await (fun db es hi hl hready _ => ?_) fun _ => lasting_closing.stable
  rw [List.append_nil]
  dsimp only at hready ⊢
  by_cases hfin : (db.batchQueued i batchId && !db.hasActivePage i batchId) = true
  · rw [if_pos hfin]
    have hfree : db.batches.free i batchId = true := by simpa [hfin] using hready
    have hnone : db.hasActivePage i batchId = false := by simpa using (Bool.and_eq_true_iff.mp hfin).2
    show BatchOk pages b (db.writeBatch i batchId _) ∧ Allows pages b i db (db.writeBatch i batchId _) ∧
      Closing pages b i (some batchId) (db.writeBatch i batchId _)
    have hok : BatchOk pages b (db.writeBatch i batchId
        { db.batches.sees i batchId with status := .finished, finishedAt := some now }) := by
      refine hi.writeBatch (fun _ h => nomatch h) ?_
      rintro rfl - k hk hpage
      exact hi.sees_of_not_active hnone hk hpage
    refine ⟨hok, allows_writeBatch hfree, hok.closing_of_locked ⟨?_, ?_, hl.2.2⟩ ?_⟩
    · rintro rfl
      exact holds_writeBatch
    · intro hb
      rw [holds_writeBatch_of_ne hb]
      exact hl.2.1 hb
    · rintro rfl
      left
      rw [Postgres.writeBatch, Table.sees_write_self]
  · rw [if_neg hfin]
    refine ⟨hi, .refl i db, hi.closing_of_locked hl ?_⟩
    rintro rfl
    -- the batch is not queued, so it is finished, or a page is active
    by_cases hactive : db.hasActivePage i batchId = true
    · exact Or.inr hactive
    · left
      have hnot : db.batchQueued i batchId = false := by
        simpa [hactive] using hfin
      have hqueued : (db.batches.sees i batchId).status ≠ .queued := by
        intro h
        simp [Postgres.batchQueued, hi.exists', h] at hnot
      have hstarted := hi.started_sees i
      cases h : (db.batches.sees i batchId).status with
      | opened => exact absurd h hstarted
      | queued => exact absurd h hqueued
      | finished => rfl

omit [DecidableEq ι] in
theorem closing_of_written {batch : Option BatchId} (hb : batch ≠ some b)
    (hw : db.Written i pages batch) : Closing pages b i batch db :=
  ⟨⟨fun k row hd hpage => absurd ((hw.2 k row hd).symm.trans hpage) hb,
    fun row hd => absurd hd (hw.1 b row)⟩, fun h => absurd h hb⟩

theorem runs_finishIfDone (hb : b ≠ "") (now : ℚ) (batch : Option BatchId) :
    Runs pages b i (finishIfDone i now batch) (Postgres.Written i pages batch)
      fun _ => Closing pages b i batch := by
  unfold finishIfDone
  split
  · next hnone =>
    refine Contract.triple_pure fun db _ _ hw => closing_of_written ?_ hw
    rintro rfl
    rw [nonEmpty_some hb] at hnone
    cases hnone
  · next batchId hsome =>
    obtain rfl : batch = some batchId := (Option.filter_eq_some_iff.mp hsome).1
    exact runs_lockBatch.bind fun _ => runs_finish now

/-! ### The cleanup worker -/

/-- `i` wrote no page, only finishes batches, and has these left to finish. -/
structure Sweeping (b : BatchId) (i : ι) (todo : List BatchId) (db : Postgres ι) : Prop where
  idle : db.jobs.Idle i
  finished : ∀ row, db.batches.draft b = some (i, row) → row.status = .finished
  ended : b ∈ todo → ¬db.ActivePage b

theorem lasting_sweeping {todo : List BatchId} : Lasting pages b i (Sweeping b i todo) := by
  intro j hij db db' hi hi' ha h
  refine ⟨(ha.jobs i hij).idle h.idle, fun row hd => ?_, fun hb => ?_⟩
  · exact h.finished row (((ha.batches i hij).draft b row).mp hd)
  · rintro ⟨k, hk, hpage, hactive⟩
    refine h.ended hb ⟨k, ha.rows ▸ hk, ?_, ha.active k hactive⟩
    rw [hi.batchId, ← hi'.batchId]
    exact hpage

omit [DecidableEq ι] in
theorem closing_of_sweeping (h : Sweeping b i [] db) : Closing pages b i none db :=
  ⟨⟨fun k row hd => absurd hd (h.idle k row), fun row hd => Or.inl (h.finished row hd)⟩,
    fun hb => nomatch hb⟩

/-- One batch is finished, whose pages were looked at before. -/
theorem Sweeping.writeFinished {todo : List BatchId} (h : Sweeping b i (batchId :: todo) db)
    (hi : BatchOk pages b db) (now : ℚ) :
    BatchOk pages b (db.writeFinished i batchId now) ∧
      Sweeping b i todo (db.writeFinished i batchId now) := by
  constructor
  · refine hi.writeBatch (fun _ h => nomatch h) ?_
    rintro rfl - k hk hpage
    rw [Bool.eq_false_iff]
    intro hactive
    refine h.ended (List.mem_cons_self ..) ⟨k, hk, (hi.batchId k).trans hpage, ?_⟩
    exact (hi.active_of_sees hactive).2
  · refine ⟨h.idle, fun row hd => ?_, fun hb => h.ended (List.mem_cons_of_mem _ hb)⟩
    by_cases hb : b = batchId
    · subst hb
      rw [Postgres.writeFinished, Table.draft_write_self] at hd
      rw [← (Prod.mk.inj (Option.some.inj hd)).2]
    · rw [Postgres.writeFinished, Table.draft_write_of_ne hb] at hd
      exact h.finished row hd

theorem runs_finishStalledBatches (now : ℚ) (todo : List BatchId) :
    Runs pages b i (finishStalledBatches i now todo) (Sweeping b i todo)
      fun _ => Sweeping b i [] := by
  induction todo with
  | nil => exact Contract.triple_pure fun _ _ _ h => h
  | cons batchId todo ih =>
    refine Contract.Triple.bind (P := fun _ db _ => Sweeping b i todo db) ?_ fun _ => ih
    refine Contract.triple_await (fun db es hi hs hready _ => ?_) fun _ => lasting_sweeping.stable
    rw [List.append_nil]
    by_cases hqueued : db.batchQueued i batchId = true
    · rw [if_pos hqueued]
      have hfree : db.batches.free i batchId = true := by
        simpa only [hqueued, Bool.not_true, Bool.false_or] using hready
      obtain ⟨hok, hs'⟩ := hs.writeFinished hi now
      exact ⟨hok, allows_writeBatch hfree, hs'⟩
    · rw [if_neg hqueued]
      exact ⟨hi, .refl i db, hs.idle, hs.finished, fun hb => hs.ended (List.mem_cons_of_mem _ hb)⟩

theorem runs_finishStalled (now : ℚ) (batchIds : List BatchId) :
    Runs pages b i (finishStalled i now batchIds) (Postgres.Idle i) fun _ => Closed b none := by
  refine Contract.Triple.bind (P := fun todo db _ => Sweeping b i todo db) ?_ fun todo => ?_
  · refine Contract.triple_call (fun db es hi hidle => ⟨hi, .refl i db, hidle.1,
      fun row hd => absurd hd (hidle.2 b row), fun hb => ?_⟩) fun _ => lasting_sweeping.stable
    rintro ⟨k, hk, hpage, hactive⟩
    change (db.jobs.committed k).status.isActive = true at hactive
    have hnone : db.hasActivePage i b = false := by
      simpa using (Bool.and_eq_true_iff.mp (List.mem_filter.mp hb).2).2
    have hended := hi.sees_of_not_active hnone hk ((hi.batchId k).symm.trans hpage)
    rw [Table.sees_of_idle hidle.1, hactive] at hended
    cases hended
  · refine (runs_finishStalledBatches now todo).bind fun _ => ?_
    exact runs_commit.imp (fun _ _ _ h => closing_of_sweeping h) fun _ _ _ h => h

/-! ### Whole transactions -/

theorem runs_updateJob {writer : Writer} {jobId : JobId} {cond : JobRow → Bool}
    {values : JobRow → JobRow} (hstatus : ∀ row, (values row).status.isActive = false)
    (hbatch : ∀ row, (values row).batchId = row.batchId) :
    Runs pages b i (updateJob i writer jobId cond values) (Postgres.Idle i)
      fun _ => Postgres.Written i pages (pages jobId) := by
  refine Contract.triple_await (fun db es hi hidle hready _ => ?_) fun _ => lasting_written.stable
  show BatchOk pages b (db.update i jobId cond values) ∧
    Allows pages b i db (db.update i jobId cond values) ∧
      (db.update i jobId cond values).Written i pages (pages jobId)
  unfold Postgres.update
  by_cases hm : db.matchesJob i jobId cond = true
  · rw [if_pos hm]
    have hfree : db.jobs.free i jobId = true := by
      simpa only [hm, Bool.not_true, Bool.false_or] using hready
    exact ⟨hi.writeJob hidle hfree hstatus hbatch, allows_writeJob hfree, written_writeJob hidle⟩
  · rw [if_neg hm]
    exact ⟨hi, .refl i db, hidle.2, fun k row hd => absurd hd (hidle.1 k row)⟩

/-- A transaction ends with its batch finished, or another page active. -/
theorem Finisher.runs (hb : b ≠ "") {batch : Option BatchId} {p : DbProg ι Unit}
    (h : Finisher pages i batch p) :
    Runs pages b i p (Postgres.Idle i) fun _ => Closed b batch := by
  cases h with
  | finishPage now writer jobId cond hstatus hbatch =>
    refine Contract.Triple.bind ?_ fun _ => Contract.triple_pure fun _ _ _ h => h
    refine (runs_updateJob hstatus hbatch).bind fun matched => ?_
    refine (runs_finishIfDone hb now _).bind fun _ => ?_
    exact runs_commit.bind fun _ => Contract.triple_pure fun _ _ _ h => h
  | recordFailed now jobId error attempt stamps =>
    refine Contract.Triple.bind ?_ fun _ => Contract.triple_pure fun _ _ _ h => h
    refine Contract.Triple.bind (P := fun _ db _ => db.Written i pages (pages jobId))
      (runs_updateJob (by intro row; rfl) (by intro row; rfl)) fun matched => ?_
    refine Contract.Triple.bind (P := fun _ db _ => db.Written i pages (pages jobId))
      (Contract.triple_call (fun db es hi hw => ⟨hi, .refl i db, hw⟩)
        fun _ => lasting_written.stable) fun _ => ?_
    refine (runs_finishIfDone hb now _).bind fun _ => ?_
    exact runs_commit.bind fun _ => Contract.triple_pure fun _ _ _ h => h
  | finishStalled now batchIds => exact runs_finishStalled now batchIds

/-! ## Any interleaving -/

variable {p q : Pool (Postgres ι) Statement ι} {batchOf : ι → Option BatchId}

theorem cleanOk_sessions :
    Pool.CleanOk (sessions : Regime (Postgres ι) Statement ι) (closes pages b) :=
  fun i _ _ hi => ⟨BatchOk.rollback hi i, allows_rollback⟩

/-- **A batch is committed as finished only when none of its pages is active, and once a
transaction for it has ended (or when a page was active to begin with) as soon as none is.** -/
theorem batch_finishes_with_last_page (hb : b ≠ "")
    (hprocs : ∀ i c, p.procs i = some c →
      Finisher (fun k => (p.shared.jobs.committed k).batchId) i (batchOf i) c)
    (hidle : ∀ i, p.shared.Idle i) (hexists : b ∈ p.shared.batches.rows)
    (hqueued : (p.shared.batches.committed b).status = .queued)
    (hr : Pool.Run sessions p q) :
    (q.shared.IsFinished b → ¬q.shared.ActivePage b) ∧
      (((∃ i, batchOf i = some b ∧ q.procs i = some (.ret ())) ∨ p.shared.ActivePage b) →
        ¬q.shared.ActivePage b → q.shared.IsFinished b) := by
  have hok : BatchOk (fun k => (p.shared.jobs.committed k).batchId) b p.shared := by
    refine ⟨hexists, fun _ => rfl, fun k i row hd => absurd hd ((hidle i).1 k row), ?_, ?_,
      fun i row hd => absurd hd ((hidle i).2 b row)⟩
    · intro hfin
      rw [Postgres.IsFinished, hqueued] at hfin
      cases hfin
    · rw [hqueued]
      exact ⟨by decide, fun i row hd => absurd hd ((hidle i).2 b row)⟩
  have hsound : Pool.Sound sessions (closes _ b) (fun i db _ => Closed b (batchOf i) db) p :=
    ⟨hok, fun i c hi => ⟨fun db _ => db.Idle i, hidle i, lasting_idle.stable,
      (hprocs i c hi).runs hb⟩⟩
  have hsound' := hsound.run cleanOk_sessions hr
  refine ⟨hsound'.inv.safe, ?_⟩
  rintro (⟨i, hi, hended⟩ | hactive) hnone
  · exact (hsound'.post hended hi).resolve_right hnone
  · have hsettled := hsound.keeps (B := fun db _ => db.Settled b) cleanOk_sessions
      (fun _ _ _ _ _ ha => ha.settled) hr (Or.inr hactive)
    exact hsettled.resolve_right hnone

end

/-- A batch whose last two pages are being stored, and two harvests that record one each. -/
def sampleBatch : Pool (Postgres Bool) Statement Bool where
  shared :=
    { jobs :=
        { rows := {1, 2}
          committed := fun _ =>
            { username := "user", status := .storing, batchId := some "b", submittedAt := 0 } }
      batches := { rows := {"b"}, committed := fun _ => { status := .queued } } }
  procs i := some do
    let _ ← finishPage i 5 .recordDone (if i then 1 else 2) notDone
      (fun row => { row with status := .done }) (some "b")
    pure ()
  history := []

/-- Both write their page before either looks for others; the second waits for the batch. -/
theorem batch_finishes_with_last_page_sample : ∃ q : Pool (Postgres Bool) Statement Bool,
    Pool.Run sessions sampleBatch q ∧ ¬q.shared.ActivePage "b" ∧ q.shared.IsFinished "b" := by
  obtain ⟨q, hr, hq⟩ := Pool.exists_run_of_schedule (R := sessions) (fun _ _ => trivial)
    (p := sampleBatch) (l := [true, false, true, true, true, false, false, false])
    (P := fun q => q.shared.jobs.rows = {1, 2} && (q.shared.jobs.committed 1).status = .done &&
      (q.shared.jobs.committed 2).status = .done) (by decide +kernel)
  simp only [Bool.and_eq_true, decide_eq_true_eq] at hq
  have hnone : ¬q.shared.ActivePage "b" := by
    rintro ⟨k, hk, -, hactive⟩
    rw [hq.1.1, Finset.mem_insert, Finset.mem_singleton] at hk
    rcases hk with rfl | rfl
    · rw [hq.1.2] at hactive
      cases hactive
    · rw [hq.2] at hactive
      cases hactive
  have hprocs : ∀ i c, sampleBatch.procs i = some c →
      Finisher (fun k => (sampleBatch.shared.jobs.committed k).batchId) i (some "b") c := by
    intro i c hc
    obtain rfl := Option.some.inj hc
    exact .finishPage 5 .recordDone (if i then 1 else 2) notDone (fun _ => rfl) fun _ => rfl
  have hboth := batch_finishes_with_last_page (b := "b") (by decide) hprocs
    (fun i => ⟨fun _ _ h => (nomatch h), fun _ _ h => nomatch h⟩) (by decide) rfl hr
  exact ⟨q, hr, hnone, hboth.2 (Or.inr ⟨1, by decide, rfl, rfl⟩) hnone⟩

end Taas

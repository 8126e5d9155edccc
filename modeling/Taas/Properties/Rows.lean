import Taas.Infra.Pool
import Taas.Properties.Places
import Taas.Properties.Statements

/-!
# A job that is done stays done

Any number of workers write the rows of `jobs`, statement by statement and commit by commit,
and any of them may die and lose its transaction. Some of their updates look at the status
that the row has, others write by id only (`Writer.blind`).

* `done_stays` — as long as no blind update is executed on a row that is committed as done,
  no row that was committed as done is ever committed as anything else.
* `reaper_undoes_done` — the condition is needed: the reaper takes a harvested job back.
-/

namespace Taas

open Infra Infra.Prog

/-- The updates that set a status whatever status the row has. -/
def Writer.blind : Writer → Bool
  | .recordRunning | .failJob | .requeue | .reap => true
  -- `_retry_later` matches by id as well, but leaves the status
  | .retryLater | .recordDone | .markFailed | .releaseForHarvest => false

/-- The job's row is committed as done. -/
def Postgres.IsDone {ι : Type} (jobId : JobId) (db : Postgres ι) : Prop :=
  (db.jobs.committed jobId).status = .done

/-- No transaction is about to take a job that is done to another status. -/
def Postgres.DraftsDone {ι : Type} (db : Postgres ι) : Prop :=
  ∀ jobId i row, db.IsDone jobId → db.jobs.draft jobId = some (i, row) → row.status = .done

/-- No blind update of a row that is committed as done. -/
def Postgres.Careful {ι : Type} (db : Postgres ι) (statement : Statement) : Prop :=
  ∀ writer jobId, statement = .update writer jobId → writer.blind = true → ¬db.IsDone jobId

/-- Workers that execute the statements that `ok` allows; one that dies loses its transaction. -/
def executing {ι : Type} [DecidableEq ι] (ok : Postgres ι → Statement → Prop) :
    Regime (Stores ι) (Note ι) ι where
  allowed s notes := ∀ n ∈ notes, ∀ statement, n.what = .inr statement → ok s.db statement
  clean i s := { s with db := s.db.rollback i }

abbrev careful {ι : Type} [DecidableEq ι] : Regime (Stores ι) (Note ι) ι :=
  executing Postgres.Careful

/-- Any statement is executed. -/
abbrev careless {ι : Type} [DecidableEq ι] : Regime (Stores ι) (Note ι) ι :=
  executing fun _ _ => True

/-! ## Statements -/

section

variable {ι : Type} [DecidableEq ι] {i : ι} {db db' : Postgres ι} {jobId : JobId}

/-- What a careful statement keeps: the jobs that are done, and that nobody takes them back. -/
def Postgres.Keeps (db db' : Postgres ι) : Prop :=
  db.DraftsDone → db'.DraftsDone ∧ ∀ jobId, db.IsDone jobId → db'.IsDone jobId

/-- A database command that keeps what is done. -/
def KeepsDone (effect : Postgres ι → Postgres ι) (log : Postgres ι → List Statement) : Prop :=
  ∀ db, (∀ statement ∈ log db, db.Careful statement) → db.Keeps (effect db)

omit [DecidableEq ι] in
theorem Postgres.Keeps.of_jobs (h : db'.jobs = db.jobs) : db.Keeps db' := by
  intro hd
  constructor
  · intro k j row hk hdraft
    rw [Postgres.IsDone, h] at hk
    rw [h] at hdraft
    exact hd k j row hk hdraft
  · intro k hk
    rwa [Postgres.IsDone, h]

/-- A row that is done is seen as done. -/
theorem Postgres.DraftsDone.sees (hd : db.DraftsDone) (hk : db.IsDone jobId) (i : ι) :
    (db.jobs.sees i jobId).status = .done := by
  by_cases h : ∃ row, db.jobs.draft jobId = some (i, row)
  · obtain ⟨row, h⟩ := h
    rw [Table.sees_of_draft h]
    exact hd jobId i row hk h
  · rw [Table.sees_of_not_draft (not_exists.mp h)]
    exact hk

theorem Postgres.DraftsDone.rollback (hd : db.DraftsDone) (i : ι) :
    (db.rollback i).DraftsDone := by
  intro k j row hk hdraft
  exact hd k j row hk (Table.draft_rollback.mp hdraft).1

theorem keeps_commit (db : Postgres ι) (i : ι) : db.Keeps (db.commit i) := by
  intro hd
  refine ⟨fun k j row hk hdraft => ?_, fun k hk => hd.sees hk i⟩
  obtain ⟨hdraft, hji⟩ := Table.draft_commit.mp hdraft
  -- the row is held by another transaction, so this commit did not make it done
  have hseen : db.jobs.sees i k = db.jobs.committed k := Table.sees_of_other hdraft hji
  refine hd k j row ?_ hdraft
  show (db.jobs.committed k).status = .done
  rw [← hseen]
  exact hk

/-- An update that leaves a row alone, or done, when it is done; or else is blind. -/
theorem keepsDone_update {writer : Writer} {cond : JobRow → Bool} {values : JobRow → JobRow}
    (jobId : JobId) (h : writer.blind = false → ∀ row, row.status = .done → cond row = true →
      (values row).status = .done) :
    KeepsDone (Postgres.update i jobId cond values) fun _ => [.update writer jobId] := by
  intro db hc hd
  unfold Postgres.update
  split
  · next hm =>
    refine ⟨fun k j row hk hdraft => ?_, fun _ => id⟩
    by_cases hkj : k = jobId
    · subst hkj
      have hblind : writer.blind = false := by
        rw [Bool.eq_false_iff]
        intro hb
        exact hc _ (List.mem_singleton_self _) writer k rfl hb hk
      have hcond : cond (db.jobs.sees i k) = true := (Bool.and_eq_true_iff.mp hm).2
      rw [Postgres.writeJob, Table.draft_write_self] at hdraft
      rw [← (Prod.mk.inj (Option.some.inj hdraft)).2]
      exact h hblind _ (hd.sees hk i) hcond
    · rw [Postgres.writeJob, Table.draft_write_of_ne hkj] at hdraft
      exact hd k j row hk hdraft
  · exact ⟨hd, fun _ => id⟩

theorem ne_done_of_notDone (row : JobRow) (h : notDone row = true) : row.status ≠ .done :=
  of_decide_eq_true h

/-- Every update leaves a done row done, or is blind. -/
theorem RowUpdate.done {writer : Writer} {cond : JobRow → Bool} {values : JobRow → JobRow}
    (h : RowUpdate writer cond values) (hb : writer.blind = false) (row : JobRow)
    (hrow : row.status = .done) (hcond : cond row = true) : (values row).status = .done := by
  cases h with
  | recordRunning | failJob | requeue | reap => cases hb
  | retryLater => exact hrow
  | recordDone | markFailed => exact absurd hrow (ne_done_of_notDone row hcond)
  | releaseForHarvest =>
    rw [of_decide_eq_true hcond] at hrow
    cases hrow

theorem RowStatement.keepsDone {W : Writer → Prop} {effect : Postgres ι → Postgres ι}
    {log : Postgres ι → List Statement} (h : RowStatement W i effect log) :
    KeepsDone effect log := by
  cases h with
  | other h => exact fun db _ => .of_jobs (h db)
  | update jobId h _ => exact keepsDone_update jobId h.done
  | commit => exact fun db _ => keeps_commit db i
  | rollback => exact fun db _ hd => ⟨hd.rollback i, fun _ => id⟩

/-! ## Workers -/

/-- A command of a worker that keeps what is done. -/
def WorkerKeeps (effect : Stores ι → Stores ι) (log : Stores ι → List (Note ι)) : Prop :=
  ∀ s, careful.allowed s (log s) → s.db.Keeps (effect s).db

theorem WorkerStatement.keeps {W : Writer → Prop} {effect : Stores ι → Stores ι}
    {log : Stores ι → List (Note ι)} (h : WorkerStatement W i effect log) :
    WorkerKeeps effect log := by
  intro s ha
  rcases h with hdb | ⟨dbEffect, dbLog, hrow, hdb, hlog⟩
  · exact .of_jobs (by rw [hdb s])
  · rw [hdb s]
    refine hrow.keepsDone s.db fun statement hs => ?_
    refine ha ⟨i, .inr statement⟩ ?_ statement rfl
    rw [hlog s]
    exact List.mem_map_of_mem hs

/-- Every command of every call keeps what is done, when it is careful. -/
theorem RowCall.keeps {p : WorkerProg ι Unit} (h : RowCall i p) : Each WorkerKeeps p :=
  (h.statements fun _ => trivial).mono fun _ _ hs => hs.keeps (W := fun _ => True)

theorem RowWriter.keeps {p : WorkerProg ι Unit} (h : RowWriter i p) : Each WorkerKeeps p := by
  induction h with
  | done => exact each_pure _
  | call hp _ ih => exact hp.keeps.bind fun _ => ih

/-! ## Any interleaving -/

variable {p q r : Pool (Stores ι) (Note ι) ι}

/-- Drafts and jobs that are done, along a careful run. -/
theorem keeps_run (hprocs : ∀ i c, p.procs i = some c → c.Each WorkerKeeps)
    (hr : Pool.Run careful p q) : p.shared.db.Keeps q.shared.db := by
  intro hd
  refine ⟨?_, fun jobId hk => ?_⟩
  · exact Pool.Run.each (I := fun s _ => s.db.DraftsDone) hr
      (fun effect log s es hc ha h => (hc s ha h).1) (fun i s es h => h.rollback i) hprocs hd
  · have hboth := Pool.Run.each (I := fun s _ => s.db.DraftsDone ∧ s.db.IsDone jobId) hr
      (fun effect log s es hc ha h => ⟨(hc s ha h.1).1, (hc s ha h.1).2 jobId h.2⟩)
      (fun i s es h => ⟨h.1.rollback i, h.2⟩) hprocs ⟨hd, hk⟩
    exact hboth.2

/-- **As long as no blind update is executed on a row that is committed as done, a row that
was committed as done once stays done.** -/
theorem done_stays (hprocs : ∀ i c, p.procs i = some c → RowWriter i c)
    (hidle : ∀ jobId, p.shared.db.jobs.draft jobId = none) (hq : Pool.Run careful p q)
    (hr : Pool.Run careful q r) {jobId : JobId} (h : q.shared.db.IsDone jobId) :
    r.shared.db.IsDone jobId := by
  have hkeeps : ∀ i c, p.procs i = some c → c.Each WorkerKeeps :=
    fun i c hi => (hprocs i c hi).keeps
  have hstart : p.shared.db.DraftsDone := by
    intro k j row _ hdraft
    rw [hidle k] at hdraft
    cases hdraft
  have hdrafts : q.shared.db.DraftsDone := (keeps_run hkeeps hq hstart).1
  exact (keeps_run (fun i c hi => Pool.Run.proc hq (hkeeps i) c hi) hr hdrafts).2 jobId h

end

/-! ## A job that is done and then failed -/

/-- The sample job waits for its harvest. A harvester (`true`) saved its outputs and the
reaper (`false`) is due; the job runs longer than its domain may. -/
def sampleRows : Pool (Stores Bool) (Note Bool) Bool where
  shared :=
    { redis := ((World.initial 0).run 60 sampleRun).redis
      db :=
        { jobs :=
            { rows := {1}
              committed := fun _ =>
                { username := "user", status := .storing, submittedAt := 0, dispatchedAt := some 0 } }
          batches := { rows := ∅, committed := fun _ => {} } } }
  procs
    | true => some do
      harvest true 100 1 { sampleJob with backendId := some 1 } {} (.stored []) 0 3600
      pure ()
    | false => some do
      reapStaleJobs false 100 id 50 (fun _ => 50) 3600
      pure ()
  history := []

theorem sampleRows_procs (i : Bool) (c : WorkerProg Bool Unit) (h : sampleRows.procs i = some c) :
    RowWriter i c := by
  cases i with
  | true => exact Option.some.inj h ▸ .call (.harvest ..) .done
  | false => exact Option.some.inj h ▸ .call (.reapStaleJobs ..) .done

/-- The reaper selects the job while it is being harvested, looks for it in the harvest queue
when the harvest is over, and fails it. -/
theorem reaper_undoes_done : ∃ q r : Pool (Stores Bool) (Note Bool) Bool,
    (∀ i c, sampleRows.procs i = some c → RowWriter i c) ∧
      (∀ jobId, sampleRows.shared.db.jobs.draft jobId = none) ∧
        Pool.Run careless sampleRows q ∧ Pool.Run careless q r ∧
          q.shared.db.IsDone 1 ∧ ¬r.shared.db.IsDone 1 := by
  have hany : ∀ s es, (careless : Regime (Stores Bool) (Note Bool) Bool).allowed s es :=
    fun _ _ _ _ _ _ => trivial
  obtain ⟨q, hq, hdone⟩ := Pool.exists_run_of_schedule hany (p := sampleRows)
    (l := false :: List.replicate 9 true)
    (P := fun q => (q.shared.db.jobs.committed 1).status = .done &&
      (q.schedule (List.replicate 7 false)).any fun r =>
        (r.shared.db.jobs.committed 1).status = .failed) (by decide +kernel)
  rw [Bool.and_eq_true_iff] at hdone
  obtain ⟨r, hr, hfailed⟩ := Pool.exists_run_of_schedule hany hdone.2
  have hdone' : (q.shared.db.jobs.committed 1).status = .done := of_decide_eq_true hdone.1
  refine ⟨q, r, sampleRows_procs, fun _ => rfl, hq, hr, hdone', ?_⟩
  intro hd
  have hf : (r.shared.db.jobs.committed 1).status = .failed := of_decide_eq_true hfailed
  rw [Postgres.IsDone, hf] at hd
  cases hd

/-- Whether `ok` allows all statements. -/
def executes (ok : Postgres Bool → Statement → Bool) (s : Stores Bool)
    (notes : List (Note Bool)) : Bool :=
  notes.all fun n => n.what.elim (fun _ => true) (ok s.db)

theorem executing_of_executes {ok : Postgres Bool → Statement → Prop}
    {check : Postgres Bool → Statement → Bool}
    (hcheck : ∀ db statement, check db statement = true → ok db statement) (s : Stores Bool)
    (notes : List (Note Bool)) (h : executes check s notes = true) :
    (executing ok).allowed s notes := by
  intro n hn statement hs
  have hall := List.all_eq_true.mp h n hn
  rw [hs] at hall
  exact hcheck s.db statement hall

def Postgres.isCareful (db : Postgres Bool) : Statement → Bool
  | .update writer jobId => !(writer.blind && (db.jobs.committed jobId).status = .done)
  | _ => true

theorem Postgres.careful_of_isCareful (db : Postgres Bool) (statement : Statement)
    (h : db.isCareful statement = true) : db.Careful statement := by
  rintro writer jobId rfl hb hd
  have hnot : (!(writer.blind && (db.jobs.committed jobId).status = .done)) = true := h
  rw [hb, Bool.true_and, Bool.not_eq_true', decide_eq_false_iff_not] at hnot
  exact hnot hd

/-- The job of `sampleRows`, and two more ones that run too long. The one who is no harvester
puts job 3 back on the queue before it reaps. -/
def sampleSweep : Pool (Stores Bool) (Note Bool) Bool where
  shared :=
    { sampleRows.shared with
      db.jobs := { sampleRows.shared.db.jobs with rows := {1, 2, 3} } }
  procs
    | true => sampleRows.procs true
    | false => some do
      requeue false 100 [⟨3, { sampleJob with backendId := some 1 }, 5,
        ⟨100, .poll, some 1, none, "lost", true⟩⟩] 3600
      reapStaleJobs false 100 id 50 (fun _ => 50) 3600
      pure ()
  history := []

theorem sampleSweep_procs (i : Bool) (c : WorkerProg Bool Unit)
    (h : sampleSweep.procs i = some c) : RowWriter i c := by
  cases i with
  | true => exact sampleRows_procs true c h
  | false => exact Option.some.inj h ▸ .call (.requeue ..) (.call (.reapStaleJobs ..) .done)

/-- Job 1 is harvested, job 3 goes back on the queue, and the reaper, which looks after that,
fails the other two. -/
theorem done_stays_sample : ∃ q r : Pool (Stores Bool) (Note Bool) Bool,
    Pool.Run careful q r ∧ q.shared.db.IsDone 1 ∧ r.ended false = true ∧
      (r.shared.db.jobs.committed 2).status = .failed ∧ r.shared.db.IsDone 1 := by
  have hok := executing_of_executes Postgres.careful_of_isCareful
  obtain ⟨q, hq, hdone⟩ := Pool.exists_run_of_scheduleIf hok (p := sampleSweep)
    (l := List.replicate 9 true)
    (P := fun q => (q.shared.db.jobs.committed 1).status = .done &&
      (q.scheduleIf (executes Postgres.isCareful) (List.replicate 26 false)).any fun r =>
        r.ended false && (r.shared.db.jobs.committed 2).status = .failed) (by decide +kernel)
  rw [Bool.and_eq_true_iff] at hdone
  obtain ⟨r, hr, hfailed⟩ := Pool.exists_run_of_scheduleIf hok hdone.2
  rw [Bool.and_eq_true_iff] at hfailed
  have hdone' : (q.shared.db.jobs.committed 1).status = .done := of_decide_eq_true hdone.1
  exact ⟨q, r, hr, hdone', hfailed.1, of_decide_eq_true hfailed.2,
    done_stays sampleSweep_procs (fun _ => rfl) hq hr hdone'⟩

end Taas

import Taas.Infra.Program
import Taas.Infra.Table
import Taas.Services.Store

/-!
# The Postgres tables

The rows of `app/models/job.py` and `app/models/batch.py`, with the columns that the modelled
code reads or writes, and the statements that a session executes on them.

* `Postgres` — the two tables, with their row locks.
* `Statement` — what a statement is noted as: an update of a job, and by whom, or a commit,
  with the jobs whose rows it took to a terminal status.
* `selectJob`, `updateJob`, `commit`, … — the statements, one command each.
-/

namespace Taas

open Infra Infra.Prog

/-- One entry of `jobs.attempts` (`app/schemas/attempt.py`). -/
structure Attempt where
  at' : ℚ
  stage : FailureStage
  backendId : Option BackendId
  httpStatus : Option Int
  error : String
  /-- Whether the job went back to its queue after this attempt. -/
  retry : Bool
deriving DecidableEq

/-- A row of `jobs`. -/
structure JobRow where
  username : String
  externalId : Option String := none
  status : JobStatus := .queued
  domain : Option String := none
  batchId : Option BatchId := none
  engineJobId : Option String := none
  engineVersion : Option String := none
  backendId : Option BackendId := none
  error : Option String := none
  requeues : Int := 0
  attempts : List Attempt := []
  submittedAt : ℚ
  dispatchedAt : Option ℚ := none
  engineReceivedAt : Option ℚ := none
  startedAt : Option ℚ := none
  finishedAt : Option ℚ := none
  storedAt : Option ℚ := none
deriving DecidableEq

/-- A row of `batches`. -/
structure BatchRow where
  status : BatchStatus := .opened
  finishedAt : Option ℚ := none
deriving DecidableEq

structure Postgres (ι : Type) where
  jobs : Table JobId JobRow ι
  batches : Table BatchId BatchRow ι

/-- The functions that update a row of `jobs`. -/
inductive Writer where
  | recordRunning
  | retryLater
  | failJob
  | recordDone
  | markFailed
  | requeue
  | releaseForHarvest
  | reap
deriving DecidableEq

inductive Statement where
  /-- An update of the job's row was executed, whether it matched or not. -/
  | update (writer : Writer) (jobId : JobId)
  /-- The commit took these jobs from an active status to a terminal one. -/
  | committed (ended : Finset JobId)
deriving DecidableEq

/-- A program of database statements. -/
abbrev DbProg (ι α : Type) := Prog (Postgres ι) Statement α

namespace Postgres

variable {ι : Type} [DecidableEq ι]

/-- The jobs whose rows transaction `i` takes to a terminal status. -/
def ended (i : ι) (db : Postgres ι) : Finset JobId :=
  db.jobs.rows.filter fun k =>
    (db.jobs.committed k).status.isActive && (db.jobs.sees i k).status.isTerminal

def commit (i : ι) (db : Postgres ι) : Postgres ι :=
  { jobs := db.jobs.commit i, batches := db.batches.commit i }

def rollback (i : ι) (db : Postgres ι) : Postgres ι :=
  { jobs := db.jobs.rollback i, batches := db.batches.rollback i }

/-- Whether `UPDATE jobs … WHERE id = … AND …` matches the row, as transaction `i` sees it. -/
def matchesJob (i : ι) (jobId : JobId) (cond : JobRow → Bool) (db : Postgres ι) : Bool :=
  jobId ∈ db.jobs.rows && cond (db.jobs.sees i jobId)

def writeJob (i : ι) (jobId : JobId) (values : JobRow → JobRow) (db : Postgres ι) : Postgres ι :=
  { db with jobs := db.jobs.write i jobId (values (db.jobs.sees i jobId)) }

/-- The effect of `UPDATE jobs SET … WHERE id = … AND …`. -/
def update (i : ι) (jobId : JobId) (cond : JobRow → Bool) (values : JobRow → JobRow)
    (db : Postgres ι) : Postgres ι :=
  if db.matchesJob i jobId cond then db.writeJob i jobId values else db

end Postgres

section

variable {ι : Type} [DecidableEq ι] (i : ι)

/-- `SELECT … FROM jobs WHERE id = …` -/
def selectJob (jobId : JobId) : DbProg ι (Option JobRow) :=
  query fun db => if jobId ∈ db.jobs.rows then some (db.jobs.sees i jobId) else none

/-- `UPDATE jobs SET … WHERE id = … AND …`; whether it matched. A row that matches waits for its
lock, and is looked at again once it is free. -/
def updateJob (writer : Writer) (jobId : JobId) (cond : JobRow → Bool)
    (values : JobRow → JobRow) : DbProg ι Bool :=
  await (fun db => !db.matchesJob i jobId cond || db.jobs.free i jobId)
    (fun _ => [.update writer jobId]) (fun db => db.matchesJob i jobId cond)
    (Postgres.update i jobId cond values)

def commit : DbProg ι Unit :=
  callLog (fun db => [.committed (db.ended i)]) (fun _ => ()) (Postgres.commit i)

/-- The end of a session that wrote nothing. -/
def rollback : DbProg ι Unit := act (Postgres.rollback i)

end

end Taas

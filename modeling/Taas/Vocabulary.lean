import Mathlib.Data.Finset.Insert

/-!
# The fixed words of taas

One enumeration per vocabulary of `app/vocabulary.py` that the modelled code speaks.
-/

namespace Taas

/-- The domain of a job that names none. -/
def defaultDomain : String := "default"

inductive JobStatus where
  | queued
  | running
  /-- The engine is done; the poller is saving the results. -/
  | storing
  | done
  | failed
deriving DecidableEq, Repr

namespace JobStatus

/-- `ACTIVE_JOB_STATUSES` -/
def isActive : JobStatus → Bool
  | queued | running | storing => true
  | done | failed => false

/-- `TERMINAL_JOB_STATUSES` -/
def isTerminal : JobStatus → Bool
  | done | failed => true
  | queued | running | storing => false

theorem isTerminal_eq (status : JobStatus) : status.isTerminal = !status.isActive := by
  cases status <;> rfl

/-- The member's string. -/
def value : JobStatus → String
  | queued => "queued"
  | running => "running"
  | storing => "storing"
  | done => "done"
  | failed => "failed"

def parse : String → Option JobStatus
  | "queued" => some queued
  | "running" => some running
  | "storing" => some storing
  | "done" => some done
  | "failed" => some failed
  | _ => none

@[simp] theorem parse_value (status : JobStatus) : parse status.value = some status := by
  cases status <;> rfl

end JobStatus

inductive BatchStatus where
  /-- Pages are still being read in from the archive. -/
  | opened
  | queued
  | finished
deriving DecidableEq, Repr

/-- Where a job's attempt failed. -/
inductive FailureStage where
  | dispatch
  /-- The status check failed. -/
  | poll
  /-- The engine reported the failure itself. -/
  | engine
  | harvest
  /-- The reaper failed a job that sat too long. -/
  | timeout
deriving DecidableEq, Repr

/-- A rate-limited kind of request. -/
inductive LimitClass where
  | submit
  | query
  | wsConnect
deriving DecidableEq, Repr

namespace LimitClass

/-- The member's string. -/
def value : LimitClass → String
  | submit => "submit"
  | query => "query"
  | wsConnect => "ws_connect"

def parse : String → Option LimitClass
  | "submit" => some submit
  | "query" => some query
  | "ws_connect" => some wsConnect
  | _ => none

@[simp] theorem parse_value (limitClass : LimitClass) : parse limitClass.value = some limitClass := by
  cases limitClass <;> rfl

end LimitClass

/-- Which engine adapter talks to a backend, in the order of the strings. -/
inductive AdapterId where
  | tuzkam
  | tuzkaocr
deriving DecidableEq, Repr

/-- Where a backend's capabilities for a domain came from. -/
inductive DomainSource where
  /-- Reported by the engine at domain sync. -/
  | engine
  /-- Declared at registration, until the engine is first seen. -/
  | declared
deriving DecidableEq, Repr

/-- How `GET /load` groups its totals. -/
inductive LoadGroupBy where
  | domain
  | adapter
deriving DecidableEq, Repr

/-- The legacy `fmt` a submit may give instead of `outputs`. -/
inductive Fmt where
  | alto
  | txt
  | multi
deriving DecidableEq, Repr

namespace Fmt

def parse : String → Option Fmt
  | "alto" => some alto
  | "txt" => some txt
  | "multi" => some multi
  | _ => none

/-- The outputs this fmt asks for. -/
def outputs : Fmt → Finset String
  | alto => {"alto"}
  | txt => {"txt"}
  | multi => {"alto", "txt"}

end Fmt

end Taas

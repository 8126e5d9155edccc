import Mathlib.Algebra.Order.Ring.Rat
import Mathlib.Data.Finset.Insert
import Taas.Services.Store

/-!
# Health checks and domain syncs of the submit worker

`check_health`, `spawn_domain_sync` and `sync_domains` of `app/workers/submit/worker.py` on the
event loop of one worker. A step is what happens from one await to the next.

* `SyncWorker` — what the worker remembers of its backends, and its background tasks.
* `SyncStep`, `SyncWorker.step` — the steps of the tick, of the tasks and of their callbacks.
-/

namespace Taas

/-- Where a `sync_domains` is. -/
inductive SyncPlace where
  /-- Before the engine's answer. -/
  | describing
  /-- In its transaction. -/
  | writing
  /-- It returned, raised or was cancelled. Its callback has not run. -/
  | ended
deriving DecidableEq

/-- An entry of `sync_tasks`. -/
structure SyncTask where
  backendId : BackendId
  place : SyncPlace := .describing
deriving DecidableEq

structure SyncWorker where
  now : ℚ
  /-- The settings `domain_sync_seconds` and `health_cache_seconds`. -/
  domainSyncSeconds : ℚ
  healthCacheSeconds : ℚ
  healthCache : BackendId → Option (Bool × ℚ) := fun _ => none
  domainsSyncedAt : BackendId → Option ℚ := fun _ => none
  domainSyncInflight : Finset BackendId := ∅
  syncTasks : List SyncTask := []
  /-- The health checks at their await, with the time of their lookup. -/
  checks : List (BackendId × ℚ) := []
  /-- The syncs that succeeded so far, and when. -/
  succeeded : List (BackendId × ℚ) := []

namespace SyncWorker

/-- `domains_synced_at.get(backend.id, 0.0)` -/
def syncedAt (backendId : BackendId) (w : SyncWorker) : ℚ := (w.domainsSyncedAt backendId).getD 0

/-- Kick off a background domain sync at most once per interval per backend. -/
def spawnDomainSync (backendId : BackendId) (w : SyncWorker) : SyncWorker :=
  if backendId ∈ w.domainSyncInflight then w
  else if w.now - w.syncedAt backendId < w.domainSyncSeconds then w
  else
    { w with
      domainSyncInflight := insert backendId w.domainSyncInflight
      syncTasks := w.syncTasks ++ [{ backendId }] }

/-- `check_health` up to its await. -/
def checkHealth (backendId : BackendId) (w : SyncWorker) : SyncWorker :=
  if (w.healthCache backendId).any fun cached => w.now - cached.2 < w.healthCacheSeconds then w
  else { w with checks := w.checks ++ [(backendId, w.now)] }

/-- `check_health` after the engine's answer to the check in place `k`. -/
def healthAnswered (k : Nat) (healthy : Bool) (w : SyncWorker) : SyncWorker :=
  match w.checks[k]? with
  | none => w
  | some (backendId, asked) =>
    let w := { w with
      checks := w.checks.eraseIdx k
      healthCache := Function.update w.healthCache backendId (some (healthy, asked)) }
    if healthy then w.spawnDomainSync backendId else w

/-- `sync_domains` after `describe`; without any domains, or with an error, it returns. -/
def described (k : Nat) (found : Bool) (w : SyncWorker) : SyncWorker :=
  match w.syncTasks[k]? with
  | some { backendId, place := .describing } =>
    { w with syncTasks :=
        w.syncTasks.set k { backendId, place := if found then .writing else .ended } }
  | _ => w

/-- `sync_domains` after its transaction: committed, or with an error. -/
def written (k : Nat) (committed : Bool) (w : SyncWorker) : SyncWorker :=
  match w.syncTasks[k]? with
  | some { backendId, place := .writing } =>
    let w := { w with syncTasks := w.syncTasks.set k { backendId, place := .ended } }
    if committed then
      { w with
        domainsSyncedAt := Function.update w.domainsSyncedAt backendId (some w.now)
        succeeded := w.succeeded ++ [(backendId, w.now)] }
    else w
  | _ => w

/-- `_done` -/
def done (k : Nat) (w : SyncWorker) : SyncWorker :=
  match w.syncTasks[k]? with
  | some { backendId, place := .ended } =>
    { w with
      syncTasks := w.syncTasks.eraseIdx k
      domainSyncInflight := w.domainSyncInflight.erase backendId }
  | _ => w

/-- `_cancel_domain_syncs` -/
def cancelDomainSyncs (w : SyncWorker) : SyncWorker :=
  { w with syncTasks := w.syncTasks.map fun task => { task with place := .ended } }

end SyncWorker

inductive SyncStep where
  | pass (duration : ℚ)
  | checkHealth (backendId : BackendId)
  | healthAnswered (k : Nat) (healthy : Bool)
  | described (k : Nat) (found : Bool)
  | written (k : Nat) (committed : Bool)
  | done (k : Nat)
  | cancelDomainSyncs

def SyncWorker.step (w : SyncWorker) : SyncStep → SyncWorker
  | .pass duration => { w with now := w.now + duration }
  | .checkHealth backendId => w.checkHealth backendId
  | .healthAnswered k healthy => w.healthAnswered k healthy
  | .described k found => w.described k found
  | .written k committed => w.written k committed
  | .done k => w.done k
  | .cancelDomainSyncs => w.cancelDomainSyncs

/-- Time does not go back. -/
def SyncStep.Forward : SyncStep → Prop
  | pass duration => 0 ≤ duration
  | _ => True

/-- A worker that just started. -/
def SyncWorker.new (now domainSyncSeconds healthCacheSeconds : ℚ) : SyncWorker where
  now := now
  domainSyncSeconds := domainSyncSeconds
  healthCacheSeconds := healthCacheSeconds

end Taas

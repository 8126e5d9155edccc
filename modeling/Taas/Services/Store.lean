import Taas.Infra.Counter
import Taas.Infra.SortedSet
import Taas.Schemas.Redis

/-!
# The Redis keys of taas and the commands on them

* `Redis` — the keys that `app/services/redis_jobs.py` names.
* One effect per command, e.g. `Redis.hset` for `HSET job:<id> …`.
* `JobView` — what the keys say about one job. Every command on a job changes the view of
  that job only (`views_hset` and its siblings).
-/

namespace Taas

open Infra

/-- A job id: a uuid, which the code only compares. -/
abbrev JobId := Nat

/-- A backend's id in the `backends` table. -/
abbrev BackendId := Nat

/-- A batch's uuid, as text. -/
abbrev BatchId := String

structure Redis where
  /-- `job:<id>` -/
  jobs : Finmap fun _ : JobId => JobHash := ∅
  /-- `jobs:pending:<priority>` -/
  pending : Int → SortedSet JobId := fun _ => ∅
  /-- `jobs:pending:levels` -/
  levels : Finset Int := ∅
  /-- `jobs:delayed` -/
  delayed : SortedSet JobId := ∅
  /-- `jobs:inflight` -/
  inflight : Finset JobId := ∅
  /-- `jobs:pending_harvest` -/
  pendingHarvest : SortedSet JobId := ∅
  /-- `load:queued` -/
  loadQueued : Counter String := ∅
  /-- `load:inflight` -/
  loadInflight : Counter String := ∅
  /-- `backend:<id>:inflight` -/
  backendInflight : Counter BackendId := ∅
  /-- `backend:<id>:batches` -/
  backendBatches : BackendId → Counter BatchId := fun _ => ∅
  /-- `batch:<id>` -/
  batches : Finmap fun _ : BatchId => BatchCounts := ∅
  /-- Tokens on `jobs:submit_wakeup`. -/
  submitWakeup : Nat := 0
  /-- Tokens on `jobs:poll_wakeup`. -/
  pollWakeup : Nat := 0

/-! ## What Redis says about one job -/

/-- One job's hash and its places in the queues. -/
@[ext] structure JobView where
  hash : Option JobHash
  pending : Int → Option ℚ
  delayed : Option ℚ
  inflight : Prop
  harvest : Option ℚ

namespace JobView

def hset (f : JobHash → JobHash) (v : JobView) : JobView :=
  { v with hash := some (f (v.hash.getD {})) }

def hmod (f : JobHash → JobHash) (v : JobView) : JobView :=
  { v with hash := v.hash.map f }

def expired (v : JobView) : JobView := { v with hash := none }

def zaddPending (priority : Int) (score : ℚ) (v : JobView) : JobView :=
  { v with pending := Function.update v.pending priority (some score) }

def zremPending (priority : Int) (v : JobView) : JobView :=
  { v with pending := Function.update v.pending priority none }

def zaddDelayed (score : ℚ) (v : JobView) : JobView := { v with delayed := some score }

def zremDelayed (v : JobView) : JobView := { v with delayed := none }

def zaddHarvest (score : ℚ) (v : JobView) : JobView := { v with harvest := some score }

def zremHarvest (v : JobView) : JobView := { v with harvest := none }

def saddInflight (v : JobView) : JobView := { v with inflight := True }

def sremInflight (v : JobView) : JobView := { v with inflight := False }

end JobView

namespace Redis

/-- What the keys say about job `j`. -/
def view (r : Redis) (j : JobId) : JobView where
  hash := r.jobs.lookup j
  pending := fun priority => (r.pending priority).lookup j
  delayed := r.delayed.lookup j
  inflight := j ∈ r.inflight
  harvest := r.pendingHarvest.lookup j

/-! ## Commands on one job -/

/-- `HSET job:<id>`; creates the hash when it is gone. -/
def hset (j : JobId) (f : JobHash → JobHash) (r : Redis) : Redis :=
  { r with jobs := r.jobs.insert j (f ((r.jobs.lookup j).getD {})) }

/-- `HDEL` and `EXPIRE`, which leave a missing hash missing. -/
def hmod (j : JobId) (f : JobHash → JobHash) (r : Redis) : Redis :=
  match r.jobs.lookup j with
  | none => r
  | some h => { r with jobs := r.jobs.insert j (f h) }

def expire (j : JobId) (ttl : Nat) : Redis → Redis := hmod j (JobHash.expiring ttl)

/-- The hash's time is up. -/
def expireNow (j : JobId) (r : Redis) : Redis := { r with jobs := r.jobs.erase j }

def zaddPending (priority : Int) (j : JobId) (score : ℚ) (r : Redis) : Redis :=
  { r with
    pending := Function.update r.pending priority ((r.pending priority).insert j score) }

def zremPending (priority : Int) (j : JobId) (r : Redis) : Redis :=
  { r with pending := Function.update r.pending priority ((r.pending priority).erase j) }

def zaddDelayed (j : JobId) (score : ℚ) (r : Redis) : Redis :=
  { r with delayed := r.delayed.insert j score }

def zremDelayed (j : JobId) (r : Redis) : Redis := { r with delayed := r.delayed.erase j }

def zaddHarvest (j : JobId) (score : ℚ) (r : Redis) : Redis :=
  { r with pendingHarvest := r.pendingHarvest.insert j score }

def zremHarvest (j : JobId) (r : Redis) : Redis :=
  { r with pendingHarvest := r.pendingHarvest.erase j }

def saddInflight (j : JobId) (r : Redis) : Redis := { r with inflight := insert j r.inflight }

def sremInflight (j : JobId) (r : Redis) : Redis := { r with inflight := r.inflight.erase j }

/-! ## Commands on the other keys -/

def saddLevel (priority : Int) (r : Redis) : Redis := { r with levels := insert priority r.levels }

def incrLoadQueued (field : String) (d : Int) (r : Redis) : Redis :=
  { r with loadQueued := r.loadQueued.incrBy field d }

def incrLoadInflight (field : String) (d : Int) (r : Redis) : Redis :=
  { r with loadInflight := r.loadInflight.incrBy field d }

def incrBackend (b : BackendId) (d : Int) (r : Redis) : Redis :=
  { r with backendInflight := r.backendInflight.incrBy b d }

def incrBatchPages (b : BackendId) (batch : BatchId) (d : Int) (r : Redis) : Redis :=
  { r with
    backendBatches := Function.update r.backendBatches b ((r.backendBatches b).incrBy batch d) }

def hdelBatchPages (b : BackendId) (batch : BatchId) (r : Redis) : Redis :=
  { r with
    backendBatches := Function.update r.backendBatches b ((r.backendBatches b).erase batch) }

def hsetBatch (batch : BatchId) (counts : BatchCounts) (r : Redis) : Redis :=
  { r with batches := r.batches.insert batch counts }

def rpushSubmit (r : Redis) : Redis := { r with submitWakeup := r.submitWakeup + 1 }

def rpushPoll (r : Redis) : Redis := { r with pollWakeup := r.pollWakeup + 1 }

/-! ## Each command seen from the jobs -/

variable (r : Redis) (j : JobId)

theorem view_hash (k : JobId) : (r.view k).hash = r.jobs.lookup k := rfl

theorem view_pending (k : JobId) (p : Int) :
    (r.view k).pending p = (r.pending p).lookup k := rfl

theorem view_delayed (k : JobId) : (r.view k).delayed = r.delayed.lookup k := rfl

theorem view_inflight (k : JobId) : (r.view k).inflight = (k ∈ r.inflight) := rfl

@[simp] theorem views_hset (f : JobHash → JobHash) :
    (r.hset j f).view = Function.update r.view j ((r.view j).hset f) := by
  funext k
  by_cases h : k = j
  · subst h
    ext <;> simp [view, hset, JobView.hset]
  · ext <;> simp [view, hset, h, Finmap.lookup_insert_of_ne _ h]

@[simp] theorem views_hmod (f : JobHash → JobHash) :
    (r.hmod j f).view = Function.update r.view j ((r.view j).hmod f) := by
  funext k
  unfold hmod
  cases hl : r.jobs.lookup j with
  | none =>
    by_cases h : k = j
    · subst h
      ext <;> simp [view, JobView.hmod, hl]
    · simp [h]
  | some h' =>
    by_cases h : k = j
    · subst h
      ext <;> simp [view, JobView.hmod, hl]
    · ext <;> simp [view, h, Finmap.lookup_insert_of_ne _ h]

@[simp] theorem views_expire (ttl : Nat) : (r.expire j ttl).view =
    Function.update r.view j ((r.view j).hmod (JobHash.expiring ttl)) :=
  views_hmod r j _

@[simp] theorem views_expireNow :
    (r.expireNow j).view = Function.update r.view j (r.view j).expired := by
  funext k
  by_cases h : k = j
  · subst h
    ext <;> simp [view, expireNow, JobView.expired]
  · ext <;> simp [view, expireNow, h, Finmap.lookup_erase_ne h]

@[simp] theorem views_zaddPending (p : Int) (score : ℚ) : (r.zaddPending p j score).view =
    Function.update r.view j ((r.view j).zaddPending p score) := by
  have key : ∀ k q, ((r.zaddPending p j score).pending q).lookup k =
      if k = j ∧ q = p then some score else (r.pending q).lookup k := by
    intro k q
    by_cases hq : q = p
    · subst hq
      by_cases h : k = j
      · subst h
        simp [zaddPending]
      · simp [zaddPending, h, Finmap.lookup_insert_of_ne _ h]
    · simp [zaddPending, hq]
  funext k
  by_cases h : k = j
  · subst h
    rw [Function.update_self]
    refine JobView.ext rfl (funext fun q => ?_) rfl rfl rfl
    simp [view_pending, key, JobView.zaddPending, Function.update_apply]
  · rw [Function.update_of_ne h]
    refine JobView.ext rfl (funext fun q => ?_) rfl rfl rfl
    simp [view_pending, key, h]

@[simp] theorem views_zremPending (p : Int) : (r.zremPending p j).view =
    Function.update r.view j ((r.view j).zremPending p) := by
  have key : ∀ k q, ((r.zremPending p j).pending q).lookup k =
      if k = j ∧ q = p then none else (r.pending q).lookup k := by
    intro k q
    by_cases hq : q = p
    · subst hq
      by_cases h : k = j
      · subst h
        simp [zremPending]
      · simp [zremPending, h, Finmap.lookup_erase_ne h]
    · simp [zremPending, hq]
  funext k
  by_cases h : k = j
  · subst h
    rw [Function.update_self]
    refine JobView.ext rfl (funext fun q => ?_) rfl rfl rfl
    simp [view_pending, key, JobView.zremPending, Function.update_apply]
  · rw [Function.update_of_ne h]
    refine JobView.ext rfl (funext fun q => ?_) rfl rfl rfl
    simp [view_pending, key, h]

@[simp] theorem views_zaddDelayed (score : ℚ) : (r.zaddDelayed j score).view =
    Function.update r.view j ((r.view j).zaddDelayed score) := by
  funext k
  by_cases h : k = j
  · subst h
    ext <;> simp [view, zaddDelayed, JobView.zaddDelayed]
  · ext <;> simp [view, zaddDelayed, h, Finmap.lookup_insert_of_ne _ h]

@[simp] theorem views_zremDelayed :
    (r.zremDelayed j).view = Function.update r.view j (r.view j).zremDelayed := by
  funext k
  by_cases h : k = j
  · subst h
    ext <;> simp [view, zremDelayed, JobView.zremDelayed]
  · ext <;> simp [view, zremDelayed, h, Finmap.lookup_erase_ne h]

@[simp] theorem views_zaddHarvest (score : ℚ) : (r.zaddHarvest j score).view =
    Function.update r.view j ((r.view j).zaddHarvest score) := by
  funext k
  by_cases h : k = j
  · subst h
    ext <;> simp [view, zaddHarvest, JobView.zaddHarvest]
  · ext <;> simp [view, zaddHarvest, h, Finmap.lookup_insert_of_ne _ h]

@[simp] theorem views_zremHarvest :
    (r.zremHarvest j).view = Function.update r.view j (r.view j).zremHarvest := by
  funext k
  by_cases h : k = j
  · subst h
    ext <;> simp [view, zremHarvest, JobView.zremHarvest]
  · ext <;> simp [view, zremHarvest, h, Finmap.lookup_erase_ne h]

@[simp] theorem views_saddInflight :
    (r.saddInflight j).view = Function.update r.view j (r.view j).saddInflight := by
  funext k
  by_cases h : k = j
  · subst h
    ext <;> simp [view, saddInflight, JobView.saddInflight]
  · ext <;> simp [view, saddInflight, h]

@[simp] theorem views_sremInflight :
    (r.sremInflight j).view = Function.update r.view j (r.view j).sremInflight := by
  funext k
  by_cases h : k = j
  · subst h
    ext <;> simp [view, sremInflight, JobView.sremInflight]
  · ext <;> simp [view, sremInflight, h]

variable (field : String) (b : BackendId) (batch : BatchId) (d : Int)

@[simp] theorem views_saddLevel (p : Int) : (r.saddLevel p).view = r.view := rfl

@[simp] theorem views_incrLoadQueued : (r.incrLoadQueued field d).view = r.view := rfl

@[simp] theorem views_incrLoadInflight : (r.incrLoadInflight field d).view = r.view := rfl

@[simp] theorem views_incrBackend : (r.incrBackend b d).view = r.view := rfl

@[simp] theorem views_incrBatchPages : (r.incrBatchPages b batch d).view = r.view := rfl

@[simp] theorem views_hdelBatchPages : (r.hdelBatchPages b batch).view = r.view := rfl

@[simp] theorem views_hsetBatch (counts : BatchCounts) :
    (r.hsetBatch batch counts).view = r.view := rfl

@[simp] theorem views_rpushSubmit : r.rpushSubmit.view = r.view := rfl

@[simp] theorem views_rpushPoll : r.rpushPoll.view = r.view := rfl

end Redis

end Taas

import Taas.Services.RedisJobs

/-!
# The commands behind the counters

The parts of the state functions that move counters and wake workers, command by command: what
holds of every command on a counter (`OfCounters`) holds of every command of these parts.
-/

namespace Taas

open Infra Infra.Prog

variable {C : (Redis → Redis) → (Redis → List Event) → Prop}

/-- `C` holds of the commands on counters and of those that wake a worker. -/
structure OfCounters (C : (Redis → Redis) → (Redis → List Event) → Prop) : Prop where
  loadQueued : ∀ field d, C (Redis.incrLoadQueued field d) fun _ => []
  loadInflight : ∀ field d, C (Redis.incrLoadInflight field d) fun _ => []
  /-- The `MULTI` of a requeue. -/
  loads : ∀ field, C (fun r => (r.incrLoadInflight field (-1)).incrLoadQueued field 1) fun _ => []
  backend : ∀ b d, C (Redis.incrBackend b d) fun _ => []
  batchPages : ∀ b batch d, C (Redis.incrBatchPages b batch d) fun _ => []
  dropBatch : ∀ b batch, C (Redis.hdelBatchPages b batch) fun _ => []
  wakeSubmit : C Redis.rpushSubmit fun _ => []

namespace OfCounters

variable (h : OfCounters C)
include h

theorem signalSubmit : Each C signalSubmit := each_call h.wakeSubmit

/-- A backend's counter of a batch is lowered, and dropped at zero. -/
theorem releaseBatch (b : BackendId) (state : Option JobState) : Each C (releaseBatch b state) := by
  unfold Taas.releaseBatch
  split
  · exact each_pure _
  · exact Each.bind (each_call (h.batchPages ..)) fun left => (each_call (h.dropBatch ..)).when

/-- A slot that is given up, with the wakeup of the submit workers. -/
theorem slot (b : Option BackendId) (state : Option JobState) :
    Each C (match b with
      | none => (pure () : RedisProg Unit)
      | some backendId => do
        act (Redis.incrBackend backendId (-1))
        Taas.signalSubmit
        Taas.releaseBatch backendId state) := by
  split
  · exact each_pure _
  · exact Each.bind (each_call (h.backend ..)) fun _ =>
      h.signalSubmit.bind fun _ => h.releaseBatch _ _

/-- What `set_done` does to the counters when it took the job out of a set. -/
theorem settleDone (removed harvestRemoved : Bool) (state : Option JobState) :
    Each C (settleDone removed harvestRemoved state) := by
  unfold Taas.settleDone releaseDoneSlot
  split
  · cases state with
    | none => exact (each_pure ()).bind fun _ => h.slot none none
    | some state =>
      refine Each.bind (each_call (h.loadInflight ..)) fun _ => ?_
      exact h.slot (truthy state.backendId) (some state)
  · exact h.signalSubmit.when

theorem releaseSlot (removed : Bool) (state : Option JobState) :
    Each C (releaseSlot removed state) := by
  unfold Taas.releaseSlot
  split
  · exact each_pure _
  · exact (Each.bind (each_call (h.backend ..)) fun _ => h.releaseBatch _ _).when

/-- A failed job leaves the load of the queue or that of the backends. -/
theorem countFailed (removed : Bool) (state : Option JobState) :
    Each C (countFailed removed state) := by
  unfold Taas.countFailed
  split
  · exact each_pure _
  · split
    · exact each_call (h.loadInflight ..)
    · exact (each_call (h.loadQueued ..)).when

/-- A requeued job goes from the one load to the other. -/
theorem countRequeued (removed : Bool) (state : Option JobState) :
    Each C (countRequeued removed state) := by
  unfold Taas.countRequeued
  split
  · exact each_pure _
  · exact (each_call (h.loads _)).when

end OfCounters

/-! ## All commands on jobs -/

theorem Redis.exists_hmod (r : Redis) (j : JobId) (f : JobHash → JobHash) :
    ∃ jobs, r.hmod j f = { r with jobs := jobs } := by
  unfold Redis.hmod
  split
  · exact ⟨r.jobs, rfl⟩
  · exact ⟨_, rfl⟩

/-- The writes of `set_failed` are to the job's hash and to the harvest queue. -/
theorem Redis.exists_markFailed (r : Redis) (now : ℚ) (j : JobId) (error : String)
    (stateTtl : Nat) : ∃ jobs, r.markFailed now j error stateTtl =
      { r with jobs := jobs, pendingHarvest := r.pendingHarvest.erase j } := by
  obtain ⟨jobs, h⟩ := (r.hset j (JobHash.failed now error)).exists_hmod j
    (JobHash.expiring stateTtl)
  obtain ⟨jobs', h'⟩ := ((r.hset j (JobHash.failed now error)).hmod j
    (JobHash.expiring stateTtl)).zremHarvest j |>.exists_hmod j JobHash.clearHarvest
  refine ⟨jobs', ?_⟩
  rw [Redis.markFailed, Redis.expire, h', h]
  rfl

/-- `C` holds of every command of the state functions, but for those that put a job into the
in-flight set or keep it in the harvest queue. -/
structure OfCommands (C : (Redis → Redis) → (Redis → List Event) → Prop) : Prop
    extends OfCounters C where
  query : C id fun _ => []
  hset : ∀ j f, C (Redis.hset j f) fun _ => []
  hmod : ∀ j f, C (Redis.hmod j f) fun _ => []
  put : ∀ p j score, C (Redis.zaddPending p j score) fun _ => [.put j]
  drop : ∀ p j, C (Redis.zremPending p j) fun _ => []
  claim : ∀ now entry, C (Redis.claim now entry) fun r =>
    if r.claimable entry then [.claimed entry.jobId] else []
  level : ∀ p, C (Redis.saddLevel p) fun _ => []
  delay : ∀ j score, C (Redis.zaddDelayed j score) fun _ => []
  promote : ∀ j, C (Redis.zremDelayed j) fun _ => []
  leaveInflight : ∀ j, C (Redis.sremInflight j) fun _ => []
  leaveHarvest : ∀ j, C (Redis.zremHarvest j) fun _ => []
  release : ∀ now j state run, C (Redis.releaseDone now j state run) fun _ => []
  markFailed : ∀ now j error stateTtl, C (Redis.markFailed now j error stateTtl) fun _ => []
  countPage : ∀ batchId status,
    C (fun r => r.hsetBatch batchId (r.countedBatch batchId status)) fun _ => []
  publish : ∀ username message, C id fun _ => [.published username message]

namespace OfCommands

variable (h : OfCommands C)
include h

theorem getJob (j : JobId) : Each C (getJob j) := each_call h.query

theorem getJobs (jobIds : List JobId) : Each C (getJobs jobIds) := by
  induction jobIds with
  | nil => exact each_pure _
  | cons jobId jobIds ih => exact (h.getJob jobId).bind fun _ => ih.bind fun _ => each_pure _

theorem signalSubmit : Each C Taas.signalSubmit := h.toOfCounters.signalSubmit

/-- The `ZADD`, the level's mark and the wakeup. -/
theorem addPending (p : Int) (j : JobId) (score : ℚ) : Each C (addPending p j score) :=
  Each.bind (each_callLog (h.put p j score)) fun _ => Each.bind (each_call (h.level p)) fun _ =>
    h.signalSubmit

theorem scheduleRetry (now : ℚ) (j : JobId) (score delayS : ℚ) (avoid : Option BackendId) :
    Each C (scheduleRetry now j score delayS avoid) := by
  refine Each.bind (each_call (h.hset ..)) fun _ => Each.bind ?_ fun _ => each_call (h.delay ..)
  cases avoid with
  | none => exact each_pure _
  | some b => exact Each.bind (each_call h.query) fun _ => each_call (h.hset ..)

theorem countRequeue (j : JobId) : Each C (countRequeue j) := each_call (h.hset ..)

theorem requeueJob (j : JobId) (score : ℚ) : Each C (requeueJob j score) :=
  (h.getJob j).bind fun _ => h.addPending _ _ _

theorem promoteMember (time : ℚ) (j : JobId) : Each C (promoteMember time j) := by
  refine Each.bind (each_call (h.promote j)) fun removed => ?_
  split
  · refine (h.getJob j).bind fun state => ?_
    cases state with
    | none => exact each_pure _
    | some state => exact (h.addPending _ _ _).bind fun _ => each_pure _
  · exact each_pure _

/-- Every promotion, member by member. -/
theorem promoteDueRetries (now time : ℚ) : Each C (promoteDueRetries now time) := by
  refine Each.bind (each_call h.query) fun members => ?_
  induction members with
  | nil => exact each_pure _
  | cons jobId members ih =>
    exact (h.promoteMember time jobId).bind fun _ => ih.bind fun _ => each_pure _

/-- Each claim is a script of its own. -/
theorem claimPending (now : ℚ) (entries : List QueueEntry) : Each C (claimPending now entries) := by
  induction entries with
  | nil => exact each_pure _
  | cons entry entries ih =>
    exact Each.bind (each_callLog (h.claim now entry)) fun _ => ih.bind fun _ => each_pure _

theorem dropPending (entries : List QueueEntry) : Each C (dropPending entries) := by
  induction entries with
  | nil => exact each_pure _
  | cons entry entries ih => exact Each.bind (each_call (h.drop ..)) fun _ => ih

theorem peekLevels (count : Nat) (prios : List Int) (results : List QueueEntry) :
    Each C (peekLevels count prios results) := by
  induction prios generalizing results with
  | nil => exact each_pure _
  | cons prio prios ih =>
    unfold Taas.peekLevels
    split
    · exact each_pure _
    · exact Each.bind (each_call h.query) fun _ => ih _

theorem peekPending (count : Nat) : Each C (peekPending count) :=
  Each.bind (each_call h.query) fun _ => h.peekLevels _ _ _

theorem publishEvent (username : String) (message : Message) :
    Each C (publishEvent username message) := each_callLog (h.publish username message)

theorem countBatchPage (state : Option JobState) (status : JobStatus) :
    Each C (countBatchPage state status) := by
  unfold Taas.countBatchPage
  split
  · exact each_pure _
  · split
    · exact each_pure _
    · split
      · exact each_pure _
      · exact (each_call (h.countPage ..)).map _

/-- All of `set_failed`, with the page that it counts and the slot that it frees. -/
theorem setFailed (now : ℚ) (j : JobId) (error : String) (stateTtl : Nat) :
    Each C (setFailed now j error stateTtl) :=
  (h.getJob j).bind fun state => (h.countBatchPage _ _).bind fun _ =>
    Each.bind (each_call (h.markFailed ..)) fun _ =>
      Each.bind (each_call (h.leaveInflight j)) fun removed =>
        (h.toOfCounters.countFailed removed state).bind fun _ => h.signalSubmit.when.bind fun _ =>
          (h.toOfCounters.releaseSlot removed state).bind fun _ =>
            h.signalSubmit.when.bind fun _ => each_pure _

/-- All of `set_done`, whether or not the poller has the job's state. -/
theorem setDone (now : ℚ) (j : JobId) (stateTtl : Nat) (state : Option JobState) :
    Each C (setDone now j stateTtl state) := by
  have hstate : Each C (doneState j state) := by
    unfold doneState
    split
    · exact h.getJob j
    · exact each_pure _
  exact hstate.bind fun _ => (h.countBatchPage _ _).bind fun _ =>
    Each.bind (each_call (h.hset ..)) fun _ => Each.bind (each_call (h.hmod ..)) fun _ =>
      Each.bind (each_call (h.leaveInflight j)) fun _ =>
        Each.bind (each_call (h.leaveHarvest j)) fun _ =>
          Each.bind (each_call (h.hmod ..)) fun _ =>
            (h.toOfCounters.settleDone _ _ _).bind fun _ => each_pure _

/-- The script of `release_done` and the wakeup after it. -/
theorem releaseDone (now : ℚ) (j : JobId) (state : JobState) (engineRun : EngineRun) :
    Each C (releaseDone now j state engineRun) :=
  Each.bind (each_call (h.release ..)) fun _ => h.signalSubmit.when.bind fun _ => each_pure _

/-- The first part of `release_and_requeue`, up to the slot. -/
theorem giveUpSlot (j : JobId) : Each C (giveUpSlot j) :=
  (h.getJob j).bind fun state => Each.bind (each_call (h.leaveInflight j)) fun removed =>
    (h.toOfCounters.countRequeued removed state).bind fun _ =>
      (h.toOfCounters.releaseSlot removed state).bind fun _ => each_pure _

/-- All of `release_and_requeue`, to the queue or to the delayed set. -/
theorem releaseAndRequeue (now : ℚ) (j : JobId) (score : ℚ) (stateTtl : Nat) (delayS : ℚ)
    (avoid : Option BackendId) :
    Each C (releaseAndRequeue now j score stateTtl delayS avoid) := by
  refine (h.giveUpSlot j).bind fun state => Each.bind (each_call (h.hset ..)) fun _ =>
    Each.bind (each_call (h.hmod ..)) fun _ => Each.bind (each_call (h.leaveHarvest j)) fun _ =>
      Each.bind (each_call (h.hmod ..)) fun _ => ?_
  unfold requeueReleased
  split
  · exact h.scheduleRetry _ _ _ _ _
  · exact h.addPending _ _ _

end OfCommands

/-! ## Commands that touch no hash -/

/-- The command leaves the jobs' hashes as they are. -/
def Hashless (effect : Redis → Redis) (_ : Redis → List Event) : Prop :=
  ∀ r, (effect r).jobs = r.jobs

/-- The counters are no part of a job's hash. -/
theorem hashless_counters : OfCounters Hashless where
  loadQueued _ _ _ := rfl
  loadInflight _ _ _ := rfl
  loads _ _ := rfl
  backend _ _ _ := rfl
  batchPages _ _ _ _ := rfl
  dropBatch _ _ _ := rfl
  wakeSubmit _ := rfl

theorem hashless_call {α : Type} {reply : Redis → α} {effect : Redis → Redis}
    (h : ∀ r, (effect r).jobs = r.jobs) : Each Hashless (call reply effect) := each_call h

theorem hashless_getJob (j : JobId) : Each Hashless (getJob j) := hashless_call fun _ => rfl

theorem hashless_addPending (p : Int) (j : JobId) (score : ℚ) :
    Each Hashless (addPending p j score) :=
  Each.bind (each_callLog fun _ => rfl) fun _ => Each.bind (hashless_call fun _ => rfl) fun _ =>
    hashless_counters.signalSubmit

theorem hashless_requeueJob (j : JobId) (score : ℚ) : Each Hashless (requeueJob j score) :=
  (hashless_getJob j).bind fun _ => hashless_addPending _ _ _

theorem hashless_promoteDueRetries (now time : ℚ) : Each Hashless (promoteDueRetries now time) := by
  refine Each.bind (hashless_call fun _ => rfl) fun members => ?_
  induction members with
  | nil => exact each_pure _
  | cons jobId members ih =>
    refine Each.bind ?_ fun _ => ih.bind fun _ => each_pure _
    refine Each.bind (hashless_call fun _ => rfl) fun removed => ?_
    split
    · refine (hashless_getJob jobId).bind fun state => ?_
      cases state with
      | none => exact each_pure _
      | some state => exact (hashless_addPending _ _ _).bind fun _ => each_pure _
    · exact each_pure _

theorem hashless_dropPending (entries : List QueueEntry) : Each Hashless (dropPending entries) := by
  induction entries with
  | nil => exact each_pure _
  | cons entry entries ih => exact Each.bind (hashless_call fun _ => rfl) fun _ => ih

/-- The orphan script only reads hashes. -/
theorem Redis.jobs_requeueOrphan (now claimGraceS : ℚ) (j : JobId) (r : Redis) :
    (r.requeueOrphan now claimGraceS j).jobs = r.jobs := by
  unfold requeueOrphan
  split
  · rfl
  · split <;> rfl

theorem hashless_requeueOrphans (jobIds : List JobId) (now claimGraceS : ℚ) :
    Each Hashless (requeueOrphans jobIds now claimGraceS) := by
  refine Each.bind ?_ fun _ => hashless_counters.signalSubmit.when.bind fun _ => each_pure _
  induction jobIds with
  | nil => exact each_pure _
  | cons jobId jobIds ih =>
    exact Each.bind (each_callLog (Redis.jobs_requeueOrphan now claimGraceS jobId)) fun _ =>
      ih.bind fun _ => each_pure _

theorem hashless_countBatchPage (state : Option JobState) (status : JobStatus) :
    Each Hashless (countBatchPage state status) := by
  unfold countBatchPage
  split
  · exact each_pure _
  · split
    · exact each_pure _
    · split
      · exact each_pure _
      · exact (hashless_call fun _ => rfl).map _

/-- The slot is given up before the hash is written. -/
theorem hashless_giveUpSlot (j : JobId) : Each Hashless (giveUpSlot j) :=
  (hashless_getJob j).bind fun state => Each.bind (hashless_call fun _ => rfl) fun removed =>
    (hashless_counters.countRequeued removed state).bind fun _ =>
      (hashless_counters.releaseSlot removed state).bind fun _ => each_pure _

theorem Redis.jobs_countRunning (backendId : BackendId) (state : Option JobState) (r : Redis) :
    (r.countRunning backendId state).jobs = r.jobs := by
  unfold countRunning
  split
  · rfl
  · dsimp only
    split <;> rfl

theorem hashless_enteredInflight (j : JobId) (backendId : BackendId) :
    Each Hashless (enteredInflight j backendId) :=
  (hashless_getJob j).bind fun state => hashless_call (Redis.jobs_countRunning backendId state)

theorem hashless_doneState (j : JobId) (state : Option JobState) :
    Each Hashless (doneState j state) := by
  unfold doneState
  split
  · exact hashless_getJob j
  · exact each_pure _

/-- What `release_done` counts is in no hash. -/
theorem Redis.jobs_countReleased (state : JobState) (r : Redis) :
    (r.countReleased state).jobs = r.jobs := by
  unfold countReleased
  cases state.backendId with
  | none => rfl
  | some backendId =>
    dsimp only
    split
    · rfl
    · split <;> rfl

end Taas

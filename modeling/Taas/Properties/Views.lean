import Taas.Services.RedisJobs

/-!
# What a state function does to one job

A state function about job `j` changes the view of `j` only, and what it makes of it
depends on that view only. The functions on `JobView` here are these changes; for every
state function `f` there is a theorem `views_f` that says `f` makes exactly that change,
and for those of several commands a theorem `throughout_f` about every command boundary.

The load, slot and batch counters are not part of a job's view
(`Taas/Properties/Counters.lean` follows them).
-/

namespace Taas

open Infra Infra.Prog

namespace JobView

def state (v : JobView) : Option JobState := v.hash.bind JobState.fromHash

/-- The level the functions requeue a job at. -/
def level (v : JobView) : Int := (v.state.map fun s => s.priority).getD 0

/-- `HSET` and `EXPIRE`. -/
def stored (f : JobHash → JobHash) (stateTtl : Nat) (v : JobView) : JobView :=
  (v.hset f).hmod (JobHash.expiring stateTtl)

def enqueued (stateTtl : Nat) (state : JobState) (v : JobView) : JobView :=
  (v.stored state.toHash.overlay stateTtl).zaddPending state.priority state.submittedAt

/-- The hash after `schedule_retry`. -/
def avoiding (score : ℚ) (avoid : Option BackendId) (v : JobView) : JobView :=
  match avoid with
  | none => v.hset (JobHash.scored score)
  | some b => (v.hset (JobHash.scored score)).hset fun h =>
    h.avoiding (insert b (h.avoidBackends.getD ∅))

def delay (now score delayS : ℚ) (avoid : Option BackendId) (v : JobView) : JobView :=
  (v.avoiding score avoid).zaddDelayed (now + delayS)

def promote (time : ℚ) (v : JobView) : JobView :=
  match v.delayed with
  | none => v
  | some _ =>
    match v.state with
    | none => v.zremDelayed
    | some s => v.zremDelayed.zaddPending s.priority (s.queueScore.getD time)

def claim (now : ℚ) (priority : Int) (v : JobView) : JobView :=
  if v.pending priority = none then v
  else (v.zremPending priority).hmod (JobHash.claimed now)

/-- The checks of the orphan script. -/
def Orphaned (now grace : ℚ) (h : JobHash) (v : JobView) : Prop :=
  v.hash = some h ∧ h.status = some .queued ∧ v.delayed = none ∧
    (∀ c, h.claimedAt = some c → grace ≤ now - c) ∧ v.pending (h.priority.getD 0) = none

def run (settings : Settings) (now : ℚ) (engineJobId backendUrl : String) (b : BackendId)
    (stateTtl : Nat) (v : JobView) : JobView :=
  (v.stored (JobHash.running now settings engineJobId backendUrl b) stateTtl).saddInflight

def release (now : ℚ) (engineRun : EngineRun) (v : JobView) : JobView :=
  (v.sremInflight.zaddHarvest now).hmod (JobHash.storing engineRun)

def reharvest (now delayS : ℚ) (v : JobView) : JobView :=
  (v.hset JobHash.attempted).zaddHarvest (now + delayS)

def markFailed (now : ℚ) (error : String) (stateTtl : Nat) (v : JobView) : JobView :=
  (v.stored (JobHash.failed now error) stateTtl).zremHarvest.hmod JobHash.clearHarvest

def markDone (now : ℚ) (stateTtl : Nat) (v : JobView) : JobView :=
  v.stored (JobHash.finished now) stateTtl

def finishDone (now : ℚ) (stateTtl : Nat) (v : JobView) : JobView :=
  (v.markDone now stateTtl).sremInflight.zremHarvest.hmod JobHash.clearHarvest

/-- The job without its engine slot, and queued. -/
def backToQueued (v : JobView) : JobView := v.sremInflight.hset JobHash.queued

/-- The job without what its dispatch recorded. -/
def cleared (stateTtl : Nat) (v : JobView) : JobView :=
  (v.hmod JobHash.clearDispatch).zremHarvest.hmod (JobHash.expiring stateTtl)

/-- The last step of `release_and_requeue`. -/
def requeued (now score delayS : ℚ) (avoid : Option BackendId) (priority : Int)
    (v : JobView) : JobView :=
  if 0 < delayS then v.delay now score delayS avoid else v.zaddPending priority score

end JobView

/-- The state that `get_job` reads is the view's. -/
theorem Redis.state_eq (r : Redis) (j : JobId) : r.state j = (r.view j).state := rfl

/-- `P` holds of the jobs' views at every command boundary. -/
def Throughout {α : Type} (P : (JobId → JobView) → Prop) (p : RedisProg α) (r : Redis) : Prop :=
  always (fun r' => P r'.view) p r

/-- `p` never changes what Redis says about a job. -/
def Quiet {α : Type} (p : RedisProg α) (r : Redis) : Prop :=
  always (fun r' => r'.view = r.view) p r

section

variable {α β : Type} {P : (JobId → JobView) → Prop} {p : RedisProg α} {r : Redis}

theorem Quiet.view (h : Quiet p r) : (run p r).2.view = r.view := always_end h

/-- Where nothing changes, what held at the start holds throughout. -/
theorem Quiet.throughout (h : Quiet p r) (hP : P r.view) : Throughout P p r :=
  always_mono (fun _ he => he ▸ hP) h

theorem Quiet.bind {f : α → RedisProg β} (hp : Quiet p r)
    (hf : Quiet (f (run p r).1) (run p r).2) : Quiet (p >>= f) r :=
  always_bind.mpr ⟨hp, always_mono (fun _ he => he.trans hp.view) hf⟩

theorem Quiet.when {c : Bool} {p : RedisProg Unit} (h : Quiet p r) : Quiet (when c p) r := by
  unfold Prog.when
  split
  · exact h
  · exact rfl

/-- The boundaries of a sequence are those of its parts. -/
theorem throughout_bind {f : α → RedisProg β} : Throughout P (p >>= f) r ↔
    Throughout P p r ∧ Throughout P (f (run p r).1) (run p r).2 := always_bind

/-- The end is a boundary. -/
theorem Throughout.whole (h : Throughout P p r) : P (run p r).2.view :=
  always_end (P := fun r' : Redis => P r'.view) h

theorem Throughout.start (h : Throughout P p r) : P r.view :=
  always_start (P := fun r' : Redis => P r'.view) h

/-- A quiet part may be left out. -/
theorem Quiet.throughout_bind {f : α → RedisProg β} (hp : Quiet p r)
    (hf : ∀ a r', r'.view = r.view → Throughout P (f a) r') : Throughout P (p >>= f) r := by
  have h := hf (run p r).1 (run p r).2 hp.view
  exact Taas.throughout_bind.mpr ⟨hp.throughout (hp.view ▸ h.start), h⟩

end

/-! ## The parts that only move counters -/

variable (r : Redis) (j : JobId)

theorem quiet_pure {α : Type} (a : α) : Quiet (pure a) r := rfl

theorem quiet_act {f : Redis → Redis} (h : (f r).view = r.view) : Quiet (act f) r := ⟨rfl, h⟩

theorem quiet_signalSubmit : Quiet signalSubmit r := quiet_act r rfl

theorem quiet_signalPoll : Quiet signalPoll r := quiet_act r rfl

theorem quiet_getJob : Quiet (getJob j) r := ⟨rfl, rfl⟩

theorem views_countRunning (b : BackendId) (state : Option JobState) :
    (r.countRunning b state).view = r.view := by
  unfold Redis.countRunning
  split
  · rfl
  · dsimp only
    split <;> rfl

theorem quiet_enteredInflight (b : BackendId) : Quiet (enteredInflight j b) r :=
  (quiet_getJob r j).bind (quiet_act r (views_countRunning r b _))

/-- The counter of a batch is no part of a view. -/
theorem quiet_releaseBatch (b : BackendId) (state : Option JobState) :
    Quiet (releaseBatch b state) r := by
  unfold releaseBatch
  split
  · exact quiet_pure r _
  · exact Quiet.bind (p := call _ _) ⟨rfl, rfl⟩ (Quiet.when (quiet_act _ rfl))

/-- Neither is the batch's own hash. -/
theorem quiet_countBatchPage (state : Option JobState) (status : JobStatus) :
    Quiet (countBatchPage state status) r := by
  unfold countBatchPage
  split
  · exact quiet_pure r _
  · split
    · exact quiet_pure r _
    · split
      · exact quiet_pure r _
      · exact ⟨rfl, rfl⟩

/-- What `release_done` counts. -/
theorem views_countReleased (state : JobState) : (r.countReleased state).view = r.view := by
  unfold Redis.countReleased
  split
  · rfl
  · split
    · rfl
    · dsimp only
      split <;> rfl

theorem quiet_releaseDoneSlot (state : Option JobState) : Quiet (releaseDoneSlot state) r := by
  have hsecond : ∀ r, Quiet (match truthy (state.bind fun s => s.backendId) with
      | none => (pure () : RedisProg Unit)
      | some backendId => do
        act (Redis.incrBackend backendId (-1))
        signalSubmit
        releaseBatch backendId state) r := by
    intro r
    split
    · exact quiet_pure r _
    · exact (quiet_act r rfl).bind ((quiet_signalSubmit _).bind (quiet_releaseBatch _ _ _))
  unfold releaseDoneSlot
  cases state with
  | none => exact (quiet_pure r ()).bind (hsecond _)
  | some state => exact (quiet_act r rfl).bind (hsecond _)

/-- What `set_done` does after it has let go of the job. -/
theorem quiet_settleDone (removed harvestRemoved : Bool) (state : Option JobState) :
    Quiet (settleDone removed harvestRemoved state) r := by
  unfold settleDone
  split
  · exact quiet_releaseDoneSlot r state
  · exact (quiet_signalSubmit r).when

theorem quiet_countFailed (removed : Bool) (state : Option JobState) :
    Quiet (countFailed removed state) r := by
  unfold countFailed
  split
  · exact quiet_pure r _
  · split
    · exact quiet_act r rfl
    · exact (quiet_act r rfl).when

/-- A slot is a counter of its backend. -/
theorem quiet_releaseSlot (removed : Bool) (state : Option JobState) :
    Quiet (releaseSlot removed state) r := by
  unfold releaseSlot
  split
  · exact quiet_pure r _
  · exact ((quiet_act r rfl).bind (quiet_releaseBatch _ _ _)).when

theorem quiet_countRequeued (removed : Bool) (state : Option JobState) :
    Quiet (countRequeued removed state) r := by
  unfold countRequeued
  split
  · exact quiet_pure r _
  · exact (quiet_act r rfl).when

/-! ## The state functions -/

section

variable {P : (JobId → JobView) → Prop} {r : Redis}

theorem throughout_act {f : Redis → Redis} :
    Throughout P (act f) r ↔ P r.view ∧ P (f r).view := Iff.rfl

theorem throughout_call {α : Type} {reply : Redis → α} {f : Redis → Redis} :
    Throughout P (call reply f) r ↔ P r.view ∧ P (f r).view := Iff.rfl

theorem throughout_callLog {α : Type} {log : Redis → List Event} {reply : Redis → α}
    {f : Redis → Redis} : Throughout P (callLog log reply f) r ↔ P r.view ∧ P (f r).view :=
  Iff.rfl

theorem throughout_query {α : Type} {reply : Redis → α} :
    Throughout P (query reply) r ↔ P r.view := and_self_iff

theorem throughout_pure {α : Type} {a : α} : Throughout P (pure a) r ↔ P r.view := Iff.rfl

end

/-- The mark of the level and the wakeup are not part of a view. -/
theorem views_addPending (priority : Int) (score : ℚ) :
    (run (addPending priority j score) r).2.view =
      Function.update r.view j ((r.view j).zaddPending priority score) :=
  Redis.views_zaddPending r j priority score

theorem throughout_addPending {P : (JobId → JobView) → Prop} {priority : Int} {score : ℚ}
    (h0 : P r.view)
    (h1 : P (Function.update r.view j ((r.view j).zaddPending priority score))) :
    Throughout P (addPending priority j score) r := by
  rw [← Redis.views_zaddPending] at h1
  exact ⟨h0, h1, h1, h1⟩

/-- `schedule_retry` reads the set it adds to. -/
theorem views_avoidBackend (avoid : Option BackendId) (score : ℚ) :
    (run (avoidBackend j avoid) (r.hset j (JobHash.scored score))).2.view =
      Function.update r.view j ((r.view j).avoiding score avoid) := by
  cases avoid with
  | none => exact Redis.views_hset r j _
  | some b =>
    simp only [avoidBackend, run_bind, run_act, run_query, Redis.views_hset,
      Function.update_self, Function.update_idem, ← Redis.view_hash]
    rfl

/-- A retry writes the score and what to avoid before it delays the job. -/
theorem views_scheduleRetry (now score delayS : ℚ) (avoid : Option BackendId) :
    (run (scheduleRetry now j score delayS avoid) r).2.view =
      Function.update r.view j ((r.view j).delay now score delayS avoid) := by
  simp only [scheduleRetry, run_bind, run_act, Redis.views_zaddDelayed, views_avoidBackend,
    Function.update_self, Function.update_idem]
  rfl

/-- `schedule_retry`, command by command. -/
theorem throughout_scheduleRetry {P : (JobId → JobView) → Prop} {now score delayS : ℚ}
    {avoid : Option BackendId} (h0 : P r.view)
    (h1 : ∀ a, P (Function.update r.view j ((r.view j).avoiding score a)))
    (h2 : P (Function.update r.view j ((r.view j).delay now score delayS avoid))) :
    Throughout P (scheduleRetry now j score delayS avoid) r := by
  have hscored : P (r.hset j (JobHash.scored score)).view := by
    rw [Redis.views_hset]
    exact h1 none
  have havoid : Throughout P (avoidBackend j avoid)
      (r.hset j (JobHash.scored score)) := by
    cases avoid with
    | none => exact hscored
    | some b =>
      refine throughout_bind.mpr ⟨throughout_query.mpr hscored, throughout_act.mpr ⟨hscored, ?_⟩⟩
      have hb := h1 (some b)
      rw [← views_avoidBackend] at hb
      exact hb
  refine throughout_bind.mpr ⟨⟨h0, hscored⟩, throughout_bind.mpr ⟨havoid, ?_⟩⟩
  refine throughout_act.mpr ⟨havoid.whole, ?_⟩
  simp only [run_act, Redis.views_zaddDelayed, views_avoidBackend, Function.update_self,
    Function.update_idem]
  exact h2

/-- A requeued job goes to the level of its own priority. -/
theorem views_requeueJob (score : ℚ) :
    (run (requeueJob j score) r).2.view =
      Function.update r.view j ((r.view j).zaddPending (r.view j).level score) :=
  views_addPending r j _ score

theorem throughout_requeueJob {P : (JobId → JobView) → Prop} {score : ℚ} (h0 : P r.view)
    (h1 : P (Function.update r.view j ((r.view j).zaddPending (r.view j).level score))) :
    Throughout P (requeueJob j score) r :=
  throughout_bind.mpr ⟨throughout_query.mpr h0, throughout_addPending r j h0 h1⟩

theorem views_requeueReleased (now score delayS : ℚ) (avoid : Option BackendId)
    (state : Option JobState) :
    (run (requeueReleased now j score delayS avoid state) r).2.view = Function.update r.view j
      ((r.view j).requeued now score delayS avoid ((state.map fun s => s.priority).getD 0)) := by
  unfold requeueReleased JobView.requeued
  split
  · exact views_scheduleRetry r j now score delayS avoid
  · exact views_addPending r j _ score

/-- The end of `release_and_requeue`, command by command. -/
theorem throughout_requeueReleased {P : (JobId → JobView) → Prop} {now score delayS : ℚ}
    {avoid : Option BackendId} {state : Option JobState} (h0 : P r.view)
    (h1 : ∀ a, P (Function.update r.view j ((r.view j).avoiding score a)))
    (h2 : P (Function.update r.view j
      ((r.view j).requeued now score delayS avoid ((state.map fun s => s.priority).getD 0)))) :
    Throughout P (requeueReleased now j score delayS avoid state) r := by
  unfold requeueReleased
  unfold JobView.requeued at h2
  split
  · next h =>
    rw [if_pos h] at h2
    exact throughout_scheduleRetry r j h0 h1 h2
  · next h =>
    rw [if_neg h] at h2
    exact throughout_addPending r j h0 h2

theorem state_zremDelayed : (r.zremDelayed j).state j = (r.view j).state := rfl

theorem zremDelayed_of_none (h : (r.view j).delayed = none) :
    (r.zremDelayed j).view = r.view := by
  rw [Redis.views_zremDelayed, Function.update_eq_self_iff]
  exact JobView.ext rfl rfl h.symm rfl rfl

/-- A promotion removes the job first, and reads its hash after that. -/
theorem views_promoteMember (time : ℚ) :
    (run (promoteMember time j) r).2.view =
      Function.update r.view j ((r.view j).promote time) := by
  unfold promoteMember JobView.promote
  rw [run_bind, run_call]
  dsimp only
  rw [← Redis.view_delayed]
  cases hd : (r.view j).delayed with
  | none => simp [zremDelayed_of_none r j hd]
  | some s =>
    dsimp only
    rw [Option.isSome_some, if_pos rfl, getJob, run_bind, run_query, state_zremDelayed]
    cases (r.view j).state with
    | none => simp
    | some state => simp [views_addPending]

/-- Between the `ZREM` and the `ZADD` of a promotion the job is in no queue. -/
theorem throughout_promoteMember {P : (JobId → JobView) → Prop} {time : ℚ} (h0 : P r.view)
    (h1 : P (Function.update r.view j (r.view j).zremDelayed))
    (h2 : P (Function.update r.view j ((r.view j).promote time))) :
    Throughout P (promoteMember time j) r := by
  have hgone : P (r.zremDelayed j).view := by
    rw [Redis.views_zremDelayed]
    exact h1
  unfold promoteMember
  refine throughout_bind.mpr ⟨throughout_call.mpr ⟨h0, hgone⟩, ?_⟩
  rw [run_call]
  dsimp only
  unfold JobView.promote at h2
  rw [← Redis.view_delayed]
  cases hd : (r.view j).delayed with
  | none => exact throughout_pure.mpr hgone
  | some s =>
    rw [hd] at h2
    dsimp only at h2 ⊢
    rw [Option.isSome_some, if_pos rfl]
    refine throughout_bind.mpr ⟨throughout_query.mpr hgone, ?_⟩
    rw [getJob, run_query, state_zremDelayed]
    dsimp only
    cases hs : (r.view j).state with
    | none => exact throughout_pure.mpr hgone
    | some state =>
      rw [hs] at h2
      refine throughout_bind.mpr ⟨throughout_addPending _ j hgone ?_, ?_⟩
      · simpa using h2
      · refine throughout_pure.mpr ?_
        rw [views_addPending]
        simpa using h2

/-- All that an enqueue does for a job is in one `MULTI`. -/
theorem views_enqueue (stateTtl : Nat) (state : JobState) :
    (r.enqueue stateTtl (j, state)).view =
      Function.update r.view j ((r.view j).enqueued stateTtl state) := by
  simp only [Redis.enqueue, Redis.views_saddLevel, Redis.views_zaddPending,
    Redis.views_incrLoadQueued, Redis.views_expire, Redis.views_hset, Function.update_self,
    Function.update_idem]
  rfl

/-- The claim script. -/
theorem views_claim (now : ℚ) (entry : QueueEntry) :
    (r.claim now entry).view = Function.update r.view entry.jobId
      ((r.view entry.jobId).claim now entry.priority) := by
  unfold Redis.claim JobView.claim
  rw [← Redis.view_pending, ← Redis.view_hash]
  by_cases hp : (r.view entry.jobId).pending entry.priority = none
  · simp [hp]
  · by_cases hh : (r.view entry.jobId).hash = none
    · simp only [hp, hh, if_true, if_false, Redis.views_zremPending]
      congr 1
      ext <;> simp [JobView.zremPending, JobView.hmod, hh]
    · obtain ⟨h, hh⟩ := Option.ne_none_iff_exists'.mp hh
      simp only [hp, hh, if_false, Redis.views_zremPending, Redis.views_hset,
        Function.update_self, Function.update_idem, reduceCtorEq]
      congr 1
      ext <;> simp [JobView.hset, JobView.zremPending, JobView.hmod, hh]

/-- The orphan script asks the job's own keys only. -/
theorem orphaned_iff (now grace : ℚ) (h : JobHash) :
    (r.jobs.lookup j = some h ∧ r.orphaned now grace j h = true) ↔
      (r.view j).Orphaned now grace h := by
  unfold Redis.orphaned JobView.Orphaned
  rw [Redis.view_hash, Redis.view_delayed, Redis.view_pending]
  simp only [Bool.and_eq_true, Option.isNone_iff_eq_none, Option.all_eq_true,
    decide_eq_true_eq, and_assoc]

theorem requeues_iff (now grace : ℚ) :
    r.requeues now grace j = true ↔ ∃ h, (r.view j).Orphaned now grace h := by
  simp only [Redis.requeues, Option.any_eq_true, ← orphaned_iff]

/-- What the script does to a job that is in no queue. -/
theorem views_requeueOrphan_of_orphaned {now grace : ℚ} {h : JobHash}
    (ho : (r.view j).Orphaned now grace h) : (r.requeueOrphan now grace j).view =
      Function.update r.view j
        ((r.view j).zaddPending (h.priority.getD 0) (h.submittedAt.getD now)) := by
  obtain ⟨hl, ho⟩ := (orphaned_iff r j now grace h).mpr ho
  simp only [Redis.requeueOrphan, hl, ho, if_true, Redis.views_saddLevel, Redis.views_zaddPending]

/-- It leaves every other job. -/
theorem requeueOrphan_of_not {now grace : ℚ}
    (ho : ∀ h, ¬(r.view j).Orphaned now grace h) : r.requeueOrphan now grace j = r := by
  unfold Redis.requeueOrphan
  cases hl : r.jobs.lookup j with
  | none => rfl
  | some h =>
    have hn : ¬r.orphaned now grace j h = true := fun h' =>
      ho h ((orphaned_iff r j now grace h).mp ⟨hl, h'⟩)
    simp only [hn, if_false, Bool.false_eq_true]

/-- `set_running` that was cut off after `n` commands. -/
theorem views_after_setRunning (settings : Settings) (now : ℚ) (engineJobId backendUrl : String)
    (b : BackendId) (stateTtl n : Nat) :
    (after n (setRunning settings now j engineJobId backendUrl b stateTtl) r).view =
      Function.update r.view j (match n with
        | 0 => r.view j
        | 1 => (r.view j).hset (JobHash.running now settings engineJobId backendUrl b)
        | 2 => (r.view j).stored (JobHash.running now settings engineJobId backendUrl b) stateTtl
        | _ => (r.view j).run settings now engineJobId backendUrl b stateTtl) := by
  have hexpire : (Redis.expire j stateTtl
      (r.hset j (JobHash.running now settings engineJobId backendUrl b))).view =
      Function.update r.view j
        ((r.view j).stored (JobHash.running now settings engineJobId backendUrl b) stateTtl) := by
    simp only [Redis.views_expire, Redis.views_hset, Function.update_self, Function.update_idem]
    rfl
  match n with
  | 0 => exact (Function.update_eq_self j r.view).symm
  | 1 => exact Redis.views_hset r j _
  | 2 => exact hexpire
  | n + 3 =>
    -- the rest, from the SADD on, only moves counters and wakes the poller
    have hrest : ∀ r' c, Quiet (do
        when c (enteredInflight j b)
        signalPoll) r' := fun r' c =>
      (quiet_enteredInflight r' j b).when.bind (quiet_signalPoll _)
    refine (always_iff_after.mp (hrest _ _) n).trans ?_
    rw [Redis.views_saddInflight, hexpire, Function.update_self, Function.update_idem]
    rfl

/-- The whole of `set_running`. -/
theorem views_setRunning (settings : Settings) (now : ℚ) (engineJobId backendUrl : String)
    (b : BackendId) (stateTtl : Nat) :
    (run (setRunning settings now j engineJobId backendUrl b stateTtl) r).2.view =
      Function.update r.view j ((r.view j).run settings now engineJobId backendUrl b stateTtl) := by
  rw [← after_of_length_le (Nat.le_add_right _ 3), views_after_setRunning]
  rfl

/-- The script of `release_done` for a job in flight. -/
theorem views_releaseDone_of_inflight {now : ℚ} {state : JobState} {engineRun : EngineRun}
    (h : (r.view j).inflight) : (r.releaseDone now j state engineRun).view =
      Function.update r.view j ((r.view j).release now engineRun) := by
  rw [Redis.view_inflight] at h
  simp only [Redis.releaseDone, h, if_true, views_countReleased, Redis.views_hmod,
    Redis.views_zaddHarvest, Redis.views_sremInflight, Function.update_self, Function.update_idem]
  rfl

/-- For any other job the script does nothing. -/
theorem releaseDone_of_not_inflight {now : ℚ} {state : JobState} {engineRun : EngineRun}
    (h : ¬(r.view j).inflight) : r.releaseDone now j state engineRun = r := if_neg h

theorem views_releaseDone (now : ℚ) (state : JobState) (engineRun : EngineRun) :
    (run (releaseDone now j state engineRun) r).2.view =
      (r.releaseDone now j state engineRun).view := by
  simp only [releaseDone, run_bind, run_call, run_pure]
  exact (quiet_signalSubmit _).when.view

/-- The script is one command, and the wakeup changes no job. -/
theorem throughout_releaseDone {P : (JobId → JobView) → Prop} {now : ℚ} {state : JobState}
    {engineRun : EngineRun} (h0 : P r.view)
    (h1 : P (r.releaseDone now j state engineRun).view) :
    Throughout P (releaseDone now j state engineRun) r :=
  throughout_bind.mpr ⟨throughout_call.mpr ⟨h0, h1⟩,
    throughout_bind.mpr ⟨(quiet_signalSubmit _).when.throughout h1,
      throughout_pure.mpr ((quiet_signalSubmit _).when.throughout h1).whole⟩⟩

theorem views_scheduleNextPoll (at' now : ℚ) :
    (run (scheduleNextPoll j at' now) r).2.view = Function.update r.view j
      ((r.view j).hset (JobHash.polled at' now)) :=
  Redis.views_hset r j _

/-- A harvest that is put off is counted, and has its new time. -/
theorem views_rescheduleHarvest (now delayS : ℚ) :
    (run (rescheduleHarvest now j delayS) r).2.view =
      Function.update r.view j ((r.view j).reharvest now delayS) := by
  simp only [rescheduleHarvest, run_act, Redis.views_zaddHarvest, Redis.views_hset,
    Function.update_self, Function.update_idem]
  rfl

theorem quiet_doneState (state : Option JobState) : Quiet (doneState j state) r := by
  unfold doneState
  split
  · exact quiet_getJob r j
  · exact quiet_pure r _

/-- `set_done`, command by command. -/
theorem throughout_setDone {P : (JobId → JobView) → Prop} {now : ℚ} {stateTtl : Nat}
    {state : Option JobState} (h0 : P r.view)
    (h1 : P (Function.update r.view j ((r.view j).hset (JobHash.finished now))))
    (h2 : P (Function.update r.view j ((r.view j).markDone now stateTtl)))
    (h3 : P (Function.update r.view j ((r.view j).markDone now stateTtl).sremInflight))
    (h4 : P (Function.update r.view j
      ((r.view j).markDone now stateTtl).sremInflight.zremHarvest))
    (h5 : P (Function.update r.view j ((r.view j).finishDone now stateTtl))) :
    Throughout P (setDone now j stateTtl state) r := by
  refine (quiet_doneState r j state).throughout_bind fun state r1 e1 => ?_
  refine (quiet_countBatchPage r1 state .done).throughout_bind fun batch r2 e2 => ?_
  rw [e1] at e2
  simp only [throughout_bind, throughout_act, throughout_call, run_act, run_call, e2,
    Redis.views_hset, Redis.views_expire, Redis.views_sremInflight, Redis.views_zremHarvest,
    Redis.views_hmod, Function.update_self, Function.update_idem]
  have hlast : P ((((r2.hset j (JobHash.finished now)).expire j stateTtl).sremInflight
      j).zremHarvest j |>.hmod j JobHash.clearHarvest).view := by
    simp only [Redis.views_hset, Redis.views_expire, Redis.views_sremInflight,
      Redis.views_zremHarvest, Redis.views_hmod, Function.update_self, Function.update_idem, e2]
    exact h5
  have hslot := fun c d => (quiet_settleDone _ c d state).throughout hlast
  exact ⟨⟨h0, h1⟩, ⟨h1, h2⟩, ⟨h2, h3⟩, ⟨h3, h4⟩, ⟨h4, h5⟩, hslot _ _,
    throughout_pure.mpr (hslot _ _).whole⟩

/-- The whole of `set_done`. -/
theorem views_setDone (now : ℚ) (stateTtl : Nat) (state : Option JobState) :
    (run (setDone now j stateTtl state) r).2.view =
      Function.update r.view j ((r.view j).finishDone now stateTtl) := by
  simp only [setDone, run_bind, run_act, run_call, run_pure, (quiet_settleDone _ _ _ _).view,
    (quiet_countBatchPage _ _ _).view, (quiet_doneState _ _ _).view, Redis.views_hset,
    Redis.views_expire, Redis.views_sremInflight, Redis.views_zremHarvest, Redis.views_hmod,
    Function.update_self, Function.update_idem]
  rfl

/-- `set_failed`, command by command. -/
theorem throughout_setFailed {P : (JobId → JobView) → Prop} {now : ℚ} {error : String}
    {stateTtl : Nat} (h0 : P r.view)
    (h1 : P (Function.update r.view j ((r.view j).markFailed now error stateTtl)))
    (h2 : P (Function.update r.view j ((r.view j).markFailed now error stateTtl).sremInflight)) :
    Throughout P (setFailed now j error stateTtl) r := by
  refine (quiet_getJob r j).throughout_bind fun state r1 e1 => ?_
  refine (quiet_countBatchPage r1 state .failed).throughout_bind fun batch r2 e2 => ?_
  rw [e1] at e2
  have hmark : (r2.markFailed now j error stateTtl).view =
      Function.update r.view j ((r.view j).markFailed now error stateTtl) := by
    simp only [Redis.markFailed, Redis.views_hset, Redis.views_expire, Redis.views_zremHarvest,
      Redis.views_hmod, Function.update_self, Function.update_idem, e2]
    rfl
  have hslot : P ((r2.markFailed now j error stateTtl).sremInflight j).view := by
    rw [Redis.views_sremInflight, hmark, Function.update_self, Function.update_idem]
    exact h2
  refine throughout_bind.mpr ⟨throughout_call.mpr ⟨e2 ▸ h0, hmark ▸ h1⟩, ?_⟩
  refine throughout_bind.mpr ⟨throughout_call.mpr ⟨hmark ▸ h1, hslot⟩, ?_⟩
  refine (quiet_countFailed _ _ state).throughout_bind fun _ r3 e3 => ?_
  refine (quiet_signalSubmit _).when.throughout_bind fun _ r4 e4 => ?_
  refine (quiet_releaseSlot _ _ state).throughout_bind fun _ r5 e5 => ?_
  refine (quiet_signalSubmit _).when.throughout_bind fun _ r6 e6 => throughout_pure.mpr ?_
  rw [e6, e5, e4, e3]
  exact hslot

/-- The whole of `set_failed`. -/
theorem views_setFailed (now : ℚ) (error : String) (stateTtl : Nat) :
    (run (setFailed now j error stateTtl) r).2.view =
      Function.update r.view j ((r.view j).markFailed now error stateTtl).sremInflight := by
  simp only [setFailed, Redis.markFailed, run_bind, run_call, run_pure,
    (quiet_signalSubmit _).when.view, (quiet_releaseSlot _ _ _).view,
    (quiet_countFailed _ _ _).view, (quiet_countBatchPage _ _ _).view, (quiet_getJob _ _).view,
    Redis.views_hset, Redis.views_expire, Redis.views_sremInflight, Redis.views_zremHarvest,
    Redis.views_hmod, Function.update_self, Function.update_idem]
  rfl

theorem views_giveUpSlot :
    (run (giveUpSlot j) r).2.view = Function.update r.view j (r.view j).sremInflight := by
  simp only [giveUpSlot, run_bind, run_call, run_pure, (quiet_releaseSlot _ _ _).view,
    (quiet_countRequeued _ _ _).view, Redis.views_sremInflight, (quiet_getJob _ _).view]

@[simp] theorem fst_giveUpSlot : (run (giveUpSlot j) r).1 = (r.view j).state := by
  simp only [giveUpSlot, run_bind, run_pure]
  rfl

/-- After its first two commands `release_and_requeue` has taken the job out of flight. -/
theorem views_after_giveUpSlot (n : Nat) :
    (after (n + 2) (giveUpSlot j) r).view =
      Function.update r.view j (r.view j).sremInflight := by
  -- the state read, then the `SREM`, then counters only
  have hrest : ∀ r' removed, Quiet (do
      countRequeued removed (r.state j)
      releaseSlot removed (r.state j)
      pure (r.state j)) r' := fun r' removed =>
    (quiet_countRequeued r' _ _).bind ((quiet_releaseSlot _ _ _).bind (quiet_pure _ _))
  exact (always_iff_after.mp (hrest _ _) n).trans (Redis.views_sremInflight r j)

/-- `release_and_requeue` after it has given up the slot, command by command. -/
theorem throughout_backToQueue {P : (JobId → JobView) → Prop} {now score : ℚ}
    {stateTtl : Nat} {delayS : ℚ} {avoid : Option BackendId} {state : Option JobState}
    (h0 : P r.view) (h1 : P (Function.update r.view j ((r.view j).hmod JobHash.clearDispatch)))
    (h2 : P (Function.update r.view j ((r.view j).hmod JobHash.clearDispatch).zremHarvest))
    (h3 : P (Function.update r.view j ((r.view j).cleared stateTtl)))
    (h4 : ∀ a, P (Function.update r.view j (((r.view j).cleared stateTtl).avoiding score a)))
    (h5 : P (Function.update r.view j (((r.view j).cleared stateTtl).requeued now score delayS
      avoid ((state.map fun s => s.priority).getD 0)))) :
    Throughout P (backToQueue now j score stateTtl delayS avoid state) r := by
  have e1 := Redis.views_hmod r j JobHash.clearDispatch
  have e2 : ((r.hmod j JobHash.clearDispatch).zremHarvest j).view =
      Function.update r.view j ((r.view j).hmod JobHash.clearDispatch).zremHarvest := by
    rw [Redis.views_zremHarvest, e1, Function.update_self, Function.update_idem]
  have e3 : (((r.hmod j JobHash.clearDispatch).zremHarvest j).expire j stateTtl).view =
      Function.update r.view j ((r.view j).cleared stateTtl) := by
    rw [Redis.views_expire, e2, Function.update_self, Function.update_idem]
    rfl
  rw [← e1] at h1
  rw [← e2] at h2
  rw [← e3] at h3
  refine throughout_bind.mpr ⟨⟨h0, h1⟩, throughout_bind.mpr ⟨⟨h1, h2⟩,
    throughout_bind.mpr ⟨⟨h2, h3⟩, ?_⟩⟩⟩
  refine throughout_requeueReleased _ j h3 (fun a => ?_) ?_
  · simp only [run_act, e3, Function.update_self, Function.update_idem]
    exact h4 a
  · simp only [run_act, e3, Function.update_self, Function.update_idem]
    exact h5

theorem views_backToQueue (now score : ℚ) (stateTtl : Nat) (delayS : ℚ)
    (avoid : Option BackendId) (state : Option JobState) :
    (run (backToQueue now j score stateTtl delayS avoid state) r).2.view =
      Function.update r.view j (((r.view j).cleared stateTtl).requeued now score delayS avoid
        ((state.map fun s => s.priority).getD 0)) := by
  simp only [backToQueue, run_bind, run_act, views_requeueReleased, Redis.views_hmod,
    Redis.views_zremHarvest, Redis.views_expire, Function.update_self, Function.update_idem]
  rfl

/-- `release_and_requeue` cut while it gives the slot up, after its `SREM`. -/
theorem views_after_releaseAndRequeue {now score : ℚ} {stateTtl : Nat} {delayS : ℚ}
    {avoid : Option BackendId} {n : Nat} (h2 : 2 ≤ n) (hn : n ≤ length (giveUpSlot j) r) :
    (after n (releaseAndRequeue now j score stateTtl delayS avoid) r).view =
      Function.update r.view j (r.view j).sremInflight := by
  obtain ⟨m, rfl⟩ : ∃ m, n = m + 2 := ⟨n - 2, by omega⟩
  rw [releaseAndRequeue, after_bind]
  split
  · exact views_after_giveUpSlot r j m
  · have hm : m + 2 - length (giveUpSlot j) r = 0 := by omega
    rw [hm, after_zero, views_giveUpSlot]

/-- `release_and_requeue` cut outside of that window. -/
theorem after_releaseAndRequeue {P : (JobId → JobView) → Prop} {now score : ℚ}
    {stateTtl : Nat} {delayS : ℚ} {avoid : Option BackendId} {n : Nat}
    (hn : n < 2 ∨ length (giveUpSlot j) r < n) (h0 : P r.view)
    (h1 : Throughout P (backToQueue now j score stateTtl delayS avoid (r.view j).state)
      ((run (giveUpSlot j) r).2.hset j JobHash.queued)) :
    P (after n (releaseAndRequeue now j score stateTtl delayS avoid) r).view := by
  rcases hn with hn | hn
  · match n with
    | 0 => exact h0
    | 1 => exact h0
  · rw [releaseAndRequeue, after_bind, if_neg (by omega), fst_giveUpSlot]
    obtain ⟨m, hm⟩ : ∃ m, n - length (giveUpSlot j) r = m + 1 :=
      ⟨n - length (giveUpSlot j) r - 1, by omega⟩
    rw [hm]
    exact always_iff_after.mp h1 m

/-- The whole of `release_and_requeue`. -/
theorem views_releaseAndRequeue (now score : ℚ) (stateTtl : Nat) (delayS : ℚ)
    (avoid : Option BackendId) :
    (run (releaseAndRequeue now j score stateTtl delayS avoid) r).2.view =
      Function.update r.view j (((r.view j).backToQueued.cleared stateTtl).requeued now score
        delayS avoid (r.view j).level) := by
  simp only [releaseAndRequeue, run_bind, run_act, views_backToQueue, views_giveUpSlot,
    fst_giveUpSlot, Redis.views_hset, Function.update_self, Function.update_idem]
  rfl

end Taas

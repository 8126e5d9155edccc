import Taas.Properties.Places

/-!
# What a crash between two commands loses

`set_running` writes the status before it adds the job to `jobs:inflight`, and
`release_and_requeue` takes the job out of `jobs:inflight` before it writes the status. A
process that dies in between leaves a job that says it is running and is nowhere.

* `JobView.Kept` — the job is in flight or in the harvest queue, unless its status says that
  it need not be. Every command keeps this, outside of these two windows (`kept_after`).
* `World.Safe` — the job can be found again.
* `World.safe_step_iff` — after any call that ran to its end or was cut off at any command,
  in any run without a crash in a window, every job is safe exactly when `World.Survives`
  says so.

The calls may come in any order, about any jobs.
-/

namespace Taas

open Infra Infra.Prog

/-! ## Runs with crashes -/

/-- A call, run to its end or cut off after some of its commands. -/
inductive Step where
  | whole (a : Action)
  | cut (a : Action) (n : Nat)

def Step.action : Step → Action
  | whole a => a
  | cut a _ => a

namespace World

def step (claimGraceS : ℚ) (w : World) : Step → World
  | .whole a => w.act claimGraceS a
  | .cut a n => w.cut claimGraceS a n

/-- New jobs are queued, and a job to retry or to poll still has its hash. -/
def Stored (w : World) : Action → Prop
  | .enqueueJobs jobs _ => ∀ job ∈ jobs, job.2.status = .queued
  | .resolve jobId (.scheduleRetry _ _ _) => jobId ∈ w.redis.jobs
  | .outcome jobId (.scheduleNextPoll _) => jobId ∈ w.redis.jobs
  | _ => True

/-- The process died between the write of the status and the move of the job. -/
def Window (w : World) : Action → Nat → Prop
  | .resolve _ (.setRunning _ _ _ _ _), n => n = 1 ∨ n = 2
  | .outcome jobId (.releaseAndRequeue _ _ _ _), n =>
    2 ≤ n ∧ n ≤ length (giveUpSlot jobId) w.redis
  | _, _ => False

/-- No crash in a window. -/
def Careful (w : World) : Step → Prop
  | .whole a => w.Stored a
  | .cut a n => w.Stored a ∧ ¬w.Window a n

/-- In a queue, or in flight. -/
def Placed (w : World) (jobId : JobId) : Prop :=
  (∃ p, jobId ∈ w.redis.pending p) ∨ jobId ∈ w.redis.delayed ∨ jobId ∈ w.redis.inflight ∨
    jobId ∈ w.redis.pendingHarvest

/-- The sweep, at any time that is late enough, finds the job queued or puts it back. -/
def PutBack (claimGraceS : ℚ) (w : World) (jobId : JobId) : Prop :=
  ∀ now, (∀ h t, w.redis.jobs.lookup jobId = some h → h.claimedAt = some t →
      claimGraceS ≤ now - t) →
    (∃ p, jobId ∈ (Prog.run (requeueOrphan now claimGraceS jobId) w.redis).2.pending p) ∨
      jobId ∈ (Prog.run (requeueOrphan now claimGraceS jobId) w.redis).2.delayed

/-- When the job's hash is stored, the job is in a queue or in flight, or it is finished, or
it is queued and the sweep will find it. -/
def Safe (claimGraceS : ℚ) (w : World) (jobId : JobId) : Prop :=
  jobId ∈ w.redis.jobs → w.Placed jobId ∨ w.status jobId = some .done ∨
    w.status jobId = some .failed ∨ w.status jobId = some .queued ∧ w.PutBack claimGraceS jobId

/-- When a crash in a window loses nothing: the job was in a queue as well, or, for
`release_and_requeue`, its hash was gone or did not say that the job was in flight. -/
def Survives (w : World) : Step → Prop
  | .whole _ => True
  | .cut a n => w.Window a n → match a with
    | .resolve jobId _ => w.Placed jobId
    | .outcome jobId _ => jobId ∈ w.redis.jobs →
      (w.put (w.redis.sremInflight jobId)).Placed jobId ∨
        w.status jobId = some .done ∨ w.status jobId = some .failed ∨
        w.status jobId = some .queued
    | _ => True

end World

/-! ## One job, command by command -/

namespace JobView

/-- The job is in flight or in the harvest queue, unless there is no hash, or the hash says
queued or finished. -/
def Kept (v : JobView) : Prop :=
  v.hash = none ∨ Queued v.hash ∨ Terminal v.hash ∨ v.inflight ∨ v.harvest ≠ none

variable {v v' : JobView}

theorem Kept.of_queued (h : Queued v.hash) : v.Kept := Or.inr (Or.inl h)

theorem Kept.of_terminal (h : Terminal v.hash) : v.Kept := Or.inr (Or.inr (Or.inl h))

theorem Kept.of_inflight (h : v.inflight) : v.Kept := Or.inr (Or.inr (Or.inr (Or.inl h)))

theorem Kept.of_harvest (h : v.harvest ≠ none) : v.Kept := Or.inr (Or.inr (Or.inr (Or.inr h)))

/-- A write of other fields, or a move between other queues. -/
theorem Kept.keep (hv : v.Kept) (hs : v'.hash.bind (fun h => h.status) =
    v.hash.bind fun h => h.status) (hn : v.hash = none → v'.hash = none)
    (hi : v'.inflight = v.inflight) (hh : v'.harvest = v.harvest) : v'.Kept := by
  unfold Kept Queued Terminal at *
  rw [hs, hi, hh]
  exact hv.imp_left hn

theorem Kept.hset (hv : v.Kept) (hn : v.hash ≠ none) {f : JobHash → JobHash}
    (hf : ∀ h, (f h).status = h.status) : (v.hset f).Kept := by
  obtain ⟨h, hh⟩ := Option.ne_none_iff_exists'.mp hn
  refine hv.keep ?_ (fun he => absurd he hn) rfl rfl
  simp [JobView.hset, hh, hf]

theorem Kept.hmod (hv : v.Kept) {f : JobHash → JobHash} (hf : ∀ h, (f h).status = h.status) :
    (v.hmod f).Kept := by
  refine hv.keep ?_ (fun he => by simp [JobView.hmod, he]) rfl rfl
  cases hh : v.hash <;> simp [JobView.hmod, hh, hf]

theorem Kept.zaddPending (hv : v.Kept) (p : Int) (score : ℚ) : (v.zaddPending p score).Kept :=
  hv.keep rfl id rfl rfl

theorem Kept.zremPending (hv : v.Kept) (p : Int) : (v.zremPending p).Kept :=
  hv.keep rfl id rfl rfl

theorem Kept.zaddDelayed (hv : v.Kept) (score : ℚ) : (v.zaddDelayed score).Kept :=
  hv.keep rfl id rfl rfl

theorem Kept.zremDelayed (hv : v.Kept) : v.zremDelayed.Kept := hv.keep rfl id rfl rfl

theorem Kept.expired : v.expired.Kept := Or.inl rfl

theorem Kept.enqueued {state : JobState} (hs : state.status = .queued) (stateTtl : Nat) :
    (v.enqueued stateTtl state).Kept :=
  .of_queued (congrArg some hs)

theorem Kept.promote (hv : v.Kept) (time : ℚ) : (v.promote time).Kept := by
  unfold JobView.promote
  split
  · exact hv
  · split
    · exact hv.zremDelayed
    · exact hv.zremDelayed.zaddPending _ _

theorem Kept.claim (hv : v.Kept) (now : ℚ) (p : Int) : (v.claim now p).Kept := by
  unfold JobView.claim
  split
  · exact hv
  · exact (hv.zremPending p).hmod fun _ => rfl

theorem Kept.avoiding (hv : v.Kept) (hn : v.hash ≠ none) (score : ℚ)
    (avoid : Option BackendId) : (v.avoiding score avoid).Kept := by
  have hscored : (v.hset (JobHash.scored score)).Kept := hv.hset hn fun _ => rfl
  cases avoid with
  | none => exact hscored
  | some b => exact hscored.hset (by simp [JobView.hset]) fun _ => rfl

theorem Kept.delay (hv : v.Kept) (hn : v.hash ≠ none) (now score delayS : ℚ)
    (avoid : Option BackendId) : (v.delay now score delayS avoid).Kept :=
  (hv.avoiding hn score avoid).zaddDelayed _

theorem Kept.requeued (hv : v.Kept) (hn : v.hash ≠ none) (now score delayS : ℚ)
    (avoid : Option BackendId) (p : Int) : (v.requeued now score delayS avoid p).Kept := by
  unfold JobView.requeued
  split
  · exact hv.delay hn now score delayS avoid
  · exact hv.zaddPending p score

end JobView

/-! ## All jobs, command by command -/

/-- Every job is kept. -/
def AllKept (views : JobId → JobView) : Prop := ∀ k, (views k).Kept

variable {α β : Type} {r : Redis} {claimGraceS : ℚ}

theorem AllKept.update {views : JobId → JobView} {j : JobId} {v : JobView}
    (h : AllKept views) (hv : v.Kept) : AllKept (Function.update views j v) := by
  intro k
  by_cases hk : k = j
  · subst hk
    rw [Function.update_self]
    exact hv
  · rw [Function.update_of_ne hk]
    exact h k

theorem throughout_map {P : (JobId → JobView) → Prop} {f : α → β} {p : RedisProg α}
    (h : Throughout P p r) : Throughout P (f <$> p) r :=
  always_iff_after.mpr fun n => by
    rw [after_map]
    exact always_iff_after.mp h n

/-- A command that changes one job. -/
theorem kept_act {j : JobId} {v : JobView} {f : Redis → Redis} (h : AllKept r.view)
    (hf : (f r).view = Function.update r.view j v) (hv : v.Kept) :
    Throughout AllKept (act f) r :=
  throughout_act.mpr ⟨h, hf ▸ h.update hv⟩

theorem kept_promoteMembers (jobIds : List JobId) (time : ℚ) (h : AllKept r.view) :
    Throughout AllKept (promoteMembers time jobIds) r := by
  induction jobIds generalizing r with
  | nil => exact h
  | cons jobId jobIds ih =>
    have hone : Throughout AllKept (promoteMember time jobId) r :=
      throughout_promoteMember r jobId h (h.update (h jobId).zremDelayed)
        (h.update ((h jobId).promote time))
    exact throughout_bind.mpr ⟨hone, throughout_bind.mpr ⟨ih hone.whole, (ih hone.whole).whole⟩⟩

theorem kept_claimPending (entries : List QueueEntry) (time : ℚ) (h : AllKept r.view) :
    Throughout AllKept (claimPending time entries) r := by
  induction entries generalizing r with
  | nil => exact h
  | cons entry entries ih =>
    have hone : AllKept (r.claim time entry).view := by
      rw [views_claim]
      exact h.update ((h entry.jobId).claim time entry.priority)
    exact throughout_bind.mpr ⟨throughout_callLog.mpr ⟨h, hone⟩,
      throughout_bind.mpr ⟨ih hone, (ih hone).whole⟩⟩

theorem kept_dropPending (entries : List QueueEntry) (h : AllKept r.view) :
    Throughout AllKept (dropPending entries) r := by
  induction entries generalizing r with
  | nil => exact h
  | cons entry entries ih =>
    have hone : Throughout AllKept (act (Redis.zremPending entry.priority entry.jobId)) r :=
      kept_act h (Redis.views_zremPending r entry.jobId entry.priority)
        ((h entry.jobId).zremPending entry.priority)
    exact throughout_bind.mpr ⟨hone, ih hone.whole⟩

theorem kept_requeueOrphanScripts (jobIds : List JobId) (now : ℚ) (h : AllKept r.view) :
    Throughout AllKept (requeueOrphanScripts now claimGraceS jobIds) r := by
  induction jobIds generalizing r with
  | nil => exact h
  | cons jobId jobIds ih =>
    have hone : AllKept (r.requeueOrphan now claimGraceS jobId).view := by
      by_cases ho : ∃ h, (r.view jobId).Orphaned now claimGraceS h
      · obtain ⟨h', ho⟩ := ho
        rw [views_requeueOrphan_of_orphaned r jobId ho]
        exact h.update ((h jobId).zaddPending _ _)
      · rw [requeueOrphan_of_not r jobId (not_exists.mp ho)]
        exact h
    exact throughout_bind.mpr ⟨throughout_callLog.mpr ⟨h, hone⟩,
      throughout_bind.mpr ⟨ih hone, (ih hone).whole⟩⟩

theorem throughout_signal {P : (JobId → JobView) → Prop} {r : Redis} (c : Bool) (h : P r.view) :
    Throughout P (when c signalSubmit) r := (quiet_signalSubmit r).when.throughout h

theorem kept_requeueOrphans (jobIds : List JobId) (now : ℚ) (h : AllKept r.view) :
    Throughout AllKept (requeueOrphans jobIds now claimGraceS) r := by
  have hscripts : Throughout AllKept (requeueOrphanScripts now claimGraceS jobIds) r :=
    kept_requeueOrphanScripts jobIds now h
  have hsignal := throughout_signal
    (!(run (requeueOrphanScripts now claimGraceS jobIds) r).1.isEmpty) hscripts.whole
  exact throughout_bind.mpr ⟨hscripts, throughout_bind.mpr ⟨hsignal, hsignal.whole⟩⟩

theorem kept_foldl_enqueue (jobs : List (JobId × JobState)) (stateTtl : Nat)
    (hq : ∀ job ∈ jobs, job.2.status = .queued) (h : AllKept r.view) :
    AllKept (jobs.foldl (Redis.enqueue stateTtl) r).view := by
  induction jobs generalizing r with
  | nil => exact h
  | cons job jobs ih =>
    obtain ⟨jobId, state⟩ := job
    refine ih (fun job hj => hq job (List.mem_cons_of_mem _ hj)) ?_
    rw [views_enqueue]
    exact h.update (.enqueued (hq _ (List.mem_cons_self ..)) stateTtl)

theorem kept_enqueueTransactions (chunks : List (List (JobId × JobState))) (stateTtl : Nat)
    (hq : ∀ job ∈ chunks.flatten, job.2.status = .queued) (h : AllKept r.view) :
    Throughout AllKept (enqueueTransactions stateTtl chunks) r := by
  induction chunks generalizing r with
  | nil => exact h
  | cons chunk rest ih =>
    have hchunk := kept_foldl_enqueue chunk stateTtl
      (fun job hj => hq job (List.mem_append_left _ hj)) h
    exact throughout_bind.mpr ⟨throughout_callLog.mpr ⟨h, hchunk⟩,
      ih (fun job hj => hq job (List.mem_append_right _ hj)) hchunk⟩

theorem kept_enqueueJobs (jobs : List (JobId × JobState)) (stateTtl : Nat)
    (hq : ∀ job ∈ jobs, job.2.status = .queued) (h : AllKept r.view) :
    Throughout AllKept (enqueueJobs jobs stateTtl) r := by
  have htransactions := kept_enqueueTransactions (chunks enqueueChunk jobs) stateTtl
    (by rwa [flatten_chunks (by decide)]) h
  exact throughout_bind.mpr ⟨htransactions, throughout_signal _ htransactions.whole⟩

theorem kept_setFailed (jobId : JobId) (now : ℚ) (error : String) (stateTtl : Nat)
    (h : AllKept r.view) : Throughout AllKept (setFailed now jobId error stateTtl) r :=
  throughout_setFailed r jobId h (h.update (.of_terminal (Or.inr rfl)))
    (h.update (.of_terminal (Or.inr rfl)))

theorem kept_scheduleRetry {jobId : JobId} (now score delayS : ℚ) (avoid : Option BackendId)
    (hn : (r.view jobId).hash ≠ none) (h : AllKept r.view) :
    Throughout AllKept (scheduleRetry now jobId score delayS avoid) r :=
  throughout_scheduleRetry r jobId h (fun a => h.update ((h jobId).avoiding hn score a))
    (h.update ((h jobId).delay hn now score delayS avoid))

theorem kept_setDone (jobId : JobId) (now : ℚ) (stateTtl : Nat) (state : Option JobState)
    (h : AllKept r.view) : Throughout AllKept (setDone now jobId stateTtl state) r := by
  have hdone : ∀ {v : JobView}, v.hash.bind (fun h => h.status) = some .done →
      AllKept (Function.update r.view jobId v) := fun hv => h.update (.of_terminal (Or.inl hv))
  exact throughout_setDone r jobId h (hdone rfl) (hdone rfl) (hdone rfl) (hdone rfl) (hdone rfl)

theorem kept_backToQueue (jobId : JobId) (now score : ℚ) (stateTtl : Nat) (delayS : ℚ)
    (avoid : Option BackendId) (state : Option JobState) (h : AllKept r.view)
    (hq : Queued (r.view jobId).hash) :
    Throughout AllKept (backToQueue now jobId score stateTtl delayS avoid state) r := by
  obtain ⟨hash, hh⟩ : ∃ hash, (r.view jobId).hash = some hash :=
    Option.ne_none_iff_exists'.mp fun hn => by simp [Queued, hn] at hq
  have hs : hash.status = some .queued := by simpa [Queued, hh] using hq
  have hqueued : ∀ {v : JobView}, Queued v.hash → AllKept (Function.update r.view jobId v) :=
    fun hv => h.update (.of_queued hv)
  have hcleared : ((r.view jobId).cleared stateTtl).hash =
      some (hash.clearDispatch.expiring stateTtl) := by
    simp [JobView.cleared, JobView.hmod, JobView.zremHarvest, hh]
  have hkept : ((r.view jobId).cleared stateTtl).Kept :=
    .of_queued (by rw [hcleared]; exact hs)
  have hne : ((r.view jobId).cleared stateTtl).hash ≠ none := by simp [hcleared]
  refine throughout_backToQueue r jobId h (hqueued ?_) (hqueued ?_) (h.update hkept)
    (fun a => h.update (hkept.avoiding hne score a)) (h.update (hkept.requeued hne ..))
  · simpa [Queued, JobView.hmod, JobHash.clearDispatch, hh] using hs
  · simpa [Queued, JobView.hmod, JobView.zremHarvest, JobHash.clearDispatch, hh] using hs

/-! ## Whole calls and crashes -/

theorem kept_resolution (w : World) (jobId : JobId) (res : Resolution) (n : Nat)
    (h : AllKept w.redis.view) (hs : w.Stored (.resolve jobId res))
    (hw : ¬w.Window (.resolve jobId res) n) :
    AllKept (after n (res.prog w.now jobId) w.redis).view := by
  cases res with
  | requeueJob originalScore =>
    exact always_iff_after.mp (throughout_requeueJob w.redis jobId h
      (h.update ((h jobId).zaddPending _ originalScore))) n
  | scheduleRetry originalScore delayS avoidBackendId =>
    have hn : (w.redis.view jobId).hash ≠ none := by
      rw [Redis.view_hash, ← Option.isSome_iff_ne_none, Finmap.lookup_isSome]
      exact hs
    exact always_iff_after.mp (kept_scheduleRetry w.now originalScore delayS avoidBackendId hn h) n
  | setRunning settings engineJobId backendUrl backendId stateTtl =>
    rw [Resolution.prog, views_after_setRunning]
    rcases n with _ | _ | _ | n
    · exact h.update (h jobId)
    · exact absurd (Or.inl rfl) hw
    · exact absurd (Or.inr rfl) hw
    · exact h.update (.of_inflight trivial)
  | setFailed error stateTtl =>
    exact always_iff_after.mp (throughout_map (kept_setFailed jobId w.now error stateTtl h)) n

theorem kept_outcome (w : World) (jobId : JobId) (o : Outcome) (n : Nat)
    (h : AllKept w.redis.view) (hs : w.Stored (.outcome jobId o))
    (hw : ¬w.Window (.outcome jobId o) n) :
    AllKept (after n (o.prog w.now jobId) w.redis).view := by
  cases o with
  | releaseDone state engineRun =>
    refine always_iff_after.mp (throughout_map (throughout_releaseDone w.redis jobId h ?_)) n
    by_cases hi : (w.redis.view jobId).inflight
    · rw [views_releaseDone_of_inflight w.redis jobId hi]
      refine h.update (.of_harvest ?_)
      simp [JobView.release, JobView.hmod, JobView.zaddHarvest]
    · rw [releaseDone_of_not_inflight w.redis jobId hi]
      exact h
  | releaseAndRequeue score stateTtl delayS avoidBackendId =>
    have hout : n < 2 ∨ length (giveUpSlot jobId) w.redis < n := by
      have hw' : ¬(2 ≤ n ∧ n ≤ length (giveUpSlot jobId) w.redis) := hw
      omega
    have hqueued : ((run (giveUpSlot jobId) w.redis).2.hset jobId JobHash.queued).view =
        Function.update w.redis.view jobId (w.redis.view jobId).backToQueued := by
      rw [Redis.views_hset, views_giveUpSlot, Function.update_self, Function.update_idem]
      rfl
    refine after_releaseAndRequeue w.redis jobId hout h
      (kept_backToQueue jobId w.now score stateTtl delayS avoidBackendId _ ?_ ?_)
    · rw [hqueued]
      exact h.update (.of_queued rfl)
    · rw [hqueued, Function.update_self]
      rfl
  | scheduleNextPoll at' =>
    have hn : (w.redis.view jobId).hash ≠ none := by
      rw [Redis.view_hash, ← Option.isSome_iff_ne_none, Finmap.lookup_isSome]
      exact hs
    exact always_iff_after.mp (kept_act h
      (Redis.views_hset w.redis jobId (JobHash.polled at' w.now))
      ((h jobId).hset hn fun _ => rfl)) n
  | rescheduleHarvest delayS =>
    refine always_iff_after.mp (throughout_act.mpr ⟨h, ?_⟩) n
    have hview := views_rescheduleHarvest w.redis jobId w.now delayS
    rw [rescheduleHarvest, run_act] at hview
    rw [hview]
    refine h.update (.of_harvest ?_)
    simp [JobView.reharvest, JobView.zaddHarvest]
  | setDone stateTtl state =>
    exact always_iff_after.mp (throughout_map (kept_setDone jobId w.now stateTtl state h)) n
  | setFailed error stateTtl =>
    exact always_iff_after.mp (throughout_map (kept_setFailed jobId w.now error stateTtl h)) n

/-- **Outside of the windows, a crash at any command leaves every job kept.** -/
theorem kept_after (w : World) (a : Action) (n : Nat) (h : AllKept w.redis.view)
    (hs : w.Stored a) (hw : ¬w.Window a n) :
    AllKept (after n (a.prog claimGraceS w.now) w.redis).view := by
  cases a with
  | wait d => cases n <;> exact h
  | expire jobId =>
    exact always_iff_after.mp (throughout_map (kept_act h (Redis.views_expireNow w.redis jobId)
      .expired)) n
  | enqueueJobs jobs stateTtl =>
    exact always_iff_after.mp (throughout_map (kept_enqueueJobs jobs stateTtl hs h)) n
  | promoteDueRetries =>
    exact always_iff_after.mp (throughout_map (throughout_bind.mpr ⟨throughout_query.mpr h,
      kept_promoteMembers _ w.now h⟩)) n
  | claimPending entries => exact always_iff_after.mp (kept_claimPending entries w.now h) n
  | dropPending entries =>
    exact always_iff_after.mp (throughout_map (kept_dropPending entries h)) n
  | requeueOrphans jobIds =>
    exact always_iff_after.mp (throughout_map (kept_requeueOrphans jobIds w.now h)) n
  | resolve jobId res =>
    rw [Action.prog, after_map]
    exact kept_resolution w jobId res n h hs hw
  | outcome jobId o =>
    rw [Action.prog, after_map]
    exact kept_outcome w jobId o n h hs hw

namespace World

theorem not_window_of_large (w : World) (a : Action) : ∃ m, ∀ n, m ≤ n → ¬w.Window a n := by
  cases a with
  | resolve jobId res =>
    refine ⟨3, fun n hn hw => ?_⟩
    unfold Window at hw
    split at hw
    · omega
    · next h => cases h
    · exact hw
  | outcome jobId o =>
    refine ⟨length (giveUpSlot jobId) w.redis + 1, fun n hn hw => ?_⟩
    unfold Window at hw
    split at hw
    · next h => cases h
    · next h =>
      cases h
      omega
    · exact hw
  | _ => exact ⟨0, fun _ _ => id⟩

/-- A whole call is one cut off behind its end. -/
theorem kept_act (w : World) (a : Action) (h : AllKept w.redis.view) (hs : w.Stored a) :
    AllKept (w.act claimGraceS a).redis.view := by
  obtain ⟨m, hm⟩ := w.not_window_of_large a
  have hlast : AllKept (after (length (a.prog claimGraceS w.now) w.redis + m)
      (a.prog claimGraceS w.now) w.redis).view :=
    kept_after w a _ h hs (hm _ (Nat.le_add_left ..))
  rwa [after_of_length_le (Nat.le_add_right ..)] at hlast

theorem kept_step (w : World) (s : Step) (h : AllKept w.redis.view) (hs : w.Careful s) :
    AllKept (w.step claimGraceS s).redis.view := by
  cases s with
  | whole a => exact kept_act w a h hs
  | cut a n => exact kept_after w a n h hs.1 hs.2

theorem kept_initial (now : ℚ) : AllKept (initial now).redis.view := fun _ => Or.inl rfl

theorem kept_run {w : World} {steps : List Step}
    (hs : Obeys (step claimGraceS) Careful w steps) (h : AllKept w.redis.view) :
    AllKept (steps.foldl (step claimGraceS) w).redis.view :=
  Obeys.inv (I := fun w : World => AllKept w.redis.view) (fun w s hw hc => kept_step w s hw hc)
    hs h

/-! ## Kept jobs are safe -/

theorem mem_jobs_iff {r : Redis} {jobId : JobId} :
    jobId ∈ r.jobs ↔ (r.view jobId).hash ≠ none := by
  rw [Redis.view_hash, ← Option.isSome_iff_ne_none, Finmap.lookup_isSome]

theorem placed_iff {w : World} {jobId : JobId} : w.Placed jobId ↔
    (∃ p, (w.redis.view jobId).pending p ≠ none) ∨ (w.redis.view jobId).delayed ≠ none ∨
      (w.redis.view jobId).inflight ∨ (w.redis.view jobId).harvest ≠ none := by
  simp only [Placed, mem_pending_iff, mem_delayed_iff, mem_pendingHarvest_iff,
    Redis.view_inflight]

/-- The sweep puts any queued job back that is in no queue. -/
theorem putBack_of_queued {w : World} {jobId : JobId} (hq : w.status jobId = some .queued) :
    w.PutBack claimGraceS jobId := by
  intro now hclaim
  have hrun : (Prog.run (requeueOrphan now claimGraceS jobId) w.redis).2 =
      w.redis.requeueOrphan now claimGraceS jobId := rfl
  obtain ⟨h, hh, hs⟩ := Option.bind_eq_some_iff.mp hq
  simp only [hrun, mem_pending_iff, mem_delayed_iff]
  by_cases ho : (w.redis.view jobId).Orphaned now claimGraceS h
  · rw [views_requeueOrphan_of_orphaned _ _ ho, Function.update_self]
    exact Or.inl ⟨h.priority.getD 0, by simp [JobView.zaddPending]⟩
  · have hnot : ∀ h', ¬(w.redis.view jobId).Orphaned now claimGraceS h' := by
      rintro h' ⟨hh', ho'⟩
      obtain rfl : h = h' := Option.some.inj (hh.symm.trans hh')
      exact ho ⟨hh', ho'⟩
    rw [requeueOrphan_of_not _ _ hnot]
    by_contra hno
    obtain ⟨hp, hd⟩ := not_or.mp hno
    exact ho ⟨hh, hs, not_not.mp hd, fun c hc => hclaim h c hh hc,
      not_not.mp (not_exists.mp hp _)⟩

theorem safe_iff {w : World} {jobId : JobId} : w.Safe claimGraceS jobId ↔
    ((w.redis.view jobId).hash ≠ none → w.Placed jobId ∨ Terminal (w.redis.view jobId).hash ∨
      Queued (w.redis.view jobId).hash) := by
  have hput : w.status jobId = some .queued ∧ w.PutBack claimGraceS jobId ↔
      Queued (w.redis.view jobId).hash :=
    ⟨fun h => h.1, fun h => ⟨h, putBack_of_queued h⟩⟩
  rw [Safe, mem_jobs_iff, hput, ← or_assoc (a := w.status jobId = _)]
  rfl

theorem safe_of_kept {w : World} {jobId : JobId} (h : (w.redis.view jobId).Kept) :
    w.Safe claimGraceS jobId := by
  rw [safe_iff, placed_iff]
  rintro hn
  rcases h with h | h | h | h | h
  · exact absurd h hn
  · exact Or.inr (Or.inr h)
  · exact Or.inr (Or.inl h)
  · exact Or.inl (Or.inr (Or.inr (Or.inl h)))
  · exact Or.inl (Or.inr (Or.inr (Or.inr h)))

/-! ## In a window -/

theorem safe_of_view {w w' : World} {jobId : JobId}
    (h : w'.redis.view jobId = w.redis.view jobId) :
    w'.Safe claimGraceS jobId ↔ w.Safe claimGraceS jobId := by
  simp only [safe_iff, placed_iff, h]

/-- Only the job of the call is in danger. -/
theorem safe_all_iff {w w' : World} {jobId : JobId} {v : JobView} (h : AllKept w.redis.view)
    (hv : w'.redis.view = Function.update w.redis.view jobId v) :
    (∀ k, w'.Safe claimGraceS k) ↔ w'.Safe claimGraceS jobId := by
  refine ⟨fun hall => hall jobId, fun hj k => ?_⟩
  by_cases hk : k = jobId
  · exact hk ▸ hj
  · rw [safe_of_view (w := w) (by rw [hv, Function.update_of_ne hk])]
    exact safe_of_kept (h k)

theorem safe_setRunning_window {w : World} {jobId : JobId} {settings : Settings}
    {engineJobId backendUrl : String} {backendId : BackendId} {stateTtl n : Nat}
    (h : AllKept w.redis.view) (hn : n = 1 ∨ n = 2) :
    (∀ k, (w.cut claimGraceS (.resolve jobId
      (.setRunning settings engineJobId backendUrl backendId stateTtl)) n).Safe claimGraceS k) ↔
      w.Placed jobId := by
  have hview := views_after_setRunning w.redis jobId settings w.now engineJobId backendUrl
    backendId stateTtl n
  -- either way the hash says running, and nothing else changed
  obtain ⟨hash, hstatus, hr⟩ : ∃ hash : JobHash, hash.status = some .running ∧
      (w.cut claimGraceS (.resolve jobId (.setRunning settings engineJobId backendUrl backendId
        stateTtl)) n).redis.view = Function.update w.redis.view jobId
          { w.redis.view jobId with hash := some hash } := by
    rw [cut, Action.prog, after_map]
    rcases hn with rfl | rfl <;> exact ⟨_, rfl, hview⟩
  rw [safe_all_iff h hr, safe_iff, placed_iff, placed_iff, hr, Function.update_self]
  simp [Terminal, Queued, hstatus]

theorem safe_releaseAndRequeue_window {w : World} {jobId : JobId} {score : ℚ} {stateTtl : Nat}
    {delayS : ℚ} {avoid : Option BackendId} {n : Nat} (h : AllKept w.redis.view)
    (hn : 2 ≤ n ∧ n ≤ length (giveUpSlot jobId) w.redis) :
    (∀ k, (w.cut claimGraceS (.outcome jobId
      (.releaseAndRequeue score stateTtl delayS avoid)) n).Safe claimGraceS k) ↔
      (jobId ∈ w.redis.jobs → (w.put (w.redis.sremInflight jobId)).Placed jobId ∨
        w.status jobId = some .done ∨ w.status jobId = some .failed ∨
        w.status jobId = some .queued) := by
  have hview : (after n (releaseAndRequeue w.now jobId score stateTtl delayS avoid)
      w.redis).view = _ := views_after_releaseAndRequeue w.redis jobId hn.1 hn.2
  have hr : (w.cut claimGraceS (.outcome jobId (.releaseAndRequeue score stateTtl delayS
      avoid)) n).redis.view = (w.redis.sremInflight jobId).view := by
    rw [cut, Action.prog, after_map, Redis.views_sremInflight]
    exact hview
  have hhash : (w.redis.view jobId).hash = ((w.redis.sremInflight jobId).view jobId).hash := by
    rw [Redis.views_sremInflight, Function.update_self]
    rfl
  rw [safe_all_iff h (hr.trans (Redis.views_sremInflight ..)), safe_iff, placed_iff, placed_iff,
    hr, mem_jobs_iff, ← hhash, ← or_assoc (a := w.status jobId = _)]
  rfl

/-- **After any call, cut off or not, every job is safe, unless the process died in a window
and the job was nowhere else.** -/
theorem safe_step_iff {now : ℚ} {steps : List Step} {s : Step}
    (hs : Obeys (step claimGraceS) Careful (initial now) steps)
    (ha : (steps.foldl (step claimGraceS) (initial now)).Stored s.action) :
    (∀ jobId, ((steps.foldl (step claimGraceS) (initial now)).step claimGraceS s).Safe
      claimGraceS jobId) ↔ (steps.foldl (step claimGraceS) (initial now)).Survives s := by
  have h := kept_run hs (kept_initial now)
  generalize steps.foldl (step claimGraceS) (initial now) = w at h ha ⊢
  cases s with
  | whole a =>
    exact iff_of_true (fun jobId => safe_of_kept (kept_step w (.whole a) h ha jobId)) trivial
  | cut a n =>
    by_cases hw : w.Window a n
    · unfold Window at hw
      split at hw
      · exact (safe_setRunning_window h hw).trans (imp_iff_right hw).symm
      · exact (safe_releaseAndRequeue_window h hw).trans (imp_iff_right hw).symm
      · exact hw.elim
    · refine iff_of_true (fun jobId => safe_of_kept ?_) (fun hw' => absurd hw' hw)
      exact kept_step w (.cut a n) h ⟨ha, hw⟩ jobId

/-! ## What the windows lose in regular runs -/

variable {w : World} {jobId : JobId} {n : Nat}

theorem kept_of_ok (hok : w.EachJob fun _ => JobCase.Ok False claimGraceS) :
    AllKept w.redis.view := by
  intro k
  rcases hok k with hx | ⟨h, site, harvest, hv, -, hf⟩
  · exact Or.inl (congrArg (fun x : JobCase => x.2.hash) hx)
  · have hv' : w.redis.view k = site.view (some h) harvest := hv
    rw [hv']
    cases hf with
    | waiting hs _ => exact .of_queued hs
    | delayed hs _ => exact .of_queued hs
    | free hs _ => exact .of_queued hs
    | running _ _ => exact .of_inflight rfl
    | storing _ _ => exact .of_harvest (by simp)
    | ended hs _ => exact .of_terminal hs
    | cutInflight hcrash _ _ => exact hcrash.elim
    | cutHarvest hcrash _ _ => exact hcrash.elim

/-- A claimed job is nowhere, so that a crash in the window of `set_running` loses it. -/
theorem lost_of_held (hok : w.EachJob fun _ => JobCase.Ok False claimGraceS)
    (hc : Held claimGraceS w.now (w.claims jobId)) (hn : n = 1 ∨ n = 2)
    (settings : Settings) (engineJobId backendUrl : String) (backendId : BackendId)
    (stateTtl : Nat) : ¬∀ k, (w.cut claimGraceS (.resolve jobId
      (.setRunning settings engineJobId backendUrl backendId stateTtl)) n).Safe claimGraceS k := by
  obtain ⟨hash, hv, -⟩ := (hok jobId).held hc
  rw [safe_setRunning_window (kept_of_ok hok) hn, placed_iff, hv]
  simp [Site.pending_view, Site.delayed_view]

/-- A job in flight is nowhere else, so that a crash in the window of `release_and_requeue`
loses it. -/
theorem lost_of_inflight (hok : w.EachJob fun _ => JobCase.Ok False claimGraceS)
    (hi : (w.redis.view jobId).inflight)
    (hn : 2 ≤ n ∧ n ≤ length (giveUpSlot jobId) w.redis) (score : ℚ) (stateTtl : Nat)
    (delayS : ℚ) (avoid : Option BackendId) : ¬∀ k, (w.cut claimGraceS (.outcome jobId
      (.releaseAndRequeue score stateTtl delayS avoid)) n).Safe claimGraceS k := by
  obtain ⟨hash, hv, -, -, hs⟩ := (hok jobId).inflight hi
  have hrunning : hash.status = some .running := by simpa using hs
  have hstatus : w.status jobId = some .running := by
    change (w.redis.view jobId).hash.bind (fun h => h.status) = _
    rw [hv]
    exact hrunning
  have hmem : jobId ∈ w.redis.jobs := by
    rw [mem_jobs_iff, hv]
    simp
  have hplaced : ¬(w.put (w.redis.sremInflight jobId)).Placed jobId := by
    rw [placed_iff, put, Redis.views_sremInflight, Function.update_self, hv,
      Site.sremInflight_inflight]
    simp [Site.pending_view, Site.delayed_view]
  rw [safe_releaseAndRequeue_window (kept_of_ok hok) hn]
  intro hall
  simpa [hplaced, hstatus] using hall hmem

/-- A job that was claimed is lost in the one window, a job in flight in the other. -/
theorem crash_loses_job :
    ((initial 0).ObeysCalls 60 (Regular 60) (sampleRun.take 2) ∧
      ¬∀ k, (((initial 0).run 60 (sampleRun.take 2)).cut 60
        (.resolve 1 (.setRunning {} "e1" "http://engine" 1 3600)) 1).Safe 60 k) ∧
    (initial 0).ObeysCalls 60 (Regular 60) (sampleRun.take 3) ∧
      ¬∀ k, (((initial 0).run 60 (sampleRun.take 3)).cut 60
        (.outcome 1 (.releaseAndRequeue 0 3600 0 none)) 2).Safe 60 k := by
  have hsplit : ∀ n, (initial 0).ObeysCalls 60 (Regular 60) (sampleRun.take n) := fun n =>
    (obeys_append.mp (by rw [List.take_append_drop]; exact sampleRun_regular)).1
  have hok : ∀ n, ((initial 0).run 60 (sampleRun.take n)).EachJob
      fun _ => JobCase.Ok False 60 := fun n => ok_run (hsplit n) (eachJob_initial 0)
  refine ⟨⟨hsplit 2, lost_of_held (hok 2) ⟨0, ?_, ?_⟩ (Or.inl rfl) {} "e1" "http://engine" 1 3600⟩,
    hsplit 3, lost_of_inflight (hok 3) ?_ ?_ 0 3600 0 none⟩
  · decide +kernel
  · decide +kernel
  · show 1 ∈ Redis.inflight _
    decide +kernel
  · decide +kernel

theorem safe_step_iff_sample : (((((initial 0).step 60
    (.whole (.enqueueJobs [(1, sampleJob)] 3600))).step 60 (.cut (.claimPending [⟨1, 0, 0⟩]) 1)).step
      60 (.cut (.resolve 1 (.setRunning {} "e1" "http://engine" 1 3600)) 3))).Safe 60 1 := by
  have hs : Obeys (step 60) Careful (initial 0) [.whole (.enqueueJobs [(1, sampleJob)] 3600),
      .cut (.claimPending [⟨1, 0, 0⟩]) 1] := by
    refine ⟨fun job hj => ?_, ⟨trivial, id⟩, trivial⟩
    rw [List.mem_singleton.mp hj]
    rfl
  have ha : (step 60 (step 60 (initial 0) (.whole (.enqueueJobs [(1, sampleJob)] 3600)))
      (.cut (.claimPending [⟨1, 0, 0⟩]) 1)).Stored
        (.resolve 1 (.setRunning {} "e1" "http://engine" 1 3600)) := trivial
  exact (safe_step_iff (s := .cut _ 3) hs ha).mpr (fun hw => by cases hw <;> omega) 1

end World

end Taas

import Taas.Workers.Wakeups

/-!
# No wakeup is lost

Whoever puts a job on a pending queue wakes the submit worker afterwards, and `set_running` wakes
the poller after the job entered the in-flight set. A worker that waits has looked after
everything that was announced, unless its wakeup list was dropped. It is dropped only when no
worker emptied it for a minute.

* `Ringer` — what a bell has to say about the state functions that make work or ring.
* `Ringer.settles_prog` — no call of a state function leaves new work unannounced.
* `submit_wakeups`, `poll_wakeups` — the two lists, over every interleaving.
-/

namespace Taas

open Infra Infra.Prog

/-- A command that puts no job on a pending queue or in flight, and pushes no token. -/
def Bystanding (effect : Redis → Redis) (log : Redis → List Event) : Prop :=
  ∀ r, (effect r).submitWakeup = r.submitWakeup ∧ (effect r).pollWakeup = r.pollWakeup ∧
    (effect r).inflight ⊆ r.inflight ∧ (log r).any Event.isPut = false

/-- A command that leaves the wakeup lists and the in-flight set alone. -/
theorem bystanding_of_eq {effect : Redis → Redis} (h : ∀ r, (effect r).submitWakeup = r.submitWakeup ∧
    (effect r).pollWakeup = r.pollWakeup ∧ (effect r).inflight = r.inflight) :
    Bystanding effect fun _ => [] :=
  fun r => ⟨(h r).1, (h r).2.1, (h r).2.2.subset, rfl⟩

theorem bystanding_id : Bystanding id fun _ => [] := bystanding_of_eq fun _ => ⟨rfl, rfl, rfl⟩

theorem Redis.unmoved_hmod (jobId : JobId) (f : JobHash → JobHash) (r : Redis) :
    (r.hmod jobId f).submitWakeup = r.submitWakeup ∧ (r.hmod jobId f).pollWakeup = r.pollWakeup ∧
      (r.hmod jobId f).inflight = r.inflight := by
  unfold Redis.hmod
  split <;> exact ⟨rfl, rfl, rfl⟩

theorem bystanding_hmod (jobId : JobId) (f : JobHash → JobHash) :
    Bystanding (Redis.hmod jobId f) fun _ => [] := bystanding_of_eq (Redis.unmoved_hmod jobId f)

theorem bystanding_claim (now : ℚ) (entry : QueueEntry) : Bystanding (Redis.claim now entry)
    fun r => if r.claimable entry then [.claimed entry.jobId] else [] := by
  intro r
  have hlog : (if r.claimable entry then [Event.claimed entry.jobId] else []).any Event.isPut =
      false := by
    split <;> rfl
  unfold Redis.claim
  split
  · exact ⟨rfl, rfl, subset_rfl, hlog⟩
  · split <;> exact ⟨rfl, rfl, subset_rfl, hlog⟩

theorem bystanding_sremInflight (jobId : JobId) : Bystanding (Redis.sremInflight jobId) fun _ => [] :=
  fun _ => ⟨rfl, rfl, Finset.erase_subset .., rfl⟩

theorem Redis.unmoved_countReleased (state : JobState) (r : Redis) :
    (r.countReleased state).submitWakeup = r.submitWakeup ∧
      (r.countReleased state).pollWakeup = r.pollWakeup ∧
        (r.countReleased state).inflight = r.inflight := by
  unfold Redis.countReleased
  cases state.backendId with
  | none => exact ⟨rfl, rfl, rfl⟩
  | some backendId =>
    cases nonEmpty state.batchId with
    | none => exact ⟨rfl, rfl, rfl⟩
    | some batchId =>
      dsimp only
      split <;> exact ⟨rfl, rfl, rfl⟩

theorem bystanding_releaseDone (now : ℚ) (jobId : JobId) (state : JobState) (run : EngineRun) :
    Bystanding (Redis.releaseDone now jobId state run) fun _ => [] := by
  intro r
  unfold Redis.releaseDone
  split
  · obtain ⟨hsubmit, hpoll, hin⟩ := Redis.unmoved_countReleased state
      (((r.sremInflight jobId).zaddHarvest jobId now).hmod jobId (JobHash.storing run))
    obtain ⟨hsubmit', hpoll', hin'⟩ := Redis.unmoved_hmod jobId (JobHash.storing run)
      ((r.sremInflight jobId).zaddHarvest jobId now)
    refine ⟨hsubmit.trans hsubmit', hpoll.trans hpoll', ?_, rfl⟩
    rw [hin, hin']
    exact Finset.erase_subset ..
  · exact ⟨rfl, rfl, subset_rfl, rfl⟩

theorem bystanding_markFailed (now : ℚ) (jobId : JobId) (error : String) (stateTtl : Nat) :
    Bystanding (Redis.markFailed now jobId error stateTtl) fun _ => [] := by
  refine bystanding_of_eq fun r => ?_
  unfold Redis.markFailed
  obtain ⟨hsubmit, hpoll, hin⟩ := Redis.unmoved_hmod jobId JobHash.clearHarvest
    (((r.hset jobId (JobHash.failed now error)).expire jobId stateTtl).zremHarvest jobId)
  obtain ⟨hsubmit', hpoll', hin'⟩ := Redis.unmoved_hmod jobId (JobHash.expiring stateTtl)
    (r.hset jobId (JobHash.failed now error))
  exact ⟨hsubmit.trans hsubmit', hpoll.trans hpoll', hin.trans hin'⟩

theorem Redis.unmoved_enqueue (stateTtl : Nat) (jobs : List (JobId × JobState)) (r : Redis) :
    (jobs.foldl (Redis.enqueue stateTtl) r).submitWakeup = r.submitWakeup ∧
      (jobs.foldl (Redis.enqueue stateTtl) r).pollWakeup = r.pollWakeup ∧
        (jobs.foldl (Redis.enqueue stateTtl) r).inflight = r.inflight := by
  induction jobs generalizing r with
  | nil => exact ⟨rfl, rfl, rfl⟩
  | cons job jobs ih =>
    obtain ⟨hsubmit, hpoll, hin⟩ := ih (r.enqueue stateTtl job)
    obtain ⟨hsubmit', hpoll', hin'⟩ := Redis.unmoved_hmod job.1 (JobHash.expiring stateTtl)
      (r.hset job.1 job.2.toHash.overlay)
    exact ⟨hsubmit.trans hsubmit', hpoll.trans hpoll', hin.trans hin'⟩

theorem Redis.unmoved_requeueOrphan (now claimGraceS : ℚ) (jobId : JobId) (r : Redis) :
    (r.requeueOrphan now claimGraceS jobId).submitWakeup = r.submitWakeup ∧
      (r.requeueOrphan now claimGraceS jobId).pollWakeup = r.pollWakeup ∧
        (r.requeueOrphan now claimGraceS jobId).inflight = r.inflight := by
  unfold Redis.requeueOrphan
  split
  · exact ⟨rfl, rfl, rfl⟩
  · split <;> exact ⟨rfl, rfl, rfl⟩

/-! ## The state functions -/

/-- What there is to know of a bell about the state functions that make work or ring. -/
structure Ringer (b : Bell Redis Event) : Prop where
  bystanding : ∀ {effect log}, Bystanding effect log → Hushed b effect log
  signalSubmit : Settles b signalSubmit
  addPending : ∀ priority jobId score, Settles b (addPending priority jobId score)
  enqueueJobs : ∀ jobs stateTtl, Settles b (enqueueJobs jobs stateTtl)
  requeueOrphans : ∀ jobIds now claimGraceS, Settles b (requeueOrphans jobIds now claimGraceS)
  setRunning : ∀ settings now jobId engineJobId backendUrl backendId stateTtl,
    Settles b (setRunning settings now jobId engineJobId backendUrl backendId stateTtl)

namespace Ringer

variable {b : Bell Redis Event} (h : Ringer b)

include h

theorem call {β : Type} {reply : Redis → β} {effect : Redis → Redis}
    (hp : Bystanding effect fun _ => []) : Settles b (Prog.call reply effect : RedisProg β) :=
  settles_call (h.bystanding hp)

theorem query {β : Type} (reply : Redis → β) : Settles b (Prog.query reply : RedisProg β) :=
  h.call bystanding_id

/-- A command on other keys than the wakeup lists and the in-flight set. -/
theorem other {β : Type} {reply : Redis → β} {effect : Redis → Redis}
    (hp : ∀ r, ((effect r).submitWakeup, (effect r).pollWakeup, (effect r).inflight) =
      (r.submitWakeup, r.pollWakeup, r.inflight)) :
    Settles b (Prog.call reply effect : RedisProg β) := by
  refine h.call (bystanding_of_eq fun r => ?_)
  obtain ⟨hsubmit, hrest⟩ := Prod.mk.inj (hp r)
  exact ⟨hsubmit, Prod.mk.inj hrest⟩

theorem getJob (jobId : JobId) : Settles b (getJob jobId) := h.query _

theorem promoteMembers (time : ℚ) (jobIds : List JobId) : Settles b (promoteMembers time jobIds) := by
  induction jobIds with
  | nil => exact settles_pure _
  | cons jobId jobIds ih =>
    refine Settles.bind ?_ fun _ => ih.bind fun _ => settles_pure _
    refine (h.other fun _ => by rfl).bind fun removed => ?_
    cases removed with
    | false => exact settles_pure _
    | true =>
      refine (h.getJob jobId).bind fun state => ?_
      cases state with
      | none => exact settles_pure _
      | some state => exact (h.addPending _ _ _).bind fun _ => settles_pure _

theorem claimPending (now : ℚ) (entries : List QueueEntry) :
    Settles b (claimPending now entries) := by
  induction entries with
  | nil => exact settles_pure _
  | cons entry entries ih =>
    exact (settles_callLog (h.bystanding (bystanding_claim now entry))).bind fun _ =>
      ih.bind fun _ => settles_pure _

theorem dropPending (entries : List QueueEntry) : Settles b (dropPending entries) := by
  induction entries with
  | nil => exact settles_pure _
  | cons entry entries ih => exact (h.other fun _ => by rfl).bind fun _ => ih

theorem scheduleRetry (now : ℚ) (jobId : JobId) (originalScore delayS : ℚ)
    (avoidBackendId : Option BackendId) :
    Settles b (scheduleRetry now jobId originalScore delayS avoidBackendId) := by
  refine (h.other fun _ => by rfl).bind fun _ => Settles.bind ?_ fun _ => h.other fun _ => by rfl
  cases avoidBackendId with
  | none => exact settles_pure _
  | some avoid => exact (h.query _).bind fun _ => h.other fun _ => by rfl

theorem countBatchPage (state : Option JobState) (status : JobStatus) :
    Settles b (countBatchPage state status) := by
  unfold Taas.countBatchPage
  split
  · exact settles_pure _
  · split
    · exact settles_pure _
    · split
      · exact settles_pure _
      · exact Settles.map _ (h.other fun _ => by rfl)

theorem releaseBatch (backendId : BackendId) (state : Option JobState) :
    Settles b (releaseBatch backendId state) := by
  unfold Taas.releaseBatch
  split
  · exact settles_pure _
  · exact (h.other fun _ => by rfl).bind fun _ => (h.other fun _ => by rfl).when

theorem releaseSlot (removed : Bool) (state : Option JobState) :
    Settles b (releaseSlot removed state) := by
  unfold Taas.releaseSlot
  split
  · exact settles_pure _
  · exact ((h.other fun _ => by rfl).bind fun _ => h.releaseBatch _ state).when

theorem countFailed (removed : Bool) (state : Option JobState) :
    Settles b (countFailed removed state) := by
  unfold Taas.countFailed
  split
  · exact settles_pure _
  · split
    · exact h.other fun _ => by rfl
    · exact (h.other fun _ => by rfl).when

theorem setFailed (now : ℚ) (jobId : JobId) (error : String) (stateTtl : Nat) :
    Settles b (setFailed now jobId error stateTtl) := by
  refine (h.getJob jobId).bind fun state => (h.countBatchPage state _).bind fun _ => ?_
  refine (h.call (bystanding_markFailed now jobId error stateTtl)).bind fun _ => ?_
  refine (h.call (bystanding_sremInflight jobId)).bind fun removed => ?_
  exact (h.countFailed removed state).bind fun _ => h.signalSubmit.when.bind fun _ =>
    (h.releaseSlot removed state).bind fun _ => h.signalSubmit.when.bind fun _ => settles_pure _

theorem settleDone (removed harvestRemoved : Bool) (state : Option JobState) :
    Settles b (settleDone removed harvestRemoved state) := by
  cases removed with
  | false => exact h.signalSubmit.when
  | true =>
    cases state with
    | none => exact settles_pure ()
    | some state =>
      -- Its signal comes before the batch's slots are given back, which is no new work.
      change Settles b (releaseDoneSlot (some state))
      unfold releaseDoneSlot
      refine (h.other fun _ => by rfl).bind fun _ => ?_
      split
      · exact settles_pure _
      · exact (h.other fun _ => by rfl).bind fun _ => h.signalSubmit.bind fun _ =>
          h.releaseBatch _ _

theorem setDone (now : ℚ) (jobId : JobId) (stateTtl : Nat) (state : Option JobState) :
    Settles b (setDone now jobId stateTtl state) := by
  refine Settles.bind ?_ fun state => (h.countBatchPage state _).bind fun _ => ?_
  · unfold doneState
    split
    · exact h.getJob jobId
    · exact settles_pure _
  · refine (h.other fun _ => by rfl).bind fun _ => ?_
    refine (h.call (bystanding_hmod jobId _)).bind fun _ => ?_
    refine (h.call (bystanding_sremInflight jobId)).bind fun removed => ?_
    refine (h.other fun _ => by rfl).bind fun harvestRemoved => ?_
    exact (h.call (bystanding_hmod jobId _)).bind fun _ =>
      (h.settleDone removed harvestRemoved state).bind fun _ => settles_pure _

theorem giveUpSlot (jobId : JobId) : Settles b (giveUpSlot jobId) := by
  refine (h.getJob jobId).bind fun state => ?_
  refine (h.call (bystanding_sremInflight jobId)).bind fun removed => Settles.bind ?_ fun _ =>
    (h.releaseSlot removed state).bind fun _ => settles_pure _
  unfold countRequeued
  split
  · exact settles_pure _
  · exact (h.other fun _ => by rfl).when

theorem releaseAndRequeue (now : ℚ) (jobId : JobId) (score : ℚ) (stateTtl : Nat) (delayS : ℚ)
    (avoidBackendId : Option BackendId) :
    Settles b (releaseAndRequeue now jobId score stateTtl delayS avoidBackendId) := by
  refine (h.giveUpSlot jobId).bind fun state => ?_
  refine (h.other fun _ => by rfl).bind fun _ => ?_
  refine (h.call (bystanding_hmod jobId _)).bind fun _ => ?_
  refine (h.other fun _ => by rfl).bind fun _ => ?_
  refine (h.call (bystanding_hmod jobId _)).bind fun _ => ?_
  unfold requeueReleased
  split
  · exact h.scheduleRetry now jobId score delayS avoidBackendId
  · exact h.addPending _ jobId score

/-- **No call of a state function leaves new work unannounced.** -/
theorem settles_prog (claimGraceS now : ℚ) (a : Action) : Settles b (a.prog claimGraceS now) := by
  cases a with
  | wait duration => exact settles_pure _
  | expire jobId => exact Settles.map _ (h.other fun _ => by rfl)
  | enqueueJobs jobs stateTtl => exact (h.enqueueJobs jobs stateTtl).map _
  | promoteDueRetries => exact ((h.query _).bind fun _ => h.promoteMembers now _).map _
  | claimPending entries => exact h.claimPending now entries
  | dropPending entries => exact (h.dropPending entries).map _
  | requeueOrphans jobIds => exact (h.requeueOrphans jobIds now claimGraceS).map _
  | resolve jobId r =>
    refine Settles.map _ ?_
    cases r with
    | requeueJob originalScore =>
      exact (h.getJob jobId).bind fun state => h.addPending _ jobId originalScore
    | scheduleRetry originalScore delayS avoidBackendId =>
      exact h.scheduleRetry now jobId originalScore delayS avoidBackendId
    | setRunning settings engineJobId backendUrl backendId stateTtl =>
      exact h.setRunning settings now jobId engineJobId backendUrl backendId stateTtl
    | setFailed error stateTtl => exact (h.setFailed now jobId error stateTtl).map _
  | outcome jobId o =>
    refine Settles.map _ ?_
    cases o with
    | releaseDone state run =>
      exact Settles.map _ ((h.call (bystanding_releaseDone now jobId state run)).bind fun _ =>
        h.signalSubmit.when.bind fun _ => settles_pure _)
    | releaseAndRequeue score stateTtl delayS avoidBackendId =>
      exact h.releaseAndRequeue now jobId score stateTtl delayS avoidBackendId
    | scheduleNextPoll at' => exact h.other fun _ => by rfl
    | rescheduleHarvest delayS => exact h.other fun _ => by rfl
    | setDone stateTtl state => exact (h.setDone now jobId stateTtl state).map _
    | setFailed error stateTtl => exact (h.setFailed now jobId error stateTtl).map _

end Ringer

/-! ## The submit worker's list -/

theorem Redis.unmoved_countRunning (backendId : BackendId) (state : Option JobState) (r : Redis) :
    (r.countRunning backendId state).submitWakeup = r.submitWakeup ∧
      (r.countRunning backendId state).pollWakeup = r.pollWakeup ∧
        (r.countRunning backendId state).inflight = r.inflight := by
  cases state with
  | none => exact ⟨rfl, rfl, rfl⟩
  | some state =>
    unfold Redis.countRunning
    dsimp only
    split <;> exact ⟨rfl, rfl, rfl⟩

theorem hushed_submit {effect : Redis → Redis} {log : Redis → List Event}
    (h : Bystanding effect log) : Hushed submitBell effect log :=
  fun r => ⟨(h r).1, (h r).2.2.2⟩

/-- Whatever came before it, a signal announces it. -/
theorem rings_signalSubmit {owed : Bool} {Q : Unit → Bool → Prop} (hQ : Q () false) :
    signalSubmit.Rings submitBell owed Q := rings_push (fun _ => Nat.lt_succ_self _) hQ

/-- Calls that put jobs on the queues, whatever they leave unannounced. -/
theorem rings_enqueueTransactions (stateTtl : Nat) (jobs : List (List (JobId × JobState)))
    (owed : Bool) : (enqueueTransactions stateTtl jobs).Rings submitBell owed fun _ _ => True := by
  induction jobs generalizing owed with
  | nil => trivial
  | cons chunk rest ih =>
    exact (rings_callLog (Q := fun _ _ => True)
      (fun r => (Redis.unmoved_enqueue stateTtl chunk r).1) fun _ => trivial).bind fun _ o _ => ih o

/-- What the scripts leave unannounced, they name. -/
theorem rings_requeueOrphanScripts (now claimGraceS : ℚ) (jobIds : List JobId) (owed : Bool) :
    (requeueOrphanScripts now claimGraceS jobIds).Rings submitBell owed fun requeued o =>
      o = true → owed = true ∨ requeued ≠ [] := by
  induction jobIds generalizing owed with
  | nil => exact fun h => .inl h
  | cons jobId jobIds ih =>
    refine Rings.bind (P := fun added o => o = true → owed = true ∨ added = true)
      (rings_callLog (fun r => (Redis.unmoved_requeueOrphan now claimGraceS jobId r).1) ?_)
      fun added o ho => (ih o).bind fun rest o' ho' => ?_
    · intro r h
      cases hr : r.requeues now claimGraceS jobId with
      | true => exact .inr rfl
      | false => exact .inl (by simpa [submitBell, hr] using h)
    · cases added with
      | true => exact fun _ => .inr (List.cons_ne_nil jobId rest)
      | false => exact fun h => (ho' h).imp_left fun h => (ho h).resolve_right Bool.false_ne_true

theorem ringer_submit : Ringer submitBell where
  bystanding := hushed_submit
  signalSubmit _ := rings_signalSubmit fun h => Bool.noConfusion h
  addPending priority jobId score owed :=
    (rings_callLog (Q := fun _ _ => True) (fun _ => rfl) fun _ => trivial).bind fun _ o _ =>
      (rings_call (Q := fun _ _ => True) (hushed_submit (bystanding_of_eq fun _ => ⟨rfl, rfl, rfl⟩))
        fun _ => trivial).bind fun _ o' _ => rings_signalSubmit fun h => Bool.noConfusion h
  enqueueJobs jobs stateTtl owed := by
    cases jobs with
    | nil => exact fun h => h
    | cons job jobs =>
      exact (rings_enqueueTransactions stateTtl _ owed).bind fun _ o _ =>
        rings_signalSubmit fun h => Bool.noConfusion h
  requeueOrphans jobIds now claimGraceS owed :=
    (rings_requeueOrphanScripts now claimGraceS jobIds owed).bind fun requeued o ho =>
      (Rings.when (fun _ => rings_signalSubmit fun h => Bool.noConfusion h) fun hempty h =>
        (ho h).resolve_right fun hne => by
          cases requeued with
          | nil => exact hne rfl
          | cons _ _ => cases hempty).bind fun _ _ ho => ho
  setRunning settings now jobId engineJobId backendUrl backendId stateTtl := by
    -- The job enters the in-flight set, which is no work for the submit worker.
    have hquiet : ∀ {effect : Redis → Redis}, (∀ r, (effect r).submitWakeup = r.submitWakeup) →
        Hushed submitBell effect fun _ => [] := fun h r => ⟨h r, rfl⟩
    refine Settles.bind (settles_call (hquiet fun _ => rfl)) fun _ => ?_
    refine Settles.bind (settles_call (hquiet fun r => (Redis.unmoved_hmod jobId _ r).1)) fun _ => ?_
    refine Settles.bind (settles_call (hquiet fun _ => rfl)) fun added => ?_
    refine Settles.bind (Settles.when ?_) fun _ => settles_call (hquiet fun _ => rfl)
    exact Settles.bind (settles_call (hquiet fun _ => rfl)) fun state =>
      settles_call (hquiet fun r => (Redis.unmoved_countRunning backendId state r).1)

/-! ## The poller's list -/

theorem hushed_poll {effect : Redis → Redis} {log : Redis → List Event}
    (h : ∀ r, (effect r).pollWakeup = r.pollWakeup ∧ (effect r).inflight ⊆ r.inflight) :
    Hushed pollBell effect log := fun r => ⟨(h r).1, by simp [pollBell, (h r).2]⟩

theorem rings_signalPoll {owed : Bool} {Q : Unit → Bool → Prop} (hQ : Q () false) :
    signalPoll.Rings pollBell owed Q := rings_push (fun _ => Nat.lt_succ_self _) hQ

theorem settles_signalSubmit_poll : Settles pollBell signalSubmit :=
  settles_call (hushed_poll fun _ => ⟨rfl, subset_rfl⟩)

theorem ringer_poll : Ringer pollBell where
  bystanding h := hushed_poll fun r => ⟨(h r).2.1, (h r).2.2.1⟩
  signalSubmit := settles_signalSubmit_poll
  addPending priority jobId score :=
    Settles.bind (settles_callLog (hushed_poll fun _ => ⟨rfl, subset_rfl⟩)) fun _ =>
      Settles.bind (settles_call (hushed_poll fun _ => ⟨rfl, subset_rfl⟩)) fun _ =>
        settles_signalSubmit_poll
  enqueueJobs jobs stateTtl := by
    refine Settles.bind ?_ fun _ => settles_signalSubmit_poll.when
    induction chunks enqueueChunk jobs with
    | nil => exact settles_pure _
    | cons chunk rest ih =>
      exact Settles.bind (settles_callLog (hushed_poll fun r =>
        (Redis.unmoved_enqueue stateTtl chunk r).2.imp id fun h => h.subset)) fun _ => ih
  requeueOrphans jobIds now claimGraceS := by
    refine Settles.bind ?_ fun _ => settles_signalSubmit_poll.when.bind fun _ => settles_pure _
    induction jobIds with
    | nil => exact settles_pure _
    | cons jobId jobIds ih =>
      exact Settles.bind (settles_callLog (hushed_poll fun r =>
        (Redis.unmoved_requeueOrphan now claimGraceS jobId r).2.imp id fun h => h.subset)) fun _ =>
          ih.bind fun _ => settles_pure _
  setRunning settings now jobId engineJobId backendUrl backendId stateTtl owed := by
    -- the job may have entered the in-flight set; the signal at the end announces it
    have hany : ∀ {β : Type} {reply : Redis → β} {effect : Redis → Redis} {o : Bool},
        (∀ r, (effect r).pollWakeup = r.pollWakeup) →
          (call reply effect : RedisProg β).Rings pollBell o fun _ _ => True :=
      fun h => rings_callLog h fun _ => trivial
    refine Rings.bind (hany fun _ => rfl) fun _ _ _ => ?_
    refine Rings.bind (hany fun r => (Redis.unmoved_hmod jobId _ r).2.1) fun _ _ _ => ?_
    refine Rings.bind (hany fun _ => rfl) fun added _ _ => ?_
    refine Rings.bind (Rings.when (Q := fun _ _ => True) (fun _ => ?_) fun _ => trivial)
      fun _ _ _ => rings_signalPoll fun h => Bool.noConfusion h
    exact Rings.bind (hany fun _ => rfl) fun state _ _ =>
      hany fun r => (Redis.unmoved_countRunning backendId state r).2.1

/-! ## Every interleaving -/

section

variable {b : Bell Redis Event} {wait : ℚ → TimedProg Unit} {claimGraceS : ℚ}

theorem attends_callActions (h : Ringer b) (calls : List Action) :
    (callActions b claimGraceS calls).Attends b false fun _ f => f = false := by
  induction calls with
  | nil => rfl
  | cons a as ih =>
    have hquery : ∀ t : Timed Redis, b.Covers false false t (id t) [] := fun _ _ hu hs => hu hs
    have hcall : ∀ now, ((fun _ => ()) <$> b.timed (a.prog claimGraceS now)).Attends b false
        fun _ f => f = false := fun now =>
      (attends_timed ((h.settles_prog claimGraceS now a false).imp fun _ _ ho =>
        Bool.eq_false_iff.mpr fun h => Bool.noConfusion (ho h))).bind fun _ _ hf => hf
    refine Attends.bind (P := fun _ f => f = false) ?_ fun _ _ hf => hf ▸ ih
    refine Attends.bind (P := fun _ f => f = false) (attends_callLog hquery fun _ => rfl)
      fun now _ hf => hf ▸ hcall now

/-- Nobody in the pool leaves work unannounced when it waits or has ended. -/
theorem attends_hand (h : Ringer b) (hwait : ∀ timeout, (wait timeout).Attends b false fun _ _ => True)
    (hand : Hand) : (hand.prog b claimGraceS wait).Attends b false fun _ f =>
      f = true → hand.isWorker = true := by
  cases hand with
  | worker passes =>
    refine Attends.imp (attends_worker hwait fun round hround => ?_) fun _ _ _ _ => rfl
    obtain ⟨pass, -, rfl⟩ := List.mem_map.mp hround
    exact (attends_callActions h pass.1).bind fun _ _ hf => hf
  | caller calls =>
    exact (attends_callActions h calls).imp fun _ _ hf hf' => Bool.noConfusion (hf.symm.trans hf')
  | clock durations =>
    exact (attends_clock durations).imp fun _ _ hf hf' => Bool.noConfusion (hf.symm.trans hf')

theorem each_hand {C : (Timed Redis → Timed Redis) → (Timed Redis → List (Chime Event)) → Prop}
    (h : b.Ruled C) (hwait : ∀ timeout, (wait timeout).Each C) (hand : Hand)
    (hforward : hand.Forward) : (hand.prog b claimGraceS wait).Each C := by
  have hcalls : ∀ calls, (callActions b claimGraceS calls).Each C := by
    intro calls
    induction calls with
    | nil => trivial
    | cons a as ih =>
      exact Each.bind (Each.bind (each_call h.read) fun now => (h.timed _).map _) fun _ => ih
  cases hand with
  | worker passes =>
    refine h.worker hwait fun round hround => ?_
    obtain ⟨pass, -, rfl⟩ := List.mem_map.mp hround
    exact (hcalls pass.1).bind fun _ => each_pure _
  | caller calls => exact hcalls calls
  | clock durations => exact h.clock hforward

variable {ι : Type} [DecidableEq ι] {hands : ι → Option Hand} {t : Timed Redis}
  {q : Pool (Timed Redis) (Chime Event) ι}

/-- Everybody has come to rest: somebody waits, and who does not wait is no worker and done. -/
def AtRest (hands : ι → Option Hand) (q : Pool (Timed Redis) (Chime Event) ι) : Prop :=
  (∃ i, q.waits i = true) ∧ ∀ i hand, hands i = some hand →
    q.waits i = true ∨ q.ended i = true ∧ hand.isWorker = false

/-- What happened after `past` and some work, up to now: a worker began to look, or the list was
dropped when nobody had emptied it for `ttl` seconds. -/
def Answered (ttl : ℚ) (past future : List (Chime Event)) : Prop :=
  .look ∈ future ∨ ∃ fs s gs, future = fs ++ .lapsed s :: gs ∧
    ∀ d, .drained d ∈ past ++ fs → d + ttl ≤ s

theorem answered_of_atRest (h : Ringer b)
    (hattends : ∀ timeout, (wait timeout).Attends b false fun _ _ => True)
    (heach : ∀ timeout, (wait timeout).Each b.KeepsFresh)
    (hforward : ∀ i hand, hands i = some hand → hand.Forward)
    (hr : Pool.RunWhere (fun _ _ => True) (handsPool b claimGraceS wait hands t) q)
    (hrest : AtRest hands q) {past future : List (Chime Event)}
    (hw : q.history = past ++ .work :: future) : Answered b.ttl past future := by
  have hstart : (handsPool b claimGraceS wait hands t).Attended b fun i f =>
      f = true → ∀ hand, hands i = some hand → hand.isWorker = true := by
    refine ⟨fun _ => false, fun i c hc => ?_, fun h => by cases h⟩
    obtain ⟨hand, hhand, rfl⟩ := Option.map_eq_some_iff.mp hc
    refine (attends_hand h hattends hand).imp fun _ _ hf hf' hand' hhand' => ?_
    obtain rfl := Option.some.inj (hhand.symm.trans hhand')
    exact hf hf'
  obtain ⟨⟨i, hi⟩, hall⟩ := hrest
  have hseen : Chime.unseen false q.history = false := by
    refine (hstart.run hr).seen hi fun j hj => ?_
    obtain ⟨hand, hhand⟩ := Option.isSome_iff_exists.mp (Option.isSome_map.symm.trans (hr.isSome hj))
    refine (hall j hand hhand).imp_right fun ⟨hend, hworker⟩ => ⟨hend, fun hQ => ?_⟩
    exact Bool.noConfusion (hworker.symm.trans (hQ rfl hand hhand))
  have hfresh : b.Fresh q.shared q.history := by
    refine Bell.fresh_of_run hr (fun j c hc => ?_) ⟨by simp [handsPool], by simp [handsPool], .nil⟩
    obtain ⟨hand, hhand, rfl⟩ := Option.map_eq_some_iff.mp hc
    exact each_hand Bell.ruled_keepsFresh heach hand (hforward j hand hhand)
  rw [hw] at hseen hfresh
  refine (Chime.exists_of_unseen hseen).imp_right fun ⟨s, hs⟩ => ?_
  obtain ⟨fs, gs, rfl⟩ := List.append_of_mem hs
  refine ⟨fs, s, gs, rfl, fun d hd => ?_⟩
  rw [← List.cons_append, ← List.append_assoc] at hfresh
  refine hfresh.lapsed ?_
  rcases List.mem_append.mp hd with hd | hd
  · exact List.mem_append_left _ hd
  · exact List.mem_append_right _ (List.mem_cons_of_mem _ hd)

end

section

variable {ι : Type} [DecidableEq ι] {hands : ι → Option Hand} {t : Timed Redis}
  {q : Pool (Timed Redis) (Chime Event) ι} {claimGraceS : ℚ}

/-- **No wakeup of the submit workers is lost.** When they wait, every job that was put on a
pending queue before was put there before one of them began to look, unless the wakeup list was
dropped since then; that happens only when nobody emptied it for a minute. To look is to begin a
pass: `run_tick` comes to the queues only if its budget is not 0. -/
theorem submit_wakeups (hforward : ∀ i hand, hands i = some hand → hand.Forward)
    (hr : Pool.RunWhere (fun _ _ => True)
      (handsPool submitBell claimGraceS waitForSubmitSignal hands t) q)
    (hrest : AtRest hands q) {past future : List (Chime Event)} {jobId : JobId}
    (hput : q.history = past ++ .note (.put jobId) :: future) :
    Answered submitWakeupTtlSeconds past future := by
  have hnoticed : Chime.Noticed Event.isPut q.history := by
    have hruled := Chime.ruled_noticed (b := submitBell) fun _ _ _ => rfl
    refine Chime.noticed_of_run hr (fun i c hc => ?_) (Chime.noticed_of_noteless (by simp [handsPool]))
    obtain ⟨hand, hhand, rfl⟩ := Option.map_eq_some_iff.mp hc
    exact each_hand hruled hruled.waitForSignal hand (hforward i hand hhand)
  obtain ⟨fs, gs, rfl⟩ := List.append_of_mem (hnoticed past _ future hput rfl)
  rw [← List.cons_append, ← List.append_assoc] at hput
  rcases answered_of_atRest ringer_submit
    (fun timeout => (attends_waitForSignal timeout).imp fun _ _ _ => trivial)
    Bell.ruled_keepsFresh.waitForSignal hforward hr hrest hput with hlook | ⟨as, s, bs, rfl, hs⟩
  · exact .inl (List.mem_append_right _ (List.mem_cons_of_mem _ hlook))
  · refine .inr ⟨fs ++ .work :: as, s, bs, by simp, fun d hd => hs d ?_⟩
    simpa using hd

def wokenJob : JobState where
  username := "u"
  fmt := "alto"
  outputs := {"alto"}
  submittedAt := 0

/-- A worker with two passes, and one call by somebody else. -/
def wokenHands (call : Action) : Bool → Option Hand
  | true => some (.worker [([], 5), ([.promoteDueRetries], 5)])
  | false => some (.caller [call])

theorem forward_wokenHands (call : Action) (i : Bool) (hand : Hand)
    (h : wokenHands call i = some hand) : hand.Forward := by
  cases i <;> exact Option.some.inj h ▸ trivial

theorem atRest_wokenHands {call : Action} {q : Pool (Timed Redis) (Chime Event) Bool}
    (hworker : q.waits true = true) (hcaller : q.ended false = true) :
    AtRest (wokenHands call) q := by
  refine ⟨⟨true, hworker⟩, fun i hand h => ?_⟩
  cases i with
  | true => exact .inl hworker
  | false => exact .inr ⟨hcaller, Option.some.inj h ▸ rfl⟩

/-- The worker has looked when the job is enqueued; it is woken and looks again. -/
theorem submit_wakeups_sample : ∃ q : Pool (Timed Redis) (Chime Event) Bool,
    q.history = [.look, .note (.put 1), .work, .drained 0, .look] ∧
      Answered 60 [.look] [.work, .drained 0, .look] := by
  obtain ⟨q, hq, hP⟩ := Pool.exists_run_of_scheduleWhere (fun _ _ => True)
    (fun _ _ => true) (fun _ _ _ => trivial)
    (p := handsPool submitBell 300 waitForSubmitSignal
      (wokenHands (.enqueueJobs [(1, wokenJob)] 60)) { store := {} })
    (l := [true, true] ++ List.replicate 4 false ++ List.replicate 6 true)
    (P := fun q => q.waits true && (q.ended false &&
      decide (q.history = [.look, .note (.put 1), .work, .drained 0, .look])))
    (by decide +kernel)
  simp only [Bool.and_eq_true, decide_eq_true_eq] at hP
  refine ⟨q, hP.2.2, ?_⟩
  exact submit_wakeups (forward_wokenHands _) hq (atRest_wokenHands hP.1 hP.2.1) hP.2.2

/-- **No wakeup of the poller is lost.** The same for the jobs that entered the in-flight set,
whatever timeouts the poller waits with. -/
theorem poll_wakeups (hforward : ∀ i hand, hands i = some hand → hand.Forward)
    (hr : Pool.RunWhere (fun _ _ => True)
      (handsPool pollBell claimGraceS waitForPollSignal hands t) q)
    (hrest : AtRest hands q) {past future : List (Chime Event)}
    (hwork : q.history = past ++ .work :: future) :
    Answered pollWakeupTtlSeconds past future := by
  refine answered_of_atRest ringer_poll (fun timeout => ?_) (fun timeout => ?_) hforward hr hrest hwork
  · unfold waitForPollSignal
    split
    · trivial
    · exact (attends_waitForSignal timeout).imp fun _ _ _ => trivial
  · unfold waitForPollSignal
    split
    · trivial
    · exact Bell.ruled_keepsFresh.waitForSignal timeout

theorem poll_wakeups_sample : ∃ q : Pool (Timed Redis) (Chime Event) Bool,
    q.history = [.look, .work, .drained 0, .look] ∧
      Answered 60 [.look] [.drained 0, .look] := by
  obtain ⟨q, hq, hP⟩ := Pool.exists_run_of_scheduleWhere (fun _ _ => True)
    (fun _ _ => true) (fun _ _ _ => trivial)
    (p := handsPool pollBell 300 waitForPollSignal
      (wokenHands (.resolve 1 (.setRunning {} "e" "http://e" 7 60))) { store := {} })
    (l := [true, true] ++ List.replicate 8 false ++ List.replicate 6 true)
    (P := fun q => q.waits true && (q.ended false &&
      decide (q.history = [.look, .work, .drained 0, .look])))
    (by decide +kernel)
  simp only [Bool.and_eq_true, decide_eq_true_eq] at hP
  refine ⟨q, hP.2.2, ?_⟩
  exact poll_wakeups (forward_wokenHands _) hq (atRest_wokenHands hP.1 hP.2.1) hP.2.2

end

end Taas

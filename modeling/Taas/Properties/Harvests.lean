import Taas.Infra.Runs
import Taas.Properties.Places
import Taas.Workers.Harvests

/-!
# A finished engine run is harvested before its state expires

The hash gets its TTL from the dispatch; neither `release_done` nor `reschedule_harvest` renews
it.

* `Vigil.InTime` — no more than that TTL passes from the dispatch until the job is harvested, and
  nobody acts on what they read of the job before its harvest was queued.
* `Vigil.Good` — in flight or waiting to be harvested, the job has its hash, until then.
* `kept_until_harvested` — then the job waits with its hash until a harvest ends it.
* `harvest_forgotten` — an outage that outlasts the TTL.
-/

namespace Taas

open Infra Infra.Prog

/-! ## What the calls do to the job -/

namespace JobView

/-- The job is in flight, or waits to be harvested. -/
def Working (v : JobView) : Prop := v.inflight ∨ v.harvest ≠ none

/-- The job's hash is whole, and has no TTL of its own. -/
def Whole (v : JobView) : Prop := ∃ h, v.hash = some h ∧ h.Readable ∧ h.ttl = none

variable {v : JobView}

theorem Whole.hset (h : v.Whole) {f : JobHash → JobHash} (hs : ∀ h, (f h).submit = h.submit)
    (ht : ∀ h, (f h).ttl = h.ttl) : (v.hset f).Whole := by
  obtain ⟨hash, hv, hread, httl⟩ := h
  exact ⟨f hash, by simp [JobView.hset, hv], hread.keep (hs hash), (ht hash).trans httl⟩

theorem Whole.release (h : v.Whole) (now : ℚ) (run : EngineRun) : (v.release now run).Whole := by
  obtain ⟨hash, hv, hread, httl⟩ := h
  exact ⟨hash.storing run, by simp [JobView.release, hmod, zaddHarvest, sremInflight, hv],
    hread.keep rfl, httl⟩

theorem Whole.state (h : v.Whole) : v.state ≠ none := by
  obtain ⟨hash, hv, hread, -⟩ := h
  rw [JobView.state, hv]
  exact Option.isSome_iff_ne_none.mp hread

/-- A requeued job is neither in flight nor waits to be harvested. -/
theorem not_working_requeued (now score delayS : ℚ) (stateTtl : Nat) (avoid : Option BackendId)
    (priority : Int) :
    ¬((v.backToQueued.cleared stateTtl).requeued now score delayS avoid priority).Working := by
  have hout : ¬(v.backToQueued.cleared stateTtl).Working := by
    simp [Working, backToQueued, cleared, JobView.hset, hmod, zremHarvest, sremInflight]
  unfold requeued
  split
  · cases avoid <;> exact hout
  · exact hout

theorem not_working_failed (now : ℚ) (error : String) (stateTtl : Nat) :
    ¬(v.markFailed now error stateTtl).sremInflight.Working := by
  simp [Working, markFailed, hmod, zremHarvest, sremInflight]

theorem not_working_done (now : ℚ) (stateTtl : Nat) : ¬(v.finishDone now stateTtl).Working := by
  simp [Working, finishDone, hmod, zremHarvest, sremInflight]

end JobView

/-! ## The invariant -/

namespace Vigil

variable {ι : Type} {jobId : JobId} {due : ℚ} {s : Vigil ι}

/-- While the job is in flight or waits to be harvested it has its hash, which expires when the
dispatch said. -/
structure Good (jobId : JobId) (due : ℚ) (s : Vigil ι) : Prop where
  whole : (s.redis.view jobId).Working → (s.redis.view jobId).Whole ∧ s.expiresAt = some due
  /-- A job that waits to be harvested is not polled any more. -/
  place : (s.redis.view jobId).harvest ≠ none →
    ¬(s.redis.view jobId).inflight ∧ ∀ i, s.polls i = .idle
  /-- It still waits, and its hash was there. -/
  harvests : ∀ i, s.harvests i ≠ .idle →
    (s.redis.view jobId).harvest ≠ none ∧ s.harvests i ≠ .read none
  /-- The reaper did not find the job waiting, and it still does not wait. -/
  reaps : ∀ i, s.reaps i ≠ none → (s.redis.view jobId).harvest = none

/-- Time is short only while the job is in flight or waits to be harvested; and when a poll queues
its harvest, nobody is about to act on what they read of the job in flight: no other poller, and no
reaper between its look and its `set_failed`. -/
def InTime (jobId : JobId) (due : ℚ) (s : Vigil ι) : Chore ι → Prop
  | .wait duration => jobId ∈ s.redis.inflight ∨ jobId ∈ s.redis.pendingHarvest →
      s.now + duration < due
  | .endPoll i (.done _) => (∃ state, s.polls i = .read (some state)) → jobId ∈ s.redis.inflight →
      (∀ j, j ≠ i → s.polls j = .idle) ∧ ∀ j, s.reaps j = none
  | _ => True

/-- A harvest of the job succeeds, or fails for good. -/
def Ends (s : Vigil ι) : Chore ι → Prop
  | .endHarvest i outcome => (∃ state, s.harvests i = .read (some state)) ∧ outcome.final = true
  | _ => False

/-- No job that is listed for a poll waits to be harvested. -/
theorem Good.harvest_of_polls (h : s.Good jobId due) {i : ι} (hi : s.polls i ≠ .idle) :
    (s.redis.view jobId).harvest = none := by
  by_contra hharvest
  exact hi ((h.place hharvest).2 i)

theorem Good.harvests_idle (h : s.Good jobId due) (hqueue : (s.redis.view jobId).harvest = none)
    (i : ι) : s.harvests i = .idle := by
  by_contra hbusy
  exact (h.harvests i hbusy).1 hqueue

theorem Good.reaps_none (h : s.Good jobId due) (hqueue : (s.redis.view jobId).harvest ≠ none)
    (i : ι) : s.reaps i = none := by
  by_contra hlook
  exact hqueue (h.reaps i hlook)

theorem view_call (jobId : JobId) (s : Vigil ι) (p : RedisProg Unit) :
    (s.call jobId p).redis.view jobId =
      ((run p s.redis).2.view jobId).hmod JobHash.untimed := by
  show (((run p s.redis).2.hmod jobId JobHash.untimed).view) jobId = _
  rw [Redis.views_hmod, Function.update_self]

/-- A call that leaves a working job its hash. -/
theorem good_call {p : RedisProg Unit} {v : JobView} (hview : (run p s.redis).2.view jobId = v)
    (hwhole : v.Working → v.Whole ∧ s.expiresAt = some due)
    (hplace : v.harvest ≠ none → ¬v.inflight ∧ ∀ i, s.polls i = .idle)
    (hharvests : ∀ i, s.harvests i ≠ .idle → v.harvest ≠ none ∧ s.harvests i ≠ .read none)
    (hreaps : ∀ i, s.reaps i ≠ none → v.harvest = none) : (s.call jobId p).Good jobId due := by
  have hcall : (s.call jobId p).redis.view jobId = v.hmod JobHash.untimed := by
    rw [view_call, hview]
  refine ⟨fun hwork => ?_, fun hharvest => ?_, fun i hbusy => ?_, fun i hlook => ?_⟩
  · rw [hcall] at hwork ⊢
    obtain ⟨⟨h, hv, hread, httl⟩, hexp⟩ := hwhole hwork
    refine ⟨⟨h.untimed, by simp [JobView.hmod, hv], hread.keep rfl, rfl⟩, ?_⟩
    show deadline s.now s.expiresAt ((run p s.redis).2.jobs.lookup jobId) = some due
    rw [← Redis.view_hash, hview, hv, deadline, Option.bind_some, httl]
    exact hexp
  · rw [hcall] at hharvest ⊢
    exact hplace hharvest
  · rw [hcall]
    exact hharvests i hbusy
  · rw [hcall]
    exact hreaps i hlook

/-- A call that leaves the job neither in flight nor waiting to be harvested. -/
theorem good_call_of_not_working {p : RedisProg Unit} {v : JobView}
    (hview : (run p s.redis).2.view jobId = v) (hout : ¬v.Working)
    (hidle : ∀ i, s.harvests i = .idle) : (s.call jobId p).Good jobId due := by
  have hqueue : v.harvest = none := by
    by_contra hharvest
    exact hout (Or.inr hharvest)
  exact good_call hview (fun hwork => absurd hwork hout)
    (fun hharvest => absurd hqueue hharvest) (fun i hbusy => absurd (hidle i) hbusy)
    fun _ _ => hqueue

section

variable [DecidableEq ι]

@[simp] theorem setPoll_polls (i : ι) (a : PassAt) :
    (s.setPoll i a).polls = Function.update s.polls i a := rfl

@[simp] theorem setHarvest_harvests (i : ι) (a : PassAt) :
    (s.setHarvest i a).harvests = Function.update s.harvests i a := rfl

@[simp] theorem setReap_reaps (i : ι) (verdict : Option (String × Nat)) :
    (s.setReap i verdict).reaps = Function.update s.reaps i verdict := rfl

theorem Good.setPoll (h : s.Good jobId due) (i : ι) {a : PassAt}
    (hr : a ≠ .idle → (s.redis.view jobId).harvest = none) :
    (s.setPoll i a).Good jobId due := by
  refine ⟨h.whole, fun hharvest => ⟨(h.place hharvest).1, fun j => ?_⟩, h.harvests, h.reaps⟩
  by_cases hj : j = i
  · subst hj
    rw [setPoll_polls, Function.update_self]
    by_contra hbusy
    exact hharvest (hr hbusy)
  · rw [setPoll_polls, Function.update_of_ne hj]
    exact (h.place hharvest).2 j

theorem Good.setHarvest (h : s.Good jobId due) (i : ι) {a : PassAt}
    (hr : a ≠ .idle → (s.redis.view jobId).harvest ≠ none ∧ a ≠ .read none) :
    (s.setHarvest i a).Good jobId due := by
  refine ⟨h.whole, h.place, fun j hbusy => ?_, h.reaps⟩
  by_cases hj : j = i
  · subst hj
    rw [setHarvest_harvests, Function.update_self] at hbusy ⊢
    exact hr hbusy
  · rw [setHarvest_harvests, Function.update_of_ne hj] at hbusy ⊢
    exact h.harvests j hbusy

theorem Good.setReap (h : s.Good jobId due) (i : ι) {verdict : Option (String × Nat)}
    (hr : verdict ≠ none → (s.redis.view jobId).harvest = none) :
    (s.setReap i verdict).Good jobId due := by
  refine ⟨h.whole, h.place, h.harvests, fun j hlook => ?_⟩
  by_cases hj : j = i
  · subst hj
    rw [setReap_reaps, Function.update_self] at hlook
    exact hr hlook
  · rw [setReap_reaps, Function.update_of_ne hj] at hlook
    exact h.reaps j hlook

end

/-! ### Step by step -/

theorem not_working_pollerMarkFailed (now : ℚ) (state : JobState) (error : String)
    (stateTtl : Nat) (rowDone : Bool) (r : Redis) :
    ¬((run (pollerMarkFailed jobId now state error stateTtl rowDone) r).2.view jobId).Working := by
  unfold pollerMarkFailed
  split
  · rw [run_bind, run_pure, views_setDone, Function.update_self]
    exact JobView.not_working_done _ _
  · rw [run_bind, run_pure, views_setFailed, Function.update_self]
    exact JobView.not_working_failed _ _ _

theorem Good.wait (h : s.Good jobId due) {duration : ℚ}
    (hin : (s.redis.view jobId).Working → s.now + duration < due) :
    (s.wait jobId duration).Good jobId due := by
  unfold Vigil.wait
  split
  · next hexp =>
    -- the hash expires, so nobody works on the job
    have hidle : ¬(s.redis.view jobId).Working := by
      intro hwork
      rw [(h.whole hwork).2, Option.any_some, decide_eq_true_eq] at hexp
      exact absurd (hin hwork) (not_lt.mpr hexp)
    have hview : (s.redis.expireNow jobId).view jobId = (s.redis.view jobId).expired := by
      rw [Redis.views_expireNow, Function.update_self]
    refine ⟨fun hwork => ?_, fun hharvest => ?_, fun i hbusy => ?_, fun i hlook => ?_⟩
    · dsimp only at hwork
      rw [hview] at hwork
      exact absurd hwork hidle
    · dsimp only at hharvest
      rw [hview] at hharvest
      exact absurd (Or.inr hharvest) hidle
    · exact absurd (Or.inr (h.harvests i hbusy).1) hidle
    · dsimp only
      rw [hview]
      exact h.reaps i hlook
  · exact ⟨h.whole, h.place, h.harvests, h.reaps⟩

variable [DecidableEq ι]

/-- What a poll in progress comes to. -/
theorem Good.poll (h : s.Good jobId due) {i : ι} {state : JobState}
    (hi : s.polls i = .read (some state)) {outcome : PollEnd}
    (hin : InTime jobId due s (.endPoll i outcome)) :
    ((s.call jobId (outcome.prog jobId s.now state)).setPoll i .idle).Good jobId due := by
  -- a polled job is not in the harvest queue, so no harvest of it is in progress
  have hqueue := h.harvest_of_polls (i := i) (by rw [hi]; exact PassAt.noConfusion)
  have hidle := h.harvests_idle hqueue
  show ((s.setPoll i .idle).call jobId (outcome.prog jobId s.now state)).Good jobId due
  cases outcome with
  | running delayS =>
    refine good_call (congrFun (views_scheduleNextPoll s.redis jobId _ _) jobId) ?_ ?_
      (fun j hbusy => absurd (hidle j) hbusy) ?_
    · rw [Function.update_self]
      intro hwork
      obtain ⟨hw, hexp⟩ := h.whole hwork
      exact ⟨hw.hset (fun _ => rfl) fun _ => rfl, hexp⟩
    · rw [Function.update_self]
      exact fun hharvest => absurd hqueue hharvest
    · rw [Function.update_self]
      exact fun _ _ => hqueue
  | done engineRun =>
    have hview : (run (PollEnd.prog jobId s.now state (.done engineRun)) s.redis).2.view =
        (s.redis.releaseDone s.now jobId state engineRun).view := by
      rw [PollEnd.prog, run_bind]
      exact views_releaseDone s.redis jobId s.now state engineRun
    by_cases hflies : jobId ∈ s.redis.inflight
    · -- nobody else has read anything of the job that they are to act on
      obtain ⟨hothers, hlook⟩ := hin ⟨state, hi⟩ hflies
      rw [views_releaseDone_of_inflight s.redis jobId hflies] at hview
      refine good_call (congrFun hview jobId) ?_ ?_ (fun j hbusy => absurd (hidle j) hbusy)
        fun j hverdict => absurd (hlook j) hverdict
      · rw [Function.update_self]
        intro _
        obtain ⟨hw, hexp⟩ := h.whole (Or.inl hflies)
        exact ⟨hw.release _ _, hexp⟩
      · rw [Function.update_self]
        refine fun _ => ⟨id, fun j => ?_⟩
        by_cases hj : j = i
        · rw [hj, setPoll_polls, Function.update_self]
        · rw [setPoll_polls, Function.update_of_ne hj]
          exact hothers j hj
    · rw [releaseDone_of_not_inflight s.redis jobId hflies] at hview
      exact good_call (congrFun hview jobId) h.whole (fun hharvest => absurd hqueue hharvest)
        (fun j hbusy => absurd (hidle j) hbusy) fun _ _ => hqueue
  | requeued stateTtl delayS =>
    refine good_call_of_not_working rfl ?_ hidle
    rw [PollEnd.prog, run_bind, countRequeue, run_act, Redis.views_hset, Function.update_self,
      views_releaseAndRequeue, Function.update_self]
    exact fun hwork => JobView.not_working_requeued _ _ _ _ _ _ hwork
  | failed error stateTtl rowDone =>
    exact good_call_of_not_working rfl (not_working_pollerMarkFailed _ _ _ _ _ _) hidle

theorem Good.endPoll (h : s.Good jobId due) {i : ι} {outcome : PollEnd}
    (hin : InTime jobId due s (.endPoll i outcome)) :
    (s.step jobId (.endPoll i outcome)).Good jobId due := by
  unfold Vigil.step
  dsimp only
  split
  · exact h.setPoll i fun hne => absurd rfl hne
  · next state hi => exact h.poll hi hin
  · exact h

theorem Good.listPoll (h : s.Good jobId due) (i : ι) :
    (s.step jobId (.listPoll i)).Good jobId due := by
  unfold Vigil.step
  dsimp only
  split
  · split
    · next hflies =>
      refine h.setPoll i fun _ => ?_
      by_contra hharvest
      exact (h.place hharvest).1 hflies
    · exact h
  · exact h

theorem Good.readPoll (h : s.Good jobId due) (i : ι) :
    (s.step jobId (.readPoll i)).Good jobId due := by
  unfold Vigil.step
  dsimp only
  split
  · next hi =>
    exact h.setPoll i fun _ => h.harvest_of_polls (i := i) (by rw [hi]; exact PassAt.noConfusion)
  · exact h

theorem Redis.harvest_of_due {now : ℚ} {r : Redis} (hdue : r.harvestDue jobId now = true) :
    (r.view jobId).harvest ≠ none := by
  intro hnone
  have hlookup : r.pendingHarvest.lookup jobId = none := hnone
  rw [Redis.harvestDue, hlookup] at hdue
  cases hdue

theorem Good.listHarvest (h : s.Good jobId due) (i : ι) :
    (s.step jobId (.listHarvest i)).Good jobId due := by
  unfold Vigil.step
  dsimp only
  split
  · split
    · next hdue =>
      exact h.setHarvest i fun _ => ⟨Redis.harvest_of_due hdue, PassAt.noConfusion⟩
    · exact h
  · exact h

theorem Good.readHarvest (h : s.Good jobId due) (i : ι) :
    (s.step jobId (.readHarvest i)).Good jobId due := by
  unfold Vigil.step
  dsimp only
  split
  · next hi =>
    have hqueue := (h.harvests i (by rw [hi]; exact PassAt.noConfusion)).1
    -- its hash is there
    have hstate : s.redis.state jobId ≠ none := (h.whole (Or.inr hqueue)).1.state
    exact h.setHarvest i fun _ => ⟨hqueue, fun hnone => hstate (PassAt.read.inj hnone)⟩
  · exact h

theorem Good.forget (h : s.Good jobId due) (i : ι) :
    (s.step jobId (.forget i)).Good jobId due := by
  unfold Vigil.step
  dsimp only
  split
  · next hi => exact absurd hi (h.harvests i (by rw [hi]; exact PassAt.noConfusion)).2
  · exact h

theorem Good.endHarvest (h : s.Good jobId due) {i : ι} {outcome : HarvestEnd}
    (hgoes : ¬s.Ends (.endHarvest i outcome)) :
    (s.step jobId (.endHarvest i outcome)).Good jobId due := by
  unfold Vigil.step
  dsimp only
  split
  · next state hi =>
    have hqueue := (h.harvests i (by rw [hi]; exact PassAt.noConfusion)).1
    have hlook := h.reaps_none hqueue
    have hidle := (h.setHarvest i (a := .idle) fun hne => absurd rfl hne)
    show ((s.setHarvest i .idle).call jobId (outcome.prog jobId s.now state)).Good jobId due
    cases outcome with
    | stored stateTtl => exact absurd ⟨⟨state, hi⟩, rfl⟩ hgoes
    | lost error stateTtl rowDone => exact absurd ⟨⟨state, hi⟩, rfl⟩ hgoes
    | transient delayS =>
      refine good_call (congrFun (views_rescheduleHarvest s.redis jobId s.now delayS) jobId)
        ?_ ?_ ?_ fun j hverdict => absurd (hlook j) hverdict
      · rw [Function.update_self]
        intro _
        obtain ⟨hw, hexp⟩ := h.whole (Or.inr hqueue)
        exact ⟨hw.hset (fun _ => rfl) fun _ => rfl, hexp⟩
      · rw [Function.update_self]
        exact fun _ => h.place hqueue
      · rw [Function.update_self]
        exact fun j hbusy => ⟨Option.some_ne_none _, (hidle.harvests j hbusy).2⟩
  · exact h

theorem mem_pendingHarvestMembers (jobId : JobId) (r : Redis) :
    jobId ∈ (run (pendingHarvestMembers [jobId]) r).1 ↔ (r.view jobId).harvest ≠ none := by
  have hlookup : (r.pendingHarvest.lookup jobId).isSome ↔ (r.view jobId).harvest ≠ none :=
    Option.isSome_iff_ne_none
  rw [pendingHarvestMembers, run_query, ← hlookup]
  simp

theorem Good.beginReap (h : s.Good jobId due) (i : ι) (error : String) (stateTtl : Nat) :
    (s.step jobId (.beginReap i error stateTtl)).Good jobId due := by
  unfold Vigil.step
  dsimp only
  split
  · next hlook =>
    exact h.setReap i fun _ => not_not.mp ((mem_pendingHarvestMembers ..).not.mp hlook.2)
  · exact h

theorem Good.endReap (h : s.Good jobId due) (i : ι) :
    (s.step jobId (.endReap i)).Good jobId due := by
  unfold Vigil.step
  dsimp only
  split
  · exact h
  · next error stateTtl hi =>
    -- nothing is in the queue, so nobody harvests
    have hidle := h.harvests_idle (h.reaps i (by rw [hi]; exact Option.some_ne_none _))
    show ((s.setReap i none).call jobId _).Good jobId due
    refine good_call_of_not_working rfl ?_ hidle
    show ¬((run _ s.redis).2.view jobId).Working
    rw [run_bind, run_pure, views_setFailed, Function.update_self]
    exact JobView.not_working_failed _ _ _

/-- **Every chore in time keeps the vigil, up to the end of a harvest.** -/
theorem Good.step (h : s.Good jobId due) {chore : Chore ι} (hin : InTime jobId due s chore)
    (hgoes : ¬s.Ends chore) : (s.step jobId chore).Good jobId due := by
  cases chore with
  | wait duration =>
    refine h.wait fun hwork => hin (hwork.imp id fun hharvest => ?_)
    exact World.mem_pendingHarvest_iff.mpr hharvest
  | listPoll i => exact h.listPoll i
  | readPoll i => exact h.readPoll i
  | endPoll i outcome => exact h.endPoll hin
  | listHarvest i => exact h.listHarvest i
  | readHarvest i => exact h.readHarvest i
  | forget i => exact h.forget i
  | endHarvest i outcome => exact h.endHarvest hgoes
  | beginReap i error stateTtl => exact h.beginReap i error stateTtl
  | endReap i => exact h.endReap i
  | restart i =>
    exact ((h.setPoll i fun hne => absurd rfl hne).setHarvest i fun hne => absurd rfl hne).setReap i
      fun hne => absurd rfl hne

/-- A job waits to be harvested until a harvest of it ends. -/
theorem Good.waits_on (h : s.Good jobId due) (hqueue : (s.redis.view jobId).harvest ≠ none)
    (chore : Chore ι) :
    ((s.step jobId chore).redis.view jobId).harvest ≠ none ∨ s.Ends chore := by
  by_cases hgoes : s.Ends chore
  · exact Or.inr hgoes
  · refine Or.inl ?_
    cases chore with
    | wait duration =>
      show ((s.wait jobId duration).redis.view jobId).harvest ≠ none
      unfold Vigil.wait
      split
      · show ((s.redis.expireNow jobId).view jobId).harvest ≠ none
        rw [Redis.views_expireNow, Function.update_self]
        exact hqueue
      · exact hqueue
    | listPoll i =>
      unfold Vigil.step
      dsimp only
      split
      · split <;> exact hqueue
      · exact hqueue
    | readPoll i =>
      unfold Vigil.step
      dsimp only
      split <;> exact hqueue
    | endPoll i outcome =>
      -- a job in the harvest queue is not polled
      unfold Vigil.step
      dsimp only
      rw [(h.place hqueue).2 i]
      exact hqueue
    | listHarvest i =>
      unfold Vigil.step
      dsimp only
      split
      · split <;> exact hqueue
      · exact hqueue
    | readHarvest i =>
      unfold Vigil.step
      dsimp only
      split <;> exact hqueue
    | forget i =>
      unfold Vigil.step
      dsimp only
      split
      · next hi => exact absurd hi (h.harvests i (by rw [hi]; exact PassAt.noConfusion)).2
      · exact hqueue
    | endHarvest i outcome =>
      unfold Vigil.step
      dsimp only
      split
      · next state hi =>
        cases outcome with
        | transient delayS =>
          have hview := view_call jobId s (rescheduleHarvest s.now jobId delayS)
          rw [views_rescheduleHarvest, Function.update_self] at hview
          show ((s.call jobId (rescheduleHarvest s.now jobId delayS)).redis.view
            jobId).harvest ≠ none
          rw [hview]
          exact Option.some_ne_none _
        | stored => exact absurd ⟨⟨state, hi⟩, rfl⟩ hgoes
        | lost => exact absurd ⟨⟨state, hi⟩, rfl⟩ hgoes
      · exact hqueue
    | beginReap i error stateTtl =>
      unfold Vigil.step
      dsimp only
      split <;> exact hqueue
    | endReap i =>
      -- the reaper found it waiting
      unfold Vigil.step
      dsimp only
      rw [h.reaps_none hqueue i]
      exact hqueue
    | restart i => exact hqueue

end Vigil

/-! ## From every dispatch -/

section

variable {ι : Type} {jobId : JobId} (d : Handover) {r : Redis} (polls : ι → PassAt)
  (reaps : ι → Option (String × Nat))

theorem good_vigil (hstate : (r.state jobId).isSome) (hfresh : jobId ∉ r.pendingHarvest) :
    (d.vigil jobId polls reaps r).Good jobId d.due := by
  have hqueue : (r.view jobId).harvest = none := by
    by_contra hne
    exact hfresh (World.mem_pendingHarvest_iff.mpr hne)
  obtain ⟨h, hh⟩ : ∃ h, (r.view jobId).hash = some h := by
    rw [Redis.state_eq, JobView.state] at hstate
    cases hv : (r.view jobId).hash with
    | none => rw [hv] at hstate; cases hstate
    | some h => exact ⟨h, rfl⟩
  have hread : h.Readable := by
    rw [Redis.state_eq, JobView.state, hh] at hstate
    exact hstate
  have hrun := congrFun (views_setRunning r jobId d.settings d.now d.engineJobId d.backend.url
    d.backend.id (getStateTtlSeconds d.config)) jobId
  rw [Function.update_self] at hrun
  have hview := Vigil.view_call jobId
    ({ redis := r, now := d.now, polls := polls, reaps := reaps } : Vigil ι)
    (setRunning d.settings d.now jobId d.engineJobId d.backend.url d.backend.id
      (getStateTtlSeconds d.config))
  rw [hrun] at hview
  have hhash : ((r.view jobId).run d.settings d.now d.engineJobId d.backend.url d.backend.id
      (getStateTtlSeconds d.config)).hash =
        some ((h.running d.now d.settings d.engineJobId d.backend.url d.backend.id).expiring
          (getStateTtlSeconds d.config)) := by
    simp [JobView.run, JobView.stored, JobView.hset, JobView.hmod, JobView.saddInflight, hh]
  have hidle : ((d.vigil jobId polls reaps r).redis.view jobId).harvest = none := by
    rw [show (d.vigil jobId polls reaps r).redis.view jobId = _ from hview]
    exact hqueue
  refine ⟨fun _ => ⟨?_, ?_⟩, fun hharvest => absurd hidle hharvest,
    fun _ hbusy => absurd rfl hbusy, fun _ _ => hidle⟩
  · rw [show (d.vigil jobId polls reaps r).redis.view jobId = _ from hview]
    refine ⟨((h.running d.now d.settings d.engineJobId d.backend.url d.backend.id).expiring
      (getStateTtlSeconds d.config)).untimed, ?_, hread.keep rfl, rfl⟩
    rw [JobView.hmod, hhash]
    rfl
  · show Vigil.deadline d.now none ((run _ r).2.jobs.lookup jobId) = some d.due
    rw [← Redis.view_hash, hrun, hhash]
    rfl

/-- **If the harvest of a dispatched job ends before the TTL that the dispatch gave its hash is
over, and is queued when nobody is about to act on what they read of the job in flight, the job
keeps its hash while it waits to be harvested, and leaves the harvest queue only when a harvest of
it succeeds or fails for good.** -/
theorem kept_until_harvested [DecidableEq ι] (hstate : (r.state jobId).isSome)
    (hfresh : jobId ∉ r.pendingHarvest) {chores : List (Chore ι)}
    (hin : Obeys (Vigil.step jobId) (fun s chore => s.InTime jobId d.due chore ∧ ¬s.Ends chore)
      (d.vigil jobId polls reaps r) chores)
    (hwaits : jobId ∈
      (chores.foldl (Vigil.step jobId) (d.vigil jobId polls reaps r)).redis.pendingHarvest) :
    ((chores.foldl (Vigil.step jobId) (d.vigil jobId polls reaps r)).redis.state jobId).isSome ∧
      ∀ chore, jobId ∈ ((chores ++ [chore]).foldl (Vigil.step jobId)
          (d.vigil jobId polls reaps r)).redis.pendingHarvest ∨
        (chores.foldl (Vigil.step jobId) (d.vigil jobId polls reaps r)).Ends chore := by
  have hgood : (chores.foldl (Vigil.step jobId) (d.vigil jobId polls reaps r)).Good jobId d.due :=
    hin.inv (fun _ _ hs ha => hs.step ha.1 ha.2) (good_vigil d polls reaps hstate hfresh)
  have hqueue := World.mem_pendingHarvest_iff.mp hwaits
  refine ⟨?_, fun chore => ?_⟩
  · rw [Redis.state_eq, Option.isSome_iff_ne_none]
    exact (hgood.whole (Or.inr hqueue)).1.state
  · rw [List.foldl_append, List.foldl_cons, List.foldl_nil]
    exact (hgood.waits_on hqueue chore).imp World.mem_pendingHarvest_iff.mpr id

end

/-! ## An outage -/

/-- Job 1 is dispatched at time 0 with the default config, which gives its hash 1260 s. -/
def sampleHandover : Handover where
  now := 0
  engineJobId := "a"
  backend := { id := 1, url := "http://one" }

def sampleClaimed : Redis where
  jobs := Finmap.singleton 1 sampleJob.toHash

/-- The job is dispatched while nobody is busy with it. -/
def sampleVigil : Vigil Unit :=
  sampleHandover.vigil 1 (fun _ => .idle) (fun _ => none) sampleClaimed

/-- The engine is done after 10 s; the storage is down, and one harvest fails. -/
def sampleOutage {ι : Type} (i : ι) : List (Chore ι) :=
  [.wait 10, .listPoll i, .readPoll i, .endPoll i (.done {}), .listHarvest i, .readHarvest i,
    .endHarvest i (.transient 30)]

/-- The storage is back after 21 minutes, but the job's hash is gone, and the next pass of the
poller drops the job. -/
theorem harvest_forgotten :
    let s := (sampleOutage ()).foldl (Vigil.step 1) sampleVigil
    (1 ∈ s.redis.pendingHarvest ∧ (s.redis.state 1).isSome) ∧
      (1 ∈ (s.step 1 (.wait 1260)).redis.pendingHarvest ∧
        (s.step 1 (.wait 1260)).redis.state 1 = none) ∧
        1 ∉ ([.wait 1260, .listHarvest (), .readHarvest (), .forget ()].foldl (Vigil.step 1)
          s).redis.pendingHarvest := by
  decide +kernel

/-- Another poller has listed the job before. -/
def sampleListed : Bool → PassAt
  | false => .idle
  | true => .listed

/-- Here the storage is back after 20 minutes; a reaper looks, and finds the job waiting, and both
pollers harvest it. -/
def sampleRecovery : List (Chore Bool) :=
  [.readPoll true, .endPoll true (.running 5)] ++ sampleOutage false ++
    [.wait 1200, .beginReap false "timed out while processing" 1260, .endReap false,
      .listHarvest true, .listHarvest false, .readHarvest true, .readHarvest false,
      .endHarvest false (.transient 30)]

theorem kept_until_harvested_sample :
    let s := sampleRecovery.foldl (Vigil.step 1)
      (sampleHandover.vigil 1 sampleListed (fun _ => none) sampleClaimed)
    (s.redis.state 1).isSome ∧
      ∀ chore, 1 ∈ ((sampleRecovery ++ [chore]).foldl (Vigil.step 1)
          (sampleHandover.vigil 1 sampleListed (fun _ => none)
            sampleClaimed)).redis.pendingHarvest ∨ s.Ends chore := by
  refine kept_until_harvested sampleHandover sampleListed (fun _ => none) (by decide +kernel)
    (by decide +kernel) ?_ (by decide +kernel)
  refine ⟨⟨trivial, id⟩, ⟨trivial, id⟩, ⟨fun _ => by decide +kernel, id⟩, ⟨trivial, id⟩,
    ⟨trivial, id⟩, ⟨fun _ _ => by decide +kernel, id⟩, ⟨trivial, id⟩, ⟨trivial, id⟩,
    ⟨trivial, fun h => by cases h.2⟩, ⟨fun _ => by decide +kernel, id⟩, ⟨trivial, id⟩,
    ⟨trivial, id⟩, ⟨trivial, id⟩, ⟨trivial, id⟩, ⟨trivial, id⟩, ⟨trivial, id⟩,
    ⟨trivial, fun h => by cases h.2⟩, trivial⟩

end Taas

import Taas.Properties.Sites

/-!
# Every job is in one place, and its status says which

`Site.Fits` lists the combinations of status, site and harvest entry that a job can be in.
Every call that `Regular` allows takes a fitting job to a fitting job (`Move.ok`).

The two combinations at the end of the list need a crash: a `set_failed` or a `set_done`
that died after it wrote the status. `crashes` says whether there are such.
-/

namespace Taas

open Infra

/-! ## Readable hashes -/

/-- The hash has what every submit writes. -/
def JobHash.Readable (h : JobHash) : Prop := (JobState.fromHash h).isSome

namespace JobState

theorem isSome_fromHash (h : JobHash) : (fromHash h).isSome ↔ (nonEmpty h.username).isSome ∧
    (nonEmpty h.fmt).isSome ∧ (hashOutputs h).isSome ∧ h.submittedAt.isSome := by
  unfold fromHash
  cases nonEmpty h.username <;> cases nonEmpty h.fmt <;> cases hashOutputs h <;>
    cases h.submittedAt <;> simp

theorem priority_of_fromHash {h : JobHash} {s : JobState} (hs : fromHash h = some s) :
    s.priority = h.priority.getD 0 := by
  unfold fromHash at hs
  split at hs
  · rw [← Option.some.inj hs]
  · simp at hs

theorem status_of_fromHash {h : JobHash} {s : JobState} (hs : fromHash h = some s) :
    s.status = h.status.getD .queued := by
  unfold fromHash at hs
  split at hs
  · rw [← Option.some.inj hs]
  · simp at hs

theorem engineJobId_of_fromHash {h : JobHash} {s : JobState} (hs : fromHash h = some s) :
    s.engineJobId = nonEmpty h.engineJobId := by
  unfold fromHash at hs
  split at hs
  · rw [← Option.some.inj hs]
  · simp at hs

theorem queueScore_of_fromHash {h : JobHash} {s : JobState} (hs : fromHash h = some s) :
    s.queueScore = h.queueScore := by
  unfold fromHash at hs
  split at hs
  · rw [← Option.some.inj hs]
  · simp at hs

theorem submittedAt_of_fromHash {h : JobHash} {s : JobState} (hs : fromHash h = some s) :
    h.submittedAt = some s.submittedAt := by
  unfold fromHash at hs
  split at hs
  · next hsub => rw [← Option.some.inj hs, hsub]
  · simp at hs

theorem backendId_of_fromHash {h : JobHash} {s : JobState} (hs : fromHash h = some s) :
    s.backendId = h.backendId := by
  unfold fromHash at hs
  split at hs
  · rw [← Option.some.inj hs]
  · simp at hs

/-- A state never has an empty batch id. -/
theorem batchId_of_fromHash {h : JobHash} {s : JobState} (hs : fromHash h = some s) :
    nonEmpty s.batchId = s.batchId := by
  unfold fromHash at hs
  split at hs
  · rw [← Option.some.inj hs]
    exact nonEmpty_idem h.batchId
  · simp at hs

end JobState

namespace JobHash

/-- What only a submit writes. -/
structure Submit where
  username : Option String
  fmt : Option String
  outputs : Option (Finset String)
  submittedAt : Option ℚ
  priority : Option Int
  domain : Option String
  batchId : Option String

def submit (h : JobHash) : Submit :=
  ⟨h.username, h.fmt, h.outputs, h.submittedAt, h.priority, h.domain, h.batchId⟩

theorem priority_of_submit {h h' : JobHash} (e : h'.submit = h.submit) :
    h'.priority = h.priority := congrArg Submit.priority e

theorem readable_of_submit {h h' : JobHash} (e : h'.submit = h.submit) :
    h'.Readable ↔ h.Readable := by
  have hu : h'.username = h.username := congrArg Submit.username e
  have hf : h'.fmt = h.fmt := congrArg Submit.fmt e
  have ho : h'.outputs = h.outputs := congrArg Submit.outputs e
  have hs : h'.submittedAt = h.submittedAt := congrArg Submit.submittedAt e
  unfold Readable
  rw [JobState.isSome_fromHash, JobState.isSome_fromHash, hu, hf, hs, JobState.hashOutputs,
    JobState.hashOutputs, hf, ho]

/-- A later write leaves the hash readable. -/
theorem Readable.keep {h h' : JobHash} (hr : h.Readable) (e : h'.submit = h.submit) :
    h'.Readable := (readable_of_submit e).mpr hr

theorem submit_avoidingHash (h : JobHash) (score : ℚ) (avoid : Option BackendId) :
    (Site.avoidingHash score avoid h).submit = h.submit := by
  cases avoid <;> rfl

/-- Requeueing uses the level that the orphan script looks at. -/
theorem Readable.level {h : JobHash} (hr : h.Readable) :
    ((JobState.fromHash h).map fun s => s.priority).getD 0 = h.priority.getD 0 := by
  obtain ⟨s, hs⟩ := Option.isSome_iff_exists.mp hr
  rw [hs]
  exact JobState.priority_of_fromHash hs

end JobHash

/-- A submitted state is read back as it was written. -/
theorem JobState.Submitted.fromHash {state : JobState} (h : state.Submitted) (stateTtl : Nat) :
    ∃ s, JobState.fromHash (state.toHash.expiring stateTtl) = some s ∧ s.domain = state.domain ∧
      s.outputs = state.outputs := by
  have hu := nonEmpty_some h.username
  have hf := nonEmpty_some h.fmt
  have hd := nonEmpty_some h.domain
  have ho : Option.filter (fun o => o ≠ ∅) (some state.outputs) = some state.outputs := by
    simp [Option.filter_some, h.outputs]
  simp only [JobState.fromHash, JobHash.expiring, toHash, hashOutputs, hu, hf, hd, ho]
  exact ⟨_, rfl, rfl, rfl⟩

theorem JobState.Submitted.readable {state : JobState} (h : state.Submitted) (stateTtl : Nat) :
    (state.toHash.expiring stateTtl).Readable := by
  obtain ⟨s, hs, -⟩ := h.fromHash stateTtl
  rw [JobHash.Readable, hs]
  rfl

/-! ## What fits -/

/-- The combinations of claim, hash, site and harvest entry that a job can be in. -/
inductive Site.Fits (crashes : Prop) (claimGraceS now : ℚ) (c : Option ℚ) (h : JobHash) :
    Site → Option ℚ → Prop
  | waiting {score : ℚ} (hs : h.status = some .queued) (hc : ¬Held claimGraceS now c) :
      Fits crashes claimGraceS now c h (.pending (h.priority.getD 0) score) none
  | delayed {score : ℚ} (hs : h.status = some .queued) (hc : ¬Held claimGraceS now c) :
      Fits crashes claimGraceS now c h (.delayed score) none
  /-- Claimed, or lost by its claimer. -/
  | free (hs : h.status = some .queued) (hc : Held claimGraceS now c → h.claimedAt = c) :
      Fits crashes claimGraceS now c h .nowhere none
  | running (hs : h.status = some .running) (hc : c = none) :
      Fits crashes claimGraceS now c h .inflight none
  | storing {score : ℚ} (hs : h.status = some .storing) (hc : c = none) :
      Fits crashes claimGraceS now c h .nowhere (some score)
  | ended (hs : h.status = some .done ∨ h.status = some .failed) (hc : c = none) :
      Fits crashes claimGraceS now c h .nowhere none
  | cutInflight (hcrash : crashes) (hs : h.status = some .failed) (hc : c = none) :
      Fits crashes claimGraceS now c h .inflight none
  | cutHarvest {score : ℚ} (hcrash : crashes) (hs : h.status = some .done) (hc : c = none) :
      Fits crashes claimGraceS now c h .nowhere (some score)

/-- The job was never heard of, or everything about it fits. -/
def JobCase.Ok (crashes : Prop) (claimGraceS now : ℚ) (x : JobCase) : Prop :=
  x = (none, JobView.empty) ∨ ∃ h site harvest, x.2 = site.view (some h) harvest ∧ h.Readable ∧
    Site.Fits crashes claimGraceS now x.1 h site harvest

/-! ## Who calls what when -/

/-- The job waits for its results to be stored. -/
def JobView.Storing (v : JobView) : Prop :=
  (v.hash.bind fun h => h.status) = some .storing ∨ v.harvest ≠ none

/-- Fresh jobs are enqueued, claimed jobs resolved within the grace of their claim, jobs in
flight and storing jobs given the outcomes that exist for them, and no hash expires. -/
def Regular (claimGraceS : ℚ) : Condition := fun now c v call =>
  match call with
  | .enqueue state _ => c = none ∧ v = JobView.empty ∧ state.Submitted
  | .resolve _ => Held claimGraceS now c
  | .outcome (.releaseDone _ _) => v.inflight
  | .outcome (.releaseAndRequeue _ _ _ _) => v.inflight
  | .outcome (.scheduleNextPoll _) => v.inflight
  | .outcome (.rescheduleHarvest _) => v.Storing
  | .outcome (.setDone _ _) => v.Storing
  | .outcome (.setFailed _ _) => v.inflight ∨ v.Storing
  | .expire => False

variable {crashes : Prop} {claimGraceS now : ℚ} {c : Option ℚ}

theorem Held.of_later {d : ℚ} (hd : 0 ≤ d) (h : Held claimGraceS (now + d) c) :
    Held claimGraceS now c := by
  obtain ⟨t, ht, hlt⟩ := h
  exact ⟨t, ht, by linarith⟩

theorem not_held_none : ¬Held claimGraceS now none := fun ⟨_, h, _⟩ => by simp at h

theorem not_held_of_none (hc : c = none) : ¬Held claimGraceS now c := hc ▸ not_held_none

theorem Site.Fits.wait {h : JobHash} {site : Site} {harvest : Option ℚ} {d : ℚ} (hd : 0 ≤ d)
    (hf : Site.Fits crashes claimGraceS now c h site harvest) :
    Site.Fits crashes claimGraceS (now + d) c h site harvest := by
  have hlater := fun hn : ¬Held claimGraceS now c => fun hl => hn (Held.of_later hd hl)
  cases hf with
  | waiting hs hc => exact .waiting hs (hlater hc)
  | delayed hs hc => exact .delayed hs (hlater hc)
  | free hs hc => exact .free hs fun hl => hc (Held.of_later hd hl)
  | running hs hc => exact .running hs hc
  | storing hs hc => exact .storing hs hc
  | ended hs hc => exact .ended hs hc
  | cutInflight hcrash hs hc => exact .cutInflight hcrash hs hc
  | cutHarvest hcrash hs hc => exact .cutHarvest hcrash hs hc

/-! ## What is called finds the job where it expects it -/

namespace JobCase

variable {v : JobView}

theorem Ok.of_fits {h : JobHash} {site : Site} {harvest : Option ℚ} (hr : h.Readable)
    (hf : Site.Fits crashes claimGraceS now c h site harvest) :
    Ok crashes claimGraceS now (c, site.view (some h) harvest) :=
  Or.inr ⟨h, site, harvest, rfl, hr, hf⟩

theorem Ok.of_hash {h : JobHash} (hx : Ok crashes claimGraceS now (c, v)) (hv : v.hash = some h) :
    ∃ site harvest, v = site.view (some h) harvest ∧ h.Readable ∧
      Site.Fits crashes claimGraceS now c h site harvest := by
  rcases hx with hx | ⟨h', site, harvest, rfl, hr, hf⟩
  · rw [(Prod.mk.inj hx).2] at hv
    simp [JobView.empty] at hv
  · obtain rfl := Option.some.inj hv
    exact ⟨site, harvest, rfl, hr, hf⟩

theorem Ok.pending {p : Int} (hx : Ok crashes claimGraceS now (c, v)) (hp : v.pending p ≠ none) :
    ∃ h score, v = (Site.pending (h.priority.getD 0) score).view (some h) none ∧ h.Readable ∧
      p = h.priority.getD 0 ∧ h.status = some .queued ∧ ¬Held claimGraceS now c := by
  rcases hx with hx | ⟨h, site, harvest, rfl, hr, hf⟩
  · rw [(Prod.mk.inj hx).2] at hp
    simp [JobView.empty] at hp
  · obtain ⟨score, rfl⟩ := (Site.pending_view site _ _ p).mp hp
    cases hf with
    | waiting hs hc => exact ⟨h, score, rfl, hr, rfl, hs, hc⟩

theorem Ok.delayed (hx : Ok crashes claimGraceS now (c, v)) (hd : v.delayed ≠ none) :
    ∃ h score, v = (Site.delayed score).view (some h) none ∧ h.Readable ∧
      h.status = some .queued ∧ ¬Held claimGraceS now c := by
  rcases hx with hx | ⟨h, site, harvest, rfl, hr, hf⟩
  · rw [(Prod.mk.inj hx).2] at hd
    simp [JobView.empty] at hd
  · obtain ⟨score, rfl⟩ := (Site.delayed_view site _ _).mp hd
    cases hf with
    | delayed hs hc => exact ⟨h, score, rfl, hr, hs, hc⟩

theorem Ok.held (hx : Ok crashes claimGraceS now (c, v)) (hc : Held claimGraceS now c) :
    ∃ h, v = Site.nowhere.view (some h) none ∧ h.Readable ∧ h.status = some .queued ∧
      h.claimedAt = c := by
  rcases hx with hx | ⟨h, site, harvest, rfl, hr, hf⟩
  · rw [(Prod.mk.inj hx).1] at hc
    exact absurd hc not_held_none
  · cases hf with
    | free hs hclaim => exact ⟨h, rfl, hr, hs, hclaim hc⟩
    | waiting _ hn => exact absurd hc hn
    | delayed _ hn => exact absurd hc hn
    | running _ hn => exact absurd hc (not_held_of_none hn)
    | storing _ hn => exact absurd hc (not_held_of_none hn)
    | ended _ hn => exact absurd hc (not_held_of_none hn)
    | cutInflight _ _ hn => exact absurd hc (not_held_of_none hn)
    | cutHarvest _ _ hn => exact absurd hc (not_held_of_none hn)

theorem Ok.inflight (hx : Ok crashes claimGraceS now (c, v)) (hi : v.inflight) :
    ∃ h, v = Site.inflight.view (some h) none ∧ h.Readable ∧ c = none ∧
      (h.status = some .running ∨ crashes ∧ h.status = some .failed) := by
  rcases hx with hx | ⟨h, site, harvest, rfl, hr, hf⟩
  · rw [(Prod.mk.inj hx).2] at hi
    exact hi.elim
  · obtain rfl := (Site.inflight_view site _ _).mp hi
    cases hf with
    | running hs hc => exact ⟨h, rfl, hr, hc, Or.inl hs⟩
    | cutInflight hcrash hs hc => exact ⟨h, rfl, hr, hc, Or.inr ⟨hcrash, hs⟩⟩

theorem Ok.storing (hx : Ok crashes claimGraceS now (c, v)) (hv : v.Storing) :
    ∃ h score, v = Site.nowhere.view (some h) (some score) ∧ h.Readable ∧ c = none ∧
      (h.status = some .storing ∨ crashes ∧ h.status = some .done) := by
  rcases hx with hx | ⟨h, site, harvest, rfl, hr, hf⟩
  · rw [(Prod.mk.inj hx).2] at hv
    simp [JobView.Storing, JobView.empty] at hv
  · unfold JobView.Storing at hv
    rw [Site.hash_view, Site.harvest_view, Option.bind_some] at hv
    cases hf with
    | storing hs hc => exact ⟨h, _, rfl, hr, hc, Or.inl hs⟩
    | cutHarvest hcrash hs hc => exact ⟨h, _, rfl, hr, hc, Or.inr ⟨hcrash, hs⟩⟩
    | ended hs hc => rcases hs with hs | hs <;> simp [hs] at hv
    | waiting hs hc => simp [hs] at hv
    | delayed hs hc => simp [hs] at hv
    | free hs hc => simp [hs] at hv
    | running hs hc => simp [hs] at hv
    | cutInflight hcrash hs hc => simp [hs] at hv

/-! ## Each call keeps the job fitting -/

theorem Ok.wait {x : JobCase} {d : ℚ} (hd : 0 ≤ d) (hx : Ok crashes claimGraceS now x) :
    Ok crashes claimGraceS (now + d) x := by
  rcases hx with rfl | ⟨h, site, harvest, hv, hr, hf⟩
  · exact Or.inl rfl
  · exact Or.inr ⟨h, site, harvest, hv, hr, hf.wait hd⟩

theorem Ok.resolve (hx : Ok crashes claimGraceS now (c, v)) (hc : Held claimGraceS now c)
    (r : Resolution) : Ok crashes claimGraceS now (none, r.apply now v) := by
  obtain ⟨h, rfl, hr, hs, -⟩ := hx.held hc
  cases r with
  | requeueJob originalScore =>
    rw [Resolution.apply, Site.level_view, Option.bind_some, hr.level, Site.zaddPending_nowhere]
    exact .of_fits hr (.waiting hs not_held_none)
  | scheduleRetry originalScore delayS avoidBackendId =>
    rw [Resolution.apply, Site.delay_nowhere]
    refine .of_fits (hr.keep (JobHash.submit_avoidingHash _ _ _)) (.delayed ?_ not_held_none)
    rw [Site.status_avoidingHash]
    exact hs
  | setRunning settings engineJobId backendUrl backendId stateTtl =>
    rw [Resolution.apply, Site.run_nowhere]
    exact .of_fits (hr.keep rfl) (.running rfl rfl)
  | setFailed error stateTtl =>
    rw [Resolution.apply, Site.markFailed_view, Site.sremInflight_nowhere]
    exact .of_fits (hr.keep rfl) (.ended (Or.inr rfl) rfl)

theorem Ok.setFailed (hx : Ok crashes claimGraceS now (c, v)) (hv : v.inflight ∨ v.Storing)
    (error : String) (stateTtl : Nat) :
    Ok crashes claimGraceS now (c, (v.markFailed now error stateTtl).sremInflight) := by
  rcases hv with hi | hv
  · obtain ⟨h, rfl, hr, hc, -⟩ := hx.inflight hi
    rw [Site.markFailed_view, Site.sremInflight_inflight]
    exact .of_fits (hr.keep rfl) (.ended (Or.inr rfl) hc)
  · obtain ⟨h, score, rfl, hr, hc, -⟩ := hx.storing hv
    rw [Site.markFailed_view, Site.sremInflight_nowhere]
    exact .of_fits (hr.keep rfl) (.ended (Or.inr rfl) hc)

theorem Ok.requeued {h : JobHash} (hr : h.Readable) (hs : h.status = some .queued)
    (hc : ¬Held claimGraceS now c) {priority : Int} (hp : priority = h.priority.getD 0)
    (score delayS : ℚ) (avoid : Option BackendId) : Ok crashes claimGraceS now
      (c, (Site.nowhere.view (some h) none).requeued now score delayS avoid priority) := by
  rw [Site.requeued_nowhere]
  split
  · refine .of_fits (hr.keep (JobHash.submit_avoidingHash _ _ _)) (.delayed ?_ hc)
    rw [Site.status_avoidingHash]
    exact hs
  · rw [hp]
    exact .of_fits hr (.waiting hs hc)

theorem Ok.outcome {o : Outcome} (hx : Ok crashes claimGraceS now (c, v))
    (hc : Regular claimGraceS now c v (.outcome o)) :
    Ok crashes claimGraceS now (c, o.apply now v) := by
  cases o with
  | releaseDone state engineRun =>
    have hi : v.inflight := hc
    rw [Outcome.apply, if_pos hi]
    obtain ⟨h, rfl, hr, hn, -⟩ := hx.inflight hi
    rw [Site.release_inflight]
    exact .of_fits (hr.keep rfl) (.storing rfl hn)
  | releaseAndRequeue score stateTtl delayS avoidBackendId =>
    obtain ⟨h, rfl, hr, hn, -⟩ := hx.inflight hc
    rw [Outcome.apply, JobView.backToQueued, Site.sremInflight_inflight, Site.hset_view,
      Site.cleared_view, Site.level_view, Option.bind_some, hr.level]
    have hr' : (h.queued.clearDispatch.expiring stateTtl).Readable := hr.keep rfl
    exact .requeued hr' rfl (not_held_of_none hn) rfl score delayS avoidBackendId
  | scheduleNextPoll at' =>
    obtain ⟨h, rfl, hr, hn, hs⟩ := hx.inflight hc
    rw [Outcome.apply, Site.hset_view]
    rcases hs with hs | ⟨hcrash, hs⟩
    · exact .of_fits (hr.keep rfl) (.running hs hn)
    · exact .of_fits (hr.keep rfl) (.cutInflight hcrash hs hn)
  | rescheduleHarvest delayS =>
    obtain ⟨h, score, rfl, hr, hn, hs⟩ := hx.storing hc
    rw [Outcome.apply, Site.reharvest_view]
    rcases hs with hs | ⟨hcrash, hs⟩
    · exact .of_fits (hr.keep rfl) (.storing hs hn)
    · exact .of_fits (hr.keep rfl) (.cutHarvest hcrash hs hn)
  | setDone stateTtl state =>
    obtain ⟨h, score, rfl, hr, hn, -⟩ := hx.storing hc
    rw [Outcome.apply, Site.finishDone_view, if_neg (by simp)]
    exact .of_fits (hr.keep rfl) (.ended (Or.inl rfl) hn)
  | setFailed error stateTtl => exact hx.setFailed hc error stateTtl

/-- The sweep only finds jobs that are nowhere and that nobody holds. -/
theorem Ok.orphaned {h : JobHash} (hx : Ok crashes claimGraceS now (c, v))
    (ho : v.Orphaned now claimGraceS h) : v = Site.nowhere.view (some h) none ∧ h.Readable ∧
      h.status = some .queued ∧ ¬Held claimGraceS now c := by
  obtain ⟨hh, hs, hd, hclaim, hp⟩ := ho
  obtain ⟨site, harvest, rfl, hr, hf⟩ := hx.of_hash hh
  cases hf with
  | @waiting score _ hc =>
    exact absurd hp ((Site.pending_view _ _ _ _).mpr ⟨score, rfl⟩)
  | @delayed score _ hc =>
    exact absurd hd ((Site.delayed_view _ _ _).mpr ⟨score, rfl⟩)
  | free _ hc =>
    refine ⟨rfl, hr, hs, fun hl => ?_⟩
    obtain ⟨t, ht, hlt⟩ := id hl
    have := hclaim t (ht ▸ hc hl)
    linarith
  | running hs' _ => simp [hs] at hs'
  | storing hs' _ => simp [hs] at hs'
  | ended hs' _ => simp [hs] at hs'
  | cutInflight _ hs' _ => simp [hs] at hs'
  | cutHarvest _ hs' _ => simp [hs] at hs'

/-- **A regular move takes a fitting job to a fitting job.** -/
theorem Ok.move {x y : JobCase} (hm : Move claimGraceS (Regular claimGraceS) now x y)
    (hx : Ok crashes claimGraceS now x) : Ok crashes claimGraceS now y := by
  cases hm with
  | expire h => exact h.elim
  | @enqueue c v state stateTtl h =>
    obtain ⟨rfl, rfl, hsub⟩ := h
    rw [Site.enqueued_empty]
    refine .of_fits (hsub.readable stateTtl) (.waiting ?_ not_held_none)
    rw [← hsub.status]
    rfl
  | @promote c v h =>
    obtain ⟨h, score, rfl, hr, hs, hc⟩ := hx.delayed h
    obtain ⟨s, hstate⟩ := Option.isSome_iff_exists.mp hr
    rw [Site.promote_delayed, Option.bind_some, hstate]
    simp only [JobState.priority_of_fromHash hstate]
    exact .of_fits hr (.waiting hs hc)
  | @claim c v p hp hh =>
    obtain ⟨h, score, rfl, hr, rfl, hs, hc⟩ := hx.pending hp
    rw [Site.claim_pending]
    exact .of_fits (hr.keep rfl) (.free hs fun _ => rfl)
  | @drop c v p h =>
    rcases hx with hx | ⟨h', site, harvest, rfl, hr, hf⟩
    · obtain ⟨rfl, rfl⟩ := Prod.mk.inj hx
      rw [← Site.view_nowhere_none, Site.zremPending_of_ne _ _ _ (by simp), Site.view_nowhere_none]
      exact Or.inl rfl
    · -- a fitting job's hash can be read
      rw [Site.state_view, Option.bind_some] at h
      simp [JobHash.Readable, h] at hr
  | orphan ho =>
    obtain ⟨rfl, hr, hs, hc⟩ := hx.orphaned ho
    rw [Site.zaddPending_nowhere]
    exact .of_fits hr (.waiting hs hc)
  | resolve h => exact hx.resolve h _
  | outcome h => exact hx.outcome h

end JobCase

/-! ## Every run -/

namespace World

/-- The status in the job's hash. -/
def status (w : World) (jobId : JobId) : Option JobStatus :=
  (w.redis.jobs.lookup jobId).bind fun h => h.status

theorem eachJob_initial (now : ℚ) :
    (initial now).EachJob fun _ => JobCase.Ok crashes claimGraceS :=
  fun jobId => Or.inl (case_initial now jobId)

theorem ok_run {w : World} {actions : List Action}
    (ha : w.ObeysCalls claimGraceS (Regular claimGraceS) actions)
    (hw : w.EachJob fun _ => JobCase.Ok crashes claimGraceS) :
    (w.run claimGraceS actions).EachJob fun _ => JobCase.Ok crashes claimGraceS :=
  ha.inv (fun _ _ hw ha => eachJob_act (fun _ _ _ _ hd hx => hx.wait hd)
    (fun _ _ _ _ hm hx => hx.move hm) ha hw) hw

/-- The job is on one level of the pending queue, in the delayed set, in flight, in the
harvest queue, or in none of them, and its status says which. -/
structure OnePlace (w : World) (jobId : JobId) : Prop where
  level : ∀ p q, jobId ∈ w.redis.pending p → jobId ∈ w.redis.pending q → p = q
  pending : ∀ p, jobId ∈ w.redis.pending p → w.status jobId = some .queued ∧
    jobId ∉ w.redis.delayed ∧ jobId ∉ w.redis.inflight ∧ jobId ∉ w.redis.pendingHarvest
  delayed : jobId ∈ w.redis.delayed → w.status jobId = some .queued ∧
    jobId ∉ w.redis.inflight ∧ jobId ∉ w.redis.pendingHarvest
  claimed : (w.claims jobId).isSome → w.status jobId = some .queued
  inflight : jobId ∈ w.redis.inflight → w.status jobId = some .running ∧
    jobId ∉ w.redis.pendingHarvest
  harvest : jobId ∈ w.redis.pendingHarvest → w.status jobId = some .storing
  ended : w.status jobId = some .done ∨ w.status jobId = some .failed →
    (∀ p, jobId ∉ w.redis.pending p) ∧ jobId ∉ w.redis.delayed ∧ jobId ∉ w.redis.inflight ∧
      jobId ∉ w.redis.pendingHarvest

theorem mem_pending_iff {r : Redis} {jobId : JobId} {p : Int} :
    jobId ∈ r.pending p ↔ (r.view jobId).pending p ≠ none := by
  rw [← Finmap.lookup_isSome, Option.isSome_iff_ne_none]
  rfl

theorem mem_delayed_iff {r : Redis} {jobId : JobId} :
    jobId ∈ r.delayed ↔ (r.view jobId).delayed ≠ none := by
  rw [← Finmap.lookup_isSome, Option.isSome_iff_ne_none]
  rfl

theorem mem_pendingHarvest_iff {r : Redis} {jobId : JobId} :
    jobId ∈ r.pendingHarvest ↔ (r.view jobId).harvest ≠ none := by
  rw [← Finmap.lookup_isSome, Option.isSome_iff_ne_none]
  rfl

theorem onePlace_of_ok {w : World} {jobId : JobId}
    (h : JobCase.Ok False claimGraceS w.now (w.case jobId)) : w.OnePlace jobId := by
  have hinflight : jobId ∈ w.redis.inflight ↔ (w.redis.view jobId).inflight := Iff.rfl
  have hstatus : w.status jobId = (w.redis.view jobId).hash.bind fun h => h.status := rfl
  rcases h with h | ⟨h, site, harvest, hv, -, hf⟩
  · obtain ⟨hc, hv⟩ := Prod.mk.inj h
    constructor <;> simp [hc, hv, hstatus, mem_pending_iff, mem_delayed_iff, hinflight,
      mem_pendingHarvest_iff, JobView.empty]
  · have hv' : w.redis.view jobId = site.view (some h) harvest := hv
    have hc : (w.case jobId).1 = w.claims jobId := rfl
    rw [hc] at hf
    constructor <;>
      simp only [hv', hstatus, mem_pending_iff, mem_delayed_iff, hinflight,
        mem_pendingHarvest_iff, Site.pending_view, Site.delayed_view, Site.inflight_view,
        Site.harvest_view, Site.hash_view, Option.bind_some] <;>
      cases hf <;> simp_all

/-- **In every state that a regular run reaches, every job is in one place.** -/
theorem onePlace_of_run {now : ℚ} {actions : List Action}
    (h : (initial now).ObeysCalls claimGraceS (Regular claimGraceS) actions) (jobId : JobId) :
    ((initial now).run claimGraceS actions).OnePlace jobId :=
  onePlace_of_ok (ok_run h (eachJob_initial now) jobId)

end World

/-! A job that is enqueued, claimed, dispatched and released. -/

def sampleJob : JobState where
  username := "user"
  fmt := "alto"
  outputs := {"alto"}
  submittedAt := 0

theorem sampleJob_submitted : sampleJob.Submitted :=
  ⟨rfl, by decide, by decide, by decide, by decide⟩

def sampleRun : List Action :=
  [.enqueueJobs [(1, sampleJob)] 3600, .claimPending [⟨1, 0, 0⟩],
    .resolve 1 (.setRunning {} "e1" "http://engine" 1 3600),
    .outcome 1 (.releaseDone { sampleJob with backendId := some 1 } {})]

theorem sampleRun_regular : (World.initial 0).ObeysCalls 60 (Regular 60) sampleRun := by
  refine ⟨⟨by decide, ?_⟩, trivial, ?_, ?_, trivial⟩
  · intro job hjob
    obtain rfl := List.mem_singleton.mp hjob
    exact ⟨rfl, congrArg Prod.snd (World.case_initial 0 1), sampleJob_submitted⟩
  · exact ⟨0, by decide +kernel, by decide +kernel⟩
  · show 1 ∈ Redis.inflight _
    decide +kernel

theorem World.onePlace_of_run_sample :
    ((initial 0).run 60 sampleRun).OnePlace 1 :=
  onePlace_of_run sampleRun_regular 1

end Taas

import Taas.System

/-!
# Where a job is

The abstract side of the queues: a job is at one `Site`, and may have a hash and a harvest
entry besides. `Site.view` is what the Redis keys then say, so a job with such a view is on
one pending level, in the delayed set, in flight, or nowhere.

The lemmas here run the commands on a site. The invariant of the queue system
(`Taas/Properties/Places.lean`) says which hashes fit which sites.
-/

namespace Taas

/-- The status is `queued`. -/
def Queued (hash : Option JobHash) : Prop := (hash.bind fun h => h.status) = some .queued

/-- The status is `done` or `failed`. -/
def Terminal (hash : Option JobHash) : Prop :=
  (hash.bind fun h => h.status) = some .done ∨ (hash.bind fun h => h.status) = some .failed

inductive Site where
  | nowhere
  | pending (priority : Int) (score : ℚ)
  | delayed (score : ℚ)
  | inflight
deriving DecidableEq

namespace Site

/-- The keys of a job that is at the site and nowhere else. -/
def view (site : Site) (hash : Option JobHash) (harvest : Option ℚ) : JobView where
  hash := hash
  pending := match site with
    | pending priority score => Function.update (fun _ => none) priority (some score)
    | _ => fun _ => none
  delayed := match site with
    | delayed score => some score
    | _ => none
  inflight := site = inflight
  harvest := harvest

variable (site : Site) (hash : Option JobHash) (harvest : Option ℚ)

@[simp] theorem hash_view : (site.view hash harvest).hash = hash := rfl

@[simp] theorem harvest_view : (site.view hash harvest).harvest = harvest := rfl

@[simp] theorem inflight_view : (site.view hash harvest).inflight ↔ site = inflight := Iff.rfl

/-- A job has a score on a level if that is its site. -/
theorem pending_view (priority : Int) : (site.view hash harvest).pending priority ≠ none ↔
    ∃ score, site = pending priority score := by
  cases site with
  | pending p s =>
    simp only [view, Function.update_apply, pending.injEq]
    split
    · next h => simp [h]
    · next h => simp [Ne.symm h]
  | _ => simp [view]

/-- A job has a score in the delayed set if that is its site. -/
theorem delayed_view : (site.view hash harvest).delayed ≠ none ↔
    ∃ score, site = delayed score := by
  cases site <;> simp [view]

/-- A job that nobody has heard of. -/
theorem view_nowhere_none : nowhere.view none none = JobView.empty := by
  ext <;> simp [view, JobView.empty]

/-! ## The commands -/

@[simp] theorem hset_view (f : JobHash → JobHash) :
    (site.view hash harvest).hset f = site.view (some (f (hash.getD {}))) harvest := rfl

@[simp] theorem hmod_view (f : JobHash → JobHash) :
    (site.view hash harvest).hmod f = site.view (hash.map f) harvest := rfl

@[simp] theorem expired_view : (site.view hash harvest).expired = site.view none harvest := rfl

@[simp] theorem zaddHarvest_view (score : ℚ) :
    (site.view hash harvest).zaddHarvest score = site.view hash (some score) := rfl

@[simp] theorem zremHarvest_view :
    (site.view hash harvest).zremHarvest = site.view hash none := rfl

@[simp] theorem zaddPending_nowhere (priority : Int) (score : ℚ) :
    (nowhere.view hash harvest).zaddPending priority score =
      (pending priority score).view hash harvest := by
  ext <;> simp [view, JobView.zaddPending]

@[simp] theorem zaddDelayed_nowhere (score : ℚ) :
    (nowhere.view hash harvest).zaddDelayed score = (delayed score).view hash harvest := by
  ext <;> simp [view, JobView.zaddDelayed]

@[simp] theorem saddInflight_nowhere :
    (nowhere.view hash harvest).saddInflight = inflight.view hash harvest := by
  ext <;> simp [view, JobView.saddInflight]

@[simp] theorem zremDelayed_delayed (score : ℚ) :
    ((delayed score).view hash harvest).zremDelayed = nowhere.view hash harvest := by
  ext <;> simp [view, JobView.zremDelayed]

theorem zremPending_pending (priority : Int) (score : ℚ) :
    ((pending priority score).view hash harvest).zremPending priority =
      nowhere.view hash harvest := by
  ext <;> simp [view, JobView.zremPending]

/-- A `ZREM` on a level where the job is not. -/
theorem zremPending_of_ne {priority : Int} (h : ∀ score, site ≠ pending priority score) :
    (site.view hash harvest).zremPending priority = site.view hash harvest := by
  have hp : (site.view hash harvest).pending priority = none := by
    by_contra hne
    obtain ⟨score, hs⟩ := (pending_view site hash harvest priority).mp hne
    exact h score hs
  refine JobView.ext rfl ?_ rfl rfl rfl
  simp only [JobView.zremPending, ← hp, Function.update_eq_self]

/-- An `SREM` is felt by a job in flight only. -/
theorem sremInflight_view : (site.view hash harvest).sremInflight =
    (if site = inflight then nowhere else site).view hash harvest := by
  cases site <;> ext <;> simp [view, JobView.sremInflight]

@[simp] theorem sremInflight_inflight :
    (inflight.view hash harvest).sremInflight = nowhere.view hash harvest := by
  simp [sremInflight_view]

@[simp] theorem sremInflight_nowhere :
    (nowhere.view hash harvest).sremInflight = nowhere.view hash harvest := by
  simp [sremInflight_view]

end Site

/-! ## The calls -/

namespace Site

variable (hash : Option JobHash) (harvest : Option ℚ)

@[simp] theorem level_view (site : Site) : (site.view hash harvest).level =
    ((hash.bind JobState.fromHash).map fun s => s.priority).getD 0 := rfl

@[simp] theorem state_view (site : Site) :
    (site.view hash harvest).state = hash.bind JobState.fromHash := rfl

/-- The first write of a job's hash writes all its fields. -/
theorem toHash_overlay (state : JobState) : state.toHash.overlay {} = state.toHash := by
  simp [JobHash.overlay, JobState.toHash]

/-- A new job is on the level of its priority. -/
theorem enqueued_empty (stateTtl : Nat) (state : JobState) :
    JobView.empty.enqueued stateTtl state = (pending state.priority state.submittedAt).view
      (some (state.toHash.expiring stateTtl)) none := by
  rw [← view_nowhere_none, JobView.enqueued, JobView.stored]
  simp [toHash_overlay]

/-- The hash after `schedule_retry`. -/
def avoidingHash (score : ℚ) (avoid : Option BackendId) (h : JobHash) : JobHash :=
  match avoid with
  | none => h.scored score
  | some b => (h.scored score).avoiding (insert b (h.avoidBackends.getD ∅))

@[simp] theorem status_avoidingHash (score : ℚ) (avoid : Option BackendId) (h : JobHash) :
    (avoidingHash score avoid h).status = h.status := by
  cases avoid <;> rfl

@[simp] theorem avoiding_view (site : Site) (score : ℚ) (avoid : Option BackendId) :
    (site.view hash harvest).avoiding score avoid =
      site.view (some (avoidingHash score avoid (hash.getD {}))) harvest := by
  cases avoid <;> rfl

/-- `schedule_retry` of a job that is claimed. -/
theorem delay_nowhere (now score delayS : ℚ) (avoid : Option BackendId) :
    (nowhere.view hash harvest).delay now score delayS avoid =
      (delayed (now + delayS)).view (some (avoidingHash score avoid (hash.getD {}))) harvest := by
  simp [JobView.delay]

/-- A due job goes to the level that its hash names, if there is one. -/
theorem promote_delayed (time score : ℚ) :
    ((delayed score).view hash harvest).promote time =
      match hash.bind JobState.fromHash with
      | none => nowhere.view hash harvest
      | some s => (pending s.priority (s.queueScore.getD time)).view hash harvest := by
  unfold JobView.promote
  rw [show ((delayed score).view hash harvest).delayed = some score from rfl]
  simp only [state_view, zremDelayed_delayed]
  cases hash.bind JobState.fromHash <;> simp

/-- A claimed job is in no queue. -/
theorem claim_pending (now : ℚ) (priority : Int) (score : ℚ) :
    ((pending priority score).view hash harvest).claim now priority =
      nowhere.view (hash.map (JobHash.claimed now)) harvest := by
  have hp : ((pending priority score).view hash harvest).pending priority ≠ none :=
    (pending_view _ _ _ _).mpr ⟨score, rfl⟩
  rw [JobView.claim, if_neg hp, zremPending_pending, hmod_view]

/-- A claimed job that is dispatched is in flight. -/
theorem run_nowhere (settings : Settings) (now : ℚ) (engineJobId backendUrl : String)
    (b : BackendId) (stateTtl : Nat) :
    (nowhere.view hash harvest).run settings now engineJobId backendUrl b stateTtl =
      inflight.view (some (((hash.getD {}).running now settings engineJobId backendUrl
        b).expiring stateTtl)) harvest := by
  simp [JobView.run, JobView.stored]

/-- `release_done` takes a job from its slot to the harvest queue. -/
theorem release_inflight (now : ℚ) (engineRun : EngineRun) :
    (inflight.view hash harvest).release now engineRun =
      nowhere.view (hash.map (JobHash.storing engineRun)) (some now) := by
  simp [JobView.release]

/-- The harvest is put off. -/
theorem reharvest_view (site : Site) (now delayS : ℚ) :
    (site.view hash harvest).reharvest now delayS =
      site.view (some (hash.getD {}).attempted) (some (now + delayS)) := by
  simp [JobView.reharvest]

/-- A failed job has no harvest to come. -/
theorem markFailed_view (site : Site) (now : ℚ) (error : String) (stateTtl : Nat) :
    (site.view hash harvest).markFailed now error stateTtl =
      site.view (some (((hash.getD {}).failed now error).expiring stateTtl).clearHarvest) none := by
  simp [JobView.markFailed, JobView.stored]

/-- `set_done` takes a job off the backends, if it is still there. -/
theorem finishDone_view (site : Site) (now : ℚ) (stateTtl : Nat) :
    (site.view hash harvest).finishDone now stateTtl =
      (if site = inflight then nowhere else site).view
        (some (((hash.getD {}).finished now).expiring stateTtl).clearHarvest) none := by
  simp [JobView.finishDone, JobView.markDone, JobView.stored, sremInflight_view]

theorem cleared_view (site : Site) (stateTtl : Nat) :
    (site.view hash harvest).cleared stateTtl =
      site.view ((hash.map JobHash.clearDispatch).map (JobHash.expiring stateTtl)) none := by
  simp [JobView.cleared]

/-- The end of `release_and_requeue`: without a delay, the job waits on a level. -/
theorem requeued_nowhere (now score delayS : ℚ) (avoid : Option BackendId) (priority : Int) :
    (nowhere.view hash harvest).requeued now score delayS avoid priority =
      if 0 < delayS then
        (delayed (now + delayS)).view (some (avoidingHash score avoid (hash.getD {}))) harvest
      else (pending priority score).view hash harvest := by
  unfold JobView.requeued
  split
  · exact delay_nowhere hash harvest now score delayS avoid
  · exact zaddPending_nowhere hash harvest priority score

end Site

end Taas

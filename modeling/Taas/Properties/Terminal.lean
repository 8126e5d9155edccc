import Taas.Properties.Commands
import Taas.Properties.Hands
import Taas.Properties.Places

/-!
# Done and failed are final, when nobody finishes a waiting job

`set_failed` and `set_done` leave the pending and delayed queues alone, and
`release_and_requeue` and `set_running` write a status without looking at the old one. So a
job that is failed while it waits is dispatched all the same (`failed_job_runs`).

* `heeds_…`, `closes_…` — the commands of the calls: they leave an unfinished job unfinished,
  or put the job they may finish nowhere.
* `final_prog` — every call keeps the promise.
* `terminal_absorbing` — in every interleaving that is `orderly` a finished job stays
  finished, and nobody claims it.

A hash may expire at any time.
-/

namespace Taas

open Infra Infra.Prog

variable {ι α : Type}

/-! ## The commands of the calls -/

section

variable {P : Redis → Prop} {jobId : JobId}

theorem OfCounters.of_view {C : (Redis → Redis) → (Redis → List Event) → Prop}
    (h : ∀ effect : Redis → Redis, (∀ r, (effect r).view = r.view) → C effect fun _ => []) :
    OfCounters C where
  loadQueued _ _ := h _ fun _ => rfl
  loadInflight _ _ := h _ fun _ => rfl
  loads _ := h _ fun _ => rfl
  backend _ _ := h _ fun _ => rfl
  batchPages _ _ _ := h _ fun _ => rfl
  dropBatch _ _ := h _ fun _ => rfl
  wakeSubmit := h _ fun _ => rfl

theorem heeds_counters : OfCounters (Heeds P) :=
  .of_view fun _ h => heeds_of_view h fun _ _ => by simp

theorem closes_counters : OfCounters (Closes jobId) := .of_view fun _ h => closes_of_view h

end

/-- The status in a hash that a late write may just have made. -/
theorem status_getD (hash : Option JobHash) :
    (hash.getD {}).status = hash.bind fun h => h.status := by
  cases hash <;> rfl

theorem terminal_hset {f : JobHash → JobHash} (hf : ∀ h, (f h).status = h.status) (v : JobView) :
    Terminal (v.hset f).hash ↔ Terminal v.hash := by
  simp [JobView.hset, Terminal, hf, status_getD]

theorem terminal_hmod {f : JobHash → JobHash} (hf : ∀ h, (f h).status = h.status) (v : JobView) :
    Terminal (v.hmod f).hash ↔ Terminal v.hash := by
  cases hv : v.hash <;> simp [JobView.hmod, Terminal, hv, hf]

section

variable {P : Redis → Prop} {jobId : JobId}

theorem heeds_call {reply : Redis → α} {effect : Redis → Redis}
    (h : ∀ r, (effect r).view = r.view) : (call reply effect : RedisProg α).Each (Heeds P) :=
  each_call (heeds_of_view h fun _ _ => by simp)

theorem heeds_getJob (j : JobId) : (getJob j).Each (Heeds P) := heeds_call fun _ => rfl

/-- A command on an unfinished job of which nothing is logged. -/
theorem heeds_act {reply : Redis → α} {effect : Redis → Redis} (g : JobView → JobView)
    (hview : ∀ r, (effect r).view = Function.update r.view jobId (g (r.view jobId)))
    (hg : ∀ v : JobView, ¬Terminal v.hash → ¬Terminal (g v).hash) :
    (call reply effect : RedisProg α).Each (Heeds fun r => ¬r.Finished jobId) :=
  each_call (heeds_unfinished g hview hg fun _ _ => by simp)

theorem heeds_addPending (p : Int) (score : ℚ) :
    (addPending p jobId score).Each (Heeds fun r => ¬r.Finished jobId) := by
  refine Each.bind (each_callLog (heeds_unfinished (fun v => v.zaddPending p score)
    (fun r => r.views_zaddPending jobId p score) (fun _ h => h) fun _ _ => by simp)) fun _ => ?_
  exact Each.bind (heeds_call fun _ => rfl) fun _ => heeds_counters.signalSubmit

theorem heeds_hset {f : JobHash → JobHash} (hf : ∀ h, (f h).status = h.status) :
    (act (Redis.hset jobId f)).Each (Heeds fun r => ¬r.Finished jobId) :=
  heeds_act _ (fun r => r.views_hset jobId f) fun v => mt (terminal_hset hf v).mp

theorem heeds_hmod {f : JobHash → JobHash} (hf : ∀ h, (f h).status = h.status) :
    (act (Redis.hmod jobId f)).Each (Heeds fun r => ¬r.Finished jobId) :=
  heeds_act _ (fun r => r.views_hmod jobId f) fun v => mt (terminal_hmod hf v).mp

theorem heeds_scheduleRetry (now score delayS : ℚ) (avoid : Option BackendId) :
    (scheduleRetry now jobId score delayS avoid).Each (Heeds fun r => ¬r.Finished jobId) := by
  refine Each.bind (heeds_hset fun _ => rfl) fun _ => Each.bind ?_ fun _ => ?_
  · cases avoid with
    | none => exact each_pure _
    | some b => exact Each.bind (heeds_call fun _ => rfl) fun _ => heeds_hset fun _ => rfl
  · exact heeds_act _ (fun r => r.views_zaddDelayed jobId _) fun _ h => h

theorem heeds_requeueJob (score : ℚ) :
    (requeueJob jobId score).Each (Heeds fun r => ¬r.Finished jobId) :=
  (heeds_getJob jobId).bind fun _ => heeds_addPending _ _

theorem heeds_setRunning (settings : Settings) (now : ℚ) (engineJobId backendUrl : String)
    (b : BackendId) (stateTtl : Nat) :
    (setRunning settings now jobId engineJobId backendUrl b stateTtl).Each
      (Heeds fun r => ¬r.Finished jobId) := by
  refine Each.bind (heeds_act _ (fun r => r.views_hset jobId _) fun v _ => ?_) fun _ => ?_
  · simp [JobView.hset, JobHash.running, Terminal]
  refine Each.bind (heeds_hmod fun _ => rfl) fun _ => ?_
  refine Each.bind (heeds_act _ (fun r => r.views_saddInflight jobId) fun _ h => h) fun added => ?_
  refine Each.bind (Each.when ?_) fun _ => heeds_call fun _ => rfl
  exact (heeds_getJob jobId).bind fun state => heeds_call fun r => views_countRunning r b state

/-- `release_and_requeue` gives the slot up, once it has read the state. -/
theorem heeds_giveUpSlot (state : Option JobState) : (do
      let removed ← call (fun r => decide (jobId ∈ r.inflight)) (Redis.sremInflight jobId)
      countRequeued removed state
      releaseSlot removed state
      pure state : RedisProg (Option JobState)).Each (Heeds fun r => ¬r.Finished jobId) := by
  refine Each.bind (heeds_act _ (fun r => r.views_sremInflight jobId) fun _ h => h) fun removed =>
    ?_
  refine (heeds_counters.countRequeued removed state).bind fun _ => ?_
  exact (heeds_counters.releaseSlot removed state).bind fun _ => each_pure _

/-- And puts the job back. -/
theorem heeds_backToQueue (now score : ℚ) (stateTtl : Nat) (delayS : ℚ)
    (avoid : Option BackendId) (state : Option JobState) : (do
      act (Redis.hset jobId JobHash.queued)
      backToQueue now jobId score stateTtl delayS avoid state : RedisProg Unit).Each
        (Heeds fun r => ¬r.Finished jobId) := by
  refine Each.bind (heeds_act _ (fun r => r.views_hset jobId _) fun v _ => ?_) fun _ => ?_
  · simp [JobView.hset, JobHash.queued, Terminal]
  refine Each.bind (heeds_hmod fun _ => rfl) fun _ => ?_
  refine Each.bind (heeds_act _ (fun r => r.views_zremHarvest jobId) fun _ h => h) fun _ => ?_
  refine Each.bind (heeds_hmod fun _ => rfl) fun _ => ?_
  unfold requeueReleased
  split
  · exact heeds_scheduleRetry _ _ _ _
  · exact heeds_addPending _ _

theorem closes_call {reply : Redis → α} {effect : Redis → Redis} (g : JobView → JobView)
    (hview : ∀ r, (effect r).view = Function.update r.view jobId (g (r.view jobId)))
    (hf : ∀ v : JobView, Terminal v.hash → Terminal (g v).hash)
    (hw : ∀ v : JobView, v.NotWaiting → (g v).NotWaiting)
    (hi : ∀ v : JobView, (g v).inflight → v.inflight) :
    (call reply effect : RedisProg α).Each (Closes jobId) :=
  each_call (closes_of_job g hview hf hw hi)

theorem closes_query {reply : Redis → α} : (query reply : RedisProg α).Each (Closes jobId) :=
  each_call (closes_of_view fun _ => rfl)

theorem closes_hset {f : JobHash → JobHash}
    (hf : ∀ v : JobView, Terminal v.hash → Terminal (v.hset f).hash) :
    (act (Redis.hset jobId f)).Each (Closes jobId) :=
  closes_call _ (fun r => r.views_hset jobId f) hf (fun _ h => h) fun _ h => h

theorem closes_hmod {f : JobHash → JobHash} (hf : ∀ h, (f h).status = h.status) :
    (act (Redis.hmod jobId f)).Each (Closes jobId) :=
  closes_call _ (fun r => r.views_hmod jobId f) (fun v => (terminal_hmod hf v).mpr)
    (fun _ h => h) fun _ h => h

theorem closes_sremInflight {reply : Redis → α} :
    (call reply (Redis.sremInflight jobId) : RedisProg α).Each (Closes jobId) :=
  closes_call _ (fun r => r.views_sremInflight jobId) (fun _ h => h) (fun _ h => h)
    fun _ h => h.elim

theorem closes_countBatchPage (state : Option JobState) (status : JobStatus) :
    (countBatchPage state status).Each (Closes jobId) := by
  unfold countBatchPage
  split
  · exact each_pure _
  · split
    · exact each_pure _
    · split
      · exact each_pure _
      · exact Each.map _ (each_call (closes_of_view fun _ => rfl))

theorem closes_setFailed (now : ℚ) (error : String) (stateTtl : Nat) :
    (setFailed now jobId error stateTtl).Each (Closes jobId) := by
  have hsignal : ∀ c, (when c signalSubmit).Each (Closes jobId) := fun _ =>
    closes_counters.signalSubmit.when
  refine Each.bind closes_query fun state => (closes_countBatchPage state _).bind fun _ => ?_
  refine Each.bind (closes_call (fun v => v.markFailed now error stateTtl) (fun r => ?_)
    (fun v _ => ?_) (fun _ h => h) fun _ h => h) fun harvestRemoved => ?_
  · simp only [Redis.markFailed, Redis.views_hset, Redis.views_expire, Redis.views_zremHarvest,
      Redis.views_hmod, Function.update_self, Function.update_idem]
    rfl
  · simp [JobView.markFailed, JobView.stored, JobView.hset, JobView.hmod, JobView.zremHarvest,
      JobHash.failed, JobHash.expiring, JobHash.clearHarvest, Terminal]
  refine Each.bind closes_sremInflight fun removed => ?_
  refine (closes_counters.countFailed removed state).bind fun _ => (hsignal _).bind fun _ => ?_
  exact (closes_counters.releaseSlot removed state).bind fun _ => (hsignal _).bind fun _ =>
    each_pure _

theorem closes_setDone (now : ℚ) (stateTtl : Nat) (state : Option JobState) :
    (setDone now jobId stateTtl state).Each (Closes jobId) := by
  have hstate : (doneState jobId state).Each (Closes jobId) := by
    unfold doneState
    split
    · exact closes_query
    · exact each_pure _
  refine hstate.bind fun state => (closes_countBatchPage state _).bind fun _ => ?_
  refine Each.bind (closes_hset fun v _ => ?_) fun _ => ?_
  · simp [JobView.hset, JobHash.finished, Terminal]
  refine Each.bind (closes_hmod fun _ => rfl) fun _ => ?_
  refine Each.bind closes_sremInflight fun removed => ?_
  refine Each.bind (closes_call _ (fun r => r.views_zremHarvest jobId) (fun _ h => h)
    (fun _ h => h) fun _ h => h) fun harvestRemoved => ?_
  refine Each.bind (closes_hmod fun _ => rfl) fun _ => ?_
  exact (closes_counters.settleDone _ _ _).bind fun _ => each_pure _

theorem closes_rescheduleHarvest (now delayS : ℚ) :
    (rescheduleHarvest now jobId delayS).Each (Closes jobId) := by
  refine closes_call (fun v => v.reharvest now delayS) (fun r => ?_) (fun v h => ?_) (fun _ h => h)
    fun _ h => h
  · simp only [Redis.views_zaddHarvest, Redis.views_hset, Function.update_self,
      Function.update_idem]
    rfl
  · exact (terminal_hset (fun _ => rfl) v).mpr h

end

section

variable {P : Redis → Prop} {jobId : JobId}

/-- A command on one job that leaves its status alone and puts it nowhere. -/
theorem Redis.spares_job {r r' : Redis} {v : JobView}
    (h : r'.view = Function.update r.view jobId v) (hf : Terminal v.hash ↔ r.Finished jobId)
    (hw : (r.view jobId).NotWaiting → v.NotWaiting) (hi : v.inflight = (r.view jobId).inflight) :
    r.Spares r' :=
  Redis.spares_update h hf (fun _ => hw) fun _ => hi.mp

theorem JobView.NotWaiting.zremPending {v : JobView} (h : v.NotWaiting) (p : Int) :
    (v.zremPending p).NotWaiting := by
  refine ⟨fun q => ?_, h.2⟩
  show Function.update v.pending p none q = none
  rw [Function.update_apply]
  split
  · rfl
  · exact h.1 q

theorem Redis.spares_claim (r : Redis) (now : ℚ) (entry : QueueEntry) :
    r.Spares (r.claim now entry) := by
  refine Redis.spares_job (views_claim r now entry) ?_ (fun h => ?_) ?_
  · unfold JobView.claim
    split
    · exact Iff.rfl
    · exact terminal_hmod (f := JobHash.claimed now) (fun _ => rfl) _
  · unfold JobView.claim
    split
    · exact h
    · exact h.zremPending _
  · unfold JobView.claim
    split <;> rfl

/-- A claimed job was pending. -/
theorem not_notWaiting_of_claimable {r : Redis} {entry : QueueEntry}
    (h : r.claimable entry = true) : ¬(r.view entry.jobId).NotWaiting :=
  fun hw => ((World.claimable_iff r entry).mp h).1 (hw.1 _)

theorem heeds_dropPending (entries : List QueueEntry) : (dropPending entries).Each (Heeds P) := by
  induction entries with
  | nil => exact each_pure _
  | cons entry entries ih =>
    refine Each.bind (each_call fun r _ => ⟨?_, fun j => by simp⟩) fun _ => ih
    exact Redis.spares_job (r.views_zremPending entry.jobId _) Iff.rfl (fun h => h.zremPending _)
      rfl

theorem Redis.spares_requeueOrphan (r : Redis) (now claimGraceS : ℚ) (j : JobId) :
    r.Spares (r.requeueOrphan now claimGraceS j) := by
  by_cases ho : ∃ h, (r.view j).Orphaned now claimGraceS h
  · obtain ⟨h, ho⟩ := ho
    have hn : ¬r.Finished j := by
      simp [Redis.Finished, Terminal, ho.1, ho.2.1]
    exact Redis.spares_update (views_requeueOrphan_of_orphaned r j ho) Iff.rfl
      (fun hf => absurd hf hn) fun hf => absurd hf hn
  · rw [requeueOrphan_of_not r j (not_exists.mp ho)]
    exact Redis.Spares.refl r

theorem heeds_requeueOrphans (jobIds : List JobId) (now claimGraceS : ℚ) :
    (requeueOrphans jobIds now claimGraceS).Each (Heeds P) := by
  refine Each.bind ?_ fun _ => heeds_counters.signalSubmit.when.bind fun _ => each_pure _
  induction jobIds with
  | nil => exact each_pure _
  | cons j jobIds ih =>
    have hscript : (requeueOrphan now claimGraceS j).Each (Heeds P) := by
      refine each_callLog fun r _ => ⟨r.spares_requeueOrphan now claimGraceS j, fun k hk => ?_⟩
      split at hk <;> simp at hk
    exact hscript.bind fun _ => ih.bind fun _ => each_pure _

theorem heeds_forgetHarvests (jobIds : List JobId) : (forgetHarvests jobIds).Each (Heeds P) := by
  refine each_call fun r hr => ⟨?_, fun j => by simp⟩
  clear hr
  induction jobIds generalizing r with
  | nil => exact Redis.Spares.refl r
  | cons j jobIds ih =>
    exact (Redis.spares_job (r.views_zremHarvest j) Iff.rfl id rfl).trans (ih (r.zremHarvest j))

theorem Redis.spares_releaseDone {r : Redis} (now : ℚ) (state : JobState) (engineRun : EngineRun)
    (h : jobId ∈ r.inflight → ¬r.Finished jobId) :
    r.Spares (r.releaseDone now jobId state engineRun) := by
  by_cases hi : jobId ∈ r.inflight
  · have hview : (r.releaseDone now jobId state engineRun).view =
        Function.update r.view jobId ((r.view jobId).release now engineRun) :=
      views_releaseDone_of_inflight r jobId hi
    refine Redis.spares_update hview ⟨fun ht => ?_, fun hf => absurd hf (h hi)⟩
      (fun hf => absurd hf (h hi)) fun hf => absurd hf (h hi)
    exfalso
    revert ht
    simp only [JobView.release, JobView.hmod, Terminal]
    cases (r.view jobId).sremInflight.zaddHarvest now |>.hash <;> simp [JobHash.storing]
  · rw [releaseDone_of_not_inflight r jobId hi]
    exact Redis.Spares.refl r

/-- `enqueue_jobs` of queued states. -/
theorem Redis.view_enqueued (stateTtl : Nat) {jobs : List (JobId × JobState)}
    (hq : ∀ job ∈ jobs, job.2.status = .queued) (r : Redis) (j : JobId) :
    (jobs.foldl (Redis.enqueue stateTtl) r).view j = r.view j ∨
      j ∈ jobs.map Prod.fst ∧ ¬(jobs.foldl (Redis.enqueue stateTtl) r).Finished j := by
  induction jobs generalizing r with
  | nil => exact Or.inl rfl
  | cons job jobs ih =>
    have hview := views_enqueue r job.1 stateTtl job.2
    rcases ih (fun job' h => hq job' (List.mem_cons_of_mem _ h)) (r.enqueue stateTtl job) with h | h
    · rw [List.foldl_cons, h]
      by_cases hj : j = job.1
      · refine Or.inr ⟨by simp [hj], fun hf => ?_⟩
        rw [Redis.finished_congr h, Redis.Finished, hview, hj, Function.update_self] at hf
        revert hf
        simp [JobView.enqueued, JobView.stored, JobView.zaddPending, JobView.hmod, JobView.hset,
          JobHash.expiring, JobHash.overlay, JobState.toHash, Terminal,
          hq job (List.mem_cons_self ..)]
      · exact Or.inl (by rw [hview, Function.update_of_ne hj])
    · exact Or.inr ⟨List.mem_cons_of_mem _ h.1, h.2⟩

end

/-! ## Every call -/

section

variable [DecidableEq ι] {i : ι} {jobId : JobId}

/-- What `enqueue_jobs` puts is new. -/
def PutsNew (effect : Redis → Redis) (log : Redis → List Event) : Prop :=
  ∀ r, (∀ j, .put j ∈ log r → r.jobs.lookup j = none) →
    r.Spares (effect r) ∧ ∀ j, .claimed j ∉ log r

theorem putsNew_enqueueJobs {jobs : List (JobId × JobState)} (stateTtl : Nat)
    (hq : ∀ job ∈ jobs, job.2.status = .queued) : (enqueueJobs jobs stateTtl).Each PutsNew := by
  have hwake : signalSubmit.Each PutsNew :=
    each_call fun r _ => ⟨Redis.Spares.refl _, fun j => by simp⟩
  refine Each.bind ?_ fun _ => hwake.when
  have hchunks : ∀ chunk ∈ chunks enqueueChunk jobs, ∀ job ∈ chunk, job.2.status = .queued :=
    fun chunk hc job hj =>
      hq job (flatten_chunks (n := enqueueChunk) (by decide) jobs ▸ List.mem_flatten_of_mem hc hj)
  generalize chunks enqueueChunk jobs = pieces at hchunks
  induction pieces with
  | nil => exact each_pure _
  | cons chunk pieces ih =>
    have hchunk : (enqueueTransaction stateTtl chunk).Each PutsNew := by
      refine each_callLog fun r hnew => ⟨Redis.spares_of_views fun j => ?_, fun j => by simp⟩
      refine (Redis.view_enqueued stateTtl (hchunks chunk (List.mem_cons_self ..)) r j).imp id
        fun h => ⟨fun hf => ?_, h.2⟩
      obtain ⟨job, hjob, rfl⟩ := List.mem_map.mp h.1
      have hnone : (r.view job.1).hash = none := hnew job.1 (List.mem_map_of_mem hjob)
      simp [Redis.Finished, Terminal, hnone] at hf
    exact hchunk.bind fun _ => ih fun c hc => hchunks c (List.mem_cons_of_mem _ hc)

theorem final_enqueues {p : RedisProg α} (hp : p.Each PutsNew) :
    Final i (fun _ _ => True) (zoom Handled.redis Handled.put Event.enqueues p) := by
  induction p with
  | ret a => exact fun _ _ _ _ => trivial
  | cmd ready effect log next ih =>
    intro t es hi _ _ ha
    obtain ⟨hs, hlog⟩ := hp.1 t.redis fun j hj => ha (.enqueues j) (List.mem_map.mpr ⟨_, hj, rfl⟩)
    refine ⟨fun j => Handled.Out.spares (hi j) rfl hs (fun _ => id) fun _ _ => id,
      guar_of_spares hi hs (fun _ _ => rfl) (fun e (he : _ ∈ _) => ?_)
        fun j (hj : _ ∈ log t.redis) => absurd hj (hlog j),
      fun _ _ => True, trivial, Contract.stable_true, ih _ (hp.2 _)⟩
    obtain ⟨e', he', h⟩ := List.mem_map.mp he
    cases e' <;> simp only [Event.enqueues, Sum.inl.injEq, reduceCtorEq] at h
    all_goals exact h ▸ he'

theorem final_expire : Final i (fun _ _ => True) (StatusCall.prog i (.expire jobId)) := by
  refine Contract.triple_callLog (fun t es hi _ _ => ?_) fun _ => Contract.stable_true
  have hview := t.redis.views_expireNow jobId
  have hn : ¬(t.redis.expireNow jobId).Finished jobId := by
    rw [Redis.Finished, hview, Function.update_self]
    simp [JobView.expired, Terminal]
  have hother : ∀ j, j ≠ jobId → (t.redis.expireNow jobId).view j = t.redis.view j :=
    fun j hj => by rw [hview, Function.update_of_ne hj]
  refine ⟨fun j hj => ?_, ⟨fun _ _ => rfl, _, rfl, fun j hj => ⟨by simp, ?_⟩⟩, trivial⟩
  · have hjj : j ≠ jobId := fun h => hn (h ▸ hj)
    have hv := hother j hjj
    obtain ⟨hw, hh, hc⟩ := hi j ((Redis.finished_congr hv).mp hj)
    exact ⟨(congrArg JobView.NotWaiting hv).mpr hw, hh,
      fun hin => hc ((Redis.mem_inflight_congr hv).mp hin)⟩
  · by_cases hjj : j = jobId
    · exact Or.inr (by simp [hjj])
    · exact Or.inl ((Redis.finished_congr (hother j hjj)).mpr hj)

theorem final_dispatch (now : ℚ) (entry : QueueEntry) (later : ℚ) (resolution : Resolution) :
    Final i (fun _ _ => True) (StatusCall.prog i (.dispatch now entry later resolution)) := by
  refine final_holding (fun t es hi _ => ⟨t.redis.spares_claim now entry, fun j hj => ?_, ?_⟩)
    (fun r hr => ?_) fun r hr => ?_
  · split at hj
    · next hc =>
      obtain rfl : j = entry.jobId := by simpa using hj
      exact not_notWaiting_of_claimable hc
    · simp at hj
  · exact fun hc hf => not_notWaiting_of_claimable hc (hi _ hf).notWaiting
  · rw [hr]
    cases resolution with
    | requeueJob score => exact final_inHand (heeds_requeueJob score)
    | scheduleRetry score delayS avoid => exact final_inHand (heeds_scheduleRetry ..)
    | setRunning settings engineJobId backendUrl b stateTtl =>
      exact final_inHand (heeds_setRunning ..)
    | setFailed error stateTtl =>
      exact (final_closes ((closes_setFailed later error stateTtl).map _)).imp
        (fun _ _ _ _ => trivial) fun _ _ _ h => h
  · rw [hr]
    exact each_pure ()

theorem final_promote (time : ℚ) :
    Final i (fun _ _ => True) (StatusCall.prog i (.promote time jobId)) := by
  refine Contract.Triple.bind (final_holding (fun t es hi _ => ⟨?_, fun j hj => ?_, ?_⟩)
    (fun r hr => ?_) fun r hr => ?_) fun _ => fun _ _ _ _ => trivial
  · exact Redis.spares_job (t.redis.views_zremDelayed jobId) Iff.rfl (fun h => ⟨h.1, rfl⟩) rfl
  · simp at hj
  · intro hd hf
    have hnone : t.redis.delayed.lookup jobId = none := (hi _ hf).notWaiting.2
    simp [hnone] at hd
  · rw [hr, if_pos rfl]
    refine final_inHand ((heeds_getJob jobId).bind fun state => ?_)
    cases state with
    | none => exact each_pure _
    | some state => exact (heeds_addPending _ _).bind fun _ => each_pure _
  · rw [hr, if_neg Bool.false_ne_true]
    exact each_pure _

omit [DecidableEq ι] in
/-- Nobody takes a finished job off its engine. -/
theorem not_finished_of_releases {t : Handled ι} {es : List (Event ⊕ Mark ι)}
    (hinv : (finality ι).inv t es) (h : (Mark.releases jobId : Mark ι).Orderly t) :
    ¬t.redis.Finished jobId := fun hf => by
  obtain ⟨i, hi⟩ := (hinv jobId hf).closing h.1
  rw [h.2 i] at hi
  cases hi

theorem final_releaseDone (now : ℚ) (state : JobState) (engineRun : EngineRun) :
    Final i (fun _ _ => True)
      (StatusCall.prog i (.outcome now jobId (.releaseDone state engineRun))) := by
  have hrest : ∀ released : Bool, Each (Closes jobId) ((fun _ => ()) <$> (do
      when released signalSubmit
      pure released : RedisProg Bool)) := fun _ =>
    Each.map _ (closes_counters.signalSubmit.when.bind fun _ => each_pure _)
  refine final_holding (fun t es hi hm => ?_) (fun r _ => ?_) fun r _ => hrest _
  · have hfin : jobId ∈ t.redis.inflight → ¬t.redis.Finished jobId := fun h =>
      not_finished_of_releases hi (hm (decide_eq_true h) _ (List.mem_singleton_self _))
    exact ⟨Redis.spares_releaseDone now state engineRun hfin, fun j hj => by simp at hj,
      fun h => hfin (of_decide_eq_true h)⟩
  · exact Contract.Triple.imp (final_closes (hrest _)) (fun _ _ _ _ => trivial) fun _ _ _ h => h

theorem final_releaseAndRequeue (now score : ℚ) (stateTtl : Nat) (delayS : ℚ)
    (avoid : Option BackendId) : Final i (fun _ _ => True)
      (StatusCall.prog i
        (.outcome now jobId (.releaseAndRequeue score stateTtl delayS avoid))) := by
  refine final_holding (fun t es hi hm => ?_)
    (fun r _ => final_inHand ((heeds_giveUpSlot _).bind fun state =>
      heeds_backToQueue now score stateTtl delayS avoid state)) fun r hr => ?_
  · exact ⟨Redis.Spares.refl _, fun j hj => by simp at hj, fun h =>
      not_finished_of_releases hi (hm h _ (List.mem_singleton_self _))⟩
  · cases hr

/-- **Every call keeps the promise.** -/
theorem final_prog (call : StatusCall) : Final i (fun _ _ => True) (call.prog i) := by
  cases call with
  | enqueueJobs jobs stateTtl hjobs => exact final_enqueues (putsNew_enqueueJobs stateTtl hjobs)
  | promote time jobId => exact final_promote time
  | dispatch now entry later resolution => exact final_dispatch now entry later resolution
  | dropPending entries => exact final_aside (heeds_dropPending entries)
  | outcome now jobId o =>
    cases o with
    | releaseDone state engineRun => exact final_releaseDone now state engineRun
    | releaseAndRequeue score stateTtl delayS avoid =>
      exact final_releaseAndRequeue now score stateTtl delayS avoid
    | scheduleNextPoll at' =>
      exact final_closes (closes_hset fun v => (terminal_hset (fun _ => rfl) v).mpr)
    | rescheduleHarvest delayS => exact final_closes (closes_rescheduleHarvest ..)
    | setDone stateTtl state => exact final_closes ((closes_setDone ..).map _)
    | setFailed error stateTtl => exact final_closes ((closes_setFailed ..).map _)
  | countRequeue jobId =>
    exact final_closes (closes_hset fun v => (terminal_hset (fun _ => rfl) v).mpr)
  | requeueOrphans jobIds now claimGraceS =>
    exact final_aside ((heeds_requeueOrphans ..).map _)
  | forgetHarvests jobIds => exact final_aside (heeds_forgetHarvests jobIds)
  | expire jobId => exact final_expire

theorem final_all (calls : List StatusCall) :
    Final i (fun _ _ => True) (StatusCall.all i calls) := by
  induction calls with
  | nil => exact fun _ _ _ _ => trivial
  | cons call calls ih => exact (final_prog call).bind fun _ => ih

end

/-! ## Every run -/

variable [DecidableEq ι] {r : Redis} {calls : ι → List StatusCall}
  {q q' : Pool (Handled ι) (Event ⊕ Mark ι) ι} {jobId : JobId}

/-- The dead have nothing in hand. -/
theorem cleanOk_finality : Pool.CleanOk (orderly ι) (finality ι) := by
  intro i t es hi
  refine ⟨fun j => Handled.Out.spares (hi j) rfl (Redis.Spares.refl _) (fun k hk => ?_)
    fun _ _ => id, fun k hk => ?_, [], (List.append_nil es).symm, fun j hj => ?_⟩
  · exact (Bool.and_eq_true _ _ ▸ hk).1
  · show (t.holds k && decide (k.1 ≠ i)) = t.holds k
    rw [decide_eq_true hk, Bool.and_true]
  · exact ⟨List.not_mem_nil, Or.inl hj⟩

theorem sound_handlers (hfresh : ∀ j, ¬r.Finished j) :
    Pool.Sound (orderly ι) (finality ι) (fun _ _ _ => True) (handlers r calls) :=
  ⟨fun j hj => absurd hj (hfresh j), fun i _ hi =>
    ⟨fun _ _ => True, trivial, Contract.stable_true, Option.some.inj hi ▸ final_all (calls i)⟩⟩

/-- **In a run in which jobs are finished only while they wait nowhere and nobody else has them in
hand, and taken off their engine only while they are there and no call that finished them goes on, a
job that is done or failed stays so until its hash expires, nobody claims it, and nobody has it in
hand.** -/
theorem terminal_absorbing (hfresh : ∀ j, ¬r.Finished j)
    (hq : Pool.Run (orderly ι) (handlers r calls) q) (hq' : Pool.Run (orderly ι) q q')
    (hj : q.shared.redis.Finished jobId) : ∃ new, q'.history = q.history ++ new ∧
      (.inr (.expires jobId) ∉ new → q'.shared.redis.Finished jobId ∧
        .inl (.claimed jobId) ∉ new ∧ ∀ i, q'.shared.holds (i, jobId) = false) := by
  have hsound := (sound_handlers hfresh).run cleanOk_finality hq
  have hkeeps := hsound.keeps (B := fun t es => ∃ new, es = q.history ++ new ∧
    (.inr (.expires jobId) ∉ new →
      t.redis.Finished jobId ∧ .inl (.claimed jobId) ∉ new)) cleanOk_finality ?_ hq'
    ⟨[], (List.append_nil _).symm, fun _ => ⟨hj, List.not_mem_nil⟩⟩
  · obtain ⟨new, hnew, hfin⟩ := hkeeps
    refine ⟨new, hnew, fun he => ⟨(hfin he).1, (hfin he).2, ?_⟩⟩
    exact ((hsound.run cleanOk_finality hq').inv jobId (hfin he).1).inHand
  · rintro i t es t' es' ⟨-, new', rfl, hg⟩ ⟨new, rfl, hB⟩
    refine ⟨new ++ new', List.append_assoc .., fun he => ?_⟩
    rw [List.mem_append, not_or] at he
    obtain ⟨hfin, hnot⟩ := hB he.1
    obtain ⟨hnot', hfin'⟩ := hg jobId hfin
    exact ⟨hfin'.resolve_right he.2, by simp [hnot, hnot']⟩

/-! ## A job that is failed while it waits -/

/-- A job is enqueued, and the reaper fails it because its row is stale. A submit worker has it
among its peeked jobs. -/
def sampleStale : Bool → List StatusCall
  | true =>
    [.enqueueJobs [(1, sampleJob)] 3600 (by decide), .outcome 10 1 (.setFailed "timed out" 3600)]
  | false => [.dispatch 20 ⟨1, 0, 0⟩ 21 (.setRunning {} "e1" "http://engine" 1 3600)]

/-- The job was finished, and after its claim it runs. -/
def runsAgain (q q' : Pool (Handled Bool) (Event ⊕ Mark Bool) Bool) : Bool :=
  decide (q.shared.redis.Finished 1) && (decide (q'.history = q.history ++ [.inl (.claimed 1)]) &&
    decide ((q'.shared.redis.jobs.lookup 1).bind (fun h => h.status) = some .running))

/-- **A job that is failed while it waits is claimed and run all the same.** -/
theorem failed_job_runs : ∃ q q' : Pool (Handled Bool) (Event ⊕ Mark Bool) Bool,
    Pool.Run Regime.free (handlers {} sampleStale) q ∧ Pool.Run Regime.free q q' ∧
      q.shared.redis.Finished 1 ∧ q'.history = q.history ++ [.inl (.claimed 1)] ∧
        (q'.shared.redis.jobs.lookup 1).bind (fun h => h.status) = some .running := by
  obtain ⟨q, hq, hP⟩ := Pool.exists_run_of_schedule (R := Regime.free) (fun _ _ => trivial)
    (p := handlers {} sampleStale) (l := List.replicate 6 true)
    (P := fun q => (q.schedule [false, false]).any (runsAgain q)) (by decide +kernel)
  obtain ⟨q', hq', hP'⟩ := Pool.exists_run_of_schedule (R := Regime.free) (fun _ _ => trivial) hP
  simp only [runsAgain, Bool.and_eq_true, decide_eq_true_eq] at hP'
  exact ⟨q, q', hq, hq', hP'⟩

/-! ## A job that is failed in flight -/

/-- Job 1 runs on backend 1, and job 2 waits. -/
def sampleBusy : Redis where
  jobs := (Finmap.singleton 1
    { sampleJob with
      status := .running, engineJobId := some "e1", backendId := some 1 }.toHash).insert 2
        sampleJob.toHash
  pending := fun p => if p = 0 then Finmap.singleton 2 0 else ∅
  inflight := {1}

/-- A poller (0) fails job 1, a submit worker (1) peeked it long ago and dispatches job 2 as well,
and another poller (2) comes with old news of job 1, after a sweep. -/
def sampleLate : Fin 3 → List StatusCall
  | 0 => [.outcome 100 1 (.setFailed "engine failed" 3600)]
  | 1 => [.dispatch 101 ⟨1, 0, 0⟩ 102 (.setRunning {} "e3" "http://engine" 1 3600),
      .dispatch 103 ⟨2, 0, 0⟩ 104 (.setRunning {} "e2" "http://engine" 1 3600)]
  | 2 => [.requeueOrphans [1, 2] 105 60, .outcome 106 1 (.releaseDone sampleJob {}),
      .outcome 107 1 (.scheduleNextPoll 110), .outcome 108 2 (.releaseDone sampleJob {})]

def Mark.check (t : Handled (Fin 3)) : Mark (Fin 3) → Bool
  | finishes _ _ => false
  | releases jobId => decide (jobId ∈ t.redis.inflight ∧ ∀ i, t.closing (i, jobId) = false)
  | enqueues jobId => (t.redis.jobs.lookup jobId).isNone
  | expires _ => true

/-- No command finishes a job, and the rest is as it should be. -/
def checked (t : Handled (Fin 3)) (events : List (Event ⊕ Mark (Fin 3))) : Bool :=
  events.all fun event => event.elim (fun _ => true) fun m => m.check t

theorem orderly_of_checked (t : Handled (Fin 3)) (events : List (Event ⊕ Mark (Fin 3)))
    (h : checked t events = true) : (orderly (Fin 3)).allowed t events := by
  intro m hm
  have hc : m.check t = true := List.all_eq_true.mp h (.inr m) hm
  cases m with
  | finishes i jobId => cases hc
  | releases jobId =>
    show _ ∧ _
    exact of_decide_eq_true hc
  | enqueues jobId => exact Option.isNone_iff_eq_none.mp hc
  | expires jobId => trivial

theorem sampleBusy_fresh (j : JobId) : ¬sampleBusy.Finished j := by
  show ¬Terminal (sampleBusy.jobs.lookup j)
  by_cases h2 : j = 2
  · subst h2
    decide +kernel
  · by_cases h1 : j = 1
    · subst h1
      decide +kernel
    · have hnone : sampleBusy.jobs.lookup j = none :=
        Finmap.lookup_eq_none.mpr (by simp [sampleBusy, h1, h2])
      simp [hnone, Terminal]

/-- Job 1 is failed and still in flight. -/
def failedInFlight (q : Pool (Handled (Fin 3)) (Event ⊕ Mark (Fin 3)) (Fin 3)) : Bool :=
  decide (q.shared.redis.Finished 1) && decide (1 ∈ q.shared.redis.inflight)

/-- Everybody has come to the end, and only job 2 was claimed and released. -/
def allEnded (q q' : Pool (Handled (Fin 3)) (Event ⊕ Mark (Fin 3)) (Fin 3)) : Bool :=
  decide (∀ i, q'.ended i = true) && (decide (2 ∈ q'.shared.redis.pendingHarvest) &&
    decide (q'.history = q.history ++ [.inl (.claimed 2), .inr (.releases 2)]))

/-- The turns after job 1 was failed. -/
def sampleTurns : List (Fin 3) := [1, 2, 2, 0, 0, 0, 0] ++ List.replicate 7 1 ++ List.replicate 4 2

/-- The write of the failure, and what comes after it. -/
def writesFailure (p q : Pool (Handled (Fin 3)) (Event ⊕ Mark (Fin 3)) (Fin 3)) : Bool :=
  decide (p.history = [] ∧ q.history = [.inr (.finishes 0 1)]) &&
    (failedInFlight q && (q.scheduleIf checked sampleTurns).any (allEnded q))

theorem terminal_absorbing_sample :
    ∃ q q' : Pool (Handled (Fin 3)) (Event ⊕ Mark (Fin 3)) (Fin 3),
      Pool.Run (orderly (Fin 3)) (handlers sampleBusy sampleLate) q ∧
        Pool.Run (orderly (Fin 3)) q q' ∧ failedInFlight q = true ∧ allEnded q q' = true ∧
          q'.shared.redis.Finished 1 ∧ ∀ i, q'.shared.holds (i, 1) = false := by
  -- the poller has read the state, and its next command is the write
  obtain ⟨p, hp, hredis, hholds, hnext⟩ : ∃ p, (handlers sampleBusy sampleLate).exec 0 = some p ∧
      p.shared.redis = sampleBusy ∧ (∀ i, p.shared.holds (i, 1) = false) ∧
        (p.exec 0).any (writesFailure p) = true :=
    ⟨_, rfl, rfl, fun _ => rfl, by decide +kernel⟩
  obtain ⟨q, hq, hP⟩ := (Option.any_eq_true ..).mp hnext
  simp only [writesFailure, Bool.and_eq_true, decide_eq_true_eq] at hP
  obtain ⟨⟨hempty, hlog⟩, hfailed, hrest⟩ := hP
  have hturn : (handlers sampleBusy sampleLate).scheduleIf checked [0] = some p := by
    simp [Pool.scheduleIf, hp, hempty, checked]
  have hread := Pool.run_of_scheduleIf orderly_of_checked hturn
  obtain ⟨ready, effect, log, next, hproc, hready, rfl⟩ := Pool.exec_eq_some hq
  have hmarks : log p.shared = [.inr (.finishes 0 1)] := by simpa [hempty] using hlog
  have hwaits : (p.shared.redis.view 1).NotWaiting := by
    rw [hredis]
    refine ⟨fun p => ?_, rfl⟩
    show (if p = 0 then Finmap.singleton 2 0 else ∅ : SortedSet JobId).lookup 1 = none
    split <;> rfl
  have hallowed : (orderly (Fin 3)).allowed p.shared (log p.shared) := by
    intro m hm
    rw [hmarks, List.mem_singleton] at hm
    obtain rfl := Sum.inr.inj hm
    exact ⟨hwaits, fun i _ => hholds i⟩
  have hwrite := Pool.Step.exec hproc hready hallowed
  obtain ⟨q', hq', hend⟩ := Pool.exists_run_of_scheduleIf orderly_of_checked hrest
  have hrun := hread.tail hwrite
  have hfin := hfailed
  rw [failedInFlight, Bool.and_eq_true, decide_eq_true_eq] at hfin
  obtain ⟨new, hnew, hstays⟩ := terminal_absorbing sampleBusy_fresh hrun hq' hfin.1
  have hhistory := hend
  simp only [allEnded, Bool.and_eq_true, decide_eq_true_eq] at hhistory
  have hexpires : .inr (.expires 1) ∉ new := by
    rw [List.append_cancel_left (hnew.symm.trans hhistory.2.2)]
    simp
  obtain ⟨hfinal, -, hnobody⟩ := hstays hexpires
  exact ⟨_, q', hrun, hq', hfailed, hend, hfinal, hnobody⟩

end Taas

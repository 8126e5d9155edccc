import Taas.Properties.Ledger

/-!
# The load and slot counters are conserved

* `Tally` — where one job is counted, by its view.
* `Balanced` — the ledger moved by what the job's tally moved.
* `Counted` — every counter is the number of the jobs counted there; a balanced change of one
  job keeps that (`Counted.update`).
* `conserved_of_run` — the counters in every state that an accounted run reaches.
-/

namespace Taas

open Infra Infra.Prog

/-! ## Tallies -/

/-- The load field and the batch of a job. -/
def JobState.load (s : JobState) : String × Option BatchId := (jobLoadField s, s.batchId)

def JobHash.load (h : JobHash) : Option (String × Option BatchId) :=
  (JobState.fromHash h).map JobState.load

theorem JobHash.load_of_submit {h h' : JobHash} (e : h'.submit = h.submit) :
    h'.load = h.load := by
  have hu : h'.username = h.username := congrArg Submit.username e
  have hf : h'.fmt = h.fmt := congrArg Submit.fmt e
  have ho : h'.outputs = h.outputs := congrArg Submit.outputs e
  have hs : h'.submittedAt = h.submittedAt := congrArg Submit.submittedAt e
  have hd : h'.domain = h.domain := congrArg Submit.domain e
  have hb : h'.batchId = h.batchId := congrArg Submit.batchId e
  have hout : JobState.hashOutputs h' = JobState.hashOutputs h := by
    rw [JobState.hashOutputs, JobState.hashOutputs, ho, hf]
  unfold load JobState.fromHash
  rw [hu, hf, hs, hout]
  cases nonEmpty h.username <;> cases nonEmpty h.fmt <;> cases JobState.hashOutputs h <;>
    cases h.submittedAt <;> simp [JobState.load, jobLoadField, hd, hb]

/-- Where a job is counted. -/
structure Tally where
  queued : Option String := none
  running : Option String := none
  slot : Option BackendId := none
  page : Option (BackendId × BatchId) := none

open Classical in
noncomputable def Tally.of (queued inflight : Prop) (load : Option (String × Option BatchId))
    (backendId : Option BackendId) : Tally where
  queued := if queued then load.map Prod.fst else none
  running := if inflight then load.map Prod.fst else none
  slot := if inflight then backendId else none
  page := if inflight then
      backendId.bind fun b => (load.bind Prod.snd).map fun batchId => (b, batchId)
    else none

noncomputable def JobView.tally (v : JobView) : Tally :=
  Tally.of (Queued v.hash) v.inflight (v.hash.bind JobHash.load)
    (v.hash.bind fun h => h.backendId)

/-- A job in flight on a backend. -/
def Tally.onBackend (field : String) (b : BackendId) (batch : Option BatchId) : Tally where
  running := some field
  slot := some b
  page := batch.map fun batchId => (b, batchId)

theorem tally_queued {site : Site} {h : JobHash} {harvest : Option ℚ} {field : String}
    {batch : Option BatchId} (hs : h.status = some .queued) (hsite : site ≠ .inflight)
    (hl : h.load = some (field, batch)) :
    (site.view (some h) harvest).tally = { queued := some field } := by
  simp [JobView.tally, Tally.of, Queued, hs, hsite, hl]

theorem tally_inflight {h : JobHash} {harvest : Option ℚ} {field : String}
    {batch : Option BatchId} {b : BackendId} (hs : h.status ≠ some .queued)
    (hb : h.backendId = some b) (hl : h.load = some (field, batch)) :
    (Site.inflight.view (some h) harvest).tally = Tally.onBackend field b batch := by
  simp [JobView.tally, Tally.of, Queued, hs, hb, hl, Tally.onBackend]

theorem tally_idle {site : Site} {h : JobHash} {harvest : Option ℚ}
    (hs : h.status ≠ some .queued) (hsite : site ≠ .inflight) :
    (site.view (some h) harvest).tally = {} := by
  simp [JobView.tally, Tally.of, Queued, hs, hsite]

theorem tally_empty : JobView.empty.tally = {} := by
  simp [JobView.tally, Tally.of, JobView.empty, Queued]

/-- The tally looks at the status, the slot and what the submit wrote. -/
theorem tally_congr {site site' : Site} {h h' : JobHash} {harvest harvest' : Option ℚ}
    (e : h'.submit = h.submit) (hs : h'.status = h.status) (hb : h'.backendId = h.backendId)
    (hsite : site' = .inflight ↔ site = .inflight) :
    (site'.view (some h') harvest').tally = (site.view (some h) harvest).tally := by
  have hq : Queued (some h') = Queued (some h) := by simp [Queued, hs]
  have hi : (site'.view (some h') harvest').inflight = (site.view (some h) harvest).inflight :=
    propext hsite
  rw [JobView.tally, JobView.tally, hi]
  simp only [Site.hash_view, Option.bind_some, hq, hb, JobHash.load_of_submit e]

/-! ## Balance -/

/-- The batch counters cover the job that `t` counts. -/
structure Ledger.Covers (l : Ledger) (t : Tally) : Prop where
  nonneg : ∀ b batch, 0 ≤ (l.pages b).value batch
  page : ∀ b batch, t.page = some (b, batch) → 1 ≤ (l.pages b).value batch

/-- The ledger moved by what the tally of one job moved. -/
structure Balanced (l l' : Ledger) (t t' : Tally) : Prop where
  queued : ∀ f, l'.queued.value f =
    l.queued.value f + indicator (t'.queued = some f) - indicator (t.queued = some f)
  running : ∀ f, l'.running.value f =
    l.running.value f + indicator (t'.running = some f) - indicator (t.running = some f)
  slots : ∀ b, l'.slots.value b =
    l.slots.value b + indicator (t'.slot = some b) - indicator (t.slot = some b)
  pages : ∀ b batch, (l'.pages b).value batch = (l.pages b).value batch +
    indicator (t'.page = some (b, batch)) - indicator (t.page = some (b, batch))
  tight : (∀ b, (l.pages b).Tight) → ∀ b, (l'.pages b).Tight

theorem Balanced.refl (l : Ledger) (t : Tally) : Balanced l l t t where
  queued _ := by omega
  running _ := by omega
  slots _ := by omega
  pages _ _ := by omega
  tight h := h

theorem balanced_addQueued (l : Ledger) (field : String) :
    Balanced l (l.addQueued field 1) {} { queued := some field } where
  queued f := by simp [Ledger.addQueued, indicator, eq_comm]
  running f := by simp [Ledger.addQueued, indicator]
  slots b := by simp [Ledger.addQueued, indicator]
  pages b batch := by simp [Ledger.addQueued, indicator]
  tight h := h

theorem balanced_dropQueued (l : Ledger) (field : String) :
    Balanced l (l.addQueued field (-1)) { queued := some field } {} where
  queued f := by
    rw [Ledger.addQueued, Counter.value_incrBy, indicator, indicator]
    by_cases h : f = field
    · simp [h]
      omega
    · simp [h, Ne.symm h]
  running f := by simp [Ledger.addQueued, indicator]
  slots b := by simp [Ledger.addQueued, indicator]
  pages b batch := by simp [Ledger.addQueued, indicator]
  tight h := h

theorem balanced_start {l : Ledger} {field : String} {b : BackendId} {batch : Option BatchId}
    (hl : l.Covers { queued := some field }) :
    Balanced l (l.start field b batch) { queued := some field }
      (Tally.onBackend field b batch) where
  queued f := by
    rw [Ledger.start_queued, Counter.value_incrBy]
    by_cases h : f = field
    · simp [h, Tally.onBackend, indicator]
      omega
    · simp [h, Ne.symm h, Tally.onBackend, indicator]
  running f := by simp [Tally.onBackend, indicator, eq_comm]
  slots b' := by simp [Tally.onBackend, indicator, eq_comm]
  pages b' batch' := by
    cases batch with
    | none => simp [Tally.onBackend, indicator]
    | some batchId =>
      by_cases hb : b' = b
      · subst hb
        simp [Tally.onBackend, indicator, eq_comm]
      · simp [Tally.onBackend, indicator, hb, Ne.symm hb]
  tight h b' := by
    cases batch with
    | none => exact h b'
    | some batchId =>
      rw [Ledger.start_pages_some]
      by_cases hb : b' = b
      · subst hb
        rw [Function.update_self]
        have := hl.nonneg b' batchId
        exact (h b').incrBy (by omega)
      · rw [Function.update_of_ne hb]
        exact h b'

theorem balanced_finish {l : Ledger} {field : String} {b : BackendId} {batch : Option BatchId}
    (hl : l.Covers (Tally.onBackend field b batch)) :
    Balanced l (l.finish field b batch) (Tally.onBackend field b batch) {} where
  queued f := by simp [Tally.onBackend, indicator]
  running f := by
    rw [Ledger.finish_running, Counter.value_incrBy]
    by_cases h : f = field
    · simp [h, Tally.onBackend, indicator]
      omega
    · simp [h, Ne.symm h, Tally.onBackend, indicator]
  slots b' := by
    rw [Ledger.finish_slots, Counter.value_incrBy]
    by_cases h : b' = b
    · simp [h, Tally.onBackend, indicator]
      omega
    · simp [h, Ne.symm h, Tally.onBackend, indicator]
  pages b' batch' := by
    cases batch with
    | none => simp [Tally.onBackend, indicator]
    | some batchId =>
      by_cases hb : b' = b
      · subst hb
        have hpage := hl.page b' batchId rfl
        simp [Tally.onBackend, indicator, Counter.value_drop hpage, eq_comm]
      · simp [Tally.onBackend, indicator, hb, Ne.symm hb]
  tight h b' := by
    cases batch with
    | none => exact h b'
    | some batchId =>
      rw [Ledger.finish_pages_some]
      by_cases hb : b' = b
      · subst hb
        rw [Function.update_self]
        exact (h b').drop batchId
      · rw [Function.update_of_ne hb]
        exact h b'

theorem Balanced.trans {l l' l'' : Ledger} {t t' t'' : Tally} (h : Balanced l l' t t')
    (h' : Balanced l' l'' t' t'') : Balanced l l'' t t'' where
  queued f := by have := h.queued f; have := h'.queued f; omega
  running f := by have := h.running f; have := h'.running f; omega
  slots b := by have := h.slots b; have := h'.slots b; omega
  pages b batch := by have := h.pages b batch; have := h'.pages b batch; omega
  tight ht := h'.tight (h.tight ht)

/-- Every counter is the number of the jobs counted there, and no batch counter is zero. -/
structure Counted (views : JobId → JobView) (l : Ledger) : Prop where
  queued : ∀ f, Numbers (fun j => (views j).tally.queued = some f) (l.queued.value f)
  running : ∀ f, Numbers (fun j => (views j).tally.running = some f) (l.running.value f)
  slots : ∀ b, Numbers (fun j => (views j).tally.slot = some b) (l.slots.value b)
  pages : ∀ b batch,
    Numbers (fun j => (views j).tally.page = some (b, batch)) ((l.pages b).value batch)
  tight : ∀ b, (l.pages b).Tight

namespace Counted

variable {views : JobId → JobView} {l l' : Ledger}

theorem covers (h : Counted views l) (j : JobId) : l.Covers (views j).tally where
  nonneg b batch := (h.pages b batch).nonneg
  page b batch hp := (h.pages b batch).one_le hp

theorem update (h : Counted views l) {j : JobId} {v : JobView}
    (hb : Balanced l l' (views j).tally v.tally) : Counted (Function.update views j v) l' := by
  have hother : ∀ {α : Type} (part : Tally → Option α) (a : α) k, k ≠ j →
      (part (Function.update views j v k).tally = some a ↔ part (views k).tally = some a) :=
    fun part a k hk => by rw [Function.update_of_ne hk]
  refine ⟨fun f => ?_, fun f => ?_, fun b => ?_, fun b batch => ?_, hb.tight h.tight⟩
  · have hn := (h.queued f).update j (hother Tally.queued f)
    simp only [Function.update_self] at hn
    rwa [hb.queued f]
  · have hn := (h.running f).update j (hother Tally.running f)
    simp only [Function.update_self] at hn
    rwa [hb.running f]
  · have hn := (h.slots b).update j (hother Tally.slot b)
    simp only [Function.update_self] at hn
    rwa [hb.slots b]
  · have hn := (h.pages b batch).update j (hother Tally.page (b, batch))
    simp only [Function.update_self] at hn
    rwa [hb.pages b batch]

/-- A change of a job that its tally does not see. -/
theorem update_of_eq (h : Counted views l) {j : JobId} {v : JobView}
    (ht : v.tally = (views j).tally) : Counted (Function.update views j v) l :=
  h.update (ht ▸ Balanced.refl l _)

end Counted

/-! ## The calls -/

/-- What a release needs to know of the dispatch that it ends. -/
def JobState.dispatch (s : JobState) :
    (String × Finset String) × Option BatchId × Option BackendId :=
  ((s.domain, s.outputs), s.batchId, s.backendId)

/-- The regular calls, with positive backend ids, and `release_done` given a state of the
job's current dispatch. -/
def Accounted (claimGraceS : ℚ) : Condition := fun now c v call =>
  Regular claimGraceS now c v call ∧ match call with
    | .resolve (.setRunning _ _ _ backendId _) => backendId ≠ 0
    | .outcome (.releaseDone state _) => v.state.map JobState.dispatch = some state.dispatch
    | _ => True

/-- A job in flight is on a backend. -/
def JobCase.OnBackend (x : JobCase) : Prop :=
  x.2.inflight → ∃ b, b ≠ 0 ∧ (x.2.hash.bind fun h => h.backendId) = some b

variable {claimGraceS now : ℚ} {c : Option ℚ} {v : JobView}

theorem JobCase.OnBackend.move {x y : JobCase}
    (hm : Move claimGraceS (Accounted claimGraceS) now x y)
    (hok : JobCase.Ok False claimGraceS now x) (hx : x.OnBackend) : y.OnBackend := by
  cases hm with
  | expire h => exact h.1.elim
  | @enqueue c v state stateTtl h =>
    obtain ⟨⟨rfl, rfl, -⟩, -⟩ := h
    rw [Site.enqueued_empty]
    exact fun hi => by simp at hi
  | promote h =>
    obtain ⟨h, score, rfl, hr, -, -⟩ := hok.delayed h
    obtain ⟨s, hs⟩ := Option.isSome_iff_exists.mp hr
    rw [Site.promote_delayed, Option.bind_some, hs]
    exact fun hi => by simp at hi
  | claim hp _ =>
    obtain ⟨h, score, rfl, -, rfl, -, -⟩ := hok.pending hp
    rw [Site.claim_pending]
    exact fun hi => by simp at hi
  | drop h => exact hx
  | orphan ho => exact hx
  | @resolve c v r h =>
    obtain ⟨h0, rfl, -⟩ := hok.held h.1
    cases r with
    | setRunning settings engineJobId backendUrl backendId stateTtl =>
      exact fun _ => ⟨backendId, h.2, rfl⟩
    | requeueJob originalScore =>
      rw [Resolution.apply, Site.zaddPending_nowhere]
      exact fun hi => by simp at hi
    | scheduleRetry originalScore delayS avoidBackendId =>
      rw [Resolution.apply, Site.delay_nowhere]
      exact fun hi => by simp at hi
    | setFailed error stateTtl =>
      rw [Resolution.apply, Site.markFailed_view, Site.sremInflight_nowhere]
      exact fun hi => by simp at hi
  | @outcome c v o h =>
    cases o with
    | releaseDone state engineRun =>
      have hi : v.inflight := h.1
      obtain ⟨h0, rfl, -⟩ := hok.inflight hi
      rw [Outcome.apply, if_pos hi, Site.release_inflight]
      exact fun hi => by simp at hi
    | releaseAndRequeue score stateTtl delayS avoidBackendId =>
      obtain ⟨h0, rfl, -⟩ := hok.inflight h.1
      rw [Outcome.apply, JobView.backToQueued, Site.sremInflight_inflight, Site.hset_view,
        Site.cleared_view, Site.requeued_nowhere]
      split <;> exact fun hi => by simp at hi
    | scheduleNextPoll at' =>
      obtain ⟨h0, rfl, -⟩ := hok.inflight h.1
      exact hx
    | rescheduleHarvest delayS =>
      obtain ⟨h0, score, rfl, -⟩ := hok.storing h.1
      rw [Outcome.apply, Site.reharvest_view]
      exact fun hi => by simp at hi
    | setDone stateTtl state =>
      obtain ⟨h0, score, rfl, -⟩ := hok.storing h.1
      rw [Outcome.apply, Site.finishDone_view, if_neg (by simp)]
      exact fun hi => by simp at hi
    | setFailed error stateTtl => exact fun hi => hi.elim

/-- What the counters need of a job's state. -/
theorem JobHash.Readable.load {h : JobHash} (hr : h.Readable) : ∃ s, JobState.fromHash h = some s ∧
    h.load = some (jobLoadField s, s.batchId) := by
  obtain ⟨s, hs⟩ := Option.isSome_iff_exists.mp hr
  exact ⟨s, hs, by rw [JobHash.load, hs]; rfl⟩

theorem counted_resolve {r : Redis} {j : JobId} {res : Resolution}
    (hc : Counted r.view r.ledger) (hok : JobCase.Ok False claimGraceS now (c, r.view j))
    (hcall : Accounted claimGraceS now c (r.view j) (.resolve res)) :
    Counted (run (res.prog now j) r).2.view (run (res.prog now j) r).2.ledger := by
  obtain ⟨h, hv, hr, hq, -⟩ := hok.held hcall.1
  obtain ⟨s, hs, hl⟩ := hr.load
  have ht : (r.view j).tally = { queued := some (jobLoadField s) } := by
    rw [hv]
    exact tally_queued hq (by simp) hl
  have hout : j ∉ r.inflight := by
    rw [← Redis.view_inflight, hv]
    simp
  rw [views_resolution]
  cases res with
  | requeueJob originalScore =>
    rw [Resolution.prog, ledger_requeueJob]
    refine hc.update_of_eq ?_
    rw [ht, hv, Resolution.apply, Site.zaddPending_nowhere]
    exact tally_queued hq (by simp) hl
  | scheduleRetry originalScore delayS avoidBackendId =>
    rw [Resolution.prog, ledger_scheduleRetry]
    refine hc.update_of_eq ?_
    rw [ht, hv, Resolution.apply, Site.delay_nowhere]
    refine tally_queued ?_ (by simp) ((JobHash.load_of_submit (JobHash.submit_avoidingHash h
      originalScore avoidBackendId)).trans hl)
    rw [Site.status_avoidingHash]
    exact hq
  | setRunning settings engineJobId backendUrl backendId stateTtl =>
    let h' := (h.running now settings engineJobId backendUrl backendId).expiring stateTtl
    have hl' : h'.load = h.load := JobHash.load_of_submit rfl
    have hr' : h'.Readable := hr.keep rfl
    obtain ⟨s', hs', hload'⟩ := hr'.load
    have hsame : (jobLoadField s', s'.batchId) = (jobLoadField s, s.batchId) :=
      Option.some.inj (hload'.symm.trans (hl'.trans hl))
    obtain ⟨hfield, hbatch⟩ := Prod.mk.inj hsame
    have hstate : ((r.hset j (JobHash.running now settings engineJobId backendUrl
        backendId)).expire j stateTtl).state j = some s' := by
      rw [Redis.state_eq, Redis.views_expire, Redis.views_hset, Function.update_self,
        Function.update_self, hv]
      exact hs'
    rw [Resolution.prog, ledger_setRunning r j hout hstate (JobState.batchId_of_fromHash hs'),
      hfield, hbatch]
    refine hc.update ?_
    have htally : (Resolution.apply now (.setRunning settings engineJobId backendUrl backendId
        stateTtl) (r.view j)).tally =
        Tally.onBackend (jobLoadField s) backendId s.batchId := by
      rw [hv, Resolution.apply, Site.run_nowhere]
      exact tally_inflight (by simp [JobHash.running, JobHash.expiring]) rfl (hl'.trans hl)
    rw [htally, ht]
    exact balanced_start (ht ▸ hc.covers j)
  | setFailed error stateTtl =>
    have hstate : r.state j = some s := by
      rw [Redis.state_eq, hv]
      exact hs
    have hsq : s.status = .queued := by rw [JobState.status_of_fromHash hs, hq]; rfl
    rw [Resolution.prog, run_map, ledger_setFailed_gone r j hout, hstate]
    simp only [hsq, if_true]
    refine hc.update ?_
    rw [ht, hv, Resolution.apply, Site.markFailed_view, Site.sremInflight_nowhere,
      tally_idle (by simp [JobHash.clearHarvest, JobHash.expiring, JobHash.failed]) (by simp)]
    exact balanced_dropQueued _ _

/-- What is known of a job in flight. -/
structure Dispatched (r : Redis) (j : JobId) (h : JobHash) (s : JobState) (b : BackendId) :
    Prop where
  view : r.view j = Site.inflight.view (some h) none
  status : h.status = some .running
  readable : h.Readable
  load : h.load = some (jobLoadField s, s.batchId)
  state : r.state j = some s
  backend : s.backendId = some b
  positive : b ≠ 0
  tally : (r.view j).tally = Tally.onBackend (jobLoadField s) b s.batchId

theorem dispatched_of_inflight {r : Redis} {j : JobId}
    (hok : JobCase.Ok False claimGraceS now (c, r.view j))
    (hon : JobCase.OnBackend (c, r.view j)) (hi : (r.view j).inflight) :
    ∃ h s b, Dispatched r j h s b := by
  obtain ⟨h, hv, hr, -, hrun⟩ := hok.inflight hi
  have hrun : h.status = some .running := by simpa using hrun
  obtain ⟨s, hs, hl⟩ := hr.load
  obtain ⟨b, hb0, hb⟩ := hon hi
  have hb : h.backendId = some b := by simpa [hv] using hb
  refine ⟨h, s, b, hv, hrun, hr, hl, ?_, (JobState.backendId_of_fromHash hs).trans hb, hb0, ?_⟩
  · rw [Redis.state_eq, hv]
    exact hs
  · rw [hv]
    exact tally_inflight (by simp [hrun]) hb hl

theorem counted_releaseDone {r : Redis} {j : JobId} {state : JobState} {engineRun : EngineRun}
    (hc : Counted r.view r.ledger) (hok : JobCase.Ok False claimGraceS now (c, r.view j))
    (hon : JobCase.OnBackend (c, r.view j)) (hi : (r.view j).inflight)
    (hd : (r.view j).state.map JobState.dispatch = some state.dispatch) :
    Counted (run (releaseDone now j state engineRun) r).2.view
      (run (releaseDone now j state engineRun) r).2.ledger := by
  obtain ⟨h, s, b, d⟩ := dispatched_of_inflight hok hon hi
  have hstate : (r.view j).state = some s := d.state
  -- the state the caller has is of the same dispatch as the hash
  rw [hstate, Option.map_some, Option.some.injEq] at hd
  obtain ⟨hload, hslot⟩ := Prod.mk.inj hd
  obtain ⟨hbatch, hbackend⟩ := Prod.mk.inj hslot
  have hfield : jobLoadField s = jobLoadField state :=
    congrArg (fun x : String × Finset String => loadField x.1 x.2) hload
  have hb : state.backendId = some b := hbackend ▸ d.backend
  have hne : nonEmpty state.batchId = state.batchId := by
    rw [d.view, Site.state_view, Option.bind_some] at hstate
    rw [← hbatch]
    exact JobState.batchId_of_fromHash hstate
  rw [ledger_releaseDone r j hi hb hne, ← hfield, ← hbatch, views_releaseDone,
    views_releaseDone_of_inflight r j hi]
  refine hc.update ?_
  rw [d.tally, d.view, Site.release_inflight, Option.map_some,
    tally_idle (by simp [JobHash.storing]) (by simp)]
  exact balanced_finish (d.tally ▸ hc.covers j)

theorem counted_releaseAndRequeue {r : Redis} {j : JobId} {score : ℚ} {stateTtl : Nat}
    {delayS : ℚ} {avoid : Option BackendId} (hc : Counted r.view r.ledger)
    (hok : JobCase.Ok False claimGraceS now (c, r.view j))
    (hon : JobCase.OnBackend (c, r.view j)) (hi : (r.view j).inflight) :
    Counted (run (releaseAndRequeue now j score stateTtl delayS avoid) r).2.view
      (run (releaseAndRequeue now j score stateTtl delayS avoid) r).2.ledger := by
  obtain ⟨h, s, b, d⟩ := dispatched_of_inflight hok hon hi
  rw [ledger_releaseAndRequeue r j hi d.state d.backend d.positive, views_releaseAndRequeue]
  refine hc.update ?_
  have hafter : (((r.view j).backToQueued.cleared stateTtl).requeued now score delayS avoid
      (r.view j).level).tally = { queued := some (jobLoadField s) } := by
    rw [d.view, JobView.backToQueued, Site.sremInflight_inflight, Site.hset_view,
      Site.cleared_view, Site.requeued_nowhere]
    split
    · refine tally_queued ?_ (by simp) ((JobHash.load_of_submit ?_).trans d.load)
      · rw [Site.status_avoidingHash]
        rfl
      · exact JobHash.submit_avoidingHash _ _ _
    · have hload : (h.queued.clearDispatch.expiring stateTtl).load = h.load :=
        JobHash.load_of_submit rfl
      exact tally_queued rfl (by simp) (hload.trans d.load)
  rw [hafter, d.tally]
  exact (balanced_finish (d.tally ▸ hc.covers j)).trans (balanced_addQueued _ _)

theorem counted_setFailed {r : Redis} {j : JobId} {error : String} {stateTtl : Nat}
    (hc : Counted r.view r.ledger) (hok : JobCase.Ok False claimGraceS now (c, r.view j))
    (hon : JobCase.OnBackend (c, r.view j)) (hv : (r.view j).inflight ∨ (r.view j).Storing) :
    Counted (run (setFailed now j error stateTtl) r).2.view
      (run (setFailed now j error stateTtl) r).2.ledger := by
  rw [views_setFailed]
  rcases hv with hi | hst
  · obtain ⟨h, s, b, d⟩ := dispatched_of_inflight hok hon hi
    rw [ledger_setFailed r j hi d.state d.backend d.positive]
    refine hc.update ?_
    rw [d.tally, d.view, Site.markFailed_view, Site.sremInflight_inflight,
      tally_idle (by simp [JobHash.clearHarvest, JobHash.expiring, JobHash.failed]) (by simp)]
    exact balanced_finish (d.tally ▸ hc.covers j)
  · obtain ⟨h, score, hv, hr, -, hs⟩ := hok.storing hst
    have hs : h.status = some .storing := by simpa using hs
    obtain ⟨s, hfrom, -⟩ := hr.load
    have hout : j ∉ r.inflight := by
      rw [← Redis.view_inflight, hv]
      simp
    have hstate : r.state j = some s := by
      rw [Redis.state_eq, hv]
      exact hfrom
    have hnq : s.status ≠ .queued := by
      rw [JobState.status_of_fromHash hfrom, hs]
      simp
    rw [ledger_setFailed_gone r j hout, hstate]
    simp only [hnq, if_false]
    refine hc.update_of_eq ?_
    rw [hv, Site.markFailed_view, Site.sremInflight_nowhere,
      tally_idle (by simp [JobHash.clearHarvest, JobHash.expiring, JobHash.failed]) (by simp),
      tally_idle (by simp [hs]) (by simp)]

theorem counted_outcome {r : Redis} {j : JobId} {o : Outcome}
    (hc : Counted r.view r.ledger) (hok : JobCase.Ok False claimGraceS now (c, r.view j))
    (hon : JobCase.OnBackend (c, r.view j))
    (hcall : Accounted claimGraceS now c (r.view j) (.outcome o)) :
    Counted (run (o.prog now j) r).2.view (run (o.prog now j) r).2.ledger := by
  cases o with
  | releaseDone state engineRun =>
    rw [Outcome.prog, run_map]
    exact counted_releaseDone hc hok hon hcall.1 hcall.2
  | releaseAndRequeue score stateTtl delayS avoidBackendId =>
    exact counted_releaseAndRequeue hc hok hon hcall.1
  | scheduleNextPoll at' =>
    obtain ⟨h, s, b, d⟩ := dispatched_of_inflight hok hon hcall.1
    rw [Outcome.prog, views_scheduleNextPoll]
    refine hc.update_of_eq ?_
    rw [d.view, Site.hset_view]
    exact tally_congr rfl rfl rfl Iff.rfl
  | rescheduleHarvest delayS =>
    obtain ⟨h, score, hv, -, -, -⟩ := hok.storing hcall.1
    rw [Outcome.prog, views_rescheduleHarvest]
    refine hc.update_of_eq ?_
    rw [hv, Site.reharvest_view]
    exact tally_congr rfl rfl rfl Iff.rfl
  | setDone stateTtl state =>
    obtain ⟨h, score, hv, hr, -, hs⟩ := hok.storing hcall.1
    have hs : h.status = some .storing := by simpa using hs
    have hout : j ∉ r.inflight := by
      rw [← Redis.view_inflight, hv]
      simp
    rw [Outcome.prog, run_map, views_setDone, ledger_setDone_gone r j hout]
    refine hc.update_of_eq ?_
    rw [hv, Site.finishDone_view, if_neg (by simp),
      tally_idle (by simp [JobHash.clearHarvest, JobHash.expiring, JobHash.finished]) (by simp),
      tally_idle (by simp [hs]) (by simp)]
  | setFailed error stateTtl =>
    rw [Outcome.prog, run_map]
    exact counted_setFailed hc hok hon hcall.1

/-! ## Every run -/

namespace World

theorem Micro.counted {w w' : World} (hm : Micro claimGraceS (Accounted claimGraceS) w w')
    (hj : w.EachJob fun _ now x => JobCase.Ok False claimGraceS now x ∧ x.OnBackend)
    (hc : Counted w.redis.view w.redis.ledger) : Counted w'.redis.view w'.redis.ledger := by
  cases hm with
  | wait hd => exact hc
  | wake => exact hc
  | expire h => exact h.1.elim
  | @enqueue j state stateTtl h =>
    obtain ⟨⟨-, hv, hsub⟩, -⟩ := h
    obtain ⟨s, hs, hdomain, houtputs⟩ := hsub.fromHash stateTtl
    have hload : (state.toHash.expiring stateTtl).load = some (jobLoadField state, s.batchId) := by
      rw [JobHash.load, hs]
      simp [JobState.load, jobLoadField, hdomain, houtputs]
    rw [put, views_enqueue, ledger_enqueue]
    refine hc.update ?_
    rw [hv, tally_empty, Site.enqueued_empty, tally_queued ?_ (by simp) hload]
    · exact balanced_addQueued _ _
    · rw [← hsub.status]
      rfl
  | promote j =>
    rw [put, views_promoteMember, ledger_promoteMember]
    refine hc.update_of_eq ?_
    by_cases hd : (w.redis.view j).delayed = none
    · rw [JobView.promote, hd]
    · obtain ⟨h, score, hv, hr, -, -⟩ := (hj j).1.delayed hd
      obtain ⟨s, hs⟩ := Option.isSome_iff_exists.mp hr
      rw [hv, Site.promote_delayed, Option.bind_some, hs]
      exact tally_congr rfl rfl rfl (by simp)
  | claim entry =>
    dsimp only
    rw [views_claim, ledger_claim]
    refine hc.update_of_eq ?_
    by_cases hp : (w.redis.view entry.jobId).pending entry.priority = none
    · rw [JobView.claim, if_pos hp]
    · obtain ⟨h, score, hv, -, hpr, -, -⟩ := (hj entry.jobId).1.pending hp
      rw [hv, hpr, Site.claim_pending]
      exact tally_congr rfl rfl rfl (by simp)
  | @drop entry h =>
    rw [put, Redis.views_zremPending, Redis.ledger_zremPending]
    exact hc.update_of_eq rfl
  | orphan j =>
    rw [put, ledger_requeueOrphan]
    by_cases ho : ∃ h, (w.redis.view j).Orphaned w.now claimGraceS h
    · obtain ⟨h, ho⟩ := ho
      rw [views_requeueOrphan_of_orphaned _ j ho]
      exact hc.update_of_eq rfl
    · rw [requeueOrphan_of_not _ j (not_exists.mp ho)]
      exact hc
  | @resolve j r h => exact counted_resolve hc (hj j).1 h
  | @outcome j o h => exact counted_outcome hc (hj j).1 (hj j).2 h

/-- Every job fits, every job in flight is on a backend, and the counters count them. -/
structure Balance (claimGraceS : ℚ) (w : World) : Prop where
  each : w.EachJob fun _ now x => JobCase.Ok False claimGraceS now x ∧ x.OnBackend
  counted : Counted w.redis.view w.redis.ledger

theorem Balance.micro {w w' : World} (hm : Micro claimGraceS (Accounted claimGraceS) w w')
    (h : w.Balance claimGraceS) : w'.Balance claimGraceS where
  each := eachJob_micro (fun _ _ _ _ hd hx => ⟨hx.1.wait hd, hx.2⟩)
    (fun _ _ _ _ hmv hx => ⟨hx.1.move (hmv.mono fun hc => hc.1), hx.2.move hmv hx.1⟩) hm h.each
  counted := hm.counted h.each h.counted

theorem balance_initial (now : ℚ) : (initial now).Balance claimGraceS where
  each jobId := ⟨Or.inl (case_initial now jobId), fun hi => by
    rw [case_initial] at hi
    exact hi.elim⟩
  counted := by
    have ht : ∀ j, ((initial now).redis.view j).tally = {} := fun j => by
      have hv : (initial now).redis.view j = JobView.empty := congrArg Prod.snd (case_initial now j)
      rw [hv, tally_empty]
    refine ⟨fun f => ?_, fun f => ?_, fun b => ?_, fun b batch => ?_, fun b => Counter.tight_empty⟩
    all_goals exact Numbers.of_forall_not fun j => by simp [ht j]

theorem balance_run {now : ℚ} {actions : List Action}
    (h : (initial now).ObeysCalls claimGraceS (Accounted claimGraceS) actions) :
    ((initial now).run claimGraceS actions).Balance claimGraceS :=
  h.inv (fun _ _ hw ha => act_of_micro (fun _ _ hm h => h.micro hm) ha hw) (balance_initial now)

end World

/-- Every counter is the number of the jobs that it stands for. -/
structure Redis.Conserved (r : Redis) : Prop where
  queued : ∀ field, r.loadQueued.value field =
    (r.jobs.keys.filter fun j => (r.jobs.lookup j).bind (fun h => h.status) = some .queued ∧
      (r.state j).map jobLoadField = some field).card
  inflight : ∀ field, r.loadInflight.value field =
    (r.inflight.filter fun j => (r.state j).map jobLoadField = some field).card
  backend : ∀ b, r.backendInflight.value b =
    (r.inflight.filter fun j => (r.jobs.lookup j).bind (fun h => h.backendId) = some b).card
  batch : ∀ b batch, (r.backendBatches b).value batch =
    (r.inflight.filter fun j => (r.jobs.lookup j).bind (fun h => h.backendId) = some b ∧
      (r.state j).bind (fun s => s.batchId) = some batch).card
  absent : ∀ b batch, (r.backendBatches b).lookup batch = none ↔
    (r.inflight.filter fun j => (r.jobs.lookup j).bind (fun h => h.backendId) = some b ∧
      (r.state j).bind (fun s => s.batchId) = some batch).card = 0

theorem map_load_fst (r : Redis) (j : JobId) :
    ((r.view j).hash.bind JobHash.load).map Prod.fst = (r.state j).map jobLoadField := by
  rw [Redis.state_eq, JobView.state]
  cases (r.view j).hash with
  | none => rfl
  | some h => simp [JobHash.load, JobState.load, Function.comp_def]

theorem tally_queued_iff (r : Redis) (j : JobId) (field : String) :
    (r.view j).tally.queued = some field ↔
      (r.jobs.lookup j).bind (fun h => h.status) = some .queued ∧
        (r.state j).map jobLoadField = some field := by
  rw [JobView.tally, Tally.of, map_load_fst]
  exact Option.ite_none_right_eq_some

theorem tally_running_iff (r : Redis) (j : JobId) (field : String) :
    (r.view j).tally.running = some field ↔
      j ∈ r.inflight ∧ (r.state j).map jobLoadField = some field := by
  rw [JobView.tally, Tally.of, map_load_fst]
  exact Option.ite_none_right_eq_some

theorem tally_slot_iff (r : Redis) (j : JobId) (b : BackendId) :
    (r.view j).tally.slot = some b ↔
      j ∈ r.inflight ∧ (r.jobs.lookup j).bind (fun h => h.backendId) = some b := by
  rw [JobView.tally, Tally.of]
  exact Option.ite_none_right_eq_some

theorem tally_page_iff (r : Redis) (j : JobId) (b : BackendId) (batch : BatchId) :
    (r.view j).tally.page = some (b, batch) ↔
      j ∈ r.inflight ∧ (r.jobs.lookup j).bind (fun h => h.backendId) = some b ∧
        (r.state j).bind (fun s => s.batchId) = some batch := by
  have hbatch : ((r.view j).hash.bind JobHash.load).bind Prod.snd =
      (r.state j).bind fun s => s.batchId := by
    rw [Redis.state_eq, JobView.state]
    cases (r.view j).hash with
    | none => rfl
    | some h =>
      rw [Option.bind_some, Option.bind_some, JobHash.load]
      cases JobState.fromHash h <;> rfl
  rw [JobView.tally, Tally.of, hbatch]
  refine Option.ite_none_right_eq_some.trans (and_congr_right fun _ => ?_)
  rw [Redis.view_hash]
  cases (r.jobs.lookup j).bind fun h => h.backendId with
  | none => simp
  | some b' =>
    rw [Option.bind_some, Option.map_eq_some_iff]
    constructor
    · rintro ⟨batchId, hb, heq⟩
      obtain ⟨rfl, rfl⟩ := Prod.mk.inj heq
      exact ⟨rfl, hb⟩
    · rintro ⟨heq, hb⟩
      obtain rfl := Option.some.inj heq
      exact ⟨batch, hb, rfl⟩

theorem conserved_of_counted {r : Redis} (h : Counted r.view r.ledger) : r.Conserved := by
  have hbatch : ∀ b batch, (r.backendBatches b).value batch =
      (r.inflight.filter fun j => (r.jobs.lookup j).bind (fun h => h.backendId) = some b ∧
        (r.state j).bind (fun s => s.batchId) = some batch).card := fun b batch =>
    (h.pages b batch).eq_card fun j => by rw [tally_page_iff, Finset.mem_filter]
  refine ⟨fun field => ?_, fun field => ?_, fun b => ?_, hbatch, fun b batch => ?_⟩
  · refine (h.queued field).eq_card fun j => ?_
    rw [tally_queued_iff, Finset.mem_filter, Finmap.mem_keys, and_iff_right_of_imp]
    rintro ⟨hs, -⟩
    rw [← Finmap.lookup_isSome]
    cases hl : r.jobs.lookup j with
    | none => simp [hl] at hs
    | some _ => rfl
  · exact (h.running field).eq_card fun j => by rw [tally_running_iff, Finset.mem_filter]
  · exact (h.slots b).eq_card fun j => by rw [tally_slot_iff, Finset.mem_filter]
  · have htight : (r.backendBatches b).Tight := h.tight b
    rw [htight.lookup_eq_none, hbatch, Nat.cast_eq_zero]

/-! ## Calls made twice -/

/-- A call made again at once leaves the counters alone. -/
structure Redis.Idempotent (r : Redis) : Prop where
  setRunning : ∀ settings now now' j engineJobId backendUrl b stateTtl,
    let p := fun now => Taas.setRunning settings now j engineJobId backendUrl b stateTtl
    (run (p now') (run (p now) r).2).2.ledger = (run (p now) r).2.ledger
  releaseDone : ∀ now now' j state engineRun,
    let p := fun now => Taas.releaseDone now j state engineRun
    (run (p now') (run (p now) r).2).2.ledger = (run (p now) r).2.ledger
  setDone : ∀ now now' j stateTtl state,
    let p := fun now => Taas.setDone now j stateTtl state
    (run (p now') (run (p now) r).2).2.ledger = (run (p now) r).2.ledger
  setFailed : ∀ now now' j error stateTtl,
    let p := fun now => Taas.setFailed now j error stateTtl
    (run (p now') (run (p now) r).2).2.ledger = (run (p now) r).2.ledger

theorem idempotent (r : Redis) : r.Idempotent where
  setRunning settings now now' j engineJobId backendUrl b stateTtl := by
    refine ledger_setRunning_inflight _ j ?_
    rw [← Redis.view_inflight, views_setRunning, Function.update_self]
    trivial
  releaseDone now now' j state engineRun := by
    refine ledger_releaseDone_gone _ j ?_
    rw [← Redis.view_inflight, views_releaseDone]
    by_cases hi : (r.view j).inflight
    · rw [views_releaseDone_of_inflight r j hi, Function.update_self]
      exact id
    · rw [releaseDone_of_not_inflight r j hi]
      exact hi
  setDone now now' j stateTtl state := by
    refine ledger_setDone_gone _ j ?_
    rw [← Redis.view_inflight, views_setDone, Function.update_self]
    exact id
  setFailed now now' j error stateTtl := by
    have hview := congrFun (views_setFailed r j now error stateTtl) j
    rw [Function.update_self] at hview
    have hgone : j ∉ (run (Taas.setFailed now j error stateTtl) r).2.inflight := by
      rw [← Redis.view_inflight, hview]
      exact id
    refine (ledger_setFailed_gone _ j hgone).trans ?_
    cases hs : (run (Taas.setFailed now j error stateTtl) r).2.state j with
    | none => rfl
    | some s =>
      -- the first call wrote the status, so the second does not find the job queued
      rw [Redis.state_eq, hview] at hs
      have hstatus : s.status = .failed := JobState.status_of_fromHash hs
      simp [hstatus]

/-- **The counters are conserved in every state that an accounted run reaches, and a call made
twice counts once.** -/
theorem conserved_of_run {actions : List Action}
    (h : (World.initial now).ObeysCalls claimGraceS (Accounted claimGraceS) actions) :
    ((World.initial now).run claimGraceS actions).redis.Conserved ∧
      ((World.initial now).run claimGraceS actions).redis.Idempotent :=
  ⟨conserved_of_counted (World.balance_run h).counted, idempotent _⟩

def batchPage : JobState := { sampleJob with batchId := some "b" }

/-- Two pages of a batch are dispatched to one backend, and one of them is released. -/
def pagesRun : List Action :=
  [.enqueueJobs [(1, batchPage), (2, batchPage)] 3600, .claimPending [⟨1, 0, 0⟩, ⟨2, 0, 0⟩],
    .resolve 1 (.setRunning {} "e1" "http://engine" 1 3600),
    .resolve 2 (.setRunning {} "e2" "http://engine" 1 3600),
    .outcome 1 (.releaseDone { batchPage with backendId := some 1 } {})]

theorem conserved_of_run_sample : ((World.initial 0).run 60 pagesRun).redis.Conserved ∧
    ((World.initial 0).run 60 pagesRun).redis.Idempotent ∧
      (((World.initial 0).run 60 pagesRun).redis.backendBatches 1).value "b" = 1 := by
  refine and_assoc.mp ⟨conserved_of_run ⟨⟨by decide, ?_⟩, trivial, ⟨?_, by decide⟩, ⟨?_, by decide⟩,
    ⟨?_, by decide +kernel⟩, trivial⟩, by decide +kernel⟩
  · intro job hjob
    have hpage : job = (1, batchPage) ∨ job = (2, batchPage) := by simpa using hjob
    obtain rfl | rfl := hpage
    · exact ⟨⟨rfl, congrArg Prod.snd (World.case_initial 0 1), rfl, by decide, by decide,
        by decide, by decide⟩, trivial⟩
    · exact ⟨⟨rfl, congrArg Prod.snd (World.case_initial 0 2), rfl, by decide, by decide,
        by decide, by decide⟩, trivial⟩
  · exact ⟨0, by decide +kernel, by decide +kernel⟩
  · exact ⟨0, by decide +kernel, by decide +kernel⟩
  · show 1 ∈ Redis.inflight _
    decide +kernel

end Taas

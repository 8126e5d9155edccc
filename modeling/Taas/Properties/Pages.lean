import Mathlib.Algebra.BigOperators.Group.Finset.Piecewise
import Mathlib.Algebra.Order.BigOperators.Group.Finset
import Taas.Infra.Sections
import Taas.Properties.Commands
import Taas.Properties.Places

/-!
# A batch page is counted once

* `Tallied` — Redis, and by how much the calls about each page raised a batch's counters.
* `FinishCall` — a `set_done` or `set_failed`, as a section from the read of the page's hash to
  the write of its status, and the rest.
* `page_counted_once` — the counters in every run in which the sections about one page do not
  overlap.
-/

namespace Taas

open Infra Infra.Prog

/-! ## The calls -/

/-- A call that finishes a page, with the time it reads from the clock. -/
inductive FinishCall where
  | setDone (now : ℚ) (stateTtl : Nat) (state : Option JobState)
  | setFailed (now : ℚ) (error : String) (stateTtl : Nat)

namespace FinishCall

/-- The whole call. -/
def prog (jobId : JobId) : FinishCall → RedisProg Unit
  | setDone now stateTtl state => (fun _ => ()) <$> Taas.setDone now jobId stateTtl state
  | setFailed now error stateTtl => (fun _ => ()) <$> Taas.setFailed now jobId error stateTtl

/-- `set_done` after it wrote the status. -/
def afterDone (jobId : JobId) (stateTtl : Nat) (state : Option JobState) : RedisProg Unit := do
  act (Redis.expire jobId stateTtl)
  let removed ← call (fun r => decide (jobId ∈ r.inflight)) (Redis.sremInflight jobId)
  let harvestRemoved ← call (fun r => (r.pendingHarvest.lookup jobId).isSome)
    (Redis.zremHarvest jobId)
  act (Redis.hmod jobId JobHash.clearHarvest)
  settleDone removed harvestRemoved state

/-- `set_failed` after it wrote the status. -/
def afterFailed (jobId : JobId) (state : Option JobState) (harvestRemoved : Bool) :
    RedisProg Unit := do
  let removed ← call (fun r => decide (jobId ∈ r.inflight)) (Redis.sremInflight jobId)
  countFailed removed state
  when harvestRemoved signalSubmit
  releaseSlot removed state
  when (removed && (truthy (state.bind fun s => s.backendId)).isSome) signalSubmit

/-- From the read of the hash to the write of the status; the rest of the call. -/
def mark (jobId : JobId) : FinishCall → RedisProg (RedisProg Unit)
  | setDone now stateTtl state => do
    let state ← doneState jobId state
    let _ ← countBatchPage state .done
    act (Redis.hset jobId (JobHash.finished now))
    pure (afterDone jobId stateTtl state)
  | setFailed now error stateTtl => do
    let state ← getJob jobId
    let _ ← countBatchPage state .failed
    let harvestRemoved ← call (fun r => (r.pendingHarvest.lookup jobId).isSome)
      (Redis.markFailed now jobId error stateTtl)
    pure (afterFailed jobId state harvestRemoved)

/-- `set_done` and `set_failed` are these two parts, one after the other. -/
theorem prog_eq (jobId : JobId) (c : FinishCall) :
    c.prog jobId = c.mark jobId >>= fun rest => rest := by
  cases c with
  | setDone now stateTtl state =>
    simp only [prog, mark, Taas.setDone, afterDone, map_eq_pure_bind, bind_assoc, pure_bind,
      bind_pure_unit]
  | setFailed now error stateTtl =>
    simp only [prog, mark, Taas.setFailed, afterFailed, map_eq_pure_bind, bind_assoc, pure_bind,
      bind_pure_unit]

end FinishCall

/-! ## Who raised the counters -/

/-- What the hash says of a page: its status and its batch. -/
def Redis.page (r : Redis) (jobId : JobId) : Option (JobStatus × Option BatchId) :=
  (r.view jobId).state.map fun s => (s.status, s.batchId)

/-- How many pages of the batch are counted as finished. -/
def Redis.finishedPages (r : Redis) (batchId : BatchId) : Int :=
  let counts := (r.batches.lookup batchId).getD {}
  counts.done + counts.failed

/-- Redis, and by how much the calls about each page raised the counters of the batch. -/
structure Tallied where
  redis : Redis
  raised : JobId → Int := fun _ => 0

/-- The store after a command about page `jobId`. -/
def Tallied.charge (batchId : BatchId) (jobId : JobId) (r : Redis) (t : Tallied) : Tallied where
  redis := r
  raised := Function.update t.raised jobId
    (t.raised jobId + (r.finishedPages batchId - t.redis.finishedPages batchId))

abbrev Desk (ι : Type) := Sections Tallied JobId ι

section

variable {ι : Type}

/-- A program about page `jobId`. -/
def onPage {α : Type} (batchId : BatchId) (jobId : JobId) (p : RedisProg α) :
    Prog Tallied Event α :=
  zoom Tallied.redis (Tallied.charge batchId jobId) id p

/-- One call after another, by client `i`. -/
def finishPages (i : ι) (batchId : BatchId) :
    List (JobId × FinishCall) → Prog (Desk ι) (Event ⊕ JobId) Unit
  | [] => pure ()
  | (jobId, c) :: calls => do
    let rest ← fence i jobId (onPage batchId jobId (c.mark jobId))
    outside (onPage batchId jobId rest)
    finishPages i batchId calls

/-! ## The invariant -/

namespace Desk

variable {batchId : BatchId} {pages : Finset JobId} {total start d : Int} {t t' : Desk ι}
  {jobId : JobId} {i : ι}

/-- The page is not counted any more: its hash says finished, or nothing. -/
def Closed (t : Desk ι) (jobId : JobId) : Prop :=
  ∀ status batch, t.store.redis.page jobId = some (status, batch) → status.isTerminal = true

/-- Every page of `pages` raised the counters at most once, and nothing else did. -/
structure Once (batchId : BatchId) (pages : Finset JobId) (total start : Int) (t : Desk ι) :
    Prop where
  raised : ∀ jobId, t.store.raised jobId = 0 ∨ t.store.raised jobId = 1
  closed : ∀ jobId, t.inside jobId = none → t.store.raised jobId = 1 → t.Closed jobId
  waiting : ∀ jobId status, t.store.redis.page jobId = some (status, some batchId) →
    status.isTerminal = false → jobId ∈ pages
  others : ∀ jobId, jobId ∉ pages → t.store.raised jobId = 0
  counts : ∃ counts, t.store.redis.batches.lookup batchId = some counts ∧ counts.total = total ∧
    counts.done + counts.failed = start + ∑ jobId ∈ pages, t.store.raised jobId

/-- What `i` leaves to those who are inside. -/
def Polite (i : ι) (t t' : Desk ι) : Prop :=
  ∀ jobId k, t.inside jobId = some k → k ≠ i → t'.inside jobId = some k ∧
    t'.store.raised jobId = t.store.raised jobId ∧
      t'.store.redis.page jobId = t.store.redis.page jobId

/-- What a command about one page does: it may raise the counters by `d`. -/
structure Moves (batchId : BatchId) (jobId : JobId) (d : Int) (t t' : Desk ι) : Prop where
  page : ∀ k, k ≠ jobId → t'.store.redis.page k = t.store.redis.page k
  inside : ∀ k, k ≠ jobId → t'.inside k = t.inside k
  raised : t'.store.raised = Function.update t.store.raised jobId (t.store.raised jobId + d)
  counts : ∀ counts, t.store.redis.batches.lookup batchId = some counts →
    ∃ counts', t'.store.redis.batches.lookup batchId = some counts' ∧
      counts'.total = counts.total ∧
        counts'.done + counts'.failed = counts.done + counts.failed + d

theorem Once.move (h : t.Once batchId pages total start) (hm : t.Moves batchId jobId d t')
    (hd : d = 0 ∨ d = 1 ∧ t.store.raised jobId = 0 ∧ jobId ∈ pages)
    (hclosed : t'.inside jobId = none → t'.store.raised jobId = 1 → t'.Closed jobId)
    (hwaiting : ∀ status, t'.store.redis.page jobId = some (status, some batchId) →
      status.isTerminal = false → jobId ∈ pages) : t'.Once batchId pages total start where
  raised k := by
    rw [hm.raised]
    by_cases hk : k = jobId
    · subst hk
      rw [Function.update_self]
      rcases hd with rfl | ⟨rfl, hr, -⟩
      · rw [add_zero]
        exact h.raised k
      · rw [hr]
        exact Or.inr rfl
    · rw [Function.update_of_ne hk]
      exact h.raised k
  closed k hk hr := by
    by_cases hkj : k = jobId
    · subst hkj
      exact hclosed hk hr
    · rw [hm.inside k hkj] at hk
      rw [hm.raised, Function.update_of_ne hkj] at hr
      unfold Closed
      rw [hm.page k hkj]
      exact h.closed k hk hr
  waiting k status hp hs := by
    by_cases hkj : k = jobId
    · subst hkj
      exact hwaiting status hp hs
    · rw [hm.page k hkj] at hp
      exact h.waiting k status hp hs
  others k hk := by
    rw [hm.raised]
    by_cases hkj : k = jobId
    · subst hkj
      rw [Function.update_self, h.others k hk]
      rcases hd with rfl | ⟨-, -, hmem⟩
      · rfl
      · exact absurd hmem hk
    · rw [Function.update_of_ne hkj]
      exact h.others k hk
  counts := by
    obtain ⟨counts, hl, ht, hsum⟩ := h.counts
    obtain ⟨counts', hl', ht', hsum'⟩ := hm.counts counts hl
    refine ⟨counts', hl', ht'.trans ht, ?_⟩
    rw [hsum', hsum, hm.raised]
    by_cases hmem : jobId ∈ pages
    · rw [Finset.sum_update_of_mem hmem, ← Finset.add_sum_erase pages _ hmem,
        Finset.sdiff_singleton_eq_erase]
      omega
    · rw [Finset.sum_update_of_notMem hmem]
      rcases hd with rfl | ⟨-, -, hmem'⟩
      · omega
      · exact absurd hmem' hmem

/-- A command about a page that nobody else is inside of is polite. -/
theorem Moves.polite (hm : t.Moves batchId jobId d t')
    (hi : ∀ k, t.inside jobId = some k → k = i) : t.Polite i t' := by
  intro k c hk hc
  have hkj : k ≠ jobId := by
    rintro rfl
    exact hc (hi c hk)
  refine ⟨(hm.inside k hkj).trans hk, ?_, hm.page k hkj⟩
  rw [hm.raised, Function.update_of_ne hkj]

/-- A command that changes nothing of what the invariant looks at. -/
structure Same (t t' : Desk ι) : Prop where
  page : t'.store.redis.page = t.store.redis.page
  inside : t'.inside = t.inside
  raised : t'.store.raised = t.store.raised
  batches : t'.store.redis.batches = t.store.redis.batches

theorem Same.closed (hs : t.Same t') : t'.Closed jobId ↔ t.Closed jobId := by
  unfold Closed
  rw [hs.page]

theorem Once.same (h : t.Once batchId pages total start) (hs : t.Same t') :
    t'.Once batchId pages total start where
  raised := hs.raised ▸ h.raised
  closed k hk hr := hs.closed.mpr (h.closed k (hs.inside ▸ hk) (hs.raised ▸ hr))
  waiting k status hp := h.waiting k status (hs.page ▸ hp)
  others := hs.raised ▸ h.others
  counts := by
    rw [hs.batches, hs.raised]
    exact h.counts

theorem Same.polite (hs : t.Same t') : t.Polite i t' := by
  intro jobId k hk _
  rw [hs.inside, hs.raised, hs.page]
  exact ⟨hk, rfl, rfl⟩

end Desk

end

/-! ## What the commands do to the pages -/

theorem JobHash.page_of_submit {h h' : JobHash} (e : h'.submit = h.submit) :
    (JobState.fromHash h').map (fun s => (s.status, s.batchId)) =
      (JobState.fromHash h).map fun s => (h'.status.getD .queued, s.batchId) := by
  have hu : h'.username = h.username := congrArg Submit.username e
  have hf : h'.fmt = h.fmt := congrArg Submit.fmt e
  have ho : h'.outputs = h.outputs := congrArg Submit.outputs e
  have hs : h'.submittedAt = h.submittedAt := congrArg Submit.submittedAt e
  have hb : h'.batchId = h.batchId := congrArg Submit.batchId e
  have hout : JobState.hashOutputs h' = JobState.hashOutputs h := by
    rw [JobState.hashOutputs, JobState.hashOutputs, ho, hf]
  unfold JobState.fromHash
  rw [hu, hf, hs, hout]
  cases nonEmpty h.username <;> cases nonEmpty h.fmt <;> cases JobState.hashOutputs h <;>
    cases h.submittedAt <;> simp [hb]

/-- A command that changes no page and no batch. -/
def PageKept (effect : Redis → Redis) (_ : Redis → List Event) : Prop :=
  ∀ r, (effect r).page = r.page ∧ (effect r).batches = r.batches

theorem pageKept_of_jobs {effect : Redis → Redis} {log : Redis → List Event}
    (hj : ∀ r, (effect r).jobs = r.jobs) (hb : ∀ r, (effect r).batches = r.batches) :
    PageKept effect log := by
  refine fun r => ⟨funext fun k => ?_, hb r⟩
  show (((effect r).jobs.lookup k).bind JobState.fromHash).map _ =
    ((r.jobs.lookup k).bind JobState.fromHash).map _
  rw [hj r]

@[simp] theorem Redis.batches_hmod (r : Redis) (j : JobId) (f : JobHash → JobHash) :
    (r.hmod j f).batches = r.batches := by
  unfold Redis.hmod
  split <;> rfl

theorem pageKept_hmod (j : JobId) {f : JobHash → JobHash} {log : Redis → List Event}
    (hf : ∀ h, (f h).submit = h.submit) (hs : ∀ h, (f h).status = h.status) :
    PageKept (Redis.hmod j f) log := by
  refine fun r => ⟨funext fun k => ?_, r.batches_hmod j f⟩
  unfold Redis.page
  rw [Redis.views_hmod]
  by_cases hk : k = j
  · subst hk
    rw [Function.update_self]
    show ((((r.view k).hash.map f).bind JobState.fromHash).map _) = _
    cases hh : (r.view k).hash with
    | none => simp [JobView.state, hh]
    | some h =>
      simp only [JobView.state, hh, Option.map_some, Option.bind_some]
      rw [JobHash.page_of_submit (hf h), hs h]
      have hstatus : ∀ s, JobState.fromHash h = some s → s.status = h.status.getD .queued :=
        fun s => JobState.status_of_fromHash
      cases hh' : JobState.fromHash h with
      | none => rfl
      | some s => rw [Option.map_some, Option.map_some, hstatus s hh']
  · rw [Function.update_of_ne hk]

theorem pageKept_counters : OfCounters PageKept where
  loadQueued _ _ := pageKept_of_jobs (fun _ => rfl) fun _ => rfl
  loadInflight _ _ := pageKept_of_jobs (fun _ => rfl) fun _ => rfl
  loads _ := pageKept_of_jobs (fun _ => rfl) fun _ => rfl
  backend _ _ := pageKept_of_jobs (fun _ => rfl) fun _ => rfl
  batchPages _ _ _ := pageKept_of_jobs (fun _ => rfl) fun _ => rfl
  dropBatch _ _ := pageKept_of_jobs (fun _ => rfl) fun _ => rfl
  wakeSubmit := pageKept_of_jobs (fun _ => rfl) fun _ => rfl

namespace FinishCall

theorem pageKept_afterDone (jobId : JobId) (stateTtl : Nat) (state : Option JobState) :
    Each PageKept (afterDone jobId stateTtl state) := by
  refine Each.bind (each_call (pageKept_hmod jobId (fun _ => rfl) fun _ => rfl)) fun _ => ?_
  refine Each.bind (each_call (pageKept_of_jobs (fun _ => rfl) fun _ => rfl)) fun removed => ?_
  refine Each.bind (each_call (pageKept_of_jobs (fun _ => rfl) fun _ => rfl)) fun harvested => ?_
  refine Each.bind (each_call (pageKept_hmod jobId (fun _ => rfl) fun _ => rfl)) fun _ => ?_
  exact pageKept_counters.settleDone _ _ _

theorem pageKept_afterFailed (jobId : JobId) (state : Option JobState) (harvestRemoved : Bool) :
    Each PageKept (afterFailed jobId state harvestRemoved) := by
  refine Each.bind (each_call (pageKept_of_jobs (fun _ => rfl) fun _ => rfl)) fun removed => ?_
  exact (pageKept_counters.countFailed _ _).bind fun _ =>
    pageKept_counters.signalSubmit.when.bind fun _ =>
      (pageKept_counters.releaseSlot _ _).bind fun _ => pageKept_counters.signalSubmit.when

end FinishCall

/-- A command that writes a finished status into the hash of the page. -/
structure Finishes (jobId : JobId) (effect : Redis → Redis) : Prop where
  others : ∀ r k, k ≠ jobId → (effect r).page k = r.page k
  batches : ∀ r, (effect r).batches = r.batches
  closed : ∀ r status batch, (effect r).page jobId = some (status, batch) →
    status.isTerminal = true

theorem Finishes.then {jobId : JobId} {effect next : Redis → Redis} (h : Finishes jobId effect)
    {log : Redis → List Event} (hn : PageKept next log) :
    Finishes jobId fun r => next (effect r) where
  others r k hk := (congrFun (hn (effect r)).1 k).trans (h.others r k hk)
  batches r := (hn (effect r)).2.trans (h.batches r)
  closed r status batch hp := by
    rw [(hn (effect r)).1] at hp
    exact h.closed r status batch hp

theorem finishes_hset {jobId : JobId} {f : JobHash → JobHash} {status : JobStatus}
    (hs : ∀ h, (f h).status = some status) (ht : status.isTerminal = true) :
    Finishes jobId (Redis.hset jobId f) where
  others r k hk := by
    unfold Redis.page
    rw [Redis.views_hset, Function.update_of_ne hk]
  batches _ := rfl
  closed r status' batch hp := by
    unfold Redis.page at hp
    rw [Redis.views_hset, Function.update_self] at hp
    obtain ⟨s, hstate, hpair⟩ := Option.map_eq_some_iff.mp hp
    have hfrom : JobState.fromHash (f ((r.view jobId).hash.getD {})) = some s := hstate
    rw [← (Prod.mk.inj hpair).1, JobState.status_of_fromHash hfrom, hs]
    exact ht

theorem finishes_finished (jobId : JobId) (now : ℚ) :
    Finishes jobId (Redis.hset jobId (JobHash.finished now)) :=
  finishes_hset (fun _ => rfl) rfl

theorem finishes_markFailed (jobId : JobId) (now : ℚ) (error : String) (stateTtl : Nat) :
    Finishes jobId (Redis.markFailed now jobId error stateTtl) := by
  have hset : Finishes jobId (Redis.hset jobId (JobHash.failed now error)) :=
    finishes_hset (fun _ => rfl) rfl
  have hkept : ∀ effect : Redis → Redis, (∀ r, (effect r).jobs = r.jobs) →
      (∀ r, (effect r).batches = r.batches) → PageKept effect fun _ => [] :=
    fun _ hj hb => pageKept_of_jobs hj hb
  have hmod : ∀ f : JobHash → JobHash, (∀ h, (f h).submit = h.submit) →
      (∀ h, (f h).status = h.status) → PageKept (Redis.hmod jobId f) fun _ => [] :=
    fun _ hf hs => pageKept_hmod jobId hf hs
  have hexpire := hset.then (hmod (JobHash.expiring stateTtl) (fun _ => rfl) fun _ => rfl)
  have hzrem := hexpire.then (hkept (Redis.zremHarvest jobId) (fun _ => rfl) fun _ => rfl)
  exact hzrem.then (hmod JobHash.clearHarvest (fun _ => rfl) fun _ => rfl)

/-! ## What each call does -/

section

variable {ι : Type} {batchId : BatchId} {pages : Finset JobId} {total start : Int} {i : ι}
  {jobId : JobId}

/-- Pages are counted once, and nobody disturbs those who are inside. -/
def turns (batchId : BatchId) (pages : Finset JobId) (total start : Int) :
    Contract (Desk ι) (Event ⊕ JobId) ι where
  inv t _ := t.Once batchId pages total start
  guar i t _ t' _ := t.Polite i t'

/-- `i` is inside. -/
def Desk.Inside (i : ι) (jobId : JobId) (t : Desk ι) : Prop := t.inside jobId = some i

/-- `i` is inside and knows what the hash says of the page. -/
structure Desk.Knows (i : ι) (jobId : JobId) (page : Option (JobStatus × Option BatchId))
    (t : Desk ι) : Prop where
  inside : t.Inside i jobId
  page : t.store.redis.page jobId = page
  closed : t.store.raised jobId = 1 → t.Closed jobId

theorem stable_inside :
    (turns batchId pages total start).Stable i fun t _ => t.Inside i jobId := by
  intro k hk t _ t' _ _ _ hg ht
  exact (hg jobId i ht (Ne.symm hk)).1

theorem stable_knows {page : Option (JobStatus × Option BatchId)} :
    (turns batchId pages total start).Stable i fun t _ => t.Knows i jobId page := by
  intro k hk t _ t' _ _ _ hg ht
  obtain ⟨hin, hraised, hpage⟩ := hg jobId i ht.inside (Ne.symm hk)
  refine ⟨hin, hpage.trans ht.page, fun hr => ?_⟩
  unfold Desk.Closed
  rw [hpage]
  exact ht.closed (hraised ▸ hr)

/-- `p`, executed by `i` as long as sections do not overlap. -/
abbrev TakesTurns {α : Type} (batchId : BatchId) (pages : Finset JobId) (total start : Int)
    (i : ι) (p : Prog (Desk ι) (Event ⊕ JobId) α) (P : Desk ι → Prop) (Q : α → Desk ι → Prop) :
    Prop :=
  Contract.Triple Sections.apart (turns batchId pages total start) i p (fun t _ => P t)
    fun a t _ => Q a t

/-- What the calls do once the status is written. -/
theorem turns_after {α : Type} {p : RedisProg α} (h : Each PageKept p) :
    TakesTurns batchId pages total start i (outside (onPage batchId jobId p)) (fun _ => True)
      fun _ _ => True := by
  have hsame : Each (fun (effect : Desk ι → Desk ι) _ => ∀ t : Desk ι, t.Same (effect t))
      (outside (onPage batchId jobId p) : Prog (Desk ι) (Event ⊕ JobId) α) := by
    refine Each.zoom (C := fun effect _ => ∀ s : Tallied, (effect s).redis.page = s.redis.page ∧
      (effect s).redis.batches = s.redis.batches ∧ (effect s).raised = s.raised) ?_
        (h.zoom fun effect log hc s => ?_)
    · intro effect log hc t
      exact ⟨(hc t.store).1, rfl, (hc t.store).2.2, (hc t.store).2.1⟩
    · refine ⟨(hc s.redis).1, (hc s.redis).2, ?_⟩
      show Function.update s.raised jobId (s.raised jobId + _) = s.raised
      rw [Redis.finishedPages, Redis.finishedPages, (hc s.redis).2, sub_self, add_zero,
        Function.update_eq_self]
  refine Contract.triple_of_each Contract.stable_true (fun effect log hc t es hi _ _ => ?_) hsame
  exact ⟨hi.same (hc t), (hc t).polite, trivial⟩

theorem Desk.moves_charge {t t' : Desk ι} {r : Redis} {d : Int}
    (hstore : t'.store = t.store.charge batchId jobId r)
    (hinside : ∀ k, k ≠ jobId → t'.inside k = t.inside k)
    (hpage : ∀ k, k ≠ jobId → r.page k = t.store.redis.page k)
    (hcounts : ∀ counts, t.store.redis.batches.lookup batchId = some counts →
      ∃ counts', r.batches.lookup batchId = some counts' ∧ counts'.total = counts.total ∧
        counts'.done + counts'.failed = counts.done + counts.failed + d)
    (h : t.Once batchId pages total start) : t.Moves batchId jobId d t' := by
  obtain ⟨counts, hl, -, -⟩ := h.counts
  obtain ⟨counts', hl', -, hsum⟩ := hcounts counts hl
  have hd : r.finishedPages batchId - t.store.redis.finishedPages batchId = d := by
    rw [Redis.finishedPages, Redis.finishedPages, hl, hl', Option.getD_some, Option.getD_some]
    omega
  refine ⟨fun k hk => ?_, hinside, ?_, ?_⟩
  · rw [hstore]
    exact hpage k hk
  · rw [hstore, Tallied.charge, hd]
  · rw [hstore]
    exact hcounts

/-- Writing the status of a page that nobody else is inside of. -/
theorem Desk.Once.finish {t u : Desk ι} {effect : Redis → Redis}
    (h : t.Once batchId pages total start) (he : Finishes jobId effect)
    (hi : ∀ k, t.inside jobId = some k → k = i)
    (hstore : u.store = t.store.charge batchId jobId (effect t.store.redis))
    (hinside : ∀ k, k ≠ jobId → u.inside k = t.inside k) :
    u.Once batchId pages total start ∧ t.Polite i u := by
  have hmove : t.Moves batchId jobId 0 u := by
    refine moves_charge hstore hinside (fun k hk => he.others _ k hk)
      (fun counts hl => ⟨counts, ?_, rfl, by omega⟩) h
    rw [he.batches]
    exact hl
  have hclosed : u.Closed jobId := by
    unfold Closed
    rw [hstore]
    exact he.closed t.store.redis
  refine ⟨h.move hmove (Or.inl rfl) (fun _ _ => hclosed) (fun status hp hs => ?_),
    hmove.polite hi⟩
  rw [hclosed status _ hp] at hs
  cases hs

section

variable {β : Type} {reply : Redis → β} {effect : Redis → Redis} {f : β → RedisProg Unit}

/-- The status is written, and the page is left. -/
theorem turns_write (he : Finishes jobId effect) (hf : ∀ b, Each PageKept (f b)) :
    TakesTurns batchId pages total start i (fenced jobId (onPage batchId jobId do
      let b ← call reply effect
      pure (f b))) (Desk.Inside i jobId) fun rest _ => Each PageKept rest := by
  intro (t : Desk ι) es hi hin _ _
  obtain ⟨honce, hpolite⟩ := hi.finish (u := (t.put (t.store.charge batchId jobId
    (effect t.store.redis))).leave jobId) he (fun k hk => Option.some.inj (hk.symm.trans hin)) rfl
    fun k hk => Function.update_of_ne hk ..
  exact ⟨honce, hpolite, fun _ _ => True, trivial, Contract.stable_true, fun _ _ _ _ => hf _⟩

/-- The status is written by a call that need not read the hash. -/
theorem turns_fence_write (he : Finishes jobId effect) (hf : ∀ b, Each PageKept (f b)) :
    TakesTurns batchId pages total start i (fence i jobId (onPage batchId jobId do
      let b ← call reply effect
      pure (f b))) (fun _ => True) fun rest _ => Each PageKept rest := by
  intro (t : Desk ι) es hi _ _ ha
  have hnone : t.inside jobId = none := ha jobId (List.mem_cons_self ..)
  obtain ⟨honce, hpolite⟩ := hi.finish (i := i) (u := ((t.enter i jobId).put
    (t.store.charge batchId jobId (effect t.store.redis))).leave jobId) he
    (fun k hk => by rw [hnone] at hk; cases hk) rfl fun k hk => by
      simp [Function.update_of_ne hk]
  exact ⟨honce, hpolite, fun _ _ => True, trivial, Contract.stable_true, fun _ _ _ _ => hf _⟩

theorem BatchCounts.count_terminal {status : JobStatus} (h : status.isTerminal = true)
    (counts : BatchCounts) : (counts.count status).total = counts.total ∧
      (counts.count status).done + (counts.count status).failed =
        counts.done + counts.failed + 1 := by
  cases status with
  | done => exact ⟨rfl, by show counts.done + 1 + counts.failed = _; omega⟩
  | failed => exact ⟨rfl, by show counts.done + (counts.failed + 1) = _; omega⟩
  | queued | running | storing => cases h

/-- What `_count_batch_page` does: nothing, or it counts a page that is not finished. -/
theorem countBatchPage_cases (state : Option JobState) (status : JobStatus) :
    countBatchPage state status = pure none ∨
      ∃ s b, state = some s ∧ s.batchId = some b ∧ s.status.isTerminal = false ∧
        countBatchPage state status = call (fun r => some (b, r.countedBatch b status))
          fun r => r.hsetBatch b (r.countedBatch b status) := by
  unfold countBatchPage
  cases state with
  | none => exact Or.inl rfl
  | some s =>
    cases hb : s.batchId with
    | none => exact Or.inl (by simp only [hb])
    | some b =>
      by_cases ht : s.status.isTerminal = true
      · exact Or.inl (by simp only [hb, ht, if_true])
      · refine Or.inr ⟨s, b, rfl, hb, Bool.eq_false_iff.mpr ht, ?_⟩
        simp only [hb, ht]
        rfl

/-- A page is counted by whoever knows that it is not finished, and its status is written. -/
theorem turns_count {state : Option JobState} {status : JobStatus} (ht : status.isTerminal = true)
    (he : Finishes jobId effect) (hf : ∀ b, Each PageKept (f b)) :
    TakesTurns batchId pages total start i (fenced jobId (onPage batchId jobId do
      let _ ← countBatchPage state status
      let b ← call reply effect
      pure (f b))) (Desk.Knows i jobId (state.map fun s => (s.status, s.batchId)))
      fun rest _ => Each PageKept rest := by
  have hwrite : TakesTurns batchId pages total start i (fenced jobId (onPage batchId jobId do
      let b ← call reply effect
      pure (f b))) (Desk.Inside i jobId) fun rest _ => Each PageKept rest := turns_write he hf
  have hskip : TakesTurns batchId pages total start i (fenced jobId (onPage batchId jobId do
      let b ← call reply effect
      pure (f b))) (Desk.Knows i jobId (state.map fun s => (s.status, s.batchId)))
      fun rest _ => Each PageKept rest := hwrite.imp (fun _ _ _ h => h.inside) fun _ _ _ h => h
  rcases countBatchPage_cases state status with hnone | ⟨s, b, rfl, hb, hopen, hcount⟩
  · rw [hnone]
    exact hskip
  rw [hcount]
  intro (t : Desk ι) es hi hk _ _
  have hpage : t.store.redis.page jobId = some (s.status, some b) := by
    rw [hk.page, ← hb]
    rfl
  -- it was not counted before, or its hash would say so
  have hraised : t.store.raised jobId = 0 := by
    refine (hi.raised jobId).resolve_right fun hr => ?_
    rw [hk.closed hr _ _ hpage] at hopen
    cases hopen
  let t' : Desk ι := t.put (t.store.charge batchId jobId
    (t.store.redis.hsetBatch b (t.store.redis.countedBatch b status)))
  have hmove : t.Moves batchId jobId (if b = batchId then 1 else 0) t' := by
    refine Desk.moves_charge rfl (fun _ _ => rfl) (fun _ _ => rfl) (fun counts hl => ?_) hi
    by_cases hbatch : b = batchId
    · subst hbatch
      obtain ⟨htotal, hsum⟩ := BatchCounts.count_terminal ht counts
      refine ⟨counts.count status, ?_, htotal, by rw [if_pos rfl]; exact hsum⟩
      rw [Redis.countedBatch, hl]
      exact Finmap.lookup_insert _
    · refine ⟨counts, ?_, rfl, by rw [if_neg hbatch, add_zero]⟩
      exact (Finmap.lookup_insert_of_ne _ (Ne.symm hbatch)).trans hl
  refine ⟨hi.move hmove ?_ (fun hin _ => ?_) (fun status hp hs => hi.waiting jobId status hp hs),
    hmove.polite fun k hk' => Option.some.inj (hk'.symm.trans hk.inside),
    fun t _ => Desk.Inside i jobId t, hk.inside, stable_inside, hwrite⟩
  · split
    · next hbatch =>
      refine Or.inr ⟨rfl, hraised, hi.waiting jobId s.status ?_ hopen⟩
      rw [hpage, hbatch]
    · exact Or.inl rfl
  · exact absurd (hin.symm.trans hk.inside) (by simp)

/-- The hash is read by a client that nobody is inside with. -/
theorem turns_read {rest : Option JobState → RedisProg (RedisProg Unit)}
    (h : ∀ state, TakesTurns batchId pages total start i (fenced jobId (onPage batchId jobId
      (rest state))) (Desk.Knows i jobId (state.map fun s => (s.status, s.batchId)))
        fun p _ => Each PageKept p)
    (hstays : ∀ state (t : Desk ι), leaving jobId (onPage batchId jobId (rest state)) t = t) :
    TakesTurns batchId pages total start i (fence i jobId (onPage batchId jobId do
      let state ← getJob jobId
      rest state)) (fun _ => True) fun p _ => Each PageKept p := by
  intro (t : Desk ι) es hi _ _ ha
  have hnone : t.inside jobId = none := ha jobId (List.mem_cons_self ..)
  let state : Option JobState := t.store.redis.state jobId
  let page := state.map fun s => (s.status, s.batchId)
  let t' : Desk ι := (t.enter i jobId).put (t.store.charge batchId jobId t.store.redis)
  have hmove : t.Moves batchId jobId 0 t' :=
    Desk.moves_charge rfl (fun k hk => Function.update_of_ne hk ..) (fun _ _ => rfl)
      (fun counts hl => ⟨counts, hl, rfl, by omega⟩) hi
  have hin : t'.inside jobId = some i := Function.update_self ..
  have honce : t'.Once batchId pages total start := by
    refine hi.move hmove (Or.inl rfl) (fun hn _ => ?_) fun status hp hs =>
      hi.waiting jobId status hp hs
    rw [hin] at hn
    cases hn
  have hraised : t'.store.raised jobId = t.store.raised jobId := by
    rw [hmove.raised, Function.update_self, add_zero]
  have hknows : t'.Knows i jobId page :=
    ⟨hin, rfl, fun hr => hi.closed jobId hnone (hraised ▸ hr)⟩
  have hnext : leaving jobId (onPage batchId jobId (rest state)) t' = t' := hstays state t'
  refine ⟨?_, ?_, fun t _ => Desk.Knows i jobId page t, ?_, stable_knows, h state⟩
  · show Desk.Once batchId pages total start
      (leaving jobId (onPage batchId jobId (rest state)) t')
    rw [hnext]
    exact honce
  · show Desk.Polite i t (leaving jobId (onPage batchId jobId (rest state)) t')
    rw [hnext]
    exact hmove.polite fun k hk => by rw [hnone] at hk; cases hk
  · show Desk.Knows i jobId _ (leaving jobId (onPage batchId jobId (rest state)) t')
    rw [hnext]
    exact hknows

theorem leaving_count (state : Option JobState) (status : JobStatus) (t : Desk ι) :
    leaving jobId (onPage batchId jobId do
      let _ ← countBatchPage state status
      let b ← call reply effect
      pure (f b)) t = t := by
  rcases countBatchPage_cases state status with hnone | ⟨s, b, -, -, -, hcount⟩
  · rw [hnone]
    rfl
  · rw [hcount]
    rfl

end

/-- The section of each call keeps the invariant. -/
theorem FinishCall.turns (c : FinishCall) :
    TakesTurns batchId pages total start i (fence i jobId (onPage batchId jobId (c.mark jobId)))
      (fun _ => True) fun rest _ => Each PageKept rest := by
  cases c with
  | setFailed now error stateTtl =>
    have hfinish := finishes_markFailed jobId now error stateTtl
    exact turns_read (fun st => turns_count rfl hfinish fun _ => pageKept_afterFailed _ _ _)
      fun st t => leaving_count st _ t
  | setDone now stateTtl state =>
    have hfinish := finishes_finished jobId now
    simp only [FinishCall.mark]
    by_cases hread : (state.all fun s => s.batchId.isSome) = true
    · have hstate : doneState jobId state = getJob jobId := if_pos hread
      rw [hstate]
      exact turns_read (fun st => turns_count rfl hfinish fun _ => pageKept_afterDone _ _ _)
        fun st t => leaving_count st _ t
    · -- a page without a batch is not read, and not counted
      have hstate : doneState jobId state = pure state := if_neg hread
      rw [hstate, pure_bind]
      rcases countBatchPage_cases state .done with hnone | ⟨s, b, rfl, hb, -⟩
      · rw [hnone, pure_bind]
        exact turns_fence_write hfinish fun _ => pageKept_afterDone _ _ _
      · simp [hb] at hread

theorem turns_finishPages (calls : List (JobId × FinishCall)) :
    TakesTurns batchId pages total start i (finishPages i batchId calls) (fun _ => True)
      fun _ _ => True := by
  induction calls with
  | nil => exact Contract.triple_pure fun _ _ _ h => h
  | cons call calls ih =>
    exact (call.2.turns).bind fun rest =>
      (Contract.triple_of_prop turns_after).bind fun _ => ih

/-! ## Any interleaving -/

/-- The batch's counters were just started over `pages`; those in `finished` are over. -/
structure Desk.Started (batchId : BatchId) (pages finished : Finset JobId) (t : Desk ι) :
    Prop where
  counts : ∃ counts, t.store.redis.batches.lookup batchId = some counts ∧
    counts.total = pages.card ∧ counts.done + counts.failed = finished.card
  subset : finished ⊆ pages
  covers : ∀ jobId status, t.store.redis.page jobId = some (status, some batchId) →
    jobId ∈ pages ∧ (status.isTerminal = false → jobId ∉ finished)
  inside : ∀ jobId, t.inside jobId = none
  raised : ∀ jobId, t.store.raised jobId = 0

variable {finished : Finset JobId}

theorem Desk.Started.once {t : Desk ι} (h : t.Started batchId pages finished) :
    t.Once batchId (pages \ finished) pages.card finished.card where
  raised jobId := Or.inl (h.raised jobId)
  closed jobId _ hr := by
    rw [h.raised jobId] at hr
    cases hr
  waiting jobId status hp hs := by
    obtain ⟨hmem, hopen⟩ := h.covers jobId status hp
    exact Finset.mem_sdiff.mpr ⟨hmem, hopen hs⟩
  others jobId _ := h.raised jobId
  counts := by
    obtain ⟨counts, hl, ht, hsum⟩ := h.counts
    refine ⟨counts, hl, ht, ?_⟩
    rw [hsum, Finset.sum_eq_zero fun jobId _ => h.raised jobId, add_zero]

theorem Desk.Once.raised_le {t : Desk ι} (h : t.Once batchId pages total start) (jobId : JobId) :
    t.store.raised jobId ≤ 1 := by
  rcases h.raised jobId with hr | hr <;> omega

variable [DecidableEq ι] {p q : Pool (Desk ι) (Event ⊕ JobId) ι}

/-- **As long as no two calls about a page are between its hash's read and its status write,
each page raises the counters of its batch once at most, and the finished pages are never more
than the pages.** -/
theorem page_counted_once
    (hprocs : ∀ i c, p.procs i = some c → ∃ calls, c = finishPages i batchId calls)
    (hstart : Desk.Started batchId pages finished p.shared) (hr : Pool.Run Sections.apart p q) :
    (∀ jobId, q.shared.store.raised jobId ≤ 1) ∧
      ∃ counts, q.shared.store.redis.batches.lookup batchId = some counts ∧
        counts.total = pages.card ∧ counts.done + counts.failed ≤ counts.total := by
  have hsound : Pool.Sound Sections.apart
      (turns batchId (pages \ finished) pages.card finished.card) (fun _ _ _ => True) p := by
    refine ⟨hstart.once, fun i c hi => ?_⟩
    obtain ⟨calls, rfl⟩ := hprocs i c hi
    exact ⟨fun _ _ => True, trivial, Contract.stable_true, turns_finishPages calls⟩
  have hclean : Pool.CleanOk Sections.apart
      (turns (ι := ι) batchId (pages \ finished) pages.card finished.card) :=
    fun i t es hi => ⟨hi, fun _ _ hk _ => ⟨hk, rfl, rfl⟩⟩
  have hinv : q.shared.Once batchId (pages \ finished) pages.card finished.card :=
    (hsound.run hclean hr).inv
  refine ⟨hinv.raised_le, ?_⟩
  obtain ⟨counts, hl, htotal, hsum⟩ := hinv.counts
  refine ⟨counts, hl, htotal, ?_⟩
  have hle : ∑ jobId ∈ pages \ finished, q.shared.store.raised jobId ≤ (pages \ finished).card := by
    have := Finset.sum_le_card_nsmul (pages \ finished) q.shared.store.raised 1
      fun jobId _ => hinv.raised_le jobId
    simpa using this
  have hcard := Finset.card_sdiff_add_card_eq_card hstart.subset
  rw [hsum, htotal]
  omega

end

/-! ## A page that is counted twice -/

/-- Page 1 of a batch of one page waits for its harvest; a poller (`true`) has its results, and
the reaper (`false`) finds it stale. -/
def samplePages : Pool (Desk Bool) (Event ⊕ JobId) Bool where
  shared :=
    { store :=
        { redis :=
            { jobs := Finmap.singleton 1
                { sampleJob with status := .storing, batchId := some "b" }.toHash
              batches := Finmap.singleton "b" { total := 1 } } } }
  procs
    | true => some (finishPages true "b" [(1, .setDone 100 3600 none)])
    | false => some (finishPages false "b" [(1, .setFailed 100 "timed out" 3600)])
  history := []

theorem samplePages_started : Desk.Started "b" {1} ∅ samplePages.shared where
  counts := ⟨{ total := 1 }, Finmap.lookup_singleton_eq .., rfl, rfl⟩
  subset := Finset.empty_subset _
  covers jobId status hp := by
    refine ⟨?_, fun _ => Finset.notMem_empty _⟩
    by_contra hne
    rw [Finset.mem_singleton] at hne
    have hnone : samplePages.shared.store.redis.jobs.lookup jobId = none :=
      Finmap.lookup_eq_none.mpr (by simpa [samplePages] using hne)
    rw [Redis.page, JobView.state, Redis.view_hash, hnone] at hp
    cases hp
  inside _ := rfl
  raised _ := rfl

theorem samplePages_procs (i : Bool) (c : Prog (Desk Bool) (Event ⊕ JobId) Unit)
    (h : samplePages.procs i = some c) : ∃ calls, c = finishPages i "b" calls := by
  cases i with
  | true => exact ⟨_, (Option.some.inj h).symm⟩
  | false => exact ⟨_, (Option.some.inj h).symm⟩

/-- Both calls read the hash before either writes the status, and both count the page. -/
theorem page_counted_twice : ∃ q : Pool (Desk Bool) (Event ⊕ JobId) Bool,
    Desk.Started "b" {1} ∅ samplePages.shared ∧
      (∀ i c, samplePages.procs i = some c → ∃ calls, c = finishPages i "b" calls) ∧
        Pool.Run Regime.free samplePages q ∧ q.shared.store.raised 1 = 2 ∧
          q.shared.store.redis.batches.lookup "b" = some ⟨1, 1, 1⟩ := by
  obtain ⟨q, hq, htwice⟩ := Pool.exists_run_of_schedule (R := Regime.free)
    (fun _ _ => trivial) (p := samplePages) (l := [true, false, true, false])
    (P := fun q => q.shared.store.raised 1 = 2 &&
      decide (q.shared.store.redis.batches.lookup "b" = some ⟨1, 1, 1⟩)) (by decide +kernel)
  rw [Bool.and_eq_true_iff] at htwice
  exact ⟨q, samplePages_started, samplePages_procs, hq, of_decide_eq_true htwice.1,
    of_decide_eq_true htwice.2⟩

/-- The poller writes the status before the reaper reads it. -/
theorem page_counted_once_sample : ∃ q : Pool (Desk Bool) (Event ⊕ JobId) Bool,
    q.ended false = true ∧ q.shared.store.raised 1 ≤ 1 := by
  obtain ⟨q, hq, hended⟩ := Pool.exists_run_of_scheduleIf (R := Sections.apart)
    Sections.apart_of_free (p := samplePages)
    (l := [true, true, true, false, false, false])
    (P := fun q => q.ended false) (by decide +kernel)
  exact ⟨q, hended, (page_counted_once samplePages_procs samplePages_started hq).1 1⟩

end Taas

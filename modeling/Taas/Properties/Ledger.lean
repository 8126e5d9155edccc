import Taas.Properties.Places

/-!
# The load and slot counters as a ledger

`Ledger` is `load:queued`, `load:inflight`, `backend:<id>:inflight` and
`backend:<id>:batches`. For every state function `f` there is a theorem `ledger_f` that says
what `f` does to them, by what it finds: a job in flight or not (`_gone`, `_inflight`).
-/

namespace Taas

open Infra Infra.Prog

structure Ledger where
  queued : Counter String
  running : Counter String
  slots : Counter BackendId
  pages : BackendId → Counter BatchId

namespace Ledger

def addQueued (field : String) (d : Int) (l : Ledger) : Ledger :=
  { l with queued := l.queued.incrBy field d }

/-- A queued job takes a slot. -/
def start (field : String) (b : BackendId) (batch : Option BatchId) (l : Ledger) : Ledger where
  queued := l.queued.incrBy field (-1)
  running := l.running.incrBy field 1
  slots := l.slots.incrBy b 1
  pages := match batch with
    | none => l.pages
    | some batchId => Function.update l.pages b ((l.pages b).incrBy batchId 1)

def addRunning (field : String) (d : Int) (l : Ledger) : Ledger :=
  { l with running := l.running.incrBy field d }

/-- One page of a batch leaves the backend. -/
def dropPage (b : BackendId) (batch : Option BatchId) (l : Ledger) : Ledger :=
  { l with
    pages := match batch with
      | none => l.pages
      | some batchId => Function.update l.pages b ((l.pages b).drop batchId) }

/-- A backend gets a slot back. -/
def release (b : BackendId) (batch : Option BatchId) (l : Ledger) : Ledger :=
  { l with slots := l.slots.incrBy b (-1) }.dropPage b batch

/-- A job in flight gives its slot up. -/
def finish (field : String) (b : BackendId) (batch : Option BatchId) (l : Ledger) : Ledger :=
  (l.addRunning field (-1)).release b batch

variable (field : String) (b : BackendId) (batch : Option BatchId) (l : Ledger)

@[simp] theorem start_queued :
    (l.start field b batch).queued = l.queued.incrBy field (-1) := rfl

@[simp] theorem start_running :
    (l.start field b batch).running = l.running.incrBy field 1 := rfl

@[simp] theorem start_slots : (l.start field b batch).slots = l.slots.incrBy b 1 := rfl

@[simp] theorem start_pages_none : (l.start field b none).pages = l.pages := rfl

@[simp] theorem start_pages_some (batchId : BatchId) : (l.start field b (some batchId)).pages =
    Function.update l.pages b ((l.pages b).incrBy batchId 1) := rfl

@[simp] theorem finish_queued : (l.finish field b batch).queued = l.queued := rfl

@[simp] theorem finish_running :
    (l.finish field b batch).running = l.running.incrBy field (-1) := rfl

@[simp] theorem finish_slots : (l.finish field b batch).slots = l.slots.incrBy b (-1) := rfl

@[simp] theorem finish_pages_none : (l.finish field b none).pages = l.pages := rfl

@[simp] theorem finish_pages_some (batchId : BatchId) : (l.finish field b (some batchId)).pages =
    Function.update l.pages b ((l.pages b).drop batchId) := rfl

end Ledger

namespace Redis

def ledger (r : Redis) : Ledger := ⟨r.loadQueued, r.loadInflight, r.backendInflight, r.backendBatches⟩

variable (r : Redis) (j : JobId)

@[simp] theorem ledger_hset (f : JobHash → JobHash) : (r.hset j f).ledger = r.ledger := rfl

@[simp] theorem ledger_hmod (f : JobHash → JobHash) : (r.hmod j f).ledger = r.ledger := by
  unfold hmod
  split <;> rfl

@[simp] theorem ledger_expire (ttl : Nat) : (r.expire j ttl).ledger = r.ledger :=
  ledger_hmod r j _

@[simp] theorem ledger_zaddPending (p : Int) (score : ℚ) :
    (r.zaddPending p j score).ledger = r.ledger := rfl

@[simp] theorem ledger_zremPending (p : Int) : (r.zremPending p j).ledger = r.ledger := rfl

@[simp] theorem ledger_zaddDelayed (score : ℚ) : (r.zaddDelayed j score).ledger = r.ledger := rfl

@[simp] theorem ledger_zremDelayed : (r.zremDelayed j).ledger = r.ledger := rfl

@[simp] theorem ledger_zaddHarvest (score : ℚ) : (r.zaddHarvest j score).ledger = r.ledger := rfl

@[simp] theorem ledger_zremHarvest : (r.zremHarvest j).ledger = r.ledger := rfl

@[simp] theorem ledger_saddInflight : (r.saddInflight j).ledger = r.ledger := rfl

@[simp] theorem ledger_sremInflight : (r.sremInflight j).ledger = r.ledger := rfl

@[simp] theorem ledger_saddLevel (p : Int) : (r.saddLevel p).ledger = r.ledger := rfl

@[simp] theorem ledger_hsetBatch (batch : BatchId) (counts : BatchCounts) :
    (r.hsetBatch batch counts).ledger = r.ledger := rfl

@[simp] theorem ledger_rpushSubmit : r.rpushSubmit.ledger = r.ledger := rfl

@[simp] theorem ledger_rpushPoll : r.rpushPoll.ledger = r.ledger := rfl

end Redis

/-! ## The state functions -/

variable (r : Redis) (j : JobId)

/-- A command that may be left out. -/
@[simp] theorem ledger_when {c : Bool} {p : RedisProg Unit} (h : (run p r).2.ledger = r.ledger) :
    (run (when c p) r).2.ledger = r.ledger := by
  rw [run_when]
  split
  · exact h
  · rfl

@[simp] theorem ledger_signalSubmit : (run signalSubmit r).2.ledger = r.ledger := rfl

@[simp] theorem ledger_signalPoll : (run signalPoll r).2.ledger = r.ledger := rfl

@[simp] theorem ledger_addPending (p : Int) (score : ℚ) :
    (run (addPending p j score) r).2.ledger = r.ledger := rfl

/-- A retry is counted where the job was. -/
@[simp] theorem ledger_scheduleRetry (now score delayS : ℚ) (avoid : Option BackendId) :
    (run (scheduleRetry now j score delayS avoid) r).2.ledger = r.ledger := by
  cases avoid <;> simp [scheduleRetry, avoidBackend]

@[simp] theorem ledger_requeueJob (score : ℚ) :
    (run (requeueJob j score) r).2.ledger = r.ledger := rfl

/-- A promoted job is counted as queued before and after. -/
@[simp] theorem ledger_promoteMember (time : ℚ) :
    (run (promoteMember time j) r).2.ledger = r.ledger := by
  unfold promoteMember
  rw [run_bind, run_call]
  dsimp only
  split
  · rw [run_bind]
    split <;> simp [getJob]
  · rfl

/-- A claimed job is still counted as queued. -/
theorem ledger_claim (now : ℚ) (entry : QueueEntry) : (r.claim now entry).ledger = r.ledger := by
  unfold Redis.claim
  split
  · rfl
  · split <;> rfl

theorem ledger_requeueOrphan (now grace : ℚ) :
    (r.requeueOrphan now grace j).ledger = r.ledger := by
  unfold Redis.requeueOrphan
  split
  · rfl
  · split <;> rfl

@[simp] theorem ledger_countBatchPage (state : Option JobState) (status : JobStatus) :
    (run (countBatchPage state status) r).2.ledger = r.ledger := by
  unfold countBatchPage
  split
  · rfl
  · split
    · rfl
    · split <;> simp

@[simp] theorem ledger_doneState (state : Option JobState) :
    (run (doneState j state) r).2.ledger = r.ledger := by
  unfold doneState
  split <;> rfl

/-- A job is counted when it is enqueued. -/
theorem ledger_enqueue (stateTtl : Nat) (state : JobState) :
    (r.enqueue stateTtl (j, state)).ledger = r.ledger.addQueued (jobLoadField state) 1 := by
  have h : ((r.hset j state.toHash.overlay).expire j stateTtl).ledger = r.ledger := by simp
  exact congrArg (Ledger.addQueued (jobLoadField state) 1) h

/-- What `set_running` counts. -/
theorem ledger_countRunning (b : BackendId) {state : JobState}
    (hb : nonEmpty state.batchId = state.batchId) : (r.countRunning b (some state)).ledger =
      r.ledger.start (jobLoadField state) b state.batchId := by
  unfold Redis.countRunning
  dsimp only
  rw [hb]
  cases state.batchId <;> rfl

/-- The counter of a batch is dropped with its last page. -/
theorem ledger_releaseBatch (b : BackendId) (state : JobState) :
    (run (releaseBatch b (some state)) r).2.ledger = r.ledger.dropPage b state.batchId := by
  unfold releaseBatch
  rw [Option.bind_some]
  cases state.batchId with
  | none => rfl
  | some batchId =>
    dsimp only
    have hleft : (r.backendBatches b).value batchId - 1 =
        ((r.backendBatches b).incrBy batchId (-1)).value batchId := by
      rw [Counter.value_incrBy, if_pos rfl, sub_eq_add_neg]
    rw [run_bind, run_call, run_when, hleft, Ledger.dropPage]
    simp only [decide_eq_true_eq, Redis.ledger]
    by_cases hle : ((r.backendBatches b).incrBy batchId (-1)).value batchId ≤ 0
    · have hdrop : (r.backendBatches b).drop batchId = _ := if_pos hle
      simp [hle, hdrop, -Counter.value_incrBy, Redis.hdelBatchPages, Redis.incrBatchPages]
    · have hdrop : (r.backendBatches b).drop batchId = _ := if_neg hle
      simp [hle, hdrop, -Counter.value_incrBy, Redis.incrBatchPages]

/-- Jobs are in flight as their views say. -/
theorem inflight_of_view {r r' : Redis} (h : r'.view = r.view) : r'.inflight = r.inflight := by
  ext k
  rw [← Redis.view_inflight, h, Redis.view_inflight]

theorem inflight_hset (f : JobHash → JobHash) : (r.hset j f).inflight = r.inflight := rfl

theorem inflight_hmod (f : JobHash → JobHash) : (r.hmod j f).inflight = r.inflight := by
  unfold Redis.hmod
  split <;> rfl

theorem inflight_expire (ttl : Nat) : (r.expire j ttl).inflight = r.inflight :=
  inflight_hmod r j _

theorem inflight_markFailed (now : ℚ) (error : String) (stateTtl : Nat) :
    (r.markFailed now j error stateTtl).inflight = r.inflight := by
  rw [Redis.markFailed, inflight_hmod]
  show ((r.hset j _).expire j stateTtl).inflight = _
  rw [inflight_expire, inflight_hset]

/-- The first `set_running` of a dispatch takes a slot. -/
theorem ledger_setRunning {settings : Settings} {now : ℚ} {engineJobId backendUrl : String}
    {b : BackendId} {stateTtl : Nat} {state : JobState} (hi : j ∉ r.inflight)
    (hs : ((r.hset j (JobHash.running now settings engineJobId backendUrl b)).expire j
      stateTtl).state j = some state) (hb : nonEmpty state.batchId = state.batchId) :
    (run (setRunning settings now j engineJobId backendUrl b stateTtl) r).2.ledger =
      r.ledger.start (jobLoadField state) b state.batchId := by
  have hadded : j ∉ ((r.hset j (JobHash.running now settings engineJobId backendUrl b)).expire j
      stateTtl).inflight := by
    rwa [inflight_expire, inflight_hset]
  have hs' : (Redis.saddInflight j ((r.hset j (JobHash.running now settings engineJobId backendUrl
      b)).expire j stateTtl)).state j = some state := hs
  simp only [setRunning, run_bind, run_act, run_call, run_when, hadded, not_false_eq_true,
    decide_true, if_true, enteredInflight, getJob, run_query, hs', ledger_signalPoll]
  rw [ledger_countRunning _ _ hb]
  simp

/-- A second one takes none. -/
theorem ledger_setRunning_inflight {settings : Settings} {now : ℚ}
    {engineJobId backendUrl : String} {b : BackendId} {stateTtl : Nat} (hi : j ∈ r.inflight) :
    (run (setRunning settings now j engineJobId backendUrl b stateTtl) r).2.ledger = r.ledger := by
  have hadded : j ∈ ((r.hset j (JobHash.running now settings engineJobId backendUrl b)).expire j
      stateTtl).inflight := by
    rwa [inflight_expire, inflight_hset]
  simp [setRunning, hadded]

theorem ledger_countReleased {state : JobState} {b : BackendId}
    (hb : state.backendId = some b) (hbatch : nonEmpty state.batchId = state.batchId) :
    (r.countReleased state).ledger = r.ledger.finish (jobLoadField state) b state.batchId := by
  unfold Redis.countReleased
  rw [hb]
  dsimp only
  rw [hbatch]
  cases state.batchId with
  | none => rfl
  | some batchId =>
    have hvalue : (((r.incrLoadInflight (jobLoadField state) (-1)).incrBackend b
        (-1)).incrBatchPages b batchId (-1)).backendBatches b =
        (r.backendBatches b).incrBy batchId (-1) := by
      simp [Redis.incrBatchPages, Redis.incrBackend, Redis.incrLoadInflight]
    dsimp only
    rw [hvalue]
    simp only [Ledger.finish, Ledger.release, Ledger.dropPage, Ledger.addRunning, Redis.ledger]
    by_cases hle : ((r.backendBatches b).incrBy batchId (-1)).value batchId ≤ 0
    · have hdrop : (r.backendBatches b).drop batchId = _ := if_pos hle
      simp [hle, hdrop, -Counter.value_incrBy, Redis.hdelBatchPages, Redis.incrBatchPages,
        Redis.incrBackend, Redis.incrLoadInflight]
    · have hdrop : (r.backendBatches b).drop batchId = _ := if_neg hle
      simp [hle, hdrop, -Counter.value_incrBy, Redis.incrBatchPages, Redis.incrBackend,
        Redis.incrLoadInflight]

/-- The job in flight that is done gives up its slot. -/
theorem ledger_releaseDone {now : ℚ} {state : JobState} {engineRun : EngineRun} {b : BackendId}
    (hi : j ∈ r.inflight) (hb : state.backendId = some b)
    (hbatch : nonEmpty state.batchId = state.batchId) :
    (run (releaseDone now j state engineRun) r).2.ledger =
      r.ledger.finish (jobLoadField state) b state.batchId := by
  simp only [releaseDone, run_bind, run_call, run_pure, Redis.releaseDone, hi, if_true]
  rw [ledger_when _ rfl, ledger_countReleased _ hb hbatch]
  simp

/-- A late `release_done` counts nothing. -/
theorem ledger_releaseDone_gone {now : ℚ} {state : JobState} {engineRun : EngineRun}
    (hi : j ∉ r.inflight) :
    (run (releaseDone now j state engineRun) r).2.ledger = r.ledger := by
  simp [releaseDone, Redis.releaseDone, hi]

/-- Where the slot was given up before, `set_done` counts nothing. -/
theorem ledger_setDone_gone {now : ℚ} {stateTtl : Nat} {state : Option JobState}
    (hi : j ∉ r.inflight) : (run (setDone now j stateTtl state) r).2.ledger = r.ledger := by
  have hquiet := (quiet_countBatchPage (run (doneState j state) r).2 (run (doneState j state) r).1
    .done).view.trans (quiet_doneState r j state).view
  have hremoved : ∀ r' : Redis, r'.view = r.view → j ∉ ((r'.hset j (JobHash.finished now)).expire j
      stateTtl).inflight := by
    intro r' h
    rwa [inflight_expire, inflight_hset, inflight_of_view h]
  simp only [setDone, run_bind, run_act, run_call, run_pure, hremoved _ hquiet, decide_false,
    settleDone, Bool.false_eq_true, if_false]
  rw [ledger_when _ rfl]
  simp

/-- A slot of a backend with a positive id. -/
theorem ledger_releaseSlot {state : JobState} {b : BackendId} (hb : state.backendId = some b)
    (hb0 : b ≠ 0) : (run (releaseSlot true (some state)) r).2.ledger =
      r.ledger.release b state.batchId := by
  have htruthy : truthy ((some state).bind fun s => s.backendId) = some b := by
    simp [truthy, hb, hb0]
  unfold releaseSlot
  rw [htruthy]
  dsimp only
  rw [run_when, if_pos rfl, run_bind, run_act, ledger_releaseBatch]
  rfl

theorem releaseSlot_false (state : Option JobState) :
    (run (releaseSlot false state) r).2 = r := by
  unfold releaseSlot
  split <;> rfl

theorem ledger_markFailed (now : ℚ) (error : String) (stateTtl : Nat) :
    (r.markFailed now j error stateTtl).ledger = r.ledger := by
  simp [Redis.markFailed]

theorem ledger_incrLoadInflight (field : String) (d : Int) :
    (r.incrLoadInflight field d).ledger = r.ledger.addRunning field d := rfl

theorem ledger_incrLoadQueued (field : String) (d : Int) :
    (r.incrLoadQueued field d).ledger = r.ledger.addQueued field d := rfl

/-- A job that fails in flight gives up its slot. -/
theorem ledger_setFailed {now : ℚ} {error : String} {stateTtl : Nat} {state : JobState}
    {b : BackendId} (hi : j ∈ r.inflight) (hs : r.state j = some state)
    (hb : state.backendId = some b) (hb0 : b ≠ 0) :
    (run (setFailed now j error stateTtl) r).2.ledger =
      r.ledger.finish (jobLoadField state) b state.batchId := by
  have hremoved : ∀ r' : Redis, r'.view = r.view →
      j ∈ (r'.markFailed now j error stateTtl).inflight := by
    intro r' h
    rwa [inflight_markFailed, inflight_of_view h]
  have hquiet := (quiet_countBatchPage r (some state) .failed).view
  simp only [setFailed, getJob, run_bind, run_query, run_call, run_pure, hs, countFailed,
    hremoved _ hquiet, decide_true, if_true, run_act]
  rw [ledger_when _ rfl, ledger_releaseSlot _ hb hb0, ledger_when _ rfl, ledger_incrLoadInflight,
    Redis.ledger_sremInflight, ledger_markFailed, ledger_countBatchPage]
  rfl

/-- A job that fails elsewhere leaves the queue's load, if its status is still `queued`. -/
theorem ledger_setFailed_gone {now : ℚ} {error : String} {stateTtl : Nat} (hi : j ∉ r.inflight) :
    (run (setFailed now j error stateTtl) r).2.ledger =
      match r.state j with
      | none => r.ledger
      | some state =>
        if state.status = .queued then r.ledger.addQueued (jobLoadField state) (-1)
        else r.ledger := by
  have hremoved : ∀ r' : Redis, r'.view = r.view →
      j ∉ (r'.markFailed now j error stateTtl).inflight := by
    intro r' h
    rwa [inflight_markFailed, inflight_of_view h]
  have hquiet := (quiet_countBatchPage r (r.state j) .failed).view
  simp only [setFailed, getJob, run_bind, run_query, run_call, run_pure, hremoved _ hquiet,
    decide_false, Bool.false_and, releaseSlot_false]
  rw [ledger_when _ rfl, ledger_when _ rfl]
  cases hs : r.state j with
  | none => simp [countFailed, ledger_markFailed]
  | some state =>
    simp only [countFailed, Bool.false_eq_true, if_false, run_when, decide_eq_true_eq]
    split
    · rw [run_act, ledger_incrLoadQueued, Redis.ledger_sremInflight, ledger_markFailed,
        ledger_countBatchPage]
    · rw [Redis.ledger_sremInflight, ledger_markFailed, ledger_countBatchPage]

/-- The rest of `release_and_requeue` counts nothing. -/
theorem ledger_backToQueue (now score : ℚ) (stateTtl : Nat) (delayS : ℚ)
    (avoid : Option BackendId) (state : Option JobState) :
    (run (backToQueue now j score stateTtl delayS avoid state) r).2.ledger = r.ledger := by
  simp only [backToQueue, requeueReleased, run_bind, run_act]
  split <;> simp

/-- A job that goes back gives up its slot and is counted as queued again. -/
theorem ledger_releaseAndRequeue {now score : ℚ} {stateTtl : Nat} {delayS : ℚ}
    {avoid : Option BackendId} {state : JobState} {b : BackendId} (hi : j ∈ r.inflight)
    (hs : r.state j = some state) (hb : state.backendId = some b) (hb0 : b ≠ 0) :
    (run (releaseAndRequeue now j score stateTtl delayS avoid) r).2.ledger =
      (r.ledger.finish (jobLoadField state) b state.batchId).addQueued (jobLoadField state) 1 := by
  simp only [releaseAndRequeue, run_bind, run_act, ledger_backToQueue, Redis.ledger_hset,
    giveUpSlot, getJob, run_query, run_call, run_pure, hs, hi, decide_true, countRequeued,
    run_when, if_true]
  rw [ledger_releaseSlot _ hb hb0, ledger_incrLoadQueued, ledger_incrLoadInflight,
    Redis.ledger_sremInflight]
  rfl

end Taas

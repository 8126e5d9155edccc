import Mathlib.Data.Fintype.Option
import Taas.Infra.Pool
import Taas.Properties.Pages

/-!
# A poll outcome and the dispatch it polled

A poller reads a job's state, asks the engine, and applies what that came to. Meanwhile the job
may have been requeued and dispatched again.

* `Redis.later` — the hash shows another dispatch than the one that was polled.
* `Redis.disturbed` — a change of that dispatch: its status, its queues, its counters.
* `PollResult.core` — an outcome up to the last command that can make such a change.
* `inTime` — a dispatch begins only while no poller has an outcome of an earlier one to write.
* `outcomes_of_their_dispatch` — in every such run no later dispatch is disturbed.
-/

namespace Taas

open Infra Infra.Prog

/-! ## Dispatches -/

/-- The dispatch the job is in: its id at the engine. A queued job is in none. -/
def Redis.dispatch (r : Redis) (jobId : JobId) : Option String :=
  (r.jobs.lookup jobId).bind fun h => if h.status = some .queued then none else h.engineJobId

/-- The job is in another dispatch than the one that was polled. -/
def Redis.later (r : Redis) (jobId : JobId) (polled : Option String) : Bool :=
  match r.dispatch jobId, polled with
  | some now, some polled => now ≠ polled
  | _, _ => false

/-- What belongs to a dispatch. -/
structure Standing where
  status : Option JobStatus
  pending : Bool
  delayed : Bool
  inflight : Bool
  harvest : Bool
  /-- `backend:<id>:inflight` of its backend -/
  slots : Option Int
  /-- Its batch's field in `backend:<id>:batches` -/
  pages : Option Int
  counts : Option BatchCounts
deriving DecidableEq

/-- What Redis says about the dispatch that the hash `h` shows. -/
def Redis.standing (r : Redis) (jobId : JobId) (h : JobHash) : Standing where
  status := (r.jobs.lookup jobId).bind fun h => h.status
  pending := ((r.pending (h.priority.getD 0)).lookup jobId).isSome
  delayed := (r.delayed.lookup jobId).isSome
  inflight := jobId ∈ r.inflight
  harvest := (r.pendingHarvest.lookup jobId).isSome
  slots := h.backendId.map r.backendInflight.value
  pages := h.backendId.bind fun b => h.batchId.map (r.backendBatches b).value
  counts := h.batchId.bind r.batches.lookup

/-- Whether the dispatch the job is in is not as it was any more. -/
def Redis.disturbed (r : Redis) (jobId : JobId) (r' : Redis) : Bool :=
  (r.jobs.lookup jobId).any fun h => r'.standing jobId h ≠ r.standing jobId h

/-! ## Outcomes -/

/-- What a poll came to, and the arguments of the state function for it. -/
inductive PollResult where
  | scheduleNextPoll (at' now : ℚ)
  | releaseDone (now : ℚ) (run : EngineRun)
  | releaseAndRequeue (now score : ℚ) (stateTtl : Nat) (delayS : ℚ)
      (avoidBackendId : Option BackendId)
  | setFailed (now : ℚ) (error : String) (stateTtl : Nat)

namespace PollResult

/-- The Redis part of `_schedule_next_poll`, `_release_for_harvest`, `_requeue_in_redis` and
`mark_failed`. -/
def prog (jobId : JobId) (state : JobState) : PollResult → RedisProg Unit
  | scheduleNextPoll at' now => Taas.scheduleNextPoll jobId at' now
  | releaseDone now run => (fun _ => ()) <$> Taas.releaseDone now jobId state run
  | releaseAndRequeue now score stateTtl delayS avoidBackendId => do
    Taas.releaseAndRequeue now jobId score stateTtl delayS avoidBackendId
    countRequeue jobId
  | setFailed now error stateTtl => (fun _ => ()) <$> Taas.setFailed now jobId error stateTtl

/-- The end of `_requeue_in_redis`: the job is put back on a queue; the rest of it. -/
def coreOfRequeue (now : ℚ) (jobId : JobId) (score delayS : ℚ)
    (avoidBackendId : Option BackendId) (state : Option JobState) :
    RedisProg (RedisProg Unit) :=
  if 0 < delayS then do
    scheduleRetry now jobId score delayS avoidBackendId
    pure (countRequeue jobId)
  else do
    let priority := (state.map fun s => s.priority).getD 0
    callLog (fun _ => [.put jobId]) (fun _ => ()) (Redis.zaddPending priority jobId score)
    pure do
      act (Redis.saddLevel priority)
      signalSubmit
      countRequeue jobId

/-- Up to the last command that can change the status, the queues or the counters: of a requeue, the
one that puts the job back on a queue. The rest of the outcome. -/
def core (jobId : JobId) (state : JobState) : PollResult → RedisProg (RedisProg Unit)
  | scheduleNextPoll at' now => pure (Taas.scheduleNextPoll jobId at' now)
  | releaseDone now run => do
    let released ← call (fun r => decide (jobId ∈ r.inflight)) (Redis.releaseDone now jobId state run)
    pure (when released signalSubmit)
  | releaseAndRequeue now score stateTtl delayS avoidBackendId => do
    let state ← giveUpSlot jobId
    act (Redis.hset jobId JobHash.queued)
    act (Redis.hmod jobId JobHash.clearDispatch)
    act (Redis.zremHarvest jobId)
    act (Redis.expire jobId stateTtl)
    coreOfRequeue now jobId score delayS avoidBackendId state
  | setFailed now error stateTtl => do
    let _ ← Taas.setFailed now jobId error stateTtl
    pure (pure ())

/-- An outcome is these two parts, one after the other. -/
theorem prog_eq (jobId : JobId) (state : JobState) (outcome : PollResult) :
    outcome.prog jobId state = outcome.core jobId state >>= fun rest => rest := by
  cases outcome with
  | scheduleNextPoll at' now => rfl
  | releaseDone now run =>
    simp only [prog, core, Taas.releaseDone, map_eq_pure_bind, bind_assoc, pure_bind,
      bind_pure_unit]
  | releaseAndRequeue now score stateTtl delayS avoidBackendId =>
    simp only [prog, core, Taas.releaseAndRequeue, backToQueue, requeueReleased, coreOfRequeue,
      bind_assoc]
    split <;> simp only [addPending, bind_assoc, pure_bind]
  | setFailed now error stateTtl =>
    simp only [prog, core, map_eq_pure_bind, bind_assoc, pure_bind]

/-- The dispatch that the outcome is about to write of. -/
def holds (state : JobState) : PollResult → Option String
  | scheduleNextPoll .. => none
  | _ => state.engineJobId

end PollResult

/-- Redis, the dispatches that pollers have an outcome of to write, and whether an outcome disturbed
a later dispatch. -/
structure Audited (ι : Type) where
  redis : Redis
  /-- From the client's read of the job's state to the last command of the outcome's core. -/
  holds : ι → Option String := fun _ => none
  touched : Bool := false

/-- A program whose commands are noted, and the dispatches that they begin. -/
abbrev AuditProg (ι α : Type) := Prog (Audited ι) (Event ⊕ String) α

/-- The id at the engine that the hash shows. -/
def Redis.engineJob (r : Redis) (jobId : JobId) : Option String :=
  (r.jobs.lookup jobId).bind fun h => h.engineJobId

/-- The dispatch that begins when the store becomes `r'`. -/
def Redis.begins (jobId : JobId) (r r' : Redis) : List String :=
  if r'.engineJob jobId = r.engineJob jobId then [] else (r'.engineJob jobId).toList

namespace Audited

variable {ι : Type}

/-- The store after a command of an outcome of the dispatch `polled`. -/
def charge (jobId : JobId) (polled : Option String) (r : Redis) (t : Audited ι) : Audited ι :=
  { t with
    redis := r
    touched := t.touched || (t.redis.later jobId polled && t.redis.disturbed jobId r) }

variable [DecidableEq ι]

def take (i : ι) (polled : Option String) (t : Audited ι) : Audited ι :=
  { t with holds := Function.update t.holds i polled }

def letGo (i : ι) (t : Audited ι) : Audited ι := t.take i none

/-- `f` if nothing of the program is to come. -/
def ifLast {α : Type} (f : Audited ι → Audited ι) : RedisProg α → Audited ι → Audited ι
  | .ret _, t => f t
  | .cmd .., t => t

end Audited

section

variable {ι α : Type} [DecidableEq ι] (jobId : JobId)

/-- The commands of an outcome of the dispatch `polled`; the last one does `f` besides. -/
def audit (polled : Option String) (f : Audited ι → Audited ι) : RedisProg α → AuditProg ι α
  | .ret a => .ret a
  | .cmd ready effect log next =>
    .cmd (fun t => ready t.redis)
      (fun t => Audited.ifLast f (next t.redis) (t.charge jobId polled (effect t.redis)))
      (fun t => (log t.redis).map Sum.inl ++ (t.redis.begins jobId (effect t.redis)).map Sum.inr)
      fun t => audit polled f (next t.redis)

/-- Any other commands. -/
def plain (p : RedisProg α) : AuditProg ι α := audit jobId none id p

/-- `get_job` of a poller whose poll of the job comes to `outcomeOf` of the state. -/
def readState (i : ι) (outcomeOf : JobState → PollResult) : AuditProg ι (Option JobState) :=
  callLog (fun _ => []) (fun t => t.redis.state jobId) fun t =>
    t.take i ((t.redis.state jobId).bind fun state => (outcomeOf state).holds state)

/-- An outcome of client `i`, which lets go of the dispatch with the last command of the core. -/
def PollResult.audited (i : ι) (state : JobState) (outcome : PollResult) : AuditProg ι Unit := do
  let rest ← audit jobId state.engineJobId (Audited.letGo i) (outcome.core jobId state)
  audit jobId state.engineJobId id rest

/-- A poller: it reads the job's state, and applies an outcome to it, time after time. -/
def polls (i : ι) : List (JobState → PollResult) → AuditProg ι Unit
  | [] => pure ()
  | outcomeOf :: rounds => do
    match ← readState jobId i outcomeOf with
    | none => polls i rounds
    | some state => do
      (outcomeOf state).audited jobId i state
      polls i rounds

end

/-- A dispatch begins only while no poller has an outcome of another one to write. -/
def inTime (ι : Type) [DecidableEq ι] : Regime (Audited ι) (Event ⊕ String) ι where
  allowed t events := ∀ d, .inr d ∈ events → ∀ i held, t.holds i = some held → held = d
  clean i t := t.letGo i

/-! ## What the commands do to a dispatch -/

/-- The command disturbs no later dispatch. -/
def Respects (jobId : JobId) (polled : Option String) (effect : Redis → Redis)
    (_ : Redis → List Event) : Prop :=
  ∀ r : Redis, r.later jobId polled = true → r.disturbed jobId (effect r) = false

variable {jobId : JobId} {polled : Option String}

theorem respects_of_forall {effect : Redis → Redis} {log : Redis → List Event}
    (h : ∀ r hash, (effect r).standing jobId hash = r.standing jobId hash) :
    Respects jobId polled effect log := by
  intro r _
  unfold Redis.disturbed
  cases r.jobs.lookup jobId with
  | none => rfl
  | some hash => simp [h r hash]

theorem respects_hset {f : JobHash → JobHash} {log : Redis → List Event}
    (hf : ∀ h, (f h).status = h.status) : Respects jobId polled (Redis.hset jobId f) log := by
  refine respects_of_forall fun r hash => ?_
  have hstatus : ((r.hset jobId f).jobs.lookup jobId).bind (fun h => h.status) =
      (r.jobs.lookup jobId).bind fun h => h.status := by
    rw [Redis.hset, Finmap.lookup_insert, Option.bind_some, hf]
    cases r.jobs.lookup jobId <;> rfl
  show Standing.mk (((r.hset jobId f).jobs.lookup jobId).bind fun h => h.status) _ _ _ _ _ _ _ =
    r.standing jobId hash
  rw [hstatus]
  rfl

theorem respects_signalSubmit : signalSubmit.Each (Respects jobId polled) :=
  each_call (respects_of_forall fun _ _ => rfl)

theorem respects_countRequeue : (countRequeue jobId).Each (Respects jobId polled) :=
  each_call (respects_hset fun _ => rfl)

/-- What comes after the core changes nothing of any dispatch. -/
theorem PollResult.respects_rest (outcome : PollResult) (state : JobState) :
    (outcome.core jobId state).Answers fun rest => rest.Each (Respects jobId polled) := by
  cases outcome with
  | scheduleNextPoll at' now => exact each_call (respects_hset fun _ => rfl)
  | releaseDone now run => exact fun _ => respects_signalSubmit.when
  | releaseAndRequeue now score stateTtl delayS avoidBackendId =>
    refine answers_bind fun state => answers_bind fun _ => answers_bind fun _ =>
      answers_bind fun _ => answers_bind fun _ => ?_
    unfold coreOfRequeue
    split
    · exact answers_bind fun _ => respects_countRequeue
    · refine answers_bind fun _ => Each.bind (each_call ?_) fun _ =>
        respects_signalSubmit.bind fun _ => respects_countRequeue
      exact respects_of_forall fun _ _ => rfl
  | setFailed now error stateTtl => exact answers_bind fun _ => trivial

/-! ## Any interleaving -/

section

variable {ι α : Type} [DecidableEq ι] {i : ι}

/-- No later dispatch was disturbed, and none has begun that a poller has an outcome of an earlier
one to write over. -/
def undisturbed (ι : Type) (jobId : JobId) : Contract (Audited ι) (Event ⊕ String) ι where
  inv t _ := t.touched = false ∧
    ∀ i d, t.holds i = some d → ∀ now, t.redis.engineJob jobId = some now → now = d
  guar i t _ t' _ := ∀ j, j ≠ i → t'.holds j = t.holds j

/-- Client `i` runs `p` from a store where `A` holds, and disturbs no later dispatch. -/
abbrev Considerate (jobId : JobId) (i : ι) (p : AuditProg ι α)
    (A : Assertion (Audited ι) (Event ⊕ String)) : Prop :=
  Contract.Triple (inTime ι) (undisturbed ι jobId) i p A fun _ _ _ => True

omit [DecidableEq ι] in
theorem stable_polled (d : Option String) :
    (undisturbed ι jobId).Stable i fun t _ => ∀ held, d = some held → t.holds i = some held :=
  fun _ hj _ _ _ _ _ _ hg ht held hd => (hg i (Ne.symm hj)).trans (ht held hd)

theorem Redis.dispatch_eq_some {r : Redis} {now : String} (h : r.dispatch jobId = some now) :
    r.engineJob jobId = some now := by
  obtain ⟨hash, hlookup, hnow⟩ := Option.bind_eq_some_iff.mp h
  split at hnow
  · cases hnow
  · rw [Redis.engineJob, hlookup, Option.bind_some, hnow]

/-- While the poller's outcome is to come, the job is in no later dispatch. -/
theorem Redis.not_later {r : Redis} (h : ∀ held, polled = some held →
    ∀ now, r.engineJob jobId = some now → now = held) : r.later jobId polled = false := by
  unfold Redis.later
  cases hnow : r.dispatch jobId with
  | none => rfl
  | some now =>
    cases hpolled : polled with
    | none => rfl
    | some held => simp [h held hpolled now (Redis.dispatch_eq_some hnow)]

/-- What a poller reads of the dispatch is what the hash shows. -/
theorem Redis.engineJob_of_state {r : Redis} {state : JobState} {d now : String}
    (hstate : r.state jobId = some state) (hd : state.engineJobId = some d)
    (hnow : r.engineJob jobId = some now) : now = d := by
  obtain ⟨hash, hlookup, hhash⟩ := Option.bind_eq_some_iff.mp hstate
  rw [Redis.engineJob, hlookup, Option.bind_some] at hnow
  rw [JobState.engineJobId_of_fromHash hhash, hnow] at hd
  exact Option.some_inj.mp (Option.eq_some_of_filter_eq_some hd)

theorem PollResult.engineJobId_of_holds {outcome : PollResult} {state : JobState} {d : String}
    (h : outcome.holds state = some d) : state.engineJobId = some d := by
  cases outcome with
  | scheduleNextPoll => cases h
  | releaseDone | releaseAndRequeue | setFailed => exact h

namespace Audited

variable {t : Audited ι} {r : Redis} {es es' : List (Event ⊕ String)}

omit [DecidableEq ι] in
/-- A command that begins a dispatch only when it may, and disturbs no later one. -/
theorem inv_charge (hinv : (undisturbed ι jobId).inv t es)
    (ha : ∀ d ∈ t.redis.begins jobId r, ∀ i held, t.holds i = some held → held = d)
    (hr : t.redis.later jobId polled = true → t.redis.disturbed jobId r = false) :
    (undisturbed ι jobId).inv (t.charge jobId polled r) es' := by
  obtain ⟨htouched, hholds⟩ := hinv
  refine ⟨?_, fun i d hd now hnow => ?_⟩
  · unfold charge
    dsimp only
    rw [htouched, Bool.false_or]
    cases hl : t.redis.later jobId polled with
    | false => rfl
    | true => rw [hr hl]; rfl
  · have hnow' : r.engineJob jobId = some now := hnow
    by_cases hsame : r.engineJob jobId = t.redis.engineJob jobId
    · exact hholds i d hd now (hsame ▸ hnow')
    · refine (ha now ?_ i d hd).symm
      rw [Redis.begins, if_neg hsame, hnow']
      exact List.mem_singleton_self _

theorem inv_letGo (hinv : (undisturbed ι jobId).inv t es) :
    (undisturbed ι jobId).inv (t.letGo i) es := by
  refine ⟨hinv.1, fun j d hd => hinv.2 j d ?_⟩
  have hd' : Function.update t.holds i none j = some d := hd
  rw [Function.update_apply] at hd'
  split at hd'
  · cases hd'
  · exact hd'

theorem holds_take {polled : Option String} {j : ι} (hj : j ≠ i) :
    (t.take i polled).holds j = t.holds j := Function.update_of_ne hj _ _

end Audited

theorem allowed_audit {t : Audited ι} {events : List Event} {begun : List String}
    (ha : (inTime ι).allowed t (events.map Sum.inl ++ begun.map Sum.inr)) :
    ∀ d ∈ begun, ∀ i held, t.holds i = some held → held = d :=
  fun d hd => ha d (List.mem_append_right _ (List.mem_map_of_mem hd))

/-- Commands that disturb no later dispatch. -/
theorem considerate_audit {p : RedisProg α} (hp : p.Each (Respects jobId polled)) :
    Considerate jobId i (audit jobId polled id p) fun _ _ => True := by
  induction p with
  | ret a => exact fun _ _ _ _ => trivial
  | cmd ready effect log next ih =>
    intro t es hi _ _ ha
    have hlast : Audited.ifLast id (next t.redis) (t.charge jobId polled (effect t.redis)) =
        t.charge jobId polled (effect t.redis) := by
      cases next t.redis <;> rfl
    dsimp only
    rw [hlast]
    exact ⟨Audited.inv_charge hi (allowed_audit ha) (hp.1 t.redis), fun _ _ => rfl,
      fun _ _ => True, trivial, Contract.stable_true, ih _ (hp.2 _)⟩

theorem considerate_plain (p : RedisProg α) :
    Considerate jobId i (plain jobId p) fun _ _ => True := by
  refine considerate_audit (each_of_forall (fun effect _ r hl => ?_) p)
  unfold Redis.later at hl
  cases hnow : r.dispatch jobId <;> rw [hnow] at hl <;> cases hl

/-- **An outcome's core finds the job in no later dispatch.** -/
theorem considerate_core (p : RedisProg α) :
    Considerate jobId i (audit jobId polled (Audited.letGo i) p)
      fun t _ => ∀ held, polled = some held → t.holds i = some held := by
  induction p with
  | ret a => exact fun _ _ _ _ => trivial
  | cmd ready effect log next ih =>
    intro t es hi hheld _ ha
    have hlater : t.redis.later jobId polled = false :=
      Redis.not_later fun held hpolled => hi.2 i held (hheld held hpolled)
    have hinv : ∀ es', (undisturbed ι jobId).inv (t.charge jobId polled (effect t.redis)) es' :=
      fun _ => Audited.inv_charge hi (allowed_audit ha) fun hl => by rw [hlater] at hl; cases hl
    dsimp only
    cases hnext : next t.redis with
    | ret a =>
      exact ⟨Audited.inv_letGo (hinv _), fun j hj => Audited.holds_take hj, fun _ _ => True, trivial,
        Contract.stable_true, fun _ _ _ _ => trivial⟩
    | cmd ready' effect' log' next' =>
      exact ⟨hinv _, fun _ _ => rfl, _, hheld, stable_polled polled, hnext ▸ ih t.redis⟩

omit [DecidableEq ι] in
theorem answers_audit {P : α → Prop} {f : Audited ι → Audited ι} {p : RedisProg α}
    (h : p.Answers P) : (audit jobId polled f p).Answers P := by
  induction p with
  | ret a => exact h
  | cmd ready effect log next ih => exact fun t => ih t.redis (h t.redis)

theorem considerate_outcome (outcome : PollResult) (state : JobState) :
    Considerate jobId i (outcome.audited jobId i state)
      fun t _ => t.holds i = outcome.holds state := by
  have hcore : Considerate jobId i
      (audit jobId state.engineJobId (Audited.letGo i) (outcome.core jobId state))
      fun t _ => t.holds i = outcome.holds state := by
    cases outcome with
    | scheduleNextPoll => exact fun _ _ _ _ => trivial
    | releaseDone | releaseAndRequeue | setFailed =>
      exact (considerate_core _).imp (fun _ _ _ ht _ hheld => ht.trans hheld) fun _ _ _ h => h
  have hrest : (audit jobId state.engineJobId (Audited.letGo i)
      (outcome.core jobId state)).Answers fun rest =>
        rest.Each (Respects jobId state.engineJobId) :=
    answers_audit (outcome.respects_rest state)
  exact (hcore.answers hrest).bind fun rest =>
    Contract.triple_of_and fun hrest => considerate_audit hrest

/-- A poller holds the dispatch that it read of. -/
theorem considerate_readState (outcomeOf : JobState → PollResult) :
    Contract.Triple (inTime ι) (undisturbed ι jobId) i (readState jobId i outcomeOf)
      (fun _ _ => True)
      fun read t _ => ∀ state, read = some state → t.holds i = (outcomeOf state).holds state := by
  refine Contract.triple_callLog (fun t es hi _ _ => ⟨⟨hi.1, fun j d hd now hnow => ?_⟩,
    fun j hj => Audited.holds_take hj, fun state hstate => ?_⟩) fun read j hj _ _ _ _ _ _ hg ht
      state hstate => (hg i (Ne.symm hj)).trans (ht state hstate)
  · by_cases hj : j = i
    · have hd' : Function.update t.holds i ((t.redis.state jobId).bind fun state =>
          (outcomeOf state).holds state) j = some d := hd
      rw [hj, Function.update_self] at hd'
      obtain ⟨state, hstate, hholds⟩ := Option.bind_eq_some_iff.mp hd'
      exact Redis.engineJob_of_state hstate (PollResult.engineJobId_of_holds hholds) hnow
    · rw [Audited.holds_take hj] at hd
      exact hi.2 j d hd now hnow
  · show Function.update t.holds i ((t.redis.state jobId).bind fun state =>
      (outcomeOf state).holds state) i = _
    rw [Function.update_self, hstate, Option.bind_some]

theorem considerate_polls (rounds : List (JobState → PollResult)) :
    Considerate jobId i (polls jobId i rounds) fun _ _ => True := by
  induction rounds with
  | nil => exact fun _ _ _ _ => trivial
  | cons outcomeOf rounds ih =>
    refine Contract.Triple.bind (considerate_readState outcomeOf) fun read => ?_
    cases read with
    | none => exact ih.imp (fun _ _ _ _ => trivial) fun _ _ _ h => h
    | some state =>
      exact ((considerate_outcome (outcomeOf state) state).imp (fun _ _ _ ht => ht state rfl)
        fun _ _ _ h => h).bind fun _ => ih

variable {p q : Pool (Audited ι) (Event ⊕ String) ι}

/-- **As long as a dispatch begins only while no poller has an outcome of an earlier one to write, no
outcome changes a status, a queue, a slot counter or a batch counter of a later dispatch.** -/
theorem outcomes_of_their_dispatch
    (hprocs : ∀ i c, p.procs i = some c →
      (∃ rounds, c = polls jobId i rounds) ∨ ∃ other, c = plain jobId other)
    (htouched : p.shared.touched = false) (hholds : ∀ i, p.shared.holds i = none)
    (hr : Pool.Run (inTime ι) p q) : q.shared.touched = false := by
  have hsound : Pool.Sound (inTime ι) (undisturbed ι jobId) (fun _ _ _ => True) p := by
    refine ⟨⟨htouched, fun i d hd => ?_⟩,
      fun i c hi => ⟨fun _ _ => True, trivial, Contract.stable_true, ?_⟩⟩
    · rw [hholds i] at hd
      cases hd
    · rcases hprocs i c hi with ⟨rounds, rfl⟩ | ⟨other, rfl⟩
      · exact considerate_polls rounds
      · exact considerate_plain other
  exact (hsound.run (fun _ _ _ hi => ⟨Audited.inv_letGo hi, fun _ hj => Audited.holds_take hj⟩)
    hr).inv.1

end

/-! ## An outcome that comes too late -/

/-- Job 1 runs on backend 1 as "a". Two pollers (`some _`) are about to poll it; one of them
requeues it, and the submit worker (`none`) dispatches it to backend 2 as "b". -/
def sampleDispatches (rounds : List (JobState → PollResult)) :
    Pool (Audited (Option Bool)) (Event ⊕ String) (Option Bool) where
  shared :=
    { redis :=
        { jobs := Finmap.singleton 1
            { sampleJob with
              status := .running, engineJobId := some "a", backendId := some 1 }.toHash
          inflight := {1}
          backendInflight := Finmap.singleton 1 1 } }
  procs
    | some false => some (polls 1 (some false) rounds)
    | some true => some (polls 1 (some true) [fun _ => .releaseAndRequeue 50 0 3600 0 none])
    | none => some (plain 1 do
        let _ ← claimOne 60 ⟨1, 0, 0⟩
        setRunning {} 70 1 "b" "http://two" 2 3600)
  history := []

theorem sampleDispatches_procs {rounds : List (JobState → PollResult)} (i : Option Bool)
    (c : AuditProg (Option Bool) Unit) (h : (sampleDispatches rounds).procs i = some c) :
    (∃ rounds, c = polls 1 i rounds) ∨ ∃ other, c = plain 1 other := by
  match i with
  | some false | some true => exact Or.inl ⟨_, (Option.some.inj h).symm⟩
  | none => exact Or.inr ⟨_, (Option.some.inj h).symm⟩

/-- The job is in the later dispatch, which an outcome took out of flight, on the old backend. -/
def takenOut (q : Pool (Audited (Option Bool)) (Event ⊕ String) (Option Bool)) : Bool :=
  q.shared.touched && (decide (q.shared.redis.dispatch 1 = some "b") &&
    (decide (1 ∉ q.shared.redis.inflight) &&
      decide (q.shared.redis.backendInflight.value 1 = -1)))

/-- The first poller reads the state, the job is requeued and dispatched again, and then the poller
releases the slot of the new dispatch. -/
theorem outcome_of_another_dispatch :
    ∃ p q : Pool (Audited (Option Bool)) (Event ⊕ String) (Option Bool),
      (∀ i c, p.procs i = some c →
        (∃ rounds, c = polls 1 i rounds) ∨ ∃ other, c = plain 1 other) ∧
      p.shared.touched = false ∧ (∀ i, p.shared.holds i = none) ∧ Pool.Run Regime.free p q ∧
        q.shared.touched = true ∧ q.shared.redis.dispatch 1 = some "b" ∧
          1 ∉ q.shared.redis.inflight ∧ q.shared.redis.backendInflight.value 1 = -1 := by
  obtain ⟨q, hq, hlate⟩ := Pool.exists_run_of_schedule (R := Regime.free)
    (fun _ _ => trivial) (p := sampleDispatches [fun _ => .releaseDone 100 {}])
    (l := [some false] ++ List.replicate 13 (some true) ++ List.replicate 7 none ++ [some false])
    (P := takenOut) (by decide +kernel)
  simp only [takenOut, Bool.and_eq_true, decide_eq_true_eq] at hlate
  exact ⟨_, q, sampleDispatches_procs, rfl, fun _ => rfl, hq, hlate⟩

/-- No dispatch begins while somebody holds another one. -/
def onTime (t : Audited (Option Bool)) (events : List (Event ⊕ String)) : Bool :=
  events.all fun event => event.elim (fun _ => true) fun d =>
    decide (∀ i, t.holds i = none ∨ t.holds i = some d)

theorem inTime_of_onTime (t : Audited (Option Bool)) (events : List (Event ⊕ String))
    (h : onTime t events = true) : (inTime (Option Bool)).allowed t events := by
  intro d hd i held hheld
  have hnow : decide (∀ i, t.holds i = none ∨ t.holds i = some d) = true :=
    List.all_eq_true.mp h (.inr d) hd
  rcases of_decide_eq_true hnow i with hnone | hsame
  · rw [hnone] at hheld
    cases hheld
  · exact Option.some_inj.mp (hheld.symm.trans hsame)

/-- All have come to their end, the job waits to be harvested, and no slot is taken. -/
def allReleased (q : Pool (Audited (Option Bool)) (Event ⊕ String) (Option Bool)) : Bool :=
  decide (∀ i, q.ended i = true) && (decide (q.shared.redis.backendInflight.value 1 = 0) &&
    (decide (q.shared.redis.backendInflight.value 2 = 0) &&
      decide (1 ∈ q.shared.redis.pendingHarvest)))

/-- Here the job still ran at the first poll, which is noted only in the new dispatch, as is the
requeue that the second poller counts; then the new dispatch is polled, and released. -/
theorem outcomes_of_their_dispatch_sample :
    ∃ q : Pool (Audited (Option Bool)) (Event ⊕ String) (Option Bool),
      (∀ i, q.ended i = true) ∧ q.shared.touched = false ∧
        q.shared.redis.backendInflight.value 1 = 0 ∧
          q.shared.redis.backendInflight.value 2 = 0 ∧ 1 ∈ q.shared.redis.pendingHarvest := by
  obtain ⟨q, hq, hP⟩ := Pool.exists_run_of_scheduleIf (R := inTime (Option Bool)) inTime_of_onTime
    (p := sampleDispatches [fun _ => .scheduleNextPoll 120 100, fun _ => .releaseDone 130 {}])
    (l := [some false] ++ List.replicate 10 (some true) ++ List.replicate 7 none ++
      List.replicate 3 (some true) ++ List.replicate 4 (some false)) (P := allReleased)
    (by decide +kernel)
  simp only [allReleased, Bool.and_eq_true, decide_eq_true_eq] at hP
  exact ⟨q, hP.1, outcomes_of_their_dispatch sampleDispatches_procs rfl (fun _ => rfl) hq, hP.2⟩

end Taas

import Taas.Infra.Runs
import Taas.Properties.Views

/-!
# The workers around the queues

Who calls the state functions, and when. `World` is Redis with a clock and with the claims
that submit workers hold; an `Action` is one call of a state function, run to its end
(`World.act`) or cut off by the death of its process (`World.cut`).

* `Condition` — when a run lets a worker make a call about a job.
* `Micro` — the steps that change one job. `micros_of_act` takes every action apart into
  these, so that a property needs to be looked at for one job at a time only.
-/

namespace Taas

open Infra Infra.Prog Relation

structure World where
  redis : Redis := {}
  now : ℚ := 0
  /-- For each job the time of its last claim, until its claimer has resolved it. -/
  claims : JobId → Option ℚ := fun _ => none

/-- What a submit worker does with a job that it claimed. -/
inductive Resolution where
  | requeueJob (originalScore : ℚ)
  | scheduleRetry (originalScore delayS : ℚ) (avoidBackendId : Option BackendId)
  | setRunning (settings : Settings) (engineJobId backendUrl : String) (backendId : BackendId)
      (stateTtl : Nat)
  | setFailed (error : String) (stateTtl : Nat)

def Resolution.prog (now : ℚ) (jobId : JobId) : Resolution → RedisProg Unit
  | requeueJob originalScore => Taas.requeueJob jobId originalScore
  | scheduleRetry originalScore delayS avoidBackendId =>
    Taas.scheduleRetry now jobId originalScore delayS avoidBackendId
  | setRunning settings engineJobId backendUrl backendId stateTtl =>
    Taas.setRunning settings now jobId engineJobId backendUrl backendId stateTtl
  | setFailed error stateTtl => (fun _ => ()) <$> Taas.setFailed now jobId error stateTtl

/-- What a poller or the reaper does with a job. -/
inductive Outcome where
  | releaseDone (state : JobState) (run : EngineRun)
  | releaseAndRequeue (score : ℚ) (stateTtl : Nat) (delayS : ℚ)
      (avoidBackendId : Option BackendId)
  | scheduleNextPoll (at' : ℚ)
  | rescheduleHarvest (delayS : ℚ)
  | setDone (stateTtl : Nat) (state : Option JobState)
  | setFailed (error : String) (stateTtl : Nat)

def Outcome.prog (now : ℚ) (jobId : JobId) : Outcome → RedisProg Unit
  | releaseDone state run => (fun _ => ()) <$> Taas.releaseDone now jobId state run
  | releaseAndRequeue score stateTtl delayS avoidBackendId =>
    Taas.releaseAndRequeue now jobId score stateTtl delayS avoidBackendId
  | scheduleNextPoll at' => Taas.scheduleNextPoll jobId at' now
  | rescheduleHarvest delayS => Taas.rescheduleHarvest now jobId delayS
  | setDone stateTtl state => (fun _ => ()) <$> Taas.setDone now jobId stateTtl state
  | setFailed error stateTtl => (fun _ => ()) <$> Taas.setFailed now jobId error stateTtl

inductive Action where
  /-- Time passes. -/
  | wait (duration : ℚ)
  /-- A job's hash reaches the end of its TTL. -/
  | expire (jobId : JobId)
  | enqueueJobs (jobs : List (JobId × JobState)) (stateTtl : Nat)
  | promoteDueRetries
  | claimPending (entries : List QueueEntry)
  | dropPending (entries : List QueueEntry)
  | requeueOrphans (jobIds : List JobId)
  | resolve (jobId : JobId) (r : Resolution)
  | outcome (jobId : JobId) (o : Outcome)

namespace Action

/-- The call, with the ids it claimed. -/
def prog (claimGraceS now : ℚ) : Action → RedisProg (Finset JobId)
  | wait _ => pure ∅
  | expire jobId => (fun _ => ∅) <$> act (Redis.expireNow jobId)
  | enqueueJobs jobs stateTtl => (fun _ => ∅) <$> Taas.enqueueJobs jobs stateTtl
  | promoteDueRetries => (fun _ => ∅) <$> Taas.promoteDueRetries now now
  | claimPending entries => Taas.claimPending now entries
  | dropPending entries => (fun _ => ∅) <$> Taas.dropPending entries
  | requeueOrphans jobIds => (fun _ => ∅) <$> Taas.requeueOrphans jobIds now claimGraceS
  | resolve jobId r => (fun _ => ∅) <$> r.prog now jobId
  | outcome jobId o => (fun _ => ∅) <$> o.prog now jobId

def duration : Action → ℚ
  | wait d => d
  | _ => 0

/-- The claim of a resolved job is over. -/
def settle (claims : JobId → Option ℚ) : Action → JobId → Option ℚ
  | resolve jobId _ => Function.update claims jobId none
  | _ => claims

end Action

namespace World

variable (claimGraceS : ℚ)

/-- `w` after the whole call. -/
def act (w : World) (a : Action) : World :=
  let done := run (a.prog claimGraceS w.now) w.redis
  { redis := done.2
    now := w.now + a.duration
    claims := fun jobId => if jobId ∈ done.1 then some w.now else a.settle w.claims jobId }

/-- `w` after the caller died `n` commands into the call. What it claimed, nobody holds. -/
def cut (w : World) (a : Action) (n : Nat) : World :=
  { w with
    redis := after n (a.prog claimGraceS w.now) w.redis
    claims := a.settle w.claims }

end World

/-! ## Conditions on a run -/

/-- A call about one job that somebody decides to make. -/
inductive JobCall where
  | enqueue (state : JobState) (stateTtl : Nat)
  | resolve (r : Resolution)
  | outcome (o : Outcome)
  | expire

/-- When a call may be made: the clock, the job's claim and the job itself. -/
abbrev Condition := ℚ → Option ℚ → JobView → JobCall → Prop

/-- The condition on a call about job `jobId` in `w`. -/
def World.Allows (C : Condition) (w : World) (jobId : JobId) (call : JobCall) : Prop :=
  C w.now (w.claims jobId) (w.redis.view jobId) call

/-- The action meets the condition for every job it is about. Fresh jobs have distinct ids,
and jobs are dropped whose state is gone. -/
def World.Meets (C : Condition) (w : World) : Action → Prop
  | .wait d => 0 ≤ d
  | .expire jobId => w.Allows C jobId .expire
  | .enqueueJobs jobs stateTtl => (jobs.map Prod.fst).Nodup ∧
      ∀ job ∈ jobs, w.Allows C job.1 (.enqueue job.2 stateTtl)
  | .promoteDueRetries => True
  | .claimPending _ => True
  | .dropPending entries => ∀ entry ∈ entries, w.redis.state entry.jobId = none
  | .requeueOrphans _ => True
  | .resolve jobId r => w.Allows C jobId (.resolve r)
  | .outcome jobId o => w.Allows C jobId (.outcome o)

/-- The job was never heard of. -/
def JobView.empty : JobView := ⟨none, fun _ => none, none, False, none⟩

/-- A claim that is not older than the grace. -/
def Held (claimGraceS now : ℚ) (claim : Option ℚ) : Prop :=
  ∃ t, claim = some t ∧ now - t < claimGraceS

/-! ## One job at a time -/

theorem flatten_chunks {α : Type} {n : Nat} (hn : 0 < n) (l : List α) :
    (chunks n l).flatten = l := by
  have htake : ∀ k, ((List.range k).map fun i => (l.drop (i * n)).take n).flatten =
      l.take (k * n) := by
    intro k
    induction k with
    | zero => simp
    | succ k ih =>
      rw [List.range_succ, List.map_append, List.flatten_append, ih, Nat.succ_mul,
        List.take_add]
      simp
  rw [chunks, htake, List.take_of_length_le]
  have hdiv := Nat.div_add_mod (l.length + n - 1) n
  have hmod := Nat.mod_lt (l.length + n - 1) hn
  rw [Nat.mul_comm] at hdiv
  omega

theorem run_enqueueTransactions (stateTtl : Nat) (chunks : List (List (JobId × JobState)))
    (r : Redis) : run (enqueueTransactions stateTtl chunks) r =
      ((), chunks.flatten.foldl (Redis.enqueue stateTtl) r) := by
  induction chunks generalizing r with
  | nil => rfl
  | cons chunk rest ih =>
    rw [enqueueTransactions, run_bind, ih, List.flatten_cons, List.foldl_append]
    rfl

/-- The state of one job: its claim and its view. -/
abbrev JobCase := Option ℚ × JobView

namespace World

/-- What `w` says about a job. -/
def case (w : World) (jobId : JobId) : JobCase := (w.claims jobId, w.redis.view jobId)

/-- The store after a part of a call. -/
def put (w : World) (r : Redis) : World := { w with redis := r }

/-- The steps that change one job, or none. -/
inductive Micro (claimGraceS : ℚ) (C : Condition) (w : World) : World → Prop
  | wait {d : ℚ} (hd : 0 ≤ d) : Micro claimGraceS C w { w with now := w.now + d }
  | wake : Micro claimGraceS C w (w.put w.redis.rpushSubmit)
  | expire {jobId : JobId} (h : w.Allows C jobId .expire) :
      Micro claimGraceS C w (w.put (w.redis.expireNow jobId))
  | enqueue {jobId : JobId} {state : JobState} {stateTtl : Nat}
      (h : w.Allows C jobId (.enqueue state stateTtl)) :
      Micro claimGraceS C w (w.put (w.redis.enqueue stateTtl (jobId, state)))
  | promote (jobId : JobId) :
      Micro claimGraceS C w (w.put (run (promoteMember w.now jobId) w.redis).2)
  | claim (entry : QueueEntry) : Micro claimGraceS C w
      { w with
        redis := w.redis.claim w.now entry
        claims := if w.redis.claimable entry then
            Function.update w.claims entry.jobId (some w.now)
          else w.claims }
  | drop {entry : QueueEntry} (h : w.redis.state entry.jobId = none) :
      Micro claimGraceS C w (w.put (w.redis.zremPending entry.priority entry.jobId))
  | orphan (jobId : JobId) :
      Micro claimGraceS C w (w.put (w.redis.requeueOrphan w.now claimGraceS jobId))
  | resolve {jobId : JobId} {r : Resolution} (h : w.Allows C jobId (.resolve r)) :
      Micro claimGraceS C w
        { w with
          redis := (run (r.prog w.now jobId) w.redis).2
          claims := Function.update w.claims jobId none }
  | outcome {jobId : JobId} {o : Outcome} (h : w.Allows C jobId (.outcome o)) :
      Micro claimGraceS C w (w.put (run (o.prog w.now jobId) w.redis).2)

variable {claimGraceS : ℚ} {C : Condition}

/-- Any number of them. -/
abbrev Micros (claimGraceS : ℚ) (C : Condition) : World → World → Prop :=
  ReflTransGen (Micro claimGraceS C)

theorem micros_foldl_enqueue {stateTtl : Nat} {jobs : List (JobId × JobState)} {w : World}
    (hnodup : (jobs.map Prod.fst).Nodup)
    (h : ∀ job ∈ jobs, w.Allows C job.1 (.enqueue job.2 stateTtl)) :
    Micros claimGraceS C w (w.put (jobs.foldl (Redis.enqueue stateTtl) w.redis)) := by
  induction jobs generalizing w with
  | nil => exact ReflTransGen.refl
  | cons job jobs ih =>
    rw [List.map_cons, List.nodup_cons] at hnodup
    refine ReflTransGen.head (Micro.enqueue (h job (List.mem_cons_self ..))) ?_
    refine ih hnodup.2 fun job' hjob' => ?_
    have hne : job'.1 ≠ job.1 := fun he => hnodup.1 (he ▸ List.mem_map_of_mem hjob')
    have hview : (w.redis.enqueue stateTtl job).view job'.1 = w.redis.view job'.1 := by
      rw [views_enqueue, Function.update_of_ne hne]
    have hold := h job' (List.mem_cons_of_mem _ hjob')
    unfold Allows put at *
    rwa [hview]

theorem micros_wake {w : World} (c : Bool) :
    Micros claimGraceS C w (w.put (run (when c signalSubmit) w.redis).2) := by
  rw [run_when]
  split
  · exact ReflTransGen.single Micro.wake
  · exact ReflTransGen.refl

theorem micros_enqueueJobs {stateTtl : Nat} {jobs : List (JobId × JobState)} {w : World}
    (hnodup : (jobs.map Prod.fst).Nodup)
    (h : ∀ job ∈ jobs, w.Allows C job.1 (.enqueue job.2 stateTtl)) :
    Micros claimGraceS C w (w.put (run (enqueueJobs jobs stateTtl) w.redis).2) := by
  rw [enqueueJobs, run_bind, run_enqueueTransactions, flatten_chunks (by decide)]
  exact (micros_foldl_enqueue hnodup h).trans (micros_wake _)

theorem micros_promoteMembers (jobIds : List JobId) (w : World) :
    Micros claimGraceS C w (w.put (run (promoteMembers w.now jobIds) w.redis).2) := by
  induction jobIds generalizing w with
  | nil => exact ReflTransGen.refl
  | cons jobId jobIds ih =>
    rw [promoteMembers, run_bind, run_bind, run_pure]
    exact ReflTransGen.head (Micro.promote jobId)
      (ih (w.put (run (promoteMember w.now jobId) w.redis).2))

theorem run_claimPending_cons (now : ℚ) (entry : QueueEntry) (entries : List QueueEntry)
    (r : Redis) : Prog.run (claimPending now (entry :: entries)) r =
      (if r.claimable entry then
        insert entry.jobId (Prog.run (claimPending now entries) (r.claim now entry)).1
      else (Prog.run (claimPending now entries) (r.claim now entry)).1,
      (Prog.run (claimPending now entries) (r.claim now entry)).2) := by
  rw [claimPending, run_bind, run_bind]
  rfl

theorem micros_claimPending (entries : List QueueEntry) (w : World) :
    Micros claimGraceS C w
      { w with
        redis := (run (claimPending w.now entries) w.redis).2
        claims := fun jobId =>
          if jobId ∈ (run (claimPending w.now entries) w.redis).1 then some w.now
          else w.claims jobId } := by
  induction entries generalizing w with
  | nil =>
    simp only [claimPending, run_pure, Finset.notMem_empty, if_false]
    exact ReflTransGen.refl
  | cons entry entries ih =>
    refine ReflTransGen.head (Micro.claim entry) ?_
    convert ih _ using 1
    rw [run_claimPending_cons]
    congr 1
    funext jobId
    by_cases hc : w.redis.claimable entry
    · by_cases hj : jobId = entry.jobId
      · simp [hc, hj]
      · simp [hc, hj]
    · simp [hc]

theorem micros_dropPending {entries : List QueueEntry} {w : World}
    (h : ∀ entry ∈ entries, w.redis.state entry.jobId = none) :
    Micros claimGraceS C w (w.put (run (dropPending entries) w.redis).2) := by
  induction entries generalizing w with
  | nil => exact ReflTransGen.refl
  | cons entry entries ih =>
    refine ReflTransGen.head (Micro.drop (h entry (List.mem_cons_self ..))) ?_
    exact ih fun entry' he => h entry' (List.mem_cons_of_mem _ he)

theorem micros_requeueOrphanScripts (jobIds : List JobId) (w : World) :
    Micros claimGraceS C w
      (w.put (run (requeueOrphanScripts w.now claimGraceS jobIds) w.redis).2) := by
  induction jobIds generalizing w with
  | nil => exact ReflTransGen.refl
  | cons jobId jobIds ih =>
    rw [requeueOrphanScripts, run_bind, run_bind, run_pure]
    exact ReflTransGen.head (Micro.orphan jobId)
      (ih (w.put (w.redis.requeueOrphan w.now claimGraceS jobId)))

/-- **A whole call is made of steps that change one job each.** -/
theorem micros_of_act {w : World} {a : Action} (h : w.Meets C a) :
    Micros claimGraceS C w (w.act claimGraceS a) := by
  have hput : ∀ {α : Type} (p : RedisProg α), a.prog claimGraceS w.now = (fun _ => ∅) <$> p →
      a.duration = 0 → a.settle w.claims = w.claims →
      w.act claimGraceS a = w.put (run p w.redis).2 := by
    intro α p hp hd hs
    simp only [act, hp, hd, hs, put, run_map, Finset.notMem_empty, if_false, add_zero]
  cases a with
  | wait d =>
    have hw : w.act claimGraceS (.wait d) = { w with now := w.now + d } := by
      simp [act, Action.prog, Action.duration, Action.settle]
    rw [hw]
    exact ReflTransGen.single (Micro.wait h)
  | expire jobId =>
    rw [hput _ rfl rfl rfl]
    exact ReflTransGen.single (Micro.expire h)
  | enqueueJobs jobs stateTtl =>
    rw [hput _ rfl rfl rfl]
    exact micros_enqueueJobs h.1 h.2
  | promoteDueRetries =>
    rw [hput _ rfl rfl rfl]
    exact micros_promoteMembers _ w
  | claimPending entries =>
    have hw : w.act claimGraceS (.claimPending entries) =
        { w with
          redis := (run (claimPending w.now entries) w.redis).2
          claims := fun jobId =>
            if jobId ∈ (run (claimPending w.now entries) w.redis).1 then some w.now
            else w.claims jobId } := by
      simp only [act, Action.prog, Action.duration, Action.settle, add_zero]
      rfl
    rw [hw]
    exact micros_claimPending entries w
  | dropPending entries =>
    rw [hput _ rfl rfl rfl]
    exact micros_dropPending h
  | requeueOrphans jobIds =>
    rw [hput _ rfl rfl rfl, requeueOrphans, run_bind, run_bind, run_pure]
    exact (micros_requeueOrphanScripts jobIds w).trans (micros_wake _)
  | resolve jobId r =>
    have hw : w.act claimGraceS (.resolve jobId r) =
        { w with
          redis := (run (r.prog w.now jobId) w.redis).2
          claims := Function.update w.claims jobId none } := by
      simp [act, Action.prog, Action.duration, Action.settle]
    rw [hw]
    exact ReflTransGen.single (Micro.resolve h)
  | outcome jobId o =>
    rw [hput _ rfl rfl rfl]
    exact ReflTransGen.single (Micro.outcome h)

end World

/-! ## What happens to the job -/

/-- The job after a resolution. -/
def Resolution.apply (now : ℚ) (r : Resolution) (v : JobView) : JobView :=
  match r with
  | requeueJob originalScore => v.zaddPending v.level originalScore
  | scheduleRetry originalScore delayS avoidBackendId =>
    v.delay now originalScore delayS avoidBackendId
  | setRunning settings engineJobId backendUrl backendId stateTtl =>
    v.run settings now engineJobId backendUrl backendId stateTtl
  | setFailed error stateTtl => (v.markFailed now error stateTtl).sremInflight

theorem views_resolution (r : Redis) (jobId : JobId) (now : ℚ) (res : Resolution) :
    (run (res.prog now jobId) r).2.view =
      Function.update r.view jobId (res.apply now (r.view jobId)) := by
  cases res with
  | requeueJob originalScore => exact views_requeueJob r jobId originalScore
  | scheduleRetry originalScore delayS avoidBackendId =>
    exact views_scheduleRetry r jobId now originalScore delayS avoidBackendId
  | setRunning settings engineJobId backendUrl backendId stateTtl =>
    exact views_setRunning r jobId settings now engineJobId backendUrl backendId stateTtl
  | setFailed error stateTtl =>
    rw [Resolution.prog, run_map]
    exact views_setFailed r jobId now error stateTtl

open Classical in
/-- The job after an outcome. -/
noncomputable def Outcome.apply (now : ℚ) (o : Outcome) (v : JobView) : JobView :=
  match o with
  | releaseDone _ run => if v.inflight then v.release now run else v
  | releaseAndRequeue score stateTtl delayS avoidBackendId =>
    (v.backToQueued.cleared stateTtl).requeued now score delayS avoidBackendId v.level
  | scheduleNextPoll at' => v.hset (JobHash.polled at' now)
  | rescheduleHarvest delayS => v.reharvest now delayS
  | setDone stateTtl _ => v.finishDone now stateTtl
  | setFailed error stateTtl => (v.markFailed now error stateTtl).sremInflight

theorem views_outcome (r : Redis) (jobId : JobId) (now : ℚ) (o : Outcome) :
    (run (o.prog now jobId) r).2.view =
      Function.update r.view jobId (o.apply now (r.view jobId)) := by
  cases o with
  | releaseDone state engineRun =>
    rw [Outcome.prog, run_map, views_releaseDone, Outcome.apply]
    split
    · next h => exact views_releaseDone_of_inflight r jobId h
    · next h => rw [releaseDone_of_not_inflight r jobId h, Function.update_eq_self]
  | releaseAndRequeue score stateTtl delayS avoidBackendId =>
    exact views_releaseAndRequeue r jobId now score stateTtl delayS avoidBackendId
  | scheduleNextPoll at' => exact views_scheduleNextPoll r jobId at' now
  | rescheduleHarvest delayS => exact views_rescheduleHarvest r jobId now delayS
  | setDone stateTtl state =>
    rw [Outcome.prog, run_map]
    exact views_setDone r jobId now stateTtl state
  | setFailed error stateTtl =>
    rw [Outcome.prog, run_map]
    exact views_setFailed r jobId now error stateTtl

/-- What a step that is about one job makes of it. -/
inductive Move (claimGraceS : ℚ) (C : Condition) (now : ℚ) : JobCase → JobCase → Prop
  | expire {c : Option ℚ} {v : JobView} (h : C now c v .expire) :
      Move claimGraceS C now (c, v) (c, v.expired)
  | enqueue {c : Option ℚ} {v : JobView} {state : JobState} {stateTtl : Nat}
      (h : C now c v (.enqueue state stateTtl)) :
      Move claimGraceS C now (c, v) (c, v.enqueued stateTtl state)
  | promote {c : Option ℚ} {v : JobView} (h : v.delayed ≠ none) :
      Move claimGraceS C now (c, v) (c, v.promote now)
  | claim {c : Option ℚ} {v : JobView} {priority : Int} (hp : v.pending priority ≠ none)
      (hh : v.hash ≠ none) : Move claimGraceS C now (c, v) (some now, v.claim now priority)
  | drop {c : Option ℚ} {v : JobView} {priority : Int} (h : v.state = none) :
      Move claimGraceS C now (c, v) (c, v.zremPending priority)
  | orphan {c : Option ℚ} {v : JobView} {h : JobHash} (ho : v.Orphaned now claimGraceS h) :
      Move claimGraceS C now (c, v)
        (c, v.zaddPending (h.priority.getD 0) (h.submittedAt.getD now))
  | resolve {c : Option ℚ} {v : JobView} {r : Resolution} (h : C now c v (.resolve r)) :
      Move claimGraceS C now (c, v) (none, r.apply now v)
  | outcome {c : Option ℚ} {v : JobView} {o : Outcome} (h : C now c v (.outcome o)) :
      Move claimGraceS C now (c, v) (c, o.apply now v)

theorem Move.mono {claimGraceS now : ℚ} {C D : Condition} {x y : JobCase}
    (h : Move claimGraceS C now x y) (hCD : ∀ {c v call}, C now c v call → D now c v call) :
    Move claimGraceS D now x y := by
  cases h with
  | expire h => exact .expire (hCD h)
  | enqueue h => exact .enqueue (hCD h)
  | promote h => exact .promote h
  | claim hp hh => exact .claim hp hh
  | drop h => exact .drop h
  | orphan ho => exact .orphan ho
  | resolve h => exact .resolve (hCD h)
  | outcome h => exact .outcome (hCD h)

namespace World

variable {claimGraceS : ℚ} {C : Condition}

/-- `w'` differs from `w` in the case of `jobId` at most, which made a move. -/
structure Moved (claimGraceS : ℚ) (C : Condition) (w w' : World) (jobId : JobId) : Prop where
  now : w'.now = w.now
  others : ∀ k, k ≠ jobId → w'.case k = w.case k
  move : Move claimGraceS C w.now (w.case jobId) (w'.case jobId)

theorem moved_of_views {w : World} {r : Redis} {jobId : JobId} {v : JobView}
    {claims : JobId → Option ℚ} {c : Option ℚ}
    (hr : r.view = Function.update w.redis.view jobId v)
    (hc : claims = Function.update w.claims jobId c)
    (hm : Move claimGraceS C w.now (w.case jobId) (c, v)) :
    Moved claimGraceS C w { w with redis := r, claims := claims } jobId where
  now := rfl
  others k hk := by simp [case, hr, hc, hk]
  move := by simpa [case, hr, hc] using hm

theorem case_eq_of_views {w w' : World} (hr : w'.redis.view = w.redis.view)
    (hc : w'.claims = w.claims) : w'.case = w.case := by
  funext k
  rw [case, case, hr, hc]

theorem claimable_iff (r : Redis) (entry : QueueEntry) : r.claimable entry = true ↔
    (r.view entry.jobId).pending entry.priority ≠ none ∧ (r.view entry.jobId).hash ≠ none := by
  rw [Redis.claimable, ← Redis.view_pending, ← Redis.view_hash, Bool.and_eq_true,
    Option.isSome_iff_ne_none, Option.isSome_iff_ne_none]

/-- **Every step is a wait, changes no job, or moves one job.** -/
theorem Micro.cases {w w' : World} (h : Micro claimGraceS C w w') :
    (∃ d, 0 ≤ d ∧ w' = { w with now := w.now + d }) ∨
    (w'.now = w.now ∧ w'.case = w.case) ∨ ∃ jobId, Moved claimGraceS C w w' jobId := by
  have hself : ∀ jobId, w.claims = Function.update w.claims jobId (w.claims jobId) :=
    fun jobId => (Function.update_eq_self jobId w.claims).symm
  cases h with
  | @wait d hd => exact Or.inl ⟨d, hd, rfl⟩
  | wake => exact Or.inr (Or.inl ⟨rfl, rfl⟩)
  | @expire jobId h =>
    exact Or.inr (Or.inr ⟨jobId, moved_of_views (Redis.views_expireNow _ jobId) (hself jobId)
      (Move.expire h)⟩)
  | @enqueue jobId state stateTtl h =>
    exact Or.inr (Or.inr ⟨jobId, moved_of_views (views_enqueue _ jobId stateTtl state)
      (hself jobId) (Move.enqueue h)⟩)
  | promote jobId =>
    by_cases hd : (w.redis.view jobId).delayed = none
    · refine Or.inr (Or.inl ⟨rfl, case_eq_of_views ?_ rfl⟩)
      have hv : (w.redis.view jobId).promote w.now = w.redis.view jobId := by
        rw [JobView.promote, hd]
      rw [put, views_promoteMember, hv, Function.update_eq_self]
    · exact Or.inr (Or.inr ⟨jobId, moved_of_views (views_promoteMember _ jobId w.now)
        (hself jobId) (Move.promote hd)⟩)
  | claim entry =>
    have hview := views_claim w.redis w.now entry
    by_cases hp : (w.redis.view entry.jobId).pending entry.priority = none
    · refine Or.inr (Or.inl ⟨rfl, case_eq_of_views ?_ (if_neg ?_)⟩)
      · rw [hview, JobView.claim, if_pos hp, Function.update_eq_self]
      · rw [claimable_iff]
        exact fun h => h.1 hp
    · by_cases hh : (w.redis.view entry.jobId).hash = none
      · -- the ZSET member is gone, but there is no hash to claim
        have hgone : (w.redis.view entry.jobId).claim w.now entry.priority =
            (w.redis.view entry.jobId).zremPending entry.priority := by
          rw [JobView.claim, if_neg hp]
          ext <;> simp [JobView.hmod, JobView.zremPending, hh]
        rw [hgone] at hview
        refine Or.inr (Or.inr ⟨entry.jobId, moved_of_views hview ?_ (Move.drop ?_)⟩)
        · rw [if_neg, ← hself]
          rw [claimable_iff]
          exact fun h => h.2 hh
        · rw [JobView.state, hh, Option.bind_none]
      · exact Or.inr (Or.inr ⟨entry.jobId, moved_of_views hview
          (if_pos ((claimable_iff _ _).mpr ⟨hp, hh⟩)) (Move.claim hp hh)⟩)
  | @drop entry h =>
    exact Or.inr (Or.inr ⟨entry.jobId, moved_of_views
      (Redis.views_zremPending _ entry.jobId entry.priority) (hself _) (Move.drop h)⟩)
  | orphan jobId =>
    by_cases ho : ∃ h, (w.redis.view jobId).Orphaned w.now claimGraceS h
    · obtain ⟨h, ho⟩ := ho
      exact Or.inr (Or.inr ⟨jobId, moved_of_views (views_requeueOrphan_of_orphaned _ jobId ho)
        (hself jobId) (Move.orphan ho)⟩)
    · refine Or.inr (Or.inl ⟨rfl, case_eq_of_views ?_ rfl⟩)
      rw [put, requeueOrphan_of_not _ jobId (not_exists.mp ho)]
  | @resolve jobId r h =>
    exact Or.inr (Or.inr ⟨jobId, moved_of_views (views_resolution _ jobId _ r) rfl
      (Move.resolve h)⟩)
  | @outcome jobId o h =>
    exact Or.inr (Or.inr ⟨jobId, moved_of_views (views_outcome _ jobId _ o) (hself jobId)
      (Move.outcome h)⟩)

/-! ## Invariants of single jobs -/

/-- `I` holds of every job. -/
def EachJob (I : JobId → ℚ → JobCase → Prop) (w : World) : Prop :=
  ∀ jobId, I jobId w.now (w.case jobId)

theorem eachJob_micro {I : JobId → ℚ → JobCase → Prop}
    (hwait : ∀ j now d x, 0 ≤ d → I j now x → I j (now + d) x)
    (hmove : ∀ j now x y, Move claimGraceS C now x y → I j now x → I j now y) {w w' : World}
    (hm : Micro claimGraceS C w w') (h : w.EachJob I) : w'.EachJob I := by
  rcases hm.cases with ⟨d, hd, rfl⟩ | ⟨hn, hc⟩ | ⟨jobId, hn, hothers, hmv⟩
  · exact fun k => hwait _ _ _ _ hd (h k)
  · intro k
    rw [hn, hc]
    exact h k
  · intro k
    rw [hn]
    by_cases hk : k = jobId
    · rw [hk]
      exact hmove _ _ _ _ hmv (h jobId)
    · rw [hothers k hk]
      exact h k

/-- **What every step keeps, every whole call keeps.** -/
theorem act_of_micro {P : World → Prop} (hstep : ∀ w w', Micro claimGraceS C w w' → P w → P w')
    {w : World} {a : Action} (ha : w.Meets C a) (h : P w) : P (w.act claimGraceS a) := by
  have hsteps : Micros claimGraceS C w (w.act claimGraceS a) := micros_of_act ha
  generalize w.act claimGraceS a = w' at hsteps ⊢
  induction hsteps with
  | refl => exact h
  | tail _ hm ih => exact hstep _ _ hm ih

theorem eachJob_act {I : JobId → ℚ → JobCase → Prop}
    (hwait : ∀ j now d x, 0 ≤ d → I j now x → I j (now + d) x)
    (hmove : ∀ j now x y, Move claimGraceS C now x y → I j now x → I j now y) {w : World}
    {a : Action} (ha : w.Meets C a) (h : w.EachJob I) : (w.act claimGraceS a).EachJob I :=
  act_of_micro (fun _ _ hm => eachJob_micro hwait hmove hm) ha h

/-! ## Runs of whole calls -/

/-- Nothing in Redis, and no claims. -/
def initial (now : ℚ) : World := { now := now }

abbrev run (claimGraceS : ℚ) (w : World) (actions : List Action) : World :=
  actions.foldl (act claimGraceS) w

/-- Every call of the run meets the condition. -/
abbrev ObeysCalls (claimGraceS : ℚ) (C : Condition) : World → List Action → Prop :=
  Obeys (act claimGraceS) (Meets C)

theorem case_initial (now : ℚ) (jobId : JobId) :
    (initial now).case jobId = (none, JobView.empty) :=
  Prod.ext rfl (by ext <;> simp [case, initial, Redis.view, JobView.empty])

end World

end Taas

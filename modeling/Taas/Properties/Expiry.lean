import Taas.Infra.Debts
import Taas.Properties.Commands
import Taas.System

/-!
# Job hashes expire

A write to a job's hash that is gone makes a new one, which has no TTL until an `EXPIRE`.

* `Redis.Expiring` — the job's hash has a TTL, if it is there.
* `Blind` — the writes that no `EXPIRE` follows.
* `minds_prog` — every call brings its own hash in order, blind writes to missing hashes apart.
* `expiring_of_run` — when all calls have completed, every hash has a TTL.
-/

namespace Taas

open Infra Infra.Prog

/-- The job's hash does not live forever. -/
def Redis.Expiring (jobId : JobId) (r : Redis) : Prop :=
  ∀ h, r.jobs.lookup jobId = some h → h.ttl ≠ none

/-- The writes of `schedule_retry`, `count_requeue`, `schedule_next_poll` and
`reschedule_harvest`. -/
inductive Blind (jobId : JobId) : (Redis → Redis) → Prop
  | scored (score : ℚ) : Blind jobId (Redis.hset jobId (JobHash.scored score))
  | avoiding (backends : Finset BackendId) :
      Blind jobId (Redis.hset jobId (JobHash.avoiding backends))
  | requeued : Blind jobId
      (Redis.hset jobId fun h => { h with requeues := some (h.requeues.getD 0 + 1) })
  | polled (at' now : ℚ) : Blind jobId (Redis.hset jobId (JobHash.polled at' now))
  | attempted (now delayS : ℚ) : Blind jobId
      fun r => (r.hset jobId JobHash.attempted).zaddHarvest jobId (now + delayS)

/-- A blind write is executed only while the job's hash is there. -/
def Sighted (effect : Redis → Redis) (r : Redis) : Prop :=
  ∀ jobId, Blind jobId effect → r.jobs.lookup jobId ≠ none

/-! ## What the commands do to the TTLs -/

namespace Redis

variable {r : Redis} {j k : JobId}

theorem expiring_hset {f : JobHash → JobHash} (hj : r.jobs.lookup j ≠ none)
    (hf : ∀ h, (f h).ttl = h.ttl) (hk : r.Expiring k) : (r.hset j f).Expiring k := by
  intro h hh
  by_cases hkj : k = j
  · subst hkj
    obtain ⟨h₀, hh₀⟩ := Option.ne_none_iff_exists'.mp hj
    have heq : f h₀ = h := by simpa [hset, hh₀] using hh
    rw [← heq, hf]
    exact hk h₀ hh₀
  · exact hk h (by simpa [hset, Finmap.lookup_insert_of_ne _ hkj] using hh)

/-- Another job's hash is not written. -/
theorem expiring_hset_of_ne {f : JobHash → JobHash} (hkj : k ≠ j) (hk : r.Expiring k) :
    (r.hset j f).Expiring k :=
  fun h hh => hk h (by simpa [hset, Finmap.lookup_insert_of_ne _ hkj] using hh)

theorem lookup_hmod (f : JobHash → JobHash) : (r.hmod j f).jobs.lookup k =
    if k = j then (r.jobs.lookup k).map f else r.jobs.lookup k := by
  have hview := congrFun (views_hmod r j f) k
  have hhash : ((r.hmod j f).view k).hash = (r.hmod j f).jobs.lookup k := rfl
  rw [← hhash, hview]
  by_cases hkj : k = j
  · subst hkj
    rw [Function.update_self, if_pos rfl]
    rfl
  · rw [Function.update_of_ne hkj, if_neg hkj]
    rfl

theorem expiring_hmod {f : JobHash → JobHash} (hf : ∀ h, h.ttl ≠ none → (f h).ttl ≠ none)
    (hk : r.Expiring k) : (r.hmod j f).Expiring k := by
  intro h hh
  rw [lookup_hmod] at hh
  split at hh
  · obtain ⟨h₀, hh₀, rfl⟩ := Option.map_eq_some_iff.mp hh
    exact hf h₀ (hk h₀ hh₀)
  · exact hk h hh

/-- After an `EXPIRE` the job's hash has a TTL. -/
theorem expiring_expire (ttl : Nat) : (r.expire j ttl).Expiring j := by
  intro h hh
  rw [expire, lookup_hmod, if_pos rfl] at hh
  obtain ⟨h₀, -, rfl⟩ := Option.map_eq_some_iff.mp hh
  exact Option.some_ne_none ttl

theorem expiring_expire_other (ttl : Nat) (hk : r.Expiring k) : (r.expire j ttl).Expiring k :=
  expiring_hmod (fun _ _ => Option.some_ne_none ttl) hk

theorem expiring_expireNow (hk : r.Expiring k) : (r.expireNow j).Expiring k := by
  intro h hh
  by_cases hkj : k = j
  · subst hkj
    simp [expireNow] at hh
  · exact hk h (by simpa [expireNow, Finmap.lookup_erase_ne hkj] using hh)

end Redis

/-! ## Commands that keep the TTLs -/

/-- Wherever the command may be executed, a hash with a TTL keeps one. -/
def Steady (effect : Redis → Redis) (_ : Redis → List Event) : Prop :=
  ∀ r, Sighted effect r → ∀ jobId, r.Expiring jobId → (effect r).Expiring jobId

variable {log : Redis → List Event}

theorem steady_of_jobs {effect : Redis → Redis} (h : ∀ r, (effect r).jobs = r.jobs) :
    Steady effect log := by
  intro r _ jobId hexp hash hhash
  rw [h] at hhash
  exact hexp hash hhash

theorem steady_of_keeps {effect : Redis → Redis}
    (h : ∀ r jobId, r.Expiring jobId → (effect r).Expiring jobId) : Steady effect log :=
  fun r _ jobId => h r jobId

theorem steady_hset {jobId : JobId} {f : JobHash → JobHash} (hblind : Blind jobId (Redis.hset jobId f))
    (hf : ∀ h, (f h).ttl = h.ttl) : Steady (Redis.hset jobId f) log :=
  fun _ hsight _ => Redis.expiring_hset (hsight jobId hblind) hf

/-- A program that touches no hash. -/
theorem each_hashless {α : Type} {p : RedisProg α} (h : Each Hashless p) : Each Steady p :=
  h.mono fun _ _ => steady_of_jobs

theorem each_scheduleRetry (now : ℚ) (jobId : JobId) (score delayS : ℚ)
    (avoid : Option BackendId) : Each Steady (scheduleRetry now jobId score delayS avoid) := by
  refine Each.bind (each_call (steady_hset (.scored score) fun _ => rfl)) fun _ =>
    Each.bind ?_ fun _ => each_hashless (hashless_call fun _ => rfl)
  cases avoid with
  | none => exact each_pure _
  | some backendId =>
    exact Each.bind (each_hashless (hashless_call fun _ => rfl)) fun existing =>
      each_call (steady_hset (.avoiding _) fun _ => rfl)

theorem Redis.expiring_enqueue {r : Redis} {jobId : JobId} (stateTtl : Nat)
    (job : JobId × JobState) (hexp : r.Expiring jobId) : (r.enqueue stateTtl job).Expiring jobId := by
  have hjobs : ((r.hset job.1 job.2.toHash.overlay).expire job.1 stateTtl).Expiring jobId := by
    by_cases hjob : jobId = job.1
    · subst hjob
      exact expiring_expire stateTtl
    · exact expiring_expire_other stateTtl (expiring_hset_of_ne hjob hexp)
  exact hjobs

theorem steady_enqueue (stateTtl : Nat) (jobs : List (JobId × JobState)) :
    Steady (fun r => jobs.foldl (Redis.enqueue stateTtl) r) log := by
  refine steady_of_keeps fun r jobId hexp => ?_
  induction jobs generalizing r with
  | nil => exact hexp
  | cons job jobs ih => exact ih _ (Redis.expiring_enqueue stateTtl job hexp)

theorem each_enqueueJobs (jobs : List (JobId × JobState)) (stateTtl : Nat) :
    Each Steady (enqueueJobs jobs stateTtl) := by
  refine Each.bind ?_ fun _ => each_hashless hashless_counters.signalSubmit.when
  induction chunks enqueueChunk jobs with
  | nil => exact each_pure _
  | cons chunk rest ih => exact Each.bind (each_callLog (steady_enqueue stateTtl chunk)) fun _ => ih

/-- `_CLAIM_LUA` writes to no hash that is gone. -/
theorem steady_claim (now : ℚ) (entry : QueueEntry) : Steady (Redis.claim now entry) log := by
  refine steady_of_keeps fun r jobId hexp => ?_
  unfold Redis.claim
  split
  · exact hexp
  · split
    · exact hexp
    · next hhash => exact Redis.expiring_hset hhash (fun _ => rfl) hexp

theorem each_claimPending (now : ℚ) (entries : List QueueEntry) :
    Each Steady (claimPending now entries) := by
  induction entries with
  | nil => exact each_pure _
  | cons entry entries ih =>
    exact Each.bind (each_callLog (steady_claim now entry)) fun _ => ih.bind fun _ => each_pure _

/-- The transaction of `set_failed` ends with an `EXPIRE` and an `HDEL`. -/
theorem steady_markFailed (now : ℚ) (j : JobId) (error : String) (stateTtl : Nat) :
    Steady (Redis.markFailed now j error stateTtl) log := by
  refine steady_of_keeps fun r jobId hexp => ?_
  refine Redis.expiring_hmod (fun _ h => h) ?_
  have hset : ((r.hset j (JobHash.failed now error)).expire j stateTtl).Expiring jobId := by
    by_cases hj : jobId = j
    · subst hj
      exact Redis.expiring_expire stateTtl
    · exact Redis.expiring_expire_other stateTtl (Redis.expiring_hset_of_ne hj hexp)
  exact hset

theorem each_setFailed (now : ℚ) (jobId : JobId) (error : String) (stateTtl : Nat) :
    Each Steady (setFailed now jobId error stateTtl) := by
  refine (each_hashless (hashless_getJob jobId)).bind fun state =>
    (each_hashless (hashless_countBatchPage _ _)).bind fun _ =>
      Each.bind (each_call (steady_markFailed _ _ _ _)) fun _ => each_hashless ?_
  exact Each.bind (hashless_call fun _ => rfl) fun removed =>
    (hashless_counters.countFailed removed state).bind fun _ =>
      hashless_counters.signalSubmit.when.bind fun _ =>
        (hashless_counters.releaseSlot removed state).bind fun _ =>
          hashless_counters.signalSubmit.when.bind fun _ => each_pure _

/-- `_RELEASE_DONE_LUA` writes to no hash that is gone. -/
theorem steady_releaseDone (now : ℚ) (j : JobId) (state : JobState) (engineRun : EngineRun) :
    Steady (Redis.releaseDone now j state engineRun) log := by
  refine steady_of_keeps fun r jobId hexp => ?_
  unfold Redis.releaseDone
  split
  · intro h hh
    rw [Redis.jobs_countReleased] at hh
    refine Redis.expiring_hmod (f := JobHash.storing engineRun) (fun _ h => h) ?_ h hh
    exact hexp
  · exact hexp

theorem each_releaseDone (now : ℚ) (jobId : JobId) (state : JobState) (engineRun : EngineRun) :
    Each Steady (releaseDone now jobId state engineRun) :=
  Each.bind (each_call (steady_releaseDone _ _ _ _)) fun _ =>
    (each_hashless hashless_counters.signalSubmit.when).bind fun _ => each_pure _

theorem each_rescheduleHarvest (now : ℚ) (jobId : JobId) (delayS : ℚ) :
    Each Steady (rescheduleHarvest now jobId delayS) := by
  refine each_call fun r hsight k hexp => ?_
  have hset : (r.hset jobId JobHash.attempted).Expiring k :=
    Redis.expiring_hset (hsight jobId (.attempted now delayS)) (fun _ => rfl) hexp
  exact hset

/-! ## What a call leaves without a TTL it still owes -/

/-- What a call does to the TTLs. -/
abbrev MindsTtls {α : Type} (p : RedisProg α) : Prop :=
  p.Minds (fun jobId r => Redis.Expiring jobId r) Sighted

theorem MindsTtls.of_each {α : Type} {p : RedisProg α} (hp : Each Steady p) : MindsTtls p :=
  minds_of_each (fun _ _ h => h) hp

/-- A write that may make a new hash, with the `EXPIRE` still to come. -/
theorem minds_hset {α : Type} {jobId : JobId} {f : JobHash → JobHash} {rest : Unit → RedisProg α}
    (hrest : MindsTtls (rest ()))
    (howes : (rest ()).Owes (fun jobId r => Redis.Expiring jobId r) jobId) :
    MindsTtls (act (Redis.hset jobId f) >>= rest) := by
  refine minds_act hrest fun r _ k hexp => ?_
  by_cases hk : k = jobId
  · subst hk
    exact Or.inr howes
  · exact Or.inl (Redis.expiring_hset_of_ne hk hexp)

theorem owes_expire {α : Type} (jobId : JobId) (ttl : Nat) (rest : Unit → RedisProg α) :
    (act (Redis.expire jobId ttl) >>= rest).Owes (fun jobId r => Redis.Expiring jobId r) jobId :=
  owes_now (fun _ => Redis.expiring_expire ttl) rest

theorem each_expire (jobId : JobId) (ttl : Nat) :
    Each Steady (act (Redis.expire jobId ttl) : RedisProg Unit) :=
  each_call (steady_of_keeps fun _ _ => Redis.expiring_expire_other ttl)

theorem minds_setRunning (settings : Settings) (now : ℚ) (jobId : JobId)
    (engineJobId backendUrl : String) (backendId : BackendId) (stateTtl : Nat) :
    MindsTtls (setRunning settings now jobId engineJobId backendUrl backendId stateTtl) := by
  refine minds_hset (.of_each ?_) (owes_expire jobId stateTtl _)
  refine (each_expire jobId stateTtl).bind fun _ => each_hashless ?_
  exact Each.bind (hashless_call fun _ => rfl) fun added =>
    (hashless_enteredInflight jobId backendId).when.bind fun _ => hashless_call fun _ => rfl

theorem minds_setDone (now : ℚ) (jobId : JobId) (stateTtl : Nat) (state : Option JobState) :
    MindsTtls (setDone now jobId stateTtl state) := by
  refine (MindsTtls.of_each (each_hashless (hashless_doneState jobId state))).bind fun state =>
    (MindsTtls.of_each (each_hashless (hashless_countBatchPage _ _))).bind fun batch =>
      minds_hset (.of_each ?_) (owes_expire jobId stateTtl _)
  refine (each_expire jobId stateTtl).bind fun _ =>
    Each.bind (each_hashless (hashless_call fun _ => rfl)) fun removed =>
      Each.bind (each_hashless (hashless_call fun _ => rfl)) fun harvestRemoved =>
        Each.bind (each_call ?_) fun _ => each_hashless ?_
  · exact steady_of_keeps fun _ _ => Redis.expiring_hmod fun _ h => h
  · exact (hashless_counters.settleDone _ _ _).bind fun _ => each_pure _

theorem minds_releaseAndRequeue (now : ℚ) (jobId : JobId) (score : ℚ) (stateTtl : Nat) (delayS : ℚ)
    (avoid : Option BackendId) :
    MindsTtls (releaseAndRequeue now jobId score stateTtl delayS avoid) := by
  refine (MindsTtls.of_each (each_hashless (hashless_giveUpSlot jobId))).bind fun state =>
    minds_hset (.of_each ?_) ?_
  · refine Each.bind (each_call ?_) fun _ =>
      Each.bind (each_hashless (hashless_call fun _ => rfl)) fun _ =>
        (each_expire jobId stateTtl).bind fun _ => ?_
    · exact steady_of_keeps fun _ _ => Redis.expiring_hmod fun _ h => h
    · unfold requeueReleased
      split
      · exact each_scheduleRetry _ _ _ _ _
      · exact each_hashless (hashless_addPending _ _ _)
  · -- the `EXPIRE` comes after the `HDEL` and the `ZREM`
    exact owes_later (owes_later (owes_expire jobId stateTtl _))

/-! ## Whole runs -/

/-- A call of a state function, at a time; or a hash's end. -/
inductive HashCall where
  | act (claimGraceS now : ℚ) (a : Action)
  | countRequeue (jobId : JobId)

def HashCall.prog : HashCall → RedisProg Unit
  | act claimGraceS now a => (fun _ => ()) <$> a.prog claimGraceS now
  | countRequeue jobId => Taas.countRequeue jobId

/-- One call after another. -/
def caller : List HashCall → RedisProg Unit
  | [] => pure ()
  | call :: calls => do
    call.prog
    caller calls

theorem MindsTtls.map {α β : Type} {p : RedisProg α} (f : α → β) (hp : MindsTtls p) :
    MindsTtls (f <$> p) := hp.bind fun _ => trivial

/-- Every call brings back in order what it brings into disorder. -/
theorem minds_prog (call : HashCall) : MindsTtls call.prog := by
  cases call with
  | countRequeue jobId => exact .of_each (each_call (steady_hset .requeued fun _ => rfl))
  | act claimGraceS now a =>
    refine MindsTtls.map _ ?_
    cases a with
    | wait duration => exact trivial
    | expire jobId =>
      exact (MindsTtls.of_each
        (each_call (steady_of_keeps fun _ _ => Redis.expiring_expireNow))).map _
    | enqueueJobs jobs stateTtl => exact (MindsTtls.of_each (each_enqueueJobs jobs stateTtl)).map _
    | promoteDueRetries =>
      exact (MindsTtls.of_each (each_hashless (hashless_promoteDueRetries now now))).map _
    | claimPending entries => exact .of_each (each_claimPending now entries)
    | dropPending entries =>
      exact (MindsTtls.of_each (each_hashless (hashless_dropPending entries))).map _
    | requeueOrphans jobIds =>
      exact (MindsTtls.of_each
        (each_hashless (hashless_requeueOrphans jobIds now claimGraceS))).map _
    | resolve jobId r =>
      refine MindsTtls.map _ ?_
      cases r with
      | requeueJob score => exact .of_each (each_hashless (hashless_requeueJob jobId score))
      | scheduleRetry score delayS avoid => exact .of_each (each_scheduleRetry _ _ _ _ _)
      | setRunning settings engineJobId backendUrl backendId stateTtl =>
        exact minds_setRunning _ _ _ _ _ _ _
      | setFailed error stateTtl => exact (MindsTtls.of_each (each_setFailed _ _ _ _)).map _
    | outcome jobId o =>
      refine MindsTtls.map _ ?_
      cases o with
      | releaseDone state engineRun => exact (MindsTtls.of_each (each_releaseDone _ _ _ _)).map _
      | releaseAndRequeue score stateTtl delayS avoid => exact minds_releaseAndRequeue _ _ _ _ _ _
      | scheduleNextPoll at' =>
        exact .of_each (each_call (steady_hset (.polled at' now) fun _ => rfl))
      | rescheduleHarvest delayS => exact .of_each (each_rescheduleHarvest _ _ _)
      | setDone stateTtl state => exact (minds_setDone _ _ _ _).map _
      | setFailed error stateTtl => exact (MindsTtls.of_each (each_setFailed _ _ _ _)).map _

theorem minds_caller (calls : List HashCall) : MindsTtls (caller calls) := by
  induction calls with
  | nil => exact trivial
  | cons call calls ih => exact (minds_prog call).bind fun _ => ih

variable {ι : Type} [DecidableEq ι]

/-- Any number of clients that make calls. -/
def callers (r : Redis) (calls : ι → List HashCall) : Pool Redis Event ι where
  shared := r
  procs i := some (caller (calls i))
  history := []

/-- **When all calls have completed, no job hash lives forever**, if none of the blind writes was
executed on a hash that was gone. -/
theorem expiring_of_run {r : Redis} {calls : ι → List HashCall} {q : Pool Redis Event ι}
    (hstart : ∀ jobId, r.Expiring jobId) (hr : Pool.RunWhere Sighted (callers r calls) q)
    (hend : ∀ i, q.ended i = true) (jobId : JobId) : q.shared.Expiring jobId := by
  have htended : (callers r calls).Tended (fun jobId r => Redis.Expiring jobId r) Sighted := by
    refine ⟨fun i c hc => ?_, fun jobId => Or.inl (hstart jobId)⟩
    obtain rfl := Option.some.inj hc
    exact minds_caller (calls i)
  exact Pool.tidy_of_run htended hr hend jobId

theorem Blind.keys_empty {jobId : JobId} {effect : Redis → Redis} (h : Blind jobId effect) :
    (effect {}).jobs.keys = {jobId} := by
  cases h <;> rfl

/-- A write to one job's hash shows on an empty store which job it is. -/
theorem sighted_of_keys {effect : Redis → Redis} {r : Redis}
    (h : (effect {}).jobs.keys ⊆ r.jobs.keys) : Sighted effect r := by
  intro jobId hblind
  rw [hblind.keys_empty, Finset.singleton_subset_iff, Finmap.mem_keys] at h
  rw [Ne, Finmap.lookup_eq_none, not_not]
  exact h

def pageJob : JobState where
  username := "u"
  fmt := "alto"
  outputs := {"alto"}
  submittedAt := 0

/-- Job 1 is enqueued and its hash expires; a poller records a status check of it. -/
def expiringCalls : Bool → List HashCall
  | true => [.act 300 5 (.outcome 1 (.scheduleNextPoll 10))]
  | false => [.act 300 0 (.enqueueJobs [(1, pageJob)] 60), .act 300 4 (.expire 1)]

/-- The status check comes after the hash's end: it makes a hash that never expires. -/
theorem hash_lives_forever : ∃ q, Pool.RunWhere (fun _ _ => True) (callers {} expiringCalls) q ∧
    (∀ i, q.ended i = true) ∧ ¬q.shared.Expiring 1 := by
  obtain ⟨q, hq, hP⟩ := Pool.exists_run_of_scheduleWhere (fun _ _ => True)
    (fun _ _ => true) (fun _ _ _ => trivial) (p := callers {} expiringCalls)
    (l := [false, false, false, true])
    (P := fun q => q.ended true && q.ended false &&
      decide (q.shared.jobs.lookup 1 = some { nextPollAt := some 10, lastPoll := some 5 }))
    (by decide +kernel)
  simp only [Bool.and_eq_true, decide_eq_true_eq] at hP
  refine ⟨q, hq, Bool.forall_bool.mpr ⟨hP.1.2, hP.1.1⟩, fun hexp => ?_⟩
  exact hexp _ hP.2 rfl

/-- A queued job is dispatched, and checked by another client. -/
def livingCalls : Bool → List HashCall
  | true => [.act 300 5 (.outcome 1 (.scheduleNextPoll 10))]
  | false => [.act 300 2 (.resolve 1 (.setRunning {} "e" "http://e" 7 60))]

theorem expiring_of_run_sample :
    ∃ q, Pool.RunWhere Sighted (callers (({} : Redis).enqueue 60 (1, pageJob)) livingCalls) q ∧
      ((q.shared.jobs.lookup 1).any fun h => h.nextPollAt = some 10) = true ∧
        q.shared.Expiring 1 := by
  have hstart : ∀ jobId, (({} : Redis).enqueue 60 (1, pageJob)).Expiring jobId := fun jobId =>
    Redis.expiring_enqueue 60 (1, pageJob) fun h hh => absurd hh (by simp)
  obtain ⟨q, hq, hP⟩ := Pool.exists_run_of_scheduleWhere Sighted
    (fun effect r => decide ((effect {}).jobs.keys ⊆ r.jobs.keys))
    (fun _ _ h => sighted_of_keys (of_decide_eq_true h))
    (p := callers (({} : Redis).enqueue 60 (1, pageJob)) livingCalls)
    (l := List.replicate 5 false ++ [true, false])
    (P := fun q => q.ended true && q.ended false &&
      (q.shared.jobs.lookup 1).any fun h => h.nextPollAt = some 10)
    (by decide +kernel)
  rw [Bool.and_eq_true, Bool.and_eq_true] at hP
  exact ⟨q, hq, hP.2, expiring_of_run hstart hq (Bool.forall_bool.mpr ⟨hP.1.2, hP.1.1⟩) 1⟩

end Taas

import Taas.Infra.Pool
import Taas.Properties.Commands
import Taas.Properties.Places
import Taas.Workers.Attempts

/-!
# The retry budget

The submit worker counts a retry before it puts the job back, the poller after it.

* `fromFullCount` — when a put-back may begin: every earlier one is counted.
* `withinBudget` — no more put-backs than requeues counted or still to count, and no more of
  these than the budget.
* `putbacks_within_budget` — in every run of such put-backs the budget bounds them.
* `putbacks_beyond_budget` — a dispatch fails between the poller's put-back and its count.
-/

namespace Taas

open Infra Infra.Prog

variable {jobId : JobId} {maxRequeues : Nat}

/-! ## Commands that leave the count alone -/

/-- The command leaves the job's `requeues` as it is. -/
def Uncounting (jobId : JobId) (effect : Redis → Redis) (_ : Redis → List Event) : Prop :=
  ∀ r, (effect r).requeuesOf jobId = r.requeuesOf jobId

/-- The command neither counts nor puts back. -/
def Neutral (jobId : JobId) (effect : Redis → Redis) (log : Redis → List Event) : Prop :=
  Uncounting jobId effect log ∧ ∀ r, putsBack jobId effect (log r) = false

/-- The command is not booked, and does not count. -/
def Idle (jobId : JobId) (b : Booking) (effect : Redis → Redis) (log : Redis → List Event) :
    Prop :=
  Uncounting jobId effect log ∧ ∀ r t, b.books (putsBack jobId effect (log r)) t = t

theorem idle_plain {effect : Redis → Redis} {log : Redis → List Event}
    (h : Uncounting jobId effect log) : Idle jobId .plain effect log := ⟨h, fun _ _ => rfl⟩

theorem Neutral.idle {b : Booking} (hb : ∀ t, b.books false t = t) {effect : Redis → Redis}
    {log : Redis → List Event} (h : Neutral jobId effect log) : Idle jobId b effect log := by
  refine ⟨h.1, fun r t => ?_⟩
  rw [h.2 r]
  exact hb t

theorem uncounting_of_hashless {effect : Redis → Redis} {log : Redis → List Event}
    (h : Hashless effect log) : Uncounting jobId effect log := by
  intro r
  rw [Redis.requeuesOf, h r]
  rfl

namespace Redis

variable {r : Redis} {j : JobId} {f : JobHash → JobHash}

theorem requeuesOf_hset (hf : ∀ h, (f h).requeues = h.requeues) :
    (r.hset j f).requeuesOf jobId = r.requeuesOf jobId := by
  unfold requeuesOf hset
  by_cases hj : jobId = j
  · subst hj
    rw [Finmap.lookup_insert, Option.bind_some, hf]
    cases r.jobs.lookup jobId <;> rfl
  · rw [Finmap.lookup_insert_of_ne _ hj]

theorem requeuesOf_hmod (hf : ∀ h, (f h).requeues = h.requeues) :
    (r.hmod j f).requeuesOf jobId = r.requeuesOf jobId := by
  unfold hmod
  cases hl : r.jobs.lookup j with
  | none => rfl
  | some h =>
    unfold requeuesOf
    dsimp only
    by_cases hj : jobId = j
    · subst hj
      rw [Finmap.lookup_insert, hl, Option.bind_some, hf]
      rfl
    · rw [Finmap.lookup_insert_of_ne _ hj]

theorem requeuesOf_zremHarvest : (r.zremHarvest j).requeuesOf jobId = r.requeuesOf jobId := rfl

theorem requeuesOf_markFailed (now : ℚ) (error : String) (stateTtl : Nat) :
    (r.markFailed now j error stateTtl).requeuesOf jobId = r.requeuesOf jobId := by
  rw [markFailed, requeuesOf_hmod (f := JobHash.clearHarvest) fun _ => rfl,
    requeuesOf_zremHarvest, expire, requeuesOf_hmod (f := JobHash.expiring stateTtl) fun _ => rfl,
    requeuesOf_hset (f := JobHash.failed now error) fun _ => rfl]

theorem requeuesOf_claim (now : ℚ) (entry : QueueEntry) :
    (r.claim now entry).requeuesOf jobId = r.requeuesOf jobId := by
  unfold claim
  split
  · rfl
  · split
    · rfl
    · exact requeuesOf_hset fun _ => rfl

theorem requeuesOf_releaseDone (now : ℚ) (state : JobState) (run : EngineRun) :
    (r.releaseDone now j state run).requeuesOf jobId = r.requeuesOf jobId := by
  unfold releaseDone
  split
  · rw [requeuesOf, jobs_countReleased]
    exact requeuesOf_hmod fun _ => rfl
  · rfl

end Redis

theorem uncounting_hset {j : JobId} {f : JobHash → JobHash} {log : Redis → List Event}
    (hf : ∀ h, (f h).requeues = h.requeues) : Uncounting jobId (Redis.hset j f) log :=
  fun _ => Redis.requeuesOf_hset hf

theorem uncounting_hmod {j : JobId} {f : JobHash → JobHash} {log : Redis → List Event}
    (hf : ∀ h, (f h).requeues = h.requeues) : Uncounting jobId (Redis.hmod j f) log :=
  fun _ => Redis.requeuesOf_hmod hf

/-! ### The programs -/

theorem each_uncounting {α : Type} {p : RedisProg α} (h : Each Hashless p) :
    Each (Uncounting jobId) p := h.mono fun _ _ => uncounting_of_hashless

theorem uncounting_counters : OfCounters (Uncounting jobId) where
  loadQueued _ _ _ := rfl
  loadInflight _ _ _ := rfl
  loads _ _ := rfl
  backend _ _ _ := rfl
  batchPages _ _ _ _ := rfl
  dropBatch _ _ _ := rfl
  wakeSubmit _ := rfl

theorem uncounting_setRunning (settings : Settings) (now : ℚ) (j : JobId)
    (engineJobId backendUrl : String) (backendId : BackendId) (stateTtl : Nat) :
    Each (Uncounting jobId)
      (setRunning settings now j engineJobId backendUrl backendId stateTtl) :=
  Each.bind (each_call (uncounting_hset fun _ => rfl)) fun _ =>
    Each.bind (each_call (uncounting_hmod fun _ => rfl)) fun _ =>
      Each.bind (each_call fun _ => rfl) fun _ =>
        (each_uncounting (hashless_enteredInflight _ _)).when.bind fun _ => each_call fun _ => rfl

theorem uncounting_setFailed (now : ℚ) (j : JobId) (error : String) (stateTtl : Nat) :
    Each (Uncounting jobId) (setFailed now j error stateTtl) :=
  (each_uncounting (hashless_getJob j)).bind fun state =>
    (each_uncounting (hashless_countBatchPage _ _)).bind fun _ =>
      Each.bind (each_call fun _ => Redis.requeuesOf_markFailed _ _ _) fun _ =>
        Each.bind (each_call fun _ => rfl) fun removed =>
          (uncounting_counters.countFailed removed state).bind fun _ =>
            uncounting_counters.signalSubmit.when.bind fun _ =>
              (uncounting_counters.releaseSlot removed state).bind fun _ =>
                uncounting_counters.signalSubmit.when.bind fun _ => each_pure _

theorem uncounting_setDone (now : ℚ) (j : JobId) (stateTtl : Nat) (state : Option JobState) :
    Each (Uncounting jobId) (setDone now j stateTtl state) :=
  (each_uncounting (hashless_doneState _ _)).bind fun _ =>
    (each_uncounting (hashless_countBatchPage _ _)).bind fun _ =>
      Each.bind (each_call (uncounting_hset fun _ => rfl)) fun _ =>
        Each.bind (each_call (uncounting_hmod fun _ => rfl)) fun _ =>
          Each.bind (each_call fun _ => rfl) fun _ => Each.bind (each_call fun _ => rfl) fun _ =>
            Each.bind (each_call (uncounting_hmod fun _ => rfl)) fun _ =>
              (uncounting_counters.settleDone _ _ _).bind fun _ => each_pure _

theorem uncounting_releaseDone (now : ℚ) (j : JobId) (state : JobState) (run : EngineRun) :
    Each (Uncounting jobId) (releaseDone now j state run) :=
  Each.bind (each_call fun _ => Redis.requeuesOf_releaseDone _ _ _) fun _ =>
    uncounting_counters.signalSubmit.when.bind fun _ => each_pure _

theorem uncounting_rescheduleHarvest (now : ℚ) (j : JobId) (delayS : ℚ) :
    Each (Uncounting jobId) (rescheduleHarvest now j delayS) :=
  each_call fun r => show (r.hset j JobHash.attempted).requeuesOf jobId = r.requeuesOf jobId from
    Redis.requeuesOf_hset fun _ => rfl

/-! ### Commands that are no put-back -/

theorem neutral_counters : OfCounters (Neutral jobId) where
  loadQueued _ _ := ⟨fun _ => rfl, fun _ => rfl⟩
  loadInflight _ _ := ⟨fun _ => rfl, fun _ => rfl⟩
  loads _ := ⟨fun _ => rfl, fun _ => rfl⟩
  backend _ _ := ⟨fun _ => rfl, fun _ => rfl⟩
  batchPages _ _ _ := ⟨fun _ => rfl, fun _ => rfl⟩
  dropBatch _ _ := ⟨fun _ => rfl, fun _ => rfl⟩
  wakeSubmit := ⟨fun _ => rfl, fun _ => rfl⟩

theorem neutral_hset {j : JobId} {f : JobHash → JobHash}
    (hf : ∀ h, (f h).requeues = h.requeues) : Neutral jobId (Redis.hset j f) fun _ => [] :=
  ⟨uncounting_hset hf, fun _ => rfl⟩

theorem neutral_hmod {j : JobId} {f : JobHash → JobHash}
    (hf : ∀ h, (f h).requeues = h.requeues) : Neutral jobId (Redis.hmod j f) fun _ => [] :=
  ⟨uncounting_hmod hf, fun _ => rfl⟩

theorem neutral_id : Neutral jobId id fun _ => [] := ⟨fun _ => rfl, fun _ => rfl⟩

theorem neutral_giveUpSlot (j : JobId) : Each (Neutral jobId) (giveUpSlot j) :=
  Each.bind (each_call neutral_id) fun state =>
    Each.bind (each_call ⟨fun _ => rfl, fun _ => rfl⟩) fun removed =>
      (neutral_counters.countRequeued removed state).bind fun _ =>
        (neutral_counters.releaseSlot removed state).bind fun _ => each_pure _

theorem neutral_avoidBackend (j : JobId) (avoid : Option BackendId) :
    Each (Neutral jobId) (avoidBackend j avoid) := by
  cases avoid with
  | none => exact each_pure _
  | some backendId =>
    exact Each.bind (each_call neutral_id) fun existing => each_call (neutral_hset fun _ => rfl)

theorem putsBack_zaddDelayed (score : ℚ) (events : List Event) :
    putsBack jobId (Redis.zaddDelayed jobId score) events = true := by
  simp [putsBack, Redis.zaddDelayed]

theorem putsBack_zaddPending (priority : Int) (score : ℚ) :
    putsBack jobId (Redis.zaddPending priority jobId score) [.put jobId] = true := by
  simp [putsBack]

/-! ## The budget, in any interleaving -/

/-- A put-back begins only while every earlier one is counted, and with the count that the
worker read. -/
def fromFullCount (jobId : JobId) : Regime Spending (Event ⊕ Int) Loop where
  allowed t events := ∀ n, .inr n ∈ events → t.redis.requeuesOf jobId = n ∧ t.uncounted = 0
  clean _ t := t

/-- The requeues, with those that are still to be counted. -/
def Spending.counted (jobId : JobId) (t : Spending) : Int :=
  t.redis.requeuesOf jobId + t.uncounted

/-- No more put-backs than requeues, no more requeues than the budget. Only the submit worker
counts what it did not put back yet, only the poller puts back what it did not count yet. -/
def withinBudget (jobId : JobId) (maxRequeues : Nat) :
    Contract Spending (Event ⊕ Int) Loop where
  inv t _ := t.puts ≤ t.counted jobId ∧ t.counted jobId ≤ maxRequeues
  guar i t _ t' _ :=
    (i ≠ .poll → t.uncounted ≤ t'.uncounted) ∧
      (i ≠ .submit → t.counted jobId + t'.puts ≤ t'.counted jobId + t.puts)

/-- A requeue is counted that was not put back yet. -/
def Reserved (jobId : JobId) (t : Spending) : Prop := t.puts + 1 ≤ t.counted jobId

section

variable {α : Type} {i : Loop}

/-- Client `i` keeps to the budget. -/
abbrev Thrifty (jobId : JobId) (maxRequeues : Nat) (i : Loop)
    (p : Prog Spending (Event ⊕ Int) α) (A B : Spending → Prop) : Prop :=
  Contract.Triple (fromFullCount jobId) (withinBudget jobId maxRequeues) i p (fun t _ => A t)
    fun _ t _ => B t

theorem stable_reserved :
    (withinBudget jobId maxRequeues).Stable .submit fun t _ => Reserved jobId t := by
  intro i hi t _ t' _ _ _ hguar hres
  have hkept := hguar.2 hi
  unfold Reserved at *
  omega

theorem stable_uncounted :
    (withinBudget jobId maxRequeues).Stable .poll fun t _ => 1 ≤ t.uncounted := by
  intro i hi t _ t' _ _ _ hguar hunc
  exact hunc.trans (hguar.1 hi)

theorem stable_nothing : (withinBudget jobId maxRequeues).Stable i fun _ _ => True :=
  Contract.stable_true

/-- What an assertion says about the budget. -/
def OfBudget (jobId : JobId) (A : Spending → Prop) : Prop :=
  ∀ t r, r.requeuesOf jobId = t.redis.requeuesOf jobId → A t → A { t with redis := r }

theorem reserved_ofBudget : OfBudget jobId (Reserved jobId) := by
  intro t r hr h
  unfold Reserved Spending.counted at *
  rwa [hr]

/-- Commands that are not booked. -/
theorem thrifty_idle {b : Booking} {A : Spending → Prop} (hA : OfBudget jobId A)
    (hstable : (withinBudget jobId maxRequeues).Stable i fun t _ => A t) {p : RedisProg α}
    (hp : p.Each (Idle jobId b)) : Thrifty jobId maxRequeues i (attend jobId b p) A A := by
  induction p with
  | ret a => exact fun _ _ _ h => h
  | cmd ready effect log next ih =>
    intro t es hi hat _ _
    obtain ⟨hcount, hbook⟩ := hp.1
    have hsame : ({ t with redis := effect t.redis } : Spending).counted jobId =
        t.counted jobId := by rw [Spending.counted, hcount]; rfl
    refine ⟨?_, ?_, fun t _ => A t, ?_, hstable, ih _ (hp.2 _)⟩
    · show Contract.inv _ (b.books _ _) _
      rw [hbook]
      exact ⟨hsame ▸ hi.1, hsame ▸ hi.2⟩
    · show Contract.guar _ i t es (b.books _ _) _
      rw [hbook]
      exact ⟨fun _ => Nat.le_refl _, fun _ => by rw [hsame]⟩
    · show A (b.books _ _)
      rw [hbook]
      exact hA t _ (hcount t.redis) hat

theorem thrifty_plainly {p : RedisProg α} (hp : p.Each (Uncounting jobId)) :
    Thrifty jobId maxRequeues i (plainly jobId p) (fun _ => True) fun _ => True :=
  thrifty_idle (fun _ _ _ _ => trivial) stable_nothing
    (hp.mono fun _ _ => idle_plain)

/-! ### Counting and putting back -/

theorem Redis.requeuesOf_countRequeue (jobId : JobId) (r : Redis) :
    (r.hset jobId fun h => { h with requeues := some (h.requeues.getD 0 + 1) }).requeuesOf jobId =
      r.requeuesOf jobId + 1 := by
  unfold requeuesOf hset
  rw [Finmap.lookup_insert]
  cases r.jobs.lookup jobId <;> rfl

/-- The submit worker counts: what it read is what the hash says, and less than the budget. -/
theorem thrifty_countsFirst {requeues : Int} (hbudget : requeues < maxRequeues) :
    Thrifty jobId maxRequeues .submit (attend jobId (.countsFirst requeues) (countRequeue jobId))
      (fun _ => True) (Reserved jobId) := by
  intro t es hi _ _ ha
  obtain ⟨hread, hnone⟩ := ha requeues (List.mem_cons_self ..)
  have hcount := Redis.requeuesOf_countRequeue jobId t.redis
  obtain ⟨hputs, -⟩ := hi
  refine ⟨⟨?_, ?_⟩, ⟨fun _ => Nat.le_refl _, fun h => absurd rfl h⟩,
    fun t _ => Reserved jobId t,
    ?_, stable_reserved, fun _ _ _ h => h⟩
  all_goals
    simp only [Reserved, Spending.counted, Booking.countsFirst, hcount] at hputs ⊢
    omega

/-- The submit worker puts back what it counted. -/
theorem thrifty_retry (now score delayS : ℚ) (avoid : Option BackendId) :
    Thrifty jobId maxRequeues .submit
      (attend jobId .puts (scheduleRetry now jobId score delayS avoid)) (Reserved jobId)
      fun _ => True := by
  have hscored : Each (Idle jobId .puts) (act (Redis.hset jobId (JobHash.scored score))) :=
    each_call (Neutral.idle (fun _ => rfl) (neutral_hset fun _ => rfl))
  unfold scheduleRetry
  rw [attend_bind]
  refine Contract.Triple.bind (thrifty_idle reserved_ofBudget stable_reserved hscored) fun _ => ?_
  rw [attend_bind]
  refine Contract.Triple.bind (thrifty_idle reserved_ofBudget stable_reserved
    ((neutral_avoidBackend _ _).mono fun _ _ h => h.idle fun _ => rfl)) fun _ => ?_
  intro t es hi hres _ _
  have hbook : Booking.puts.books (putsBack jobId (Redis.zaddDelayed jobId (now + delayS)) [])
      { t with redis := t.redis.zaddDelayed jobId (now + delayS) } =
        { t with redis := t.redis.zaddDelayed jobId (now + delayS), puts := t.puts + 1 } := by
    rw [putsBack_zaddDelayed]
    rfl
  refine ⟨?_, ⟨fun _ => ?_, fun h => absurd rfl h⟩, fun _ _ => True, trivial,
    Contract.stable_true, fun _ _ _ _ => trivial⟩
  · show Contract.inv _ (Booking.puts.books _ _) _
    rw [hbook]
    exact ⟨hres, hi.2⟩
  · show _ ≤ (Booking.puts.books _ _).uncounted
    rw [hbook]

/-- The poller puts back: all put-backs so far are counted. -/
theorem thrifty_put {requeues : Int} (hbudget : requeues < maxRequeues) {effect : Redis → Redis}
    {log : List Event} (hput : putsBack jobId effect log = true)
    (hcount : ∀ r, (effect r).requeuesOf jobId = r.requeuesOf jobId) :
    Thrifty jobId maxRequeues .poll
      (attend jobId (.putsFirst requeues) (callLog (fun _ => log) (fun _ => ()) effect))
      (fun _ => True) fun t => 1 ≤ t.uncounted := by
  intro t es hi _ _ ha
  have hnote : Sum.inr requeues ∈
      ((Booking.putsFirst requeues).begins (putsBack jobId effect log)).toList.map Sum.inr ++
        log.map Sum.inl := by
    rw [hput]
    exact List.mem_cons_self ..
  obtain ⟨hread, hnone⟩ := ha requeues hnote
  have hbook : (Booking.putsFirst requeues).books (putsBack jobId effect log)
      { t with redis := effect t.redis } =
        { redis := effect t.redis, puts := t.puts + 1, uncounted := t.uncounted + 1 } := by
    rw [hput]
    rfl
  have hcounted : Spending.counted jobId
      { redis := effect t.redis, puts := t.puts + 1, uncounted := t.uncounted + 1 } =
        t.counted jobId + 1 := by
    simp only [Spending.counted, hcount]
    omega
  have hfull : t.counted jobId = requeues := by
    rw [Spending.counted, hread, hnone]
    omega
  obtain ⟨hputs, -⟩ := hi
  refine ⟨?_, ?_, fun t _ => 1 ≤ t.uncounted, ?_, stable_uncounted, fun _ _ _ h => h⟩
  · show Contract.inv _ ((Booking.putsFirst requeues).books _ _) _
    rw [hbook]
    constructor
    · show ((t.puts + 1 : Nat) : Int) ≤ _
      omega
    · omega
  · show Contract.guar _ _ _ _ ((Booking.putsFirst requeues).books _ _) _
    rw [hbook]
    refine ⟨fun h => absurd rfl h, fun _ => ?_⟩
    show _ + ((t.puts + 1 : Nat) : Int) ≤ _
    omega
  · show 1 ≤ ((Booking.putsFirst requeues).books _ _).uncounted
    rw [hbook]
    exact Nat.le_add_left ..

theorem uncounted_ofBudget : OfBudget jobId fun t => 1 ≤ t.uncounted := fun _ _ _ h => h

theorem idle_putsFirst {requeues : Int} {p : RedisProg α} (hp : p.Each (Neutral jobId)) :
    p.Each (Idle jobId (.putsFirst requeues)) := hp.mono fun _ _ h => h.idle fun _ => rfl

/-- Before the put-back nothing is said. -/
theorem thrifty_before {requeues : Int} {p : RedisProg α} (hp : p.Each (Neutral jobId)) :
    Thrifty jobId maxRequeues .poll (attend jobId (.putsFirst requeues) p) (fun _ => True)
      fun _ => True :=
  thrifty_idle (fun _ _ _ _ => trivial) stable_nothing (idle_putsFirst hp)

theorem thrifty_requeueReleased {requeues : Int} (hbudget : requeues < maxRequeues)
    (now score delayS : ℚ) (avoid : Option BackendId) (state : Option JobState) :
    Thrifty jobId maxRequeues .poll (attend jobId (.putsFirst requeues)
      (requeueReleased now jobId score delayS avoid state)) (fun _ => True)
      fun t => 1 ≤ t.uncounted := by
  unfold requeueReleased
  split
  · -- the delayed queue: the `ZADD` is the last command
    unfold scheduleRetry
    rw [attend_bind]
    refine Contract.Triple.bind (thrifty_before (each_call (neutral_hset fun _ => rfl))) fun _ => ?_
    rw [attend_bind]
    refine Contract.Triple.bind (thrifty_before (neutral_avoidBackend _ _)) fun _ => ?_
    exact thrifty_put hbudget (putsBack_zaddDelayed _ _) fun _ => rfl
  · -- a pending queue: the `ZADD` is the first command
    unfold addPending
    rw [attend_bind]
    refine Contract.Triple.bind (thrifty_put hbudget (putsBack_zaddPending _ _) fun _ => rfl)
      fun _ => thrifty_idle uncounted_ofBudget stable_uncounted (idle_putsFirst ?_)
    exact Each.bind (each_call ⟨fun _ => rfl, fun _ => rfl⟩) fun _ =>
      neutral_counters.signalSubmit

theorem thrifty_releaseAndRequeue {requeues : Int} (hbudget : requeues < maxRequeues)
    (now score : ℚ) (stateTtl : Nat) (delayS : ℚ) (avoid : Option BackendId) :
    Thrifty jobId maxRequeues .poll (attend jobId (.putsFirst requeues)
      (releaseAndRequeue now jobId score stateTtl delayS avoid)) (fun _ => True)
      fun t => 1 ≤ t.uncounted := by
  unfold releaseAndRequeue
  rw [attend_bind]
  refine Contract.Triple.bind (thrifty_before (neutral_giveUpSlot jobId)) fun state => ?_
  rw [attend_bind]
  refine Contract.Triple.bind (thrifty_before (each_call (neutral_hset fun _ => rfl))) fun _ => ?_
  unfold backToQueue
  rw [attend_bind]
  refine Contract.Triple.bind (thrifty_before (each_call (neutral_hmod fun _ => rfl))) fun _ => ?_
  rw [attend_bind]
  refine Contract.Triple.bind (thrifty_before (each_call ⟨fun _ => rfl, fun _ => rfl⟩))
    fun _ => ?_
  rw [attend_bind]
  refine Contract.Triple.bind (thrifty_before (each_call (neutral_hmod fun _ => rfl))) fun _ => ?_
  exact thrifty_requeueReleased hbudget _ _ _ _ _

/-- The poller counts what it put back. -/
theorem thrifty_counts : Thrifty jobId maxRequeues .poll
    (attend jobId .counts (countRequeue jobId)) (fun t => 1 ≤ t.uncounted) fun _ => True := by
  intro t es hi hunc _ _
  have hcount := Redis.requeuesOf_countRequeue jobId t.redis
  obtain ⟨hputs, hmax⟩ := hi
  refine ⟨⟨?_, ?_⟩, ⟨fun h => absurd rfl h, fun _ => ?_⟩, fun _ _ => True, trivial,
    Contract.stable_true, fun _ _ _ _ => trivial⟩
  all_goals
    simp only [Spending.counted, Booking.counts, hcount] at hputs hmax ⊢
    omega

/-! ### The workers -/

theorem thrifty_dispatchFailed (d : DispatchRound) (state : JobState)
    (failure : DispatchFailure) : Thrifty jobId maxRequeues .submit
      (d.dispatchFailed jobId maxRequeues state failure) (fun _ => True) fun _ => True := by
  unfold DispatchRound.dispatchFailed
  refine Contract.Triple.ite (fun hretry => ?_) fun _ =>
    thrifty_plainly ((uncounting_setFailed ..).bind fun _ => each_pure _)
  rw [Bool.and_eq_true, decide_eq_true_eq] at hretry
  exact (thrifty_countsFirst hretry.2).bind fun _ => thrifty_retry _ _ _ _

theorem thrifty_dispatchJob (settings : Settings) (d : DispatchRound) (state : JobState) :
    Thrifty jobId maxRequeues .submit (d.dispatchJob jobId maxRequeues settings state)
      (fun _ => True) fun _ => True := by
  unfold DispatchRound.dispatchJob
  split
  · exact thrifty_plainly ((uncounting_setFailed ..).bind fun _ => each_pure _)
  · exact thrifty_plainly (uncounting_setRunning ..)
  · exact (thrifty_plainly ((uncounting_setRunning ..).first _)).bind fun _ =>
      thrifty_dispatchFailed d state _
  · exact thrifty_plainly (each_uncounting (hashless_requeueJob ..))
  · exact thrifty_dispatchFailed d state _

theorem thrifty_submit (settings : Settings) (round : SubmitRound) :
    Thrifty jobId maxRequeues .submit (round.prog jobId maxRequeues settings) (fun _ => True)
      fun _ => True := by
  cases round with
  | promote now time =>
    exact thrifty_plainly (each_uncounting ((hashless_promoteDueRetries ..).bind
      fun _ => each_pure _))
  | dispatch d =>
    refine Contract.Triple.bind (thrifty_plainly (each_uncounting (hashless_getJob _)))
      fun state => ?_
    cases state with
    | none => exact thrifty_plainly (each_uncounting (hashless_dropPending _))
    | some state =>
      refine Contract.Triple.bind (thrifty_plainly (each_callLog fun _ =>
        Redis.requeuesOf_claim _ _)) fun claimed => ?_
      exact Contract.Triple.ite (fun _ => thrifty_dispatchJob settings d state)
        fun _ => Contract.triple_pure fun _ _ _ _ => trivial

theorem uncounting_pollerMarkFailed (now : ℚ) (state : JobState) (error : String)
    (stateTtl : Nat) (rowDone : Bool) :
    Each (Uncounting jobId) (pollerMarkFailed jobId now state error stateTtl rowDone) := by
  unfold pollerMarkFailed
  split
  · exact (uncounting_setDone ..).bind fun _ => each_pure _
  · exact (uncounting_setFailed ..).bind fun _ => each_pure _

/-- Only a poll within the budget comes to a requeue. -/
theorem lt_of_classifyPollResult {status : PollStatus} {retryable : Bool} {requeues : Int}
    (h : classifyPollResult status retryable requeues maxRequeues = .requeue) :
    requeues < maxRequeues := by
  unfold classifyPollResult at h
  by_cases hretry : (retryable && decide (requeues < maxRequeues)) = true
  · rw [Bool.and_eq_true, decide_eq_true_eq] at hretry
    exact hretry.2
  · rw [if_neg hretry] at h
    cases status <;> cases h

theorem thrifty_poll (d : PollRound) :
    Thrifty jobId maxRequeues .poll (d.prog jobId maxRequeues) (fun _ => True)
      fun _ => True := by
  refine Contract.Triple.bind (thrifty_plainly (each_uncounting (hashless_getJob _)))
    fun state => ?_
  cases state with
  | none => exact Contract.triple_pure fun _ _ _ _ => trivial
  | some state =>
    show Thrifty jobId maxRequeues .poll (d.processChunk jobId maxRequeues state) _ _
    unfold PollRound.processChunk
    split
    · exact thrifty_plainly ((uncounting_releaseDone ..).bind fun _ => each_pure _)
    · next hrequeue =>
      exact (thrifty_releaseAndRequeue (lt_of_classifyPollResult hrequeue) _ _ _ _ _).bind
        fun _ => thrifty_counts
    · exact thrifty_plainly (uncounting_pollerMarkFailed ..)
    · exact thrifty_plainly (each_call (uncounting_hset fun _ => rfl))

theorem uncounting_harvest (d : HarvestRound) (state : JobState) :
    Each (Uncounting jobId) (d.harvest jobId state) := by
  cases d with
  | stored => exact (uncounting_setDone ..).bind fun _ => each_pure _
  | unstored => exact uncounting_rescheduleHarvest ..
  | lost => exact uncounting_pollerMarkFailed ..

theorem thrifty_harvest (d : HarvestRound) :
    Thrifty jobId maxRequeues .harvest (d.prog jobId) (fun _ => True) fun _ => True := by
  refine thrifty_plainly ((each_uncounting (hashless_getJob _)).bind fun state => ?_)
  cases state with
  | none => exact each_call fun _ => rfl
  | some state => exact uncounting_harvest d state

theorem thrifty_inRounds {ρ : Type} {body : ρ → Prog Spending (Event ⊕ Int) Unit}
    (hbody : ∀ round, Thrifty jobId maxRequeues i (body round) (fun _ => True) fun _ => True)
    (rounds : List (Option Nat × ρ)) :
    Thrifty jobId maxRequeues i (inRounds body rounds) (fun _ => True) fun _ => True := by
  induction rounds with
  | nil => exact fun _ _ _ _ => trivial
  | cons round rounds ih =>
    exact Contract.Triple.bind ((hbody round.2).upTo round.1) fun _ => ih

theorem Rounds.thrifty (rounds : Rounds) (settings : Settings) (loop : Loop) :
    Thrifty jobId maxRequeues loop (rounds.prog jobId maxRequeues settings loop)
      (fun _ => True) fun _ => True := by
  cases loop with
  | submit => exact thrifty_inRounds (thrifty_submit settings) rounds.submit
  | poll => exact thrifty_inRounds thrifty_poll rounds.poll
  | harvest => exact thrifty_inRounds thrifty_harvest rounds.harvest

end

/-! ## The bound -/

/-- The submit worker and the poller, about to work on the job. -/
def workersOn (t : Spending) (jobId : JobId) (maxRequeues : Nat) (settings : Settings)
    (rounds : Rounds) : Pool Spending (Event ⊕ Int) Loop where
  shared := t
  procs loop := some (rounds.prog jobId maxRequeues settings loop)
  history := []

/-- **As long as every put-back begins from a full count, the budget bounds them, and the count
of them.** -/
theorem putbacks_within_budget (jobId : JobId) (maxRequeues : Nat) (settings : Settings)
    (rounds : Rounds) (t : Spending) (hputs : t.puts ≤ t.redis.requeuesOf jobId)
    (hmax : t.redis.requeuesOf jobId ≤ maxRequeues) (hcounted : t.uncounted = 0)
    {q : Pool Spending (Event ⊕ Int) Loop}
    (hr : Pool.Run (fromFullCount jobId) (workersOn t jobId maxRequeues settings rounds) q) :
    q.shared.puts ≤ maxRequeues ∧ q.shared.redis.requeuesOf jobId ≤ maxRequeues := by
  have hstart : t.counted jobId = t.redis.requeuesOf jobId := by
    rw [Spending.counted, hcounted]
    omega
  have hsound : Pool.Sound (fromFullCount jobId) (withinBudget jobId maxRequeues)
      (fun _ _ _ => True) (workersOn t jobId maxRequeues settings rounds) := by
    refine ⟨⟨hstart ▸ hputs, hstart ▸ hmax⟩, fun loop c hc => ?_⟩
    obtain rfl := Option.some.inj hc
    exact ⟨fun _ _ => True, trivial, Contract.stable_true, rounds.thrifty settings loop⟩
  have hclean : Pool.CleanOk (fromFullCount jobId) (withinBudget jobId maxRequeues) :=
    fun _ _ _ hi => ⟨hi, fun _ => Nat.le_refl _, fun _ => Int.le_refl _⟩
  obtain ⟨hq, hqmax⟩ := (hsound.run hclean hr).inv
  unfold Spending.counted at hq hqmax
  exact ⟨by omega, by omega⟩

/-! ## Beyond the budget -/

/-- Whether `fromFullCount` allows it. -/
def allFromFullCount (jobId : JobId) (t : Spending) (events : List (Event ⊕ Int)) : Bool :=
  events.all fun event =>
    event.elim (fun _ => true) fun n => t.redis.requeuesOf jobId = n && t.uncounted = 0

theorem fromFullCount_of_all (t : Spending) (events : List (Event ⊕ Int))
    (h : allFromFullCount jobId t events = true) : (fromFullCount jobId).allowed t events := by
  intro n hn
  have hfull := List.all_eq_true.mp h (.inr n) hn
  simpa using hfull

/-- Job 1 runs on backend 1. -/
def sampleSpending : Spending where
  redis :=
    { jobs := Finmap.singleton 1
        { sampleJob with status := .running, backendId := some 1, requeues := 0 }.toHash
      inflight := {1}
      backendInflight := Finmap.singleton 1 1 }

/-- The poller cannot reach the engine; the submit worker promotes the job once it is due, and
dispatches it to a backend that is down as well. -/
def sampleRounds : Rounds where
  poll := [(none, { now := 50, status := .unreachable, retryable := true, stateTtl := 3600,
                    delayS := 5 })]
  submit := [(none, .promote 60 60),
    (none, .dispatch
      { now := 61, entry := ⟨1, sampleJob.submittedAt, sampleJob.priority⟩
        backend := { id := 2, url := "http://two" }
        reply := .failed { error := "down", transient := true }
        stateTtl := 3600, delayS := 5 })]
  harvest := []

/-- The submit worker reads the count before the poller has counted its put-back: both spend
the only retry of the budget. -/
theorem putbacks_beyond_budget : ∃ q : Pool Spending (Event ⊕ Int) Loop,
    Pool.Run Regime.free (workersOn sampleSpending 1 1 {} sampleRounds) q ∧
      sampleSpending.puts = 0 ∧ sampleSpending.redis.requeuesOf 1 = 0 ∧
        q.shared.puts = 2 ∧ q.shared.redis.requeuesOf 1 = 2 := by
  obtain ⟨q, hq, hspent⟩ := Pool.exists_run_of_schedule (R := Regime.free)
    (fun _ _ => trivial) (p := workersOn sampleSpending 1 1 {} sampleRounds)
    (l := List.replicate 13 .poll ++ List.replicate 13 .submit ++ [.poll])
    (P := fun q => decide (q.shared.puts = 2) && decide (q.shared.redis.requeuesOf 1 = 2))
    (by decide +kernel)
  rw [Bool.and_eq_true, decide_eq_true_eq, decide_eq_true_eq] at hspent
  exact ⟨q, hq, rfl, by decide, hspent⟩

/-- Here the poller counts before the submit worker goes on, which then fails the job. -/
theorem putbacks_within_budget_sample : ∃ q : Pool Spending (Event ⊕ Int) Loop,
    q.ended .submit = true ∧ q.ended .poll = true ∧
      q.shared.puts ≤ 1 ∧ q.shared.redis.requeuesOf 1 ≤ 1 := by
  obtain ⟨q, hq, hended⟩ := Pool.exists_run_of_scheduleIf (R := fromFullCount 1)
    fromFullCount_of_all (p := workersOn sampleSpending 1 1 {} sampleRounds)
    (l := List.replicate 14 .poll ++ List.replicate 12 .submit)
    (P := fun q => q.ended .submit && q.ended .poll) (by decide +kernel)
  rw [Bool.and_eq_true] at hended
  exact ⟨q, hended.1, hended.2, putbacks_within_budget 1 1 {} sampleRounds sampleSpending
    (by decide) (by decide) rfl hq⟩

end Taas

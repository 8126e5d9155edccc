import Taas.Infra.Sweeps
import Taas.Properties.Orphans
import Taas.Properties.Statements
import Taas.Services.Retention
import Taas.Workers.Cleanup

/-!
# The capped sweeps

The reaper, the search for lost jobs and the retention of batches each look at no more rows than
their `LIMIT`, and only then at which of them they are after.

* `reaper`, `lostJobs`, `expiredBatches` — the sweeps, each alone in a session of its own.
* `capped_sweeps_progress` — exactly when a sweep is bound to make progress.
-/

namespace Taas

open Infra Infra.Prog

variable {ι : Type} [DecidableEq ι]

/-- Nobody holds a row any more. -/
def Postgres.atRest (db : Postgres ι) : Postgres ι :=
  { jobs := db.jobs.atRest, batches := db.batches.atRest }

def Stores.atRest (s : Stores ι) : Stores ι := { s with db := s.db.atRest }

/-! ## The reaper -/

/-- The job is active, and past the deadline of its phase. -/
def JobRow.PastDeadline (now : ℚ) (queuedTimeout : Nat) (runningTimeoutFor : Option String → Nat)
    (row : JobRow) : Prop :=
  row.status = .queued ∧ row.submittedAt < now - queuedTimeout ∨
    (row.status = .running ∨ row.status = .storing) ∧
      ∃ t, row.dispatchedAt = some t ∧ t < now - runningTimeoutFor row.domain

section

variable {now : ℚ} {queuedTimeout stateTtl : Nat} {runningTimeoutFor : Option String → Nat}

theorem staleReason_isSome {row : JobRow} :
    (staleReason now queuedTimeout runningTimeoutFor row).isSome = true ↔
      row.PastDeadline now queuedTimeout runningTimeoutFor := by
  unfold staleReason JobRow.PastDeadline
  cases hs : row.status with
  | queued =>
    by_cases h : row.submittedAt < now - queuedTimeout <;> simp [h]
  | running | storing =>
    cases row.dispatchedAt with
    | none => simp
    | some t => by_cases h : t < now - runningTimeoutFor row.domain <;> simp [h]
  | done => simp
  | failed => simp

instance (row : JobRow) : Decidable (row.PastDeadline now queuedTimeout runningTimeoutFor) :=
  decidable_of_iff _ staleReason_isSome

theorem JobRow.PastDeadline.active {row : JobRow}
    (h : row.PastDeadline now queuedTimeout runningTimeoutFor) : row.status.isActive = true := by
  rcases h with ⟨hs, -⟩ | ⟨hs | hs, -⟩ <;> rw [hs] <;> rfl

end

/-- The active rows, as `selectActive` finds them before the `LIMIT`. -/
def Postgres.activeRows (i : ι) (db : Postgres ι) : List (JobId × JobRow) :=
  ((sorted (· ≤ ·) db.jobs.rows.val).map fun k => (k, db.jobs.sees i k)).filter
    fun job => job.2.status.isActive

section

variable {i : ι} {now : ℚ} {queuedTimeout stateTtl : Nat} {runningTimeoutFor : Option String → Nat}
  {s : Stores ι} {stale : List (JobId × JobRow × String)}

/-- What the reaper leaves when it fails the jobs `ids`. -/
structure Reaped (ids : List JobId) (s s' : Stores ι) : Prop where
  rows : s'.db.jobs.rows = s.db.jobs.rows
  kept : ∀ k ∉ ids, s'.db.jobs.committed k = s.db.jobs.committed k
  view : ∀ k ∉ ids, s'.redis.view k = s.redis.view k
  failed : ∀ k ∈ ids, k ∈ s.db.jobs.rows → (s'.db.jobs.committed k).status = .failed

omit [DecidableEq ι] in
/-- In Redis, only the jobs that it fails change. -/
theorem run_failStale (i : ι) (now : ℚ) (stateTtl : Nat)
    (stale : List (JobId × JobRow × String)) (s : Stores ι) :
    (run (failStale i now stateTtl stale) s).2.db = s.db ∧
      ∀ k ∉ stale.map Prod.fst,
        (run (failStale i now stateTtl stale) s).2.redis.view k = s.redis.view k := by
  induction stale generalizing s with
  | nil => exact ⟨rfl, fun _ _ => rfl⟩
  | cons job stale ih =>
    obtain ⟨jobId, row, reason⟩ := job
    have hrun : (run (failStale i now stateTtl ((jobId, row, reason) :: stale)) s).2 =
        (run (failStale i now stateTtl stale)
          { s with redis := (run (setFailed now jobId reason stateTtl) s.redis).2 }).2 := by
      rw [failStale, run_bind, run_onRedis, run_bind]
      rfl
    obtain ⟨hdb, hview⟩ :=
      ih { s with redis := (run (setFailed now jobId reason stateTtl) s.redis).2 }
    rw [hrun]
    refine ⟨hdb, fun k hk => ?_⟩
    rw [List.map_cons, List.mem_cons, not_or] at hk
    rw [hview k hk.2, views_setFailed, Function.update_of_ne hk.1]

/-- In its transaction, it sees these jobs failed and the others as they were. -/
theorem run_reapRows (i : ι) (now : ℚ) (stale : List (JobId × JobRow × String)) (db : Postgres ι) :
    (run (reapRows i now stale) db).2.jobs.rows = db.jobs.rows ∧
      (∀ k ∉ stale.map Prod.fst,
        (run (reapRows i now stale) db).2.jobs.sees i k = db.jobs.sees i k) ∧
      ∀ k ∈ stale.map Prod.fst, k ∈ db.jobs.rows →
        ((run (reapRows i now stale) db).2.jobs.sees i k).status = .failed := by
  induction stale generalizing db with
  | nil => exact ⟨rfl, fun _ _ => rfl, fun k hk => absurd hk List.not_mem_nil⟩
  | cons job stale ih =>
    obtain ⟨jobId, row, reason⟩ := job
    let values : JobRow → JobRow := fun row =>
      { row with status := .failed, error := some reason, finishedAt := some now }
    have hrun : (run (reapRows i now ((jobId, row, reason) :: stale)) db).2 =
        (run (reapRows i now stale) (db.update i jobId (fun _ => true) values)).2 := by
      rw [reapRows, run_bind]
      rfl
    obtain ⟨hrows, hkept, hfailed⟩ := ih (db.update i jobId (fun _ => true) values)
    have hrows' : (db.update i jobId (fun _ => true) values).jobs.rows = db.jobs.rows := by
      unfold Postgres.update
      split <;> rfl
    have hother : ∀ k, k ≠ jobId →
        (db.update i jobId (fun _ => true) values).jobs.sees i k = db.jobs.sees i k := by
      intro k hk
      unfold Postgres.update
      split
      · exact Table.sees_write_of_ne hk
      · rfl
    have hself : jobId ∈ db.jobs.rows →
        ((db.update i jobId (fun _ => true) values).jobs.sees i jobId).status = .failed := by
      intro hmem
      have hmatch : db.matchesJob i jobId (fun _ => true) = true := by
        simp [Postgres.matchesJob, hmem]
      rw [Postgres.update, if_pos hmatch, Postgres.writeJob, Table.sees_write_self]
    rw [hrun, hrows, hrows']
    rw [hrows'] at hfailed
    refine ⟨rfl, fun k hk => ?_, fun k hk hmem => ?_⟩
    · rw [List.map_cons, List.mem_cons, not_or] at hk
      rw [hkept k hk.2, hother k hk.1]
    · by_cases htail : k ∈ stale.map Prod.fst
      · exact hfailed k htail hmem
      · have hk' : k = jobId := by
          rw [List.map_cons, List.mem_cons] at hk
          exact hk.resolve_right htail
        rw [hkept k htail, hk']
        exact hself (hk' ▸ hmem)

theorem jobs_finishIfDone (batchId : Option BatchId) (db : Postgres ι) :
    (run (finishIfDone i now batchId) db).2.jobs = db.jobs := by
  unfold finishIfDone
  split
  · rfl
  · next batchId _ =>
    rw [run_bind]
    have hlock : (run (lockBatch i batchId) db).2.jobs = db.jobs := by
      show (if batchId ∈ db.batches.rows then { db with batches := db.batches.lock i batchId }
        else db).jobs = db.jobs
      split <;> rfl
    generalize (run (lockBatch i batchId) db).2 = db' at hlock
    show (if db'.batchQueued i batchId && !db'.hasActivePage i batchId then
      db'.writeFinished i batchId now else db').jobs = db.jobs
    rw [← hlock]
    split <;> rfl

theorem jobs_finishBatches (i : ι) (now : ℚ) (batchIds : List BatchId) (db : Postgres ι) :
    (run (finishBatches i now batchIds) db).2.jobs = db.jobs := by
  induction batchIds generalizing db with
  | nil => rfl
  | cons batchId batchIds ih => rw [finishBatches, run_bind, ih, jobs_finishIfDone]

omit [DecidableEq ι] in
theorem run_publishStale (stale : List (JobId × JobRow × String)) (s : Stores ι) :
    (run (publishStale i stale) s).2 = s := by
  induction stale generalizing s with
  | nil => rfl
  | cons job stale ih => rw [publishStale, run_bind, run_onRedis, ih]; rfl

omit [DecidableEq ι] in
theorem run_publishBatches (batches : List (String × Option (BatchId × BatchCounts)))
    (s : Stores ι) : (run (publishBatches i batches) s).2 = s := by
  induction batches generalizing s with
  | nil => rfl
  | cons batch batches ih =>
    obtain ⟨username, batch⟩ := batch
    rw [publishBatches, run_bind, ih]
    cases batch <;> rfl

theorem reaped_reapStale (stale : List (JobId × JobRow × String)) (s : Stores ι) :
    Reaped (stale.map Prod.fst) s.atRest (run (reapStale i now stateTtl stale) s.atRest).2 := by
  obtain ⟨hdb, hview⟩ := run_failStale i now stateTtl stale s.atRest
  obtain ⟨hrows, hkept, hfailed⟩ := run_reapRows i now stale s.atRest.db
  have hrun : (run (reapStale i now stateTtl stale) s.atRest).2 =
      { redis := (run (failStale i now stateTtl stale) s.atRest).2.redis
        db := (run (finishBatches i now (staleBatches stale))
          (run (reapRows i now stale) s.atRest.db).2).2.commit i } := by
    rw [reapStale, run_bind, run_bind, run_onDb, run_bind, run_bind, run_bind, run_publishStale,
      run_publishBatches, hdb]
    rfl
  have hjobs := jobs_finishBatches i now (staleBatches stale)
    (run (reapRows i now stale) s.atRest.db).2
  rw [hrun]
  refine ⟨?_, fun k hk => ?_, hview, fun k hk hmem => ?_⟩
  · show (run (finishBatches i now (staleBatches stale)) _).2.jobs.rows = _
    rw [hjobs, hrows]
  · show (run (finishBatches i now (staleBatches stale)) _).2.jobs.sees i k = _
    rw [hjobs, hkept k hk]
    rfl
  · show ((run (finishBatches i now (staleBatches stale)) _).2.jobs.sees i k).status = _
    rw [hjobs]
    exact hfailed k hk hmem

/-- Whether the reaper fails a job whose row it sees. -/
def Redis.reaps (now : ℚ) (queuedTimeout : Nat) (runningTimeoutFor : Option String → Nat)
    (r : Redis) (job : JobId × JobRow) : Bool :=
  (staleReason now queuedTimeout runningTimeoutFor job.2).isSome &&
    (r.pendingHarvest.lookup job.1).isNone

theorem map_selectStaleJobs (candidates : List (JobId × JobRow)) (q : JobId → Bool) :
    ((selectStaleJobs now queuedTimeout runningTimeoutFor candidates).filter
      fun job => q job.1).map Prod.fst =
    (candidates.filter fun job =>
      (staleReason now queuedTimeout runningTimeoutFor job.2).isSome && q job.1).map Prod.fst := by
  induction candidates with
  | nil => rfl
  | cons job candidates ih =>
    unfold selectStaleJobs at ih ⊢
    cases hr : staleReason now queuedTimeout runningTimeoutFor job.2 with
    | none => simp [hr, ih]
    | some reason => cases hq : q job.1 <;> simp [hr, hq, ih]

theorem reaped_reapStaleJobs (limited : List (JobId × JobRow) → List (JobId × JobRow))
    (s : Stores ι) :
    Reaped (((limited (s.atRest.db.activeRows i)).filter
        (s.redis.reaps now queuedTimeout runningTimeoutFor)).map Prod.fst) s.atRest
      (run (reapStaleJobs i now limited queuedTimeout runningTimeoutFor stateTtl) s.atRest).2 := by
  let found := selectStaleJobs now queuedTimeout runningTimeoutFor
    (limited (s.atRest.db.activeRows i))
  let stale := found.filter fun job => (s.redis.pendingHarvest.lookup job.1).isNone
  have hids : stale.map Prod.fst = ((limited (s.atRest.db.activeRows i)).filter
      (s.redis.reaps now queuedTimeout runningTimeoutFor)).map Prod.fst :=
    map_selectStaleJobs _ fun k => (s.redis.pendingHarvest.lookup k).isNone
  have hstale : (found.filter fun job => job.1 ∉ (found.map Prod.fst).filter
      fun k => (s.redis.pendingHarvest.lookup k).isSome) = stale := by
    refine List.filter_congr fun job hjob => ?_
    have hmem : job.1 ∈ found.map Prod.fst := List.mem_map_of_mem hjob
    rw [Bool.eq_iff_iff]
    simp [List.mem_filter, hmem]
  have hrun : run (reapStaleJobs i now limited queuedTimeout runningTimeoutFor stateTtl) s.atRest =
      run (if stale.isEmpty then onDb i (rollback i) else reapStale i now stateTtl stale)
        s.atRest := by
    rw [← hstale, reapStaleJobs, run_bind, run_onDb, run_bind, run_onRedis]
    rfl
  rw [hrun, ← hids]
  split
  · next hempty =>
    rw [List.isEmpty_iff] at hempty
    rw [hempty, run_onDb]
    exact ⟨rfl, fun _ _ => rfl, fun _ _ => rfl, fun k hk => absurd hk List.not_mem_nil⟩
  · exact reaped_reapStale stale s

/-- What was active and is failed now, the reaper saw. -/
theorem reaps_of_failed (limited : List (JobId × JobRow) → List (JobId × JobRow)) {k : JobId}
    (hactive : (s.db.jobs.committed k).status.isActive = true)
    (hfailed : ((run (reapStaleJobs i now limited queuedTimeout runningTimeoutFor stateTtl)
      s.atRest).2.db.jobs.committed k).status = .failed) :
    ∃ job ∈ limited (s.atRest.db.activeRows i),
      s.redis.reaps now queuedTimeout runningTimeoutFor job = true ∧ job.1 = k := by
  have hids := mt ((reaped_reapStaleJobs limited s).kept k) fun heq => by
    rw [heq] at hfailed
    have hactive' : (s.atRest.db.jobs.committed k).status.isActive = true := hactive
    rw [hfailed] at hactive'
    cases hactive'
  obtain ⟨job, hjob, heq⟩ := List.mem_map.mp (not_not.mp hids)
  obtain ⟨hjob, hreaps⟩ := List.mem_filter.mp hjob
  exact ⟨job, hjob, hreaps, heq⟩

theorem mem_activeRows {job : JobId × JobRow} : job ∈ s.atRest.db.activeRows i ↔
    job.1 ∈ s.db.jobs.rows ∧ s.db.jobs.committed job.1 = job.2 ∧ job.2.status.isActive = true := by
  obtain ⟨k, row⟩ := job
  simp only [Postgres.activeRows, List.mem_filter, List.mem_map, mem_sorted, Finset.mem_val,
    Prod.mk.injEq]
  constructor
  · rintro ⟨⟨_, hk, rfl, rfl⟩, hactive⟩
    exact ⟨hk, rfl, hactive⟩
  · rintro ⟨hk, rfl, hactive⟩
    exact ⟨⟨k, hk, rfl, rfl⟩, hactive⟩

end

section

variable (i : ι) (now : ℚ) (queuedTimeout : Nat) (runningTimeoutFor : Option String → Nat)
  (stateTtl : Nat)

/-- The active jobs past their deadline that don't wait for their harvest. -/
def Stores.overdue (s : Stores ι) : Finset JobId :=
  s.db.jobs.rows.filter fun k =>
    (s.db.jobs.committed k).PastDeadline now queuedTimeout runningTimeoutFor ∧
      s.redis.pendingHarvest.lookup k = none

variable {now queuedTimeout runningTimeoutFor} {s : Stores ι} {k : JobId}

omit [DecidableEq ι] in
theorem Stores.mem_overdue : k ∈ s.overdue now queuedTimeout runningTimeoutFor ↔
    k ∈ s.db.jobs.rows ∧
      s.redis.reaps now queuedTimeout runningTimeoutFor (k, s.db.jobs.committed k) = true := by
  simp only [overdue, Redis.reaps, Finset.mem_filter, Bool.and_eq_true, staleReason_isSome,
    Option.isNone_iff_eq_none]

omit [DecidableEq ι] in
/-- A job that is still active after the sweep is as it was. -/
theorem Reaped.overdue_subset {s' : Stores ι} {ids : List JobId} (h : Reaped ids s.atRest s') :
    s'.overdue now queuedTimeout runningTimeoutFor ⊆
      s.overdue now queuedTimeout runningTimeoutFor := by
  intro k hk
  simp only [Stores.overdue, Finset.mem_filter] at hk ⊢
  obtain ⟨hmem, hpast, hharvest⟩ := hk
  have hrows : k ∈ s.db.jobs.rows := by
    have := h.rows
    rw [this] at hmem
    exact hmem
  have hout : k ∉ ids := by
    intro hids
    have hactive := hpast.active
    rw [h.failed k hids hrows] at hactive
    cases hactive
  have hview := h.view k hout
  rw [h.kept k hout] at hpast
  exact ⟨hrows, hpast, (congrArg JobView.harvest hview).symm.trans hharvest⟩

variable (now queuedTimeout runningTimeoutFor)

/-- `reap_stale_jobs` -/
def reaper : Sweep (Stores ι) JobId where
  backlog := Stores.overdue now queuedTimeout runningTimeoutFor
  eligible := Stores.overdue now queuedTimeout runningTimeoutFor
  next s s' := ∃ result, Returned (fun _ => ()) reapMaxPerTick (s.atRest.db.activeRows i) result ∧
    s' = (run (reapStaleJobs i now (fun _ => result) queuedTimeout runningTimeoutFor stateTtl)
      s.atRest).2
  handled s s' k := k ∈ s.db.jobs.rows ∧ (s.db.jobs.committed k).status.isActive = true ∧
    (s'.db.jobs.committed k).status = .failed
  backlog_subset _ := Finset.Subset.refl _
  backlog_next := by
    rintro s _ ⟨result, -, rfl⟩
    exact (reaped_reapStaleJobs _ s).overdue_subset
  eligible_next := by
    rintro s _ ⟨result, -, rfl⟩
    exact (reaped_reapStaleJobs _ s).overdue_subset
  leaves := by
    rintro s _ k ⟨result, hreturned, rfl⟩ ⟨hmem, hactive, hfailed⟩
    refine ⟨?_, fun hover => ?_⟩
    · obtain ⟨job, hjob, hreaps, rfl⟩ := reaps_of_failed _ hactive hfailed
      obtain ⟨-, hrow, -⟩ := mem_activeRows.mp (hreturned.subset hjob)
      refine Stores.mem_overdue.mpr ⟨hmem, ?_⟩
      rw [hrow]
      exact hreaps
    · have hpast := (Finset.mem_filter.mp hover).2.1.active
      rw [hfailed] at hpast
      cases hpast

/-- Fewer than `REAP_MAX_PER_TICK` of the active rows are of no use to the reaper. -/
def ReaperSees (s : Stores ι) : Prop :=
  (s.overdue now queuedTimeout runningTimeoutFor).Nonempty →
    ((s.atRest.db.activeRows i).filter fun job =>
      !s.redis.reaps now queuedTimeout runningTimeoutFor job).length < reapMaxPerTick

theorem reaper_progress_iff (s : Stores ι) :
    (reaper i now queuedTimeout runningTimeoutFor stateTtl).Progress s ↔
      ReaperSees i now queuedTimeout runningTimeoutFor s := by
  refine (Sweep.progress_iff (fun _ => Iff.rfl) fun result hreturned => ?_).trans
    (imp_congr_right fun hsome => room_iff ?_)
  · constructor
    · rintro ⟨k, -, hactive, hfailed⟩
      obtain ⟨job, hjob, hreaps, -⟩ := reaps_of_failed (fun _ => result) hactive hfailed
      exact ⟨job, hjob, hreaps⟩
    · rintro ⟨job, hjob, hreaps⟩
      obtain ⟨hin, hcommitted, hactive⟩ := mem_activeRows.mp (hreturned.subset hjob)
      refine ⟨job.1, hin, hcommitted ▸ hactive, ?_⟩
      exact (reaped_reapStaleJobs (fun _ => result) s).failed job.1
        (List.mem_map_of_mem (List.mem_filter.mpr ⟨hjob, hreaps⟩)) hin
  · obtain ⟨k, hk⟩ := hsome
    obtain ⟨hmem, hreaps⟩ := Stores.mem_overdue.mp hk
    have hpast := (Finset.mem_filter.mp hk).2.1
    exact ⟨(k, s.db.jobs.committed k), mem_activeRows.mpr ⟨hmem, rfl, hpast.active⟩, hreaps⟩

/-- Job 500 waits in the queue since time 0; the 500 others were submitted at time 990. -/
def sampleCrowded (k : JobId) : JobRow :=
  { username := "u", submittedAt := if k = 500 then 0 else 990 }

def sampleCrowd : Stores Unit where
  db :=
    { jobs := { rows := Finset.range 501, committed := sampleCrowded }
      batches := { rows := ∅, committed := fun _ => {} } }

/-- With a queued timeout of 900 s, the reaper may see the 500 that were just submitted, and leave
the one that timed out. -/
theorem reaper_stuck : ∃ s : Stores Unit, s = sampleCrowd ∧
    500 ∈ s.overdue 1000 900 (fun _ => 300) ∧
    ¬(reaper () 1000 900 (fun _ => 300) 3600).Progress s := by
  refine ⟨sampleCrowd, rfl, ?_⟩
  have hover : 500 ∈ sampleCrowd.overdue 1000 900 (fun _ => 300) := by
    refine Finset.mem_filter.mpr ⟨Finset.mem_range.mpr (by omega), Or.inl ⟨rfl, ?_⟩, rfl⟩
    show (0 : ℚ) < 1000 - (900 : Nat)
    norm_num
  refine ⟨hover, fun hprogress => ?_⟩
  have hroom := (reaper_progress_iff () 1000 900 (fun _ => 300) 3600 sampleCrowd).mp hprogress
    ⟨500, hover⟩
  let crowd : List (JobId × JobRow) := (List.range 500).map fun k => (k, sampleCrowded k)
  have hnodup : crowd.Nodup := by
    refine List.Nodup.map (fun k k' h => (Prod.mk.inj h).1) List.nodup_range
  have hsubset : crowd ⊆ (sampleCrowd.atRest.db.activeRows ()).filter fun job =>
      !sampleCrowd.redis.reaps 1000 900 (fun _ => 300) job := by
    intro job hjob
    obtain ⟨k, hk, rfl⟩ := List.mem_map.mp hjob
    have hlt : k < 500 := List.mem_range.mp hk
    refine List.mem_filter.mpr ⟨mem_activeRows.mpr ⟨?_, rfl, rfl⟩, ?_⟩
    · show k ∈ Finset.range 501
      exact Finset.mem_range.mpr (Nat.lt_succ_of_lt hlt)
    · have hfresh : staleReason 1000 900 (fun _ => 300) (sampleCrowded k) = none := by
        refine if_neg ?_
        simp only [sampleCrowded, if_neg hlt.ne]
        norm_num
      simp [Redis.reaps, hfresh]
  have hlen := (List.Nodup.subperm hnodup hsubset).length_le
  have hcrowd : crowd.length = 500 := by simp [crowd]
  unfold reapMaxPerTick at hroom
  omega

end

/-! ## The search for lost jobs -/

/-- The hash is live and queued, the job is in no queue, and it was not claimed just now. -/
def JobView.Lost (time : ℚ) (v : JobView) : Prop :=
  ∃ h, v.hash = some h ∧ h.status = some .queued ∧ (∀ p, v.pending p = none) ∧ v.delayed = none ∧
    ¬h.Fresh time orphanClaimGrace

theorem JobView.Lost.orphaned {time : ℚ} {v : JobView} (hv : v.Lost time) :
    ∃ h, v.Orphaned time orphanClaimGrace h := by
  obtain ⟨h, hh, hs, hpending, hd, hfresh⟩ := hv
  exact ⟨h, hh, hs, hd, fun t ht => h.old_of_not_fresh hfresh t ht, hpending _⟩

/-- What the script requeues is in a queue then. -/
theorem JobView.not_lost_swept {time : ℚ} {v : JobView}
    (h : ∃ h, v.Orphaned time orphanClaimGrace h) : ¬(v.swept time orphanClaimGrace).Lost time := by
  obtain ⟨h, ho⟩ := h
  rintro ⟨-, -, -, hpending, -, -⟩
  have := hpending (h.priority.getD 0)
  rw [JobView.swept_of_orphaned ho] at this
  simp [JobView.zaddPending] at this

section

variable (i : ι) (now time : ℚ)

/-- The row is queued and older than the minimum age. -/
def Postgres.OldQueued (now : ℚ) (db : Postgres ι) (k : JobId) : Prop :=
  (db.jobs.committed k).status = .queued ∧ (db.jobs.committed k).submittedAt < now - orphanMinAge

instance (now : ℚ) (db : Postgres ι) (k : JobId) : Decidable (db.OldQueued now k) := by
  unfold Postgres.OldQueued
  infer_instance

/-- The old queued rows whose jobs are lost. -/
noncomputable def Stores.lost (s : Stores ι) : Finset JobId := by
  classical exact s.db.jobs.rows.filter fun k => s.db.OldQueued now k ∧ (s.redis.view k).Lost time

/-- The old queued rows whose jobs the script requeues. -/
def Stores.requeueable (s : Stores ι) : Finset JobId :=
  s.db.jobs.rows.filter fun k =>
    s.db.OldQueued now k ∧ s.redis.requeues time orphanClaimGrace k = true

variable {i now time} {s : Stores ι} {limited : List JobId → List JobId} {k : JobId}

omit [DecidableEq ι] in
theorem Stores.mem_lost : k ∈ s.lost now time ↔
    k ∈ s.db.jobs.rows ∧ s.db.OldQueued now k ∧ (s.redis.view k).Lost time := by
  classical simp [Stores.lost]

omit [DecidableEq ι] in
theorem Stores.mem_requeueable : k ∈ s.requeueable now time ↔
    k ∈ s.db.jobs.rows ∧ s.db.OldQueued now k ∧
      ∃ h, (s.redis.view k).Orphaned time orphanClaimGrace h := by
  simp only [Stores.requeueable, Finset.mem_filter, requeues_iff]

theorem mem_queuedBefore : k ∈ s.atRest.db.queuedBefore i (now - orphanMinAge) ↔
    k ∈ s.db.jobs.rows ∧ s.db.OldQueued now k := by
  simp only [Postgres.queuedBefore, List.mem_filter, mem_sorted, Finset.mem_val, decide_eq_true_eq]
  rfl

/-- It sweeps the rows that it got, and leaves the database alone. -/
theorem run_requeueLostJobs (s : Stores ι) :
    (run (requeueLostJobs i now time limited) s.atRest).2 =
      { s.atRest with
        redis := s.redis.sweep time orphanClaimGrace
          (limited (s.atRest.db.queuedBefore i (now - orphanMinAge))) } := by
  rw [requeueLostJobs, run_bind, run_onDb, run_bind, run_onRedis]
  rfl

/-- What the sweep leaves of a job. -/
theorem view_requeueLostJobs (s : Stores ι) (k : JobId) :
    (run (requeueLostJobs i now time limited) s.atRest).2.redis.view k =
      if k ∈ limited (s.atRest.db.queuedBefore i (now - orphanMinAge)) then
        (s.redis.view k).swept time orphanClaimGrace
      else s.redis.view k := by
  rw [run_requeueLostJobs, views_sweep]

/-- What is put in a queue was among the rows that it got, and the script took it for lost. -/
theorem orphaned_of_put {p : Int} (hbefore : (s.redis.pending p).lookup k = none)
    (hafter : ((run (requeueLostJobs i now time limited) s.atRest).2.redis.pending p).lookup k ≠
      none) : k ∈ limited (s.atRest.db.queuedBefore i (now - orphanMinAge)) ∧
        ∃ h, (s.redis.view k).Orphaned time orphanClaimGrace h := by
  rw [← Redis.view_pending, view_requeueLostJobs] at hafter
  split at hafter
  · next hmem =>
    refine ⟨hmem, ?_⟩
    by_contra hno
    rw [JobView.swept_of_not (not_exists.mp hno)] at hafter
    exact hafter hbefore
  · exact absurd hbefore hafter

variable (i now time)

/-- `requeue_lost_jobs` -/
noncomputable def lostJobs : Sweep (Stores ι) JobId where
  backlog := Stores.lost now time
  eligible := Stores.requeueable now time
  next s s' := ∃ result,
    Returned (fun _ => ()) orphanScanLimit (s.atRest.db.queuedBefore i (now - orphanMinAge))
      result ∧
    s' = (run (requeueLostJobs i now time fun _ => result) s.atRest).2
  handled s s' k := ∃ p, (s.redis.pending p).lookup k = none ∧ (s'.redis.pending p).lookup k ≠ none
  backlog_subset s k hk := by
    obtain ⟨hmem, hold, hlost⟩ := Stores.mem_lost.mp hk
    exact Stores.mem_requeueable.mpr ⟨hmem, hold, hlost.orphaned⟩
  backlog_next := by
    rintro s _ ⟨result, -, rfl⟩ k hk
    obtain ⟨hmem, hold, hlost⟩ := Stores.mem_lost.mp hk
    rw [view_requeueLostJobs] at hlost
    rw [run_requeueLostJobs] at hmem hold
    refine Stores.mem_lost.mpr ⟨hmem, hold, ?_⟩
    split at hlost
    · by_cases ho : ∃ h, (s.redis.view k).Orphaned time orphanClaimGrace h
      · exact absurd hlost (JobView.not_lost_swept ho)
      · rwa [JobView.swept_of_not (not_exists.mp ho)] at hlost
    · exact hlost
  eligible_next := by
    rintro s _ ⟨result, -, rfl⟩ k hk
    obtain ⟨hmem, hold, h, ho⟩ := Stores.mem_requeueable.mp hk
    rw [view_requeueLostJobs] at ho
    rw [run_requeueLostJobs] at hmem hold
    split at ho
    · exact absurd ho (JobView.not_orphaned_swept h fun _ _ => id)
    · exact Stores.mem_requeueable.mpr ⟨hmem, hold, h, ho⟩
  leaves := by
    rintro s _ k ⟨result, hreturned, rfl⟩ ⟨p, hbefore, hafter⟩
    obtain ⟨hin, ho⟩ := orphaned_of_put hbefore hafter
    obtain ⟨hmem, hold⟩ := mem_queuedBefore.mp (hreturned.subset hin)
    refine ⟨Stores.mem_requeueable.mpr ⟨hmem, hold, ho⟩, fun hagain => ?_⟩
    obtain ⟨-, -, h, ho'⟩ := Stores.mem_requeueable.mp hagain
    rw [view_requeueLostJobs, if_pos hin] at ho'
    exact JobView.not_orphaned_swept h (fun _ _ => id) ho'

/-- Fewer than `ORPHAN_SCAN_LIMIT` of the old queued rows are of no use to the script. -/
def LostSeen (s : Stores ι) : Prop :=
  (s.lost now time).Nonempty →
    ((s.atRest.db.queuedBefore i (now - orphanMinAge)).filter fun k =>
      !s.redis.requeues time orphanClaimGrace k).length < orphanScanLimit

theorem lostJobs_progress_iff (s : Stores ι) :
    (lostJobs i now time).Progress s ↔ LostSeen i now time s := by
  refine (Sweep.progress_iff (fun _ => Iff.rfl) fun result hreturned => ?_).trans
    (imp_congr_right fun hsome => room_iff ?_)
  · constructor
    · rintro ⟨k, q, hbefore, hafter⟩
      obtain ⟨hin, ho⟩ := orphaned_of_put hbefore hafter
      exact ⟨k, hin, (requeues_iff _ _ _ _).mpr ho⟩
    · rintro ⟨k, hk, hrequeues⟩
      obtain ⟨h, ho⟩ := (requeues_iff _ _ _ _).mp hrequeues
      refine ⟨k, h.priority.getD 0, ho.2.2.2.2, ?_⟩
      rw [← Redis.view_pending, view_requeueLostJobs, if_pos hk, JobView.swept_of_orphaned ho]
      simp [JobView.zaddPending]
  · obtain ⟨k, hk⟩ := hsome
    obtain ⟨hmem, hold, hlost⟩ := Stores.mem_lost.mp hk
    exact ⟨k, mem_queuedBefore.mpr ⟨hmem, hold⟩, (requeues_iff _ _ _ _).mpr hlost.orphaned⟩

end

/-! ## The retention of batches -/

def Shelf.atRest (s : Shelf ι) : Shelf ι :=
  { s with
    catalog :=
      { s.catalog with
        db := s.catalog.db.atRest
        batches := s.catalog.batches.atRest
        inserted := fun _ => [] } }

section

variable {i : ι}

/-- Nobody holds a row, and transaction `i` has inserted none. -/
structure Catalog.Rests (i : ι) (c : Catalog ι) : Prop where
  jobs : c.db.jobs.draft = fun _ => none
  batches : c.db.batches.draft = fun _ => none
  inserted : c.inserted i = []

omit [DecidableEq ι] in
theorem Shelf.rests_atRest (i : ι) (s : Shelf ι) : s.atRest.catalog.Rests i := ⟨rfl, rfl, rfl⟩

/-- What is left when the batches `ids` went with their pages. -/
structure Dropped (i : ι) (ids : List BatchId) (c c' : Catalog ι) : Prop where
  rests : c'.Rests i
  rows : ∀ b, b ∈ c'.db.batches.rows ↔ b ∈ c.db.batches.rows ∧ b ∉ ids
  jobs : ∀ k, k ∈ c'.db.jobs.rows ↔
    k ∈ c.db.jobs.rows ∧ ∀ b ∈ ids, (c.db.jobs.committed k).batchId ≠ some b
  batch : c'.db.batches.committed = c.db.batches.committed
  job : c'.db.jobs.committed = c.db.jobs.committed

omit [DecidableEq ι] in
theorem Dropped.refl {c : Catalog ι} (h : c.Rests i) : Dropped i [] c c where
  rests := h
  rows := by simp
  jobs := by simp
  batch := rfl
  job := rfl

omit [DecidableEq ι] in
theorem Dropped.cons {c c' c'' : Catalog ι} {b : BatchId} {ids : List BatchId}
    (h : Dropped i [b] c c') (h' : Dropped i ids c' c'') : Dropped i (b :: ids) c c'' where
  rests := h'.rests
  rows k := by rw [h'.rows, h.rows]; simp [and_assoc]
  jobs k := by rw [h'.jobs, h.jobs, h.job]; simp [and_assoc]
  batch := h'.batch.trans h.batch
  job := h'.job.trans h.job

/-- One batch goes, and the deletion is committed. -/
theorem dropped_commit {c : Catalog ι} (h : c.Rests i) (b : BatchId) :
    Dropped i [b] c ((c.deleteBatch i b).commit i) := by
  have hjobs : c.db.jobs.sees i = c.db.jobs.committed :=
    Table.sees_of_rest h.jobs
  have hbatches : c.db.batches.sees i = c.db.batches.committed :=
    Table.sees_of_rest h.batches
  have hcommit : (c.deleteBatch i b).commit i =
      { c.deleteBatch i b with
        db := (c.deleteBatch i b).db.commit i
        batches := (c.deleteBatch i b).batches.commit i
        inserted := Function.update c.inserted i [] } := by
    unfold Catalog.commit
    have hnone : (c.deleteBatch i b).inserted i = [] := h.inserted
    rw [hnone]
    rfl
  rw [hcommit]
  refine ⟨⟨?_, ?_, Function.update_self ..⟩, fun k => ?_, fun k => ?_, ?_, ?_⟩
  · funext k
    show (c.db.jobs.draft k).filter _ = none
    rw [h.jobs]
    rfl
  · funext k
    show (c.db.batches.draft k).filter _ = none
    rw [h.batches]
    rfl
  · show k ∈ c.db.batches.rows.erase b ↔ _
    rw [Finset.mem_erase, List.mem_singleton]
    exact And.comm
  · show k ∈ c.db.jobs.rows.filter (fun k => (c.db.jobs.sees i k).batchId ≠ some b) ↔ _
    rw [Finset.mem_filter, hjobs]
    simp
  · exact hbatches
  · exact hjobs

omit [DecidableEq ι] in
theorem run_deleteChunks (chunks : List (List ResultPath)) (s : Shelf ι) :
    (run (deleteChunks chunks) s).2.catalog = s.catalog := by
  induction chunks generalizing s with
  | nil => rfl
  | cons paths chunks ih => rw [deleteChunks, run_bind, ih]; rfl

theorem dropped_deleteBatches (batches : List FinishedBatch) {s : Shelf ι}
    (h : s.catalog.Rests i) : Dropped i (batches.map FinishedBatch.id) s.catalog
      (run (deleteBatches i batches) s).2.catalog := by
  induction batches generalizing s with
  | nil => exact .refl h
  | cons batch batches ih =>
    have hone : (run (deleteBatch i batch) s).2.catalog =
        (s.catalog.deleteBatch i batch.id).commit i := by
      rw [deleteBatch, run_bind, run_bind]
      show (((run (deleteChunks _) s).2.catalog).deleteBatch i batch.id).commit i = _
      rw [run_deleteChunks]
    have hdrop := dropped_commit h batch.id
    rw [← hone] at hdrop
    rw [deleteBatches, run_bind]
    exact hdrop.cons (ih hdrop.rests)

end

section

variable (i : ι) (now : ℚ) (doneTtl failedTtl : Int)

/-- The batch is finished, and expired under `batch_expired`. -/
def Postgres.expired (db : Postgres ι) (b : BatchId) : Bool :=
  (db.batches.committed b).status = .finished && (db.batches.committed b).finishedAt.any fun t =>
    batchExpired t (db.atRest.anyFailed i b) now doneTtl failedTtl

def Shelf.expired (s : Shelf ι) : Finset BatchId :=
  s.catalog.db.batches.rows.filter fun b => s.catalog.db.expired i now doneTtl failedTtl b

/-- The finished batches that the sweep may look at. -/
def Shelf.candidates (s : Shelf ι) : List FinishedBatch :=
  s.atRest.catalog.finishedBefore i (now - (min doneTtl failedTtl : Int))

def FinishedBatch.expired (batch : FinishedBatch) : Bool :=
  batchExpired batch.finishedAt batch.anyFailed now doneTtl failedTtl

variable {i now doneTtl failedTtl} {s : Shelf ι}

theorem dropped_deleteExpiredBatches (limited : List FinishedBatch → List FinishedBatch)
    (s : Shelf ι) : Dropped i
      (((limited (s.candidates i now doneTtl failedTtl)).filter
        (FinishedBatch.expired now doneTtl failedTtl)).map FinishedBatch.id) s.atRest.catalog
      (run (deleteExpiredBatches i now doneTtl failedTtl limited) s.atRest).2.catalog := by
  rw [deleteExpiredBatches, run_bind, run_bind]
  exact dropped_deleteBatches _ (s.rests_atRest i)

theorem mem_candidates {batch : FinishedBatch} : batch ∈ s.candidates i now doneTtl failedTtl ↔
    batch.id ∈ s.catalog.db.batches.rows ∧
      (s.catalog.db.batches.committed batch.id).status = .finished ∧
      (s.catalog.db.batches.committed batch.id).finishedAt = some batch.finishedAt ∧
      batch.finishedAt < now - (min doneTtl failedTtl : Int) ∧
      batch.username = (s.catalog.batches.committed batch.id).username ∧
      batch.anyFailed = s.catalog.db.atRest.anyFailed i batch.id := by
  obtain ⟨b, username, finishedAt, anyFailed⟩ := batch
  simp only [Shelf.candidates, Catalog.finishedBefore, List.mem_filterMap, mem_sorted,
    Finset.mem_val]
  constructor
  · rintro ⟨b', hmem, hsome⟩
    split at hsome
    · cases hsome
    · next t ht =>
      split at hsome
      · next hcond =>
        obtain ⟨rfl, rfl, rfl, rfl⟩ : b' = b ∧ _ = username ∧ t = finishedAt ∧ _ = anyFailed :=
          FinishedBatch.mk.inj (Option.some.inj hsome)
        exact ⟨hmem, hcond.1, ht, hcond.2, rfl, rfl⟩
      · cases hsome
  · rintro ⟨hmem, hstatus, ht, hlt, rfl, rfl⟩
    refine ⟨b, hmem, ?_⟩
    have ht' : (s.atRest.catalog.db.batches.sees i b).finishedAt = some finishedAt := ht
    rw [ht']
    exact if_pos ⟨hstatus, hlt⟩

theorem mem_expired {b : BatchId} : b ∈ s.expired i now doneTtl failedTtl ↔
    b ∈ s.catalog.db.batches.rows ∧ (s.catalog.db.batches.committed b).status = .finished ∧
      ∃ t, (s.catalog.db.batches.committed b).finishedAt = some t ∧
        batchExpired t (s.catalog.db.atRest.anyFailed i b) now doneTtl failedTtl = true := by
  simp only [Shelf.expired, Postgres.expired, Finset.mem_filter, Bool.and_eq_true,
    decide_eq_true_eq, Option.any_eq_true]

theorem expired_of_candidate {batch : FinishedBatch}
    (hmem : batch ∈ s.candidates i now doneTtl failedTtl)
    (h : batch.expired now doneTtl failedTtl = true) :
    batch.id ∈ s.expired i now doneTtl failedTtl := by
  obtain ⟨hrow, hstatus, ht, -, -, hfailed⟩ := mem_candidates.mp hmem
  refine mem_expired.mpr ⟨hrow, hstatus, _, ht, ?_⟩
  rw [← hfailed]
  exact h

/-- A batch that is left is as it was, and so are its pages. -/
theorem Dropped.expired_subset {s' : Shelf ι} {ids : List BatchId}
    (h : Dropped i ids s.atRest.catalog s'.catalog) :
    s'.expired i now doneTtl failedTtl ⊆ s.expired i now doneTtl failedTtl := by
  intro b hb
  obtain ⟨hmem, hstatus, t, ht, hexpired⟩ := mem_expired.mp hb
  obtain ⟨hrow, hout⟩ := (h.rows b).mp hmem
  have hbatch : s'.catalog.db.batches.committed = s.catalog.db.batches.committed := h.batch
  have hjob : s'.catalog.db.jobs.committed = s.catalog.db.jobs.committed := h.job
  have hfailed : s'.catalog.db.atRest.anyFailed i b = s.catalog.db.atRest.anyFailed i b := by
    refine decide_eq_decide.mpr (exists_congr fun k => ?_)
    show k ∈ s'.catalog.db.jobs.rows ∧ (s'.catalog.db.jobs.committed k).batchId = some b ∧
        (s'.catalog.db.jobs.committed k).status = .failed ↔
      k ∈ s.catalog.db.jobs.rows ∧ (s.catalog.db.jobs.committed k).batchId = some b ∧
        (s.catalog.db.jobs.committed k).status = .failed
    rw [h.jobs k, hjob]
    constructor
    · rintro ⟨⟨hk, -⟩, hpage, hst⟩
      exact ⟨hk, hpage, hst⟩
    · rintro ⟨hk, hpage, hst⟩
      refine ⟨⟨hk, fun b' hb' hpage' => ?_⟩, hpage, hst⟩
      have heq : b = b' := Option.some.inj (hpage.symm.trans hpage')
      exact hout (heq ▸ hb')
  rw [hbatch] at hstatus ht
  rw [hfailed] at hexpired
  exact mem_expired.mpr ⟨hrow, hstatus, t, ht, hexpired⟩

/-- What is gone was among the rows that the sweep got, and expired. -/
theorem expired_of_gone {limited : List FinishedBatch → List FinishedBatch} {b : BatchId}
    (hmem : b ∈ s.catalog.db.batches.rows)
    (hgone : b ∉ (run (deleteExpiredBatches i now doneTtl failedTtl limited)
      s.atRest).2.catalog.db.batches.rows) :
    ∃ batch ∈ limited (s.candidates i now doneTtl failedTtl),
      batch.expired now doneTtl failedTtl = true ∧ batch.id = b := by
  have hids := mt (fun hout => ((dropped_deleteExpiredBatches limited s).rows b).mpr ⟨hmem, hout⟩)
    hgone
  obtain ⟨batch, hbatch, heq⟩ := List.mem_map.mp (not_not.mp hids)
  obtain ⟨hbatch, hexpired⟩ := List.mem_filter.mp hbatch
  exact ⟨batch, hbatch, hexpired, heq⟩

variable (i now doneTtl failedTtl)

/-- `delete_expired_batches` -/
def expiredBatches : Sweep (Shelf ι) BatchId where
  backlog := Shelf.expired i now doneTtl failedTtl
  eligible := Shelf.expired i now doneTtl failedTtl
  next s s' := ∃ result, Returned FinishedBatch.finishedAt deleteBatchSize
      (s.candidates i now doneTtl failedTtl) result ∧
    s' = (run (deleteExpiredBatches i now doneTtl failedTtl fun _ => result) s.atRest).2
  handled s s' b := b ∈ s.catalog.db.batches.rows ∧ b ∉ s'.catalog.db.batches.rows
  backlog_subset _ := Finset.Subset.refl _
  backlog_next := by
    rintro s _ ⟨result, -, rfl⟩
    exact (dropped_deleteExpiredBatches _ s).expired_subset
  eligible_next := by
    rintro s _ ⟨result, -, rfl⟩
    exact (dropped_deleteExpiredBatches _ s).expired_subset
  leaves := by
    rintro s _ b ⟨result, hreturned, rfl⟩ ⟨hmem, hgone⟩
    obtain ⟨batch, hbatch, hexpired, rfl⟩ := expired_of_gone hmem hgone
    exact ⟨expired_of_candidate (hreturned.subset hbatch) hexpired,
      fun hstill => hgone (mem_expired.mp hstill).1⟩

/-- There is an expired batch before which fewer than `DELETE_BATCH` others finished, or at the same
time, that are past the shorter TTL and not expired. -/
def ExpiredSeen (s : Shelf ι) : Prop :=
  (s.expired i now doneTtl failedTtl).Nonempty →
    ∃ batch ∈ s.candidates i now doneTtl failedTtl, batch.expired now doneTtl failedTtl = true ∧
      ((s.candidates i now doneTtl failedTtl).filter
        (ahead FinishedBatch.finishedAt (FinishedBatch.expired now doneTtl failedTtl)
          batch)).length < deleteBatchSize

theorem expiredBatches_progress_iff (s : Shelf ι) :
    (expiredBatches i now doneTtl failedTtl).Progress s ↔
      ExpiredSeen i now doneTtl failedTtl s := by
  refine Sweep.progress_iff (fun _ => Iff.rfl) fun result hreturned => ?_
  constructor
  · rintro ⟨b, hmem, hgone⟩
    obtain ⟨batch, hbatch, hexpired, -⟩ := expired_of_gone hmem hgone
    exact ⟨batch, hbatch, hexpired⟩
  · rintro ⟨batch, hbatch, hexpired⟩
    obtain ⟨hrow, -⟩ := mem_candidates.mp (hreturned.subset hbatch)
    refine ⟨batch.id, hrow, fun hstill => ?_⟩
    refine (((dropped_deleteExpiredBatches (fun _ => result) s).rows batch.id).mp hstill).2 ?_
    exact List.mem_map_of_mem (List.mem_filter.mpr ⟨hbatch, hexpired⟩)

end

/-! ## All three -/

/-- **Each capped sweep is bound to make progress exactly when the rows that it has no use for leave
room under its `LIMIT`; if they always do, repeated sweeps clear every backlog.** -/
theorem capped_sweeps_progress (i : ι) (now time : ℚ) (queuedTimeout stateTtl : Nat)
    (runningTimeoutFor : Option String → Nat) (doneTtl failedTtl : Int) :
    (reaper i now queuedTimeout runningTimeoutFor stateTtl).ProgressesWhen
        (ReaperSees i now queuedTimeout runningTimeoutFor) ∧
      (lostJobs i now time).ProgressesWhen (LostSeen i now time) ∧
      (expiredBatches i now doneTtl failedTtl).ProgressesWhen
        (ExpiredSeen i now doneTtl failedTtl) :=
  ⟨Sweep.progressesWhen (reaper_progress_iff i now queuedTimeout runningTimeoutFor stateTtl),
    Sweep.progressesWhen (lostJobs_progress_iff i now time),
    Sweep.progressesWhen (expiredBatches_progress_iff i now doneTtl failedTtl)⟩

/-- Job 1 was lost on its way into a queue; the batch finished at time 100. -/
def sampleFew : Stores Unit where
  redis := ({} : Redis).hset 1 fun h => { h with status := some .queued }
  db :=
    { jobs := { rows := {1, 500}, committed := fun k => { sampleCrowded k with submittedAt := 0 } }
      batches :=
        { rows := {"b"}, committed := fun _ => { status := .finished, finishedAt := some 100 } } }

def sampleShelf : Shelf Unit where
  catalog :=
    { db := sampleFew.db
      batches := ⟨{"b"}, fun _ => { username := "u", domain := "d", outputs := ∅ }, fun _ => none⟩
      pages := fun _ => { sourceName := [], fmt := "", outputs := ∅ } }

/-- Each sweep has something to do, and few rows in its way. -/
theorem capped_sweeps_progress_sample :
    (500 ∈ sampleFew.overdue 1000 900 (fun _ => 300) ∧
      (reaper () 1000 900 (fun _ => 300) 3600).Progress sampleFew) ∧
    (1 ∈ sampleFew.lost 1000 1000 ∧ (lostJobs () 1000 1000).Progress sampleFew) ∧
    ("b" ∈ sampleShelf.expired () 1000 600 60 ∧
      (expiredBatches () 1000 600 60).Progress sampleShelf) := by
  obtain ⟨hreaper, hlost, hexpired⟩ :=
    capped_sweeps_progress () 1000 1000 900 3600 (fun _ => 300) 600 60
  refine ⟨⟨?_, (hreaper.exactly sampleFew).mpr fun _ => ?_⟩,
    ⟨?_, (hlost.exactly sampleFew).mpr fun _ => ?_⟩,
    ⟨?_, (hexpired.exactly sampleShelf).mpr fun _ => ?_⟩⟩
  · exact Stores.mem_overdue.mpr ⟨by decide, by decide +kernel⟩
  · decide +kernel
  · refine Stores.mem_lost.mpr ⟨by decide, by decide +kernel, _, rfl, rfl, fun _ => rfl, rfl, ?_⟩
    rintro ⟨t, ht, -⟩
    cases ht
  · decide +kernel
  · decide +kernel
  · refine ⟨⟨"b", "u", 100, false⟩, ?_, ?_, ?_⟩
    · decide +kernel
    · decide +kernel
    · decide +kernel

end Taas

import Taas.Properties.Statements

/-!
# The clocks of the reaper

Jobs are submitted, dispatched, requeued, harvested and reaped, over and over. Each call runs
whole at the time that the clock shows, except for the reaper's: the rows change between its look
at them and its verdict.

* `RowAction`, `Timeline.step` — the calls, and what they do to the rows.
* `Finding.Due` — by which clock a job is past its deadline.
* `reaped_past_deadline` — every job that the reaper fails was past its deadline when it looked.
-/

namespace Taas

open Infra Infra.Prog

variable {ι : Type} [DecidableEq ι]

/-! ## The calls -/

/-- What the reaper does about the jobs it found stale. -/
def failFound (i : ι) (now : ℚ) (stateTtl : Nat) (stale : List (JobId × JobRow × String)) :
    WorkerProg ι Unit := do
  let harvesting ← onRedis i (pendingHarvestMembers (stale.map Prod.fst))
  let stale := stale.filter fun job => job.1 ∉ harvesting
  if stale.isEmpty then onDb i (rollback i) else reapStale i now stateTtl stale

/-- A job that the reaper found stale, and when it last went through its phases. -/
structure Finding where
  jobId : JobId
  /-- The row as the reaper read it. -/
  row : JobRow
  reason : String
  readAt : ℚ
  submitted : ℚ
  dispatched : ℚ
  /-- When it last became queued. -/
  queued : ℚ

def Finding.job (f : Finding) : JobId × JobRow × String := (f.jobId, f.row, f.reason)

/-- Postgres and Redis, the clock, when each job went through its phases, and what the reapers
found and failed. -/
structure Timeline (ι : Type) where
  now : ℚ
  stores : Stores ι
  submitted : JobId → ℚ := fun _ => 0
  dispatched : JobId → ℚ := fun _ => 0
  queued : JobId → ℚ := fun _ => 0
  lookedAt : ι → ℚ := fun _ => 0
  found : ι → List Finding := fun _ => []
  failed : List Finding := []

/-- One call of a client, or a look at the clock. -/
inductive RowAction (ι : Type) where
  | clock (now : ℚ)
  /-- A new row, with the defaults of `jobs`. -/
  | submit (jobId : JobId) (row : JobRow)
  | dispatch (i : ι) (jobId : JobId) (backendId : BackendId) (engineJobId : String)
      (engineVersion : Option String)
  | retryLater (i : ι) (jobId : JobId) (originalScore : ℚ) (backendId : BackendId)
      (httpStatus : Option Int) (error : String) (delay : ℚ)
  | failJob (i : ι) (jobId : JobId) (state : JobState) (attempt : Attempt) (stateTtl : Nat)
  | requeue (i : ι) (polls : List RequeuedPoll) (stateTtl : Nat)
  | release (i : ι) (polls : List DonePoll)
  | harvest (i : ι) (jobId : JobId) (state : JobState) (stamps : EngineStamps) (fetched : Fetched)
      (delay : ℚ) (stateTtl : Nat)
  /-- The reaper reads the active rows, as many as `limited` says. -/
  | look (i : ι) (limited : List (JobId × JobRow) → List (JobId × JobRow))
  | reap (i : ι) (stateTtl : Nat)

/-- `LIMIT` leaves rows out. -/
def RowAction.Selects : RowAction ι → Prop
  | look _ limited => ∀ rows, limited rows ⊆ rows
  | _ => True

def JobRow.inserted (now : ℚ) (row : JobRow) : JobRow :=
  { row with status := .queued, submittedAt := now, dispatchedAt := none }

namespace Timeline

/-- Client `i` runs `p`, and closes its session. -/
def call (i : ι) (p : WorkerProg ι Unit) (w : Timeline ι) : Timeline ι :=
  let stores := (run p w.stores).2
  { w with stores := { stores with db := stores.db.rollback i } }

def submit (jobId : JobId) (row : JobRow) (w : Timeline ι) : Timeline ι :=
  if jobId ∈ w.stores.db.jobs.rows then w
  else
    { w with
      stores :=
        { w.stores with
          db := { w.stores.db with jobs := w.stores.db.jobs.add jobId (row.inserted w.now) } }
      submitted := Function.update w.submitted jobId w.now
      queued := Function.update w.queued jobId w.now }

variable (queuedTimeout : Nat) (runningTimeoutFor : Option String → Nat)

/-- What the reaper `i` finds. -/
def findings (i : ι) (limited : List (JobId × JobRow) → List (JobId × JobRow))
    (w : Timeline ι) : List Finding :=
  (selectStaleJobs w.now queuedTimeout runningTimeoutFor
    (run (selectActive i limited) w.stores.db).1).map fun job =>
      { jobId := job.1
        row := job.2.1
        reason := job.2.2
        readAt := w.now
        submitted := w.submitted job.1
        dispatched := w.dispatched job.1
        queued := w.queued job.1 }

/-- What the reaper `i` fails of what it found. -/
def verdicts (i : ι) (w : Timeline ι) : List Finding :=
  (w.found i).filter fun f =>
    f.jobId ∉ (run (pendingHarvestMembers ((w.found i).map Finding.jobId)) w.stores.redis).1

def step (w : Timeline ι) : RowAction ι → Timeline ι
  | .clock now => { w with now := now }
  | .submit jobId row => w.submit jobId row
  | .dispatch i jobId backendId engineJobId engineVersion =>
    { w.call i (recordRunning i w.now jobId backendId engineJobId engineVersion) with
      dispatched := Function.update w.dispatched jobId w.now }
  | .retryLater i jobId originalScore backendId httpStatus error delay =>
    w.call i (Taas.retryLater i w.now jobId originalScore backendId httpStatus error delay)
  | .failJob i jobId state attempt stateTtl =>
    w.call i (Taas.failJob i w.now jobId state attempt stateTtl)
  | .requeue i polls stateTtl =>
    { w.call i (Taas.requeue i w.now polls stateTtl) with
      queued := fun jobId =>
        if jobId ∈ polls.map RequeuedPoll.jobId then w.now else w.queued jobId }
  | .release i polls => w.call i (releaseForHarvest i w.now polls)
  | .harvest i jobId state stamps fetched delay stateTtl =>
    w.call i (Taas.harvest i w.now jobId state stamps fetched delay stateTtl)
  | .look i limited =>
    { w with
      lookedAt := Function.update w.lookedAt i w.now
      found := Function.update w.found i
        (w.findings queuedTimeout runningTimeoutFor i limited) }
  | .reap i stateTtl =>
    { w.call i (failFound i (w.lookedAt i) stateTtl ((w.found i).map Finding.job)) with
      found := Function.update w.found i []
      failed := w.failed ++ w.verdicts i }

end Timeline

/-! ## The invariant -/

/-- The job was queued and its submit is too long ago, or it was running or storing and its last
dispatch is. -/
structure Finding.Due (queuedTimeout : Nat) (runningTimeoutFor : Option String → Nat)
    (f : Finding) : Prop where
  active : f.row.status.isActive = true
  queued : f.row.status = .queued → queuedTimeout < f.readAt - f.submitted
  running : f.row.status = .running ∨ f.row.status = .storing →
    runningTimeoutFor f.row.domain < f.readAt - f.dispatched

/-- The row's clocks show when the job was submitted and last dispatched. -/
structure JobRow.Clocked (submitted dispatched : ℚ) (row : JobRow) : Prop where
  submittedAt : row.submittedAt = submitted
  dispatchedAt : ∀ t, row.dispatchedAt = some t → t = dispatched

/-- All versions of all rows are right, and only client `i` holds any of its own. -/
structure Postgres.Clocked (i : ι) (submitted dispatched : JobId → ℚ) (db : Postgres ι) :
    Prop where
  committed : ∀ k ∈ db.jobs.rows, (db.jobs.committed k).Clocked (submitted k) (dispatched k)
  seen : ∀ k ∈ db.jobs.rows, (db.jobs.sees i k).Clocked (submitted k) (dispatched k)
  own : ∀ k j row, db.jobs.draft k = some (j, row) → j = i

/-- The updates of all writers but `_record_running`. -/
def notRecordRunning (writer : Writer) : Prop := writer ≠ .recordRunning

theorem RowUpdate.clocked {writer : Writer} {cond : JobRow → Bool} {values : JobRow → JobRow}
    (h : RowUpdate writer cond values) (hw : notRecordRunning writer) {row : JobRow}
    {submitted dispatched : ℚ} (hrow : row.Clocked submitted dispatched) :
    (values row).Clocked submitted dispatched := by
  cases h with
  | recordRunning => exact absurd rfl hw
  | retryLater | failJob | recordDone | markFailed | releaseForHarvest | reap =>
    exact ⟨hrow.submittedAt, hrow.dispatchedAt⟩
  | requeue => exact ⟨hrow.submittedAt, nofun⟩

section

variable {i : ι} {submitted dispatched : JobId → ℚ}

/-- A statement that records no dispatch keeps the clocks right. -/
theorem RowStatement.clocked {effect : Postgres ι → Postgres ι} {log : Postgres ι → List Statement}
    (h : RowStatement notRecordRunning i effect log) {db : Postgres ι}
    (hdb : db.Clocked i submitted dispatched) : (effect db).Clocked i submitted dispatched := by
  obtain ⟨hcommitted, hseen, hown⟩ := hdb
  cases h with
  | other h =>
    have hjobs := h db
    exact ⟨by rw [hjobs]; exact hcommitted, by rw [hjobs]; exact hseen, by rw [hjobs]; exact hown⟩
  | commit =>
    refine ⟨hseen, fun k hk => ?_, fun k j row hd => hown k j row (Table.draft_commit.mp hd).1⟩
    rw [Postgres.commit, Table.sees_of_idle Table.idle_commit]
    exact hseen k hk
  | rollback =>
    refine ⟨hcommitted, fun k hk => ?_, fun k j row hd => hown k j row (Table.draft_rollback.mp hd).1⟩
    rw [Postgres.rollback, Table.sees_of_idle Table.idle_rollback]
    exact hcommitted k hk
  | @update writer cond values jobId h hw =>
    unfold Postgres.update
    split
    · refine ⟨hcommitted, fun k hk => ?_, fun k j row hd => ?_⟩
      · by_cases hkj : k = jobId
        · subst hkj
          rw [Postgres.writeJob, Table.sees_write_self]
          exact h.clocked hw (hseen k hk)
        · rw [Postgres.writeJob, Table.sees_write_of_ne hkj]
          exact hseen k hk
      · by_cases hkj : k = jobId
        · subst hkj
          rw [Postgres.writeJob, Table.draft_write_self] at hd
          exact (Prod.mk.inj (Option.some.inj hd)).1.symm
        · rw [Postgres.writeJob, Table.draft_write_of_ne hkj] at hd
          exact hown k j row hd
    · exact ⟨hcommitted, hseen, hown⟩

/-- A whole call that records no dispatch keeps the clocks right. -/
theorem clocked_run {p : WorkerProg ι Unit} (hp : p.Each (WorkerStatement notRecordRunning i))
    {s : Stores ι} (hs : s.db.Clocked i submitted dispatched) :
    (run p s).2.db.Clocked i submitted dispatched := by
  refine Each.run (I := fun s _ => s.db.Clocked i submitted dispatched) ?_ hp (e := []) hs
  intro effect log s es hc h
  rcases hc with hdb | ⟨dbEffect, dbLog, hrow, hdb, -⟩
  · rw [hdb s]
    exact h
  · rw [hdb s]
    exact hrow.clocked h

end

namespace Timeline

variable {queuedTimeout : Nat} {runningTimeoutFor : Option String → Nat} {w : Timeline ι} {i : ι}

/-- Between two calls nobody holds a row, the rows' clocks are right, and whatever a reaper found
or failed was due. -/
structure Timed (queuedTimeout : Nat) (runningTimeoutFor : Option String → Nat)
    (w : Timeline ι) : Prop where
  free : ∀ k, w.stores.db.jobs.draft k = none
  clocked : ∀ k ∈ w.stores.db.jobs.rows,
    (w.stores.db.jobs.committed k).Clocked (w.submitted k) (w.dispatched k)
  found : ∀ i, ∀ f ∈ w.found i, f.Due queuedTimeout runningTimeoutFor
  failed : ∀ f ∈ w.failed, f.Due queuedTimeout runningTimeoutFor

theorem sees_of_free {t : Table JobId JobRow ι} (h : ∀ k, t.draft k = none) (i : ι) :
    t.sees i = t.committed := Table.sees_of_idle fun k row hd => by rw [h k] at hd; cases hd

/-- What a client leaves when it closed its session. -/
theorem free_rollback {db : Postgres ι} (hown : ∀ k j row, db.jobs.draft k = some (j, row) → j = i)
    (k : JobId) : (db.rollback i).jobs.draft k = none := by
  cases hd : (db.rollback i).jobs.draft k with
  | none => rfl
  | some d =>
    obtain ⟨hdraft, hne⟩ := Table.draft_rollback.mp hd
    exact absurd (hown k d.1 d.2 hdraft) hne

theorem Timed.call (h : w.Timed queuedTimeout runningTimeoutFor) {p : WorkerProg ι Unit}
    (hp : p.Each (WorkerStatement notRecordRunning i)) :
    (w.call i p).Timed queuedTimeout runningTimeoutFor := by
  have hstart : w.stores.db.Clocked i w.submitted w.dispatched :=
    ⟨h.clocked, by rw [sees_of_free h.free]; exact h.clocked,
      fun k j row hd => by rw [h.free k] at hd; cases hd⟩
  have hend := clocked_run hp hstart
  exact ⟨free_rollback hend.own, hend.committed, h.found, h.failed⟩

/-- The dispatch that was recorded is the job's last one. -/
theorem Timed.dispatch (h : w.Timed queuedTimeout runningTimeoutFor) (jobId : JobId)
    (backendId : BackendId) (engineJobId : String) (engineVersion : Option String) :
    (w.step queuedTimeout runningTimeoutFor
      (.dispatch i jobId backendId engineJobId engineVersion)).Timed
        queuedTimeout runningTimeoutFor := by
  let values : JobRow → JobRow := fun row =>
    { row with
      status := .running
      dispatchedAt := some w.now
      engineJobId := some engineJobId
      engineVersion := engineVersion
      backendId := some backendId }
  let db := w.stores.db
  let written := Postgres.update i jobId (fun _ => true) values db
  -- what the transaction sees after its update, and commits
  have hwritten : written.jobs.rows = db.jobs.rows ∧
      (∀ k ∈ db.jobs.rows, (written.jobs.sees i k).Clocked (w.submitted k)
        (Function.update w.dispatched jobId w.now k)) ∧
      ∀ k j row, written.jobs.draft k = some (j, row) → j = i := by
    by_cases hm : db.matchesJob i jobId (fun _ => true) = true
    · have hw : written = db.writeJob i jobId values := if_pos hm
      rw [hw]
      refine ⟨rfl, fun k hk => ?_, fun k j row hd => ?_⟩
      · by_cases hkj : k = jobId
        · subst hkj
          rw [Postgres.writeJob, Table.sees_write_self, Function.update_self,
            sees_of_free h.free]
          exact ⟨(h.clocked k hk).submittedAt, fun t ht => (Option.some.inj ht).symm⟩
        · rw [Postgres.writeJob, Table.sees_write_of_ne hkj, Function.update_of_ne hkj,
            sees_of_free h.free]
          exact h.clocked k hk
      · by_cases hkj : k = jobId
        · subst hkj
          rw [Postgres.writeJob, Table.draft_write_self] at hd
          exact (Prod.mk.inj (Option.some.inj hd)).1.symm
        · rw [Postgres.writeJob, Table.draft_write_of_ne hkj, h.free k] at hd
          cases hd
    · have hw : written = db := if_neg hm
      rw [hw]
      refine ⟨rfl, fun k hk => ?_, fun k j row hd => by rw [h.free k] at hd; cases hd⟩
      have hkj : k ≠ jobId := by
        rintro rfl
        exact hm (by simp [Postgres.matchesJob, hk])
      rw [Function.update_of_ne hkj, sees_of_free h.free]
      exact h.clocked k hk
  obtain ⟨hrows, hseen, hown⟩ := hwritten
  refine ⟨free_rollback fun k j row hd => hown k j row (Table.draft_commit.mp hd).1, fun k hk => ?_,
    h.found, h.failed⟩
  have hk' : k ∈ db.jobs.rows := by
    rw [← hrows]
    exact hk
  exact hseen k hk'

omit [DecidableEq ι] in
theorem Timed.submit (h : w.Timed queuedTimeout runningTimeoutFor) (jobId : JobId)
    (row : JobRow) : (w.submit jobId row).Timed queuedTimeout runningTimeoutFor := by
  unfold Timeline.submit
  split
  · exact h
  · refine ⟨h.free, fun k hk => ?_, h.found, h.failed⟩
    by_cases hkj : k = jobId
    · subst hkj
      simp only [Table.add, Function.update_self]
      exact ⟨rfl, nofun⟩
    · have hk' : k ∈ w.stores.db.jobs.rows := (Finset.mem_insert.mp hk).resolve_left hkj
      simp only [Table.add, Function.update_of_ne hkj]
      exact h.clocked k hk'

/-- What the reaper finds is due. -/
theorem Timed.findings (h : w.Timed queuedTimeout runningTimeoutFor)
    {limited : List (JobId × JobRow) → List (JobId × JobRow)}
    (hlimited : ∀ rows, limited rows ⊆ rows) :
    ∀ f ∈ w.findings queuedTimeout runningTimeoutFor i limited,
      f.Due queuedTimeout runningTimeoutFor := by
  intro f hf
  obtain ⟨⟨jobId, row, reason⟩, hstale, rfl⟩ := List.mem_map.mp hf
  obtain ⟨job, hjob, hreason⟩ := List.mem_filterMap.mp hstale
  obtain ⟨reason', hreason', heq⟩ := Option.map_eq_some_iff.mp hreason
  obtain ⟨rfl, rfl, rfl⟩ : job.1 = jobId ∧ job.2 = row ∧ reason' = reason := by
    cases heq
    exact ⟨rfl, rfl, rfl⟩
  -- the row as it was committed
  obtain ⟨hmem, hactive⟩ := List.mem_filter.mp (hlimited _ hjob)
  obtain ⟨k, hk, rfl⟩ := List.mem_map.mp hmem
  rw [mem_sorted, Finset.mem_val] at hk
  have hclocked := h.clocked k hk
  rw [← sees_of_free h.free i] at hclocked
  refine ⟨hactive, fun hqueued => ?_, fun hrunning => ?_⟩
  · rw [staleReason, hqueued] at hreason'
    dsimp only at hreason'
    split at hreason'
    · next hlt =>
      rw [hclocked.submittedAt] at hlt
      show (queuedTimeout : ℚ) < w.now - w.submitted k
      linarith
    · cases hreason'
  · have hlt : ∃ t, (w.stores.db.jobs.sees i k).dispatchedAt = some t ∧
        t < w.now - runningTimeoutFor (w.stores.db.jobs.sees i k).domain := by
      unfold staleReason at hreason'
      rcases hrunning with hst | hst <;> rw [hst] at hreason' <;> dsimp only at hreason' <;>
        split at hreason'
      · cases hreason'
      · split at hreason'
        · exact ⟨_, ‹_›, ‹_›⟩
        · cases hreason'
      · cases hreason'
      · split at hreason'
        · exact ⟨_, ‹_›, ‹_›⟩
        · cases hreason'
    obtain ⟨t, ht, hlt⟩ := hlt
    rw [hclocked.dispatchedAt t ht] at hlt
    show (runningTimeoutFor (w.stores.db.jobs.sees i k).domain : ℚ) < w.now - w.dispatched k
    linarith

theorem statements_failFound {W : Writer → Prop} (now : ℚ) (stateTtl : Nat)
    (stale : List (JobId × JobRow × String)) (hw : W .reap) :
    Each (WorkerStatement W i) (failFound i now stateTtl stale) := by
  refine (statements_onRedis _).bind fun harvesting => ?_
  dsimp only
  split
  · exact statements_onDb statements_rollback
  · exact statements_reapStale now stateTtl _ hw

/-- **Every call keeps the clocks right.** -/
theorem Timed.step (h : w.Timed queuedTimeout runningTimeoutFor) (a : RowAction ι)
    (ha : a.Selects) :
    (w.step queuedTimeout runningTimeoutFor a).Timed queuedTimeout runningTimeoutFor := by
  cases a with
  | clock now => exact ⟨h.free, h.clocked, h.found, h.failed⟩
  | submit jobId row => exact h.submit jobId row
  | dispatch i jobId backendId engineJobId engineVersion =>
    exact h.dispatch jobId backendId engineJobId engineVersion
  | retryLater => exact h.call (statements_retryLater _ _ _ _ _ _ nofun)
  | failJob => exact h.call (statements_failJob _ _ _ _ nofun)
  | requeue i polls stateTtl =>
    have hcall := h.call (i := i) (statements_requeue w.now polls stateTtl nofun)
    exact ⟨hcall.free, hcall.clocked, hcall.found, hcall.failed⟩
  | release => exact h.call (statements_releaseForHarvest _ _ nofun)
  | harvest => exact h.call (statements_harvest _ _ _ _ _ _ nofun nofun)
  | look i limited =>
    refine ⟨h.free, h.clocked, fun j f hf => ?_, h.failed⟩
    have hf' : f ∈ Function.update w.found i
      (w.findings queuedTimeout runningTimeoutFor i limited) j := hf
    by_cases hji : j = i
    · rw [hji, Function.update_self] at hf'
      exact h.findings ha f hf'
    · rw [Function.update_of_ne hji] at hf'
      exact h.found j f hf'
  | reap i stateTtl =>
    have hcall := h.call (i := i) (statements_failFound (w.lookedAt i) stateTtl
      ((w.found i).map Finding.job) nofun)
    refine ⟨hcall.free, hcall.clocked, fun j f hf => ?_, fun f hf => ?_⟩
    · have hf' : f ∈ Function.update w.found i [] j := hf
      by_cases hji : j = i
      · rw [hji, Function.update_self] at hf'
        cases hf'
      · rw [Function.update_of_ne hji] at hf'
        exact h.found j f hf'
    · have hf' : f ∈ w.failed ++ w.verdicts i := hf
      rcases List.mem_append.mp hf' with hf | hf
      · exact h.failed f hf
      · exact h.found i f (List.mem_filter.mp hf).1

theorem Timed.run (h : w.Timed queuedTimeout runningTimeoutFor) {actions : List (RowAction ι)}
    (hactions : ∀ a ∈ actions, a.Selects) :
    (actions.foldl (Timeline.step queuedTimeout runningTimeoutFor) w).Timed
      queuedTimeout runningTimeoutFor := by
  induction actions generalizing w with
  | nil => exact h
  | cons a actions ih =>
    exact ih (h.step a (hactions a (List.mem_cons_self ..)))
      fun b hb => hactions b (List.mem_cons_of_mem _ hb)

/-- Before the first job. -/
def start (now : ℚ) (redis : Redis) : Timeline ι where
  now := now
  stores :=
    { redis := redis
      db :=
        { jobs := { rows := ∅, committed := fun _ => { username := "", submittedAt := 0 } }
          batches := { rows := ∅, committed := fun _ => {} } } }

omit [DecidableEq ι] in
theorem timed_start (now : ℚ) (redis : Redis) :
    (start now redis : Timeline ι).Timed queuedTimeout runningTimeoutFor where
  free _ := rfl
  clocked k hk := absurd hk (Finset.notMem_empty k)
  found _ _ hf := absurd hf List.not_mem_nil
  failed _ hf := absurd hf List.not_mem_nil

end Timeline

/-- **The reaper fails a queued job only when more than the queued timeout has passed since it was
submitted, and one that is running or storing only when more than its domain's running timeout
has passed since it was last dispatched.** -/
theorem reaped_past_deadline (queuedTimeout : Nat) (runningTimeoutFor : Option String → Nat)
    (now : ℚ) (redis : Redis) (actions : List (RowAction ι)) (h : ∀ a ∈ actions, a.Selects) :
    ∀ f ∈ (actions.foldl (Timeline.step queuedTimeout runningTimeoutFor)
      (.start now redis)).failed, f.Due queuedTimeout runningTimeoutFor :=
  ((Timeline.timed_start now redis).run h).failed

/-! ## A requeued job -/

/-- Job 1 runs for 990 s, goes back to the queue, and is found there a second later. -/
def sampleDeadlines (requeued : Bool) : List (RowAction Unit) :=
  [.submit 1 { username := "u", submittedAt := 0 }, .clock 10, .dispatch () 1 1 "a" none,
    .clock 1000] ++
  (if requeued then
    [.requeue () [
      { jobId := 1
        state := { username := "u", fmt := "txt", outputs := {"txt"}, submittedAt := 0 }
        delayS := 0
        attempt := ⟨1000, .poll, some 1, none, "unreachable", true⟩ }] 3600]
  else []) ++
  [.clock 1001, .look () id, .reap () 3600]

theorem sampleDeadlines_selects (requeued : Bool) : ∀ a ∈ sampleDeadlines requeued, a.Selects := by
  cases requeued <;> simp [sampleDeadlines, RowAction.Selects]

/-- It has been in the queue for a second when the reaper fails it for its 900 s there. -/
theorem requeued_job_times_out : ∃ actions : List (RowAction Unit), (∀ a ∈ actions, a.Selects) ∧
    ∃ f ∈ (actions.foldl (Timeline.step 900 fun _ => 300) (.start 0 {})).failed,
      f.row.status = .queued ∧ ¬900 < f.readAt - f.queued := by
  refine ⟨sampleDeadlines true, sampleDeadlines_selects true, ?_⟩
  have h : ((sampleDeadlines true).foldl (Timeline.step 900 fun _ => 300)
      (.start 0 {})).failed.any (fun f => decide (f.row.status = .queued) &&
        decide (¬900 < f.readAt - f.queued)) = true := by decide +kernel
  obtain ⟨f, hf, hqueued⟩ := List.any_eq_true.mp h
  rw [Bool.and_eq_true, decide_eq_true_eq, decide_eq_true_eq] at hqueued
  exact ⟨f, hf, hqueued⟩

/-- Without the requeue it is found running, dispatched 991 s ago. -/
theorem reaped_past_deadline_sample : ∃ f : Finding, f.row.status = .running ∧
    f.Due 900 fun _ => 300 := by
  have h : ((sampleDeadlines false).foldl (Timeline.step 900 fun _ => 300)
      (.start 0 {})).failed.any (fun f => decide (f.row.status = .running)) = true := by
    decide +kernel
  obtain ⟨f, hf, hrunning⟩ := List.any_eq_true.mp h
  exact ⟨f, of_decide_eq_true hrunning, reaped_past_deadline 900 (fun _ => 300) 0 {} _
    (sampleDeadlines_selects false) f hf⟩

end Taas

import Taas.Properties.Commands
import Taas.System
import Taas.Workers.Tick

/-!
# The budget of unstored jobs

The submit worker reads the budget in two commands and spends it over several tiers, while the
pollers and the reaper move jobs on.

* `Redis.unstored` — the jobs that the budget is about.
* `Shrinks` — the commands that leave no more of them, and no more in flight.
* `dispatchJob_spends` — a dispatch adds one at most.
* `triple_dispatchTiers` — the tiers together add no more than what remained.
* `unstored_le_budget` — the budget is kept in every run.
-/

namespace Taas

open Infra Infra.Prog Infra.Contract

/-! ## Jobs that are not stored yet -/

/-- `|jobs:inflight| + |jobs:pending_harvest|` -/
def Redis.unstored (r : Redis) : Nat := r.inflight.card + r.pendingHarvest.keys.card

/-- Neither more jobs in flight nor more jobs unstored. -/
def Shrinks (effect : Redis → Redis) : Prop :=
  ∀ r, (effect r).inflight.card ≤ r.inflight.card ∧ (effect r).unstored ≤ r.unstored

theorem shrinks_of_eq {effect : Redis → Redis}
    (h : ∀ r, (effect r).inflight = r.inflight ∧ (effect r).pendingHarvest = r.pendingHarvest) :
    Shrinks effect := by
  intro r
  unfold Redis.unstored
  rw [(h r).1, (h r).2]
  exact ⟨le_refl _, le_refl _⟩

theorem shrinks_sremInflight (j : JobId) : Shrinks (Redis.sremInflight j) := by
  intro r
  have hcard : (r.inflight.erase j).card ≤ r.inflight.card := Finset.card_erase_le
  exact ⟨hcard, Nat.add_le_add_right hcard _⟩

theorem card_keys_erase_le {s : SortedSet JobId} (j : JobId) :
    (s.erase j).keys.card ≤ s.keys.card := by
  rw [Finmap.keys_erase]
  exact Finset.card_erase_le

theorem card_keys_insert_le {s : SortedSet JobId} (j : JobId) (score : ℚ) :
    (s.insert j score).keys.card ≤ s.keys.card + 1 := by
  have hkeys : (s.insert j score).keys ⊆ insert j s.keys := by
    intro k hk
    simpa [Finmap.mem_keys, Finmap.mem_insert] using hk
  exact (Finset.card_le_card hkeys).trans (Finset.card_insert_le j s.keys)

theorem shrinks_zremHarvest (j : JobId) : Shrinks (Redis.zremHarvest j) :=
  fun r => ⟨le_refl _, Nat.add_le_add_left (card_keys_erase_le j) r.inflight.card⟩

theorem shrinks_hmod (j : JobId) (f : JobHash → JobHash) : Shrinks (Redis.hmod j f) := by
  refine shrinks_of_eq fun r => ?_
  obtain ⟨jobs, h⟩ := r.exists_hmod j f
  rw [h]
  exact ⟨rfl, rfl⟩

theorem countReleased_sets (state : JobState) (r : Redis) :
    (r.countReleased state).inflight = r.inflight ∧
      (r.countReleased state).pendingHarvest = r.pendingHarvest := by
  unfold Redis.countReleased
  split
  · exact ⟨rfl, rfl⟩
  · split
    · exact ⟨rfl, rfl⟩
    · dsimp only
      split <;> exact ⟨rfl, rfl⟩

/-- What leaves the in-flight set enters the harvest queue. -/
theorem shrinks_releaseDone (now : ℚ) (j : JobId) (state : JobState) (engineRun : EngineRun) :
    Shrinks (Redis.releaseDone now j state engineRun) := by
  intro r
  unfold Redis.releaseDone
  split
  · next hj =>
    obtain ⟨hin, hharvest⟩ := countReleased_sets state
      (((r.sremInflight j).zaddHarvest j now).hmod j (JobHash.storing engineRun))
    obtain ⟨jobs, hmod⟩ := ((r.sremInflight j).zaddHarvest j now).exists_hmod j
      (JobHash.storing engineRun)
    rw [hmod] at hin hharvest
    have hcard := Finset.card_erase_add_one hj
    have hkeys := card_keys_insert_le (s := r.pendingHarvest) j now
    unfold Redis.unstored
    rw [hmod, hin, hharvest]
    change (r.inflight.erase j).card ≤ r.inflight.card ∧
      (r.inflight.erase j).card + (r.pendingHarvest.insert j now).keys.card ≤ _
    omega
  · exact ⟨le_refl _, le_refl _⟩

theorem shrinks_markFailed (now : ℚ) (j : JobId) (error : String) (stateTtl : Nat) :
    Shrinks (Redis.markFailed now j error stateTtl) := by
  intro r
  obtain ⟨jobs, h⟩ := r.exists_markFailed now j error stateTtl
  rw [h]
  exact shrinks_zremHarvest j r

theorem shrinks_claim (now : ℚ) (entry : QueueEntry) : Shrinks (Redis.claim now entry) := by
  refine shrinks_of_eq fun r => ?_
  unfold Redis.claim
  split
  · exact ⟨rfl, rfl⟩
  · split <;> exact ⟨rfl, rfl⟩

theorem shrinks_commands : OfCommands fun effect _ => Shrinks effect where
  loadQueued _ _ := shrinks_of_eq fun _ => ⟨rfl, rfl⟩
  loadInflight _ _ := shrinks_of_eq fun _ => ⟨rfl, rfl⟩
  loads _ := shrinks_of_eq fun _ => ⟨rfl, rfl⟩
  backend _ _ := shrinks_of_eq fun _ => ⟨rfl, rfl⟩
  batchPages _ _ _ := shrinks_of_eq fun _ => ⟨rfl, rfl⟩
  dropBatch _ _ := shrinks_of_eq fun _ => ⟨rfl, rfl⟩
  wakeSubmit := shrinks_of_eq fun _ => ⟨rfl, rfl⟩
  query := shrinks_of_eq fun _ => ⟨rfl, rfl⟩
  hset _ _ := shrinks_of_eq fun _ => ⟨rfl, rfl⟩
  hmod := shrinks_hmod
  put _ _ _ := shrinks_of_eq fun _ => ⟨rfl, rfl⟩
  drop _ _ := shrinks_of_eq fun _ => ⟨rfl, rfl⟩
  claim := shrinks_claim
  level _ := shrinks_of_eq fun _ => ⟨rfl, rfl⟩
  delay _ _ := shrinks_of_eq fun _ => ⟨rfl, rfl⟩
  promote _ := shrinks_of_eq fun _ => ⟨rfl, rfl⟩
  leaveInflight := shrinks_sremInflight
  leaveHarvest := shrinks_zremHarvest
  release := shrinks_releaseDone
  markFailed := shrinks_markFailed
  countPage _ _ := shrinks_of_eq fun _ => ⟨rfl, rfl⟩
  publish _ _ := shrinks_of_eq fun _ => ⟨rfl, rfl⟩

/-! ## What a dispatch adds -/

variable {ι : Type}

/-- `Shrinks`, of the Redis of the stores. -/
def StoresShrink (effect : Stores ι → Stores ι) : Prop :=
  ∀ s, (effect s).redis.inflight.card ≤ s.redis.inflight.card ∧
    (effect s).redis.unstored ≤ s.redis.unstored

/-- At most one job more is unstored. -/
def AddsOne (effect : Stores ι → Stores ι) : Prop :=
  ∀ s, (effect s).redis.unstored ≤ s.redis.unstored + 1

/-- At most `n` commands of the program add a job. -/
abbrev Adds {α : Type} (p : WorkerProg ι α) (n : Nat) : Prop := p.Spends StoresShrink AddsOne n

theorem each_onRedis (i : ι) {α : Type} {p : RedisProg α} (h : p.Each fun effect _ => Shrinks effect) :
    (onRedis i p).Each fun effect _ => StoresShrink effect :=
  Each.zoom (fun _ _ hs (t : Stores ι) => hs t.redis) h

theorem adds_onRedis (i : ι) {α : Type} {p : RedisProg α}
    (h : p.Each fun effect _ => Shrinks effect) (n : Nat) : Adds (onRedis i p) n :=
  spends_of_each (each_onRedis i h) n

theorem adds_onDb (i : ι) {α : Type} (p : DbProg ι α) (n : Nat) : Adds (onDb i p) n := by
  refine spends_of_each (Each.zoom (C := fun _ _ => True) ?_ (each_of_forall (fun _ _ => trivial) p)) n
  exact fun _ _ _ s => ⟨le_refl _, le_refl _⟩

theorem adds_setRunning (settings : Settings) (now : ℚ) (j : JobId) (engineJobId backendUrl : String)
    (b : BackendId) (stateTtl : Nat) :
    (setRunning settings now j engineJobId backendUrl b stateTtl).Spends Shrinks
      (fun effect => ∀ r, (effect r).unstored ≤ r.unstored + 1) 1 := by
  refine Or.inl ⟨shrinks_commands.hset _ _, fun _ => Or.inl ⟨shrinks_hmod _ _, fun _ => ?_⟩⟩
  -- only the `SADD` adds a job
  refine Or.inr ⟨0, rfl, fun r => ?_, fun s => ?_⟩
  · have hcard := Finset.card_insert_le j r.inflight
    unfold Redis.unstored Redis.saddInflight
    dsimp only
    omega
  · refine spends_of_each (Each.bind (Each.when ?_) fun _ => each_call ?_) 0
    · refine (shrinks_commands.getJob j).bind fun state => each_call (shrinks_of_eq fun r => ?_)
      unfold Redis.countRunning
      split
      · exact ⟨rfl, rfl⟩
      · dsimp only
        split <;> exact ⟨rfl, rfl⟩
    · exact shrinks_of_eq fun _ => ⟨rfl, rfl⟩

section

variable [DecidableEq ι] (i : ι) (settings : Settings) (input : TickInput)

omit [DecidableEq ι] in
theorem adds_publishBatch (username : String) (batch : Option (BatchId × BatchCounts)) (n : Nat) :
    Adds (publishBatch i username batch) n := by
  cases batch with
  | none => trivial
  | some counts => exact adds_onRedis i (shrinks_commands.publishEvent _ _) n

theorem adds_failJob (now : ℚ) (j : JobId) (state : JobState) (attempt : Attempt)
    (stateTtl : Nat) : Adds (failJob i now j state attempt stateTtl) 0 :=
  Spends.bind (adds_onRedis i (shrinks_commands.setFailed ..) 0) fun _ =>
    Spends.bind (m := 0) (n := 0) (adds_onDb i _ 0) fun _ =>
      Spends.bind (m := 0) (n := 0) (adds_onRedis i (shrinks_commands.publishEvent ..) 0) fun _ =>
        adds_publishBatch i _ _ 0

theorem adds_dispatchFailed (j : JobId) (score : ℚ) (state : JobState) (backend : Backend)
    (failure : DispatchFailure) : Adds (dispatchFailed i input j score state backend failure) 0 := by
  unfold dispatchFailed
  split
  · exact Spends.bind (adds_onRedis i (shrinks_commands.countRequeue j) 0) fun _ =>
      Spends.bind (m := 0) (n := 0) (adds_onRedis i (shrinks_commands.scheduleRetry ..) 0) fun _ =>
        adds_onDb i _ 0
  · exact adds_failJob i _ _ _ _ _

/-- **A dispatch adds one unstored job at most.** -/
theorem adds_dispatchJob (j : JobId) (score : ℚ) (slot : BackendSlot) (state : JobState) :
    Adds (dispatchJob i settings input j score slot state) 1 := by
  have hrunning : ∀ engineJobId, (setRunning settings input.now j engineJobId slot.backend.url
      slot.backend.id input.stateTtl).Spends Shrinks
        (fun effect => ∀ r, (effect r).unstored ≤ r.unstored + 1) 1 :=
    fun engineJobId => adds_setRunning settings _ _ _ _ _ _
  have hlift : ∀ p : RedisProg Unit, p.Spends Shrinks
      (fun effect => ∀ r, (effect r).unstored ≤ r.unstored + 1) 1 → Adds (onRedis i p) 1 :=
    fun p hp => hp.zoom (fun _ hs (t : Stores ι) => hs t.redis)
      fun _ hs (t : Stores ι) => hs t.redis
  unfold dispatchJob
  split
  · split
    · exact (adds_failJob i _ _ _ _ _).mono (by omega)
    · exact Spends.bind (hlift _ (hrunning _)) fun _ => adds_onDb i _ 0
    · exact Spends.bind (hlift _ ((hrunning _).first _)) fun _ => adds_dispatchFailed i input _ _ _ _ _
    · exact adds_onRedis i (shrinks_commands.requeueJob ..) 1
    · exact (adds_dispatchFailed i input _ _ _ _ _).mono (by omega)
  · exact adds_onRedis i (shrinks_commands.requeueJob ..) 1

end

/-! ## Who else is there -/

/-- A call of a poller or the reaper; a harvest is rescheduled only while it is in the
queue. -/
def Outcome.due (now : ℚ) (jobId : JobId) (o : Outcome) : RedisProg Unit :=
  match o with
  | .rescheduleHarvest _ =>
    onlyWhile (fun r => (r.pendingHarvest.lookup jobId).isSome) (o.prog now jobId)
  | _ => o.prog now jobId

/-- A poller or the reaper: one call after another. -/
def settler : List (ℚ × JobId × Outcome) → RedisProg Unit
  | [] => pure ()
  | (now, jobId, o) :: calls => do
    o.due now jobId
    settler calls

section

variable [DecidableEq ι] {submit : ι} {settings : Settings}

/-- The submit worker, and a settler for every other client. -/
def dispatchers (submit : ι) (settings : Settings) (inputs : List TickInput)
    (calls : ι → List (ℚ × JobId × Outcome)) (s : Stores ι) : Pool (Stores ι) (Note ι) ι where
  shared := s
  procs := fun j => some
    (if j = submit then submitWorker submit settings inputs else onRedis j (settler (calls j)))
  history := []

/-- The budget is kept, and only the submit worker uses it up. -/
def budgeted (submit : ι) (settings : Settings) : Contract (Stores ι) (Note ι) ι where
  inv s _ := s.redis.unstored ≤ settings.unstoredJobMax
  guar j s _ s' _ := j ≠ submit →
    s'.redis.inflight.card ≤ s.redis.inflight.card ∧ s'.redis.unstored ≤ s.redis.unstored

/-- There is room for `n` more. -/
def Unspent (settings : Settings) (n : Nat) : Assertion (Stores ι) (Note ι) :=
  fun s _ => s.redis.unstored + n ≤ settings.unstoredJobMax

/-! ## The settlers -/

omit [DecidableEq ι] in
theorem triple_of_shrinks {A : Assertion (Stores ι) (Note ι)} (i : ι)
    (hA : (budgeted submit settings).Stable i A)
    (h : ∀ s es s' es', s'.redis.inflight.card ≤ s.redis.inflight.card →
      s'.redis.unstored ≤ s.redis.unstored → A s es → A s' es')
    {α : Type} {p : RedisProg α} (hp : p.Each fun effect _ => Shrinks effect) :
    (budgeted submit settings).Triple Regime.free i (onRedis i p) A fun _ => A := by
  refine triple_of_each hA ?_ (each_onRedis i hp)
  intro effect log hs s es hi ha _
  exact ⟨(hs s).2.trans hi, fun _ => hs s, h _ _ _ _ (hs s).1 (hs s).2 ha⟩

omit [DecidableEq ι] in
/-- What only shrinks the two sets can be done at any time. -/
theorem triple_settle (i : ι) {α : Type} {p : RedisProg α}
    (hp : p.Each fun effect _ => Shrinks effect) :
    (budgeted submit settings).Triple Regime.free i (onRedis i p) (fun _ _ => True)
      fun _ _ _ => True :=
  triple_of_shrinks i stable_true (fun _ _ _ _ _ _ _ => trivial) hp

/-- A harvest in the queue stays one entry of it. -/
theorem unstored_rescheduled {r : Redis} {j : JobId} (h : (r.pendingHarvest.lookup j).isSome)
    (f : JobHash → JobHash) (score : ℚ) :
    ((r.hset j f).zaddHarvest j score).unstored = r.unstored := by
  have hkeys : (r.pendingHarvest.insert j score).keys = r.pendingHarvest.keys := by
    ext k
    have hj : j ∈ r.pendingHarvest := Finmap.lookup_isSome.mp h
    simp only [Finmap.mem_keys, Finmap.mem_insert, or_iff_right_iff_imp]
    rintro rfl
    exact hj
  change r.inflight.card + (r.pendingHarvest.insert j score).keys.card = _
  rw [hkeys]
  rfl

omit [DecidableEq ι] in
theorem triple_due (i : ι) (now : ℚ) (j : JobId) (o : Outcome) :
    (budgeted submit settings).Triple Regime.free i (onRedis i (o.due now j)) (fun _ _ => True)
      fun _ _ _ => True := by
  cases o with
  | releaseDone state engineRun =>
    exact triple_settle i ((shrinks_commands.releaseDone now j state engineRun).map _)
  | releaseAndRequeue score stateTtl delayS avoid =>
    exact triple_settle i (shrinks_commands.releaseAndRequeue now j score stateTtl delayS avoid)
  | scheduleNextPoll at' => exact triple_settle i (each_call (shrinks_commands.hset _ _))
  | setDone stateTtl state =>
    exact triple_settle i ((shrinks_commands.setDone now j stateTtl state).map _)
  | setFailed error stateTtl =>
    exact triple_settle i ((shrinks_commands.setFailed now j error stateTtl).map _)
  | rescheduleHarvest delayS =>
    intro s es hi _ hready _
    have hwaits : (s.redis.pendingHarvest.lookup j).isSome := (Bool.and_eq_true_iff.mp hready).1
    have hsame := unstored_rescheduled hwaits JobHash.attempted (now + delayS)
    refine ⟨hsame.le.trans hi, fun _ => ⟨le_refl _, hsame.le⟩, fun _ _ => True, trivial,
      stable_true, fun _ _ _ _ => trivial⟩

omit [DecidableEq ι] in
theorem triple_settler (i : ι) (calls : List (ℚ × JobId × Outcome)) :
    (budgeted submit settings).Triple Regime.free i (onRedis i (settler calls))
      (fun _ _ => True) fun _ _ _ => True := by
  induction calls with
  | nil => exact fun _ _ _ _ => trivial
  | cons call calls ih =>
    obtain ⟨now, j, o⟩ := call
    change (budgeted submit settings).Triple Regime.free i
      (onRedis i (o.due now j >>= fun _ => settler calls)) _ _
    rw [onRedis_bind]
    exact (triple_due i now j o).bind fun _ => ih

/-! ## The submit worker -/

omit [DecidableEq ι] in
theorem stable_unspent (n : Nat) : (budgeted submit settings).Stable submit (Unspent settings n) := by
  intro j hj s es s' es' _ _ hg hunspent
  have hless := (hg hj).2
  unfold Unspent at hunspent ⊢
  omega

omit [DecidableEq ι] in
theorem unspent_credits : Credits Regime.free (budgeted submit settings) submit StoresShrink AddsOne
    (Unspent settings) where
  stable := stable_unspent
  less n s es h := by
    unfold Unspent at h ⊢
    omega
  keep effect n s es es' hs hi h := by
    have hless := (hs s).2
    refine ⟨hless.trans hi, fun hne => absurd rfl hne, ?_⟩
    unfold Unspent at h ⊢
    omega
  spend effect n s es es' hs hi h := by
    have hmore := hs s
    unfold Unspent at h
    refine ⟨?_, fun hne => absurd rfl hne, ?_⟩
    · change (effect s).redis.unstored ≤ _
      omega
    · unfold Unspent
      omega

omit [DecidableEq ι] in
theorem triple_unspent {α : Type} {p : RedisProg α} (n : Nat)
    (hp : p.Each fun effect _ => Shrinks effect) :
    (budgeted submit settings).Triple Regime.free submit (onRedis submit p) (Unspent settings n)
      fun _ => Unspent settings n := by
  simpa using triple_of_spends unspent_credits (adds_onRedis submit hp 0) n

/-- No more jobs are allocated than were to be placed. -/
theorem length_allocateScored (spp : BackendId → String → ℚ) (tolerance : ℚ) (start : Nat)
    (slots : List BackendSlot) (jobs : List PendingJob) :
    (allocateScored spp tolerance start slots jobs).1.length ≤ jobs.length := by
  induction jobs generalizing start slots with
  | nil => exact le_refl _
  | cons job jobs ih =>
    unfold allocateScored
    split
    · exact (ih start slots).trans (Nat.le_succ _)
    · next i slot _ =>
      exact Nat.succ_le_succ (ih ((i + 1) % slots.length) (slots.set i (slot.assign job)))

theorem answers_peekLevels (count : Nat) (prios : List Int) {results : List QueueEntry}
    (h : results.length ≤ count) :
    (peekLevels count prios results).Answers fun entries => entries.length ≤ count := by
  induction prios generalizing results with
  | nil => exact h
  | cons prio prios ih =>
    unfold peekLevels
    split
    · exact h
    · intro r
      refine ih ?_
      rw [List.length_append, List.length_map]
      have htake : ((r.pending prio).range.take (count - results.length)).length ≤
          count - results.length := List.length_take_le _ _
      dsimp only
      omega

/-- No more entries are peeked than were asked for. -/
theorem answers_peekPending (count : Nat) :
    (peekPending count).Answers fun entries => entries.length ≤ count :=
  fun _ => answers_peekLevels count _ (Nat.zero_le count)

theorem shrinks_queuedStates (entries : List QueueEntry) :
    (queuedStates entries).Each fun effect _ => Shrinks effect :=
  (shrinks_commands.getJobs _).bind fun _ => (shrinks_commands.dropPending _).bind fun _ =>
    each_pure _

theorem triple_dispatchTier (input : TickInput) (tier : List BackendSlot) (priority : Int)
    (entries : List QueueEntry) {n : Nat} (hn : entries.length ≤ n) :
    (budgeted submit settings).Triple Regime.free submit
      (dispatchTier submit settings input tier priority entries) (Unspent settings n)
      fun dispatched => Unspent settings (n - dispatched) := by
  unfold dispatchTier
  refine (triple_unspent n (shrinks_queuedStates entries)).bind fun states => ?_
  extract_lets pending allocated byId
  refine (triple_unspent n (shrinks_commands.claimPending _ _)).bind fun claimed => ?_
  extract_lets assignments
  have hlength : assignments.length ≤ n := calc
    assignments.length ≤ allocated.length := List.length_filterMap_le _ _
    _ ≤ pending.length := length_allocateScored _ _ _ _ _
    _ ≤ entries.length := List.length_filterMap_le _ _
    _ ≤ n := hn
  refine Triple.bind (P := fun _ => Unspent settings (n - assignments.length)) ?_ fun _ =>
    triple_pure fun _ _ _ h => h
  have heach : ∀ p ∈ assignments.map fun a =>
      (dispatchJob submit settings input a.job.jobId a.job.score a.slot a.state).upTo
        (input.dispatchRaises a.job.jobId), p.Spends StoresShrink AddsOne 1 := by
    intro p hp
    obtain ⟨a, -, rfl⟩ := List.mem_map.mp hp
    exact (adds_dispatchJob submit settings input _ _ _ _).upTo _
  have hspends := Spends.gather heach (input.turns priority)
  have hunspent := triple_of_spends (K := budgeted submit settings) (A := Unspent settings)
    unspent_credits hspends (n - assignments.length)
  rwa [List.length_map, Nat.add_sub_cancel' hlength] at hunspent

/-- **The tiers together add no more jobs than there was room for.** -/
theorem triple_dispatchTiers (input : TickInput) (eligible : List BackendSlot) (prios : List Int)
    (remaining : Nat) :
    (budgeted submit settings).Triple Regime.free submit
      (dispatchTiers submit settings input eligible prios remaining) (Unspent settings remaining)
      fun _ _ _ => True := by
  induction prios generalizing remaining with
  | nil => exact fun _ _ _ _ => trivial
  | cons priority lower ih =>
    unfold dispatchTiers
    extract_lets tier capacity
    have hcapacity : capacity ≤ remaining := Nat.min_le_right _ _
    refine Triple.ite (fun _ => ih remaining) fun _ => ?_
    refine ((triple_unspent remaining (shrinks_commands.peekPending capacity)).answers
      (answers_peekPending capacity).zoom).bind fun entries => triple_of_and fun hentries => ?_
    refine Triple.ite (fun _ => triple_pure fun _ _ _ _ => trivial) fun _ => ?_
    exact (triple_dispatchTier input tier priority entries (hentries.trans hcapacity)).bind
      fun dispatched => ih (remaining - dispatched)

omit [DecidableEq ι] in
/-- What is read after the in-flight set may have come out of it: the two numbers are never too
low together. -/
theorem triple_dispatchBudget :
    (budgeted submit settings).Triple Regime.free submit (onRedis submit (dispatchBudget settings))
      (fun _ _ => True) fun remaining s es => remaining ≠ 0 → Unspent settings remaining s es := by
  intro s es hi _ _ _
  refine ⟨hi, fun hne => absurd rfl hne, fun s' _ => s'.redis.inflight.card ≤ s.redis.inflight.card,
    le_refl _, fun j hj s₁ _ s₂ _ _ _ hg hle => (hg hj).1.trans hle, ?_⟩
  intro s' es' hi' hle _ _
  refine ⟨hi', fun hne => absurd rfl hne, _, ?_, ?_, fun _ _ _ h => h⟩
  · intro hne
    change s'.redis.unstored + _ ≤ _
    simp only [Redis.unstored, unstoredCapacity] at hle hne ⊢
    omega
  · intro j hj s₁ es₁ s₂ es₂ h₁ h₂ hg hunspent hne
    exact stable_unspent _ j hj s₁ es₁ s₂ es₂ h₁ h₂ hg (hunspent hne)

theorem shrinks_eligibleSlots (input : TickInput) :
    (eligibleSlots input).Each fun effect _ => Shrinks effect := by
  have hbatches : ∀ backendIds,
      (getBackendsState.batchesOf backendIds).Each fun effect _ => Shrinks effect := by
    intro backendIds
    induction backendIds with
    | nil => exact each_pure _
    | cons b rest ih =>
      exact Each.bind (each_call shrinks_commands.query) fun _ => ih.bind fun _ => each_pure _
  exact Each.bind (Each.bind (each_call shrinks_commands.query) fun _ =>
    (hbatches _).bind fun _ => each_pure _) fun _ => each_pure _

/-- **A tick keeps within the budget it read.** -/
theorem triple_runTick (input : TickInput) :
    (budgeted submit settings).Triple Regime.free submit (runTick submit settings input)
      (fun _ _ => True) fun _ _ _ => True := by
  refine (triple_settle submit (shrinks_commands.promoteDueRetries _ _)).bind fun _ => ?_
  refine (triple_settle submit (shrinks_eligibleSlots input)).bind fun eligible => ?_
  refine triple_dispatchBudget.bind fun remaining => ?_
  refine Triple.ite (fun _ => triple_pure fun _ _ _ _ => trivial) fun hne => ?_
  exact (triple_dispatchTiers input eligible _ remaining).imp (fun _ _ _ hunspent => hunspent hne)
    fun _ _ _ _ => trivial

theorem triple_submitWorker (inputs : List TickInput) :
    (budgeted submit settings).Triple Regime.free submit (submitWorker submit settings inputs)
      (fun _ _ => True) fun _ _ _ => True := by
  induction inputs with
  | nil => exact fun _ _ _ _ => trivial
  | cons input inputs ih => exact ((triple_runTick input).upTo input.raises).bind fun _ => ih

/-- **The budget of unstored jobs is kept in every run.** -/
theorem unstored_le_budget {inputs : List TickInput} {calls : ι → List (ℚ × JobId × Outcome)}
    {s : Stores ι} {q : Pool (Stores ι) (Note ι) ι}
    (hstart : s.redis.unstored ≤ settings.unstoredJobMax)
    (hr : Pool.Run Regime.free (dispatchers submit settings inputs calls s) q) :
    q.shared.redis.unstored ≤ settings.unstoredJobMax := by
  have hclean : Pool.CleanOk Regime.free (budgeted submit settings) :=
    fun i s es hi => ⟨hi, fun _ => ⟨le_refl _, le_refl _⟩⟩
  have hsound : Pool.Sound Regime.free (budgeted submit settings) (fun _ _ _ => True)
      (dispatchers submit settings inputs calls s) := by
    refine ⟨hstart, fun i c hc => ⟨fun _ _ => True, trivial, stable_true, ?_⟩⟩
    obtain rfl := Option.some.inj hc
    by_cases hi : i = submit
    · subst hi
      rw [if_pos rfl]
      exact triple_submitWorker inputs
    · rw [if_neg hi]
      exact triple_settler i (calls i)
  exact (hsound.run hclean hr).inv

/-- One backend that serves what the sample jobs want. -/
def sampleTick : TickInput where
  now := 10
  backends := [{ id := 1, url := "http://engine" }]
  healthy _ := true
  capabilities _ _ := some {"alto"}
  spp _ _ := 1
  affinityTolerance := 0
  stateTtl := 60
  maxRequeues := 3
  backoffSeconds _ := 1
  reply _ _ := .accepted "e" none
  turns _ := []

def sampleQueued : JobState where
  username := "u"
  fmt := "alto"
  outputs := {"alto"}
  submittedAt := 0

/-- Jobs 1 and 2 are pending, job 3 is in flight; a poller is about to release job 3. -/
def sampleDispatchers : Pool (Stores Bool) (Note Bool) Bool :=
  dispatchers true { unstoredJobMax := 3 } [sampleTick]
    (fun _ => [(10, 3, .releaseDone sampleQueued {})])
    { redis :=
        ((({} : Redis).enqueue 60 (1, sampleQueued)).enqueue 60 (2, sampleQueued)).saddInflight 3
      db := ⟨⟨∅, fun _ => { username := "", submittedAt := 0 }, fun _ => none⟩,
        ⟨∅, fun _ => {}, fun _ => none⟩⟩ }

/-- Job 3 is released between the two reads of the budget; job 1 only is dispatched. -/
theorem unstored_le_budget_sample : ∃ q, Pool.Run Regime.free sampleDispatchers q ∧
    (q.shared.redis.inflight = {1} ∧ q.shared.redis.pendingHarvest.keys = {3}) ∧
      q.shared.redis.unstored ≤ 3 := by
  obtain ⟨q, hq, hended⟩ := Pool.exists_run_of_schedule (R := Regime.free) (fun _ _ => trivial)
    (p := sampleDispatchers)
    (l := List.replicate 4 true ++ [false] ++ List.replicate 13 true)
    (P := fun q => q.shared.redis.inflight = {1} && q.shared.redis.pendingHarvest.keys = {3})
    (by decide +kernel)
  have hstart : sampleDispatchers.shared.redis.unstored ≤ 3 := by decide +kernel
  exact ⟨q, hq, by simpa using hended, unstored_le_budget hstart hq⟩

end

end Taas

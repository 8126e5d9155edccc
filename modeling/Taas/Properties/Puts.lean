import Taas.Properties.Commands
import Taas.System

/-!
# No queue entry is claimed twice

* `Room` — the claims of a job so far and the levels it is on are no more than its puts.
* `Fair` — what a command logs leaves room. Every command of every state function is fair
  (`fair_commands`, `Client.fair`), so there is room after any calls (`allRoom_history`), in any
  order and interleaving.
-/

namespace Taas

open Infra Infra.Prog

/-- How often the job was put on a pending queue. -/
def puts (jobId : JobId) (es : List Event) : Nat := es.count (.put jobId)

/-- How often a worker claimed the job. -/
def claims (jobId : JobId) (es : List Event) : Nat := es.count (.claimed jobId)

@[simp] theorem puts_nil (j : JobId) : puts j [] = 0 := rfl

@[simp] theorem claims_nil (j : JobId) : claims j [] = 0 := rfl

theorem puts_put (j k : JobId) : puts j [.put k] = if j = k then 1 else 0 := by
  by_cases h : j = k
  · subst h
    simp [puts]
  · have hne : k ≠ j := Ne.symm h
    simp [puts, h, hne]

@[simp] theorem claims_put (j k : JobId) : claims j [.put k] = 0 := by
  simp [claims]

@[simp] theorem puts_claimed (j k : JobId) : puts j [.claimed k] = 0 := by
  simp [puts]

theorem claims_claimed (j k : JobId) : claims j [.claimed k] = if j = k then 1 else 0 := by
  by_cases h : j = k
  · subst h
    simp [claims]
  · have hne : k ≠ j := Ne.symm h
    simp [claims, h, hne]

/-- After `c` claims and `u` puts there is no more than `u - c` levels to claim from. -/
def Room (jobId : JobId) (c u : Nat) (r : Redis) : Prop :=
  ∀ levels : Finset Int, c + (levels.filter fun p => jobId ∈ r.pending p).card ≤ u

/-- A command that leaves room for what it logs. -/
def Fair (effect : Redis → Redis) (log : Redis → List Event) : Prop :=
  ∀ r jobId c u, Room jobId c u r →
    Room jobId (c + claims jobId (log r)) (u + puts jobId (log r)) (effect r)

/-! ## Moves on the pending queues -/

section

variable {r r' : Redis} {j k : JobId} {c u : Nat} {p : Int}

theorem mem_zaddPending {score : ℚ} {q : Int} :
    j ∈ (r.zaddPending p k score).pending q ↔ j = k ∧ q = p ∨ j ∈ r.pending q := by
  by_cases hq : q = p
  · subst hq
    simp [Redis.zaddPending]
  · simp [Redis.zaddPending, hq]

theorem mem_zremPending {q : Int} :
    j ∈ (r.zremPending p k).pending q ↔ ¬(j = k ∧ q = p) ∧ j ∈ r.pending q := by
  by_cases hq : q = p
  · subst hq
    simp [Redis.zremPending]
  · simp [Redis.zremPending, hq]

/-- A job that is on fewer levels leaves no less room. -/
theorem Room.of_subset (h : Room j c u r) (hs : ∀ q, j ∈ r'.pending q → j ∈ r.pending q) :
    Room j c u r' := fun levels =>
  le_trans (Nat.add_le_add_left (Finset.card_le_card
    (Finset.monotone_filter_right levels fun q _ hq => hs q hq)) c) (h levels)

/-- What is taken off a level makes room. -/
theorem Room.zremPending (h : Room j c u r) : Room j c u (r.zremPending p k) :=
  h.of_subset fun _ hq => (mem_zremPending.mp hq).2

/-- A put makes room for the level that it takes. -/
theorem Room.zaddPending (h : Room j c u r) (score : ℚ) :
    Room j c (u + if j = k then 1 else 0) (r.zaddPending p k score) := by
  intro levels
  by_cases hj : j = k
  · have hsub : (levels.filter fun q => j ∈ (r.zaddPending p k score).pending q) ⊆
        insert p (levels.filter fun q => j ∈ r.pending q) := by
      intro q hq
      rw [Finset.mem_filter, mem_zaddPending] at hq
      rw [Finset.mem_insert, Finset.mem_filter]
      rcases hq.2 with ⟨-, hp⟩ | hq'
      · exact Or.inl hp
      · exact Or.inr ⟨hq.1, hq'⟩
    have hcard := (Finset.card_le_card hsub).trans (Finset.card_insert_le _ _)
    have := h levels
    rw [if_pos hj]
    omega
  · rw [if_neg hj, add_zero]
    exact h.of_subset (fun q hq => (mem_zaddPending.mp hq).resolve_left fun h => hj h.1) levels

/-- A claim takes the job off a level that it was on. -/
theorem Room.claim (h : Room j c u r) (hp : j ∈ r.pending p) :
    Room j (c + 1) u (r.zremPending p j) := by
  intro levels
  have hnot : p ∉ levels.filter fun q => j ∈ (r.zremPending p j).pending q := by
    simp [mem_zremPending]
  have hsub : insert p (levels.filter fun q => j ∈ (r.zremPending p j).pending q) ⊆
      (insert p levels).filter fun q => j ∈ r.pending q := by
    intro q hq
    rw [Finset.mem_insert, Finset.mem_filter, mem_zremPending] at hq
    rw [Finset.mem_filter, Finset.mem_insert]
    rcases hq with rfl | ⟨hl, -, hq⟩
    · exact ⟨Or.inl rfl, hp⟩
    · exact ⟨Or.inr hl, hq⟩
  have hcard := Finset.card_le_card hsub
  rw [Finset.card_insert_of_notMem hnot] at hcard
  have := h (insert p levels)
  omega

end

/-! ## Fair commands -/

/-- A command that leaves the pending queues alone and logs nothing. -/
def Still (effect : Redis → Redis) (log : Redis → List Event) : Prop :=
  (∀ r, (effect r).pending = r.pending) ∧ ∀ r, log r = []

/-- What logs nothing and touches no queue is fair. -/
theorem Still.fair {effect : Redis → Redis} {log : Redis → List Event} (h : Still effect log) :
    Fair effect log := by
  intro r jobId c u hr
  rw [h.2]
  exact hr.of_subset fun q hq => by rwa [h.1] at hq

theorem fair_of_still {α : Type} {p : RedisProg α} (h : Each Still p) : Each Fair p :=
  h.mono fun _ _ => Still.fair

theorem pending_hmod (r : Redis) (j : JobId) (f : JobHash → JobHash) :
    (r.hmod j f).pending = r.pending := by
  unfold Redis.hmod
  split <;> rfl

theorem still_act {f : Redis → Redis} (h : ∀ r, (f r).pending = r.pending) :
    Each Still (act f) := each_call ⟨h, fun _ => rfl⟩

theorem still_call {α : Type} {reply : Redis → α} {f : Redis → Redis}
    (h : ∀ r, (f r).pending = r.pending) : Each Still (call reply f) :=
  each_call ⟨h, fun _ => rfl⟩

theorem fair_act {f : Redis → Redis} (h : ∀ r, (f r).pending = r.pending) :
    Each Fair (act f) := fair_of_still (still_act h)

theorem pending_countRunning (r : Redis) (b : BackendId) (state : Option JobState) :
    (r.countRunning b state).pending = r.pending := by
  unfold Redis.countRunning
  split
  · rfl
  · dsimp only
    split <;> rfl

theorem pending_countReleased (r : Redis) (state : JobState) :
    (r.countReleased state).pending = r.pending := by
  unfold Redis.countReleased
  split
  · rfl
  · split
    · rfl
    · dsimp only
      split <;> rfl

/-- The script of `release_done` touches no pending queue. -/
theorem pending_releaseDone (now : ℚ) (j : JobId) (state : JobState) (engineRun : EngineRun)
    (r : Redis) : (r.releaseDone now j state engineRun).pending = r.pending := by
  unfold Redis.releaseDone
  split
  · rw [pending_countReleased, pending_hmod]
    rfl
  · rfl

/-- The writes of `set_failed` touch no pending queue. -/
theorem pending_markFailed (now : ℚ) (j : JobId) (error : String) (stateTtl : Nat) (r : Redis) :
    (r.markFailed now j error stateTtl).pending = r.pending := by
  rw [Redis.markFailed, pending_hmod]
  exact pending_hmod _ _ _

/-- A claim is logged only if the job was on the level. -/
theorem fair_claim (now : ℚ) (entry : QueueEntry) : Fair (Redis.claim now entry) fun r =>
    if r.claimable entry then [.claimed entry.jobId] else [] := by
  intro r j c u h
  beta_reduce
  unfold Redis.claim
  by_cases hp : (r.pending entry.priority).lookup entry.jobId = none
  · have hc : r.claimable entry = false := by simp [Redis.claimable, hp]
    rw [if_pos hp, hc]
    exact h
  · rw [if_neg hp]
    by_cases hh : r.jobs.lookup entry.jobId = none
    · have hc : r.claimable entry = false := by simp [Redis.claimable, hh]
      rw [if_pos hh, hc]
      exact h.zremPending
    · have hc : r.claimable entry = true := by
        simp [Redis.claimable, Option.isSome_iff_ne_none, hp, hh]
      have hmem : entry.jobId ∈ r.pending entry.priority := by
        rwa [← Finmap.lookup_isSome, Option.isSome_iff_ne_none]
      rw [if_neg hh, hc, if_pos rfl, claims_claimed, puts_claimed]
      by_cases hj : j = entry.jobId
      · subst hj
        rw [if_pos rfl]
        exact (h.claim hmem).of_subset fun _ hq => hq
      · rw [if_neg hj]
        exact (h.zremPending (k := entry.jobId)).of_subset fun _ hq => hq

theorem still_of_eq {f : Redis → Redis} (h : ∀ r, (f r).pending = r.pending) :
    Still f fun _ => [] := ⟨h, fun _ => rfl⟩

/-- Counters and wakeups are beside the queues. -/
theorem still_counters : OfCounters Still where
  loadQueued _ _ := still_of_eq fun _ => rfl
  loadInflight _ _ := still_of_eq fun _ => rfl
  loads _ := still_of_eq fun _ => rfl
  backend _ _ := still_of_eq fun _ => rfl
  batchPages _ _ _ := still_of_eq fun _ => rfl
  dropBatch _ _ := still_of_eq fun _ => rfl
  wakeSubmit := still_of_eq fun _ => rfl

/-- Every command of the state functions leaves room for what it logs. -/
theorem fair_commands : OfCommands Fair where
  loadQueued _ _ := (still_counters.loadQueued _ _).fair
  loadInflight _ _ := (still_counters.loadInflight _ _).fair
  loads _ := (still_counters.loads _).fair
  backend _ _ := (still_counters.backend _ _).fair
  batchPages _ _ _ := (still_counters.batchPages _ _ _).fair
  dropBatch _ _ := (still_counters.dropBatch _ _).fair
  wakeSubmit := still_counters.wakeSubmit.fair
  query := (still_of_eq fun _ => rfl).fair
  hset _ _ := (still_of_eq fun _ => rfl).fair
  hmod j f := (still_of_eq fun r => pending_hmod r j f).fair
  put p j score r k c u h := by
    rw [puts_put, claims_put]
    exact h.zaddPending score
  drop _ _ _ _ _ _ h := h.zremPending
  claim := fair_claim
  level _ := (still_of_eq fun _ => rfl).fair
  delay _ _ := (still_of_eq fun _ => rfl).fair
  promote _ := (still_of_eq fun _ => rfl).fair
  leaveInflight _ := (still_of_eq fun _ => rfl).fair
  leaveHarvest _ := (still_of_eq fun _ => rfl).fair
  release now j state engineRun := (still_of_eq (pending_releaseDone now j state engineRun)).fair
  markFailed now j error stateTtl := (still_of_eq (pending_markFailed now j error stateTtl)).fair
  countPage _ _ := (still_of_eq fun _ => rfl).fair
  publish username message r j c u h := by
    have hputs : puts j [.published username message] = 0 := by simp [puts]
    have hclaims : claims j [.published username message] = 0 := by simp [claims]
    rw [hputs, hclaims]
    exact h

/-! ## The state functions -/

theorem still_countBatchPage (state : Option JobState) (status : JobStatus) :
    Each Still (countBatchPage state status) := by
  unfold countBatchPage
  split
  · exact each_pure _
  · split
    · exact each_pure _
    · split
      · exact each_pure _
      · exact (still_call fun _ => rfl).map _

/-- `set_failed` touches no pending queue. -/
theorem still_setFailed (now : ℚ) (j : JobId) (error : String) (stateTtl : Nat) :
    Each Still (setFailed now j error stateTtl) :=
  (still_call fun _ => rfl).bind fun _ => (still_countBatchPage _ _).bind fun _ =>
    (still_call (pending_markFailed now j error stateTtl)).bind fun _ =>
      Each.bind (still_call fun _ => rfl) fun _ => (still_counters.countFailed _ _).bind fun _ =>
        still_counters.signalSubmit.when.bind fun _ =>
          (still_counters.releaseSlot _ _).bind fun _ =>
            still_counters.signalSubmit.when.bind fun _ => each_pure _

/-- Nor does `set_done`. -/
theorem still_setDone (now : ℚ) (j : JobId) (stateTtl : Nat) (state : Option JobState) :
    Each Still (setDone now j stateTtl state) := by
  have hstate : Each Still (doneState j state) := by
    unfold doneState
    split
    · exact still_call fun _ => rfl
    · exact each_pure _
  exact hstate.bind fun _ => (still_countBatchPage _ _).bind fun _ =>
    Each.bind (still_act fun _ => rfl) fun _ =>
      Each.bind (still_act fun r => pending_hmod r j _) fun _ =>
        Each.bind (still_call fun _ => rfl) fun _ => Each.bind (still_call fun _ => rfl) fun _ =>
          Each.bind (still_act fun r => pending_hmod r j _) fun _ =>
            (still_counters.settleDone _ _ _).bind fun _ => each_pure _

/-- The orphan script puts only a job that it finds on no level. -/
theorem fair_requeueOrphan (now claimGraceS : ℚ) (j : JobId) :
    Each Fair (requeueOrphan now claimGraceS j) := by
  refine each_callLog fun r k c u h => ?_
  by_cases ho : ∃ hash, (r.view j).Orphaned now claimGraceS hash
  · obtain ⟨hash, ho⟩ := id ho
    obtain ⟨hl, hscript⟩ := (orphaned_iff r j now claimGraceS hash).mpr ho
    rw [if_pos ((requeues_iff r j now claimGraceS).mpr ⟨hash, ho⟩), puts_put, claims_put]
    simp only [Redis.requeueOrphan, hl, hscript, if_true]
    exact (h.zaddPending _).of_subset fun _ hq => hq
  · rw [if_neg (mt (requeues_iff r j now claimGraceS).mp ho),
      requeueOrphan_of_not r j (not_exists.mp ho)]
    exact h

/-- A sweep is a sequence of such scripts. -/
theorem fair_requeueOrphans (jobIds : List JobId) (now claimGraceS : ℚ) :
    Each Fair (requeueOrphans jobIds now claimGraceS) := by
  have hscripts : Each Fair (requeueOrphanScripts now claimGraceS jobIds) := by
    induction jobIds with
    | nil => exact each_pure _
    | cons jobId jobIds ih =>
      exact (fair_requeueOrphan now claimGraceS jobId).bind fun _ => ih.bind fun _ => each_pure _
  exact hscripts.bind fun _ => fair_commands.signalSubmit.when.bind fun _ => each_pure _

/-- The jobs of one `MULTI`, one put each. -/
theorem Room.enqueue {r : Redis} {j : JobId} {c u : Nat} (h : Room j c u r) (stateTtl : Nat)
    (jobs : List (JobId × JobState)) :
    Room j (c + claims j (jobs.map fun job => .put job.1))
      (u + puts j (jobs.map fun job => .put job.1))
      (jobs.foldl (Redis.enqueue stateTtl) r) := by
  induction jobs generalizing r c u with
  | nil => exact h
  | cons job jobs ih =>
    have hone : Room j (c + claims j [.put job.1]) (u + puts j [.put job.1])
        (r.enqueue stateTtl job) := by
      rw [puts_put, claims_put]
      have hold : Room j c u (((r.hset job.1 job.2.toHash.overlay).expire job.1
          stateTtl).incrLoadQueued (jobLoadField job.2) 1) :=
        h.of_subset fun q hq => by
          change j ∈ (Redis.hmod _ _ _).pending q at hq
          rwa [pending_hmod] at hq
      exact (hold.zaddPending job.2.submittedAt).of_subset fun _ hq => hq
    have hall := ih hone
    rwa [Nat.add_assoc, Nat.add_assoc, claims, claims, puts, puts, ← List.count_append,
      ← List.count_append] at hall

/-- Chunk by chunk. -/
theorem fair_enqueueJobs (jobs : List (JobId × JobState)) (stateTtl : Nat) :
    Each Fair (enqueueJobs jobs stateTtl) := by
  have htransactions : ∀ chunks, Each Fair (enqueueTransactions stateTtl chunks) := by
    intro chunks
    induction chunks with
    | nil => exact each_pure _
    | cons chunk rest ih =>
      exact (each_callLog fun r j c u h => h.enqueue stateTtl chunk).bind fun _ => ih
  exact (htransactions _).bind fun _ => fair_commands.signalSubmit.when

/-- A dispatch leaves the pending queues alone. -/
theorem fair_setRunning (settings : Settings) (now : ℚ) (j : JobId)
    (engineJobId backendUrl : String) (b : BackendId) (stateTtl : Nat) :
    Each Fair (setRunning settings now j engineJobId backendUrl b stateTtl) := by
  have hentered : Each Fair (enteredInflight j b) :=
    (fair_commands.getJob j).bind fun _ => fair_act fun r => pending_countRunning r b _
  exact Each.bind (fair_act fun _ => rfl) fun _ =>
    Each.bind (fair_act fun r => pending_hmod r j _) fun _ =>
      Each.bind (fair_of_still (still_call fun _ => rfl)) fun _ =>
        hentered.when.bind fun _ => fair_act fun _ => rfl

/-- **Every call only makes fair commands.** -/
theorem Action.fair (claimGraceS now : ℚ) (a : Action) : Each Fair (a.prog claimGraceS now) := by
  cases a with
  | wait d => exact each_pure _
  | expire jobId => exact (fair_act fun _ => rfl).map _
  | enqueueJobs jobs stateTtl => exact (fair_enqueueJobs jobs stateTtl).map _
  | promoteDueRetries => exact (fair_commands.promoteDueRetries now now).map _
  | claimPending entries => exact fair_commands.claimPending now entries
  | dropPending entries => exact (fair_commands.dropPending entries).map _
  | requeueOrphans jobIds => exact (fair_requeueOrphans jobIds now claimGraceS).map _
  | resolve jobId r =>
    refine Each.map _ ?_
    cases r with
    | requeueJob score => exact fair_commands.requeueJob jobId score
    | scheduleRetry score delayS avoid =>
      exact fair_commands.scheduleRetry now jobId score delayS avoid
    | setRunning settings engineJobId backendUrl b stateTtl =>
      exact fair_setRunning settings now jobId engineJobId backendUrl b stateTtl
    | setFailed error stateTtl => exact (fair_commands.setFailed now jobId error stateTtl).map _
  | outcome jobId o =>
    refine Each.map _ ?_
    cases o with
    | releaseDone state engineRun =>
      exact (fair_commands.releaseDone now jobId state engineRun).map _
    | releaseAndRequeue score stateTtl delayS avoid =>
      exact fair_commands.releaseAndRequeue now jobId score stateTtl delayS avoid
    | scheduleNextPoll at' => exact fair_act fun _ => rfl
    | rescheduleHarvest delayS => exact fair_act fun _ => rfl
    | setDone stateTtl state => exact (fair_commands.setDone now jobId stateTtl state).map _
    | setFailed error stateTtl => exact (fair_commands.setFailed now jobId error stateTtl).map _

/-! ## Runs and interleavings -/

/-- For every job there is room after the events so far. -/
def AllRoom (r : Redis) (es : List Event) : Prop :=
  ∀ jobId, Room jobId (claims jobId es) (puts jobId es) r

/-- A fair command keeps room for every job. -/
theorem AllRoom.fair (effect : Redis → Redis) (log : Redis → List Event) (r : Redis)
    (es : List Event) (hf : Fair effect log) (h : AllRoom r es) :
    AllRoom (effect r) (es ++ log r) := by
  intro jobId
  have hjob := hf r jobId _ _ (h jobId)
  rwa [claims, claims, puts, puts, ← List.count_append, ← List.count_append] at hjob

/-- At the start nothing was put or claimed. -/
theorem allRoom_empty : AllRoom {} [] := by
  intro jobId levels
  have hnone : (levels.filter fun p => jobId ∈ ({} : Redis).pending p) = ∅ :=
    Finset.filter_false_of_mem fun _ _ => Finmap.notMem_empty
  rw [hnone]
  exact Nat.le_refl 0

/-- A job is not claimed more often than it was put. -/
theorem AllRoom.claims_le {r : Redis} {es : List Event} (h : AllRoom r es) (jobId : JobId) :
    claims jobId es ≤ puts jobId es := by
  simpa using h jobId ∅

namespace World

/-- What the calls of a run log. -/
def history (claimGraceS : ℚ) : World → List Action → List Event
  | _, [] => []
  | w, a :: as =>
    trace (a.prog claimGraceS w.now) w.redis ++ history claimGraceS (w.act claimGraceS a) as

/-- Room after a run, by induction on its calls. -/
theorem allRoom_history {claimGraceS : ℚ} (actions : List Action) {w : World} {es : List Event}
    (h : AllRoom w.redis es) :
    AllRoom (w.run claimGraceS actions).redis (es ++ w.history claimGraceS actions) := by
  induction actions generalizing w es with
  | nil => rwa [history, List.append_nil]
  | cons a actions ih =>
    have hone : AllRoom (w.act claimGraceS a).redis (es ++ trace (a.prog claimGraceS w.now) w.redis) :=
      (a.fair claimGraceS w.now).run AllRoom.fair h
    rw [history, ← List.append_assoc]
    exact ih hone

theorem allRoom_run {claimGraceS : ℚ} (now : ℚ) (actions : List Action) :
    AllRoom ((initial now).run claimGraceS actions).redis
      ((initial now).history claimGraceS actions) := by
  have h : AllRoom (initial now).redis [] := allRoom_empty
  simpa using allRoom_history actions h

end World

end Taas

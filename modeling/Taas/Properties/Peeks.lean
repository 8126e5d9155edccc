import Taas.Properties.Queue
import Taas.Properties.Windows

/-!
# What is peeked is the head of one queue

The pending jobs are kept level by level, and `peek_pending` walks the registered levels. All of
them together are one queue: highest priority first, oldest first within one.

* `QueueEntry.Before` — the order of the queue.
* `QueueCall` — the calls that put jobs on the levels and take them off.
* `pairwise_waiting`, `mem_waiting_iff` — the walk meets each pending job, in order.
* `peeked_in_order` — so it is in every run.
-/

namespace Taas

open Infra Infra.Prog

/-! ## The order -/

/-- Higher priority first, then lower score, then the member itself. -/
def QueueEntry.Before (e e' : QueueEntry) : Prop :=
  e'.priority < e.priority ∨
    e.priority = e'.priority ∧ (e.score < e'.score ∨ e.score = e'.score ∧ e.jobId < e'.jobId)

/-- All pending jobs, in order. -/
structure Redis.IsQueue (r : Redis) (queue : List QueueEntry) : Prop where
  order : queue.Pairwise QueueEntry.Before
  mem : ∀ entry : QueueEntry, entry ∈ queue ↔
    (r.pending entry.priority).lookup entry.jobId = some entry.score

/-- Each job waits on one level at most. -/
def Redis.OneLevel (r : Redis) : Prop :=
  ∀ j p q, (r.pending p).lookup j ≠ none → (r.pending q).lookup j ≠ none → p = q

section

variable {r : Redis} {entry : QueueEntry}

theorem pairwise_waitingAt (p : Int) : (r.waitingAt p).Pairwise QueueEntry.Before := by
  unfold Redis.waitingAt
  rw [List.pairwise_map]
  have hnodup := List.pairwise_map.mp (SortedSet.nodup_range (r.pending p))
  refine ((SortedSet.pairwise_range (r.pending p)).and hnodup).imp ?_
  rintro e e' ⟨hle, hne⟩
  refine Or.inr ⟨rfl, ?_⟩
  rcases hle with hlt | ⟨heq, hle⟩
  · exact Or.inl hlt
  · exact Or.inr ⟨heq, lt_of_le_of_ne hle hne⟩

/-- The levels are walked downwards. -/
theorem pairwise_pendingLevels (r : Redis) : r.pendingLevels.Pairwise (· > ·) := by
  have hnodup := nodup_pendingLevels r
  unfold Redis.pendingLevels at hnodup ⊢
  split
  · exact List.pairwise_singleton ..
  · have hsorted := sorted_pairwise (fun p q : Int => p ≥ q) r.levels.val
    have hlt := hsorted.and ((nodup_sorted _).mpr r.levels.nodup)
    exact hlt.imp fun h => lt_of_le_of_ne h.1 h.2.symm

theorem pairwise_waiting (r : Redis) : r.waiting.Pairwise QueueEntry.Before := by
  unfold Redis.waiting
  rw [List.pairwise_flatMap]
  refine ⟨fun p _ => pairwise_waitingAt p, (pairwise_pendingLevels r).imp ?_⟩
  intro p q hpq e he e' he'
  obtain ⟨rfl, -⟩ := mem_waitingAt.mp he
  obtain ⟨rfl, -⟩ := mem_waitingAt.mp he'
  exact Or.inl hpq

theorem mem_pendingLevels {p : Int} (hp : p ∈ r.levels) : p ∈ r.pendingLevels := by
  have hmem : p ∈ sorted (· ≥ ·) r.levels.val := (mem_sorted _).mpr hp
  unfold Redis.pendingLevels
  split
  · next hnil =>
    rw [hnil] at hmem
    cases hmem
  · exact hmem

/-- With every level registered, the walk meets every pending job. -/
theorem mem_waiting_iff (h : r.Levelled) :
    entry ∈ r.waiting ↔ (r.pending entry.priority).lookup entry.jobId = some entry.score := by
  refine ⟨lookup_of_waiting, fun hl => ?_⟩
  have hp : entry.priority ∈ r.levels := by
    refine h entry.jobId entry.priority ?_
    rw [Redis.view_pending, hl]
    exact Option.some_ne_none _
  exact List.mem_flatMap.mpr ⟨entry.priority, mem_pendingLevels hp, mem_waitingAt.mpr ⟨rfl, hl⟩⟩

theorem nodup_waiting (h : r.OneLevel) : (r.waiting.map fun entry => entry.jobId).Nodup := by
  refine List.pairwise_map.mpr ((pairwise_waiting r).imp_of_mem ?_)
  intro e e' he he' hbefore hid
  have hl := lookup_of_waiting he
  have hl' := lookup_of_waiting he'
  have hp : e.priority = e'.priority := by
    refine h e.jobId _ _ ?_ ?_
    · rw [hl]
      exact Option.some_ne_none _
    · rw [hid, hl']
      exact Option.some_ne_none _
  -- one member of one level, so it has one score
  rw [hid, hp, hl', Option.some.injEq] at hl
  rcases hbefore with hlt | ⟨-, hlt | ⟨-, hlt⟩⟩
  · omega
  · exact absurd hl.symm hlt.ne
  · exact absurd hid hlt.ne

end

/-! ## Every writer registers its level -/

/-- A call, with the clock it is made at. -/
inductive QueueCall where
  | addPending (priority : Int) (jobId : JobId) (score : ℚ)
  /-- A call of one of the other state functions. -/
  | action (now claimGraceS : ℚ) (a : Action)

def QueueCall.act (r : Redis) : QueueCall → Redis
  | addPending priority jobId score => (run (Taas.addPending priority jobId score) r).2
  | action now claimGraceS a => (run (a.prog claimGraceS now) r).2

section

variable {r : Redis}

theorem Redis.levelled_empty : ({} : Redis).Levelled := by
  intro j p hp
  exact absurd (Finmap.lookup_empty (β := fun _ : JobId => ℚ) j) hp

theorem levelled_addPending (hr : r.Levelled) (p : Int) (j : JobId) (score : ℚ) :
    (run (addPending p j score) r).2.Levelled := by
  refine hr.update (views_addPending r j p score) (Finset.subset_insert p _) fun q hq => ?_
  refine (pending_zaddPending hq).imp id fun he => ?_
  rw [he]
  exact Finset.mem_insert_self _ _

theorem levelled_foldl_enqueue (stateTtl : Nat) (jobs : List (JobId × JobState))
    (hr : r.Levelled) : (jobs.foldl (Redis.enqueue stateTtl) r).Levelled := by
  induction jobs generalizing r with
  | nil => exact hr
  | cons job jobs ih =>
    let w : World := { redis := r }
    have hmicro : World.Micro 0 (fun _ _ _ _ => True) w (w.put (r.enqueue stateTtl job)) :=
      World.Micro.enqueue trivial
    exact ih (levelled_micro hmicro hr)

theorem levelled_dropPending (entries : List QueueEntry) (hr : r.Levelled) :
    (run (dropPending entries) r).2.Levelled := by
  induction entries generalizing r with
  | nil => exact hr
  | cons entry entries ih =>
    have hstep : (r.zremPending entry.priority entry.jobId).Levelled := by
      refine hr.update (Redis.views_zremPending r entry.jobId entry.priority) subset_rfl
        fun p hp => Or.inl ?_
      obtain ⟨score, hscore⟩ := Option.ne_none_iff_exists'.mp hp
      rw [(JobView.keeps_zremPending _ entry.priority).pending p score hscore]
      exact Option.some_ne_none score
    exact ih hstep

theorem levelled_action (now claimGraceS : ℚ) (a : Action) (hr : r.Levelled) :
    (run (a.prog claimGraceS now) r).2.Levelled := by
  have hmicro : ∀ a : Action, World.Meets (fun _ _ _ _ => True) { redis := r, now := now } a →
      (run (a.prog claimGraceS now) r).2.Levelled := by
    intro a ha
    have hact : (World.act claimGraceS { redis := r, now := now } a).redis.Levelled :=
      World.act_of_micro (P := fun w => w.redis.Levelled) (fun _ _ hm h => levelled_micro hm h) ha hr
    exact hact
  cases a with
  | wait d => exact hr
  | enqueueJobs jobs stateTtl =>
    rw [Action.prog, run_map, enqueueJobs, run_bind, run_enqueueTransactions,
      flatten_chunks (by decide), run_when]
    split
    · exact levelled_foldl_enqueue stateTtl jobs hr
    · exact levelled_foldl_enqueue stateTtl jobs hr
  | dropPending entries =>
    rw [Action.prog, run_map]
    exact levelled_dropPending entries hr
  | expire jobId => exact hmicro (.expire jobId) trivial
  | promoteDueRetries => exact hmicro .promoteDueRetries trivial
  | claimPending entries => exact hmicro (.claimPending entries) trivial
  | requeueOrphans jobIds => exact hmicro (.requeueOrphans jobIds) trivial
  | resolve jobId res => exact hmicro (.resolve jobId res) trivial
  | outcome jobId o => exact hmicro (.outcome jobId o) trivial

theorem levelled_act (call : QueueCall) (hr : r.Levelled) : (QueueCall.act r call).Levelled := by
  cases call with
  | addPending priority jobId score => exact levelled_addPending hr priority jobId score
  | action now claimGraceS a => exact levelled_action now claimGraceS a hr

theorem levelled_run (calls : List QueueCall) (hr : r.Levelled) :
    (calls.foldl QueueCall.act r).Levelled := by
  induction calls generalizing r with
  | nil => exact hr
  | cons call calls ih => exact ih (levelled_act call hr)

end

/-- **What is peeked, after any calls, is the head of the queue of all pending jobs, and nothing is
removed.** -/
theorem peeked_in_order (calls : List QueueCall) (count : Nat)
    (h : (calls.foldl QueueCall.act {}).OneLevel) :
    let r := calls.foldl QueueCall.act {}
    ∃ queue, r.IsQueue queue ∧ run (peekPending count) r = (queue.take count, r) ∧
      ((queue.take count).map fun entry => entry.jobId).Nodup := by
  intro r
  have hlevels : r.Levelled := levelled_run calls Redis.levelled_empty
  refine ⟨r.waiting, ⟨pairwise_waiting r, fun entry => mem_waiting_iff hlevels⟩,
    run_peekPending count r, ?_⟩
  exact (nodup_waiting h).sublist ((List.take_sublist count _).map _)

/-- Three levels with jobs, and one that is empty again. -/
def levelCalls : List QueueCall :=
  [.addPending 9 8 1, .action 0 60 (.dropPending [⟨8, 1, 9⟩]), .addPending 5 2 3,
    .addPending 2 3 7, .addPending 2 4 4, .addPending 0 1 1]

theorem oneLevel_levelCalls : (levelCalls.foldl QueueCall.act {}).OneLevel := by
  have hlevels : ∀ p ∉ [9, 5, 2, 0], (levelCalls.foldl QueueCall.act {}).pending p = ∅ := by
    intro p hp
    simp only [List.mem_cons, List.not_mem_nil, or_false, not_or] at hp
    obtain ⟨h9, h5, h2, h0⟩ := hp
    exact (Function.update_of_ne h0 ..).trans ((Function.update_of_ne h2 ..).trans
      ((Function.update_of_ne h2 ..).trans ((Function.update_of_ne h5 ..).trans
        ((Function.update_of_ne h9 ..).trans (Function.update_of_ne h9 ..)))))
  have hapart : ∀ p ∈ [9, 5, 2, 0], ∀ q ∈ [9, 5, 2, 0], p ≠ q →
      Disjoint ((levelCalls.foldl QueueCall.act {}).pending p).keys
        ((levelCalls.foldl QueueCall.act {}).pending q).keys := by
    decide +kernel
  have hmem : ∀ {j p}, ((levelCalls.foldl QueueCall.act {}).pending p).lookup j ≠ none →
      p ∈ [9, 5, 2, 0] ∧ j ∈ ((levelCalls.foldl QueueCall.act {}).pending p).keys := by
    intro j p hj
    refine ⟨?_, ?_⟩
    · by_contra hp
      rw [hlevels p hp] at hj
      exact hj (Finmap.lookup_empty j)
    · rw [Finmap.mem_keys, ← Finmap.lookup_isSome, Option.isSome_iff_ne_none]
      exact hj
  intro j p q hp hq
  by_contra hne
  obtain ⟨hp, hjp⟩ := hmem hp
  obtain ⟨hq, hjq⟩ := hmem hq
  exact Finset.disjoint_left.mp (hapart p hp q hq hne) hjp hjq

/-- The peek ends inside of level 2. -/
theorem peeked_in_order_sample : ∃ queue, (levelCalls.foldl QueueCall.act {}).IsQueue queue ∧
    run (peekPending 2) (levelCalls.foldl QueueCall.act {}) =
      (queue.take 2, levelCalls.foldl QueueCall.act {}) ∧
    queue.take 2 = [⟨2, 3, 5⟩, ⟨4, 4, 2⟩] ∧ ⟨3, 7, 2⟩ ∈ queue := by
  obtain ⟨queue, hqueue, hpeek, -⟩ := peeked_in_order levelCalls 2 oneLevel_levelCalls
  refine ⟨queue, hqueue, hpeek, ?_, (hqueue.mem _).mpr (by decide +kernel)⟩
  have heq := congrArg Prod.fst hpeek
  rw [← show _ = queue.take 2 from heq]
  decide +kernel

end Taas

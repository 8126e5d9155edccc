import Mathlib.Algebra.Order.BigOperators.Group.List
import Taas.Infra.Lists
import Taas.Properties.Queue
import Taas.Properties.Tiers

/-!
# What a tick leaves waiting

A tier looks at as many heads of the queue as it may dispatch, so a job that it leaves out keeps
it from one behind.

* `windows` — what each tier looks at, from the queue, the eligible backends and the budget.
* `Window.Skips` — a job is left out while a slot is free for one behind the window.
* `run_tierPlans` — a tick that runs alone dispatches what its windows place.
* `conserves_of_not_skips` — it leaves no free slot and job for it if no window skips.
-/

namespace Taas

open Infra Infra.Prog

/-! ## Windows -/

/-- A tier's window on the queue: its backends, the jobs that it looks at and those behind. -/
structure Window where
  tier : List BackendSlot
  seen : List PendingJob
  behind : List PendingJob

variable (input : TickInput)

namespace Window

variable (w : Window)

def allocation : List (PendingJob × BackendSlot) × List BackendSlot :=
  allocateScored input.spp input.affinityTolerance 0 w.tier w.seen

def placed : List PendingJob := (w.allocation input).1.map Prod.fst

/-- The tier's slots after the allocation. -/
def left : List BackendSlot := (w.allocation input).2

/-- The turns of the jobs that the tier looked at. -/
def turns : List Turn := jobTurns input.spp input.affinityTolerance 0 w.tier w.seen

end Window

/-- A tier looks at as many jobs as it may dispatch. -/
def windowAt (eligible : List BackendSlot) (priority : Int) (remaining : Nat)
    (queue : List PendingJob) : Window :=
  let capacity := min (freeSlots (tierOf eligible priority)) remaining
  ⟨tierOf eligible priority, queue.take capacity, queue.drop capacity⟩

/-- The windows of a tick, tier by tier. -/
def windows (eligible : List BackendSlot) : List Int → Nat → List PendingJob → List Window
  | [], _, _ => []
  | priority :: lower, remaining, queue =>
    let w := windowAt eligible priority remaining queue
    w :: windows eligible lower (remaining - (w.placed input).length)
      (queue.filter fun job => job ∉ w.placed input)

/-- The jobs that no window places. -/
def unplaced (ws : List Window) (queue : List PendingJob) : List PendingJob :=
  queue.filter fun job => ∀ w ∈ ws, job ∉ w.placed input

def placedCount (ws : List Window) : Nat := (ws.map fun w => (w.placed input).length).sum

/-- The eligible slots when all windows are done. -/
def slotsLeft (ws : List Window) : List BackendSlot := ws.flatMap fun w => w.left input

/-- The slot serves the job, is free, and is allowed to it among the slots. -/
def Usable (slots : List BackendSlot) (job : PendingJob) (slot : BackendSlot) : Prop :=
  canServe slot job = true ∧ 0 < slot.free ∧ Allowed slots job slot

instance (slots : List BackendSlot) (job : PendingJob) (slot : BackendSlot) :
    Decidable (Usable slots job slot) :=
  inferInstanceAs (Decidable (canServe slot job = true ∧ 0 < slot.free ∧
    (slot.backend.id ∉ job.avoid ∨
      ∀ s ∈ slots, canServe s job = true → s.backend.id ∈ job.avoid)))

/-- A job is left out at its turn while a free slot of the tier serves a job behind the window, and
is allowed to it among the eligible backends. -/
def Window.Skips (eligible : List BackendSlot) (w : Window) : Prop :=
  ∃ turn ∈ w.turns input, candidates turn.slots turn.job = [] ∧
    ∃ slot ∈ turn.slots, ∃ job ∈ w.behind, Usable eligible job slot

instance (eligible : List BackendSlot) (w : Window) : Decidable (w.Skips input eligible) :=
  inferInstanceAs (Decidable (∃ turn ∈ w.turns input, candidates turn.slots turn.job = [] ∧
    ∃ slot ∈ turn.slots, ∃ job ∈ w.behind, Usable eligible job slot))

variable {input} {eligible : List BackendSlot}

/-- A tier whose window is full and wholly placed has no free slot left, or no budget. -/
theorem Window.full {w : Window} {remaining : Nat} (hnodup : w.seen.Nodup)
    (hlength : w.seen.length = min (freeSlots w.tier) remaining)
    (hplaced : ∀ job ∈ w.seen, job ∈ w.placed input) :
    (∀ slot ∈ w.left input, slot.free = 0) ∨ remaining ≤ (w.placed input).length := by
  have hle : w.seen.length ≤ (w.placed input).length :=
    (hnodup.subperm fun job hjob => hplaced job hjob).length_le
  have hfree : freeSlots (w.left input) + (w.placed input).length = freeSlots w.tier := by
    rw [Window.placed, List.length_map]
    exact freeSlots_allocate w.seen
  by_cases hremaining : remaining ≤ (w.placed input).length
  · exact Or.inr hremaining
  · refine Or.inl fun slot hslot => ?_
    have := free_le_freeSlots hslot
    omega

theorem Usable.open {slots slots' : List BackendSlot} {job : PendingJob} {slot : BackendSlot}
    (h : Usable slots' job slot) (hsub : ∀ s ∈ slots, s ∈ slots') (hslot : slot ∈ slots) :
    Open slots job slot :=
  ⟨hslot, h.1, h.2.1, h.2.2.imp_right fun hall s hs => hall s (hsub s hs)⟩

/-- A job that waits although a slot of the window's tier is open to it stands behind a job that the
window left out. -/
theorem behind_of_open {w : Window} {priorities : List Int} {remaining : Nat}
    {queue : List PendingJob} (hw : w ∈ windows input eligible priorities remaining queue)
    (hnodup : queue.Nodup) {job : PendingJob} (hjob : job ∈ queue)
    (hplaced : ∀ w' ∈ windows input eligible priorities remaining queue, job ∉ w'.placed input)
    (hbudget : placedCount input (windows input eligible priorities remaining queue) < remaining)
    {slot : BackendSlot} (hopen : Open (w.left input) job slot) :
    job ∈ w.behind ∧ ∃ other ∈ w.seen, other ∉ w.placed input := by
  induction priorities generalizing remaining queue with
  | nil => cases hw
  | cons priority lower ih =>
    unfold windows at hw hplaced hbudget
    dsimp only at hw hplaced hbudget
    set head := windowAt eligible priority remaining queue with hhead
    rw [placedCount, List.map_cons, List.sum_cons] at hbudget
    have hout : job ∉ head.placed input := hplaced head List.mem_cons_self
    rcases List.mem_cons.mp hw with rfl | hw
    · -- the job was not looked at, or it would have found the slot
      have hunseen : job ∉ head.seen := fun hseen => left_out hseen hout slot hopen
      have hbehind : job ∈ head.behind := by
        have hsplit : job ∈ head.seen ++ head.behind := by
          rw [hhead, windowAt, List.take_append_drop]
          exact hjob
        exact (List.mem_append.mp hsplit).resolve_left hunseen
      refine ⟨hbehind, ?_⟩
      by_contra hall
      push Not at hall
      have hlength : head.seen.length = min (freeSlots head.tier) remaining := by
        have hdrop := List.length_pos_of_mem hbehind
        rw [hhead, windowAt] at hdrop ⊢
        simp only [List.length_drop, List.length_take] at hdrop ⊢
        omega
      have hseen : head.seen.Nodup := hnodup.sublist (List.take_sublist _ _)
      rcases Window.full hseen hlength hall with hfull | hused
      · have hfree := hopen.free
        rw [hfull slot hopen.mem] at hfree
        exact absurd hfree (lt_irrefl 0)
      · omega
    · refine ih hw (hnodup.filter _) (List.mem_filter.mpr ⟨hjob, decide_eq_true hout⟩)
        (fun w' hw' => hplaced w' (List.mem_cons_of_mem _ hw')) ?_
      rw [placedCount]
      omega

theorem Window.placed_length_le (w : Window) : (w.placed input).length ≤ w.seen.length :=
  (placed_sublist w.seen).length_le

theorem seen_length_le (eligible : List BackendSlot) (priority : Int) (remaining : Nat)
    (queue : List PendingJob) :
    (windowAt eligible priority remaining queue).seen.length ≤ remaining := by
  rw [windowAt, List.length_take]
  omega

/-- A tick dispatches within its budget. -/
theorem placedCount_le (input : TickInput) (eligible : List BackendSlot) (priorities : List Int)
    (budget : Nat) (queue : List PendingJob) :
    placedCount input (windows input eligible priorities budget queue) ≤ budget := by
  induction priorities generalizing budget queue with
  | nil => exact Nat.zero_le budget
  | cons priority lower ih =>
    rw [windows, placedCount, List.map_cons, List.sum_cons]
    set w := windowAt eligible priority budget queue with hw
    have hseen : w.seen.length ≤ budget := seen_length_le eligible priority budget queue
    have hplaced : (w.placed input).length ≤ w.seen.length := w.placed_length_le
    have hlower := ih (budget - (w.placed input).length) (queue.filter fun job => job ∉ w.placed input)
    rw [placedCount] at hlower
    omega

/-- The slots that are left are the eligible ones of the tiers, as they are later. -/
theorem slotsLeft_later (priorities : List Int) (remaining : Nat) (queue : List PendingJob) :
    let left := slotsLeft input (windows input eligible priorities remaining queue)
    (∀ slot ∈ eligible, slot.backend.priority ∈ priorities → ∃ slot' ∈ left, slot.Later slot') ∧
      ∀ slot' ∈ left, ∃ slot ∈ eligible, slot.Later slot' := by
  induction priorities generalizing remaining queue with
  | nil => exact ⟨fun _ _ h => (nomatch h), fun _ h => (nomatch h)⟩
  | cons priority lower ih =>
    intro left
    set w := windowAt eligible priority remaining queue with hw
    obtain ⟨hafter, hbefore⟩ := ih (remaining - (w.placed input).length)
      (queue.filter fun job => job ∉ w.placed input)
    have hleft : left = w.left input ++ slotsLeft input (windows input eligible lower
      (remaining - (w.placed input).length) (queue.filter fun job => job ∉ w.placed input)) := rfl
    have hlater : Later (tierOf eligible priority) (w.left input) := later_allocate w.seen
    rw [hleft]
    constructor
    · intro slot hslot hpriority
      rcases List.mem_cons.mp hpriority with rfl | hlower
      · obtain ⟨slot', hslot', h⟩ := hlater.exists_after slot
          (List.mem_filter.mpr ⟨hslot, decide_eq_true rfl⟩)
        exact ⟨slot', List.mem_append_left _ hslot', h⟩
      · obtain ⟨slot', hslot', h⟩ := hafter slot hslot hlower
        exact ⟨slot', List.mem_append_right _ hslot', h⟩
    · intro slot' hslot'
      rcases List.mem_append.mp hslot' with hslot' | hslot'
      · obtain ⟨slot, hslot, h⟩ := hlater.exists_before slot' hslot'
        exact ⟨slot, List.mem_of_mem_filter hslot, h⟩
      · exact hbefore slot' hslot'

/-- A slot that may take the job when all windows are done might take it when they began. -/
theorem usable_of_left {priorities : List Int} {remaining : Nat} {queue : List PendingJob}
    (hall : ∀ slot ∈ eligible, slot.backend.priority ∈ priorities) {job : PendingJob}
    {slot slot' : BackendSlot} (hlater : slot'.Later slot)
    (h : Usable (slotsLeft input (windows input eligible priorities remaining queue)) job slot) :
    Usable eligible job slot' := by
  obtain ⟨hserve, hfree, hallowed⟩ := h
  refine ⟨(hlater.canServe job).symm.trans hserve, hfree.trans_le hlater.free, ?_⟩
  refine hallowed.imp (fun havoid => by rwa [← hlater.backend]) fun hleft s hs hserves => ?_
  obtain ⟨hafter, -⟩ : (∀ slot ∈ eligible, slot.backend.priority ∈ priorities → ∃ slot' ∈
      slotsLeft input (windows input eligible priorities remaining queue), slot.Later slot') ∧ _ :=
    slotsLeft_later priorities remaining queue
  obtain ⟨s', hs', hsame⟩ := hafter s hs (hall s hs)
  rw [← hsame.backend]
  exact hleft s' hs' ((hsame.canServe job).trans hserves)

/-- **If a job is left and a slot for it, a window skipped a job.** -/
theorem exists_window_skips {priorities : List Int} {budget : Nat} {queue : List PendingJob}
    (hnodup : queue.Nodup) (hall : ∀ slot ∈ eligible, slot.backend.priority ∈ priorities)
    {ws : List Window} (hws : ws = windows input eligible priorities budget queue)
    (hbudget : placedCount input ws < budget) {job : PendingJob} (hjob : job ∈ unplaced input ws queue)
    {slot : BackendSlot} (hslot : slot ∈ slotsLeft input ws)
    (husable : Usable (slotsLeft input ws) job slot) : ∃ w ∈ ws, w.Skips input eligible := by
  subst hws
  obtain ⟨hqueue, hplaced⟩ := List.mem_filter.mp hjob
  rw [decide_eq_true_eq] at hplaced
  obtain ⟨w, hw, hslot⟩ := List.mem_flatMap.mp hslot
  have hown : Open (w.left input) job slot :=
    husable.open (fun s hs => List.mem_flatMap.mpr ⟨w, hw, hs⟩) hslot
  obtain ⟨hbehind, other, hother, hout⟩ := behind_of_open hw hnodup hqueue hplaced hbudget hown
  -- the slot that is left was free at the turn of the job that was left out
  obtain ⟨turn, hturn, -, hskip⟩ := exists_skip hother hout
  obtain ⟨slot', hslot', hlater⟩ := (later_turn hturn).2.exists_before slot hslot
  exact ⟨w, hw, turn, hturn, hskip, slot', hslot', job, hbehind, usable_of_left hall hlater husable⟩

/-! ## The queue -/

def Redis.waitingAt (r : Redis) (priority : Int) : List QueueEntry :=
  (r.pending priority).range.map fun e => ⟨e.1, e.2, priority⟩

/-- What waits on the registered levels, in the order in which it is peeked. -/
def Redis.waiting (r : Redis) : List QueueEntry := r.pendingLevels.flatMap r.waitingAt

/-- A waiting job as dispatch sees it. -/
def Redis.wanted (r : Redis) (entry : QueueEntry) : Option PendingJob :=
  (r.state entry.jobId).map (pendingJob entry)

def Redis.queue (r : Redis) : List PendingJob := r.waiting.filterMap r.wanted

/-- Every job that waits has its hash, and waits at the level of its priority. -/
def Redis.AtLevel (r : Redis) : Prop :=
  ∀ p j, (r.view j).pending p ≠ none → ∃ state, (r.view j).state = some state ∧ state.priority = p

/-- Every job that waits has its hash, and no job waits twice. -/
structure Redis.Lined (r : Redis) : Prop where
  wanted : ∀ entry ∈ r.waiting, ∃ job, r.wanted entry = some job
  nodup : (r.waiting.map fun entry => entry.jobId).Nodup

section

variable {r r' : Redis} {entry : QueueEntry}

theorem mem_waitingAt {p : Int} : entry ∈ r.waitingAt p ↔
    entry.priority = p ∧ (r.pending p).lookup entry.jobId = some entry.score := by
  rw [Redis.waitingAt, List.mem_map]
  constructor
  · rintro ⟨⟨j, score⟩, h, rfl⟩
    exact ⟨rfl, SortedSet.mem_range.mp h⟩
  · rintro ⟨rfl, h⟩
    exact ⟨(entry.jobId, entry.score), SortedSet.mem_range.mpr h, rfl⟩

theorem lookup_of_waiting (h : entry ∈ r.waiting) :
    (r.pending entry.priority).lookup entry.jobId = some entry.score := by
  obtain ⟨p, -, hp⟩ := List.mem_flatMap.mp h
  obtain ⟨rfl, hlookup⟩ := mem_waitingAt.mp hp
  exact hlookup

theorem nodup_pendingLevels (r : Redis) : r.pendingLevels.Nodup := by
  unfold Redis.pendingLevels
  split
  · exact List.nodup_singleton 0
  · exact (nodup_sorted _).mpr r.levels.nodup

theorem Redis.AtLevel.lined (h : r.AtLevel) : r.Lined where
  wanted entry hentry := by
    have hpending : (r.view entry.jobId).pending entry.priority ≠ none := by
      rw [Redis.view_pending, lookup_of_waiting hentry]
      exact Option.some_ne_none _
    obtain ⟨state, hstate, -⟩ := h _ _ hpending
    exact ⟨pendingJob entry state, by rw [Redis.wanted, Redis.state_eq, hstate]; rfl⟩
  nodup := by
    rw [Redis.waiting, List.map_flatMap, List.nodup_flatMap]
    have hlevel : ∀ p, (r.waitingAt p).map (fun entry => entry.jobId) =
        (r.pending p).range.map Prod.fst := fun p => by
      rw [Redis.waitingAt, List.map_map]
      rfl
    refine ⟨fun p _ => ?_, (nodup_pendingLevels r).imp fun {p q} hpq => ?_⟩
    · rw [hlevel]
      exact SortedSet.nodup_range _
    · -- a job at two levels would have two priorities
      intro j hp hq
      have hat : ∀ p, j ∈ (r.waitingAt p).map (fun entry => entry.jobId) →
          ∃ state, (r.view j).state = some state ∧ state.priority = p := by
        intro p hj
        rw [hlevel, List.mem_map] at hj
        obtain ⟨⟨j', score⟩, hmem, rfl⟩ := hj
        refine h p j' ?_
        rw [Redis.view_pending, SortedSet.mem_range.mp hmem]
        exact Option.some_ne_none score
      obtain ⟨state, hstate, rfl⟩ := hat p hp
      obtain ⟨state', hstate', rfl⟩ := hat q hq
      rw [Option.some.inj (hstate.symm.trans hstate')] at hpq
      exact hpq rfl

theorem Redis.Lined.eq_of_jobId (h : r.Lined) {e e' : QueueEntry} (he : e ∈ r.waiting)
    (he' : e' ∈ r.waiting) (hid : e.jobId = e'.jobId) : e = e' :=
  List.inj_on_of_nodup_map h.nodup he he' hid

theorem Redis.wanted_jobId {job : PendingJob} (h : r.wanted entry = some job) :
    job.jobId = entry.jobId := by
  obtain ⟨state, -, rfl⟩ := Option.map_eq_some_iff.mp h
  rfl

theorem Redis.Lined.nodup_queue (h : r.Lined) : r.queue.Nodup := by
  refine List.pairwise_filterMap.mpr ((List.pairwise_map.mp h.nodup).imp ?_)
  intro e e' hne job hjob job' hjob' hsame
  rw [← wanted_jobId hjob, ← wanted_jobId hjob', hsame] at hne
  exact hne rfl

/-- What is peeked is the head of the queue. -/
theorem run_peekLevels (count : Nat) (levels : List Int) (results : List QueueEntry) (r : Redis) :
    run (peekLevels count levels results) r =
      (results ++ (levels.flatMap r.waitingAt).take (count - results.length), r) := by
  induction levels generalizing results with
  | nil => simp [peekLevels]
  | cons level levels ih =>
    rw [peekLevels]
    split
    · next hle => simp [Nat.sub_eq_zero_of_le hle]
    · rw [run_bind, run_query, ih, List.flatMap_cons, List.take_append, List.append_assoc]
      have hbatch : (((r.pending level).range.take (count - results.length)).map fun e =>
          (⟨e.1, e.2, level⟩ : QueueEntry)) = (r.waitingAt level).take (count - results.length) := by
        rw [Redis.waitingAt, List.map_take]
      rw [hbatch, List.length_append, List.length_take]
      congr 4
      omega

theorem run_peekPending (count : Nat) (r : Redis) :
    run (peekPending count) r = (r.waiting.take count, r) := by
  rw [peekPending, run_bind, run_query, run_peekLevels]
  rfl

end

/-! ## Commands that leave the queue alone -/

/-- `r'` has the same jobs waiting as `r`, and they want the same. -/
structure Redis.SameQueue (r r' : Redis) : Prop where
  pending : r'.pending = r.pending
  levels : r'.levels = r.levels
  wanted : r'.wanted = r.wanted

section

variable {r r' r'' : Redis}

theorem Redis.SameQueue.refl (r : Redis) : r.SameQueue r := ⟨rfl, rfl, rfl⟩

theorem Redis.SameQueue.trans (h : r.SameQueue r') (h' : r'.SameQueue r'') : r.SameQueue r'' :=
  ⟨h'.pending.trans h.pending, h'.levels.trans h.levels, h'.wanted.trans h.wanted⟩

theorem Redis.SameQueue.waiting (h : r.SameQueue r') : r'.waiting = r.waiting := by
  have hlevels : r'.pendingLevels = r.pendingLevels := by
    rw [Redis.pendingLevels, Redis.pendingLevels, h.levels]
  have hat : r'.waitingAt = r.waitingAt := by
    funext p
    rw [Redis.waitingAt, Redis.waitingAt, h.pending]
  rw [Redis.waiting, Redis.waiting, hlevels, hat]

theorem Redis.SameQueue.queue (h : r.SameQueue r') : r'.queue = r.queue := by
  rw [Redis.queue, Redis.queue, h.waiting, h.wanted]

theorem Redis.SameQueue.lined (h : r.SameQueue r') (hr : r.Lined) : r'.Lined where
  wanted := by
    rw [h.waiting, h.wanted]
    exact hr.wanted
  nodup := by
    rw [h.waiting]
    exact hr.nodup

/-- The change of a hash leaves alone what dispatch reads of it. -/
structure KeepsWanted (f : JobHash → JobHash) : Prop where
  username : ∀ h, (f h).username = h.username
  fmt : ∀ h, (f h).fmt = h.fmt
  outputs : ∀ h, (f h).outputs = h.outputs
  submittedAt : ∀ h, (f h).submittedAt = h.submittedAt
  domain : ∀ h, (f h).domain = h.domain
  avoidBackends : ∀ h, (f h).avoidBackends = h.avoidBackends
  mp : ∀ h, (f h).mp = h.mp
  batchId : ∀ h, (f h).batchId = h.batchId

theorem keepsWanted_running (now : ℚ) (settings : Settings) (engineJobId backendUrl : String)
    (backendId : BackendId) :
    KeepsWanted (JobHash.running now settings engineJobId backendUrl backendId) := by
  constructor <;> intro h <;> rfl

theorem keepsWanted_claimed (now : ℚ) : KeepsWanted (JobHash.claimed now) := by
  constructor <;> intro h <;> rfl

theorem keepsWanted_expiring (ttl : Nat) : KeepsWanted (JobHash.expiring ttl) := by
  constructor <;> intro h <;> rfl

theorem KeepsWanted.fromHash {f : JobHash → JobHash} (hf : KeepsWanted f) (h : JobHash)
    (entry : QueueEntry) : (JobState.fromHash (f h)).map (pendingJob entry) =
      (JobState.fromHash h).map (pendingJob entry) := by
  have houtputs : JobState.hashOutputs (f h) = JobState.hashOutputs h := by
    rw [JobState.hashOutputs, JobState.hashOutputs, hf.outputs, hf.fmt]
  simp only [JobState.fromHash, houtputs, hf.username, hf.fmt, hf.submittedAt, hf.domain,
    hf.avoidBackends, hf.mp, hf.batchId]
  generalize nonEmpty h.username = username, nonEmpty h.fmt = fmt, JobState.hashOutputs h = outputs
  cases username <;> cases fmt <;> cases outputs <;> cases h.submittedAt <;> rfl

theorem wanted_eq (r : Redis) (entry : QueueEntry) : r.wanted entry =
    (r.view entry.jobId).state.map (pendingJob entry) := rfl

theorem KeepsWanted.hmod {f : JobHash → JobHash} (hf : KeepsWanted f) (v : JobView)
    (entry : QueueEntry) :
    (v.hmod f).state.map (pendingJob entry) = v.state.map (pendingJob entry) := by
  cases hv : v.hash with
  | none => simp [JobView.state, JobView.hmod, hv]
  | some h => simpa [JobView.state, JobView.hmod, hv] using hf.fromHash h entry

/-- A hash that was missing has no more than `f` writes, which is not a job's. -/
theorem KeepsWanted.hset {f : JobHash → JobHash} (hf : KeepsWanted f) (v : JobView)
    (entry : QueueEntry) :
    (v.hset f).state.map (pendingJob entry) = v.state.map (pendingJob entry) := by
  cases hv : v.hash with
  | none =>
    have hempty : JobState.fromHash {} = none := rfl
    have hnone := hf.fromHash {} entry
    rw [hempty] at hnone
    simpa [JobView.state, JobView.hset, hv] using hnone
  | some h => simpa [JobView.state, JobView.hset, hv] using hf.fromHash h entry

/-- A command on one job that keeps what dispatch reads of it. -/
theorem wanted_update {v : JobView} {j : JobId} (hviews : r'.view = Function.update r.view j v)
    (hv : ∀ entry, v.state.map (pendingJob entry) =
      (r.view j).state.map (pendingJob entry)) : r'.wanted = r.wanted := by
  funext entry
  rw [wanted_eq, wanted_eq, hviews]
  by_cases hj : entry.jobId = j
  · rw [hj, Function.update_self]
    exact hv entry
  · rw [Function.update_of_ne hj]

theorem sameQueue_hset {f : JobHash → JobHash} (hf : KeepsWanted f) (r : Redis) (j : JobId) :
    r.SameQueue (r.hset j f) :=
  ⟨rfl, rfl, wanted_update (Redis.views_hset r j f) (hf.hset _)⟩

theorem sameQueue_hmod {f : JobHash → JobHash} (hf : KeepsWanted f) (r : Redis) (j : JobId) :
    r.SameQueue (r.hmod j f) := by
  obtain ⟨jobs, hjobs⟩ := r.exists_hmod j f
  exact ⟨by rw [hjobs], by rw [hjobs], wanted_update (Redis.views_hmod r j f) (hf.hmod _)⟩

/-- A command that touches neither the hashes nor the queues. -/
theorem sameQueue_of_eq (hp : r'.pending = r.pending) (hl : r'.levels = r.levels)
    (hj : r'.jobs = r.jobs) : r.SameQueue r' := by
  refine ⟨hp, hl, ?_⟩
  funext entry
  rw [Redis.wanted, Redis.wanted, Redis.state, Redis.state, hj]

/-- The command leaves the queue as it is. -/
def LeavesQueue (effect : Redis → Redis) (_ : Redis → List Event) : Prop :=
  ∀ r : Redis, r.SameQueue (effect r)

theorem leavesQueue_setRunning (settings : Settings) (now : ℚ) (jobId : JobId)
    (engineJobId backendUrl : String) (backendId : BackendId) (stateTtl : Nat) :
    (setRunning settings now jobId engineJobId backendUrl backendId stateTtl).Each LeavesQueue := by
  refine Each.bind (each_call fun r => sameQueue_hset (keepsWanted_running ..) r jobId) fun _ => ?_
  refine Each.bind (each_call fun r => sameQueue_hmod (keepsWanted_expiring _) r jobId) fun _ => ?_
  refine Each.bind (each_call fun r => sameQueue_of_eq rfl rfl rfl) fun added => ?_
  have hcount : (enteredInflight jobId backendId).Each LeavesQueue := by
    refine Each.bind (each_call fun r => Redis.SameQueue.refl r) fun state => each_call fun r => ?_
    unfold Redis.countRunning
    split
    · exact sameQueue_of_eq rfl rfl rfl
    · dsimp only
      split <;> exact sameQueue_of_eq rfl rfl rfl
  exact hcount.when.bind fun _ => each_call fun r => sameQueue_of_eq rfl rfl rfl

end

/-! ## Looking at the queue and claiming -/

section

variable {r : Redis}

theorem run_getJobs (jobIds : List JobId) (r : Redis) :
    run (getJobs jobIds) r = (jobIds.map fun jobId => (jobId, r.state jobId), r) := by
  induction jobIds with
  | nil => rfl
  | cons jobId jobIds ih => simp [getJobs, getJob, ih]

/-- The states of jobs that all have one: nothing is dropped. -/
theorem run_queuedStates {entries : List QueueEntry}
    (h : ∀ entry ∈ entries, ∃ job, r.wanted entry = some job) :
    ∃ states, run (queuedStates entries) r = (states, r) ∧
      ∀ entry ∈ entries, states entry.jobId = r.state entry.jobId := by
  have hfound : ∀ entry ∈ entries, asDict ((entries.map fun entry => entry.jobId).map
      fun jobId => (jobId, r.state jobId)) entry.jobId = some (r.state entry.jobId) := by
    intro entry hentry
    rw [asDict, ← List.map_reverse]
    refine List.lookup_graph _ ?_
    rw [List.mem_reverse]
    exact List.mem_map_of_mem hentry
  refine ⟨fun jobId => (asDict ((entries.map fun entry => entry.jobId).map
    fun jobId => (jobId, r.state jobId)) jobId).join, ?_, fun entry hentry => ?_⟩
  · have hgone : (entries.filter fun entry => ((asDict ((entries.map fun entry => entry.jobId).map
        fun jobId => (jobId, r.state jobId)) entry.jobId).join).isNone) = [] := by
      rw [List.filter_eq_nil_iff]
      intro entry hentry
      obtain ⟨job, hjob⟩ := h entry hentry
      obtain ⟨state, hstate, -⟩ := Option.map_eq_some_iff.mp hjob
      rw [hfound entry hentry, hstate]
      exact Bool.false_ne_true
    rw [queuedStates, run_bind, run_getJobs, run_bind, hgone]
    rfl
  · dsimp only
    rw [hfound entry hentry]
    rfl

theorem waiting_zremPending (r : Redis) (p : Int) (j : JobId) : (r.zremPending p j).waiting =
    r.waiting.filter fun e => ¬(e.priority = p ∧ e.jobId = j) := by
  rw [Redis.waiting, Redis.waiting, List.filter_flatMap]
  refine List.flatMap_congr fun q _ => ?_
  rw [Redis.waitingAt, Redis.waitingAt, List.filter_map]
  by_cases hq : q = p
  · subst hq
    have herase : (r.zremPending q j).pending q = (r.pending q).erase j := Function.update_self ..
    rw [herase, SortedSet.range_erase]
    congr 2
    funext e
    simp
  · have hother : (r.zremPending p j).pending q = r.pending q := Function.update_of_ne hq ..
    rw [hother, List.filter_eq_self.mpr]
    intro e _
    simp [hq]

theorem Redis.Lined.lookup_job (h : r.Lined) {entry : QueueEntry} (hentry : entry ∈ r.waiting) :
    r.jobs.lookup entry.jobId ≠ none := by
  obtain ⟨job, hjob⟩ := h.wanted entry hentry
  intro hnone
  rw [Redis.wanted, Redis.state, hnone] at hjob
  cases hjob

/-- A waiting job is claimed: it leaves the queue, and wants what it wanted. -/
theorem claim_waiting (h : r.Lined) {entry : QueueEntry} (hentry : entry ∈ r.waiting) (now : ℚ) :
    r.claimable entry = true ∧ (r.claim now entry).wanted = r.wanted ∧
      (r.claim now entry).waiting = r.waiting.filter fun e => e ≠ entry := by
  have hlookup := lookup_of_waiting hentry
  have hjob := h.lookup_job hentry
  have hclaim : r.claim now entry =
      (r.zremPending entry.priority entry.jobId).hset entry.jobId (JobHash.claimed now) := by
    rw [Redis.claim, if_neg (by rw [hlookup]; exact Option.some_ne_none _), if_neg hjob]
  have hsame := sameQueue_hset (keepsWanted_claimed now)
    (r.zremPending entry.priority entry.jobId) entry.jobId
  refine ⟨?_, ?_, ?_⟩
  · rw [Redis.claimable, hlookup, Option.isSome_some, Bool.true_and]
    exact Option.isSome_iff_ne_none.mpr hjob
  · rw [hclaim, hsame.wanted]
    rfl
  · rw [hclaim, hsame.waiting, waiting_zremPending]
    refine List.filter_congr fun e he => ?_
    rw [decide_eq_decide, not_iff_not]
    constructor
    · rintro ⟨-, hid⟩
      exact h.eq_of_jobId he hentry hid
    · rintro rfl
      exact ⟨rfl, rfl⟩

/-- `r'` has the jobs of `r` waiting, without `gone`. -/
structure Redis.Took (gone : List QueueEntry) (r r' : Redis) : Prop where
  waiting : r'.waiting = r.waiting.filter fun e => e ∉ gone
  wanted : r'.wanted = r.wanted

theorem Redis.Took.lined {gone : List QueueEntry} {r' : Redis} (ht : r.Took gone r')
    (h : r.Lined) : r'.Lined where
  wanted entry hentry := by
    rw [ht.waiting] at hentry
    rw [ht.wanted]
    exact h.wanted entry (List.mem_of_mem_filter hentry)
  nodup := by
    rw [ht.waiting]
    exact h.nodup.sublist (List.filter_sublist.map _)

/-- Who is alone claims all that he peeked. -/
theorem run_claimPending (now : ℚ) {entries : List QueueEntry} (h : r.Lined)
    (hsub : ∀ entry ∈ entries, entry ∈ r.waiting) (hnodup : entries.Nodup) :
    (∀ entry ∈ entries, entry.jobId ∈ (run (claimPending now entries) r).1) ∧
      r.Took entries (run (claimPending now entries) r).2 := by
  induction entries generalizing r with
  | nil =>
    refine ⟨fun entry hentry => (nomatch hentry), ?_, rfl⟩
    simp [claimPending]
  | cons entry entries ih =>
    obtain ⟨hnew, hnodup⟩ := List.nodup_cons.mp hnodup
    obtain ⟨hclaimable, hwanted, hwaiting⟩ := claim_waiting h (hsub entry List.mem_cons_self) now
    have htook : r.Took [entry] (r.claim now entry) :=
      ⟨by simpa using hwaiting, hwanted⟩
    have hrest : ∀ e ∈ entries, e ∈ (r.claim now entry).waiting := by
      intro e he
      rw [hwaiting, List.mem_filter, decide_eq_true_eq]
      refine ⟨hsub e (List.mem_cons_of_mem _ he), ?_⟩
      rintro rfl
      exact hnew he
    obtain ⟨hclaimed, htook'⟩ := ih (htook.lined h) hrest hnodup
    rw [claimPending, run_bind, claimOne, run_callLog]
    dsimp only
    rw [run_bind, run_pure, hclaimable, if_pos rfl]
    refine ⟨fun e he => ?_, ?_, ?_⟩
    · rcases List.mem_cons.mp he with rfl | he
      · exact Finset.mem_insert_self _ _
      · exact Finset.mem_insert_of_mem (hclaimed e he)
    · rw [htook'.waiting, hwaiting, List.filter_filter]
      refine List.filter_congr fun e _ => ?_
      simp [Bool.and_comm]
    · rw [htook'.wanted, hwanted]

/-- The jobs of entries that all want something. -/
theorem filterMap_take {α β : Type} {f : α → Option β} {l : List α}
    (h : ∀ a ∈ l, ∃ b, f a = some b) (n : Nat) : (l.take n).filterMap f = (l.filterMap f).take n := by
  induction l generalizing n with
  | nil => simp
  | cons a l ih =>
    obtain ⟨b, hb⟩ := h a List.mem_cons_self
    cases n with
    | zero => rfl
    | succ n =>
      rw [List.take_succ_cons, List.filterMap_cons_some hb, List.filterMap_cons_some hb,
        List.take_succ_cons, ih fun a ha => h a (List.mem_cons_of_mem _ ha)]

/-- What is taken from the queue is taken from the jobs. -/
theorem Redis.Took.queue {gone : List QueueEntry} {r' : Redis} (ht : r.Took gone r')
    {placed : List PendingJob} (hplaced : ∀ entry ∈ r.waiting, ∀ job, r.wanted entry = some job →
      (job ∈ placed ↔ entry ∈ gone)) :
    r'.queue = r.queue.filter fun job => job ∉ placed := by
  rw [Redis.queue, Redis.queue, ht.waiting, ht.wanted]
  generalize r.waiting = l at hplaced
  induction l with
  | nil => rfl
  | cons entry l ih =>
    have hrest := ih fun e he => hplaced e (List.mem_cons_of_mem _ he)
    cases hjob : r.wanted entry with
    | none =>
      rw [List.filterMap_cons_none hjob, ← hrest, List.filter_cons]
      split
      · rw [List.filterMap_cons_none hjob]
      · rfl
    | some job =>
      have hiff := hplaced entry List.mem_cons_self job hjob
      rw [List.filterMap_cons_some hjob, List.filter_cons, List.filter_cons, ← hrest]
      by_cases hgone : entry ∈ gone
      · rw [if_neg (by simpa using hgone), if_neg (by simpa using hiff.mpr hgone)]
      · rw [if_pos (by simpa using hgone), if_pos (by simpa using mt hiff.mp hgone),
          List.filterMap_cons_some hjob]

end

/-! ## A tier alone -/

section

variable {ι : Type} [DecidableEq ι] (i : ι) (settings : Settings) (input)

/-- The entries of the jobs that a tier placed. -/
def placedEntries (entries : List QueueEntry) (placed : List PendingJob) : List QueueEntry :=
  placed.filterMap fun job => asDict (entries.map fun entry => (entry.jobId, entry)) job.jobId

theorem asDict_of_mem {entries : List QueueEntry}
    (hnodup : (entries.map fun entry => entry.jobId).Nodup) {entry : QueueEntry}
    (h : entry ∈ entries) :
    asDict (entries.map fun entry => (entry.jobId, entry)) entry.jobId = some entry := by
  refine lookup_of_mem ?_ ?_
  · rw [List.map_reverse, List.nodup_reverse, List.map_map]
    exact hnodup
  · rw [List.mem_reverse]
    exact List.mem_map_of_mem h

theorem mem_of_asDict {entries : List QueueEntry} {entry : QueueEntry} {j : JobId}
    (h : asDict (entries.map fun entry => (entry.jobId, entry)) j = some entry) :
    entry ∈ entries ∧ entry.jobId = j := by
  obtain ⟨before, after, hsplit, -⟩ := List.lookup_eq_some_iff.mp h
  have hmem : (j, entry) ∈ entries.map fun entry => (entry.jobId, entry) := by
    rw [← List.mem_reverse, hsplit]
    exact List.mem_append_right _ List.mem_cons_self
  obtain ⟨e, he, heq⟩ := List.mem_map.mp hmem
  cases heq
  exact ⟨he, rfl⟩

section

variable {r : Redis} {entries : List QueueEntry} {placed : List PendingJob}

theorem mem_placedEntries (h : r.Lined) (hsub : entries.Sublist r.waiting)
    (hplaced : ∀ job ∈ placed, job ∈ entries.filterMap r.wanted) {entry : QueueEntry}
    (hentry : entry ∈ r.waiting) {job : PendingJob} (hjob : r.wanted entry = some job) :
    job ∈ placed ↔ entry ∈ placedEntries entries placed := by
  have hnodup := h.nodup.sublist (hsub.map _)
  constructor
  · intro hmem
    obtain ⟨e, he, hwanted⟩ := List.mem_filterMap.mp (hplaced job hmem)
    have hid : e.jobId = entry.jobId :=
      (Redis.wanted_jobId hwanted).symm.trans (Redis.wanted_jobId hjob)
    obtain rfl := h.eq_of_jobId (hsub.subset he) hentry hid
    refine List.mem_filterMap.mpr ⟨job, hmem, ?_⟩
    rw [Redis.wanted_jobId hjob]
    exact asDict_of_mem hnodup he
  · intro hmem
    obtain ⟨job', hmem', hentry'⟩ := List.mem_filterMap.mp hmem
    obtain ⟨-, hid⟩ := mem_of_asDict hentry'
    obtain ⟨e, he, hwanted⟩ := List.mem_filterMap.mp (hplaced job' hmem')
    obtain rfl := h.eq_of_jobId (hsub.subset he) hentry
      ((Redis.wanted_jobId hwanted).symm.trans hid.symm)
    rw [hjob] at hwanted
    rwa [Option.some.inj hwanted]

theorem placedEntries_subset : ∀ entry ∈ placedEntries entries placed, entry ∈ entries := by
  intro entry hentry
  obtain ⟨job, -, hjob⟩ := List.mem_filterMap.mp hentry
  exact (mem_of_asDict hjob).1

theorem nodup_placedEntries (entries : List QueueEntry)
    (hplaced : (placed.map fun job => job.jobId).Nodup) :
    (placedEntries entries placed).Nodup := by
  refine List.pairwise_filterMap.mpr ((List.pairwise_map.mp hplaced).imp ?_)
  intro job job' hne entry hentry entry' hentry' hsame
  refine hne ?_
  rw [← (mem_of_asDict hentry).2, ← (mem_of_asDict hentry').2, hsame]

theorem Redis.Lined.nodup_jobIds (h : r.Lined) : (r.queue.map fun job => job.jobId).Nodup := by
  refine List.pairwise_map.mpr (List.pairwise_filterMap.mpr ((List.pairwise_map.mp h.nodup).imp ?_))
  intro e e' hne job hjob job' hjob'
  rwa [wanted_jobId hjob, wanted_jobId hjob']

end

/-- What a tier that runs alone does with the heads of the queue. -/
structure TierPlan.Places (plan : TierPlan) (tier : List BackendSlot) (seen : List PendingJob) :
    Prop where
  backends : plan.tier = tier
  pending : plan.pending = seen
  assignments : plan.assignments.map (fun a => (a.job, a.slot)) =
    (allocateScored input.spp input.affinityTolerance 0 tier seen).1
  states : ∀ a ∈ plan.assignments, a.job.domain = a.state.domain ∧ a.job.outputs = a.state.outputs

omit [DecidableEq ι] in
theorem run_planTier {s : Stores ι} (h : s.redis.Lined) (eligible : List BackendSlot)
    (priority : Int) (count : Nat) {plan : TierPlan} {s' : Stores ι}
    (hrun : run (planTier i input (tierOf eligible priority) priority count
      (s.redis.waiting.take count)) s = (plan, s')) :
    plan.Places input (tierOf eligible priority) (s.redis.queue.take count) ∧ s'.redis.Lined ∧
      s'.redis.queue = s.redis.queue.filter fun job => job ∉
        (allocateScored input.spp input.affinityTolerance 0 (tierOf eligible priority)
          (s.redis.queue.take count)).1.map Prod.fst := by
  have hsub : (s.redis.waiting.take count).Sublist s.redis.waiting := List.take_sublist _ _
  obtain ⟨states, hstates, hstate⟩ := run_queuedStates fun e he => h.wanted e (hsub.subset he)
  have hpending : (s.redis.waiting.take count).filterMap
      (fun entry => (states entry.jobId).map (pendingJob entry)) = s.redis.queue.take count := by
    rw [Redis.queue, ← filterMap_take h.wanted]
    refine List.filterMap_congr fun e he => ?_
    rw [hstate e he]
    rfl
  set allocated := (allocateScored input.spp input.affinityTolerance 0 (tierOf eligible priority)
    (s.redis.queue.take count)).1 with hallocated
  have hplaced : ∀ job ∈ allocated.map Prod.fst,
      job ∈ (s.redis.waiting.take count).filterMap s.redis.wanted := by
    intro job hjob
    rw [filterMap_take h.wanted]
    exact (placed_sublist _).subset hjob
  have hentries : allocated.filterMap (fun a =>
      asDict ((s.redis.waiting.take count).map fun entry => (entry.jobId, entry)) a.1.jobId) =
        placedEntries (s.redis.waiting.take count) (allocated.map Prod.fst) := by
    rw [placedEntries, List.filterMap_map]
    rfl
  have hnodup : ((allocated.map Prod.fst).map fun job => job.jobId).Nodup :=
    h.nodup_jobIds.sublist (((placed_sublist _).trans (List.take_sublist _ _)).map _)
  obtain ⟨hclaimed, htook⟩ := run_claimPending input.now h
    (fun e he => hsub.subset (placedEntries_subset e he))
    (nodup_placedEntries (s.redis.waiting.take count) hnodup)
  have hentry : ∀ a ∈ allocated, ∃ entry ∈ s.redis.waiting.take count,
      s.redis.wanted entry = some a.1 := fun a ha =>
    List.mem_filterMap.mp (hplaced a.1 (List.mem_map_of_mem ha))
  have hsound :=
    (answers_planTier i input eligible priority count (s.redis.waiting.take count)).run s
  rw [hrun] at hsound
  simp only [planTier, run_bind, run_onRedis, hstates, run_pure, hpending, ← hallocated,
    hentries] at hrun
  cases hrun
  refine ⟨⟨rfl, rfl, ?_, ?_⟩, htook.lined h, ?_⟩
  · rw [hsound.2.2.assignments]
    refine List.filter_eq_self.mpr fun a ha => decide_eq_true ?_
    obtain ⟨entry, hmem, hwanted⟩ := hentry a ha
    rw [Redis.wanted_jobId hwanted]
    refine hclaimed entry ((mem_placedEntries h hsub hplaced (hsub.subset hmem) hwanted).mp ?_)
    exact List.mem_map_of_mem ha
  · intro a ha
    obtain ⟨x, hx, hassigned⟩ := List.mem_filterMap.mp ha
    split at hassigned
    · obtain ⟨state, hsome, rfl⟩ := Option.map_eq_some_iff.mp hassigned
      obtain ⟨entry, hmem, hwanted⟩ := hentry x hx
      obtain ⟨state', hstate', hjob⟩ := Option.map_eq_some_iff.mp hwanted
      rw [Redis.wanted_jobId hwanted, hstate entry hmem, hstate'] at hsome
      obtain rfl := Option.some.inj hsome
      dsimp only
      rw [← hjob]
      exact ⟨rfl, rfl⟩
    · cases hassigned
  · exact htook.queue fun entry hentry job hjob => mem_placedEntries h hsub hplaced hentry hjob

/-! ## The dispatches -/

/-- The engines accept what the tier hands them. -/
def TierPlan.Accepted (plan : TierPlan) : Prop :=
  ∀ a ∈ plan.assignments, ∃ engineJobId engineVersion,
    input.reply a.job.jobId a.slot.backend.id = .accepted engineJobId engineVersion

/-- The command leaves the queue as it is. -/
def QueueStays (effect : Stores ι → Stores ι) (_ : Stores ι → List (Note ι)) : Prop :=
  ∀ s : Stores ι, s.redis.SameQueue (effect s).redis

variable {input} {i}

omit [DecidableEq ι] in
theorem queueStays_onRedis {α : Type} {p : RedisProg α} (hp : p.Each LeavesQueue) :
    (onRedis i p).Each QueueStays :=
  hp.zoom fun _ _ h (s : Stores ι) => h s.redis

omit [DecidableEq ι] in
theorem queueStays_onDb {α : Type} (p : DbProg ι α) : (onDb i p).Each QueueStays := by
  have hall : p.Each fun _ _ => True := each_of_forall (fun _ _ => trivial) p
  exact hall.zoom fun _ _ _ (s : Stores ι) => Redis.SameQueue.refl s.redis

theorem queueStays_dispatchAll {plan : TierPlan} {tier : List BackendSlot} {seen : List PendingJob}
    (h : plan.Places input tier seen) (haccepted : plan.Accepted input) :
    (dispatchAll i settings input plan).Each QueueStays := by
  refine Each.gather (fun p hp => ?_) _
  obtain ⟨a, ha, rfl⟩ := List.mem_map.mp hp
  refine Each.upTo ?_ _
  obtain ⟨engineJobId, engineVersion, hreply⟩ := haccepted a ha
  -- the slot serves the job, so it is not put back
  have hserves : serves a.slot.domains a.state.domain a.state.outputs = true := by
    have hmem : (a.job, a.slot) ∈ plan.assignments.map fun a => (a.job, a.slot) :=
      List.mem_map_of_mem ha
    rw [h.assignments] at hmem
    obtain ⟨hdomain, houtputs⟩ := h.states a ha
    rw [← hdomain, ← houtputs]
    exact placed_serves _ hmem
  rw [dispatchJob, if_pos hserves, hreply]
  exact (queueStays_onRedis (leavesQueue_setRunning ..)).bind fun _ => queueStays_onDb _

theorem sameQueue_dispatchAll {plan : TierPlan} {tier : List BackendSlot} {seen : List PendingJob}
    (h : plan.Places input tier seen) (haccepted : plan.Accepted input) (s : Stores ι) :
    s.redis.SameQueue (run (dispatchAll i settings input plan) s).2.redis := by
  have hkeep : ∀ effect log (s' : Stores ι) (es : List (Note ι)), QueueStays effect log →
      s.redis.SameQueue s'.redis → s.redis.SameQueue (effect s').redis :=
    fun _ _ s' _ hstays hsame => hsame.trans (hstays s')
  exact Each.run (I := fun s' _ => s.redis.SameQueue s'.redis) hkeep
    (queueStays_dispatchAll settings h haccepted) (e := []) (Redis.SameQueue.refl s.redis)

/-! ## The tiers -/

theorem places_idlePlan (eligible : List BackendSlot) (priority : Int) :
    (idlePlan eligible priority).Places input (tierOf eligible priority) [] :=
  ⟨rfl, rfl, rfl, fun _ ha => (nomatch ha)⟩

/-- A tier that looks at nothing leaves the queue to the next one. -/
theorem windows_cons_nil (eligible : List BackendSlot) (priority : Int) (lower : List Int)
    (remaining : Nat) (queue : List PendingJob)
    (hseen : (windowAt eligible priority remaining queue).seen = []) :
    windows input eligible (priority :: lower) remaining queue =
      windowAt eligible priority remaining queue ::
        windows input eligible lower remaining queue := by
  have hplaced : (windowAt eligible priority remaining queue).placed input = [] := by
    rw [Window.placed, Window.allocation, hseen]
    rfl
  rw [windows]
  simp only [hplaced, List.length_nil, Nat.sub_zero]
  congr 2
  exact List.filter_eq_self.mpr fun job _ => decide_eq_true List.not_mem_nil

/-- With nothing in the queue no tier looks at a job. -/
theorem places_idlePlans (eligible : List BackendSlot) (priorities : List Int) (remaining : Nat) :
    List.Forall₂ (fun plan (w : Window) => plan.Places input w.tier w.seen)
      (priorities.map (idlePlan eligible)) (windows input eligible priorities remaining []) := by
  induction priorities generalizing remaining with
  | nil => exact .nil
  | cons priority lower ih =>
    rw [windows_cons_nil eligible priority lower remaining [] List.take_nil]
    refine .cons ?_ (ih remaining)
    rw [windowAt, List.take_nil]
    exact places_idlePlan eligible priority

theorem unplaced_cons (w : Window) (ws : List Window) (queue : List PendingJob) :
    unplaced input (w :: ws) queue =
      unplaced input ws (queue.filter fun job => job ∉ w.placed input) := by
  rw [unplaced, unplaced, List.filter_filter]
  refine List.filter_congr fun job _ => ?_
  simp [Bool.and_comm]

/-- **The tiers of a tick that runs alone do with the queue what its windows say.** -/
theorem run_tierPlans {s s' : Stores ι} (h : s.redis.Lined) (eligible : List BackendSlot)
    (priorities : List Int) (remaining : Nat) {plans : List TierPlan}
    (hrun : run (tierPlans i settings input eligible priorities remaining) s = (plans, s'))
    (haccepted : ∀ plan ∈ plans, plan.Accepted input) :
    let ws := windows input eligible priorities remaining s.redis.queue
    List.Forall₂ (fun plan (w : Window) => plan.Places input w.tier w.seen) plans ws ∧
      s'.redis.Lined ∧ s'.redis.queue = unplaced input ws s.redis.queue := by
  induction priorities generalizing remaining s plans with
  | nil =>
    cases hrun
    exact ⟨.nil, h, (List.filter_eq_self.mpr fun job _ => by simp [windows]).symm⟩
  | cons priority lower ih =>
    intro ws
    unfold tierPlans at hrun
    dsimp only at hrun
    by_cases hcapacity : min (freeSlots (tierOf eligible priority)) remaining = 0
    · -- a full tier looks at nothing
      rw [if_pos (by exact hcapacity), run_map] at hrun
      cases hrun
      obtain ⟨hplaces, hlined, hqueue⟩ := ih h remaining rfl fun plan hplan =>
        haccepted plan (List.mem_cons_of_mem _ hplan)
      set w := windowAt eligible priority remaining s.redis.queue with hw
      have hseen : w.seen = [] := by
        rw [hw, windowAt, hcapacity]
        rfl
      have hws : ws = w :: windows input eligible lower remaining s.redis.queue :=
        windows_cons_nil eligible priority lower remaining s.redis.queue hseen
      have hplaced : w.placed input = [] := by
        rw [Window.placed, Window.allocation, hseen]
        rfl
      refine ⟨?_, hlined, ?_⟩
      · rw [hws]
        refine .cons ?_ hplaces
        rw [hseen]
        exact places_idlePlan eligible priority
      · rw [hqueue, hws, unplaced_cons, hplaced]
        congr 1
        exact (List.filter_eq_self.mpr fun job _ => decide_eq_true List.not_mem_nil).symm
    · rw [if_neg (by exact hcapacity), run_bind, run_onRedis, run_peekPending] at hrun
      dsimp only at hrun
      split at hrun
      · -- nothing waits, so the lower tiers have nothing to look at either
        next hempty =>
        cases hrun
        have hwaiting : s.redis.waiting = [] := by
          rw [List.isEmpty_iff, List.take_eq_nil_iff] at hempty
          exact hempty.resolve_left hcapacity
        have hqueue : s.redis.queue = [] := by
          rw [Redis.queue, hwaiting]
          rfl
        refine ⟨?_, h, ?_⟩
        · show List.Forall₂ _ _ (windows input eligible (priority :: lower) remaining s.redis.queue)
          rw [hqueue]
          exact places_idlePlans eligible (priority :: lower) remaining
        · rw [hqueue]
          rfl
      · rw [run_bind] at hrun
        generalize hplan : run (planTier i input _ priority _ _) _ = out at hrun
        obtain ⟨plan, s₁⟩ := out
        dsimp only at hrun
        rw [run_bind, run_map] at hrun
        cases hrun
        obtain ⟨hplace, hlined₁, hqueue₁⟩ := run_planTier input i h eligible priority
          (min (freeSlots (tierOf eligible priority)) remaining) hplan
        -- the dispatches leave the queue as the claims left it
        have hsame := sameQueue_dispatchAll settings (i := i) hplace
          (haccepted plan List.mem_cons_self) s₁
        obtain ⟨hplaces, hlined, hqueue⟩ := ih (hsame.lined hlined₁)
          (remaining - plan.assignments.length) rfl
          fun plan' hplan' => haccepted plan' (List.mem_cons_of_mem _ hplan')
        set w := windowAt eligible priority remaining s.redis.queue with hw
        have hlength : plan.assignments.length = (w.placed input).length := by
          rw [Window.placed, List.length_map]
          exact (List.length_map _).symm.trans (congrArg List.length hplace.assignments)
        have hws : ws = w :: windows input eligible lower (remaining - plan.assignments.length)
            (s.redis.queue.filter fun job => job ∉ w.placed input) := by
          rw [hlength]
          rfl
        rw [hsame.queue, hqueue₁] at hplaces hqueue
        rw [hws, unplaced_cons]
        exact ⟨.cons hplace hplaces, hlined, hqueue⟩

/-! ## The tick -/

variable (input)

/-- Redis once the retries that are due are back in their queues. -/
def promotedRedis (r : Redis) : Redis := (run (promoteDueRetries input.now input.now) r).2

def tickEligible (r : Redis) : List BackendSlot := (run (eligibleSlots input) (promotedRedis input r)).1

def tickBudget (r : Redis) : Nat := (run (dispatchBudget settings) (promotedRedis input r)).1

/-- The windows of a tick that starts with `r`. -/
def tickWindows (r : Redis) : List Window :=
  windows input (tickEligible input r) (tierPriorities (tickEligible input r))
    (tickBudget input settings r) (promotedRedis input r).queue

/-- The eligible slots when the tick ends. -/
def TickPlan.slotsLeft (tick : TickPlan) : List BackendSlot :=
  tick.plans.flatMap fun plan => plan.left input

def TickPlan.dispatched (tick : TickPlan) : Nat :=
  (tick.plans.map fun plan => plan.assignments.length).sum

/-- The tick used its budget, or no job that still waits could use a slot that is left. -/
def TickPlan.Conserves (tick : TickPlan) (budget : Nat) (r : Redis) : Prop :=
  tick.dispatched = budget ∨ ∀ job ∈ r.queue, ∀ slot ∈ tick.slotsLeft input,
    ¬Usable (tick.slotsLeft input) job slot

variable {input}

theorem Redis.AtLevel.promoteMember {r : Redis} (h : r.AtLevel) (time : ℚ) (jobId : JobId) :
    (run (promoteMember time jobId) r).2.AtLevel := by
  intro p j hp
  rw [views_promoteMember] at hp ⊢
  by_cases hj : j = jobId
  · subst hj
    rw [Function.update_self] at hp ⊢
    unfold JobView.promote at hp ⊢
    cases hd : (r.view j).delayed with
    | none =>
      rw [hd] at hp
      exact h p j hp
    | some score =>
      rw [hd] at hp
      dsimp only at hp ⊢
      cases hs : (r.view j).state with
      | none =>
        rw [hs] at hp
        exact h p j hp
      | some state =>
        rw [hs] at hp
        refine ⟨state, hs, ?_⟩
        by_cases hp' : p = state.priority
        · exact hp'.symm
        · -- it waited there before, so that is its level
          have hbefore : (r.view j).pending p ≠ none := by
            change Function.update (r.view j).pending state.priority _ p ≠ none at hp
            rwa [Function.update_of_ne hp'] at hp
          obtain ⟨state', hs', hlevel⟩ := h p j hbefore
          rw [Option.some.inj (hs.symm.trans hs'), hlevel]
  · rw [Function.update_of_ne hj] at hp ⊢
    exact h p j hp

theorem Redis.AtLevel.promoted {r : Redis} (h : r.AtLevel) : (promotedRedis input r).AtLevel := by
  rw [promotedRedis, promoteDueRetries, run_bind, run_query]
  generalize (r.delayed.range.filter _).map _ = members
  induction members generalizing r with
  | nil => exact h
  | cons jobId members ih =>
    rw [promoteMembers, run_bind, run_bind, run_pure]
    exact ih (h.promoteMember input.now jobId)

omit [DecidableEq ι] in
theorem redis_eligibleSlots (r : Redis) : (run (eligibleSlots input) r).2 = r := by
  have hbatches : ∀ ids, (run (getBackendsState.batchesOf ids) r).2 = r := by
    intro ids
    induction ids with
    | nil => rfl
    | cons b ids ih => rw [getBackendsState.batchesOf, run_bind, run_query, run_bind, run_pure, ih]
  rw [eligibleSlots, run_bind, run_pure, getBackendsState, run_bind, run_query, run_bind, run_pure]
  exact hbatches _

theorem TickPlan.slotsLeft_eq {tick : TickPlan} {ws : List Window}
    (h : List.Forall₂ (fun plan (w : Window) => plan.Places input w.tier w.seen) tick.plans ws) :
    tick.slotsLeft input = Taas.slotsLeft input ws := by
  rw [slotsLeft, Taas.slotsLeft]
  generalize tick.plans = plans at h
  induction h with
  | nil => rfl
  | cons hplace _ ih =>
    rw [List.flatMap_cons, List.flatMap_cons, ih, TierPlan.left, TierPlan.allocation,
      hplace.backends, hplace.pending]
    rfl

theorem TickPlan.dispatched_eq {tick : TickPlan} {ws : List Window}
    (h : List.Forall₂ (fun plan (w : Window) => plan.Places input w.tier w.seen) tick.plans ws) :
    tick.dispatched = placedCount input ws := by
  rw [dispatched, placedCount]
  generalize tick.plans = plans at h
  induction h with
  | nil => rfl
  | cons hplace _ ih =>
    rw [List.map_cons, List.map_cons, List.sum_cons, List.sum_cons, ih, Window.placed,
      List.length_map, Window.allocation, ← hplace.assignments, List.length_map]

/-- A tick that has a budget and runs alone goes by its windows. -/
theorem run_tickPlan {s s' : Stores ι} (hlevel : s.redis.AtLevel) {tick : TickPlan}
    (hrun : run (tickPlan i settings input) s = (tick, s'))
    (haccepted : ∀ plan ∈ tick.plans, plan.Accepted input)
    (hbudget : tickBudget input settings s.redis ≠ 0) :
    List.Forall₂ (fun plan (w : Window) => plan.Places input w.tier w.seen) tick.plans
        (tickWindows input settings s.redis) ∧
      s'.redis.queue =
        unplaced input (tickWindows input settings s.redis) (promotedRedis input s.redis).queue := by
  rw [tickPlan, run_bind, run_onRedis, run_bind, run_onRedis, run_bind, run_onRedis] at hrun
  dsimp only at hrun
  rw [redis_eligibleSlots] at hrun
  have hbudget' : (run (dispatchBudget settings)
      (run (promoteDueRetries input.now input.now) s.redis).2).1 ≠ 0 := hbudget
  rw [if_neg hbudget', run_bind, run_pure] at hrun
  cases hrun
  obtain ⟨hplaces, -, hqueue⟩ := run_tierPlans settings (i := i) (s := { s with
    redis := promotedRedis input s.redis }) hlevel.promoted.lined (tickEligible input s.redis)
    (tierPriorities (tickEligible input s.redis)) (tickBudget input settings s.redis) rfl haccepted
  exact ⟨hplaces, hqueue⟩

/-- A tick without a budget dispatches nothing. -/
theorem dispatched_of_no_budget {s s' : Stores ι} {tick : TickPlan}
    (hrun : run (tickPlan i settings input) s = (tick, s'))
    (hbudget : tickBudget input settings s.redis = 0) : tick.dispatched = 0 := by
  rw [tickPlan, run_bind, run_onRedis, run_bind, run_onRedis, run_bind, run_onRedis] at hrun
  dsimp only at hrun
  rw [redis_eligibleSlots] at hrun
  have hbudget' : (run (dispatchBudget settings)
      (run (promoteDueRetries input.now input.now) s.redis).2).1 = 0 := hbudget
  rw [if_pos hbudget', run_pure] at hrun
  cases hrun
  rfl

theorem priority_mem_tierPriorities {eligible : List BackendSlot} {slot : BackendSlot}
    (h : slot ∈ eligible) : slot.backend.priority ∈ tierPriorities eligible := by
  rw [tierPriorities, mem_sorted, Finset.mem_val, List.mem_toFinset]
  exact List.mem_map_of_mem h

/-- **A tick that runs alone and whose dispatches all succeed is work-conserving if none of its
tiers leaves a job out while it has a free slot for one behind those that it looks at.** -/
theorem conserves_of_not_skips {s s' : Stores ι} (hlevel : s.redis.AtLevel) {tick : TickPlan}
    (hrun : run (tickPlan i settings input) s = (tick, s'))
    (haccepted : ∀ plan ∈ tick.plans, plan.Accepted input)
    (hskips : ∀ w ∈ tickWindows input settings s.redis,
      ¬w.Skips input (tickEligible input s.redis)) :
    runTick i settings input = (fun _ => ()) <$> tickPlan i settings input ∧
      tick.Conserves input (tickBudget input settings s.redis) s'.redis := by
  refine ⟨runTick_eq i settings input, ?_⟩
  by_cases hbudget : tickBudget input settings s.redis = 0
  · rw [hbudget]
    exact Or.inl (dispatched_of_no_budget settings hrun hbudget)
  · obtain ⟨hplaces, hqueue⟩ := run_tickPlan settings hlevel hrun haccepted hbudget
    have hle := placedCount_le input (tickEligible input s.redis)
      (tierPriorities (tickEligible input s.redis)) (tickBudget input settings s.redis)
      (promotedRedis input s.redis).queue
    rw [← tickWindows] at hle
    rw [TickPlan.Conserves, tick.dispatched_eq hplaces, tick.slotsLeft_eq hplaces, hqueue]
    rcases hle.eq_or_lt with hused | hlt
    · exact Or.inl hused
    · refine Or.inr fun job hjob slot hslot husable => ?_
      obtain ⟨w, hw, hskip⟩ := exists_window_skips hlevel.promoted.lined.nodup_queue
        (fun _ => priority_mem_tierPriorities) rfl hlt hjob hslot husable
      exact hskips w hw hskip

end

/-! ## A tick that idles -/

theorem Redis.AtLevel.enqueue {r : Redis} (h : r.AtLevel) {jobId : JobId}
    (hnew : r.view jobId = JobView.empty) {state : JobState} (hs : state.Submitted)
    (stateTtl : Nat) : (r.enqueue stateTtl (jobId, state)).AtLevel := by
  intro p j hp
  rw [views_enqueue] at hp ⊢
  by_cases hj : j = jobId
  · rw [hj, Function.update_self, hnew, Site.enqueued_empty] at hp ⊢
    obtain ⟨state', hstate⟩ := Option.isSome_iff_exists.mp (hs.readable stateTtl)
    refine ⟨state', hstate, ?_⟩
    rw [JobState.priority_of_fromHash hstate]
    by_contra hne
    change Function.update (fun _ => none) state.priority (some state.submittedAt) p ≠ none at hp
    exact hp (Function.update_of_ne (fun hp' => hne hp'.symm) _ _)
  · rw [Function.update_of_ne hj] at hp ⊢
    exact h p j hp

theorem atLevel_empty : ({} : Redis).AtLevel := fun _ _ hp => absurd rfl hp

theorem queuedJob_submitted {domain : String} (h : domain ≠ "") : (queuedJob domain).Submitted :=
  ⟨rfl, by simp [queuedJob], by simp [queuedJob], h, by simp [queuedJob]⟩

/-- Jobs that were submitted just now are at their level. -/
theorem atLevel_queuedStores {first second : String} (hfirst : first ≠ "") (hsecond : second ≠ "") :
    (queuedStores [first, second]).redis.AtLevel := by
  have hempty : ∀ j, ({} : Redis).view j = JobView.empty := fun j =>
    congrArg Prod.snd (World.case_initial 0 j)
  have hone := atLevel_empty.enqueue (hempty 1) (queuedJob_submitted hfirst) 60
  refine hone.enqueue ?_ (queuedJob_submitted hsecond) 60
  rw [views_enqueue, Function.update_of_ne (show 1 + 1 ≠ 1 by decide)]
  exact hempty 2

/-- Of the two engines only the first. -/
def firstOnly : TickInput :=
  { twoTiers with backends := [{ id := 1, url := "http://first", maxInflight := 1 }] }

/-- The engine has one free slot and the tick looks at one job, which it does not serve: the job
behind waits on, and the slot stays free. -/
theorem tick_idles :
    let s := queuedStores ["rare", "common"]
    let out := run (tickPlan () {} firstOnly) s
    s.redis.AtLevel ∧ (∀ plan ∈ out.1.plans, plan.Accepted firstOnly) ∧
      ¬out.1.Conserves firstOnly (tickBudget firstOnly {} s.redis) out.2.redis := by
  refine ⟨atLevel_queuedStores (by decide) (by decide), fun plan _ a _ => ⟨_, _, rfl⟩, ?_⟩
  unfold TickPlan.Conserves
  decide +kernel

/-- The higher tier looks at one of the jobs and takes it, so the other is left to the lower one. -/
theorem conserves_of_not_skips_sample :
    (run (tickPlan () {} twoTiers) (queuedStores ["common", "rare"])).1.dispatched = 2 ∧
      (run (tickPlan () {} twoTiers) (queuedStores ["common", "rare"])).1.Conserves twoTiers
        (tickBudget twoTiers {} (queuedStores ["common", "rare"]).redis)
        (run (tickPlan () {} twoTiers) (queuedStores ["common", "rare"])).2.redis :=
  ⟨by decide +kernel, (conserves_of_not_skips {} (i := ())
    (atLevel_queuedStores (by decide) (by decide)) rfl (fun plan _ a _ => ⟨_, _, rfl⟩)
    (by decide +kernel)).2⟩

end Taas

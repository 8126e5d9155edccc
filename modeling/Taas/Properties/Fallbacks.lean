import Taas.Properties.Windows

/-!
# A retry avoids the backends that failed it

Each tier falls back on its own to the backends that a job avoids, when it has no other that serves
the job.

* `NoTierFallsBack` — no tier has a free slot for the job on backends to avoid only, while a backend
  of another tier could serve it.
* `retries_avoid_iff` — then, and only then, no tick hands the job to a backend that it avoids
  although another serves it.
-/

namespace Taas

open Infra Infra.Prog

/-- The job does not go to a backend that it avoids while an eligible backend of any tier that it
does not avoid serves it. -/
def TickPlan.AvoidsFailed (tick : TickPlan) (job : PendingJob) : Prop :=
  ∀ plan ∈ tick.plans, ∀ a ∈ plan.assignments, a.job = job → a.slot.backend.id ∈ job.avoid →
    ∀ slot ∈ tick.eligible, canServe slot job = true → slot.backend.id ∈ job.avoid

instance (tick : TickPlan) (job : PendingJob) : Decidable (tick.AvoidsFailed job) :=
  inferInstanceAs (Decidable (∀ plan ∈ tick.plans, ∀ a ∈ plan.assignments, a.job = job →
    a.slot.backend.id ∈ job.avoid → ∀ slot ∈ tick.eligible, canServe slot job = true →
      slot.backend.id ∈ job.avoid))

/-- A tier has a free slot for the job on backends to avoid only if all eligible backends of all
tiers that serve it are to be avoided. -/
def NoTierFallsBack (eligible : List BackendSlot) (job : PendingJob) : Prop :=
  ∀ priority, Fallback (tierOf eligible priority) job →
    ∀ slot ∈ eligible, canServe slot job = true → slot.backend.id ∈ job.avoid

variable {ι : Type} [DecidableEq ι] (i : ι) (settings : Settings) (input : TickInput)

/-! ## A tier that falls back -/

variable {input} in
/-- A tier hands a job to a backend that it avoids only if it falls back for it from the start. -/
theorem TierPlan.Sound.fallback {plan : TierPlan} {eligible : List BackendSlot}
    (h : plan.Sound input eligible) {a : Assignment} (ha : a ∈ plan.assignments)
    (havoid : a.slot.backend.id ∈ a.job.avoid) :
    Fallback (tierOf eligible plan.priority) a.job := by
  have hturns : ∀ a ∈ plan.assignments, a.slot.backend.id ∈ a.job.avoid →
      Fallback (tierOf eligible plan.priority) a.job := by
    refine h.forall_assignments (Q := fun job slot => slot.backend.id ∈ job.avoid →
      Fallback (tierOf eligible plan.priority) job) |>.mpr ?_
    intro turn hturn _ c hc havoid
    obtain ⟨hall, slot, hslot, hserve, hfree⟩ := chosen_avoided_iff.mp ⟨c, hc, havoid⟩
    have hlater : Later (tierOf eligible plan.priority) turn.slots := by
      rw [← h.tier]
      exact (later_turn hturn).1
    -- the slots at the turn are those of the tier, less of them free
    refine ⟨fun s hs hserves => ?_, ?_⟩
    · obtain ⟨s', hs', hsame⟩ := hlater.exists_after s hs
      rw [← hsame.backend]
      exact hall s' hs' ((hsame.canServe turn.job).trans hserves)
    · obtain ⟨s, hs, hsame⟩ := hlater.exists_before slot hslot
      exact ⟨s, hs, (hsame.canServe turn.job).symm.trans hserve, hfree.trans_le hsame.free⟩
  exact hturns a ha havoid

/-! ## A tick in which it does -/

/-- The job of the hash is the only one that waits. -/
def loneRedis (entry : QueueEntry) (hash : JobHash) : Redis where
  jobs := Finmap.singleton entry.jobId hash
  pending := Function.update (fun _ => ∅) entry.priority
    (Finmap.singleton entry.jobId entry.score)
  levels := {entry.priority}

theorem waiting_loneRedis (entry : QueueEntry) (hash : JobHash) :
    (loneRedis entry hash).waiting = [entry] := by
  have hlevels : (loneRedis entry hash).pendingLevels = [entry.priority] := rfl
  have hat : (loneRedis entry hash).pending entry.priority =
      Finmap.singleton entry.jobId entry.score := by
    simp only [loneRedis, Function.update_self]
  rw [Redis.waiting, hlevels, List.flatMap_singleton, Redis.waitingAt, hat]
  rfl

section

variable {entry : QueueEntry} {hash : JobHash} {state : JobState}

theorem wanted_loneRedis (hstate : JobState.fromHash hash = some state) :
    (loneRedis entry hash).wanted entry = some (pendingJob entry state) := by
  rw [Redis.wanted, Redis.state, loneRedis, Finmap.lookup_singleton_eq, Option.bind_some, hstate]
  rfl

theorem queue_loneRedis (hstate : JobState.fromHash hash = some state) :
    (loneRedis entry hash).queue = [pendingJob entry state] := by
  rw [Redis.queue, waiting_loneRedis, List.filterMap_cons_some (wanted_loneRedis hstate)]
  rfl

theorem lined_loneRedis (hstate : JobState.fromHash hash = some state) :
    (loneRedis entry hash).Lined where
  wanted e he := by
    rw [waiting_loneRedis, List.mem_singleton] at he
    subst he
    exact ⟨_, wanted_loneRedis hstate⟩
  nodup := by
    rw [waiting_loneRedis]
    exact List.nodup_singleton _

end

omit [DecidableEq ι] in
/-- The tier falls back for the job when it looks at it alone. -/
theorem exists_fallback {entry : QueueEntry} {hash : JobHash} {state : JobState}
    (hstate : JobState.fromHash hash = some state) {eligible : List BackendSlot} {priority : Int}
    (hfallback : Fallback (tierOf eligible priority) (pendingJob entry state)) {capacity : Nat}
    (hcapacity : capacity ≠ 0) {s : Stores ι} (hs : s.redis = loneRedis entry hash) :
    ∃ a ∈ (run (planTier i input (tierOf eligible priority) priority capacity [entry]) s).1.assignments,
      a.job = pendingJob entry state ∧ a.slot.backend.id ∈ (pendingJob entry state).avoid := by
  obtain ⟨c, hc, havoid⟩ : ∃ c, chooseSlot input.spp input.affinityTolerance 0
      (tierOf eligible priority) (pendingJob entry state) = some c ∧
        c.2.backend.id ∈ (pendingJob entry state).avoid := chosen_avoided_iff.mpr hfallback
  have hlined : s.redis.Lined := hs ▸ lined_loneRedis hstate
  have hentries : s.redis.waiting.take capacity = [entry] := by
    rw [hs, waiting_loneRedis, List.take_of_length_le (Nat.pos_of_ne_zero hcapacity)]
  have hqueue : s.redis.queue.take capacity = [pendingJob entry state] := by
    rw [hs, queue_loneRedis hstate, List.take_of_length_le (Nat.pos_of_ne_zero hcapacity)]
  obtain ⟨hplaces, -⟩ := run_planTier input i hlined eligible priority capacity rfl
  rw [hentries, hqueue] at hplaces
  have hassigned := hplaces.assignments
  rw [allocateScored, hc] at hassigned
  have hmem : (pendingJob entry state, c.2) ∈ (run (planTier i input (tierOf eligible priority)
      priority capacity [entry]) s).1.assignments.map fun a => (a.job, a.slot) := by
    rw [hassigned]
    exact List.mem_cons_self
  obtain ⟨a, ha, heq⟩ := List.mem_map.mp hmem
  obtain ⟨hjob, hslot⟩ := Prod.mk.inj heq
  exact ⟨a, ha, hjob, hslot ▸ havoid⟩

omit [DecidableEq ι] in
/-- Where the hash is gone there is nothing to place. -/
theorem run_planTier_gone (tier : List BackendSlot) (priority : Int) (capacity : Nat)
    (entry : QueueEntry) {s : Stores ι} (hs : s.redis = {}) :
    (run (planTier i input tier priority capacity [entry]) s).1.assignments = [] := by
  have hnone : (run (queuedStates [entry]) ({} : Redis)).1 entry.jobId = none := by
    simp [queuedStates, getJobs, getJob, dropPending, asDict, Redis.state]
  rw [planTier, run_bind, run_onRedis, hs]
  dsimp only
  rw [List.filterMap_cons_none (by rw [hnone]; rfl)]
  rfl

/-- Some answer of the tiers of a tick is one in which a tier falls back for the job. -/
theorem exists_tierPlans {entry : QueueEntry} {hash : JobHash} {state : JobState}
    (hstate : JobState.fromHash hash = some state) {eligible : List BackendSlot} {priority : Int}
    (hfallback : Fallback (tierOf eligible priority) (pendingJob entry state)) (db : Postgres ι)
    {priorities : List Int} (hpriority : priority ∈ priorities) {remaining : Nat}
    (hremaining : remaining ≠ 0) {P : List TierPlan → Prop}
    (hanswers : (tierPlans i settings input eligible priorities remaining).Answers P) :
    ∃ plans, P plans ∧ ∃ plan ∈ plans, ∃ a ∈ plan.assignments,
      a.job = pendingJob entry state ∧ a.slot.backend.id ∈ (pendingJob entry state).avoid := by
  induction priorities generalizing remaining P with
  | nil => cases hpriority
  | cons first lower ih =>
    have hpeek : ∀ capacity ≠ 0, (run (onRedis i (peekPending capacity))
        (⟨loneRedis entry hash, db⟩ : Stores ι)).1 = [entry] := by
      intro capacity hcapacity
      rw [run_onRedis, run_peekPending, waiting_loneRedis,
        List.take_of_length_le (Nat.pos_of_ne_zero hcapacity)]
    unfold tierPlans at hanswers
    dsimp only at hanswers
    by_cases hfirst : first = priority
    · -- the tier has a free slot, and looks at the job
      subst hfirst
      obtain ⟨slot, hslot, -, hfree⟩ := hfallback.2
      have hcapacity :
          min ((tierOf eligible first).map fun slot => slot.free).sum remaining ≠ 0 := by
        have hle : slot.free ≤ ((tierOf eligible first).map fun slot => slot.free).sum :=
          free_le_freeSlots hslot
        omega
      rw [if_neg hcapacity] at hanswers
      have hplans := hanswers.of_bind ⟨loneRedis entry hash, db⟩
      rw [hpeek _ hcapacity] at hplans
      have hplan := hplans.of_bind ⟨loneRedis entry hash, db⟩
      obtain ⟨a, ha, hjob⟩ := exists_fallback i input hstate hfallback hcapacity
        (s := (⟨loneRedis entry hash, db⟩ : Stores ι)) rfl
      have hlower := ((hplan.of_bind ⟨{}, db⟩).of_map).run ⟨{}, db⟩
      exact ⟨_, hlower, _, List.mem_cons_self, a, ha, hjob⟩
    · have hlower := (List.mem_cons.mp hpriority).resolve_left fun h => hfirst h.symm
      split at hanswers
      · obtain ⟨plans, hP, plan, hplan, hjob⟩ := ih hlower hremaining hanswers.of_map
        exact ⟨_, hP, plan, List.mem_cons_of_mem _ hplan, hjob⟩
      · next hcapacity =>
        -- the hash is gone by the time the tier reads it
        have hplans := hanswers.of_bind ⟨loneRedis entry hash, db⟩
        rw [hpeek _ hcapacity] at hplans
        have hplan := hplans.of_bind ⟨{}, db⟩
        have hrest := (hplan.of_bind ⟨{}, db⟩).of_map
        rw [run_planTier_gone i input _ _ _ entry rfl, List.length_nil, Nat.sub_zero] at hrest
        obtain ⟨plans, hP, plan, hplan, hjob⟩ := ih hlower hremaining hrest
        exact ⟨_, hP, plan, List.mem_cons_of_mem _ hplan, hjob⟩

/-! ## Retries -/

omit [DecidableEq ι] in
/-- Without a limit on the unstored jobs there is no budget. -/
theorem answers_dispatchBudget (hmax : settings.unstoredJobMax = 0) :
    (onRedis i (dispatchBudget settings)).Answers fun remaining => remaining = 0 := by
  refine Answers.zoom (answers_bind fun depth => ?_)
  show unstoredCapacity settings.unstoredJobMax depth.1 depth.2 = 0
  rw [hmax, unstoredCapacity, Nat.zero_sub, Nat.zero_sub]

/-- **A tick hands no retry back to a backend that failed it while another serves it, whatever waits
and whatever others do meanwhile, exactly if none of its tiers has to fall back alone.** -/
theorem retries_avoid_iff {r r' : Redis} {entry : QueueEntry} {state : JobState}
    (hstate : r'.state entry.jobId = some state) :
    let eligible := (run (eligibleSlots input) r).1
    runTick i settings input = (fun _ => ()) <$> tickPlan i settings input ∧
      (((tickPlan i settings input).Answers fun tick => tick.eligible = eligible →
          tick.AvoidsFailed (pendingJob entry state)) ↔
        settings.unstoredJobMax = 0 ∨ NoTierFallsBack eligible (pendingJob entry state)) := by
  intro eligible
  refine ⟨runTick_eq i settings input, ?_⟩
  constructor
  · intro hanswers
    refine or_iff_not_imp_left.mpr fun hmax priority hfallback slot hslot hserve => ?_
    obtain ⟨hash, -, hhash⟩ := Option.bind_eq_some_iff.mp hstate
    obtain ⟨first, hfirst, -⟩ := hfallback.2
    have hpriority : priority ∈ tierPriorities eligible := by
      obtain ⟨hmem, hof⟩ := List.mem_filter.mp hfirst
      rw [← of_decide_eq_true hof]
      exact priority_mem_tierPriorities hmem
    let db : Postgres ι := ⟨⟨∅, fun _ => { username := "", submittedAt := 0 }, fun _ => none⟩,
      ⟨∅, fun _ => {}, fun _ => none⟩⟩
    -- the eligible slots, then the whole budget
    have hslots := (Answers.of_bind hanswers ⟨{}, db⟩).of_bind ⟨r, db⟩
    rw [run_onRedis] at hslots
    have hbudget := hslots.of_bind ⟨{}, db⟩
    have hremaining : (run (onRedis i (dispatchBudget settings)) (⟨{}, db⟩ : Stores ι)).1 =
        settings.unstoredJobMax := by
      rw [run_onRedis]
      rfl
    rw [hremaining, if_neg hmax] at hbudget
    obtain ⟨plans, hP, plan, hplan, a, ha, hjob, havoid⟩ := exists_tierPlans i settings input hhash
      hfallback db hpriority hmax hbudget.of_map
    exact hP rfl plan hplan a ha hjob havoid slot hslot hserve
  · rintro (hmax | hnone)
    · refine answers_bind fun _ => ?_
      refine answers_bind fun slots => ?_
      refine (answers_dispatchBudget i settings hmax).bind fun remaining hremaining => ?_
      rw [if_pos hremaining]
      exact fun _ plan hplan => (nomatch hplan)
    · refine (answers_tickPlan i settings input).mono fun tick h heligible plan hplan a ha hjob => ?_
      rintro havoid
      have hfallback := (h.plans plan hplan).fallback ha (hjob ▸ havoid)
      rw [hjob, heligible] at hfallback
      rw [heligible]
      exact hnone plan.priority hfallback

/-! ## Two tiers -/

/-- The engine of the higher tier does not answer. -/
def firstDown : TickInput :=
  { twoTiers with
    reply := fun _ backendId =>
      if backendId = 1 then .failed { error := "timeout", transient := true } else .accepted "e" none }

/-- A job that backend 1 failed is back in its queue, and the next tick finds it there. -/
def nextTick : TickPlan :=
  (run (tickPlan () {} { twoTiers with now := 20 })
    (run (runTick () {} firstDown) (queuedStores ["common"])).2).1

/-- The next tick hands the job to backend 1 again, although backend 2 serves it. -/
theorem retry_goes_back :
    ¬∀ plan ∈ nextTick.plans, ∀ a ∈ plan.assignments, nextTick.AvoidsFailed a.job := by
  decide +kernel

/-- The higher tier has a second engine. -/
def twoFirst : TickInput :=
  { twoTiers with
    backends := { id := 3, url := "http://third", priority := 1, maxInflight := 1 } ::
      twoTiers.backends }

/-- A job that backend 1 failed. -/
def failedOnce : JobState := { queuedJob "common" with avoidBackends := {1} }

/-- Where the higher tier has another engine for it, the job does not go back. -/
theorem retries_avoid_iff_sample :
    (tickPlan () {} twoFirst).Answers fun tick =>
      tick.eligible = (run (eligibleSlots twoFirst) {}).1 →
        tick.AvoidsFailed (pendingJob ⟨1, 0, 0⟩ failedOnce) := by
  have hstate : (Redis.enqueue 60 {} (1, failedOnce)).state 1 = some failedOnce := by
    decide +kernel
  refine (@retries_avoid_iff Unit _ () {} twoFirst {} _ ⟨1, 0, 0⟩ _ hstate).2.mpr (Or.inr ?_)
  have hother : ∀ slot ∈ (run (eligibleSlots twoFirst) {}).1,
      ∃ other ∈ tierOf (run (eligibleSlots twoFirst) {}).1 slot.backend.priority,
        canServe other (pendingJob ⟨1, 0, 0⟩ failedOnce) = true ∧
          other.backend.id ∉ (pendingJob ⟨1, 0, 0⟩ failedOnce).avoid := by
    decide +kernel
  rintro priority ⟨hall, slot, hslot, -⟩
  obtain ⟨hmem, hpriority⟩ := List.mem_filter.mp hslot
  obtain ⟨other, hmem, hserve, havoid⟩ := hother slot hmem
  rw [of_decide_eq_true hpriority] at hmem
  exact absurd (hall other hmem hserve) havoid

end Taas

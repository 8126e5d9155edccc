import Mathlib.Algebra.Order.BigOperators.Group.List
import Taas.Properties.Allocation
import Taas.Workers.Tick

/-!
# The tiers of a tick

* `TierPlan` — what a tier looked at, and what it had claimed of it.
* `tickPlans` — the tick, answering with its plans; `runTick_eq` — it is the tick.
* `strict_tiers` — when no job goes to a tier although a higher one could take it.
-/

namespace Taas

open Infra Infra.Prog

/-! ## Plans -/

/-- A tier of a tick: its backends, how many jobs it may look at, those that it looked at, those of
them that were claimed, and what it dispatched. A tier whose turn does not come, or that is full,
looks at none. -/
structure TierPlan where
  priority : Int
  tier : List BackendSlot
  capacity : Nat := 0
  pending : List PendingJob := []
  claimed : Finset JobId := ∅
  assignments : List Assignment := []

/-- A tick: the eligible backends and the plans of their tiers, highest first. -/
structure TickPlan where
  eligible : List BackendSlot
  plans : List TierPlan := []

variable {ι : Type} [DecidableEq ι] (i : ι) (settings : Settings) (input : TickInput)

/-- `dispatchTier` up to the dispatches. -/
def planTier (tier : List BackendSlot) (priority : Int) (capacity : Nat)
    (entries : List QueueEntry) : WorkerProg ι TierPlan := do
  let states ← onRedis i (queuedStates entries)
  let pending := entries.filterMap fun entry => (states entry.jobId).map (pendingJob entry)
  let allocated := (allocateScored input.spp input.affinityTolerance 0 tier pending).1
  let byId := asDict (entries.map fun entry => (entry.jobId, entry))
  let claimed ← onRedis i (claimPending input.now (allocated.filterMap fun a => byId a.1.jobId))
  let assignments := allocated.filterMap fun a =>
    if a.1.jobId ∈ claimed then (states a.1.jobId).map fun state => Assignment.mk a.1 a.2 state
    else none
  pure { priority, tier, capacity, pending, claimed, assignments }

/-- The dispatches of a tier. -/
def dispatchAll (plan : TierPlan) : WorkerProg ι Unit :=
  gather (plan.assignments.map fun a =>
      (dispatchJob i settings input a.job.jobId a.job.score a.slot a.state).upTo
        (input.dispatchRaises a.job.jobId))
    (input.turns plan.priority)

/-- The tier of a priority. -/
def tierOf (eligible : List BackendSlot) (priority : Int) : List BackendSlot :=
  eligible.filter fun slot => slot.backend.priority = priority

/-- A tier that looks at no job. -/
def idlePlan (eligible : List BackendSlot) (priority : Int) : TierPlan :=
  { priority, tier := tierOf eligible priority }

/-- `dispatchTiers`, answering with the plans. -/
def tierPlans (eligible : List BackendSlot) : List Int → Nat → WorkerProg ι (List TierPlan)
  | [], _ => pure []
  | priority :: lower, remaining =>
    let tier := tierOf eligible priority
    let capacity := min ((tier.map fun slot => slot.free).sum) remaining
    if capacity = 0 then (idlePlan eligible priority :: ·) <$> tierPlans eligible lower remaining
    else do
      let entries ← onRedis i (peekPending capacity)
      if entries.isEmpty then pure ((priority :: lower).map (idlePlan eligible))
      else do
        let plan ← planTier i input tier priority capacity entries
        dispatchAll i settings input plan
        (plan :: ·) <$> tierPlans eligible lower (remaining - plan.assignments.length)

/-- `runTick`, answering with the plan. -/
def tickPlan : WorkerProg ι TickPlan := do
  let _ ← onRedis i (promoteDueRetries input.now input.now)
  let eligible ← onRedis i (eligibleSlots input)
  let remaining ← onRedis i (dispatchBudget settings)
  if remaining = 0 then pure { eligible }
  else do
    let plans ← tierPlans i settings input eligible (tierPriorities eligible) remaining
    pure { eligible, plans }

/-! ## The tick is its plan carried out -/

theorem dispatchTier_eq (tier : List BackendSlot) (priority : Int) (capacity : Nat)
    (entries : List QueueEntry) : dispatchTier i settings input tier priority entries =
      planTier i input tier priority capacity entries >>= fun plan =>
        dispatchAll i settings input plan >>= fun _ => pure plan.assignments.length := by
  simp only [dispatchTier, planTier, bind_assoc, pure_bind]
  rfl

theorem dispatchTiers_eq (eligible : List BackendSlot) (priorities : List Int) (remaining : Nat) :
    dispatchTiers i settings input eligible priorities remaining =
      (fun _ => ()) <$> tierPlans i settings input eligible priorities remaining := by
  induction priorities generalizing remaining with
  | nil => rfl
  | cons priority lower ih =>
    unfold dispatchTiers tierPlans
    dsimp only
    by_cases hcapacity :
        min (((tierOf eligible priority).map fun slot => slot.free).sum) remaining = 0
    · rw [if_pos hcapacity, ← comp_map]
      exact (if_pos hcapacity).trans (ih remaining)
    · rw [if_neg hcapacity, map_bind]
      refine (if_neg hcapacity).trans (bind_congr fun entries => ?_)
      cases entries with
      | nil => rfl
      | cons entry entries =>
        rw [dispatchTier_eq i settings input _ priority
          (min (((tierOf eligible priority).map fun slot => slot.free).sum) remaining)]
        simp only [List.isEmpty_cons, Bool.false_eq_true, if_false, map_bind, bind_assoc,
          pure_bind, ih, ← comp_map]
        rfl

theorem runTick_eq : runTick i settings input =
    (fun _ => ()) <$> tickPlan i settings input := by
  unfold runTick tickPlan
  simp only [map_bind]
  refine bind_congr fun _ => bind_congr fun eligible => bind_congr fun remaining => ?_
  split
  · rfl
  · rw [dispatchTiers_eq, map_bind, ← bind_pure_comp]
    rfl

/-! ## What a plan says -/

namespace TierPlan

variable (plan : TierPlan)

/-- The allocation of the jobs that the tier looked at. -/
def allocation : List (PendingJob × BackendSlot) × List BackendSlot :=
  allocateScored input.spp input.affinityTolerance 0 plan.tier plan.pending

def placed : List PendingJob := (plan.allocation input).1.map Prod.fst

/-- The tier's slots when the tick ends. -/
def left : List BackendSlot := (plan.allocation input).2

/-- The turns of the jobs that the tier looked at. -/
def turns : List Turn := Taas.jobTurns input.spp input.affinityTolerance 0 plan.tier plan.pending

/-- The tier dispatched what it placed and had claimed. -/
structure Sound (eligible : List BackendSlot) : Prop where
  tier : plan.tier = tierOf eligible plan.priority
  assignments : plan.assignments.map (fun a => (a.job, a.slot)) =
    (plan.allocation input).1.filter fun a => a.1.jobId ∈ plan.claimed

end TierPlan

theorem sound_idlePlan (eligible : List BackendSlot) (priority : Int) :
    (idlePlan eligible priority).Sound input eligible := ⟨rfl, rfl⟩

theorem allocated_mem {spp : BackendId → String → ℚ} {tolerance : ℚ} {start : Nat}
    {slots : List BackendSlot} {jobs : List PendingJob} {a : PendingJob × BackendSlot}
    (h : a ∈ (allocateScored spp tolerance start slots jobs).1) : a.1 ∈ jobs := by
  rw [allocateScored_eq_jobTurns, List.mem_filterMap] at h
  obtain ⟨turn, hturn, hchosen⟩ := h
  obtain ⟨c, -, rfl⟩ := Option.map_eq_some_iff.mp hchosen
  have hjob := List.mem_map_of_mem (f := Turn.job) hturn
  rwa [map_job_jobTurns jobs] at hjob

omit [DecidableEq ι] in
/-- A job that was placed is one that has a state, so it is dispatched if it was claimed. -/
theorem answers_planTier (eligible : List BackendSlot) (priority : Int) (capacity : Nat)
    (entries : List QueueEntry) :
    (planTier i input (tierOf eligible priority) priority capacity entries).Answers fun plan =>
      plan.priority = priority ∧ plan.capacity = capacity ∧ plan.Sound input eligible := by
  refine answers_bind fun states =>
    answers_bind fun claimed => ⟨rfl, rfl, rfl, ?_⟩
  rw [List.map_filterMap, ← List.filterMap_eq_filter]
  refine List.filterMap_congr fun a ha => ?_
  obtain ⟨entry, -, hentry⟩ := List.mem_filterMap.mp (allocated_mem ha)
  obtain ⟨state, hstate, hjob⟩ := Option.map_eq_some_iff.mp hentry
  have hsome : states a.1.jobId = some state := by
    rw [← hjob]
    exact hstate
  by_cases hclaimed : a.1.jobId ∈ claimed
  · simp [hclaimed, hsome, Option.guard]
  · simp [hclaimed, Option.guard]

/-- If a lower tier dispatches, the higher one had room for all that its slots may take, or did not
use up the budget. -/
def TierPlan.Before (higher plan : TierPlan) : Prop :=
  plan.assignments ≠ [] →
    freeSlots higher.tier ≤ higher.capacity ∨ higher.assignments.length < higher.capacity

/-- The plans of the tiers of some priorities, from what remains of the budget. -/
structure PlansSound (eligible : List BackendSlot) (priorities : List Int) (remaining : Nat)
    (plans : List TierPlan) : Prop where
  priorities : plans.map TierPlan.priority = priorities
  sound : ∀ plan ∈ plans, plan.Sound input eligible
  spent : remaining = 0 → ∀ plan ∈ plans, plan.assignments = []
  before : plans.Pairwise TierPlan.Before

variable {input} in
/-- One plan before the plans of the lower tiers. -/
theorem PlansSound.cons {eligible : List BackendSlot} {lower : List Int} {remaining : Nat}
    {plan : TierPlan} {plans : List TierPlan} (hsound : plan.Sound input eligible)
    (hcapacity : plan.capacity = min (freeSlots plan.tier) remaining)
    (hspent : remaining = 0 → plan.assignments = [])
    (h : PlansSound input eligible lower (remaining - plan.assignments.length) plans) :
    PlansSound input eligible (plan.priority :: lower) remaining (plan :: plans) where
  priorities := by rw [List.map_cons, h.priorities]
  sound := List.forall_mem_cons.mpr ⟨hsound, h.sound⟩
  spent hremaining := List.forall_mem_cons.mpr ⟨hspent hremaining, h.spent (by omega)⟩
  before := by
    refine List.pairwise_cons.mpr ⟨fun lower hlower hassigned => ?_, h.before⟩
    -- a lower tier dispatches, so something of the budget is left to it
    have hleft : remaining - plan.assignments.length ≠ 0 := fun hnone =>
      hassigned (h.spent hnone lower hlower)
    rw [hcapacity]
    omega

theorem plansSound_idle (eligible : List BackendSlot) (priorities : List Int) (remaining : Nat) :
    PlansSound input eligible priorities remaining (priorities.map (idlePlan eligible)) where
  priorities := by
    rw [List.map_map]
    exact List.map_id _
  sound plan hplan := by
    obtain ⟨priority, -, rfl⟩ := List.mem_map.mp hplan
    exact sound_idlePlan input eligible priority
  spent _ plan hplan := by
    obtain ⟨priority, -, rfl⟩ := List.mem_map.mp hplan
    rfl
  before := List.pairwise_map.mpr (List.pairwise_of_forall fun _ _ hne => absurd rfl hne)

theorem answers_tierPlans (eligible : List BackendSlot) (priorities : List Int) (remaining : Nat) :
    (tierPlans i settings input eligible priorities remaining).Answers
      (PlansSound input eligible priorities remaining) := by
  induction priorities generalizing remaining with
  | nil => exact plansSound_idle input eligible [] remaining
  | cons priority lower ih =>
    unfold tierPlans
    dsimp only
    split
    · next hcapacity =>
      refine (ih remaining).bind fun plans hplans => ?_
      exact PlansSound.cons (sound_idlePlan input eligible priority) hcapacity.symm (fun _ => rfl)
        hplans
    · next hcapacity =>
      refine answers_bind fun entries => ?_
      split
      · exact plansSound_idle input eligible (priority :: lower) remaining
      · refine (answers_planTier i input eligible priority _ entries).bind fun plan hplan => ?_
        obtain ⟨rfl, hcap, hsound⟩ := hplan
        refine answers_bind fun _ => ?_
        refine (ih _).bind fun plans hplans => PlansSound.cons hsound ?_ ?_ hplans
        · rw [hcap, hsound.tier]
          rfl
        · intro hremaining
          rw [hremaining, Nat.min_zero] at hcapacity
          exact absurd rfl hcapacity

/-- A tick has one plan for each priority, highest first, if it dispatches at all. -/
structure TickPlan.Sound (tick : TickPlan) : Prop where
  plans : ∀ plan ∈ tick.plans, plan.Sound input tick.eligible
  before : tick.plans.Pairwise fun higher plan =>
    plan.priority < higher.priority ∧ higher.Before plan

theorem pairwise_tierPriorities (eligible : List BackendSlot) :
    (tierPriorities eligible).Pairwise fun p q => q < p := by
  have hnodup : (tierPriorities eligible).Nodup := (nodup_sorted _).mpr (Finset.nodup _)
  exact ((sorted_pairwise _ _).and hnodup).imp fun h => lt_of_le_of_ne h.1 h.2.symm

theorem answers_tickPlan :
    (tickPlan i settings input).Answers fun tick => tick.Sound input := by
  refine answers_bind fun _ => ?_
  refine answers_bind fun eligible => ?_
  refine answers_bind fun remaining => ?_
  split
  · exact ⟨fun plan hplan => (nomatch hplan), .nil⟩
  · refine (answers_tierPlans i settings input eligible _ remaining).bind fun plans hplans =>
      ⟨hplans.sound, List.Pairwise.and ?_ hplans.before⟩
    have hsorted := pairwise_tierPriorities eligible
    rw [← hplans.priorities] at hsorted
    exact List.pairwise_map.mp hsorted

/-- Of two tiers the one of the higher priority comes before the other. -/
theorem TickPlan.Sound.before_of_lt {input : TickInput} {tick : TickPlan} (h : tick.Sound input)
    {higher plan : TierPlan} (hhigher : higher ∈ tick.plans) (hplan : plan ∈ tick.plans)
    (hlt : plan.priority < higher.priority) : higher.Before plan := by
  have : Std.Symm fun x y : TierPlan => (y.priority < x.priority ∧ x.Before y) ∨
      (x.priority < y.priority ∧ y.Before x) := ⟨fun _ _ => Or.symm⟩
  have hsymm := (h.before.imp Or.inl : tick.plans.Pairwise fun x y =>
    (y.priority < x.priority ∧ x.Before y) ∨ (x.priority < y.priority ∧ y.Before x)).forall
      hhigher hplan (by rintro rfl; exact lt_irrefl _ hlt)
  rcases hsymm with hbefore | hafter
  · exact hbefore.2
  · exact absurd hafter.1 (lt_asymm hlt)

/-- What is dispatched is what the turns' jobs get, if they are claimed. -/
theorem TierPlan.Sound.forall_assignments {input : TickInput} {plan : TierPlan}
    {eligible : List BackendSlot} (h : plan.Sound input eligible)
    {Q : PendingJob → BackendSlot → Prop} :
    (∀ a ∈ plan.assignments, Q a.job a.slot) ↔
      ∀ turn ∈ plan.turns input, turn.job.jobId ∈ plan.claimed →
        ∀ c, turn.chosen input.spp input.affinityTolerance = some c → Q turn.job c.2 := by
  have hmap : (∀ a ∈ plan.assignments, Q a.job a.slot) ↔
      ∀ x ∈ plan.assignments.map (fun a => (a.job, a.slot)), Q x.1 x.2 := by
    simp
  rw [hmap, h.assignments, TierPlan.allocation, allocateScored_eq_jobTurns]
  constructor
  · intro hall turn hturn hclaimed c hc
    refine hall (turn.job, c.2) (List.mem_filter.mpr ⟨List.mem_filterMap.mpr ⟨turn, hturn, ?_⟩, ?_⟩)
    · rw [hc]
      rfl
    · exact decide_eq_true hclaimed
  · intro hall x hx
    obtain ⟨hmem, hclaimed⟩ := List.mem_filter.mp hx
    obtain ⟨turn, hturn, hx⟩ := List.mem_filterMap.mp hmem
    obtain ⟨c, hc, rfl⟩ := Option.map_eq_some_iff.mp hx
    exact hall turn hturn (of_decide_eq_true hclaimed) c hc

/-! ## Strict tiers -/

/-- Two engines of different priorities, both of which serve what the sample jobs want. -/
def twoTiers : TickInput where
  now := 10
  backends := [{ id := 1, url := "http://first", priority := 1, maxInflight := 1 },
    { id := 2, url := "http://second", maxInflight := 2 }]
  healthy _ := true
  capabilities backendId domain :=
    if domain = "rare" then if backendId = 2 then some {"alto"} else none else some {"alto"}
  spp _ _ := 1
  affinityTolerance := 0
  stateTtl := 60
  maxRequeues := 3
  backoffSeconds _ := 1
  reply _ _ := .accepted "e" none
  turns _ := []

def queuedJob (domain : String) : JobState where
  username := "u"
  domain := domain
  fmt := "alto"
  outputs := {"alto"}
  submittedAt := 0

/-- The jobs of some domains, as they were submitted. -/
def queuedStores (domains : List String) : Stores Unit where
  redis := (domains.zipIdx 1).foldl (fun r d => r.enqueue 60 (d.2, queuedJob d.1)) {}
  db := ⟨⟨∅, fun _ => { username := "", submittedAt := 0 }, fun _ => none⟩,
    ⟨∅, fun _ => {}, fun _ => none⟩⟩

/-- No job is dispatched to a tier while, when the tick ends, a higher one has a free slot that
serves it, on a backend that it does not avoid. -/
def TickPlan.Strict (tick : TickPlan) : Prop :=
  ∀ plan ∈ tick.plans, ∀ a ∈ plan.assignments, ∀ higher ∈ tick.plans,
    plan.priority < higher.priority → ∀ slot ∈ higher.left input, canServe slot a.job = true →
      slot.backend.id ∉ a.job.avoid → slot.free = 0

/-- What a tier places it claims. -/
def TickPlan.NoClaimLost (tick : TickPlan) : Prop :=
  ∀ plan ∈ tick.plans, ∀ job ∈ plan.placed input, job.jobId ∈ plan.claimed

/-- What the tiers look at is one queue, from which a tier takes what it places: nothing comes onto
it between two looks. -/
structure TickPlan.OneQueue (tick : TickPlan) : Prop where
  /-- What only the lower tier looks at stood behind as many jobs as the higher one may look at. -/
  behind : ∀ plan ∈ tick.plans, ∀ higher ∈ tick.plans, plan.priority < higher.priority →
    ∀ job ∈ plan.pending, job ∉ higher.pending → higher.pending.length = higher.capacity
  taken : ∀ plan ∈ tick.plans, ∀ higher ∈ tick.plans, plan.priority < higher.priority →
    ∀ job ∈ plan.pending, job ∉ higher.placed input

/-- The tier leaves a job out at its turn while a free slot of it serves another job, which does not
avoid its backend. -/
def TierPlan.SkipsBefore (plan : TierPlan) (job : PendingJob) : Prop :=
  ∃ turn ∈ plan.turns input, candidates turn.slots turn.job = [] ∧
    ∃ slot ∈ turn.slots, 0 < slot.free ∧ canServe slot job = true ∧ slot.backend.id ∉ job.avoid

instance (plan : TierPlan) (job : PendingJob) : Decidable (plan.SkipsBefore input job) :=
  inferInstanceAs (Decidable (∃ turn ∈ plan.turns input, candidates turn.slots turn.job = [] ∧
    ∃ slot ∈ turn.slots, 0 < slot.free ∧ canServe slot job = true ∧ slot.backend.id ∉ job.avoid))

/-- A tier leaves a job out although a free slot of it serves one that it does not look at, and a
lower tier does. -/
def TickPlan.Skips (tick : TickPlan) : Prop :=
  ∃ plan ∈ tick.plans, ∃ higher ∈ tick.plans, plan.priority < higher.priority ∧
    ∃ job ∈ plan.pending, job ∉ higher.pending ∧ higher.SkipsBefore input job

variable {input}

theorem free_le_freeSlots {slots : List BackendSlot} {slot : BackendSlot} (h : slot ∈ slots) :
    slot.free ≤ freeSlots slots := List.le_sum_of_mem (List.mem_map_of_mem h)

theorem TierPlan.Sound.mem_pending {plan : TierPlan} {eligible : List BackendSlot}
    (h : plan.Sound input eligible) {a : Assignment} (ha : a ∈ plan.assignments) :
    a.job ∈ plan.pending := by
  have hmem := List.mem_map_of_mem (f := fun a : Assignment => (a.job, a.slot)) ha
  rw [h.assignments] at hmem
  exact allocated_mem (List.mem_of_mem_filter hmem)

/-- A tier that places as many jobs as it may look at, and claims them, leaves no slot free for a
lower one. -/
theorem TierPlan.full {higher plan : TierPlan} {eligible : List BackendSlot}
    (hsound : higher.Sound input eligible) (hbefore : higher.Before plan)
    (hassigned : plan.assignments ≠ [])
    (hclaimed : ∀ job ∈ higher.placed input, job.jobId ∈ higher.claimed)
    (hplaced : (higher.allocation input).1.length = higher.capacity) :
    ∀ slot ∈ higher.left input, slot.free = 0 := by
  have hall : higher.assignments.length = (higher.allocation input).1.length := by
    have hlength := congrArg List.length hsound.assignments
    rw [List.length_map, List.filter_eq_self.mpr fun a ha =>
      decide_eq_true (hclaimed a.1 (List.mem_map_of_mem ha))] at hlength
    exact hlength
  have hfree : freeSlots (higher.left input) + (higher.allocation input).1.length =
      freeSlots higher.tier := freeSlots_allocate higher.pending
  intro slot hslot
  have hle := free_le_freeSlots hslot
  have := hbefore hassigned
  omega

/-- **The tiers of a tick in which no claim is lost are strict, if no tier leaves a job out while it
has a free slot for one behind, and nothing comes onto the queue between two looks.** -/
theorem strict_tiers : runTick i settings input = (fun _ => ()) <$> tickPlan i settings input ∧
    (tickPlan i settings input).Answers fun tick =>
      tick.NoClaimLost input → tick.OneQueue input → ¬tick.Skips input → tick.Strict input := by
  refine ⟨runTick_eq i settings input, (answers_tickPlan i settings input).mono fun tick h => ?_⟩
  intro hclaimed hqueue hskips plan hplan a ha higher hhigher hlt slot hslot hserve havoid
  by_contra hfree
  have hfree := Nat.pos_of_ne_zero hfree
  have hpending := (h.plans plan hplan).mem_pending ha
  by_cases hseen : a.job ∈ higher.pending
  · -- the higher tier left the job out although the slot was open to it
    exact left_out hseen (hqueue.taken plan hplan higher hhigher hlt a.job hpending) slot
      ⟨hslot, hserve, hfree, Or.inl havoid⟩
  · have hfull := hqueue.behind plan hplan higher hhigher hlt a.job hpending hseen
    have hnoskip : ∀ turn ∈ higher.turns input, candidates turn.slots turn.job ≠ [] := by
      intro turn hturn hskip
      obtain ⟨slot', hslot', hlater⟩ := (later_turn hturn).2.exists_before slot hslot
      refine hskips ⟨plan, hplan, higher, hhigher, hlt, a.job, hpending, hseen, turn, hturn, hskip,
        slot', hslot', hfree.trans_le hlater.free, ?_, ?_⟩
      · rw [← hlater.canServe]
        exact hserve
      · rwa [← hlater.backend]
    have hplaced := (length_allocate_of_no_skip hnoskip).trans hfull
    have hnone := TierPlan.full (h.plans higher hhigher) (h.before_of_lt hhigher hplan hlt)
      (List.ne_nil_of_mem ha) (hclaimed higher hhigher) hplaced slot hslot
    omega

/-- Backend 1 has one free slot and looks at the first job only, which it does not serve; so backend
2 gets both jobs. -/
theorem tier_overtaken :
    ¬(run (tickPlan () {} twoTiers) (queuedStores ["rare", "common"])).1.Strict twoTiers := by
  unfold TickPlan.Strict
  decide +kernel

/-- Backend 1 gets the first job, and has no slot left for the third; backend 2 gets both others. -/
theorem strict_tiers_sample :
    let tick := (run (tickPlan () {} twoTiers) (queuedStores ["common", "rare", "common"])).1
    tick.plans.map (fun plan => plan.assignments.map fun a => (a.job.jobId, a.slot.backend.id)) =
      [[(1, 1)], [(2, 2), (3, 2)]] ∧ tick.Strict twoTiers := by
  refine ⟨by decide +kernel, (strict_tiers () {}).2.run _ ?_ ⟨?_, ?_⟩ ?_⟩
  · unfold TickPlan.NoClaimLost
    decide +kernel
  · decide +kernel
  · decide +kernel
  · unfold TickPlan.Skips
    decide +kernel

end Taas

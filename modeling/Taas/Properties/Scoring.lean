import Taas.Properties.Allocation

/-!
# Which slot a job gets

`allocate_scored` fills the slots that it chooses among. What holds of each choice, at its turn, and
of all of them.

* `got` — how many jobs a slot got.
* `allocation_maximal` — the slots are not overfilled, and nothing that fits is left out.
* `chosen_by_finish` — each job goes where it is finished first, within the affinity's tolerance.
* `equal_backends_share` — backends that are alike get equal shares, after any number of jobs.
-/

namespace Taas

open Infra

variable {spp : BackendId → String → ℚ} {tolerance : ℚ} {start : Nat} {slots : List BackendSlot}
  {job : PendingJob}

/-- How many jobs of the turns went to the slot at `i`. -/
def got (spp : BackendId → String → ℚ) (tolerance : ℚ) (i : Nat) (turns : List Turn) : Nat :=
  turns.countP fun t => (t.chosen spp tolerance).any fun c => c.1 = i

/-! ## Safe and maximal -/

theorem BackendSlot.free_assign (slot : BackendSlot) (job : PendingJob) :
    (slot.assign job).free = slot.free - 1 := by
  unfold assign
  dsimp only
  split <;> rfl

section

variable {jobs : List PendingJob} {i k : Nat} {slot : BackendSlot}

theorem allocate_none (hc : chooseSlot spp tolerance start slots job = none) :
    allocateScored spp tolerance start slots (job :: jobs) =
      allocateScored spp tolerance start slots jobs := by
  rw [allocateScored, hc]

theorem allocate_some (hc : chooseSlot spp tolerance start slots job = some (k, slot)) :
    (allocateScored spp tolerance start slots (job :: jobs)).2 =
      (allocateScored spp tolerance ((k + 1) % slots.length)
        (slots.set k (slot.assign job)) jobs).2 := by
  rw [allocateScored, hc]

theorem jobTurns_none (hc : chooseSlot spp tolerance start slots job = none) :
    jobTurns spp tolerance start slots (job :: jobs) =
      ⟨start, slots, job⟩ :: jobTurns spp tolerance start slots jobs := by
  rw [jobTurns, hc]

theorem jobTurns_some (hc : chooseSlot spp tolerance start slots job = some (k, slot)) :
    jobTurns spp tolerance start slots (job :: jobs) =
      ⟨start, slots, job⟩ :: jobTurns spp tolerance ((k + 1) % slots.length)
        (slots.set k (slot.assign job)) jobs := by
  rw [jobTurns, hc]

theorem got_none {turns : List Turn} (hc : chooseSlot spp tolerance start slots job = none) :
    got spp tolerance i (⟨start, slots, job⟩ :: turns) = got spp tolerance i turns := by
  simp [got, Turn.chosen, hc]

theorem got_some {turns : List Turn}
    (hc : chooseSlot spp tolerance start slots job = some (k, slot)) :
    got spp tolerance i (⟨start, slots, job⟩ :: turns) =
      got spp tolerance i turns + if k = i then 1 else 0 := by
  simp [got, Turn.chosen, hc, List.countP_cons]

end

/-- Each slot has one place less for each job that it got. -/
theorem free_allocate (jobs : List PendingJob) (i : Nat) :
    ((allocateScored spp tolerance start slots jobs).2[i]?.map fun s => s.free +
      got spp tolerance i (jobTurns spp tolerance start slots jobs)) =
        slots[i]?.map fun s => s.free := by
  induction jobs generalizing start slots with
  | nil => rfl
  | cons job jobs ih =>
    cases hc : chooseSlot spp tolerance start slots job with
    | none =>
      rw [allocate_none hc, jobTurns_none hc, got_none hc]
      exact ih
    | some c =>
      obtain ⟨k, slot⟩ := c
      obtain ⟨hk, -, hfree, -⟩ := candidates_iff.mp (chooseSlot_mem hc)
      have hrest := @ih ((k + 1) % slots.length) (slots.set k (slot.assign job))
      rw [allocate_some hc, jobTurns_some hc, got_some hc]
      by_cases hki : k = i
      · subst hki
        have hlt : k < slots.length := (List.getElem?_eq_some_iff.mp hk).1
        rw [List.getElem?_set_self hlt, Option.map_some, BackendSlot.free_assign] at hrest
        obtain ⟨s, hs, hsum⟩ := Option.map_eq_some_iff.mp hrest
        rw [hs, hk, Option.map_some, Option.map_some, if_pos rfl, ← add_assoc, hsum,
          Nat.sub_add_cancel hfree]
      · rw [if_neg hki, add_zero]
        rw [List.getElem?_set_ne hki] at hrest
        exact hrest

/-- A job that is placed may go where it goes: to a backend that it avoids only if it avoids all that
serve it. -/
theorem placed_allowed {jobs : List PendingJob} :
    ∀ a ∈ (allocateScored spp tolerance start slots jobs).1, Allowed slots a.1 a.2 := by
  induction jobs generalizing start slots with
  | nil => exact fun a ha => (nomatch ha)
  | cons head jobs ih =>
    unfold allocateScored
    split
    · exact ih
    · next i slot hc =>
      obtain ⟨hi, -, -, hallowed⟩ := candidates_iff.mp (chooseSlot_mem hc)
      intro a ha
      rcases List.mem_cons.mp ha with rfl | ha
      · exact hallowed
      · -- the slots that serve the job are the same ones as before the head's turn
        refine (ih a ha).imp id fun hall s hs hserve => ?_
        have hset : Later slots (slots.set i (slot.assign head)) := later_set hi
        obtain ⟨s', hs', hlater⟩ := hset.exists_after s hs
        rw [← hlater.backend]
        exact hall s' hs' ((hlater.canServe a.1).trans hserve)

/-- At its turn, too, a job that is left out has no slot that may take it. -/
theorem left_out_turn {jobs : List PendingJob}
    (hleft : job ∉ (allocateScored spp tolerance start slots jobs).1.map Prod.fst) {t : Turn}
    (ht : t ∈ jobTurns spp tolerance start slots jobs) (hjob : t.job = job) (slot : BackendSlot) :
    ¬Open t.slots job slot := by
  have hnone : t.chosen spp tolerance = none := by
    by_contra hne
    obtain ⟨c, hc⟩ := Option.ne_none_iff_exists'.mp hne
    refine hleft ?_
    rw [allocateScored_eq_jobTurns, List.mem_map]
    refine ⟨(t.job, c.2), List.mem_filterMap.mpr ⟨t, ht, ?_⟩, hjob⟩
    rw [hc, Option.map_some]
  subst hjob
  exact candidates_eq_nil_iff.mp (chooseSlot_eq_none_iff.mp hnone) slot

/-- **The allocation overfills no slot and leaves out no job that fits.** -/
theorem allocation_maximal (spp : BackendId → String → ℚ) (tolerance : ℚ)
    (slots : List BackendSlot) (jobs : List PendingJob)
    (hids : (jobs.map fun job => job.jobId).Nodup) :
    let placed := (allocateScored spp tolerance 0 slots jobs).1
    let after := (allocateScored spp tolerance 0 slots jobs).2
    let turns := jobTurns spp tolerance 0 slots jobs
    (placed.map Prod.fst).Sublist jobs ∧ (placed.map fun a => a.1.jobId).Nodup ∧
      placed = turns.filterMap (fun t => (t.chosen spp tolerance).map fun c => (t.job, c.2)) ∧
      (∀ i : Nat, (after[i]?.map fun s => s.free + got spp tolerance i turns) =
        slots[i]?.map fun s => s.free) ∧
      (∀ a ∈ placed, canServe a.2 a.1 = true ∧ (a.2.backend.id ∈ a.1.avoid →
        ∀ s ∈ slots, canServe s a.1 = true → s.backend.id ∈ a.1.avoid)) ∧
      ∀ job ∈ jobs, job ∉ placed.map Prod.fst →
        (∀ t ∈ turns, t.job = job → ∀ slot, ¬Open t.slots job slot) ∧
          ∀ slot, ¬Open after job slot := by
  have hsub : ((allocateScored spp tolerance 0 slots jobs).1.map Prod.fst).Sublist jobs :=
    placed_sublist jobs
  refine ⟨hsub, ?_, allocateScored_eq_jobTurns jobs, free_allocate jobs, fun a ha => ?_, ?_⟩
  · have hnodup := hids.sublist (hsub.map fun job => job.jobId)
    rwa [List.map_map] at hnodup
  · exact ⟨placed_serves a ha, fun havoid => (placed_allowed a ha).resolve_left fun h => h havoid⟩
  · exact fun job hmem hleft => ⟨fun t ht hjob => left_out_turn hleft ht hjob, left_out hmem hleft⟩

/-- A backend with two free places. -/
def sampleSlot (id : BackendId) : BackendSlot where
  backend := { id := id, url := "http://engine" }
  free := 2
  domains := fun _ => some {"alto"}

def samplePending (jobId : JobId) : PendingJob where
  jobId := jobId
  score := 0
  domain := "default"
  outputs := {"alto"}

/-- Three jobs for two places. -/
theorem allocation_maximal_sample : ∃ slots jobs, slots = [sampleSlot 1] ∧
    jobs = [samplePending 1, samplePending 2, samplePending 3] ∧
      ((allocateScored (fun _ _ => 1) 0 0 slots jobs).1.map Prod.fst).Sublist jobs :=
  ⟨_, _, rfl, rfl, (allocation_maximal (fun _ _ => 1) 0 [sampleSlot 1]
    [samplePending 1, samplePending 2, samplePending 3] (by decide)).1⟩

/-! ## By expected finish -/

/-- When the slot would finish the job. -/
def finishOn (spp : BackendId → String → ℚ) (job : PendingJob) (slot : BackendSlot) : ℚ :=
  expectedFinish slot job (spp slot.backend.id job.domain)

/-- The slot has pages of the job's batch. -/
def Affine (job : PendingJob) (slot : BackendSlot) : Prop :=
  ∃ batchId, nonEmpty job.batchId = some batchId ∧ 0 < slot.batches batchId

/-- The slot may take the job, has pages of its batch, and finishes it within the tolerance. -/
structure Near (spp : BackendId → String → ℚ) (tolerance : ℚ) (slots : List BackendSlot)
    (job : PendingJob) (best : ℚ) (slot : BackendSlot) : Prop where
  usable : Open slots job slot
  affine : Affine job slot
  within : finishOn spp job slot ≤ (1 + tolerance) * best

theorem affine_iff {slot : BackendSlot} : Affine job slot ↔
    ((nonEmpty job.batchId).any fun batchId => 0 < slot.batches batchId) = true := by
  unfold Affine
  rw [Option.any_eq_true]
  simp only [decide_eq_true_eq]

theorem open_iff_candidate {slot : BackendSlot} :
    Open slots job slot ↔ ∃ i, (i, slot) ∈ candidates slots job := by
  constructor
  · intro h
    obtain ⟨i, hi⟩ := List.mem_iff_getElem?.mp h.mem
    exact ⟨i, candidates_iff.mpr ⟨hi, h.serves, h.free, h.allowed⟩⟩
  · rintro ⟨i, hc⟩
    obtain ⟨hi, hserve, hfree, hallowed⟩ := candidates_iff.mp hc
    exact ⟨List.mem_of_getElem? hi, hserve, hfree, hallowed⟩

/-- The least of some numbers. -/
theorem isLeast_min? {l : List ℚ} (hl : l ≠ []) : IsLeast {x | x ∈ l} (l.min?.getD 0) := by
  obtain ⟨m, hm⟩ : ∃ m, l.min? = some m := by
    rw [← Option.isSome_iff_exists, List.isSome_min?_iff]
    exact hl
  rw [hm, Option.getD_some]
  exact List.min?_eq_some_iff.mp hm

/-- The pool: the best of the near ones, or the best of all if none is near. -/
theorem mem_scoredPool {l : List (Nat × BackendSlot)} {c : Nat × BackendSlot}
    (hc : c ∈ scoredPool spp tolerance job l) :
    c ∈ l ∧ ∃ best, IsLeast {x | ∃ c ∈ l, finishOn spp job c.2 = x} best ∧
      ((∃ c ∈ l, Affine job c.2 ∧ finishOn spp job c.2 ≤ (1 + tolerance) * best) →
        (Affine job c.2 ∧ finishOn spp job c.2 ≤ (1 + tolerance) * best) ∧
          ∀ c' ∈ l, Affine job c'.2 → finishOn spp job c'.2 ≤ (1 + tolerance) * best →
            finishOn spp job c.2 ≤ finishOn spp job c'.2) ∧
      ((¬∃ c ∈ l, Affine job c.2 ∧ finishOn spp job c.2 ≤ (1 + tolerance) * best) →
        finishOn spp job c.2 = best) := by
  have hmem := scoredPool_subset c hc
  refine ⟨hmem, ?_⟩
  set finish := fun s : Nat × BackendSlot => finishOn spp job s.2 with hfinish
  set best := (l.map finish).min?.getD 0 with hbest
  set affine := (l.filter fun s => finish s ≤ best * (1 + tolerance)).filter fun s =>
    (nonEmpty job.batchId).any fun batchId => 0 < s.2.batches batchId with haffine
  have hnear : ∀ s, s ∈ affine ↔
      s ∈ l ∧ Affine job s.2 ∧ finish s ≤ (1 + tolerance) * best := by
    intro s
    rw [haffine, List.mem_filter, List.mem_filter, ← affine_iff, decide_eq_true_eq, mul_comm best]
    tauto
  have hleast : IsLeast {x | ∃ c ∈ l, finish c = x} best := by
    have h := isLeast_min? (l := l.map finish) (by simpa using List.ne_nil_of_mem hmem)
    simpa only [List.mem_map] using h
  have hpool : scoredPool spp tolerance job l = if affine.isEmpty then
      l.filter fun s => finish s = best
    else affine.filter fun s => finish s = (affine.map finish).min?.getD 0 := rfl
  rw [hpool] at hc
  refine ⟨best, hleast, fun hsome => ?_, fun hnone => ?_⟩
  · obtain ⟨s, hs, hs'⟩ := hsome
    have hne : affine ≠ [] := List.ne_nil_of_mem ((hnear s).mpr ⟨hs, hs'⟩)
    rw [if_neg (by simpa using hne), List.mem_filter, decide_eq_true_eq] at hc
    obtain ⟨hc, hleast'⟩ := hc
    have hpoolBest := isLeast_min? (l := affine.map finish) (by simpa using hne)
    refine ⟨((hnear c).mp hc).2, fun c' hc' ha hw => ?_⟩
    have hmem' : finish c' ∈ affine.map finish := List.mem_map_of_mem ((hnear c').mpr ⟨hc', ha, hw⟩)
    exact hleast'.le.trans (hpoolBest.2 hmem')
  · have hempty : affine = [] := by
      rw [List.eq_nil_iff_forall_not_mem]
      exact fun s hs => hnone ⟨s, (hnear s).mp hs⟩
    rw [hempty, List.isEmpty_nil, if_pos rfl, List.mem_filter, decide_eq_true_eq] at hc
    exact hc.2

/-- The slots at a job's turn are those that the jobs before it left. -/
theorem slots_jobTurns (jobs : List PendingJob) {k : Nat} {t : Turn}
    (ht : (jobTurns spp tolerance start slots jobs)[k]? = some t) :
    t.slots = (allocateScored spp tolerance start slots (jobs.take k)).2 ∧
      jobs[k]? = some t.job := by
  induction jobs generalizing start slots k with
  | nil => cases ht
  | cons job jobs ih =>
    cases k with
    | zero =>
      rw [jobTurns, List.getElem?_cons_zero] at ht
      obtain rfl := Option.some.inj ht
      exact ⟨rfl, rfl⟩
    | succ k =>
      rw [List.take_succ_cons, List.getElem?_cons_succ]
      cases hc : chooseSlot spp tolerance start slots job with
      | none =>
        rw [jobTurns_none hc, List.getElem?_cons_succ] at ht
        rw [allocate_none hc]
        exact ih ht
      | some c =>
        rw [jobTurns_some hc, List.getElem?_cons_succ] at ht
        rw [allocate_some hc]
        exact ih ht

/-- **Each job goes to the slot that finishes it first: of those near ones that have pages of its
batch, if there are some, else of all that may take it.** -/
theorem chosen_by_finish (spp : BackendId → String → ℚ) (tolerance : ℚ) (slots : List BackendSlot)
    (jobs : List PendingJob) (k : Nat) {t : Turn} {i : Nat} {slot : BackendSlot}
    (ht : (jobTurns spp tolerance 0 slots jobs)[k]? = some t)
    (hc : t.chosen spp tolerance = some (i, slot)) :
    t.slots = (allocateScored spp tolerance 0 slots (jobs.take k)).2 ∧ jobs[k]? = some t.job ∧
      t.slots[i]? = some slot ∧
      (t.job, slot) ∈ (allocateScored spp tolerance 0 slots jobs).1 ∧
      ∃ best, IsLeast {x | ∃ s, Open t.slots t.job s ∧ finishOn spp t.job s = x} best ∧
        ((∃ s, Near spp tolerance t.slots t.job best s) →
          Near spp tolerance t.slots t.job best slot ∧
            ∀ s, Near spp tolerance t.slots t.job best s →
              finishOn spp t.job slot ≤ finishOn spp t.job s) ∧
        ((¬∃ s, Near spp tolerance t.slots t.job best s) → finishOn spp t.job slot = best) ∧
        (nonEmpty t.job.batchId = none → finishOn spp t.job slot = best) := by
  obtain ⟨hslots, hjob⟩ := slots_jobTurns jobs ht
  have hpool : (i, slot) ∈ scoredPool spp tolerance t.job (candidates t.slots t.job) :=
    List.argmin_mem hc
  obtain ⟨hmem, best, hleast, hsome, hnone⟩ := mem_scoredPool hpool
  have hopen : ∀ s, Open t.slots t.job s ↔ ∃ j, (j, s) ∈ candidates t.slots t.job :=
    fun s => open_iff_candidate
  have hnear : (∃ c ∈ candidates t.slots t.job, Affine t.job c.2 ∧
      finishOn spp t.job c.2 ≤ (1 + tolerance) * best) ↔
        ∃ s, Near spp tolerance t.slots t.job best s := by
    constructor
    · rintro ⟨⟨j, s⟩, hj, ha, hw⟩
      exact ⟨s, (hopen s).mpr ⟨j, hj⟩, ha, hw⟩
    · rintro ⟨s, hs, ha, hw⟩
      obtain ⟨j, hj⟩ := (hopen s).mp hs
      exact ⟨(j, s), hj, ha, hw⟩
  have hsame : {x | ∃ s, Open t.slots t.job s ∧ finishOn spp t.job s = x} =
      {x | ∃ c ∈ candidates t.slots t.job, finishOn spp t.job c.2 = x} := by
    ext x
    constructor
    · rintro ⟨s, hs, hx⟩
      obtain ⟨j, hj⟩ := (hopen s).mp hs
      exact ⟨(j, s), hj, hx⟩
    · rintro ⟨⟨j, s⟩, hj, hx⟩
      exact ⟨s, (hopen s).mpr ⟨j, hj⟩, hx⟩
  rw [hnear] at hsome hnone
  have hplaced : (t.job, slot) ∈ (allocateScored spp tolerance 0 slots jobs).1 := by
    rw [allocateScored_eq_jobTurns]
    refine List.mem_filterMap.mpr ⟨t, List.mem_of_getElem? ht, ?_⟩
    rw [hc, Option.map_some]
  refine ⟨hslots, hjob, (candidates_iff.mp hmem).1, hplaced, best, hsame ▸ hleast, fun h => ?_,
    hnone, ?_⟩
  · obtain ⟨⟨ha, hw⟩, hmin⟩ := hsome h
    refine ⟨⟨(hopen slot).mpr ⟨i, hmem⟩, ha, hw⟩, fun s hs => ?_⟩
    obtain ⟨j, hj⟩ := (hopen s).mp hs.usable
    exact hmin (j, s) hj hs.affine hs.within
  · intro hbatch
    refine hnone ?_
    rintro ⟨s, hs⟩
    obtain ⟨batchId, hb, -⟩ := hs.affine
    rw [hbatch] at hb
    cases hb

/-- A backend with three pages in flight already. -/
def busySlot (id : BackendId) : BackendSlot := { sampleSlot id with inflight := 3 }

def samplePage (jobId : JobId) : PendingJob := { samplePending jobId with batchId := some "atlas" }

/-- Whether the slot may take the second page and would finish it then. -/
def takesAt (finish : ℚ) (slot : BackendSlot) : Bool :=
  canServe slot (samplePage 2) && decide (0 < slot.free) &&
    decide (finishOn (fun _ _ => 1) (samplePage 2) slot = finish)

/-- At the second page's turn the other backend would finish it first, but within the tolerance the
page follows the first one. -/
theorem chosen_by_finish_sample : ∃ (t : Turn) (i : Nat) (slot : BackendSlot) (best : ℚ),
    (jobTurns (fun _ _ => 1) (1 / 4) 0 [busySlot 1, busySlot 2]
      [samplePage 1, samplePage 2, samplePending 3])[1]? = some t ∧ t.job = samplePage 2 ∧
    t.chosen (fun _ _ => 1) (1 / 4) = some (i, slot) ∧ slot.backend.id = 1 ∧ slot.assigned = 1 ∧
    IsLeast {x | ∃ s, Open t.slots t.job s ∧ finishOn (fun _ _ => 1) t.job s = x} best ∧
    best < finishOn (fun _ _ => 1) t.job slot ∧
    Near (fun _ _ => 1) (1 / 4) t.slots t.job best slot := by
  have hrun : (jobTurns (fun _ _ => 1) (1 / 4) 0 [busySlot 1, busySlot 2]
      [samplePage 1, samplePage 2, samplePending 3])[1]?.any (fun t =>
        decide (t.job = samplePage 2) && (t.chosen (fun _ _ => 1) (1 / 4)).any (fun c =>
          takesAt (5 / 4) c.2 && (decide (c.2.backend.id = 1 ∧ c.2.assigned = 1) &&
            decide (0 < c.2.batches "atlas"))) &&
        (t.slots.all (fun s => takesAt 1 s || takesAt (5 / 4) s) && t.slots.any (takesAt 1))) =
      true := by
    decide +kernel
  obtain ⟨t, ht, hP⟩ := (Option.any_eq_true ..).mp hrun
  obtain ⟨hjc, hslots⟩ := Bool.and_eq_true_iff.mp hP
  obtain ⟨hjob, hchosen⟩ := Bool.and_eq_true_iff.mp hjc
  obtain ⟨hall, hany⟩ := Bool.and_eq_true_iff.mp hslots
  obtain hjob : t.job = samplePage 2 := of_decide_eq_true hjob
  obtain ⟨⟨i, slot⟩, hc, hslot⟩ := (Option.any_eq_true ..).mp hchosen
  obtain ⟨hlate, hslot⟩ := Bool.and_eq_true_iff.mp hslot
  obtain ⟨hid, hbatch⟩ := Bool.and_eq_true_iff.mp hslot
  obtain ⟨hid, hassigned⟩ := of_decide_eq_true hid
  obtain ⟨-, -, hmem, -, best, hleast, hnear, -, -⟩ := chosen_by_finish (fun _ _ => 1) (1 / 4)
    [busySlot 1, busySlot 2] [samplePage 1, samplePage 2, samplePending 3] 1 ht hc
  have hopen : ∀ {finish s}, s ∈ t.slots → takesAt finish s = true →
      Open t.slots t.job s ∧ finishOn (fun _ _ => 1) t.job s = finish := by
    intro finish s hs htakes
    simp only [takesAt, Bool.and_eq_true, decide_eq_true_eq] at htakes
    rw [hjob]
    exact ⟨⟨hs, htakes.1.1, htakes.1.2, Or.inl (Finset.notMem_empty _)⟩, htakes.2⟩
  obtain ⟨husable, hfinish⟩ := hopen (List.mem_of_getElem? hmem) hlate
  have hbest : best = 1 := by
    obtain ⟨s, hs, htakes⟩ := List.any_eq_true.mp hany
    refine le_antisymm (hleast.2 ⟨s, hopen hs htakes⟩) ?_
    obtain ⟨s', hs', rfl⟩ := hleast.1
    rcases Bool.or_eq_true_iff.mp (List.all_eq_true.mp hall s' hs'.mem) with h | h
    · exact (hopen hs'.mem h).2.ge
    · rw [(hopen hs'.mem h).2]
      norm_num
  have haffine : Affine t.job slot := ⟨"atlas", by rw [hjob]; rfl, of_decide_eq_true hbatch⟩
  have hwithin : finishOn (fun _ _ => 1) t.job slot ≤ (1 + 1 / 4) * best := by
    rw [hfinish, hbest]
    norm_num
  refine ⟨t, i, slot, best, ht, hjob, hc, hid, hassigned, hleast, ?_,
    (hnear ⟨slot, husable, haffine, hwithin⟩).1⟩
  rw [hfinish, hbest]
  norm_num

/-! ## Equal backends -/

/-- The slots start alike, whatever backends they are. -/
def Alike (slots : List BackendSlot) : Prop :=
  ∀ s ∈ slots, ∀ s' ∈ slots, s'.free = s.free ∧ s'.domains = s.domains ∧
    s'.inflight = s.inflight ∧ s'.assigned = s.assigned ∧
      s'.backend.maxInflight = s.backend.maxInflight

/-- How many of the first `k` jobs go to slot `i` of `n`, when the slots take turns. -/
def share (n k i : Nat) : Nat := k / n + if i < k % n then 1 else 0

theorem share_le (n k i j : Nat) : share n k i ≤ share n k j + 1 := by
  unfold share
  split <;> omega

theorem share_succ {n i : Nat} (k : Nat) (hi : i < n) :
    share n (k + 1) i = share n k i + if k % n = i then 1 else 0 := by
  have hn : 0 < n := by omega
  have hlt := Nat.mod_lt k hn
  have hk := Nat.div_add_mod k n
  unfold share
  by_cases hlast : k % n + 1 = n
  · -- a round is complete
    obtain ⟨hdiv, hmod⟩ : (k + 1) / n = k / n + 1 ∧ (k + 1) % n = 0 :=
      (Nat.div_mod_unique hn).mpr ⟨by rw [Nat.mul_add, Nat.mul_one]; omega, hn⟩
    rw [hdiv, hmod]
    split_ifs <;> omega
  · obtain ⟨hdiv, hmod⟩ : (k + 1) / n = k / n ∧ (k + 1) % n = k % n + 1 :=
      (Nat.div_mod_unique hn).mpr ⟨by omega, by omega⟩
    rw [hdiv, hmod]
    split_ifs <;> omega

/-- The slots after `k` jobs of a burst. -/
structure Shared (slots : List BackendSlot) (k : Nat) (slots' : List BackendSlot) : Prop where
  length : slots'.length = slots.length
  slot : ∀ (i : Nat) (s : BackendSlot), slots'[i]? = some s → ∃ s₀, slots[i]? = some s₀ ∧
    s.backend = s₀.backend ∧ s.domains = s₀.domains ∧ s.inflight = s₀.inflight ∧
      s.assigned = s₀.assigned + share slots.length k i ∧
        s.free + share slots.length k i = s₀.free

theorem shared_zero (slots : List BackendSlot) : Shared slots 0 slots where
  length := rfl
  slot i s hs := ⟨s, hs, rfl, rfl, rfl, by simp [share], by simp [share]⟩

section

variable {k i : Nat} {slot : BackendSlot} {slots' : List BackendSlot}

theorem BackendSlot.assign_of_single (hbatch : nonEmpty job.batchId = none) :
    slot.assign job = { slot with free := slot.free - 1, assigned := slot.assigned + 1 } := by
  unfold assign
  rw [hbatch]

/-- The next job goes to the next slot. -/
theorem Shared.set (h : Shared slots k slots') (hbatch : nonEmpty job.batchId = none)
    (hi : slots'[k % slots.length]? = some slot) (hfree : 0 < slot.free) :
    Shared slots (k + 1) (slots'.set (k % slots.length) (slot.assign job)) where
  length := (List.length_set ..).trans h.length
  slot i s hs := by
    have hlt : i < slots.length := by
      have := (List.getElem?_eq_some_iff.mp hs).1
      rwa [List.length_set, h.length] at this
    rw [share_succ k hlt]
    by_cases hki : k % slots.length = i
    · subst hki
      rw [List.getElem?_set_self (h.length ▸ hlt)] at hs
      obtain rfl := Option.some.inj hs
      obtain ⟨s₀, hs₀, hb, hd, hin, ha, hf⟩ := h.slot _ _ hi
      rw [BackendSlot.assign_of_single hbatch]
      refine ⟨s₀, hs₀, hb, hd, hin, ?_, ?_⟩
      · rw [if_pos rfl]
        dsimp only
        omega
      · rw [if_pos rfl]
        dsimp only
        omega
    · rw [List.getElem?_set_ne hki] at hs
      rw [if_neg hki, add_zero]
      exact h.slot i s hs

/-- The slot whose turn it is has got the fewest jobs. -/
theorem share_turn_le (n k i : Nat) : share n k (k % n) ≤ share n k i := by
  unfold share
  rw [if_neg (lt_irrefl _)]
  omega

theorem argmin_eq_of_unique {α : Type} {l : List α} {f : α → Nat} {a b : α}
    (hb : l.argmin f = some b) (ha : a ∈ l) (h0 : f a = 0) : f b = 0 := by
  have hle := List.le_of_mem_argmin ha (Option.mem_def.mpr hb)
  omega

theorem rotation_eq_zero {n k i : Nat} (hi : i < n) (h : (i + n - k % n) % n = 0) : i = k % n := by
  have hlt := Nat.mod_lt k (show 0 < n by omega)
  rcases Nat.lt_or_ge i (k % n) with hlow | hge
  · rw [Nat.mod_eq_of_lt (by omega)] at h
    omega
  · have hsub : i + n - k % n = (i - k % n) + n := by omega
    rw [hsub, Nat.add_mod_right, Nat.mod_eq_of_lt (by omega)] at h
    omega

/-- **A job of a burst goes to the slot whose turn it is.** -/
theorem Shared.chosen (halike : Alike slots) (h : Shared slots k slots') {speed : String → ℚ}
    (hspp : ∀ b domain, spp b domain = speed domain) (hspeed : 0 ≤ speed job.domain)
    (hbatch : nonEmpty job.batchId = none) (havoid : job.avoid = ∅) (hmp : 0 ≤ job.megapixels)
    (hc : chooseSlot spp tolerance (k % slots.length) slots' job = some (i, slot)) :
    i = k % slots.length := by
  obtain ⟨hi, hserve, hfree, -⟩ := candidates_iff.mp (chooseSlot_mem hc)
  have hlt : i < slots.length := by
    have := (List.getElem?_eq_some_iff.mp hi).1
    rwa [h.length] at this
  have hturn : k % slots.length < slots'.length := by
    rw [h.length]
    exact Nat.mod_lt _ (by omega)
  -- the slot whose turn it is can take the job as well
  set next := slots'[k % slots.length] with hnext
  have hj : slots'[k % slots.length]? = some next := List.getElem?_eq_getElem hturn
  obtain ⟨s, hs, hb, hd, hin, ha, hf⟩ := h.slot _ _ hi
  obtain ⟨s', hs', hb', hd', hin', ha', hf'⟩ := h.slot _ _ hj
  obtain ⟨efree, edomains, einflight, eassigned, emax⟩ :=
    halike s (List.mem_of_getElem? hs) s' (List.mem_of_getElem? hs')
  have hshare := share_turn_le slots.length k i
  have hcand : (k % slots.length, next) ∈ candidates slots' job := by
    refine candidates_iff.mpr ⟨hj, ?_, by omega, Or.inl (by rw [havoid]; simp)⟩
    unfold canServe at hserve ⊢
    rwa [hd', edomains, ← hd]
  have hfinish : ∀ c ∈ candidates slots' job, finishOn spp job next ≤ finishOn spp job c.2 := by
    rintro ⟨m, c⟩ hm
    obtain ⟨s₁, hs₁, hb₁, hd₁, hin₁, ha₁, -⟩ := h.slot m c (candidates_iff.mp hm).1
    obtain ⟨-, -, einflight₁, eassigned₁, emax₁⟩ :=
      halike s' (List.mem_of_getElem? hs') s₁ (List.mem_of_getElem? hs₁)
    have hle : next.assigned ≤ c.assigned := by
      have := share_turn_le slots.length k m
      omega
    unfold finishOn expectedFinish
    dsimp only
    rw [hspp, hspp, hin', hin₁, hb', hb₁, einflight₁, emax₁]
    gcongr
  have hpool : (k % slots.length, next) ∈
      scoredPool spp tolerance job (candidates slots' job) := by
    have haffine : ∀ l : List (Nat × BackendSlot), (l.filter fun s =>
        (nonEmpty job.batchId).any fun batchId => 0 < s.2.batches batchId) = [] := by
      intro l
      rw [hbatch]
      simp
    unfold scoredPool
    dsimp only
    rw [haffine, List.isEmpty_nil, if_pos rfl, List.mem_filter, decide_eq_true_eq]
    have hleast := isLeast_min? (l := (candidates slots' job).map fun c => finishOn spp job c.2)
      (by simpa using List.ne_nil_of_mem hcand)
    have hmem : finishOn spp job next ∈
        (candidates slots' job).map fun c => finishOn spp job c.2 :=
      List.mem_map.mpr ⟨_, hcand, rfl⟩
    refine ⟨hcand, le_antisymm ?_ (hleast.2 hmem)⟩
    obtain ⟨c, hcmem, hcmin⟩ := List.mem_map.mp hleast.1
    exact (hfinish c hcmem).trans_eq hcmin
  have hlen : (k % slots.length + slots'.length - k % slots.length) % slots'.length = 0 := by
    rw [Nat.add_sub_cancel_left, Nat.mod_self]
  have hzero := argmin_eq_of_unique hc hpool hlen
  dsimp only at hzero
  rw [h.length] at hzero
  exact rotation_eq_zero hlt hzero

end

/-- The jobs of a burst: of any domains and sizes, but without a batch and with nothing to avoid. -/
structure BurstJob (job : PendingJob) : Prop where
  batch : nonEmpty job.batchId = none
  avoid : job.avoid = ∅
  size : 0 ≤ job.megapixels

/-- After any number of turns, each slot has its share of the jobs placed so far. -/
theorem got_eq_share (tolerance : ℚ) (speed : String → ℚ) {k : Nat} {slots' : List BackendSlot}
    (halike : Alike slots) (h : Shared slots k slots')
    (hspp : ∀ b domain, spp b domain = speed domain) (hspeed : ∀ domain, 0 ≤ speed domain)
    {jobs : List PendingJob} (hburst : ∀ job ∈ jobs, BurstJob job) (m : Nat) :
    ∃ placed, ∀ i < slots.length, share slots.length k i + got spp tolerance i
      ((jobTurns spp tolerance (k % slots.length) slots' jobs).take m) =
        share slots.length (k + placed) i := by
  induction jobs generalizing k slots' m with
  | nil => exact ⟨0, fun i _ => by simp [jobTurns, got]⟩
  | cons job jobs ih =>
    cases m with
    | zero => exact ⟨0, fun i _ => by simp [got]⟩
    | succ m =>
      have hjob := hburst job List.mem_cons_self
      have hrest : ∀ job ∈ jobs, BurstJob job := fun j hj => hburst j (List.mem_cons_of_mem _ hj)
      cases hc : chooseSlot spp tolerance (k % slots.length) slots' job with
      | none =>
        rw [jobTurns_none hc, List.take_succ_cons]
        simp only [got_none hc]
        exact ih h hrest m
      | some c =>
        obtain ⟨i, slot⟩ := c
        have hi := h.chosen halike hspp (hspeed _) hjob.batch hjob.avoid hjob.size hc
        subst hi
        obtain ⟨hmem, -, hfree, -⟩ := candidates_iff.mp (chooseSlot_mem hc)
        obtain ⟨placed, hplaced⟩ := ih (h.set hjob.batch hmem hfree) hrest m
        refine ⟨placed + 1, fun i hi => ?_⟩
        have hnext := hplaced i hi
        rw [share_succ k hi] at hnext
        rw [jobTurns_some hc, List.take_succ_cons, got_some hc, h.length, Nat.mod_add_mod,
          show k + (placed + 1) = k + 1 + placed by omega]
        omega

/-- **Backends that start alike get equal shares of a burst, up to one job, at any time.** -/
theorem equal_backends_share {slots : List BackendSlot} {speed : String → ℚ}
    (tolerance : ℚ) (halike : Alike slots) (hspeed : ∀ domain, 0 ≤ speed domain)
    {jobs : List PendingJob} (hburst : ∀ job ∈ jobs, BurstJob job) (m : Nat) {i j : Nat}
    (hi : i < slots.length) (hj : j < slots.length) :
    let turns := (jobTurns (fun _ => speed) tolerance 0 slots jobs).take m
    got (fun _ => speed) tolerance i turns ≤ got (fun _ => speed) tolerance j turns + 1 := by
  obtain ⟨placed, hplaced⟩ := got_eq_share tolerance speed halike (shared_zero slots)
    (fun _ _ => rfl) hspeed hburst m
  have hgi := hplaced i hi
  have hgj := hplaced j hj
  have hle := share_le slots.length (0 + placed) i j
  rw [Nat.zero_mod] at hgi hgj
  have hzero : ∀ i, share slots.length 0 i = 0 := fun i => by simp [share]
  rw [hzero] at hgi hgj
  dsimp only
  omega

/-- Three jobs, one after another, over two backends. -/
theorem equal_backends_share_sample : ∃ slots jobs, slots = [sampleSlot 1, sampleSlot 2] ∧
    jobs = [samplePending 1, samplePending 2, samplePending 3] ∧
      got (fun _ _ => 1) 0 0 ((jobTurns (fun _ _ => 1) 0 0 slots jobs).take 3) ≤
        got (fun _ _ => 1) 0 1 ((jobTurns (fun _ _ => 1) 0 0 slots jobs).take 3) + 1 := by
  refine ⟨_, _, rfl, rfl, equal_backends_share 0 ?_ (fun _ => zero_le_one) ?_ 3
    (i := 0) (j := 1) (by decide) (by decide)⟩
  · intro s hs s' hs'
    simp only [List.mem_cons, List.not_mem_nil, or_false] at hs hs'
    rcases hs with rfl | rfl <;> rcases hs' with rfl | rfl <;> exact ⟨rfl, rfl, rfl, rfl, rfl⟩
  · intro job hjob
    simp only [List.mem_cons, List.not_mem_nil, or_false] at hjob
    rcases hjob with rfl | rfl | rfl <;> exact ⟨rfl, rfl, zero_le_one⟩

end Taas

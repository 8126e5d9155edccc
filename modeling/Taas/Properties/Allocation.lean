import Taas.Workers.Submit

/-!
# What the allocation of a tier does

* `candidates_iff`, `chooseSlot_eq_none_iff` — who gets a job.
* `jobTurns` — the jobs with the slots as their turns come.
* `left_out` — a job that is left out found no slot that could take it, and there is none after.
* `chosen_avoided_iff` — when a job goes to a backend that it avoids.
* `freeSlots_allocate` — each job that is placed takes one free slot.
-/

namespace Taas

open Infra

variable {spp : BackendId → String → ℚ} {tolerance : ℚ} {start : Nat} {slots : List BackendSlot}
  {job : PendingJob}

/-! ## Choosing a slot -/

/-- The job may go to the slot: it is not to be avoided, or all that serve the job are. -/
def Allowed (slots : List BackendSlot) (job : PendingJob) (slot : BackendSlot) : Prop :=
  slot.backend.id ∉ job.avoid ∨
    ∀ s ∈ slots, canServe s job = true → s.backend.id ∈ job.avoid

theorem candidates_iff {i : Nat} {slot : BackendSlot} : (i, slot) ∈ candidates slots job ↔
    slots[i]? = some slot ∧ canServe slot job = true ∧ 0 < slot.free ∧ Allowed slots job slot := by
  have hall : ((slots.zipIdx.filter fun s => canServe s.1 job).all fun s =>
      decide (s.1.backend.id ∈ job.avoid)) = true ↔
        ∀ s ∈ slots, canServe s job = true → s.backend.id ∈ job.avoid := by
    rw [List.all_eq_true]
    constructor
    · intro h s hs hserve
      obtain ⟨i, hi⟩ := List.mem_iff_getElem?.mp hs
      have hmem : (s, i) ∈ slots.zipIdx := List.mk_mem_zipIdx_iff_getElem?.mpr hi
      exact of_decide_eq_true (h (s, i) (List.mem_filter.mpr ⟨hmem, hserve⟩))
    · rintro h ⟨s, i⟩ hs
      obtain ⟨hmem, hserve⟩ := List.mem_filter.mp hs
      have hi : slots[i]? = some s := List.mk_mem_zipIdx_iff_getElem?.mp hmem
      exact decide_eq_true (h s (List.mem_of_getElem? hi) hserve)
  unfold candidates Allowed
  dsimp only
  rw [List.mem_map]
  constructor
  · rintro ⟨⟨s, k⟩, hs, heq⟩
    cases heq
    simp only [List.mem_filter, Bool.and_eq_true, Bool.or_eq_true, decide_eq_true_eq] at hs
    obtain ⟨⟨hmem, hserve⟩, hfree, hor⟩ := hs
    refine ⟨List.mk_mem_zipIdx_iff_getElem?.mp hmem, hserve, hfree, ?_⟩
    rw [hall] at hor
    exact hor.symm
  · rintro ⟨hi, hserve, hfree, hor⟩
    refine ⟨(slot, i), ?_, rfl⟩
    simp only [List.mem_filter, Bool.and_eq_true, Bool.or_eq_true, decide_eq_true_eq]
    refine ⟨⟨List.mk_mem_zipIdx_iff_getElem?.mpr hi, hserve⟩, hfree, ?_⟩
    rw [hall]
    exact hor.symm

theorem scoredPool_subset {l : List (Nat × BackendSlot)} :
    ∀ c ∈ scoredPool spp tolerance job l, c ∈ l := by
  intro c hc
  unfold scoredPool at hc
  dsimp only at hc
  split at hc
  · exact List.mem_of_mem_filter hc
  · exact List.mem_of_mem_filter (List.mem_of_mem_filter (List.mem_of_mem_filter hc))

/-- The least of some numbers is one of them. -/
theorem filter_eq_min_ne_nil {α : Type} {l : List α} (hl : l ≠ []) (f : α → ℚ) :
    (l.filter fun a => f a = (l.map f).min?.getD 0) ≠ [] := by
  obtain ⟨m, hm⟩ : ∃ m, (l.map f).min? = some m := by
    rw [← Option.isSome_iff_exists, List.isSome_min?_iff]
    simpa using hl
  obtain ⟨a, ha, hfa⟩ := List.mem_map.mp (List.min?_mem hm)
  refine List.ne_nil_of_mem (a := a) (List.mem_filter.mpr ⟨ha, ?_⟩)
  rw [hm]
  exact decide_eq_true hfa

theorem scoredPool_ne_nil {l : List (Nat × BackendSlot)} (hl : l ≠ []) :
    scoredPool spp tolerance job l ≠ [] := by
  unfold scoredPool
  dsimp only
  split
  · exact filter_eq_min_ne_nil hl _
  · next haffine => exact filter_eq_min_ne_nil (by simpa using haffine) _

theorem chooseSlot_mem {c : Nat × BackendSlot}
    (h : chooseSlot spp tolerance start slots job = some c) : c ∈ candidates slots job :=
  scoredPool_subset c (List.argmin_mem h)

/-- A job is left out exactly if there is no candidate. -/
theorem chooseSlot_eq_none_iff :
    chooseSlot spp tolerance start slots job = none ↔ candidates slots job = [] := by
  unfold chooseSlot
  rw [List.argmin_eq_none]
  refine ⟨fun h => by_contra fun hne => scoredPool_ne_nil hne h, fun h => ?_⟩
  rw [h, List.eq_nil_iff_forall_not_mem]
  exact fun c hc => List.not_mem_nil (scoredPool_subset c hc)

/-! ## Falling back to a backend to avoid -/

/-- The tier falls back: the job avoids all its backends that serve it, and one of them has a free
slot. -/
def Fallback (slots : List BackendSlot) (job : PendingJob) : Prop :=
  (∀ s ∈ slots, canServe s job = true → s.backend.id ∈ job.avoid) ∧
    ∃ s ∈ slots, canServe s job = true ∧ 0 < s.free

theorem chosen_avoided_iff : (∃ c, chooseSlot spp tolerance start slots job = some c ∧
    c.2.backend.id ∈ job.avoid) ↔ Fallback slots job := by
  constructor
  · rintro ⟨⟨i, slot⟩, hc, havoid⟩
    obtain ⟨hi, hserve, hfree, hallowed⟩ := candidates_iff.mp (chooseSlot_mem hc)
    exact ⟨hallowed.resolve_left fun h => h havoid, slot, List.mem_of_getElem? hi, hserve, hfree⟩
  · rintro ⟨hall, s, hs, hserve, hfree⟩
    obtain ⟨i, hi⟩ := List.mem_iff_getElem?.mp hs
    have hmem : (i, s) ∈ candidates slots job :=
      candidates_iff.mpr ⟨hi, hserve, hfree, Or.inr hall⟩
    obtain ⟨c, hc⟩ : ∃ c, chooseSlot spp tolerance start slots job = some c := by
      rw [← Option.ne_none_iff_exists']
      exact mt chooseSlot_eq_none_iff.mp (List.ne_nil_of_mem hmem)
    obtain ⟨hi', hserve', -⟩ := candidates_iff.mp (chooseSlot_mem hc)
    exact ⟨c, hc, hall c.2 (List.mem_of_getElem? hi') hserve'⟩

/-! ## One job after another -/

/-- A job's turn: where the rotation starts, and the slots as they are then. -/
structure Turn where
  start : Nat
  slots : List BackendSlot
  job : PendingJob

/-- The turns of an allocation. -/
def jobTurns (spp : BackendId → String → ℚ) (tolerance : ℚ) (start : Nat) (slots : List BackendSlot) :
    List PendingJob → List Turn
  | [] => []
  | job :: jobs =>
    ⟨start, slots, job⟩ ::
      match chooseSlot spp tolerance start slots job with
      | none => jobTurns spp tolerance start slots jobs
      | some (i, slot) =>
        jobTurns spp tolerance ((i + 1) % slots.length) (slots.set i (slot.assign job)) jobs

/-- The slot that a turn's job gets. -/
def Turn.chosen (spp : BackendId → String → ℚ) (tolerance : ℚ) (t : Turn) :
    Option (Nat × BackendSlot) := chooseSlot spp tolerance t.start t.slots t.job

/-- The allocation is what the turns come to. -/
theorem allocateScored_eq_jobTurns (jobs : List PendingJob) :
    (allocateScored spp tolerance start slots jobs).1 =
      (jobTurns spp tolerance start slots jobs).filterMap fun t =>
        (t.chosen spp tolerance).map fun c => (t.job, c.2) := by
  induction jobs generalizing start slots with
  | nil => rfl
  | cons job jobs ih =>
    rw [allocateScored, jobTurns, List.filterMap_cons]
    simp only [Turn.chosen]
    cases hc : chooseSlot spp tolerance start slots job with
    | none => exact ih
    | some c => exact congrArg _ ih

theorem map_job_jobTurns (jobs : List PendingJob) :
    (jobTurns spp tolerance start slots jobs).map Turn.job = jobs := by
  induction jobs generalizing start slots with
  | nil => rfl
  | cons job jobs ih =>
    rw [jobTurns, List.map_cons]
    split <;> exact congrArg _ ih

/-- A slot later in the allocation: less of it is free. -/
structure BackendSlot.Later (s s' : BackendSlot) : Prop where
  backend : s'.backend = s.backend
  domains : s'.domains = s.domains
  free : s'.free ≤ s.free

theorem BackendSlot.Later.refl (s : BackendSlot) : s.Later s := ⟨rfl, rfl, le_refl _⟩

theorem BackendSlot.Later.trans {s s' s'' : BackendSlot} (h : s.Later s') (h' : s'.Later s'') :
    s.Later s'' :=
  ⟨h'.backend.trans h.backend, h'.domains.trans h.domains, h'.free.trans h.free⟩

theorem BackendSlot.later_assign (s : BackendSlot) (job : PendingJob) : s.Later (s.assign job) := by
  unfold assign
  dsimp only
  split <;> exact ⟨rfl, rfl, Nat.sub_le _ _⟩

theorem BackendSlot.Later.canServe {s s' : BackendSlot} (h : s.Later s') (job : PendingJob) :
    Taas.canServe s' job = Taas.canServe s job := by
  unfold Taas.canServe
  rw [h.domains]

/-- The slots, each as it is later. -/
abbrev Later (slots slots' : List BackendSlot) : Prop :=
  List.Forall₂ BackendSlot.Later slots slots'

theorem later_refl (slots : List BackendSlot) : Later slots slots :=
  List.forall₂_same.mpr fun s _ => BackendSlot.Later.refl s

theorem Later.trans {slots' slots'' : List BackendSlot} (h : Later slots slots')
    (h' : Later slots' slots'') : Later slots slots'' := by
  induction h generalizing slots'' with
  | nil => exact h'
  | cons hs _ ih =>
    cases h' with
    | cons hs' hrest => exact .cons (hs.trans hs') (ih hrest)

theorem later_set {i : Nat} {slot : BackendSlot} (hi : slots[i]? = some slot) :
    Later slots (slots.set i (slot.assign job)) := by
  induction slots generalizing i with
  | nil => cases hi
  | cons s slots ih =>
    cases i with
    | zero =>
      obtain rfl := Option.some.inj hi
      exact .cons (s.later_assign job) (later_refl slots)
    | succ i => exact .cons (.refl s) (ih hi)

theorem later_allocate (jobs : List PendingJob) :
    Later slots (allocateScored spp tolerance start slots jobs).2 := by
  induction jobs generalizing start slots with
  | nil => exact later_refl slots
  | cons job jobs ih =>
    unfold allocateScored
    split
    · exact ih
    · next i slot hc => exact (later_set (candidates_iff.mp (chooseSlot_mem hc)).1).trans ih

theorem Later.exists_before {slots' : List BackendSlot} (h : Later slots slots') :
    ∀ s' ∈ slots', ∃ s ∈ slots, s.Later s' := by
  induction h with
  | nil => exact fun s' hs' => (nomatch hs')
  | @cons s s' slots slots' hs _ ih =>
    intro t' ht'
    rcases List.mem_cons.mp ht' with rfl | ht'
    · exact ⟨s, List.mem_cons_self, hs⟩
    · obtain ⟨t, ht, hlater⟩ := ih t' ht'
      exact ⟨t, List.mem_cons_of_mem _ ht, hlater⟩

theorem Later.exists_after {slots' : List BackendSlot} (h : Later slots slots') :
    ∀ s ∈ slots, ∃ s' ∈ slots', s.Later s' := by
  induction h with
  | nil => exact fun s hs => (nomatch hs)
  | @cons s s' slots slots' hs _ ih =>
    intro t ht
    rcases List.mem_cons.mp ht with rfl | ht
    · exact ⟨s', List.mem_cons_self, hs⟩
    · obtain ⟨t', ht', hlater⟩ := ih t ht
      exact ⟨t', List.mem_cons_of_mem _ ht', hlater⟩

/-- A slot that may take the job: it serves it, has a free slot, and is allowed to it. -/
structure Open (slots : List BackendSlot) (job : PendingJob) (slot : BackendSlot) : Prop where
  mem : slot ∈ slots
  serves : canServe slot job = true
  free : 0 < slot.free
  allowed : Allowed slots job slot

theorem candidates_eq_nil_iff : candidates slots job = [] ↔ ∀ slot, ¬Open slots job slot := by
  rw [List.eq_nil_iff_forall_not_mem]
  constructor
  · intro h slot hopen
    obtain ⟨i, hi⟩ := List.mem_iff_getElem?.mp hopen.mem
    exact h (i, slot) (candidates_iff.mpr ⟨hi, hopen.serves, hopen.free, hopen.allowed⟩)
  · rintro h ⟨i, slot⟩ hc
    obtain ⟨hi, hserve, hfree, hallowed⟩ := candidates_iff.mp hc
    exact h slot ⟨List.mem_of_getElem? hi, hserve, hfree, hallowed⟩

/-- What can take a job later could take it before: slots only fill up. -/
theorem Later.open_before {slots' : List BackendSlot} (h : Later slots slots') {s' : BackendSlot}
    (hopen : Open slots' job s') : ∃ s, Open slots job s := by
  obtain ⟨s, hs, hlater⟩ := h.exists_before s' hopen.mem
  refine ⟨s, hs, ?_, hopen.free.trans_le hlater.free, ?_⟩
  · rw [← hlater.canServe job]
    exact hopen.serves
  · refine hopen.allowed.imp (fun havoid => ?_) fun hall t ht hserve => ?_
    · rwa [← hlater.backend]
    · -- the slots are the same ones later, so all of them are still to be avoided
      obtain ⟨t', ht', hlater'⟩ := h.exists_after t ht
      rw [← hlater'.backend]
      exact hall t' ht' ((hlater'.canServe job).trans hserve)

/-- A turn finds the slots as the turns before it left them. -/
theorem later_turn {jobs : List PendingJob} {turn : Turn}
    (h : turn ∈ jobTurns spp tolerance start slots jobs) : Later slots turn.slots ∧
      Later turn.slots (allocateScored spp tolerance start slots jobs).2 := by
  induction jobs generalizing start slots with
  | nil => cases h
  | cons job jobs ih =>
    rw [jobTurns] at h
    rcases List.mem_cons.mp h with rfl | h
    · exact ⟨later_refl slots, later_allocate (job :: jobs)⟩
    · rw [allocateScored]
      cases hc : chooseSlot spp tolerance start slots job with
      | none =>
        rw [hc] at h
        exact ih h
      | some c =>
        rw [hc] at h
        obtain ⟨hbefore, hafter⟩ := ih h
        exact ⟨(later_set (candidates_iff.mp (chooseSlot_mem hc)).1).trans hbefore, hafter⟩

/-- A job that is not placed finds no candidate at its turn. -/
theorem exists_skip {jobs : List PendingJob} (hmem : job ∈ jobs)
    (hleft : job ∉ (allocateScored spp tolerance start slots jobs).1.map Prod.fst) :
    ∃ turn ∈ jobTurns spp tolerance start slots jobs, turn.job = job ∧
      candidates turn.slots turn.job = [] := by
  have hjobs : (jobTurns spp tolerance start slots jobs).map Turn.job = jobs := map_job_jobTurns jobs
  rw [← hjobs] at hmem
  obtain ⟨turn, hturn, rfl⟩ := List.mem_map.mp hmem
  have hnone : turn.chosen spp tolerance = none := by
    by_contra hsome
    obtain ⟨c, hc⟩ := Option.ne_none_iff_exists'.mp hsome
    refine hleft (List.mem_map.mpr ⟨(turn.job, c.2), ?_, rfl⟩)
    rw [allocateScored_eq_jobTurns]
    exact List.mem_filterMap.mpr ⟨turn, hturn, by rw [hc]; rfl⟩
  exact ⟨turn, hturn, rfl, chooseSlot_eq_none_iff.mp hnone⟩

/-- If every job finds a candidate all of them are placed. -/
theorem length_allocate_of_no_skip {jobs : List PendingJob}
    (h : ∀ turn ∈ jobTurns spp tolerance start slots jobs, candidates turn.slots turn.job ≠ []) :
    (allocateScored spp tolerance start slots jobs).1.length = jobs.length := by
  have hjobs : (jobTurns spp tolerance start slots jobs).map Turn.job = jobs := map_job_jobTurns jobs
  have hlength := congrArg List.length hjobs
  rw [List.length_map] at hlength
  rw [allocateScored_eq_jobTurns, ← hlength, List.filterMap_length_eq_length]
  intro turn hturn
  rw [Option.isSome_map, Option.isSome_iff_ne_none]
  exact mt chooseSlot_eq_none_iff.mp (h turn hturn)

/-- **A job that is left out has no slot that may take it, even after the others took theirs.** -/
theorem left_out {jobs : List PendingJob} (hmem : job ∈ jobs)
    (hleft : job ∉ (allocateScored spp tolerance start slots jobs).1.map Prod.fst)
    (slot : BackendSlot) :
    ¬Open (allocateScored spp tolerance start slots jobs).2 job slot := by
  -- nothing could take it at its turn, and slots only fill up
  obtain ⟨turn, hturn, rfl, hskip⟩ := exists_skip hmem hleft
  intro hopen
  obtain ⟨s, hs⟩ := (later_turn hturn).2.open_before hopen
  exact candidates_eq_nil_iff.mp hskip s hs

/-! ## What is placed -/

/-- The free slots of some backends. -/
def freeSlots (slots : List BackendSlot) : Nat := (slots.map fun slot => slot.free).sum

theorem placed_sublist (jobs : List PendingJob) :
    ((allocateScored spp tolerance start slots jobs).1.map Prod.fst).Sublist jobs := by
  induction jobs generalizing start slots with
  | nil => exact List.Sublist.refl _
  | cons head jobs ih =>
    unfold allocateScored
    split
    · exact ih.cons head
    · exact ih.cons_cons head

theorem placed_serves {jobs : List PendingJob} :
    ∀ a ∈ (allocateScored spp tolerance start slots jobs).1, canServe a.2 a.1 = true := by
  induction jobs generalizing start slots with
  | nil => exact fun a ha => (nomatch ha)
  | cons head jobs ih =>
    unfold allocateScored
    split
    · exact ih
    · next i slot hc =>
      intro a ha
      rcases List.mem_cons.mp ha with rfl | ha
      · exact (candidates_iff.mp (chooseSlot_mem hc)).2.1
      · exact ih a ha

theorem freeSlots_set (job : PendingJob) {i : Nat} {slot : BackendSlot}
    (hi : slots[i]? = some slot) (hfree : 0 < slot.free) :
    freeSlots (slots.set i (slot.assign job)) + 1 = freeSlots slots := by
  have hassign : (slot.assign job).free = slot.free - 1 := by
    unfold BackendSlot.assign
    dsimp only
    split <;> rfl
  induction slots generalizing i with
  | nil => cases hi
  | cons s slots ih =>
    cases i with
    | zero =>
      obtain rfl := Option.some.inj hi
      simp only [freeSlots, List.set_cons_zero, List.map_cons, List.sum_cons, hassign]
      omega
    | succ i =>
      have hrest := ih hi
      simp only [freeSlots, List.set_cons_succ, List.map_cons, List.sum_cons] at hrest ⊢
      omega

/-- Each job that is placed takes one free slot. -/
theorem freeSlots_allocate (jobs : List PendingJob) :
    freeSlots (allocateScored spp tolerance start slots jobs).2 +
      (allocateScored spp tolerance start slots jobs).1.length = freeSlots slots := by
  induction jobs generalizing start slots with
  | nil => rfl
  | cons head jobs ih =>
    unfold allocateScored
    split
    · exact ih
    · next i slot hc =>
      obtain ⟨hi, -, hfree, -⟩ := candidates_iff.mp (chooseSlot_mem hc)
      have hset := freeSlots_set head hi hfree
      have hrest := @ih ((i + 1) % slots.length) (slots.set i (slot.assign head))
      dsimp only
      rw [List.length_cons]
      omega

end Taas

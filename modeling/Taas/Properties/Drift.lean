import Mathlib.Algebra.BigOperators.Group.Finset.Piecewise
import Mathlib.Algebra.BigOperators.Pi
import Mathlib.Algebra.BigOperators.Ring.Finset
import Taas.Infra.Books
import Taas.Properties.Commands
import Taas.Properties.Slots

/-!
# A rebuild among other calls

* `Redis.gap` — how far the backend counters are off the in-flight jobs.
* `SlotCall.books` — each call owes what it moved so far, and pays it before it ends.
-/

namespace Taas

open Infra Infra.Prog

/-! ## The gap -/

/-- What a backend's counters say: its slots in use (`none`), and the pages of each batch. -/
abbrev SlotCounts := BackendId → Option BatchId → Int

def one (b : BackendId) (batchId : Option BatchId) : SlotCounts := fun b' batchId' =>
  if b' = b ∧ batchId' = batchId then 1 else 0

def page (b : BackendId) : Option BatchId → SlotCounts
  | none => 0
  | some batchId => one b (some batchId)

/-- What a job in this slot counts for. -/
def slotCounts : Option (BackendId × Option BatchId) → SlotCounts
  | none => 0
  | some (b, batchId) => one b none + page b batchId

namespace Redis

def counted (r : Redis) : SlotCounts
  | b, none => r.backendInflight.value b
  | b, some batchId => (r.backendBatches b).value batchId

/-- What the counters should say. -/
def occupied (r : Redis) : SlotCounts := ∑ jobId ∈ r.inflight, slotCounts (r.slotOf jobId)

def gap (r : Redis) : SlotCounts := r.counted - r.occupied

end Redis

theorem slotCounts_slots (slot : Option (BackendId × Option BatchId)) (b : BackendId) :
    slotCounts slot b none = if slot.map Prod.fst = some b then 1 else 0 := by
  rcases slot with _ | ⟨b', _ | batchId⟩
  · rfl
  · simp [slotCounts, page, one, eq_comm]
  · simp [slotCounts, page, one, eq_comm]

theorem slotCounts_pages (slot : Option (BackendId × Option BatchId)) (b : BackendId)
    (batchId : BatchId) :
    slotCounts slot b (some batchId) = if slot = some (b, some batchId) then 1 else 0 := by
  rcases slot with _ | ⟨b', _ | batchId'⟩
  · rfl
  · simp [slotCounts, page, one]
  · simp [slotCounts, page, one, eq_comm]

namespace Redis

variable (r : Redis)

theorem slotOf_fst (jobId : JobId) :
    (r.slotOf jobId).map Prod.fst = (r.jobs.lookup jobId).bind fun h => h.backendId := by
  rw [slotOf, Option.map_map]
  exact Option.map_id'

theorem slotOf_eq_some {jobId : JobId} {b : BackendId} {batchId : Option BatchId} :
    r.slotOf jobId = some (b, batchId) ↔
      ((r.jobs.lookup jobId).bind fun h => h.backendId) = some b ∧ r.batchOf jobId = batchId := by
  rw [slotOf, Option.map_eq_some_iff]
  simp

theorem occupied_slots (b : BackendId) : r.occupied b none = (r.jobsOn b).card := by
  simp only [occupied, Finset.sum_apply, slotCounts_slots, slotOf_fst, jobsOn, Finset.card_filter,
    Nat.cast_sum, Nat.cast_ite, Nat.cast_one, Nat.cast_zero]

theorem occupied_pages (b : BackendId) (batchId : BatchId) :
    r.occupied b (some batchId) = (r.pagesOn b batchId).card := by
  simp only [occupied, Finset.sum_apply, slotCounts_pages, slotOf_eq_some, batchOf, pagesOn,
    Finset.card_filter, Nat.cast_sum, Nat.cast_ite, Nat.cast_one, Nat.cast_zero]

theorem rightOn_iff (b : BackendId) : r.RightOn b ↔ r.gap b = 0 := by
  have happly : ∀ x, r.gap b x = 0 ↔ r.counted b x = r.occupied b x := fun x => sub_eq_zero
  rw [funext_iff, Option.forall]
  simp only [Pi.zero_apply, happly, occupied_slots, occupied_pages]
  rfl

theorem right_iff : r.Right ↔ r.gap = 0 := by
  rw [funext_iff]
  exact forall_congr' r.rightOn_iff

end Redis

/-! ## What commands do to the gap -/

namespace Redis

/-- The in-flight jobs and the counters are the same. -/
structure SameSlots (r r' : Redis) : Prop where
  inflight : r'.inflight = r.inflight
  slots : ∀ jobId ∈ r.inflight, r'.slotOf jobId = r.slotOf jobId
  batches : r'.batchOf = r.batchOf
  counted : r'.counted = r.counted

variable {r r' r'' : Redis}

theorem SameSlots.gap (h : r.SameSlots r') : r'.gap = r.gap := by
  rw [Redis.gap, Redis.gap, h.counted, occupied, h.inflight,
    Finset.sum_congr rfl fun jobId hj => congrArg slotCounts (h.slots jobId hj)]
  rfl

theorem SameSlots.trans (h : r.SameSlots r') (h' : r'.SameSlots r'') : r.SameSlots r'' where
  inflight := h'.inflight.trans h.inflight
  slots jobId hj := (h'.slots jobId (h.inflight ▸ hj)).trans (h.slots jobId hj)
  batches := h'.batches.trans h.batches
  counted := h'.counted.trans h.counted

theorem batchOf_of_jobs (hj : r'.jobs = r.jobs) : r'.batchOf = r.batchOf := by
  funext jobId
  rw [batchOf, batchOf, hj]

theorem batchOf_state {jobId : JobId} {s : JobState} (h : r.state jobId = some s) :
    nonEmpty s.batchId = r.batchOf jobId := by
  obtain ⟨raw, hraw, hs⟩ := Option.bind_eq_some_iff.mp h
  rw [batchOf, hraw, Option.bind_some]
  unfold JobState.fromHash at hs
  split at hs
  · rw [← Option.some.inj hs]
    exact nonEmpty_idem _
  · cases hs

/-- Nothing that slots depend on is touched. -/
theorem sameSlots_of_eq (hj : r'.jobs = r.jobs) (hi : r'.inflight = r.inflight)
    (hb : r'.backendInflight = r.backendInflight) (hp : r'.backendBatches = r.backendBatches) :
    r.SameSlots r' where
  inflight := hi
  slots jobId _ := by rw [slotOf, slotOf, batchOf_of_jobs hj, hj]
  batches := batchOf_of_jobs hj
  counted := by
    funext b x
    cases x with
    | none => exact congrArg (fun c => c.value b) hb
    | some batchId => exact congrArg (fun c => (c b).value batchId) hp

variable (r) (j : JobId)

theorem lookup_hset (f : JobHash → JobHash) (k : JobId) :
    (r.hset j f).jobs.lookup k =
      if k = j then some (f ((r.jobs.lookup j).getD {})) else r.jobs.lookup k := by
  split
  · next h => rw [h]; exact Finmap.lookup_insert _
  · next h => exact Finmap.lookup_insert_of_ne _ h

/-- A write that keeps the batch, and the backend if the job is in flight. -/
theorem sameSlots_hset {f : JobHash → JobHash} (hf : ∀ h, (f h).batchId = h.batchId)
    (hb : j ∈ r.inflight → (f ((r.jobs.lookup j).getD {})).backendId =
      (r.jobs.lookup j).bind fun h => h.backendId) : r.SameSlots (r.hset j f) := by
  have hbatch : ∀ k, (r.hset j f).batchOf k = r.batchOf k := by
    intro k
    rw [batchOf, batchOf, lookup_hset]
    split
    · next hk =>
      subst hk
      rw [Option.bind_some, hf]
      cases r.jobs.lookup k <;> rfl
    · rfl
  refine ⟨rfl, fun k hk => ?_, funext hbatch, rfl⟩
  rw [slotOf, slotOf, hbatch, lookup_hset]
  split
  · next he =>
    subst he
    rw [Option.bind_some, hb hk]
  · rfl

theorem sameSlots_hmod {f : JobHash → JobHash} (hf : ∀ h, (f h).batchId = h.batchId)
    (hb : j ∈ r.inflight → ∀ h, r.jobs.lookup j = some h → (f h).backendId = h.backendId) :
    r.SameSlots (r.hmod j f) := by
  cases hl : r.jobs.lookup j with
  | none =>
    rw [hmod, hl]
    exact sameSlots_of_eq rfl rfl rfl rfl
  | some h =>
    have hset : r.hmod j f = r.hset j f := by
      rw [hmod, hset, hl]
      rfl
    rw [hset]
    refine r.sameSlots_hset j hf fun hj => ?_
    rw [hl]
    exact hb hj h hl

variable {j}

theorem gap_saddInflight (h : j ∉ r.inflight) :
    (r.saddInflight j).gap = r.gap - slotCounts (r.slotOf j) := by
  have hocc : (r.saddInflight j).occupied = slotCounts (r.slotOf j) + r.occupied :=
    Finset.sum_insert h
  rw [gap, gap, hocc, sub_sub, add_comm (slotCounts _)]
  rfl

theorem gap_sremInflight (h : j ∈ r.inflight) :
    (r.sremInflight j).gap = r.gap + slotCounts (r.slotOf j) := by
  have hocc : r.occupied = slotCounts (r.slotOf j) + (r.sremInflight j).occupied :=
    (Finset.add_sum_erase _ _ h).symm
  rw [gap, gap, hocc, sub_add_eq_sub_sub, sub_right_comm, sub_add_cancel]
  rfl

theorem gap_incrBackend (b : BackendId) (d : Int) :
    (r.incrBackend b d).gap = r.gap + d • one b none := by
  have hcounted : (r.incrBackend b d).counted = r.counted + d • one b none := by
    funext b' x
    cases x with
    | none => simp [counted, incrBackend, one]
    | some batchId => simp [counted, incrBackend, one]
  rw [gap, hcounted, add_sub_right_comm]
  rfl

theorem gap_incrBatchPages (b : BackendId) (batchId : BatchId) (d : Int) :
    (r.incrBatchPages b batchId d).gap = r.gap + d • one b (some batchId) := by
  have hcounted : (r.incrBatchPages b batchId d).counted =
      r.counted + d • one b (some batchId) := by
    funext b' x
    cases x with
    | none => simp [counted, incrBatchPages, one]
    | some batchId' =>
      by_cases hb : b' = b
      · subst hb
        simp [counted, incrBatchPages, one]
      · simp [counted, incrBatchPages, one, hb]
  rw [gap, hcounted, add_sub_right_comm]
  rfl

/-- A field deleted at zero. -/
theorem gap_hdelBatchPages {b : BackendId} {batchId : BatchId}
    (h : (r.backendBatches b).value batchId = 0) : (r.hdelBatchPages b batchId).gap = r.gap := by
  have hcounted : (r.hdelBatchPages b batchId).counted = r.counted := by
    funext b' x
    cases x with
    | none => rfl
    | some batchId' =>
      by_cases hb : b' = b
      · subst hb
        by_cases hx : batchId' = batchId
        · subst hx
          rw [counted, counted, h]
          simp [hdelBatchPages, Counter.value]
        · simp [counted, hdelBatchPages, Counter.value, Finmap.lookup_erase_ne hx]
      · simp [counted, hdelBatchPages, hb]
  rw [gap, hcounted]
  rfl

theorem gap_countRunning (b : BackendId) (state : Option JobState) :
    (r.countRunning b state).gap =
      r.gap + slotCounts (some (b, state.bind fun s => nonEmpty s.batchId)) := by
  have hloads : ∀ field, ((r.incrBackend b 1).incrLoadQueued field (-1) |>.incrLoadInflight field
      1).gap = r.gap + one b none := by
    intro field
    rw [← one_zsmul (one b none), ← gap_incrBackend]
    rfl
  unfold countRunning
  cases state with
  | none =>
    rw [gap_incrBackend, one_zsmul]
    exact congrArg (r.gap + ·) (add_zero _).symm
  | some s =>
    dsimp only
    rw [Option.bind_some]
    cases nonEmpty s.batchId with
    | none =>
      rw [hloads]
      exact congrArg (r.gap + ·) (add_zero _).symm
    | some batchId =>
      dsimp only
      rw [gap_incrBatchPages, hloads, one_zsmul, add_assoc]
      rfl

/-- The counters of the script of `release_done`, in which a page is dropped at zero. -/
theorem gap_countReleased (state : JobState)
    (h : ∀ b batchId, releasedSlot state = some (b, some batchId) →
      1 ≤ (r.backendBatches b).value batchId) :
    (r.countReleased state).gap = r.gap - slotCounts (releasedSlot state) := by
  unfold countReleased releasedSlot at *
  cases hb : state.backendId with
  | none => exact (sub_zero _).symm
  | some b =>
    rw [hb] at h
    have hbackend : ((r.incrLoadInflight (jobLoadField state) (-1)).incrBackend b (-1)).gap =
        r.gap - one b none := by
      rw [sub_eq_add_neg, ← neg_one_zsmul (one b none), ← gap_incrBackend]
      rfl
    rw [Option.map_some] at h ⊢
    dsimp only
    cases hbatch : nonEmpty state.batchId with
    | none =>
      rw [hbackend]
      exact congrArg (r.gap - ·) (add_zero _).symm
    | some batchId =>
      have hpages : (((r.incrLoadInflight (jobLoadField state) (-1)).incrBackend b
          (-1)).incrBatchPages b batchId (-1)).gap =
            r.gap - slotCounts (some (b, some batchId)) := by
        rw [gap_incrBatchPages, hbackend, neg_one_zsmul, ← sub_eq_add_neg, sub_sub]
        rfl
      dsimp only
      split
      · next hle =>
        rw [gap_hdelBatchPages, hpages]
        have hone := h b batchId (by rw [hbatch])
        simp [incrBatchPages, incrBackend, incrLoadInflight] at hle ⊢
        omega
      · exact hpages

theorem gap_releaseDone {now : ℚ} {state : JobState} {engineRun : EngineRun}
    (h : SlotStep.Clean r (.release j state)) :
    (r.releaseDone now j state engineRun).gap = r.gap := by
  unfold releaseDone
  split
  · next hj =>
    obtain ⟨hslot, hpages⟩ := h hj
    have hharvest : (r.sremInflight j).SameSlots ((r.sremInflight j).zaddHarvest j now) :=
      sameSlots_of_eq rfl rfl rfl rfl
    have hsame := hharvest.trans (sameSlots_hmod ((r.sremInflight j).zaddHarvest j now) j
      (f := JobHash.storing engineRun) (fun _ => rfl) fun _ _ _ => rfl)
    rw [gap_countReleased, hsame.gap, gap_sremInflight _ hj, hslot, add_sub_cancel_right]
    intro b batchId hreleased
    rw [← hslot] at hreleased
    have hvalue := congrFun (congrFun hsame.counted b) (some batchId)
    exact (hpages b batchId hreleased).trans hvalue.ge
  · rfl

theorem batchOf_releaseDone (now : ℚ) (j : JobId) (state : JobState) (engineRun : EngineRun) :
    (r.releaseDone now j state engineRun).batchOf = r.batchOf := by
  unfold releaseDone
  split
  · have hmod := (((r.sremInflight j).zaddHarvest j now).sameSlots_hmod j
      (f := JobHash.storing engineRun) (fun _ => rfl) fun _ _ _ => rfl).batches
    rw [batchOf_of_jobs (jobs_countReleased state _), hmod]
    exact batchOf_of_jobs rfl
  · rfl

/-- The script of a rebuild closes the gap on the backends that it recounts. -/
theorem gap_rebuild (ids : List BackendId) (b : BackendId) : (r.rebuild ids).2.gap b =
    if b ∈ ids ∨ (r.jobsOn b).Nonempty then 0 else r.gap b := by
  obtain ⟨t, bs, hcount, hbatches, -, hmem, -, hdone⟩ := r.recounted_rebuild ids
  have hocc : (r.rebuild ids).2.occupied = r.occupied :=
    (congrArg occupied hdone.frame : _)
  have hinflight := hdone.inflight b
  have hpages := hdone.batches b
  rw [gap, Pi.sub_apply, hocc]
  by_cases hb : b ∈ ids ∨ (r.jobsOn b).Nonempty
  · rw [if_pos ((hmem b).mpr hb)] at hinflight hpages
    rw [if_pos hb, sub_eq_zero]
    funext x
    cases x with
    | none =>
      rw [occupied_slots, ← hcount]
      exact congrArg (fun n => n.getD 0) hinflight
    | some batchId =>
      rw [occupied_pages, ← value_pages_tallyBackends, ← hbatches]
      exact congrArg (fun c => c.value batchId) hpages
  · rw [if_neg (mt (hmem b).mp hb)] at hinflight hpages
    rw [if_neg hb, gap, Pi.sub_apply, sub_left_inj]
    funext x
    cases x with
    | none => exact congrArg (fun n => n.getD 0) hinflight
    | some batchId => exact congrArg (fun c => c.value batchId) hpages

theorem batchOf_rebuild (ids : List BackendId) : (r.rebuild ids).2.batchOf = r.batchOf := by
  obtain ⟨t, bs, -, -, -, -, -, hdone⟩ := r.recounted_rebuild ids
  exact batchOf_of_jobs (congrArg jobs hdone.frame : _)

/-- A write that touches neither the backend nor the batch. -/
theorem sameSlots_hset_of_keeps {f : JobHash → JobHash} (hf : ∀ h, (f h).batchId = h.batchId)
    (hb : ∀ h, (f h).backendId = h.backendId) : r.SameSlots (r.hset j f) := by
  refine r.sameSlots_hset j hf fun _ => ?_
  rw [hb]
  cases r.jobs.lookup j <;> rfl

theorem sameSlots_markFailed (now : ℚ) (j : JobId) (error : String) (stateTtl : Nat) :
    r.SameSlots (r.markFailed now j error stateTtl) := by
  have hset := r.sameSlots_hset_of_keeps (j := j) (f := JobHash.failed now error) (fun _ => rfl)
    fun _ => rfl
  have hexpire := (r.hset j (JobHash.failed now error)).sameSlots_hmod j
    (f := JobHash.expiring stateTtl) (fun _ => rfl) fun _ _ _ => rfl
  set r' := (r.hset j (JobHash.failed now error)).expire j stateTtl
  have hharvest : r'.SameSlots (r'.zremHarvest j) := sameSlots_of_eq rfl rfl rfl rfl
  have hclear := (r'.zremHarvest j).sameSlots_hmod j (f := JobHash.clearHarvest) (fun _ => rfl)
    fun _ _ _ => rfl
  exact (hset.trans hexpire).trans (hharvest.trans hclear)

end Redis

/-! ## What the calls owe -/

/-- The books of the slots: what the jobs' batches are does not change. -/
def slotAccount (batchOf : JobId → Option BatchId) : Account Redis SlotStep SlotCounts where
  inv r := r.batchOf = batchOf
  allowed r steps := ∀ step ∈ steps, SlotStep.Clean r step
  gap := Redis.gap

/-- The command moves no slot. -/
def Slotless {δ : Type} (effect : Redis → Redis) (_ : Redis → List δ) : Prop :=
  ∀ r : Redis, r.SameSlots (effect r)

section

variable {δ α : Type}

theorem slotless_of_eq {reply : Redis → α} {effect : Redis → Redis}
    (h : ∀ r, (effect r).jobs = r.jobs ∧ (effect r).inflight = r.inflight ∧
      (effect r).backendInflight = r.backendInflight ∧
        (effect r).backendBatches = r.backendBatches) :
    Each Slotless (call reply effect : Prog Redis δ α) :=
  each_call fun r => Redis.sameSlots_of_eq (h r).1 (h r).2.1 (h r).2.2.1 (h r).2.2.2

theorem slotless_getJob (j : JobId) : Each Slotless (getJob j) :=
  slotless_of_eq fun _ => ⟨rfl, rfl, rfl, rfl⟩

theorem slotless_doneState (j : JobId) (state : Option JobState) :
    Each Slotless (doneState j state) := by
  unfold doneState
  split
  · exact slotless_getJob j
  · exact each_pure _

theorem slotless_countBatchPage (state : Option JobState) (status : JobStatus) :
    Each Slotless (countBatchPage state status) := by
  unfold countBatchPage
  split
  · exact each_pure _
  · split
    · exact each_pure _
    · split
      · exact each_pure _
      · exact Each.map _ (slotless_of_eq fun _ => ⟨rfl, rfl, rfl, rfl⟩)

theorem slotless_hset (j : JobId) (f : JobHash → JobHash) (hf : ∀ h, (f h).batchId = h.batchId)
    (hb : ∀ h, (f h).backendId = h.backendId) :
    Each Slotless (act (Redis.hset j f) : Prog Redis δ Unit) :=
  each_call fun r => r.sameSlots_hset_of_keeps hf hb

theorem slotless_hmod (j : JobId) (f : JobHash → JobHash) (hf : ∀ h, (f h).batchId = h.batchId)
    (hb : ∀ h, (f h).backendId = h.backendId) :
    Each Slotless (act (Redis.hmod j f) : Prog Redis δ Unit) :=
  each_call fun r => r.sameSlots_hmod j hf fun _ h _ => hb h

theorem slotless_expire (j : JobId) (stateTtl : Nat) :
    Each Slotless (act (Redis.expire j stateTtl) : Prog Redis δ Unit) :=
  slotless_hmod j (JobHash.expiring stateTtl) (fun _ => rfl) fun _ => rfl

theorem slotless_signalPoll : Each Slotless signalPoll :=
  slotless_of_eq fun _ => ⟨rfl, rfl, rfl, rfl⟩

theorem slotless_signalSubmit : Each Slotless signalSubmit :=
  slotless_of_eq fun _ => ⟨rfl, rfl, rfl, rfl⟩

theorem slotless_countFailed (removed : Bool) (state : Option JobState) :
    Each Slotless (countFailed removed state) := by
  unfold countFailed
  split
  · exact each_pure _
  · split
    · exact slotless_of_eq fun _ => ⟨rfl, rfl, rfl, rfl⟩
    · exact Each.when (slotless_of_eq fun _ => ⟨rfl, rfl, rfl, rfl⟩)

theorem slotless_countRequeued (removed : Bool) (state : Option JobState) :
    Each Slotless (countRequeued removed state) := by
  unfold countRequeued
  split
  · exact each_pure _
  · exact Each.when (slotless_of_eq fun _ => ⟨rfl, rfl, rfl, rfl⟩)

theorem slotless_requeueReleased (now : ℚ) (j : JobId) (score delayS : ℚ)
    (avoid : Option BackendId) (state : Option JobState) :
    Each Slotless (requeueReleased now j score delayS avoid state) := by
  unfold requeueReleased
  split
  · refine Each.bind (each_call fun r => r.sameSlots_hset_of_keeps (fun _ => rfl) fun _ => rfl)
      fun _ => Each.bind ?_ fun _ => slotless_of_eq fun _ => ⟨rfl, rfl, rfl, rfl⟩
    cases avoid with
    | none => exact each_pure _
    | some b =>
      exact Each.bind (slotless_of_eq fun _ => ⟨rfl, rfl, rfl, rfl⟩) fun _ =>
        each_call fun r => r.sameSlots_hset_of_keeps (fun _ => rfl) fun _ => rfl
  · exact Each.bind (each_callLog fun r => Redis.sameSlots_of_eq rfl rfl rfl rfl) fun _ =>
      Each.bind (slotless_of_eq fun _ => ⟨rfl, rfl, rfl, rfl⟩) fun _ => slotless_signalSubmit

end

namespace SlotProg

variable {α : Type} {batchOf : JobId → Option BatchId} {d : SlotCounts}

theorem books_slotless {p : SlotProg α} (hp : p.Each Slotless) (d : SlotCounts) :
    p.Books (slotAccount batchOf) d fun _ d' => d' = d :=
  books_of_each (fun _ _ h r hr => ⟨(h r).batches.trans hr, (h r).gap⟩) hp d

theorem books_silent {p : RedisProg α} (hp : p.Each Slotless) (d : SlotCounts) :
    (p.silent : SlotProg α).Books (slotAccount batchOf) d fun _ d' => d' = d :=
  books_slotless (hp.silent fun _ _ h => h) d

/-- A command that moves a counter by itself. -/
theorem books_counter {reply : Redis → α} {effect : Redis → Redis} {δ : SlotCounts}
    (hg : ∀ r, (effect r).gap = r.gap + δ) (hb : ∀ r, (effect r).batchOf = r.batchOf)
    (d : SlotCounts) :
    (call reply effect : SlotProg α).Books (slotAccount batchOf) (d + δ) fun _ d' => d' = d :=
  books_callLog fun r hr _ => ⟨(hb r).trans hr, d, by
    change (effect r).gap + d = r.gap + (d + δ)
    rw [hg, add_assoc, add_comm δ], rfl⟩

theorem books_takeOff (j : JobId) (state : Option JobState) (d : SlotCounts) :
    (Noted.takeOff j state).Books (slotAccount batchOf) d fun removed d' =>
      d' = if removed then d - slotCounts (leftSlot state) else d := by
  refine books_callLog fun r hr hclean => ⟨hr, ?_⟩
  change ∃ d', (r.sremInflight j).gap + d' = r.gap + d ∧ _
  by_cases hj : j ∈ r.inflight
  · have hslot := hclean _ (List.mem_singleton_self _) hj
    refine ⟨d - slotCounts (leftSlot state), ?_, by simp [hj]⟩
    rw [Redis.gap_sremInflight r hj, hslot, add_add_sub_cancel]
  · have hsame : r.sremInflight j = r := by rw [Redis.sremInflight, Finset.erase_eq_of_notMem hj]
    exact ⟨d, by rw [hsame], by simp [hj]⟩

theorem books_releaseBatch (b : BackendId) (state : Option JobState) (d : SlotCounts) :
    (Noted.releaseBatch b state).Books (slotAccount batchOf)
      (d - page b (state.bind fun s => s.batchId)) fun _ d' => d' = d := by
  unfold Noted.releaseBatch
  cases state.bind fun s => s.batchId with
  | none => exact books_pure (sub_zero d)
  | some batchId =>
    have hpage : d - page b (some batchId) = d + (-1 : Int) • one b (some batchId) := by
      rw [neg_one_zsmul, ← sub_eq_add_neg]
      rfl
    rw [hpage]
    refine (books_counter (fun r => r.gap_incrBatchPages b batchId (-1)) (fun _ => rfl) d).seq
      fun left => ?_
    unfold Prog.when
    split
    · refine books_callLog fun r hr hclean => ⟨hr, d, ?_, rfl⟩
      have hzero := hclean _ (List.mem_singleton_self _)
      exact congrArg (· + d) (Redis.gap_hdelBatchPages r hzero)
    · exact books_pure rfl

/-- The backend's part of giving up a slot, with what stands between its two counters. -/
theorem books_slot {p : SlotProg Unit} (hp : p.Each Slotless) (b : BackendId)
    (state : Option JobState) (d : SlotCounts) :
    (do
      act (Redis.incrBackend b (-1))
      p
      Noted.releaseBatch b state : SlotProg Unit).Books (slotAccount batchOf)
        (d - slotCounts (some (b, state.bind fun s => s.batchId))) fun _ d' => d' = d := by
  have hplace : d - slotCounts (some (b, state.bind fun s => s.batchId)) =
      d - page b (state.bind fun s => s.batchId) + (-1 : Int) • one b none := by
    rw [neg_one_zsmul, ← sub_eq_add_neg, sub_sub, add_comm (page _ _)]
    rfl
  rw [hplace]
  refine (books_counter (fun r => r.gap_incrBackend b (-1)) (fun _ => rfl) _).seq fun _ => ?_
  refine (books_slotless hp _).seq fun _ => ?_
  exact books_releaseBatch b state d

theorem books_releaseDoneSlot (state : Option JobState) (d : SlotCounts) :
    (Noted.releaseDoneSlot state).Books (slotAccount batchOf) (d - slotCounts (leftSlot state))
      fun _ d' => d' = d := by
  have hsignal : (signalSubmit.silent : SlotProg Unit).Each Slotless :=
    slotless_signalSubmit.silent fun _ _ h => h
  unfold Noted.releaseDoneSlot leftSlot
  cases state with
  | none =>
    cases truthy (none.bind fun s : JobState => s.backendId) with
    | none => exact books_pure (sub_zero d)
    | some b => exact books_slot hsignal b none d
  | some s =>
    have hload : Each Slotless
        (act (Redis.incrLoadInflight (jobLoadField s) (-1)) : SlotProg Unit) :=
      slotless_of_eq fun _ => ⟨rfl, rfl, rfl, rfl⟩
    refine (books_slotless hload _).seq fun _ => ?_
    cases truthy ((some s).bind fun s => s.backendId) with
    | none => exact books_pure (sub_zero d)
    | some b => exact books_slot hsignal b (some s) d

theorem books_settleDone (removed harvestRemoved : Bool) (state : Option JobState)
    (d : SlotCounts) : (Noted.settleDone removed harvestRemoved state).Books (slotAccount batchOf)
      (if removed then d - slotCounts (leftSlot state) else d) fun _ d' => d' = d := by
  unfold Noted.settleDone
  cases removed with
  | false => exact books_slotless (slotless_signalSubmit.silent fun _ _ h => h).when d
  | true => exact books_releaseDoneSlot state d

theorem books_releaseSlot (removed : Bool) (state : Option JobState) (d : SlotCounts) :
    (Noted.releaseSlot removed state).Books (slotAccount batchOf)
      (if removed then d - slotCounts (leftSlot state) else d) fun _ d' => d' = d := by
  unfold Noted.releaseSlot leftSlot
  cases truthy (state.bind fun s => s.backendId) with
  | none =>
    refine books_pure ?_
    split
    · exact sub_zero d
    · rfl
  | some b =>
    cases removed with
    | false => exact books_pure rfl
    | true => exact books_slot (each_pure ()) b state d

theorem books_setRunning (settings : Settings) (now : ℚ) (j : JobId)
    (engineJobId backendUrl : String) (b : BackendId) (stateTtl : Nat) (d : SlotCounts) :
    (Noted.setRunning settings now j engineJobId backendUrl b stateTtl).Books
      (slotAccount batchOf) d fun _ d' => d' = d := by
  have hdispatch : (noting (.dispatch j b) (fun _ => ()) (Redis.hset j
      (JobHash.running now settings engineJobId backendUrl b))).Books (slotAccount batchOf) d
        fun _ d' => d' = d := by
    refine books_callLog fun r hr hclean => ?_
    have hsame := r.sameSlots_hset j
      (f := JobHash.running now settings engineJobId backendUrl b) (fun _ => rfl) fun hj =>
        ((r.slotOf_eq_some.mp (hclean _ (List.mem_singleton_self _) hj)).1).symm
    exact ⟨hsame.batches.trans hr, d, congrArg (· + d) hsame.gap, rfl⟩
  have henter : (noting (.enter j b) (fun r => decide (j ∉ r.inflight))
      (Redis.saddInflight j)).Books (slotAccount batchOf) d fun added d' =>
        d' = if added then d + slotCounts (some (b, batchOf j)) else d := by
    refine books_callLog fun r hr hclean => ⟨hr, ?_⟩
    change ∃ d', (r.saddInflight j).gap + d' = r.gap + d ∧ _
    by_cases hj : j ∈ r.inflight
    · have hsame : r.saddInflight j = r := by
        rw [Redis.saddInflight, Finset.insert_eq_of_mem hj]
      exact ⟨d, by rw [hsame], by simp [hj]⟩
    · have hslot := hclean _ (List.mem_singleton_self _) hj
      have hbatch : r.batchOf = batchOf := hr
      refine ⟨d + slotCounts (some (b, batchOf j)), ?_, by simp [hj]⟩
      rw [Redis.gap_saddInflight r hj, hslot, hbatch, sub_add_add_cancel]
  have hcount : (noting (.count j) (fun r => r.state j) id).Books (slotAccount batchOf)
      (d + slotCounts (some (b, batchOf j))) fun state d' =>
        d' = d + slotCounts (some (b, state.bind fun s => nonEmpty s.batchId)) := by
    refine books_callLog fun r hr hclean => ⟨hr, _, rfl, ?_⟩
    have hbatch : r.batchOf = batchOf := hr
    rw [← hbatch]
    cases hs : r.state j with
    | none =>
      have hnone := (hclean _ (List.mem_singleton_self _)).resolve_right (by simp [hs])
      rw [hnone]
      rfl
    | some s => rw [Option.bind_some, Redis.batchOf_state hs]
  refine hdispatch.seq fun _ => ?_
  refine (books_slotless (slotless_expire j stateTtl) _).seq fun _ => ?_
  refine henter.seq fun added => ?_
  refine Books.bind (P := fun _ d' => d' = d) ?_ fun _ d' hd => ?_
  · cases added with
    | false => exact books_pure rfl
    | true =>
      refine hcount.seq fun state => ?_
      exact books_counter (fun r => r.gap_countRunning b state)
        (fun r => Redis.batchOf_of_jobs (Redis.jobs_countRunning b state r)) d
  · rw [hd]
    exact books_silent slotless_signalPoll _

theorem books_setDone (now : ℚ) (j : JobId) (stateTtl : Nat) (state : Option JobState)
    (d : SlotCounts) : (Noted.setDone now j stateTtl state).Books (slotAccount batchOf) d
      fun _ d' => d' = d := by
  refine (books_silent (slotless_doneState j state) d).seq fun state => ?_
  refine (books_silent (slotless_countBatchPage state .done) d).seq fun batch => ?_
  refine (books_slotless (slotless_hset j (JobHash.finished now) (fun _ => rfl) fun _ => rfl)
    d).seq fun _ => ?_
  refine (books_slotless (slotless_expire j stateTtl) d).seq fun _ => ?_
  refine (books_takeOff j state d).seq fun removed => ?_
  refine (books_slotless (slotless_of_eq fun _ => ⟨rfl, rfl, rfl, rfl⟩) _).seq
    fun harvestRemoved => ?_
  refine (books_slotless (slotless_hmod j JobHash.clearHarvest (fun _ => rfl) fun _ => rfl)
    _).seq fun _ => ?_
  exact (books_settleDone removed harvestRemoved state d).seq fun _ => books_pure rfl

theorem books_setFailed (now : ℚ) (j : JobId) (error : String) (stateTtl : Nat)
    (d : SlotCounts) : (Noted.setFailed now j error stateTtl).Books (slotAccount batchOf) d
      fun _ d' => d' = d := by
  refine (books_silent (slotless_getJob j) d).seq fun state => ?_
  refine (books_silent (slotless_countBatchPage state .failed) d).seq fun batch => ?_
  refine (books_slotless (each_call fun r => r.sameSlots_markFailed now j error stateTtl) d).seq
    fun harvestRemoved => ?_
  refine (books_takeOff j state d).seq fun removed => ?_
  refine (books_silent (slotless_countFailed removed state) _).seq fun _ => ?_
  refine (books_slotless (slotless_signalSubmit.silent fun _ _ h => h).when _).seq fun _ => ?_
  refine (books_releaseSlot removed state d).seq fun _ => ?_
  refine (books_slotless (slotless_signalSubmit.silent fun _ _ h => h).when d).seq
    fun _ => books_pure rfl

theorem books_releaseDone (now : ℚ) (j : JobId) (state : JobState) (engineRun : EngineRun)
    (d : SlotCounts) : (Noted.releaseDone now j state engineRun).Books (slotAccount batchOf) d
      fun _ d' => d' = d := by
  have hscript : (noting (.release j state) (fun r => decide (j ∈ r.inflight))
      (Redis.releaseDone now j state engineRun)).Books (slotAccount batchOf) d
        fun _ d' => d' = d :=
    books_callLog fun r hr hclean => ⟨(r.batchOf_releaseDone now j state engineRun).trans hr, d,
      congrArg (· + d) (r.gap_releaseDone (hclean _ (List.mem_singleton_self _))), rfl⟩
  refine hscript.seq fun released => ?_
  exact (books_slotless (slotless_signalSubmit.silent fun _ _ h => h).when d).seq
    fun _ => books_pure rfl

theorem books_releaseAndRequeue (now : ℚ) (j : JobId) (score : ℚ) (stateTtl : Nat) (delayS : ℚ)
    (avoid : Option BackendId) (d : SlotCounts) :
    (Noted.releaseAndRequeue now j score stateTtl delayS avoid).Books (slotAccount batchOf) d
      fun _ d' => d' = d := by
  have hclear : (noting (.clear j) (fun _ => ()) (Redis.hmod j JobHash.clearDispatch)).Books
      (slotAccount batchOf) d fun _ d' => d' = d := by
    refine books_callLog fun r hr hclean => ?_
    have hsame := r.sameSlots_hmod j (f := JobHash.clearDispatch) (fun _ => rfl) fun hj h hl => by
      have hnone := congrArg (Option.map Prod.fst) (hclean _ (List.mem_singleton_self _) hj)
      rw [r.slotOf_fst, hl] at hnone
      exact hnone.symm
    exact ⟨hsame.batches.trans hr, d, congrArg (· + d) hsame.gap, rfl⟩
  refine (books_silent (slotless_getJob j) d).seq fun state => ?_
  refine (books_takeOff j state d).seq fun removed => ?_
  refine (books_silent (slotless_countRequeued removed state) _).seq fun _ => ?_
  refine (books_releaseSlot removed state d).seq fun _ => ?_
  refine (books_slotless (slotless_hset j JobHash.queued (fun _ => rfl) fun _ => rfl) d).seq
    fun _ => ?_
  refine hclear.seq fun _ => ?_
  refine (books_slotless (slotless_of_eq fun _ => ⟨rfl, rfl, rfl, rfl⟩) d).seq fun _ => ?_
  refine (books_slotless (slotless_expire j stateTtl) d).seq fun _ => ?_
  exact books_silent (slotless_requeueReleased now j score delayS avoid state) d

theorem books_rebuildBackendCounters (d : SlotCounts) :
    Noted.rebuildBackendCounters.Books (slotAccount batchOf) d fun _ d' => d' = d := by
  refine (books_slotless (slotless_of_eq fun _ => ⟨rfl, rfl, rfl, rfl⟩) d).seq fun ids => ?_
  refine books_callLog fun r hr hclean => ?_
  have hright := hclean _ (List.mem_singleton_self _)
  have hgap : (r.rebuild ids).2.gap = r.gap := by
    funext b
    rw [r.gap_rebuild ids b]
    split
    · next hb => exact ((r.rightOn_iff b).mp (hright b hb)).symm
    · rfl
  exact ⟨(r.batchOf_rebuild ids).trans hr, d, congrArg (· + d) hgap, rfl⟩

end SlotProg

/-- **Each call pays what it owes.** -/
theorem SlotCall.books (call : SlotCall) (batchOf : JobId → Option BatchId) :
    call.noted.Books (slotAccount batchOf) 0 fun _ d => d = 0 := by
  cases call with
  | setRunning settings now j engineJobId backendUrl b stateTtl =>
    exact SlotProg.books_setRunning settings now j engineJobId backendUrl b stateTtl 0
  | setDone now j stateTtl state =>
    exact (SlotProg.books_setDone now j stateTtl state 0).map fun _ _ h => h
  | setFailed now j error stateTtl =>
    exact (SlotProg.books_setFailed now j error stateTtl 0).map fun _ _ h => h
  | releaseDone now j state engineRun =>
    exact (SlotProg.books_releaseDone now j state engineRun 0).map fun _ _ h => h
  | releaseAndRequeue now j score stateTtl delayS avoid =>
    exact SlotProg.books_releaseAndRequeue now j score stateTtl delayS avoid 0
  | rebuildBackendCounters =>
    exact (SlotProg.books_rebuildBackendCounters 0).map fun _ _ h => h

/-! ## Calls and rebuilds together -/

section

variable {ι : Type} [DecidableEq ι]

/-- Any number of calls on one Redis. -/
def slotCallers (r : Redis) (calls : ι → SlotCall) : Pool Redis Event ι where
  shared := r
  procs i := some (calls i).prog
  history := []

/-- The same, with notes. -/
def notedCallers (r : Redis) (calls : ι → SlotCall) : Pool Redis SlotStep ι where
  shared := r
  procs i := some (calls i).noted
  history := []

/-- In the interleaving `l` every command is executed in a store in which it is clean. -/
def CleanRun (r : Redis) (calls : ι → SlotCall) (l : List ι) : Prop :=
  Obeys Pool.advance (fun p i => ∀ step ∈ p.nextLog i, SlotStep.Clean p.shared step)
    (notedCallers r calls) l

omit [DecidableEq ι] in
theorem alike_callers (r : Redis) (calls : ι → SlotCall) :
    (slotCallers r calls).Alike (notedCallers r calls) :=
  ⟨rfl, fun i => congrArg some (calls i).silent_noted.symm⟩

/-- **Calls and rebuilds whose commands are all clean leave the counters right.** -/
theorem rebuilds_without_drift [Fintype ι] {r : Redis} {calls : ι → SlotCall} {l : List ι}
    {q : Pool Redis Event ι} (hright : r.Right) (hclean : CleanRun r calls l)
    (hq : (slotCallers r calls).schedule l = some q) (hend : ∀ i, q.ended i = true) :
    q.shared.Right := by
  obtain ⟨q', hq', halike⟩ := (alike_callers r calls).schedule hq
  have hstart : (notedCallers r calls).Closing (slotAccount r.batchOf) r.gap :=
    Pool.closing_start rfl fun i => ⟨_, rfl, (calls i).books r.batchOf⟩
  have hgap := (hstart.schedule hq' hclean).gap_of_ended fun i => halike.ended (hend i)
  rw [Redis.right_iff, halike.shared]
  exact hgap.trans (r.right_iff.mp hright)

end

/-- A store with one job, in flight on a backend. -/
theorem right_of_single {r : Redis} {j : JobId} {b : BackendId} (hi : r.inflight = {j})
    (hs : r.slotOf j = some (b, none)) (hb : r.backendInflight = Counter.incrBy ∅ b 1)
    (hp : r.backendBatches = fun _ => ∅) : r.Right := by
  have hcounted : r.counted = one b none := by
    funext b' x
    cases x with
    | none => simp [Redis.counted, hb, one]
    | some batchId => simp [Redis.counted, hp, one]
  rw [Redis.right_iff, Redis.gap, hcounted, Redis.occupied, hi, Finset.sum_singleton, hs]
  exact sub_eq_zero.mpr (add_zero _).symm

/-- Job 1 was enqueued, claimed and dispatched to backend 7. -/
def sampleDispatched : Redis :=
  (run (do
    enqueueJobs [(1, { username := "u", fmt := "alto", outputs := {"alto"}, submittedAt := 0 })] 60
    let _ ← claimPending 1 [⟨1, 0, 0⟩]
    setRunning {} 2 1 "e" "http://e" 7 60) {}).2

theorem sampleDispatched_right : sampleDispatched.Right :=
  right_of_single (j := 1) (b := 7) rfl rfl rfl rfl

/-- A rebuild, and a job that is done. -/
def sampleSettling : Bool → SlotCall
  | true => .setDone 3 1 60 none
  | false => .rebuildBackendCounters

/-- The rebuild lands between the two steps of `set_done`: it does not count the job any more, and
`set_done` counts it down after that. -/
theorem rebuild_drifts : sampleDispatched.Right ∧ ∃ l q,
    (slotCallers sampleDispatched sampleSettling).schedule l = some q ∧
      (∀ i, q.ended i = true) ∧ q.shared.inflight = ∅ ∧ q.shared.backendInflight.value 7 = -1 ∧
        ¬q.shared.Right := by
  refine ⟨sampleDispatched_right,
    List.replicate 4 true ++ [false, false] ++ List.replicate 5 true, ?_⟩
  have hrun : ((slotCallers sampleDispatched sampleSettling).schedule
      (List.replicate 4 true ++ [false, false] ++ List.replicate 5 true)).any (fun q =>
        q.ended true && q.ended false && decide (q.shared.inflight = ∅) &&
          decide (q.shared.backendInflight.value 7 = -1)) = true := by
    decide +kernel
  obtain ⟨q, hq, hP⟩ := (Option.any_eq_true ..).mp hrun
  simp only [Bool.and_eq_true, decide_eq_true_eq] at hP
  obtain ⟨⟨⟨htrue, hfalse⟩, hnone⟩, hvalue⟩ := hP
  refine ⟨q, hq, Bool.forall_bool.mpr ⟨hfalse, htrue⟩, hnone, hvalue, fun hright => ?_⟩
  have hcount := (hright 7).1
  omega

/-- A check of the notes of `set_done`. -/
def leavesCleanly (r : Redis) (steps : List SlotStep) : Bool :=
  steps.all fun step => match step with
    | .leave jobId state => decide (r.slotOf jobId = leftSlot state)
    | _ => false

theorem clean_of_leavesCleanly {r : Redis} {steps : List SlotStep}
    (h : leavesCleanly r steps = true) : ∀ step ∈ steps, SlotStep.Clean r step := by
  intro step hstep
  have hone := List.all_eq_true.mp h step hstep
  cases step with
  | leave jobId state => exact fun _ => of_decide_eq_true hone
  | _ => cases hone

/-- The rebuild comes first. -/
theorem rebuilds_without_drift_sample : ∃ l q,
    (slotCallers sampleDispatched sampleSettling).schedule l = some q ∧
      (∀ i, q.ended i = true) ∧ q.shared.Right := by
  have hright : sampleDispatched.Right := sampleDispatched_right
  have hrun : ((slotCallers sampleDispatched sampleSettling).schedule
      ([false, false] ++ List.replicate 9 true)).any (fun q => q.ended true && q.ended false) =
        true := by
    decide +kernel
  obtain ⟨q, hq, hP⟩ := (Option.any_eq_true ..).mp hrun
  rw [Bool.and_eq_true] at hP
  have hend : ∀ i, q.ended i = true := Bool.forall_bool.mpr ⟨hP.2, hP.1⟩
  have hrest : (([false, false].foldl Pool.advance
      (notedCallers sampleDispatched sampleSettling)).scheduleIf leavesCleanly
        (List.replicate 9 true)).isSome = true := by
    decide +kernel
  obtain ⟨q', hq'⟩ := Option.isSome_iff_exists.mp hrest
  have hclean : CleanRun sampleDispatched sampleSettling
      ([false, false] ++ List.replicate 9 true) := by
    refine obeys_append.mpr ⟨⟨?_, ?_, trivial⟩, ?_⟩
    · exact fun step hstep => absurd hstep (List.not_mem_nil)
    · intro step hstep
      obtain rfl := List.mem_singleton.mp hstep
      exact fun b _ => hright b
    · exact Pool.obeys_of_scheduleIf (fun _ _ => clean_of_leavesCleanly) hq'
  exact ⟨_, q, hq, hend, rebuilds_without_drift hright hclean hq hend⟩

end Taas

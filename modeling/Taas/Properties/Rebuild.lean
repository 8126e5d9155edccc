import Taas.Services.Rebuild

/-!
# The rebuild repairs the counters

* `BackendTally` — the script's tables count the in-flight jobs.
* `Redis.Recounted` — what the last loop does to Redis.
* `Redis.Rebuilt` — the counters after a rebuild.
* `rebuild_stabilises` — a rebuild makes the counters right, whatever they were.
-/

namespace Taas

open Infra Infra.Prog

/-- The in-flight jobs whose hash names the backend. -/
def Redis.jobsOn (r : Redis) (b : BackendId) : Finset JobId :=
  r.inflight.filter fun j => ((r.jobs.lookup j).bind fun h => h.backendId) = some b

/-- Those that are pages of the batch. -/
def Redis.pagesOn (r : Redis) (b : BackendId) (batchId : BatchId) : Finset JobId :=
  r.inflight.filter fun j => ((r.jobs.lookup j).bind fun h => h.backendId) = some b ∧
    nonEmpty ((r.jobs.lookup j).bind fun h => h.batchId) = some batchId

theorem card_filter_eq_countP {α : Type} [LinearOrder α] (s : Finset α) (p : α → Prop)
    [DecidablePred p] : (s.filter p).card = (sorted (· ≤ ·) s.val).countP p := by
  rw [← Multiset.coe_countP, coe_sorted, Multiset.countP_eq_card_filter]
  rfl

/-! ## Counting -/

namespace BackendTally

variable (t : BackendTally) (h : Option JobHash) (b : BackendId) (batchId : BatchId)

theorem addPage_inflight (batchId : Option BatchId) : (t.addPage b batchId).inflight = t.inflight := by
  unfold addPage
  split <;> rfl

theorem value_addPage (b' : BackendId) (batchId' : Option BatchId) :
    ((t.addPage b' batchId').batches b).value batchId = (t.batches b).value batchId +
      indicator (b' = b ∧ nonEmpty batchId' = some batchId) := by
  unfold addPage indicator
  cases nonEmpty batchId' with
  | none => simp
  | some batchId' =>
    by_cases hb : b = b'
    · subst hb
      simp [eq_comm]
    · simp [hb, Ne.symm hb]

theorem value_add : (t.add h).inflight.value b = t.inflight.value b +
    indicator ((h.bind fun h => h.backendId) = some b) := by
  unfold add indicator
  cases h.bind fun h => h.backendId with
  | none => simp
  | some b' =>
    dsimp only
    rw [addPage_inflight]
    simp [eq_comm]

theorem value_pages_add : ((t.add h).batches b).value batchId = (t.batches b).value batchId +
    indicator ((h.bind fun h => h.backendId) = some b ∧
      nonEmpty (h.bind fun h => h.batchId) = some batchId) := by
  unfold add
  cases h.bind fun h => h.backendId with
  | none => simp [indicator]
  | some b' =>
    dsimp only
    rw [value_addPage]
    simp only [Option.some.injEq]

/-- No table has an empty entry. -/
structure Sound (t : BackendTally) : Prop where
  inflight : t.inflight.Positive
  batches : ∀ b, (t.batches b).Positive

theorem sound_empty : Sound {} := ⟨Counter.positive_empty, fun _ => Counter.positive_empty⟩

variable {t}

theorem Sound.addPage (ht : t.Sound) (batchId : Option BatchId) : (t.addPage b batchId).Sound := by
  unfold BackendTally.addPage
  cases nonEmpty batchId with
  | none => exact ht
  | some batchId =>
    refine ⟨ht.inflight, fun b' => ?_⟩
    show (Function.update t.batches b ((t.batches b).incrBy batchId 1) b').Positive
    by_cases hb : b' = b
    · subst hb
      rw [Function.update_self]
      exact (ht.batches b').incrBy one_pos
    · rw [Function.update_of_ne hb]
      exact ht.batches b'

theorem Sound.add (ht : t.Sound) : (t.add h).Sound := by
  unfold BackendTally.add
  cases h.bind fun h => h.backendId with
  | none => exact ht
  | some b =>
    have hcounted : Sound { t with inflight := t.inflight.incrBy b 1 } :=
      ⟨ht.inflight.incrBy one_pos, ht.batches⟩
    exact hcounted.addPage b _

/-- The first loop. -/
theorem sound_foldl (f : JobId → Option JobHash) (ids : List JobId) (ht : t.Sound) :
    (ids.foldl (fun t j => t.add (f j)) t).Sound := by
  induction ids generalizing t with
  | nil => exact ht
  | cons j ids ih => exact ih (ht.add (f j))

theorem value_foldl (f : JobId → Option JobHash) (ids : List JobId) (t : BackendTally) :
    (ids.foldl (fun t j => t.add (f j)) t).inflight.value b = t.inflight.value b +
      ids.countP fun j => ((f j).bind fun h => h.backendId) = some b := by
  induction ids generalizing t with
  | nil => simp
  | cons j ids ih =>
    rw [List.foldl_cons, ih, value_add, List.countP_cons, indicator]
    push_cast
    simp only [decide_eq_true_eq]
    split <;> omega

theorem value_pages_foldl (f : JobId → Option JobHash) (ids : List JobId) (t : BackendTally) :
    ((ids.foldl (fun t j => t.add (f j)) t).batches b).value batchId = (t.batches b).value batchId +
      ids.countP fun j => ((f j).bind fun h => h.backendId) = some b ∧
        nonEmpty ((f j).bind fun h => h.batchId) = some batchId := by
  induction ids generalizing t with
  | nil => simp
  | cons j ids ih =>
    rw [List.foldl_cons, ih, value_pages_add, List.countP_cons, indicator]
    push_cast
    simp only [decide_eq_true_eq]
    split <;> omega

/-- The second loop only adds backends that run nothing. -/
theorem value_zero (b' : BackendId) : (t.zero b').inflight.value b = t.inflight.value b := by
  unfold zero
  split
  · next hnone =>
    rw [Option.isNone_iff_eq_none] at hnone
    by_cases hb : b = b'
    · subst hb
      simp [Counter.value, hnone]
    · simp [Counter.value, Finmap.lookup_insert_of_ne _ hb]
  · rfl

theorem mem_zero (b' : BackendId) : b ∈ (t.zero b').inflight ↔ b = b' ∨ b ∈ t.inflight := by
  unfold zero
  split
  · exact Finmap.mem_insert
  · next hsome =>
    refine ⟨Or.inr, fun h => h.elim (fun he => ?_) id⟩
    rw [Option.isNone_iff_eq_none] at hsome
    exact he ▸ not_not.mp (mt Finmap.lookup_eq_none.mpr hsome)

theorem batches_zero (b' : BackendId) : (t.zero b').batches = t.batches := by
  unfold zero
  split <;> rfl

theorem zeroed (ids : List BackendId) (t : BackendTally) :
    (∀ b, (ids.foldl zero t).inflight.value b = t.inflight.value b) ∧
      (∀ b, b ∈ (ids.foldl zero t).inflight ↔ b ∈ ids ∨ b ∈ t.inflight) ∧
        (ids.foldl zero t).batches = t.batches := by
  induction ids generalizing t with
  | nil => exact ⟨fun _ => rfl, fun b => by simp, rfl⟩
  | cons b' ids ih =>
    obtain ⟨hvalue, hmem, hbatches⟩ := ih (t.zero b')
    refine ⟨fun b => (hvalue b).trans (value_zero b b'), fun b => ?_,
      hbatches.trans (batches_zero b')⟩
    rw [List.foldl_cons, hmem, mem_zero, List.mem_cons]
    tauto

end BackendTally

/-! ## Writing the counters -/

/-- `r'` differs from `r` in the counters of the backends `bs` at most, which are those of the
tally. -/
structure Redis.Recounted (t : BackendTally) (bs : List BackendId) (r r' : Redis) : Prop where
  frame : { r' with
    backendInflight := r.backendInflight
    backendBatches := r.backendBatches } = r
  inflight : ∀ b, r'.backendInflight.lookup b =
    if b ∈ bs then some (t.inflight.value b) else r.backendInflight.lookup b
  batches : ∀ b, r'.backendBatches b = if b ∈ bs then t.batches b else r.backendBatches b

variable {t : BackendTally} {r r' : Redis}

theorem Redis.recounted_foldl {bs : List BackendId} (hnodup : bs.Nodup) (fixed : Nat) (r : Redis) :
    (bs.foldl (Redis.recount t) (fixed, r)).1 = fixed +
        (bs.filter fun b => r.backendInflight.value b ≠ t.inflight.value b).length ∧
      r.Recounted t bs (bs.foldl (Redis.recount t) (fixed, r)).2 := by
  induction bs generalizing fixed r with
  | nil => exact ⟨rfl, rfl, fun b => by simp, fun b => by simp⟩
  | cons b bs ih =>
    rw [List.nodup_cons] at hnodup
    set r₁ := r.setBackend b (t.inflight.value b) (t.batches b) with hr₁
    obtain ⟨hfixed, hrest⟩ := ih hnodup.2
      (if r.backendInflight.value b ≠ t.inflight.value b then fixed + 1 else fixed) r₁
    have hother : ∀ b', b' ≠ b → r₁.backendInflight.lookup b' = r.backendInflight.lookup b' :=
      fun b' hb => Finmap.lookup_insert_of_ne _ hb
    rw [List.foldl_cons]
    refine ⟨?_, ?_, fun b' => ?_, fun b' => ?_⟩
    · -- the counters of the backends still to come are the old ones
      have hsame : bs.filter (fun b => r₁.backendInflight.value b ≠ t.inflight.value b) =
          bs.filter fun b => r.backendInflight.value b ≠ t.inflight.value b := by
        refine List.filter_congr fun b' hb' => ?_
        have hne : b' ≠ b := fun he => hnodup.1 (he ▸ hb')
        rw [Counter.value, hother b' hne]
        rfl
      rw [hsame] at hfixed
      refine Eq.trans hfixed ?_
      rw [List.filter_cons]
      by_cases hb : r.backendInflight.value b ≠ t.inflight.value b
      · rw [if_pos hb, if_pos (decide_eq_true hb), List.length_cons]
        omega
      · rw [if_neg hb, if_neg (by simpa using hb)]
    · have hframe := hrest.frame
      calc _ = { { (bs.foldl (Redis.recount t) (_, r₁)).2 with
              backendInflight := r₁.backendInflight
              backendBatches := r₁.backendBatches } with
            backendInflight := r.backendInflight
            backendBatches := r.backendBatches } := rfl
        _ = r := by rw [hframe]; rfl
    · refine (hrest.inflight b').trans ?_
      by_cases hb : b' = b
      · subst hb
        rw [if_neg hnodup.1, if_pos List.mem_cons_self]
        exact Finmap.lookup_insert _
      · rw [hother b' hb]
        simp only [List.mem_cons, hb, false_or]
    · refine (hrest.batches b').trans ?_
      by_cases hb : b' = b
      · subst hb
        rw [if_neg hnodup.1, if_pos List.mem_cons_self]
        exact Function.update_self ..
      · have hbatches : r₁.backendBatches b' = r.backendBatches b' := Function.update_of_ne hb ..
        rw [hbatches]
        simp only [List.mem_cons, hb, false_or]

/-! ## The rebuild -/

/-- The backends that a rebuild is about: those with a counter, and those with a job. -/
def Redis.Backend (r : Redis) (b : BackendId) : Prop :=
  b ∈ r.backendInflight ∨ (r.jobsOn b).Nonempty

theorem Redis.value_tallyBackends (r : Redis) (b : BackendId) :
    r.tallyBackends.inflight.value b = (r.jobsOn b).card := by
  rw [tallyBackends, BackendTally.value_foldl, jobsOn, card_filter_eq_countP, Counter.value_empty,
    zero_add]

theorem Redis.value_pages_tallyBackends (r : Redis) (b : BackendId) (batchId : BatchId) :
    (r.tallyBackends.batches b).value batchId = (r.pagesOn b batchId).card := by
  rw [tallyBackends, BackendTally.value_pages_foldl, pagesOn, card_filter_eq_countP,
    Counter.value_empty, zero_add]

theorem Redis.sound_tallyBackends (r : Redis) : r.tallyBackends.Sound :=
  BackendTally.sound_foldl _ _ BackendTally.sound_empty

theorem Redis.mem_tallyBackends (r : Redis) (b : BackendId) :
    b ∈ r.tallyBackends.inflight ↔ (r.jobsOn b).Nonempty := by
  have hpos := r.sound_tallyBackends.inflight
  have hnone := hpos.tight.lookup_eq_none (k := b)
  rw [r.value_tallyBackends, Finmap.lookup_eq_none, Nat.cast_eq_zero, Finset.card_eq_zero] at hnone
  rw [Finset.nonempty_iff_ne_empty, Ne, ← hnone, not_not]

/-- The script recounts the backends it is given and those that have a job. -/
theorem Redis.recounted_rebuild (ids : List BackendId) (r : Redis) :
    ∃ (t : BackendTally) (bs : List BackendId),
      (∀ b, t.inflight.value b = (r.jobsOn b).card) ∧ t.batches = r.tallyBackends.batches ∧
      bs.Nodup ∧ (∀ b, b ∈ bs ↔ b ∈ ids ∨ (r.jobsOn b).Nonempty) ∧
        (r.rebuild ids).1 =
          (bs.filter fun b => r.backendInflight.value b ≠ t.inflight.value b).length ∧
        r.Recounted t bs (r.rebuild ids).2 := by
  set t := ids.foldl BackendTally.zero r.tallyBackends with ht
  set bs := sorted (· ≤ ·) t.inflight.keys.val with hbs
  obtain ⟨hvalue, hmem, hbatches⟩ := BackendTally.zeroed ids r.tallyBackends
  have hnodup : bs.Nodup := (nodup_sorted _).mpr t.inflight.keys.nodup
  obtain ⟨hfixed, hdone⟩ := Redis.recounted_foldl (t := t) hnodup 0 r
  refine ⟨t, bs, fun b => (hvalue b).trans (r.value_tallyBackends b), hbatches, hnodup,
    fun b => ?_, hfixed.trans (Nat.zero_add _), hdone⟩
  rw [hbs, mem_sorted, Finset.mem_val, Finmap.mem_keys, hmem, r.mem_tallyBackends]

/-- What the state after a rebuild has in common with, and says about, the one before. -/
structure Redis.Rebuilt (r r' : Redis) : Prop where
  frame : { r' with
    backendInflight := r.backendInflight
    backendBatches := r.backendBatches } = r
  inflight : ∀ b, r.Backend b → r'.backendInflight.lookup b = some ((r.jobsOn b).card : Int)
  batches : ∀ b, r.Backend b → ∀ batchId, (r'.backendBatches b).lookup batchId =
    if (r.pagesOn b batchId).card = 0 then none else some ((r.pagesOn b batchId).card : Int)
  others : ∀ b, ¬r.Backend b → r'.backendInflight.lookup b = r.backendInflight.lookup b ∧
    r'.backendBatches b = r.backendBatches b

theorem rebuilt_run (r : Redis) : r.Rebuilt (run rebuildBackendCounters r).2 ∧
    Numbers (fun b => r.backendInflight.value b ≠ (r.jobsOn b).card)
      (run rebuildBackendCounters r).1 := by
  set ids := sorted (· ≤ ·) r.backendInflight.keys.val with hids
  obtain ⟨t, bs, hcount, hbatches, hnodup, hmem, hfixed, hdone⟩ := r.recounted_rebuild ids
  have hbackend : ∀ b, b ∈ bs ↔ r.Backend b := by
    intro b
    rw [hmem, hids, mem_sorted, Finset.mem_val, Finmap.mem_keys, Redis.Backend]
  have hrun : run rebuildBackendCounters r = r.rebuild ids := rfl
  rw [hrun]
  refine ⟨⟨hdone.frame, fun b hb => ?_, fun b hb batchId => ?_, fun b hb => ?_⟩, ?_⟩
  · rw [hdone.inflight b, if_pos ((hbackend b).mpr hb), hcount]
  · rw [hdone.batches b, if_pos ((hbackend b).mpr hb), hbatches]
    rw [(r.sound_tallyBackends.batches b).tight.lookup_eq, r.value_pages_tallyBackends]
    simp only [Nat.cast_eq_zero]
  · rw [hdone.inflight b, hdone.batches b, if_neg (mt (hbackend b).mp hb),
      if_neg (mt (hbackend b).mp hb)]
    exact ⟨rfl, rfl⟩
  · refine ⟨(bs.filter fun b => r.backendInflight.value b ≠ t.inflight.value b).toFinset,
      fun b => ?_, ?_⟩
    · rw [List.mem_toFinset, List.mem_filter, decide_eq_true_eq, hcount, hbackend,
        and_iff_right_of_imp]
      -- a backend without a counter and without a job has the right one
      intro hne
      by_contra hb
      rw [Redis.Backend, not_or, Finset.not_nonempty_iff_eq_empty, ← Finmap.lookup_eq_none] at hb
      rw [Counter.value, hb.1, hb.2] at hne
      exact hne rfl
    · rw [hfixed, List.toFinset_card_of_nodup (hnodup.filter _)]

/-- The in-flight jobs are as before. -/
theorem Redis.Rebuilt.jobsOn (h : r.Rebuilt r') (b : BackendId) : r'.jobsOn b = r.jobsOn b := by
  rw [← h.frame]
  rfl

theorem Redis.Rebuilt.pagesOn (h : r.Rebuilt r') (b : BackendId) (batchId : BatchId) :
    r'.pagesOn b batchId = r.pagesOn b batchId := by
  rw [← h.frame]
  rfl

theorem Redis.Rebuilt.value (h : r.Rebuilt r') (b : BackendId) :
    r'.backendInflight.value b = (r'.jobsOn b).card := by
  rw [h.jobsOn, Counter.value]
  by_cases hb : r.Backend b
  · rw [h.inflight b hb]
    rfl
  · rw [(h.others b hb).1]
    rw [Redis.Backend, not_or, Finset.not_nonempty_iff_eq_empty, ← Finmap.lookup_eq_none] at hb
    rw [hb.1, hb.2]
    rfl

theorem Redis.Rebuilt.backend (h : r.Rebuilt r') (b : BackendId) : r'.Backend b ↔ r.Backend b := by
  unfold Redis.Backend
  rw [h.jobsOn]
  by_cases hb : r.Backend b
  · have hmem : b ∈ r'.backendInflight := by
      rw [← Finmap.lookup_isSome, h.inflight b hb]
      rfl
    exact iff_of_true (Or.inl hmem) hb
  · rw [← Finmap.lookup_isSome, (h.others b hb).1, Finmap.lookup_isSome]

/-- A rebuild of what a rebuild made changes nothing. -/
theorem Redis.Rebuilt.again {r'' : Redis} (h : r.Rebuilt r') (h' : r'.Rebuilt r'') : r'' = r' := by
  have hinflight : r''.backendInflight = r'.backendInflight := by
    refine Finmap.ext_lookup fun b => ?_
    by_cases hb : r.Backend b
    · rw [h'.inflight b ((h.backend b).mpr hb), h.inflight b hb, h.jobsOn]
    · exact (h'.others b (mt (h.backend b).mp hb)).1
  have hbatches : r''.backendBatches = r'.backendBatches := by
    funext b
    by_cases hb : r.Backend b
    · refine Finmap.ext_lookup fun batchId => ?_
      rw [h'.batches b ((h.backend b).mpr hb), h.batches b hb, h.pagesOn]
    · exact (h'.others b (mt (h.backend b).mp hb)).2
  rw [← h'.frame, ← hinflight, ← hbatches]

/-- **A rebuild makes the counters right, whatever they were, and a second one finds nothing to
do.** -/
theorem rebuild_stabilises (r : Redis) :
    let r' := (run rebuildBackendCounters r).2
    r.Rebuilt r' ∧
      Numbers (fun b => r.backendInflight.value b ≠ (r.jobsOn b).card)
        (run rebuildBackendCounters r).1 ∧
      run rebuildBackendCounters r' = (0, r') := by
  obtain ⟨hrebuilt, hfixed⟩ := rebuilt_run r
  obtain ⟨hagain, hnone⟩ := rebuilt_run (run rebuildBackendCounters r).2
  refine ⟨hrebuilt, hfixed, Prod.ext ?_ (hrebuilt.again hagain)⟩
  have hcard := hnone.eq_card (S := ∅) fun b => by simpa using hrebuilt.value b
  exact Nat.cast_injective hcard

end Taas

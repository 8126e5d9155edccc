import Taas.Clients.Java

/-!
# What a wait for all jobs tells

`Calls.step` leaves a wait where it is, or takes it one step on (`Calls.step_cases`); it returns
true where it looks at the pending jobs or at the event, or where it has been woken. What these
stand for is the client's.

* `Calls.Sound` — what is known of the calls of every client.
* `meansAll_of_step` — a client whose steps return true only to waits whose jobs are resolved.
* `Java.awaitAll_means_all` — `awaitAll` means all as long as its latch is not down when it finds
  jobs of its own pending, and only so long.
-/

namespace Taas

open Infra

namespace Calls

variable {c : Calls} {nonePending flag : Bool} {move : CallStep} {jobId : JobId} {w : ℕ}
  {before : Finset JobId}

/-! ## One step -/

theorem moveWait_waits (f : WaitCall → WaitCall) (w' : ℕ) :
    (c.moveWait w f).waits w' = if w' = w then f (c.waits w) else c.waits w' := by
  unfold moveWait
  by_cases h : w' = w
  · subst h
    simp
  · simp [h]

theorem moveWait_cases (c : Calls) (w w' : ℕ) (f : WaitCall → WaitCall) :
    (c.moveWait w' f).waits w = c.waits w ∨
    (w' = w ∧ (c.moveWait w' f).waits w = f (c.waits w)) := by
  rw [moveWait_waits]
  split
  · next h => exact .inr ⟨h.symm, by rw [h]⟩
  · exact .inl rfl

@[simp] theorem step_updated : (c.step nonePending flag move).updated = c.updated := by
  cases move <;> simp only [step, moveWait]
  split <;> rfl

@[simp] theorem step_resolved : (c.step nonePending flag move).resolved = c.resolved := by
  cases move <;> simp only [step, moveWait]
  split <;> rfl

@[simp] theorem step_handled : (c.step nonePending flag move).handled = c.handled := by
  cases move <;> simp only [step, moveWait]
  split <;> rfl

theorem returned_subset_step : c.returned ⊆ (c.step nonePending flag move).returned := by
  cases move <;> simp only [step, moveWait, subset_refl]
  split
  · exact Finset.subset_insert _ _
  · exact subset_refl _

theorem submitted_subset_step : c.submitted ⊆ (c.step nonePending flag move).submitted := by
  cases move <;> simp only [step, moveWait, subset_refl, Finset.subset_insert]
  split <;> exact subset_refl _

/-- What a step does to one wait. -/
theorem step_cases (c : Calls) (nonePending flag : Bool) (move : CallStep) (w : ℕ) :
    (c.step nonePending flag move).waits w = c.waits w ∨
    (move = .call w ∧ c.waits w = .uncalled ∧
      (c.step nonePending flag move).waits w = .called c.returned) ∨
    (∃ before, move = .check w ∧ c.waits w = .called before ∧
      (c.step nonePending flag move).waits w =
        if nonePending then .returned before true else .checked before) ∨
    (∃ before, move = .await w ∧ c.waits w = .checked before ∧
      (c.step nonePending flag move).waits w =
        if flag then .returned before true else .waiting before) ∨
    (∃ before, move = .wake w ∧ c.waits w = .woken before ∧
      (c.step nonePending flag move).waits w = .returned before true) ∨
    ∃ before, (c.step nonePending flag move).waits w = .returned before false := by
  cases move with
  | respond jobId => exact .inl rfl
  | submitReturns jobId =>
    refine .inl ?_
    simp only [step]
    split <;> rfl
  | call w' =>
    simp only [step]
    rcases c.moveWait_cases w w' (.call c.returned) with h | ⟨rfl, h⟩
    · exact .inl h
    · rw [h]
      cases hw : c.waits w' <;> simp [WaitCall.call]
  | check w' =>
    simp only [step]
    rcases c.moveWait_cases w w' (.check nonePending) with h | ⟨rfl, h⟩
    · exact .inl h
    · rw [h]
      cases hw : c.waits w' <;> simp [WaitCall.check]
  | await w' =>
    simp only [step]
    rcases c.moveWait_cases w w' (.await flag) with h | ⟨rfl, h⟩
    · exact .inl h
    · rw [h]
      cases hw : c.waits w' <;> simp [WaitCall.await]
  | wake w' =>
    simp only [step]
    rcases c.moveWait_cases w w' .wake with h | ⟨rfl, h⟩
    · exact .inl h
    · rw [h]
      cases hw : c.waits w' <;> simp [WaitCall.wake]
  | timeOut w' =>
    simp only [step]
    rcases c.moveWait_cases w w' .timeOut with h | ⟨rfl, h⟩
    · exact .inl h
    · rw [h]
      cases hw : c.waits w' <;> simp [WaitCall.timeOut]

theorem notifyAll_waits : c.notifyAll.waits w = (c.waits w).notify := rfl

theorem notifyAll_waits_eq_woken (h : c.notifyAll.waits w = .woken before) :
    c.waits w = .woken before ∨ c.waits w = .waiting before := by
  rw [notifyAll_waits] at h
  cases hw : c.waits w <;> rw [hw] at h <;> simp_all [WaitCall.notify]

@[simp] theorem notifyAll_during : (c.notifyAll.waits w).during = (c.waits w).during := by
  rw [notifyAll_waits]
  cases c.waits w <;> rfl

theorem notifyAll_waits_eq_returned {answer : Bool} :
    c.notifyAll.waits w = .returned before answer ↔ c.waits w = .returned before answer := by
  rw [notifyAll_waits]
  cases c.waits w <;> simp [WaitCall.notify]

theorem notifyAll_waits_eq_checked :
    c.notifyAll.waits w = .checked before ↔ c.waits w = .checked before := by
  rw [notifyAll_waits]
  cases c.waits w <;> simp [WaitCall.notify]

theorem notifyAll_waits_ne_waiting : c.notifyAll.waits w ≠ .waiting before := by
  rw [notifyAll_waits]
  cases c.waits w <;> simp [WaitCall.notify]

theorem step_waits_eq_waiting
    (h : (c.step nonePending flag move).waits w = .waiting before) :
    c.waits w = .waiting before ∨ flag = false := by
  rcases c.step_cases nonePending flag move w with
    hs | ⟨-, -, hs⟩ | ⟨b, -, hw, hs⟩ | ⟨b, -, hw, hs⟩ | ⟨b, -, -, hs⟩ | ⟨b, hs⟩ <;> rw [hs] at h
  · exact .inl h
  · cases h
  · split at h <;> cases h
  · cases flag with
    | false => exact .inr rfl
    | true => cases h
  · cases h
  · cases h

theorem step_past (h : ((c.step nonePending flag move).waits w).past = true) :
    (c.waits w).past = true ∨ nonePending = false := by
  rcases c.step_cases nonePending flag move w with
    hs | ⟨-, -, hs⟩ | ⟨b, -, hw, hs⟩ | ⟨b, -, hw, hs⟩ | ⟨b, -, -, hs⟩ | ⟨b, hs⟩ <;> rw [hs] at h
  · exact .inl h
  · cases h
  · cases nonePending with
    | false => exact .inr rfl
    | true => cases h
  · exact .inl (by rw [hw]; rfl)
  · cases h
  · cases h

/-- A wait goes on to its end when no job is pending, unless it is among the waiters of the event or
goes on to an event that is not set. -/
theorem answers (c : Calls) (w : ℕ) (hwaiting : ∀ before, c.waits w ≠ .waiting before)
    (hchecked : ∀ before, c.waits w = .checked before → flag = true) :
    (∃ before, c.waits w = .returned before false) ∨
    ∃ before, ((((c.step true flag (.call w)).step true flag (.check w)).step true flag
      (.await w)).step true flag (.wake w)).waits w = .returned before true := by
  simp only [step, moveWait_waits, if_true]
  cases hw : c.waits w with
  | uncalled => exact .inr ⟨_, rfl⟩
  | called before => exact .inr ⟨before, rfl⟩
  | checked before =>
    rw [hchecked before hw]
    exact .inr ⟨before, rfl⟩
  | waiting before => exact absurd hw (hwaiting before)
  | woken before => exact .inr ⟨before, rfl⟩
  | returned before answer =>
    cases answer with
    | true => exact .inr ⟨before, rfl⟩
    | false => exact .inl ⟨before, rfl⟩

/-! ## What is known of the calls of every client -/

structure Sound (c : Calls) : Prop where
  returned_updated : c.returned ⊆ c.updated
  before_returned : ∀ w before, (c.waits w).during = some before → before ⊆ c.returned
  woken_resolved : ∀ w before, c.waits w = .woken before → before ⊆ c.resolved

theorem Sound.new : Sound {} where
  returned_updated := subset_refl _
  before_returned w before h := by simp [WaitCall.during] at h
  woken_resolved w before h := by simp at h

theorem Sound.mono {c' : Calls} (h : c.Sound) (hw : c'.waits = c.waits)
    (hr : c'.returned = c.returned) (hu : c.updated ⊆ c'.updated)
    (hres : c.resolved ⊆ c'.resolved) : c'.Sound where
  returned_updated := hr ▸ h.returned_updated.trans hu
  before_returned := by
    rw [hw, hr]
    exact h.before_returned
  woken_resolved w before hb := by
    rw [hw] at hb
    exact (h.woken_resolved w before hb).trans hres

/-- The event is set when all that is updated is resolved. -/
theorem Sound.notifyAll (h : c.Sound) (hall : c.updated ⊆ c.resolved) : c.notifyAll.Sound where
  returned_updated := h.returned_updated
  before_returned w before hb := by
    rw [notifyAll_during] at hb
    exact h.before_returned w before hb
  woken_resolved w before hb := by
    rcases notifyAll_waits_eq_woken hb with hb | hb
    · exact h.woken_resolved w before hb
    · have hret : before ⊆ c.returned := h.before_returned w before (by rw [hb]; rfl)
      exact (hret.trans h.returned_updated).trans hall

theorem Sound.step (h : c.Sound) : (c.step nonePending flag move).Sound where
  returned_updated := by
    rw [step_updated]
    cases move with
    | submitReturns jobId =>
      simp only [Calls.step]
      split
      · next hj => exact Finset.insert_subset hj h.returned_updated
      · exact h.returned_updated
    | _ => exact h.returned_updated
  before_returned w before hb := by
    have hret : c.returned ⊆ (c.step nonePending flag move).returned := returned_subset_step
    rcases c.step_cases nonePending flag move w with
      hs | ⟨-, -, hs⟩ | ⟨b, -, hw, hs⟩ | ⟨b, -, hw, hs⟩ | ⟨b, -, -, hs⟩ | ⟨b, hs⟩ <;> rw [hs] at hb
    · exact (h.before_returned w before hb).trans hret
    · obtain rfl := Option.some.inj hb
      exact hret
    · cases nonePending with
      | true => simp [WaitCall.during] at hb
      | false => exact (h.before_returned w before (by rw [hw]; exact hb)).trans hret
    · cases flag with
      | true => simp [WaitCall.during] at hb
      | false => exact (h.before_returned w before (by rw [hw]; exact hb)).trans hret
    · simp [WaitCall.during] at hb
    · simp [WaitCall.during] at hb
  woken_resolved w before hb := by
    rw [step_resolved]
    rcases c.step_cases nonePending flag move w with
      hs | ⟨-, -, hs⟩ | ⟨b, -, hw, hs⟩ | ⟨b, -, hw, hs⟩ | ⟨b, -, -, hs⟩ | ⟨b, hs⟩ <;> rw [hs] at hb
    · exact h.woken_resolved w before hb
    · cases hb
    · split at hb <;> cases hb
    · split at hb <;> cases hb
    · cases hb
    · cases hb

/-- A wait that returns true looked at the pending jobs, looked at the event, or was woken. -/
theorem Sound.step_returned (h : c.Sound) (hnone : nonePending = true → c.updated ⊆ c.resolved)
    (hflag : flag = true → c.waits w = .checked before → before ⊆ c.resolved)
    (hs : (c.step nonePending flag move).waits w = .returned before true) :
    c.waits w = .returned before true ∨
    ((c.waits w).during = some before ∧ before ⊆ c.resolved) := by
  rcases c.step_cases nonePending flag move w with
    he | ⟨-, -, he⟩ | ⟨b, -, hw, he⟩ | ⟨b, -, hw, he⟩ | ⟨b, -, hw, he⟩ | ⟨b, he⟩ <;> rw [he] at hs
  · exact .inl hs
  · cases hs
  · cases nonePending with
    | false => cases hs
    | true =>
      cases hs
      have hd : (c.waits w).during = some before := by rw [hw]; rfl
      have hret : before ⊆ c.returned := h.before_returned w before hd
      exact .inr ⟨hd, (hret.trans h.returned_updated).trans (hnone rfl)⟩
  · cases flag with
    | false => cases hs
    | true =>
      cases hs
      exact .inr ⟨by rw [hw]; rfl, hflag rfl hw⟩
  · cases hs
    exact .inr ⟨by rw [hw]; rfl, h.woken_resolved w before hw⟩
  · cases hs

end Calls

/-! ## Runs -/

section Runs

variable {σ l : Type} {step : σ → l → σ} {calls : σ → Calls} {s : σ} {as : List l}

/-- A client that returns true only to waits whose jobs are resolved means all. -/
theorem meansAll_of_step {I : σ → Prop} (hnew : ∀ w, (calls s).waits w = .uncalled)
    (hstep : ∀ s a w before, I s → (calls (step s a)).waits w = .returned before true →
      (calls s).waits w = .returned before true ∨
      (((calls s).waits w).during = some before ∧ before ⊆ (calls s).resolved))
    (hI : ∀ bs, bs <+: as → I (bs.foldl step s)) : MeansAll step calls s as := by
  intro w before h
  have hs : ¬ (calls s).waits w = .returned before true := by
    rw [hnew]
    exact nofun
  exact exists_prefix (Q := fun s => (calls s).waits w = .returned before true)
    (fun s a hI => hstep s a w before hI) hs hI h

/-- What a wait saw resolved, the end of the run sees resolved. -/
theorem MeansAll.resolved (hmono : ∀ s a, (calls s).resolved ⊆ (calls (step s a)).resolved)
    (h : MeansAll step calls s as) (w : ℕ) (before : Finset JobId)
    (hw : (calls (as.foldl step s)).waits w = .returned before true) :
    before ⊆ (calls (as.foldl step s)).resolved := by
  have hrun : ∀ (cs : List l) t, (calls t).resolved ⊆ (calls (cs.foldl step t)).resolved := by
    intro cs
    induction cs with
    | nil => exact fun t => subset_refl _
    | cons a cs ih => exact fun t => (hmono t a).trans (ih (step t a))
  obtain ⟨bs, ⟨cs, rfl⟩, -, hb⟩ := h w before hw
  rw [List.foldl_append]
  exact hb.trans (hrun cs _)

end Runs

/-! ## Blocks under the lock -/

theorem mem_putKey {key j : JobId} {keys : List JobId} :
    j ∈ putKey key keys ↔ j = key ∨ j ∈ keys := by
  unfold putKey
  split
  · next h =>
    constructor
    · exact .inr
    · rintro (rfl | hj)
      · exact h
      · exact hj
  · simp [or_comm]

namespace ClientCode

variable {γ : Type} {code : ClientCode γ} {s : InUse γ} {a : ClientStep} {jobId : JobId} {w : ℕ}
  {before : Finset JobId}

theorem isLast_iff {client : γ} : code.isLast jobId client = true ↔
    jobId ∈ code.pending client ∧ (code.pending client).erase jobId = ∅ := by
  simp [isLast]

theorem step_resolve_resolved :
    (code.step s (.resolve jobId)).calls.resolved = insert jobId s.calls.resolved := by
  simp only [step]
  split <;> rfl

theorem step_resolve_updated :
    (code.step s (.resolve jobId)).calls.updated = s.calls.updated := by
  simp only [step]
  split <;> rfl

theorem step_resolve_waits_eq_checked :
    (code.step s (.resolve jobId)).calls.waits w = .checked before ↔
      s.calls.waits w = .checked before := by
  simp only [step]
  split
  · exact Calls.notifyAll_waits_eq_checked
  · exact Iff.rfl

theorem resolved_subset_step (s : InUse γ) (a : ClientStep) :
    s.calls.resolved ⊆ (code.step s a).calls.resolved := by
  cases a with
  | update jobId =>
    simp only [step]
    split <;> exact subset_refl _
  | resolve jobId =>
    rw [step_resolve_resolved]
    exact Finset.subset_insert _ _
  | call move => exact (Calls.step_resolved).symm.subset

/-- Only the step of a wait itself lets it return. -/
theorem step_returned (h : s.calls.Sound)
    (hnone : code.pending s.client = ∅ → s.calls.updated ⊆ s.calls.resolved)
    (hflag : code.flag s.client = true → s.calls.waits w = .checked before →
      before ⊆ s.calls.resolved)
    (hw : (code.step s a).calls.waits w = .returned before true) :
    s.calls.waits w = .returned before true ∨
    ((s.calls.waits w).during = some before ∧ before ⊆ s.calls.resolved) := by
  cases a with
  | update jobId =>
    simp only [step] at hw
    split at hw <;> exact .inl hw
  | resolve jobId =>
    simp only [step] at hw
    split at hw
    · exact .inl (Calls.notifyAll_waits_eq_returned.mp hw)
    · exact .inl hw
  | call move => exact h.step_returned (fun he => hnone (of_decide_eq_true he)) hflag hw

theorem answersAll (hnone : code.pending s.client = ∅)
    (hwaiting : ∀ w before, s.calls.waits w ≠ .waiting before)
    (hchecked : ∀ w before, s.calls.waits w = .checked before → code.flag s.client = true) :
    AnswersAll code.step InUse.calls .call s := by
  intro w
  simp only [List.map_cons, List.map_nil, List.foldl_cons, List.foldl_nil, step, hnone,
    decide_true]
  exact s.calls.answers w (hwaiting w) (hchecked w)

end ClientCode

/-! ## The Java client -/

namespace Java

variable {s : InUse TaasClient} {a : ClientStep} {jobId : JobId} {w : ℕ} {before : Finset JobId}

/-- An `awaitAll` that looks for pending jobs finds the latch still up, or none of its own jobs. -/
def Armed (s : InUse TaasClient) (a : ClientStep) : Prop :=
  ∀ w before, a = .call (.check w) → s.calls.waits w = .called before →
    s.client.doneLatch = true → Disjoint before s.client.pending

/-- No early id is forgotten. -/
def Roomy (s : InUse TaasClient) (a : ClientStep) : Prop :=
  ∀ jobId, a = .resolve jobId → jobId ∉ s.client.pending →
    (putKey jobId s.client.finishedEarly).length ≤ finishedEarlyMax

namespace TaasClient

variable {c : TaasClient} {j : JobId}

@[simp] theorem update_doneLatch : (c.update jobId).doneLatch = c.doneLatch := by
  unfold update
  split <;> rfl

@[simp] theorem resolve_pending : (c.resolve jobId).pending = c.pending.erase jobId := by
  unfold resolve
  split
  · rfl
  · next h => exact (Finset.erase_eq_of_notMem h).symm

theorem resolve_doneLatch (h : (c.resolve jobId).doneLatch = true) :
    c.doneLatch = true ∨ c.pending.erase jobId = ∅ := by
  unfold resolve at h
  split at h
  · exact (Bool.or_eq_true _ _ ▸ h).imp_right of_decide_eq_true
  · exact .inl h

theorem mem_resolve_finishedEarly (h : j ∈ (c.resolve jobId).finishedEarly) :
    j = jobId ∨ j ∈ c.finishedEarly := by
  unfold resolve at h
  split at h
  · exact .inr h
  · dsimp only at h
    split at h
    · exact mem_putKey.mp (List.mem_of_mem_tail h)
    · exact mem_putKey.mp h

end TaasClient

/-! ### Every run -/

structure Sound (s : InUse TaasClient) : Prop where
  calls : s.calls.Sound
  early_resolved : ∀ jobId ∈ s.client.finishedEarly, jobId ∈ s.calls.resolved
  updated_pending : ∀ jobId ∈ s.calls.updated,
    jobId ∈ s.calls.resolved ∨ jobId ∈ s.client.pending

theorem Sound.new : Sound new where
  calls := .new
  early_resolved jobId h := by cases h
  updated_pending jobId h := absurd h (Finset.notMem_empty jobId)

theorem Sound.resolved (h : Sound s) (hp : Disjoint before s.client.pending)
    (hb : before ⊆ s.calls.updated) : before ⊆ s.calls.resolved := by
  intro jobId hj
  rcases h.updated_pending jobId (hb hj) with hr | hp'
  · exact hr
  · exact absurd hp' (Finset.disjoint_left.mp hp hj)

theorem Sound.resolved_of_empty (h : Sound s) (hp : s.client.pending = ∅) :
    s.calls.updated ⊆ s.calls.resolved :=
  h.resolved (hp ▸ Finset.disjoint_empty_right _) (subset_refl _)

theorem Sound.during (h : Sound s) (hw : (s.calls.waits w).during = some before) :
    before ⊆ s.calls.updated :=
  (h.calls.before_returned w before hw).trans h.calls.returned_updated

theorem Sound.update (h : Sound s) : Sound (step s (.update jobId)) := by
  simp only [Java.step, ClientCode.step]
  split
  swap
  · exact h
  refine ⟨h.calls.mono rfl rfl (Finset.subset_insert _ _) (subset_refl _), ?_, ?_⟩
  · intro j hj
    refine h.early_resolved j ?_
    simp only [code, TaasClient.update] at hj
    split at hj
    · exact List.mem_of_mem_erase hj
    · exact hj
  · intro j hj
    simp only [code, TaasClient.update]
    split
    · next he =>
      rcases Finset.mem_insert.mp hj with rfl | hj
      · exact .inl (h.early_resolved j he)
      · exact h.updated_pending j hj
    · rcases Finset.mem_insert.mp hj with rfl | hj
      · exact .inr (Finset.mem_insert_self j _)
      · exact (h.updated_pending j hj).imp_right Finset.mem_insert_of_mem

theorem Sound.resolve (h : Sound s) : Sound (step s (.resolve jobId)) := by
  have hpend : ∀ j ∈ s.calls.updated,
      j ∈ insert jobId s.calls.resolved ∨ j ∈ (s.client.resolve jobId).pending := by
    intro j hj
    rw [TaasClient.resolve_pending]
    rcases h.updated_pending j hj with hr | hp
    · exact .inl (Finset.mem_insert_of_mem hr)
    · by_cases he : j = jobId
      · exact .inl (Finset.mem_insert.mpr (.inl he))
      · exact .inr (Finset.mem_erase.mpr ⟨he, hp⟩)
  have hearly : ∀ j ∈ (s.client.resolve jobId).finishedEarly,
      j ∈ insert jobId s.calls.resolved := by
    intro j hj
    rcases TaasClient.mem_resolve_finishedEarly hj with rfl | hj
    · exact Finset.mem_insert_self j _
    · exact Finset.mem_insert_of_mem (h.early_resolved j hj)
  have hcalls : ({ s.calls with
      resolved := insert jobId s.calls.resolved
      handled := insert jobId s.calls.handled } : Calls).Sound :=
    h.calls.mono rfl rfl (subset_refl _) (Finset.subset_insert _ _)
  simp only [Java.step, ClientCode.step]
  split
  · next hl =>
    -- the latch goes down as the last job leaves: whatever is updated is resolved
    have hnone : (s.client.resolve jobId).pending = ∅ := by
      rw [TaasClient.resolve_pending]
      exact (ClientCode.isLast_iff.mp hl).2
    refine ⟨hcalls.notifyAll ?_, hearly, hpend⟩
    intro j hj
    rcases hpend j hj with hr | hp
    · exact hr
    · rw [hnone] at hp
      exact absurd hp (Finset.notMem_empty j)
  · exact ⟨hcalls, hearly, hpend⟩

theorem Sound.step (h : Sound s) : Sound (step s a) := by
  cases a with
  | update jobId => exact h.update
  | resolve jobId => exact h.resolve
  | call move =>
    refine ⟨h.calls.step, ?_, ?_⟩
    · show ∀ j ∈ s.client.finishedEarly, j ∈ (s.calls.step _ _ move).resolved
      rw [Calls.step_resolved]
      exact h.early_resolved
    · show ∀ j ∈ (s.calls.step _ _ move).updated,
        j ∈ (s.calls.step _ _ move).resolved ∨ j ∈ s.client.pending
      rw [Calls.step_updated, Calls.step_resolved]
      exact h.updated_pending

/-! ### Runs whose waits are armed -/

/-- Once the latch is down, a wait that goes on to it has nothing left to wait for. -/
structure Tight (s : InUse TaasClient) : Prop where
  sound : Sound s
  checked_resolved : ∀ w before, s.calls.waits w = .checked before →
    s.client.doneLatch = true → before ⊆ s.calls.resolved

theorem Tight.new : Tight new := ⟨.new, fun w before h => by cases h⟩

theorem Tight.step (h : Tight s) (ha : Armed s a) : Tight (step s a) := by
  refine ⟨h.sound.step, ?_⟩
  intro w before hw hl
  cases a with
  | update jobId =>
    simp only [Java.step, ClientCode.step] at hw hl ⊢
    split at hw
    · next hj =>
      rw [if_pos hj] at hl ⊢
      exact h.checked_resolved w before hw (TaasClient.update_doneLatch ▸ hl)
    · next hj =>
      rw [if_neg hj] at hl ⊢
      exact h.checked_resolved w before hw hl
  | resolve jobId =>
    have hs : Sound (Java.step s (.resolve jobId)) := h.sound.resolve
    rcases TaasClient.resolve_doneLatch hl with hl | hnone
    · have hw' := ClientCode.step_resolve_waits_eq_checked.mp hw
      exact (h.checked_resolved w before hw' hl).trans (ClientCode.resolved_subset_step s _)
    · -- the last pending job has left
      have hempty : (Java.step s (.resolve jobId)).client.pending = ∅ :=
        TaasClient.resolve_pending.trans hnone
      exact (hs.during (by rw [hw]; rfl)).trans (hs.resolved_of_empty hempty)
  | call move =>
    show before ⊆ (s.calls.step _ _ move).resolved
    rw [Calls.step_resolved]
    replace hw : (s.calls.step (s.client.pending = ∅) s.client.doneLatch move).waits w =
        .checked before := hw
    rcases s.calls.step_cases (s.client.pending = ∅) s.client.doneLatch move w with
      he | ⟨-, -, he⟩ | ⟨b, rfl, hb, he⟩ | ⟨b, -, -, he⟩ | ⟨b, -, -, he⟩ | ⟨b, he⟩ <;>
      rw [he] at hw
    · exact h.checked_resolved w before hw hl
    · cases hw
    · split at hw
      · cases hw
      · cases hw
        exact h.sound.resolved (ha w before rfl hb hl) (h.sound.during (by rw [hb]; rfl))
    · split at hw <;> cases hw
    · cases hw
    · cases hw

theorem Tight.step_returned (h : Tight s)
    (hw : (Java.step s a).calls.waits w = .returned before true) :
    s.calls.waits w = .returned before true ∨
    ((s.calls.waits w).during = some before ∧ before ⊆ s.calls.resolved) :=
  ClientCode.step_returned h.sound.calls h.sound.resolved_of_empty
    (fun hl hc => h.checked_resolved w before hc hl) hw

/-! ### Runs that forget no early id -/

structure Remembers (s : InUse TaasClient) : Prop where
  pending_unresolved : ∀ jobId ∈ s.client.pending, jobId ∉ s.calls.resolved
  pending_updated : s.client.pending ⊆ s.calls.updated
  resolved_early : ∀ jobId ∈ s.calls.resolved, jobId ∉ s.calls.updated →
    jobId ∈ s.client.finishedEarly

theorem Remembers.new : Remembers new where
  pending_unresolved jobId h := absurd h (Finset.notMem_empty jobId)
  pending_updated := subset_refl _
  resolved_early jobId h := absurd h (Finset.notMem_empty jobId)

theorem Remembers.update (h : Remembers s) : Remembers (step s (.update jobId)) := by
  simp only [Java.step, ClientCode.step]
  split
  swap
  · exact h
  next hans =>
  simp only [code, TaasClient.update]
  split
  · refine ⟨h.pending_unresolved, h.pending_updated.trans (Finset.subset_insert _ _), ?_⟩
    intro j hj hu
    rw [Finset.mem_insert, not_or] at hu
    exact (List.mem_erase_of_ne hu.1).mpr (h.resolved_early j hj hu.2)
  · next he =>
    refine ⟨?_, Finset.insert_subset_insert _ h.pending_updated, ?_⟩
    · intro j hj
      rcases Finset.mem_insert.mp hj with rfl | hj
      · exact fun hr => he (h.resolved_early j hr hans.2)
      · exact h.pending_unresolved j hj
    · intro j hj hu
      rw [Finset.mem_insert, not_or] at hu
      exact h.resolved_early j hj hu.2

theorem Remembers.resolve (h : Remembers s) (hroom : Roomy s (.resolve jobId)) :
    Remembers (step s (.resolve jobId)) := by
  have hres : (step s (.resolve jobId)).calls.resolved = insert jobId s.calls.resolved :=
    ClientCode.step_resolve_resolved
  have hupd : (step s (.resolve jobId)).calls.updated = s.calls.updated :=
    ClientCode.step_resolve_updated
  have hpend : (step s (.resolve jobId)).client.pending = s.client.pending.erase jobId :=
    TaasClient.resolve_pending
  refine ⟨?_, ?_, ?_⟩
  · intro j hj
    rw [hpend, Finset.mem_erase] at hj
    rw [hres, Finset.mem_insert, not_or]
    exact ⟨hj.1, h.pending_unresolved j hj.2⟩
  · rw [hupd, hpend]
    exact (Finset.erase_subset _ _).trans h.pending_updated
  · rw [hres, hupd]
    intro j hj hu
    show j ∈ (s.client.resolve jobId).finishedEarly
    unfold TaasClient.resolve
    split
    · next hp =>
      rcases Finset.mem_insert.mp hj with rfl | hj
      · exact absurd (h.pending_updated hp) hu
      · exact h.resolved_early j hj hu
    · next hp =>
      show j ∈ if _ then _ else _
      rw [if_neg (Nat.not_lt.mpr (hroom jobId rfl hp)), mem_putKey]
      exact (Finset.mem_insert.mp hj).imp_right fun hj => h.resolved_early j hj hu

theorem Remembers.step (h : Remembers s) (hroom : Roomy s a) : Remembers (step s a) := by
  cases a with
  | update jobId => exact h.update
  | resolve jobId => exact h.resolve hroom
  | call move =>
    refine ⟨?_, ?_, ?_⟩
    · show ∀ j ∈ s.client.pending, j ∉ (s.calls.step _ _ move).resolved
      rw [Calls.step_resolved]
      exact h.pending_unresolved
    · show s.client.pending ⊆ (s.calls.step _ _ move).updated
      rw [Calls.step_updated]
      exact h.pending_updated
    · show ∀ j ∈ (s.calls.step _ _ move).resolved, j ∉ (s.calls.step _ _ move).updated →
        j ∈ s.client.finishedEarly
      rw [Calls.step_resolved, Calls.step_updated]
      exact h.resolved_early

/-- An `awaitAll` that finds jobs pending, with the latch down, returns at once. -/
theorem returns_of_down (hw : s.calls.waits w = .called before) (hl : s.client.doneLatch = true)
    (hp : s.client.pending ≠ ∅) :
    (step (step s (.call (.check w))) (.call (.await w))).calls.waits w =
      .returned before true := by
  simp [step, ClientCode.step, code, Calls.step, Calls.moveWait_waits, hw, hl, hp, WaitCall.check,
    WaitCall.await]

/-- **`awaitAll` means all, as long as its latch is not down while it finds jobs of its own pending:
then it can return at once.** The latch cannot be reset: it is down from the first time on that the
last pending job is resolved. -/
theorem awaitAll_means_all (as : List ClientStep) :
    (Obeys step Armed new as → MeansAll step InUse.calls new as) ∧
    ∀ w, Obeys step Roomy new as → ¬ Armed (as.foldl step new) (.call (.check w)) →
      ¬ MeansAll step InUse.calls new (as ++ [.call (.check w), .call (.await w)]) := by
  constructor
  · intro has
    refine meansAll_of_step (I := Tight) (fun w => rfl) (fun s a w before h => h.step_returned) ?_
    intro bs hb
    exact (has.of_prefix hb).inv (fun s a h ha => h.step ha) Tight.new
  · intro w has hw hall
    have hrem : Remembers (as.foldl step new) :=
      has.inv (fun s a h ha => h.step ha) Remembers.new
    simp only [Armed, not_forall] at hw
    obtain ⟨w, before, ha, hcalled, hl, hp⟩ := hw
    cases ha
    obtain ⟨j, hj, hjp⟩ := Finset.not_disjoint_iff.mp hp
    have hret := returns_of_down hcalled hl (Finset.ne_empty_of_mem hjp)
    have hres := hall.resolved ClientCode.resolved_subset_step w before
      (by rw [List.foldl_append]; exact hret)
    rw [List.foldl_append] at hres
    -- looking at the jobs and at the latch resolves nothing
    refine hrem.pending_unresolved j hjp ?_
    simpa only [List.foldl_cons, List.foldl_nil, step, ClientCode.step, Calls.step_resolved]
      using hres hj

/-- Two jobs are submitted and awaited together, and then once more. -/
def awaited : List ClientStep :=
  [.call (.respond 1), .update 1, .call (.submitReturns 1), .call (.respond 2), .update 2,
    .call (.submitReturns 2), .call (.call 0), .call (.check 0), .call (.await 0), .resolve 2,
    .resolve 1, .call (.wake 0), .call (.call 1), .call (.check 1)]

theorem awaitAll_means_all_sample :
    (awaited.foldl step new).calls.waits 0 = .returned {2, 1} true ∧
      (awaited.foldl step new).calls.waits 1 = .returned {2, 1} true ∧
        MeansAll step InUse.calls new awaited := by
  refine ⟨by decide +kernel, by decide +kernel, (awaitAll_means_all awaited).1 ?_⟩
  refine ⟨nofun, nofun, nofun, nofun, nofun, nofun, nofun, ?_, nofun, nofun, nofun, nofun, nofun,
    ?_, trivial⟩
  · rintro w before - - hlatch
    exact absurd hlatch (by decide +kernel)
  · rintro w before - - -
    convert Finset.disjoint_empty_right before using 1
    decide +kernel

/-- A client that is used again after its first job. -/
def reused : List ClientStep :=
  [.call (.respond 1), .update 1, .call (.submitReturns 1), .resolve 1,
    .call (.respond 2), .update 2, .call (.submitReturns 2),
    .call (.call 0), .call (.check 0), .call (.await 0)]

theorem reused_returns_early :
    Obeys step Roomy new reused ∧ ¬ MeansAll step InUse.calls new reused := by
  constructor
  · refine ⟨nofun, nofun, nofun, ?_, nofun, nofun, nofun, nofun, nofun, nofun, trivial⟩
    intro jobId h hp
    cases h
    exact absurd (by decide +kernel) hp
  · intro h
    have hres : {2, 1} ⊆ (reused.foldl step new).calls.resolved :=
      h.resolved ClientCode.resolved_subset_step 0 {2, 1} (by decide +kernel)
    revert hres
    decide +kernel

end Java

end Taas

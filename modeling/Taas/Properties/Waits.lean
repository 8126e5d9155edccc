import Taas.Clients.Threads
import Taas.Properties.Awaits

/-!
# The waits of the Python clients

A `pop` with the default `None` does not tell a remembered job from another one
(`TaasClient.popEarly_eq_none`): a job whose event came before its submit's update is pending for
good, unless the event comes again.

* `Threads.Sound` — what holds of every run of the threaded client, between any two statements.
* `Threads.Live` — what holds of the runs in which no event comes before its submit's update.
* `async_step` — a step of the async client is an undisturbed block of the threaded one.
* `wait_means_all` — `wait` means all in every run, and never hangs in those runs.
-/

namespace Taas

open Infra

theorem TaasClient.popEarly_eq_none (jobId : JobId) (c : TaasClient) : c.popEarly jobId = none := by
  unfold popEarly earlyItems
  induction c.finishedEarly with
  | nil => rfl
  | cons j js ih =>
    rw [List.map_cons, List.lookup_cons]
    cases jobId == j with
    | true => rfl
    | false => exact ih

/-! ## Every run of the threaded client -/

namespace Threads

variable {s : Threads} {a : ThreadStep} {jobId : JobId} {w : ℕ} {before : Finset JobId}

/-- What the thread with the lock has found or done so far. -/
def HolderSound (client : TaasClient) (calls : Calls) : Option HolderAt → Prop
  | some (.popping jobId) => calls.Answered jobId
  | some (.adding jobId) => calls.Answered jobId
  | some (.clearing jobId) => calls.Answered jobId ∧ jobId ∈ client.pending
  | some (.updated jobId) =>
    calls.Answered jobId ∧ jobId ∈ client.pending ∧ client.allDone = false
  | some (.setting _) => client.pending = ∅
  | _ => True

structure Sound (s : Threads) : Prop where
  calls : s.calls.Sound
  updated_pending : ∀ jobId ∈ s.calls.updated,
    jobId ∈ s.calls.resolved ∨ jobId ∈ s.client.pending
  flag_resolved : s.client.allDone = true → s.calls.updated ⊆ s.calls.resolved
  holder : HolderSound s.client s.calls s.holder

theorem Sound.new : Sound {} where
  calls := .new
  updated_pending jobId h := absurd h (Finset.notMem_empty jobId)
  flag_resolved _ := subset_refl _
  holder := trivial

theorem Sound.resolved_of_empty (h : Sound s) (hp : s.client.pending = ∅) :
    s.calls.updated ⊆ s.calls.resolved := by
  intro j hj
  rcases h.updated_pending j hj with hr | hj
  · exact hr
  · exact absurd (hp ▸ hj) (Finset.notMem_empty j)

theorem Sound.during (h : Sound s) (hw : (s.calls.waits w).during = some before) :
    before ⊆ s.calls.updated :=
  (h.calls.before_returned w before hw).trans h.calls.returned_updated

theorem Sound.statement (h : Sound s) : Sound s.statement := by
  have hat := h.holder
  unfold Threads.statement
  cases hh : s.holder with
  | none => exact h
  | some place =>
    rw [hh] at hat
    cases place with
    | popping jobId =>
      simp only [TaasClient.popEarly_eq_none, if_true]
      exact { h with holder := hat }
    | adding jobId =>
      refine ⟨h.calls, ?_, h.flag_resolved, hat, Finset.mem_insert_self _ _⟩
      intro j hj
      exact (h.updated_pending j hj).imp_right Finset.mem_insert_of_mem
    | clearing jobId => exact ⟨h.calls, h.updated_pending, nofun, hat.1, hat.2, rfl⟩
    | updated jobId =>
      obtain ⟨-, hp, hflag⟩ := hat
      refine ⟨h.calls.mono rfl rfl (Finset.subset_insert _ _) (subset_refl _), ?_, ?_, trivial⟩
      · intro j hj
        rcases Finset.mem_insert.mp hj with rfl | hj
        · exact .inr hp
        · exact h.updated_pending j hj
      · intro hset
        exact absurd (hflag.symm.trans hset) nofun
    | looking jobId =>
      by_cases hp : jobId ∈ s.client.pending
      · simp only [if_pos hp]
        exact { h with holder := trivial }
      · simp only [if_neg hp]
        exact { h with holder := trivial }
    | discarding jobId =>
      have hsub : s.calls.resolved ⊆ insert jobId s.calls.resolved := Finset.subset_insert _ _
      refine ⟨h.calls.mono rfl rfl (subset_refl _) hsub, ?_, ?_, trivial⟩
      · intro j hj
        rcases h.updated_pending j hj with hr | hp
        · exact .inl (hsub hr)
        · by_cases he : j = jobId
          · exact .inl (Finset.mem_insert.mpr (.inl he))
          · exact .inr (Finset.mem_erase.mpr ⟨he, hp⟩)
      · intro hset
        exact (h.flag_resolved hset).trans hsub
    | testing jobId =>
      by_cases hp : s.client.pending = ∅
      · simp only [if_pos hp]
        exact { h with holder := hp }
      · simp only [if_neg hp]
        exact { h with holder := trivial }
    | setting jobId =>
      have hall : s.calls.updated ⊆ s.calls.resolved := h.resolved_of_empty hat
      exact ⟨h.calls.notifyAll hall, h.updated_pending, fun _ => hall, trivial⟩
    | remembering jobId =>
      have hsub : s.calls.resolved ⊆ insert jobId s.calls.resolved := Finset.subset_insert _ _
      refine ⟨h.calls.mono rfl rfl (subset_refl _) hsub, ?_, ?_, trivial⟩
      · intro j hj
        exact (h.updated_pending j hj).imp_left fun hr => hsub hr
      · intro hset
        exact (h.flag_resolved hset).trans hsub
    | capping jobId => exact { h with holder := trivial }
    | resolved jobId =>
      exact ⟨h.calls.mono rfl rfl (subset_refl _) (subset_refl _), h.updated_pending,
        h.flag_resolved, trivial⟩

/-- The calls move on; what the thread with the lock knows of them stays. -/
theorem HolderSound.call {client : TaasClient} {calls : Calls} {holder : Option HolderAt}
    (h : HolderSound client calls holder) {nonePending flag : Bool} {move : CallStep} :
    HolderSound client (calls.step nonePending flag move) holder := by
  have hans : ∀ jobId, calls.Answered jobId →
      (calls.step nonePending flag move).Answered jobId := by
    intro jobId hj
    refine ⟨Calls.submitted_subset_step hj.1, ?_⟩
    rw [Calls.step_updated]
    exact hj.2
  cases holder with
  | none => trivial
  | some place =>
    cases place with
    | popping jobId => exact hans jobId h
    | adding jobId => exact hans jobId h
    | clearing jobId => exact ⟨hans jobId h.1, h.2⟩
    | updated jobId => exact ⟨hans jobId h.1, h.2⟩
    | setting jobId => exact h
    | _ => trivial

theorem Sound.step (h : Sound s) : Sound (s.step a) := by
  cases a with
  | lockUpdate jobId =>
    simp only [Threads.step]
    split
    · next hc => exact { h with holder := hc.2 }
    · exact h
  | lockResolve jobId =>
    simp only [Threads.step]
    split
    · exact { h with holder := trivial }
    · exact h
  | statement => exact h.statement
  | call move =>
    refine ⟨h.calls.step, ?_, ?_, h.holder.call⟩
    · show ∀ j ∈ (s.calls.step _ _ move).updated,
        j ∈ (s.calls.step _ _ move).resolved ∨ j ∈ s.client.pending
      rw [Calls.step_updated, Calls.step_resolved]
      exact h.updated_pending
    · show _ → (s.calls.step _ _ move).updated ⊆ (s.calls.step _ _ move).resolved
      rw [Calls.step_updated, Calls.step_resolved]
      exact h.flag_resolved

theorem sound (as : List ThreadStep) : Sound (as.foldl step {}) := by
  induction as using List.reverseRecOn with
  | nil => exact .new
  | append_singleton as a ih =>
    rw [List.foldl_append]
    exact ih.step

theorem statement_returned (hw : s.statement.calls.waits w = .returned before true) :
    s.calls.waits w = .returned before true := by
  unfold statement at hw
  split at hw <;> first | exact hw | exact Calls.notifyAll_waits_eq_returned.mp hw

theorem Sound.step_returned (h : Sound s)
    (hw : (s.step a).calls.waits w = .returned before true) :
    s.calls.waits w = .returned before true ∨
    ((s.calls.waits w).during = some before ∧ before ⊆ s.calls.resolved) := by
  cases a with
  | lockUpdate jobId =>
    simp only [Threads.step] at hw
    split at hw <;> exact .inl hw
  | lockResolve jobId =>
    simp only [Threads.step] at hw
    split at hw <;> exact .inl hw
  | statement => exact .inl (statement_returned hw)
  | call move =>
    refine h.calls.step_returned (fun hp => h.resolved_of_empty (of_decide_eq_true hp)) ?_ hw
    intro hset hc
    exact (h.during (by rw [hc]; rfl)).trans (h.flag_resolved hset)

theorem means_all (as : List ThreadStep) : MeansAll step calls {} as :=
  meansAll_of_step (fun _ => rfl) (fun _ _ _ _ h => h.step_returned) fun bs _ => sound bs

/-! ## Runs in which no event comes before its submit's update -/

/-- No early id is forgotten: there are never more of them than the client remembers. -/
def Roomy (s : Threads) (a : ThreadStep) : Prop :=
  ∀ jobId, a = .statement → s.holder = some (.capping jobId) →
    s.client.finishedEarly.length ≤ finishedEarlyMax

/-- A submit's `pop` does not find its job among the early ones. -/
def Unmet (s : Threads) (a : ThreadStep) : Prop :=
  ∀ jobId, a = .statement → s.holder = some (.popping jobId) → jobId ∉ s.client.finishedEarly

/-- The event is about to be set, if no job is pending. -/
def Settling : Option HolderAt → Prop
  | some (.testing _) => True
  | some (.setting _) => True
  | _ => False

/-- What the thread with the lock has found or done so far, in these runs. -/
def HolderLive (client : TaasClient) (calls : Calls) : Option HolderAt → Prop
  | some (.adding jobId) => jobId ∉ calls.resolved
  | some (.discarding jobId) =>
    jobId ∈ client.pending ∧ jobId ∈ calls.submitted ∧ jobId ∉ calls.handled
  | some (.testing jobId) =>
    jobId ∈ calls.submitted ∧ jobId ∈ calls.resolved ∧ jobId ∉ calls.handled
  | some (.setting jobId) =>
    jobId ∈ calls.submitted ∧ jobId ∈ calls.resolved ∧ jobId ∉ calls.handled
  | some (.remembering jobId) => jobId ∉ client.pending
  | some (.capping jobId) => jobId ∈ calls.resolved
  | some (.resolved jobId) => jobId ∈ calls.resolved
  | _ => True

structure Live (s : Threads) : Prop where
  updated_submitted : s.calls.updated ⊆ s.calls.submitted
  handled_resolved : s.calls.handled ⊆ s.calls.resolved
  pending_unresolved : ∀ jobId ∈ s.client.pending, jobId ∉ s.calls.resolved
  pending_updated : ∀ jobId ∈ s.client.pending, jobId ∈ s.calls.updated ∨
    s.holder = some (.clearing jobId) ∨ s.holder = some (.updated jobId)
  resolved_early : ∀ jobId ∈ s.calls.resolved, jobId ∉ s.calls.updated →
    jobId ∈ s.client.finishedEarly
  waiting_unset : ∀ w before, s.calls.waits w = .waiting before → s.client.allDone = false
  past_set : ∀ w, (s.calls.waits w).past = true →
    s.client.pending ≠ ∅ ∨ s.client.allDone = true ∨ Settling s.holder
  holder : HolderLive s.client s.calls s.holder

theorem Live.new : Live {} where
  updated_submitted := subset_refl _
  handled_resolved := subset_refl _
  pending_unresolved jobId h := absurd h (Finset.notMem_empty jobId)
  pending_updated jobId h := absurd h (Finset.notMem_empty jobId)
  resolved_early jobId h := absurd h (Finset.notMem_empty jobId)
  waiting_unset w before h := by cases h
  past_set w h := by cases h
  holder := trivial

/-! ### The statements of `submit` -/

theorem Live.pending_subset (h : Live s) {holder : Option HolderAt} (hh : s.holder = holder)
    (hne : ∀ jobId, holder ≠ some (.clearing jobId) ∧ holder ≠ some (.updated jobId)) :
    s.client.pending ⊆ s.calls.updated := by
  intro j hj
  rcases h.pending_updated j hj with hu | hc | hc
  · exact hu
  · exact absurd (hh.symm.trans hc) (hne j).1
  · exact absurd (hh.symm.trans hc) (hne j).2

theorem Live.past_of_not_settling (h : Live s) {holder : Option HolderAt} (hh : s.holder = holder)
    (hne : ¬ Settling holder) {p : Prop} (w : ℕ) (hw : (s.calls.waits w).past = true) :
    s.client.pending ≠ ∅ ∨ s.client.allDone = true ∨ p := by
  rcases h.past_set w hw with hp | hset | hset
  · exact .inl hp
  · exact .inr (.inl hset)
  · rw [hh] at hset
    exact absurd hset hne

/-- A statement that only tells where to go on. -/
theorem Live.goTo (h : Live s) {holder : Option HolderAt}
    (hp : s.client.pending ⊆ s.calls.updated)
    (hpast : ∀ w, (s.calls.waits w).past = true →
      s.client.pending ≠ ∅ ∨ s.client.allDone = true ∨ Settling holder)
    (hat : HolderLive s.client s.calls holder) : Live { s with holder := holder } :=
  { h with pending_updated := fun _ hj => .inl (hp hj), past_set := hpast, holder := hat }

theorem Live.pop (h : Live s) (hs : Sound s) (hh : s.holder = some (.popping jobId))
    (hearly : jobId ∉ s.client.finishedEarly) : Live s.statement := by
  have hans := hs.holder
  have hp := h.pending_subset hh (by simp)
  have hpast := h.past_of_not_settling hh id (p := Settling (some (.adding jobId)))
  unfold Threads.statement
  rw [hh] at hans ⊢
  simp only [TaasClient.popEarly_eq_none, if_true, List.erase_of_not_mem hearly]
  exact h.goTo hp hpast fun hr => hearly (h.resolved_early jobId hr hans.2)

theorem Live.add (h : Live s) (hh : s.holder = some (.adding jobId)) : Live s.statement := by
  have hnew := h.holder
  have hp := h.pending_subset hh (by simp)
  unfold Threads.statement
  rw [hh] at hnew ⊢
  refine { h with
    pending_unresolved := ?_, pending_updated := ?_
    past_set := fun w _ => .inl (Finset.insert_ne_empty _ _), holder := trivial }
  · intro j hj
    rcases Finset.mem_insert.mp hj with rfl | hj
    · exact hnew
    · exact h.pending_unresolved j hj
  · intro j hj
    rcases Finset.mem_insert.mp hj with rfl | hj
    · exact .inr (.inl rfl)
    · exact .inl (hp hj)

theorem Live.clear (h : Live s) (hs : Sound s) (hh : s.holder = some (.clearing jobId)) :
    Live s.statement := by
  have hat := hs.holder
  have hup := h.pending_updated
  unfold Threads.statement
  rw [hh] at hat hup ⊢
  refine { h with
    pending_updated := ?_, waiting_unset := fun _ _ _ => rfl
    past_set := fun w _ => .inl (Finset.ne_empty_of_mem hat.2), holder := trivial }
  intro j hj
  simpa using hup j hj

theorem Live.endUpdate (h : Live s) (hs : Sound s) (hh : s.holder = some (.updated jobId)) :
    Live s.statement := by
  have hat := hs.holder
  have hup := h.pending_updated
  have hsub : s.calls.updated ⊆ insert jobId s.calls.updated := Finset.subset_insert _ _
  unfold Threads.statement
  rw [hh] at hat hup ⊢
  obtain ⟨hans, hp, -⟩ := hat
  refine { h with
    updated_submitted := Finset.insert_subset hans.1 h.updated_submitted
    pending_updated := ?_, resolved_early := ?_
    past_set := fun w _ => .inl (Finset.ne_empty_of_mem hp), holder := trivial }
  · intro j hj
    rcases hup j hj with hu | hc | hu
    · exact .inl (hsub hu)
    · cases hc
    · cases hu
      exact .inl (Finset.mem_insert_self _ _)
  · intro j hj hu
    exact h.resolved_early j hj fun hu' => hu (hsub hu')

/-! ### The statements of `_resolve` -/

theorem Live.look (h : Live s) (hh : s.holder = some (.looking jobId)) : Live s.statement := by
  have hup := h.pending_subset hh (by simp)
  have hpast := h.past_of_not_settling hh id (p := Settling (some (.remembering jobId)))
  unfold Threads.statement
  rw [hh]
  by_cases hp : jobId ∈ s.client.pending
  · simp only [if_pos hp]
    have hres : jobId ∉ s.calls.resolved := h.pending_unresolved jobId hp
    exact h.goTo hup (fun w _ => .inl (Finset.ne_empty_of_mem hp))
      ⟨hp, h.updated_submitted (hup hp), fun hd => hres (h.handled_resolved hd)⟩
  · simp only [if_neg hp]
    exact h.goTo hup hpast hp

theorem Live.discard (h : Live s) (hh : s.holder = some (.discarding jobId)) :
    Live s.statement := by
  have hat := h.holder
  have hup := h.pending_subset hh (by simp)
  have hsub : s.calls.resolved ⊆ insert jobId s.calls.resolved := Finset.subset_insert _ _
  unfold Threads.statement
  rw [hh] at hat ⊢
  obtain ⟨hp, hans, hnot⟩ := hat
  refine { h with
    handled_resolved := h.handled_resolved.trans hsub
    pending_unresolved := ?_, pending_updated := ?_, resolved_early := ?_
    past_set := fun w _ => .inr (.inr trivial)
    holder := ⟨hans, Finset.mem_insert_self _ _, hnot⟩ }
  · intro j hj
    obtain ⟨hne, hj⟩ := Finset.mem_erase.mp hj
    rw [Finset.mem_insert, not_or]
    exact ⟨hne, h.pending_unresolved j hj⟩
  · exact fun j hj => .inl (hup (Finset.mem_of_mem_erase hj))
  · intro j hj hu
    rcases Finset.mem_insert.mp hj with rfl | hj
    · exact absurd (hup hp) hu
    · exact h.resolved_early j hj hu

theorem Live.test (h : Live s) (hh : s.holder = some (.testing jobId)) : Live s.statement := by
  have hat := h.holder
  have hup := h.pending_subset hh (by simp)
  unfold Threads.statement
  rw [hh] at hat ⊢
  by_cases hp : s.client.pending = ∅
  · simp only [if_pos hp]
    exact h.goTo hup (fun w _ => .inr (.inr trivial)) hat
  · simp only [if_neg hp]
    exact h.goTo hup (fun w _ => .inl hp) hat.2.1

theorem Live.set (h : Live s) (hh : s.holder = some (.setting jobId)) : Live s.statement := by
  have hat := h.holder
  have hup := h.pending_subset hh (by simp)
  unfold Threads.statement
  rw [hh] at hat ⊢
  exact { h with
    pending_updated := fun j hj => .inl (hup hj)
    waiting_unset := fun w before hw => absurd hw Calls.notifyAll_waits_ne_waiting
    past_set := fun w _ => .inr (.inl rfl)
    holder := hat.2.1 }

theorem Live.remember (h : Live s) (hh : s.holder = some (.remembering jobId)) :
    Live s.statement := by
  have hat := h.holder
  have hup := h.pending_subset hh (by simp)
  have hpast := h.past_of_not_settling hh id (p := Settling (some (.capping jobId)))
  have hsub : s.calls.resolved ⊆ insert jobId s.calls.resolved := Finset.subset_insert _ _
  unfold Threads.statement
  rw [hh] at hat ⊢
  refine { h with
    handled_resolved := h.handled_resolved.trans hsub
    pending_unresolved := ?_, pending_updated := fun j hj => .inl (hup hj)
    resolved_early := ?_, past_set := hpast, holder := Finset.mem_insert_self _ _ }
  · intro j hj
    rw [Finset.mem_insert, not_or]
    exact ⟨fun he => hat (he ▸ hj), h.pending_unresolved j hj⟩
  · intro j hj hu
    rcases Finset.mem_insert.mp hj with rfl | hj
    · exact mem_putKey.mpr (.inl rfl)
    · exact mem_putKey.mpr (.inr (h.resolved_early j hj hu))

theorem Live.cap (h : Live s) (hh : s.holder = some (.capping jobId))
    (hlen : s.client.finishedEarly.length ≤ finishedEarlyMax) : Live s.statement := by
  have hat := h.holder
  have hup := h.pending_subset hh (by simp)
  have hpast := h.past_of_not_settling hh id (p := Settling (some (.resolved jobId)))
  unfold Threads.statement
  rw [hh] at hat ⊢
  simp only [if_neg (Nat.not_lt.mpr hlen)]
  exact h.goTo hup hpast hat

theorem Live.endResolve (h : Live s) (hh : s.holder = some (.resolved jobId)) :
    Live s.statement := by
  have hat := h.holder
  have hup := h.pending_subset hh (by simp)
  have hpast := h.past_of_not_settling hh id (p := Settling none)
  unfold Threads.statement
  rw [hh] at hat ⊢
  exact { h with
    handled_resolved := Finset.insert_subset hat h.handled_resolved
    pending_updated := fun j hj => .inl (hup hj), past_set := hpast, holder := trivial }

theorem Live.statement (h : Live s) (hs : Sound s) (hroom : Roomy s .statement)
    (hunmet : Unmet s .statement) : Live s.statement := by
  cases hh : s.holder with
  | none =>
    unfold Threads.statement
    rw [hh]
    exact h
  | some place =>
    cases place with
    | popping jobId => exact h.pop hs hh (hunmet jobId rfl hh)
    | adding jobId => exact h.add hh
    | clearing jobId => exact h.clear hs hh
    | updated jobId => exact h.endUpdate hs hh
    | looking jobId => exact h.look hh
    | discarding jobId => exact h.discard hh
    | testing jobId => exact h.test hh
    | setting jobId => exact h.set hh
    | remembering jobId => exact h.remember hh
    | capping jobId => exact h.cap hh (hroom jobId rfl hh)
    | resolved jobId => exact h.endResolve hh

/-! ### Runs -/

theorem HolderLive.call {client : TaasClient} {calls : Calls} {holder : Option HolderAt}
    (h : HolderLive client calls holder) {nonePending flag : Bool} {move : CallStep} :
    HolderLive client (calls.step nonePending flag move) holder := by
  have hsub : calls.submitted ⊆ (calls.step nonePending flag move).submitted :=
    Calls.submitted_subset_step
  cases holder with
  | none => trivial
  | some place =>
    cases place <;> simp only [HolderLive, Calls.step_resolved, Calls.step_handled] at h ⊢
    case discarding jobId => exact ⟨h.1, hsub h.2.1, h.2.2⟩
    case testing jobId => exact ⟨hsub h.1, h.2⟩
    case setting jobId => exact ⟨hsub h.1, h.2⟩
    all_goals exact h

theorem Live.call (h : Live s) {move : CallStep} : Live (s.step (.call move)) where
  updated_submitted := by
    show (s.calls.step _ _ move).updated ⊆ _
    rw [Calls.step_updated]
    exact h.updated_submitted.trans Calls.submitted_subset_step
  handled_resolved := by
    show (s.calls.step _ _ move).handled ⊆ (s.calls.step _ _ move).resolved
    rw [Calls.step_handled, Calls.step_resolved]
    exact h.handled_resolved
  pending_unresolved := by
    show ∀ j ∈ s.client.pending, j ∉ (s.calls.step _ _ move).resolved
    rw [Calls.step_resolved]
    exact h.pending_unresolved
  pending_updated := by
    show ∀ j ∈ s.client.pending, j ∈ (s.calls.step _ _ move).updated ∨ _
    rw [Calls.step_updated]
    exact h.pending_updated
  resolved_early := by
    show ∀ j ∈ (s.calls.step _ _ move).resolved, j ∉ (s.calls.step _ _ move).updated →
      j ∈ s.client.finishedEarly
    rw [Calls.step_resolved, Calls.step_updated]
    exact h.resolved_early
  waiting_unset w before hw := by
    rcases Calls.step_waits_eq_waiting hw with hw | hset
    · exact h.waiting_unset w before hw
    · exact hset
  past_set w hw := by
    rcases Calls.step_past hw with hw | hp
    · exact h.past_set w hw
    · exact .inl (of_decide_eq_false hp)
  holder := h.holder.call

theorem Live.step (h : Live s) (hs : Sound s) (hroom : Roomy s a) (hunmet : Unmet s a) :
    Live (s.step a) := by
  cases a with
  | lockUpdate jobId =>
    simp only [Threads.step]
    split
    · next hc =>
      exact h.goTo (h.pending_subset hc.1 (by simp)) (h.past_of_not_settling hc.1 id) trivial
    · exact h
  | lockResolve jobId =>
    simp only [Threads.step]
    split
    · next hc =>
      exact h.goTo (h.pending_subset hc (by simp)) (h.past_of_not_settling hc id) trivial
    · exact h
  | statement => exact h.statement hs hroom hunmet
  | call move => exact h.call

theorem live {as : List ThreadStep} (h : Obeys step (fun s a => Roomy s a ∧ Unmet s a) {} as) :
    Live (as.foldl step {}) := by
  have hboth : Sound (as.foldl step {}) ∧ Live (as.foldl step {}) :=
    h.inv (I := fun s => Sound s ∧ Live s)
      (fun s a hs ha => ⟨hs.1.step, hs.2.step hs.1 ha.1 ha.2⟩) ⟨.new, .new⟩
  exact hboth.2

/-- Nothing is pending, nobody still waits for the event, and it is set for who saw jobs pending. -/
theorem Live.quiet (h : Live s) (hs : Sound s) (hq : s.calls.Quiet) :
    s.client.pending = ∅ ∧ (∀ w before, s.calls.waits w ≠ .waiting before) ∧
      ∀ w before, s.calls.waits w = .checked before → s.client.allDone = true := by
  have hempty : s.client.pending = ∅ := by
    by_contra hne
    obtain ⟨j, hj⟩ := Finset.nonempty_iff_ne_empty.mpr hne
    have hsub : j ∈ s.calls.submitted := by
      have hsat := hs.holder
      rcases h.pending_updated j hj with hu | hh | hh
      · exact h.updated_submitted hu
      · rw [hh] at hsat
        exact hsat.1.1
      · rw [hh] at hsat
        exact hsat.1.1
    exact h.pending_unresolved j hj (h.handled_resolved (hq.1 hsub))
  have hsettled : ¬ Settling s.holder := by
    -- the job whose `_resolve` is at it has not been handled
    have hat := h.holder
    intro hset
    cases hh : s.holder with
    | none =>
      rw [hh] at hset
      exact hset
    | some place =>
      rw [hh] at hset hat
      cases place with
      | testing jobId => exact hat.2.2 (hq.1 hat.1)
      | setting jobId => exact hat.2.2 (hq.1 hat.1)
      | _ => exact hset
  have hflag : ∀ w, (s.calls.waits w).past = true → s.client.allDone = true := by
    intro w hw
    rcases h.past_set w hw with hp | hset | hset
    · exact absurd hempty hp
    · exact hset
    · exact absurd hset hsettled
  refine ⟨hempty, ?_, ?_⟩
  · intro w before hw
    have hset : s.client.allDone = true := hflag w (by rw [hw]; rfl)
    exact absurd ((h.waiting_unset w before hw).symm.trans hset) nofun
  · intro w before hw
    exact hflag w (by rw [hw]; rfl)

theorem answersAll (hempty : s.client.pending = ∅)
    (hwaiting : ∀ w before, s.calls.waits w ≠ .waiting before)
    (hchecked : ∀ w before, s.calls.waits w = .checked before → s.client.allDone = true) :
    AnswersAll step calls .call s := by
  intro w
  simp only [List.map_cons, List.map_nil, List.foldl_cons, List.foldl_nil, step, hempty,
    decide_true]
  exact s.calls.answers w (hwaiting w) (hchecked w)

/-! ## After an event that came too early -/

/-- The job is pending or about to be, and nobody is about to resolve it. -/
def Stuck (jobId : JobId) (pending : Finset JobId) : Option HolderAt → Prop
  | some (.adding j) => j = jobId ∨ jobId ∈ pending
  | some (.looking j) => j ≠ jobId ∧ jobId ∈ pending
  | some (.discarding j) => j ≠ jobId ∧ jobId ∈ pending
  | _ => jobId ∈ pending

/-- A `pop` is the start of it, whatever it finds. -/
theorem stuck_of_popping (hh : s.holder = some (.popping jobId)) :
    Stuck jobId s.statement.client.pending s.statement.holder := by
  unfold Threads.statement
  rw [hh]
  simp only [TaasClient.popEarly_eq_none, if_true]
  exact .inl rfl

theorem Stuck.statement (h : Stuck jobId s.client.pending s.holder) :
    Stuck jobId s.statement.client.pending s.statement.holder := by
  unfold Threads.statement
  cases hh : s.holder with
  | none =>
    rw [hh] at h
    simpa only [hh] using h
  | some place =>
    rw [hh] at h
    cases place with
    | popping j =>
      simp only [TaasClient.popEarly_eq_none, if_true]
      exact .inr h
    | adding j =>
      rcases h with rfl | h
      · exact Finset.mem_insert_self _ _
      · exact Finset.mem_insert_of_mem h
    | looking j =>
      by_cases hp : j ∈ s.client.pending
      · simp only [if_pos hp]
        exact h
      · simp only [if_neg hp]
        exact h.2
    | discarding j => exact Finset.mem_erase.mpr ⟨h.1.symm, h.2⟩
    | testing j =>
      by_cases hp : s.client.pending = ∅
      · rw [hp] at h
        exact absurd h (Finset.notMem_empty jobId)
      · simp only [if_neg hp]
        exact h
    | _ => exact h

theorem Stuck.step (h : Stuck jobId s.client.pending s.holder) (ha : a ≠ .lockResolve jobId) :
    Stuck jobId (s.step a).client.pending (s.step a).holder := by
  cases a with
  | lockUpdate j =>
    simp only [Threads.step]
    split
    · next hc =>
      rw [hc.1] at h
      exact h
    · exact h
  | lockResolve j =>
    simp only [Threads.step]
    split
    · next hc =>
      rw [hc] at h
      exact ⟨fun he => ha (he ▸ rfl), h⟩
    · exact h
  | statement => exact h.statement
  | call move => exact h

theorem Stuck.run (h : Stuck jobId s.client.pending s.holder) {bs : List ThreadStep}
    (hb : .lockResolve jobId ∉ bs) :
    Stuck jobId (bs.foldl Threads.step s).client.pending (bs.foldl Threads.step s).holder := by
  induction bs generalizing s with
  | nil => exact h
  | cons a bs ih =>
    rw [List.mem_cons, not_or] at hb
    exact ih (h.step (Ne.symm hb.1)) hb.2

theorem Stuck.pending_ne (h : Stuck jobId s.client.pending s.holder) (hs : Sound s)
    (hq : s.calls.Quiet) : s.client.pending ≠ ∅ := by
  have hat := hs.holder
  cases hh : s.holder with
  | none =>
    rw [hh] at h
    exact Finset.ne_empty_of_mem h
  | some place =>
    rw [hh] at h hat
    cases place with
    | adding j =>
      -- this submit has not returned
      exact absurd (hs.calls.returned_updated (hq.2 hat.1)) hat.2
    | looking j => exact Finset.ne_empty_of_mem h.2
    | discarding j => exact Finset.ne_empty_of_mem h.2
    | _ => exact Finset.ne_empty_of_mem h

end Threads

/-! ## The async client -/

namespace AsyncTaasClient

/-- No early id is forgotten. -/
def Roomy (s : InUse TaasClient) (a : ClientStep) : Prop :=
  ∀ jobId, a = .resolve jobId → jobId ∉ s.client.pending →
    (putKey jobId s.client.finishedEarly).length ≤ finishedEarlyMax

/-- A submit's `pop` does not find its job among the early ones. -/
def Unmet (s : InUse TaasClient) (a : ClientStep) : Prop :=
  ∀ jobId, a = .update jobId → s.calls.Answered jobId → jobId ∉ s.client.finishedEarly

/-- A block of the async client, as the threaded one runs it. -/
def block : ClientStep → List ThreadStep
  | .update jobId => [.lockUpdate jobId, .statement, .statement, .statement, .statement]
  | .resolve jobId =>
    [.lockResolve jobId, .statement, .statement, .statement, .statement, .statement]
  | .call move => [.call move]

/-- The async client, as a threaded one whose lock is free. -/
def threads (s : InUse TaasClient) : Threads := { client := s.client, calls := s.calls }

theorem threads_step (s : InUse TaasClient) (a : ClientStep) :
    threads (step s a) = (block a).foldl Threads.step (threads s) := by
  cases a with
  | update jobId =>
    simp only [block, List.foldl_cons, List.foldl_nil, Threads.step, threads, step,
      ClientCode.step, code, TaasClient.update, TaasClient.popEarly_eq_none, if_true, true_and]
    split <;> simp [Threads.statement, TaasClient.popEarly_eq_none]
  | resolve jobId =>
    simp only [block, List.foldl_cons, List.foldl_nil, Threads.step, threads, step,
      ClientCode.step, code, TaasClient.resolve, if_true]
    by_cases hp : jobId ∈ s.client.pending
    · by_cases hl : s.client.pending.erase jobId = ∅
      · simp [Threads.statement, hp, hl, ClientCode.isLast, Calls.notifyAll]
      · simp [Threads.statement, hp, hl, ClientCode.isLast]
    · simp [Threads.statement, hp, ClientCode.isLast, putKey]
  | call move => rfl

variable {s : InUse TaasClient} {a : ClientStep} {as : List ClientStep}

/-- What is asked of a step is asked of the statements of its block. -/
theorem obeys_block (hroom : Roomy s a) (hunmet : Unmet s a) :
    Obeys Threads.step (fun s a => Threads.Roomy s a ∧ Threads.Unmet s a) (threads s)
      (block a) := by
  cases a with
  | update jobId =>
    by_cases hans : s.calls.Answered jobId
    · have hearly : jobId ∉ s.client.finishedEarly := hunmet jobId rfl hans
      simp [block, Obeys, Threads.Roomy, Threads.Unmet, Threads.step, Threads.statement, threads,
        TaasClient.popEarly_eq_none, hans, hearly]
    · simp [block, Obeys, Threads.Roomy, Threads.Unmet, Threads.step, Threads.statement, threads,
        hans]
  | resolve jobId =>
    by_cases hp : jobId ∈ s.client.pending
    · by_cases hl : s.client.pending.erase jobId = ∅ <;>
        simp [block, Obeys, Threads.Roomy, Threads.Unmet, Threads.step, Threads.statement, threads,
          hp, hl]
    · have hlen : (putKey jobId s.client.finishedEarly).length ≤ finishedEarlyMax :=
        hroom jobId rfl hp
      simp [block, Obeys, Threads.Roomy, Threads.Unmet, Threads.step, Threads.statement, threads,
        hp, hlen]
  | call move => simp [block, Obeys, Threads.Roomy, Threads.Unmet]

theorem threads_run : threads (as.foldl step new) = (as.flatMap block).foldl Threads.step {} := by
  induction as using List.reverseRecOn with
  | nil => rfl
  | append_singleton as a ih =>
    rw [List.foldl_append, List.flatMap_append, List.foldl_append, ← ih, List.flatMap_singleton]
    exact threads_step _ a

theorem obeys_flatMap_block (h : Obeys step (fun s a => Roomy s a ∧ Unmet s a) new as) :
    Obeys Threads.step (fun s a => Threads.Roomy s a ∧ Threads.Unmet s a) {}
      (as.flatMap block) := by
  induction as using List.reverseRecOn with
  | nil => trivial
  | append_singleton as a ih =>
    obtain ⟨has, ha, -⟩ := obeys_append.mp h
    rw [List.flatMap_append, List.flatMap_singleton]
    refine obeys_append.mpr ⟨ih has, ?_⟩
    rw [← threads_run]
    exact obeys_block ha.1 ha.2

theorem sound (as : List ClientStep) : (threads (as.foldl step new)).Sound := by
  rw [threads_run]
  exact Threads.sound _

theorem means_all (as : List ClientStep) : MeansAll step InUse.calls new as := by
  refine meansAll_of_step (I := fun s => (threads s).Sound) (fun _ => rfl) ?_ fun bs _ => sound bs
  intro s a w before h hw
  refine ClientCode.step_returned h.calls h.resolved_of_empty ?_ hw
  intro hset hc
  exact (h.during (by rw [show (threads s).calls.waits w = _ from hc]; rfl)).trans
    (h.flag_resolved hset)

/-- A job that was added after its event stays pending until the event comes again. -/
theorem stuck_run {jobId : JobId} (hp : jobId ∈ s.client.pending) {bs : List ClientStep}
    (hb : .resolve jobId ∉ bs) : jobId ∈ (bs.foldl step s).client.pending := by
  induction bs generalizing s with
  | nil => exact hp
  | cons a bs ih =>
    rw [List.mem_cons, not_or] at hb
    refine ih ?_ hb.2
    cases a with
    | update j =>
      simp only [step, ClientCode.step]
      split
      · simp only [code, TaasClient.update, TaasClient.popEarly_eq_none, if_true]
        exact Finset.mem_insert_of_mem hp
      · exact hp
    | resolve j =>
      have hne : jobId ≠ j := fun he => hb.1 (he ▸ rfl)
      show jobId ∈ (s.client.resolve j).pending
      unfold TaasClient.resolve
      split
      · exact Finset.mem_erase.mpr ⟨hne, hp⟩
      · exact hp
    | call move => exact hp

end AsyncTaasClient

/-! ## Both clients -/

theorem Threads.neverHangs {as : List ThreadStep}
    (h : Obeys Threads.step (fun s a => Roomy s a ∧ Unmet s a) {} as) :
    NeverHangs step calls (fun s => s.client.pending) .call (run as) := by
  intro hq
  obtain ⟨hempty, hwaiting, hchecked⟩ := (live h).quiet (sound as) hq
  exact ⟨hempty, answersAll hempty hwaiting hchecked⟩

theorem AsyncTaasClient.neverHangs {as : List ClientStep}
    (h : Obeys step (fun s a => Roomy s a ∧ Unmet s a) new as) :
    NeverHangs step InUse.calls (fun s => s.client.pending) .call (run as) := by
  intro hq
  have hlive : (threads (as.foldl step new)).Live := by
    rw [threads_run]
    exact Threads.live (obeys_flatMap_block h)
  obtain ⟨hempty, hwaiting, hchecked⟩ := hlive.quiet (sound as) hq
  exact ⟨hempty, ClientCode.answersAll hempty hwaiting hchecked⟩

/-- **`wait` means all; and it never hangs where no event is handled before its job's submit has
made its update.** After a submit whose `pop` finds its job, the pending set is not empty in any
quiet state, until that job's event comes again. -/
theorem wait_means_all (as : List ThreadStep) (cs : List ClientStep) :
    (MeansAll Threads.step Threads.calls {} as ∧
      (Obeys Threads.step (fun s a => Threads.Roomy s a ∧ Threads.Unmet s a) {} as →
        NeverHangs Threads.step Threads.calls (fun s => s.client.pending) .call
          (Threads.run as)) ∧
      ∀ a, ¬ Threads.Unmet (Threads.run as) a →
        ∃ jobId, ∀ bs, .lockResolve jobId ∉ bs → (Threads.run (as ++ a :: bs)).calls.Quiet →
          (Threads.run (as ++ a :: bs)).client.pending ≠ ∅) ∧
    MeansAll AsyncTaasClient.step InUse.calls AsyncTaasClient.new cs ∧
      (Obeys AsyncTaasClient.step
          (fun s a => AsyncTaasClient.Roomy s a ∧ AsyncTaasClient.Unmet s a)
          AsyncTaasClient.new cs →
        NeverHangs AsyncTaasClient.step InUse.calls (fun s => s.client.pending) .call
          (AsyncTaasClient.run cs)) ∧
      ∀ a, ¬ AsyncTaasClient.Unmet (AsyncTaasClient.run cs) a →
        ∃ jobId, ∀ bs, .resolve jobId ∉ bs →
          (AsyncTaasClient.run (cs ++ a :: bs)).client.pending ≠ ∅ := by
  refine ⟨⟨Threads.means_all as, Threads.neverHangs, ?_⟩,
    AsyncTaasClient.means_all cs, AsyncTaasClient.neverHangs, ?_⟩
  · intro a hmet
    simp only [Threads.Unmet, not_forall, not_not] at hmet
    obtain ⟨jobId, rfl, hh, -⟩ := hmet
    refine ⟨jobId, ?_⟩
    intro bs hb hq
    have hrun : Threads.run (as ++ .statement :: bs) =
        bs.foldl Threads.step (Threads.run as).statement := List.foldl_append
    have hstuck := (Threads.stuck_of_popping hh).run hb
    rw [← hrun] at hstuck
    exact hstuck.pending_ne (Threads.sound _) hq
  · intro a hmet
    simp only [AsyncTaasClient.Unmet, not_forall, not_not] at hmet
    obtain ⟨jobId, rfl, hans, -⟩ := hmet
    refine ⟨jobId, ?_⟩
    intro bs hb
    have hrun : AsyncTaasClient.run (cs ++ .update jobId :: bs) = bs.foldl AsyncTaasClient.step
        (AsyncTaasClient.step (AsyncTaasClient.run cs) (.update jobId)) := List.foldl_append
    rw [hrun]
    refine Finset.ne_empty_of_mem (AsyncTaasClient.stuck_run ?_ hb)
    simp [AsyncTaasClient.step, ClientCode.step, AsyncTaasClient.code, hans, TaasClient.update,
      TaasClient.popEarly_eq_none]

/-- A page whose event comes after its submit, and a wait that sees it through. -/
def slowPage : List ThreadStep :=
  [.call (.respond 1), .lockUpdate 1, .statement, .statement, .statement, .statement,
    .call (.submitReturns 1), .call (.call 0), .call (.check 0), .call (.await 0),
    .lockResolve 1, .statement, .statement, .statement, .statement, .statement, .call (.wake 0)]

def asyncSlowPage : List ClientStep :=
  [.call (.respond 1), .update 1, .call (.submitReturns 1), .call (.call 0), .call (.check 0),
    .call (.await 0), .resolve 1, .call (.wake 0)]

/-- A wait adds no job and resolves none. -/
theorem AsyncTaasClient.fits_call (s : InUse TaasClient) (move : CallStep) :
    Roomy s (.call move) ∧ Unmet s (.call move) := by
  refine ⟨fun jobId h => ?_, fun jobId h => ?_⟩
  · cases h
  · cases h

/-- The waits return true, and the next ones will. -/
theorem wait_means_all_sample :
    ((Threads.run slowPage).calls.waits 0 = .returned {1} true ∧
      AnswersAll Threads.step Threads.calls .call (Threads.run slowPage)) ∧
    (AsyncTaasClient.run asyncSlowPage).calls.waits 0 = .returned {1} true ∧
      AnswersAll AsyncTaasClient.step InUse.calls .call (AsyncTaasClient.run asyncSlowPage) := by
  obtain ⟨⟨-, hthreads, -⟩, -, hasync, -⟩ := wait_means_all slowPage asyncSlowPage
  refine ⟨⟨by decide +kernel, (hthreads ?_ ⟨by decide +kernel, by decide +kernel⟩).2⟩,
    by decide +kernel, (hasync ?_ ⟨by decide +kernel, by decide +kernel⟩).2⟩
  · simp [slowPage, Obeys, Threads.Roomy, Threads.Unmet, Threads.step, Threads.statement,
      Calls.step, Calls.Answered, TaasClient.popEarly_eq_none]
  · have hcall := AsyncTaasClient.fits_call
    refine ⟨hcall _ _, ⟨fun jobId h => ?_, fun jobId h _ => ?_⟩, hcall _ _, hcall _ _, hcall _ _,
      hcall _ _, ⟨fun jobId h hp => ?_, fun jobId h => ?_⟩, hcall _ _, trivial⟩
    · cases h
    · cases h
      decide +kernel
    · cases h
      exact absurd (by decide +kernel) hp
    · cases h

/-- The event of a page comes before the response to its submit. -/
def fastPage : List ThreadStep :=
  [.lockResolve 1, .statement, .statement, .statement, .statement, .call (.respond 1),
    .lockUpdate 1, .statement, .statement, .statement, .statement, .call (.submitReturns 1)]

def asyncFastPage : List ClientStep :=
  [.resolve 1, .call (.respond 1), .update 1, .call (.submitReturns 1)]

/-- The job's event has been handled and its submit has returned, but the job is pending; a wait
that is called now goes to sleep. -/
theorem fastPage_hangs :
    (Obeys Threads.step Threads.Roomy {} fastPage ∧
      ¬ NeverHangs Threads.step Threads.calls (fun s => s.client.pending) .call
        (Threads.run fastPage) ∧
      (Threads.run (fastPage ++ [.call (.call 0), .call (.check 0), .call (.await 0)])).calls.waits
        0 = .waiting {1}) ∧
    Obeys AsyncTaasClient.step AsyncTaasClient.Roomy AsyncTaasClient.new asyncFastPage ∧
      ¬ NeverHangs AsyncTaasClient.step InUse.calls (fun s => s.client.pending) .call
        (AsyncTaasClient.run asyncFastPage) ∧
      (AsyncTaasClient.run (asyncFastPage ++
        [.call (.call 0), .call (.check 0), .call (.await 0)])).calls.waits 0 = .waiting {1} := by
  refine ⟨⟨?_, ?_, by decide +kernel⟩, ?_, ?_, by decide +kernel⟩
  · simp [fastPage, Obeys, Threads.Roomy, Threads.step, Threads.statement, Calls.step,
      Calls.Answered, TaasClient.popEarly_eq_none, putKey, finishedEarlyMax]
  · intro h
    have hempty := (h ⟨by decide +kernel, by decide +kernel⟩).1
    exact absurd hempty (by decide +kernel)
  · simp [asyncFastPage, Obeys, AsyncTaasClient.Roomy, AsyncTaasClient.new, putKey,
      finishedEarlyMax]
  · intro h
    have hempty := (h ⟨by decide +kernel, by decide +kernel⟩).1
    exact absurd hempty (by decide +kernel)

end Taas

import Mathlib.Tactic.Linarith
import Taas.Infra.Runs
import Taas.Workers.Syncs

/-!
# One domain sync at a time

* `SyncWorker.Good` — the invariant: a backend has one task at most, which began when it was due.
* `syncs_apart` — whatever health checks overlap and whatever fails, the syncs of a backend that
  succeed lie apart, and a task is never forgotten.
-/

namespace Taas

open Infra

namespace SyncWorker

/-- The backends of the tasks. -/
def syncing (w : SyncWorker) : List BackendId := w.syncTasks.map SyncTask.backendId

/-- Every backend in flight has one task, a task that is not over began when it was due, and the
successes of a backend are apart, the last of them the one remembered. -/
structure Good (w : SyncWorker) : Prop where
  single : w.syncing.Nodup
  inflight : ∀ b, b ∈ w.domainSyncInflight ↔ b ∈ w.syncing
  due : ∀ task ∈ w.syncTasks, task.place ≠ .ended →
    w.syncedAt task.backendId + w.domainSyncSeconds ≤ w.now
  past : ∀ success ∈ w.succeeded, success.2 ≤ w.syncedAt success.1 ∧ success.2 ≤ w.now
  apart : w.succeeded.Pairwise fun s s' => s.1 = s'.1 → s.2 + w.domainSyncSeconds ≤ s'.2

variable {w : SyncWorker} {backendId : BackendId} {k : Nat}

theorem good_new (now domainSyncSeconds healthCacheSeconds : ℚ) :
    (new now domainSyncSeconds healthCacheSeconds).Good where
  single := List.nodup_nil
  inflight _ := by simp [new, syncing]
  due _ h := absurd h List.not_mem_nil
  past _ h := absurd h List.not_mem_nil
  apart := List.Pairwise.nil

theorem Good.spawnDomainSync (h : w.Good) : (w.spawnDomainSync backendId).Good := by
  unfold SyncWorker.spawnDomainSync
  split
  · exact h
  · next hnew =>
    split
    · exact h
    · next hdue =>
      have hnot : backendId ∉ w.syncing := fun hmem => hnew ((h.inflight _).mpr hmem)
      refine ⟨?_, fun b => ?_, fun task htask hplace => ?_, h.past, h.apart⟩
      · rw [syncing, List.map_append]
        refine List.nodup_append.mpr ⟨h.single, List.nodup_singleton _, ?_⟩
        intro a ha b hb heq
        obtain rfl := List.mem_singleton.mp hb
        exact hnot (heq ▸ ha)
      · rw [Finset.mem_insert, h.inflight, syncing, syncing, List.map_append, List.mem_append,
          List.map_singleton, List.mem_singleton]
        exact or_comm
      · rcases List.mem_append.mp htask with htask | htask
        · exact h.due task htask hplace
        · obtain rfl := List.mem_singleton.mp htask
          have hle : w.syncedAt backendId + w.domainSyncSeconds ≤ w.now := by
            linarith [not_lt.mp hdue]
          exact hle

/-- A task goes on. Only its place changes, and what is over stays over. -/
theorem Good.setTask (h : w.Good) (place : SyncPlace) {task : SyncTask}
    (hk : w.syncTasks[k]? = some task) (hplace : task.place ≠ .ended) :
    ({ w with syncTasks := w.syncTasks.set k { task with place := place } } : SyncWorker).Good := by
  have hsame : (w.syncTasks.set k { task with place := place }).map SyncTask.backendId =
      w.syncTasks.map SyncTask.backendId := by
    obtain ⟨hlt, rfl⟩ := List.getElem?_eq_some_iff.mp hk
    refine List.ext_getElem (by simp) fun j hj hj' => ?_
    simp only [List.getElem_map, List.getElem_set]
    split
    · next heq =>
      subst heq
      rfl
    · rfl
  refine ⟨?_, fun b => ?_, fun task' htask' hplace' => ?_, h.past, h.apart⟩
  · rw [syncing, hsame]
    exact h.single
  · rw [syncing, hsame]
    exact h.inflight b
  · rcases List.mem_or_eq_of_mem_set htask' with htask' | rfl
    · exact h.due task' htask' hplace'
    · exact h.due task (List.mem_of_getElem? hk) hplace

/-- A sync that was due succeeds; its task is over. -/
theorem Good.succeed (h : w.Good) (hdue : w.syncedAt backendId + w.domainSyncSeconds ≤ w.now)
    (hended : ∀ task ∈ w.syncTasks, task.backendId = backendId → task.place = .ended) :
    ({ w with
        domainsSyncedAt := Function.update w.domainsSyncedAt backendId (some w.now)
        succeeded := w.succeeded ++ [(backendId, w.now)] } : SyncWorker).Good := by
  have hself : ((Function.update w.domainsSyncedAt backendId (some w.now)) backendId).getD 0 =
      w.now := by
    rw [Function.update_self]
    rfl
  have hother : ∀ b, b ≠ backendId →
      ((Function.update w.domainsSyncedAt backendId (some w.now)) b).getD 0 = w.syncedAt b := by
    intro b hb
    rw [Function.update_of_ne hb]
    rfl
  refine ⟨h.single, h.inflight, fun task htask hplace => ?_, fun success hmem => ?_, ?_⟩
  · -- The task of another backend: the stamp is not its own.
    have hne : task.backendId ≠ backendId := fun heq => hplace (hended task htask heq)
    have hle := h.due task htask hplace
    rw [← hother _ hne] at hle
    exact hle
  · rcases List.mem_append.mp hmem with hmem | hmem
    · obtain ⟨hlast, hnow⟩ := h.past success hmem
      refine ⟨?_, hnow⟩
      by_cases hb : success.1 = backendId
      · rw [syncedAt, hb, hself]
        exact hnow
      · rw [syncedAt, hother _ hb]
        exact hlast
    · obtain rfl := List.mem_singleton.mp hmem
      rw [syncedAt, hself]
      exact ⟨le_rfl, le_rfl⟩
  · refine List.pairwise_append.mpr ⟨h.apart, List.pairwise_singleton .., ?_⟩
    intro success hsuccess last hlast heq
    obtain rfl := List.mem_singleton.mp hlast
    obtain ⟨hle, -⟩ := h.past success hsuccess
    rw [heq] at hle
    exact (add_le_add_left hle _).trans hdue

theorem Good.described (h : w.Good) (found : Bool) : (w.described k found).Good := by
  unfold SyncWorker.described
  split
  · next b hk => exact h.setTask _ hk (by simp)
  · exact h

theorem Good.written (h : w.Good) (committed : Bool) : (w.written k committed).Good := by
  unfold SyncWorker.written
  split
  · next b hk =>
    have hset := h.setTask .ended hk (by simp)
    have hlt : k < w.syncTasks.length := (List.getElem?_eq_some_iff.mp hk).1
    dsimp only
    split
    · refine hset.succeed (h.due _ (List.mem_of_getElem? hk) (by simp)) fun task htask heq => ?_
      -- The backend has one task, and that one is over.
      have hmem : { backendId := b, place := .ended } ∈
          w.syncTasks.set k { backendId := b, place := .ended } := List.mem_set hlt _
      have hinj := List.inj_on_of_nodup_map hset.single htask hmem heq
      rw [hinj]
    · exact hset
  · exact h

theorem Good.done (h : w.Good) : (w.done k).Good := by
  unfold SyncWorker.done
  split
  · next b hk =>
    obtain ⟨hlt, hget⟩ := List.getElem?_eq_some_iff.mp hk
    have hperm := (List.getElem_cons_eraseIdx_perm hlt).map SyncTask.backendId
    rw [List.map_cons, hget] at hperm
    -- The backend had this task alone: with it the backend leaves the tasks.
    obtain ⟨hnot, hrest⟩ := List.nodup_cons.mp (hperm.nodup_iff.mpr h.single)
    refine ⟨hrest, fun b' => ?_, fun task htask => h.due task (List.mem_of_mem_eraseIdx htask),
      h.past, h.apart⟩
    have hmem : b' ∈ w.syncing ↔ b' = b ∨ b' ∈ (w.syncTasks.eraseIdx k).map SyncTask.backendId := by
      rw [syncing, ← hperm.mem_iff, List.mem_cons]
    rw [Finset.mem_erase, h.inflight, hmem, syncing]
    constructor
    · rintro ⟨hne, rfl | hmem⟩
      · exact absurd rfl hne
      · exact hmem
    · intro hmem
      refine ⟨?_, .inr hmem⟩
      rintro rfl
      exact hnot hmem
  · exact h

theorem Good.cancelDomainSyncs (h : w.Good) : w.cancelDomainSyncs.Good := by
  have hsame : (w.syncTasks.map fun task => { task with place := .ended }).map
      SyncTask.backendId = w.syncing := by
    rw [List.map_map]
    rfl
  refine ⟨?_, fun b => ?_, fun task htask hplace => ?_, h.past, h.apart⟩
  · rw [SyncWorker.cancelDomainSyncs, syncing, hsame]
    exact h.single
  · rw [SyncWorker.cancelDomainSyncs, syncing, hsame]
    exact h.inflight b
  · -- All tasks are over, although their callbacks are still to run.
    obtain ⟨task, -, rfl⟩ := List.mem_map.mp htask
    exact absurd rfl hplace

theorem Good.healthAnswered (h : w.Good) (healthy : Bool) : (w.healthAnswered k healthy).Good := by
  unfold SyncWorker.healthAnswered
  split
  · exact h
  · next b asked hk =>
    have hcached : ({ w with
        checks := w.checks.eraseIdx k
        healthCache := Function.update w.healthCache b (some (healthy, asked)) } :
          SyncWorker).Good := ⟨h.single, h.inflight, h.due, h.past, h.apart⟩
    dsimp only
    split
    · exact hcached.spawnDomainSync
    · exact hcached

theorem Good.checkHealth (h : w.Good) : (w.checkHealth backendId).Good := by
  unfold SyncWorker.checkHealth
  split
  · exact h
  · exact ⟨h.single, h.inflight, h.due, h.past, h.apart⟩

/-- Every step keeps the invariant. -/
theorem Good.step (h : w.Good) {a : SyncStep} (ha : a.Forward) : (w.step a).Good := by
  cases a with
  | pass duration =>
    have hle : w.now ≤ w.now + duration := le_add_of_nonneg_right ha
    refine ⟨h.single, h.inflight, fun task htask hplace => (h.due task htask hplace).trans hle,
      fun success hmem => ?_, h.apart⟩
    obtain ⟨hlast, hnow⟩ := h.past success hmem
    exact ⟨hlast, hnow.trans hle⟩
  | checkHealth backendId => exact h.checkHealth
  | healthAnswered k healthy => exact h.healthAnswered healthy
  | described k found => exact h.described found
  | written k committed => exact h.written committed
  | done k => exact h.done
  | cancelDomainSyncs => exact h.cancelDomainSyncs

theorem domainSyncSeconds_spawn (backendId : BackendId) (w : SyncWorker) :
    (w.spawnDomainSync backendId).domainSyncSeconds = w.domainSyncSeconds := by
  unfold SyncWorker.spawnDomainSync
  split
  · rfl
  · split <;> rfl

/-- The settings stay. -/
theorem domainSyncSeconds_step (w : SyncWorker) (a : SyncStep) :
    (w.step a).domainSyncSeconds = w.domainSyncSeconds := by
  cases a with
  | pass duration => rfl
  | checkHealth backendId =>
    change (w.checkHealth backendId).domainSyncSeconds = _
    unfold SyncWorker.checkHealth
    split <;> rfl
  | healthAnswered k healthy =>
    change (w.healthAnswered k healthy).domainSyncSeconds = _
    unfold SyncWorker.healthAnswered
    split
    · rfl
    · dsimp only
      split
      · exact domainSyncSeconds_spawn ..
      · rfl
  | described k found =>
    change (w.described k found).domainSyncSeconds = _
    unfold SyncWorker.described
    split <;> rfl
  | written k committed =>
    change (w.written k committed).domainSyncSeconds = _
    unfold SyncWorker.written
    split
    · dsimp only
      split <;> rfl
    · rfl
  | done k =>
    change (w.done k).domainSyncSeconds = _
    unfold SyncWorker.done
    split <;> rfl
  | cancelDomainSyncs => rfl

end SyncWorker

section

variable {now domainSyncSeconds healthCacheSeconds : ℚ} {steps : List SyncStep}

/-- **One domain sync of a backend at a time, and one success per interval.** Whatever health checks
overlap, whatever engines answer and transactions do, and whenever the worker is stopped: after any
steps a backend has one task at most and is in flight exactly while it has one, and between two
successes of a backend at least the interval passed. -/
theorem syncs_apart (hforward : ∀ a ∈ steps, a.Forward) :
    (steps.foldl SyncWorker.step (.new now domainSyncSeconds healthCacheSeconds)).syncing.Nodup ∧
      (∀ b, b ∈ (steps.foldl SyncWorker.step
          (.new now domainSyncSeconds healthCacheSeconds)).domainSyncInflight ↔
        b ∈ (steps.foldl SyncWorker.step
          (.new now domainSyncSeconds healthCacheSeconds)).syncing) ∧
      (steps.foldl SyncWorker.step
          (.new now domainSyncSeconds healthCacheSeconds)).succeeded.Pairwise
        fun s s' => s.1 = s'.1 → s.2 + domainSyncSeconds ≤ s'.2 := by
  have hobeys : Obeys SyncWorker.step (fun _ a => SyncStep.Forward a)
      (.new now domainSyncSeconds healthCacheSeconds) steps := obeys_of_mem hforward
  have hinv := hobeys.inv (I := fun w => w.Good ∧ w.domainSyncSeconds = domainSyncSeconds)
    (fun w a hw ha => ⟨hw.1.step ha, (w.domainSyncSeconds_step a).trans hw.2⟩)
    ⟨SyncWorker.good_new .., rfl⟩
  obtain ⟨hgood, hseconds⟩ := hinv
  have hapart := hgood.apart
  rw [hseconds] at hapart
  exact ⟨hgood.single, hgood.inflight, hapart⟩

end

/-- Two checks of one backend overlap; it is synced once, and again a minute and a half later. -/
def overlapping : List SyncStep :=
  [.checkHealth 1, .checkHealth 1, .healthAnswered 0 true, .healthAnswered 0 true,
    .described 0 true, .pass 2, .written 0 true, .done 0,
    .pass 50, .checkHealth 1, .healthAnswered 0 true,
    .pass 40, .checkHealth 1, .healthAnswered 0 true, .described 0 true, .written 0 true]

theorem syncs_apart_sample :
    (overlapping.foldl SyncWorker.step (.new 1000 60 30)).succeeded = [(1, 1002), (1, 1092)] ∧
      (overlapping.foldl SyncWorker.step (.new 1000 60 30)).succeeded.Pairwise
        fun s s' => s.1 = s'.1 → s.2 + 60 ≤ s'.2 := by
  have hforward : ∀ a ∈ overlapping, a.Forward := by
    simp [overlapping, SyncStep.Forward]
  exact ⟨by decide +kernel, (syncs_apart hforward).2.2⟩

end Taas

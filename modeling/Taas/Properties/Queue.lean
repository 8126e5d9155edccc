import Taas.Properties.Commands
import Taas.Properties.Places

/-!
# A job keeps its place in the queue

Six paths put a job back on its queue, each with a score and a level from another place: what a
worker peeked, what it kept in the hash, what a poller read, or what the script finds.

* `Board` — the workers' world with what they peeked and read.
* `JobView.Placed` — the job waits at the level of its hash, with the score of its submit.
* `levelled_micro` — a level with jobs is registered.
* `placed_of_run` — so it is in every run.
-/

namespace Taas

open Infra Infra.Prog Relation

/-! ## What the workers know -/

/-- The world, and what the workers have read of it so far. -/
structure Board where
  world : World
  /-- What `peek_pending` returned. -/
  peeked : List QueueEntry := []
  /-- What `get_job` returned. -/
  states : List (JobId × JobState) := []

inductive BoardAction where
  | call (a : Action)
  | peek (count : Nat)
  | read (jobId : JobId)

namespace Board

variable (claimGraceS : ℚ)

def act (b : Board) : BoardAction → Board
  | .call a => { b with world := b.world.act claimGraceS a }
  | .peek count => { b with peeked := b.peeked ++ (run (peekPending count) b.world.redis).1 }
  | .read jobId =>
    { b with
      states := b.states ++
        ((run (getJob jobId) b.world.redis).1.map fun state => (jobId, state)).toList }

/-- The score that a resolution puts the job back with. -/
def score? : Resolution → Option ℚ
  | .requeueJob originalScore => some originalScore
  | .scheduleRetry originalScore _ _ => some originalScore
  | _ => none

/-- Fresh jobs are enqueued, a worker resolves a job that it peeked, with the score that it
peeked, a poller acts on a job whose state it read, with that state's `submitted_at`, and no hash
expires. -/
def Meets (b : Board) : BoardAction → Prop
  | .call (.expire _) => False
  | .call (.enqueueJobs jobs stateTtl) => b.world.Meets (fun _ _ v call =>
      ∃ state ttl, call = .enqueue state ttl ∧ v = JobView.empty ∧ state.Submitted)
        (.enqueueJobs jobs stateTtl)
  | .call (.resolve jobId r) => ∃ entry ∈ b.peeked, entry.jobId = jobId ∧
      ∀ score, score? r = some score → score = entry.score
  | .call (.outcome jobId o) => ∃ state, (jobId, state) ∈ b.states ∧
      ∀ score stateTtl delayS avoid, o = .releaseAndRequeue score stateTtl delayS avoid →
        score = state.submittedAt
  | .call a => b.world.Meets (fun _ _ _ _ => False) a
  | .peek _ => True
  | .read _ => True

end Board

/-! ## One job -/

/-- The job's `submitted_at`. -/
def JobView.submittedAt (v : JobView) : Option ℚ := v.hash.bind fun h => h.submittedAt

/-- A waiting job is at the level of its hash's priority, with its `submitted_at`, and one in the
delayed set keeps that as its score. -/
structure JobView.Placed (v : JobView) : Prop where
  readable : ∀ h, v.hash = some h → h.Readable
  pending : ∀ p score, v.pending p = some score →
    ∃ h, v.hash = some h ∧ p = h.priority.getD 0 ∧ h.submittedAt = some score
  delayed : v.delayed ≠ none → ∃ h, v.hash = some h ∧ h.queueScore = h.submittedAt

/-- The calls that the workers make. -/
def Placing : Condition := fun _ _ v call =>
  match call with
  | .enqueue state _ => v = JobView.empty ∧ state.Submitted
  | .resolve r => v.hash ≠ none ∧ ∀ score, Board.score? r = some score → v.submittedAt = some score
  | .outcome o => v.hash ≠ none ∧ ∀ score stateTtl delayS avoid,
      o = .releaseAndRequeue score stateTtl delayS avoid → v.submittedAt = some score
  | .expire => False

/-- `v'` says of the job's submit what `v` does, and the job waits at no other place. -/
structure JobView.Keeps (v v' : JobView) : Prop where
  hash : ∀ h', v'.hash = some h' →
    ∃ h, v.hash = some h ∧ h'.submit = h.submit ∧ h'.queueScore = h.queueScore
  alive : v.hash ≠ none → v'.hash ≠ none
  pending : ∀ p score, v'.pending p = some score → v.pending p = some score
  delayed : v'.delayed ≠ none → v.delayed ≠ none

namespace JobView

variable {v v' v'' : JobView}

theorem Keeps.refl (v : JobView) : v.Keeps v :=
  ⟨fun h hv => ⟨h, hv, rfl, rfl⟩, id, fun _ _ h => h, id⟩

theorem Keeps.trans (h : v.Keeps v') (h' : v'.Keeps v'') : v.Keeps v'' where
  hash h₂ hv := by
    obtain ⟨h₁, hv₁, hs₁, hq₁⟩ := h'.hash h₂ hv
    obtain ⟨h₀, hv₀, hs₀, hq₀⟩ := h.hash h₁ hv₁
    exact ⟨h₀, hv₀, hs₁.trans hs₀, hq₁.trans hq₀⟩
  alive := h'.alive ∘ h.alive
  pending p score := h.pending p score ∘ h'.pending p score
  delayed := h.delayed ∘ h'.delayed

theorem keeps_hmod (v : JobView) (f : JobHash → JobHash)
    (hf : ∀ h, (f h).submit = h.submit ∧ (f h).queueScore = h.queueScore) : v.Keeps (v.hmod f) where
  hash h' hv := by
    obtain ⟨h, hh, rfl⟩ := Option.map_eq_some_iff.mp hv
    exact ⟨h, hh, hf h⟩
  alive := mt Option.map_eq_none_iff.mp
  pending _ _ := id
  delayed := id

theorem hset_eq_hmod (hv : v.hash ≠ none) (f : JobHash → JobHash) : v.hset f = v.hmod f := by
  obtain ⟨h, hh⟩ := Option.ne_none_iff_exists'.mp hv
  rw [hset, hmod, hh]
  rfl

theorem keeps_hset (hv : v.hash ≠ none) (f : JobHash → JobHash)
    (hf : ∀ h, (f h).submit = h.submit ∧ (f h).queueScore = h.queueScore) : v.Keeps (v.hset f) := by
  rw [hset_eq_hmod hv]
  exact v.keeps_hmod f hf

theorem keeps_expiring (v : JobView) (ttl : Nat) : v.Keeps (v.hmod (JobHash.expiring ttl)) :=
  v.keeps_hmod (JobHash.expiring ttl) fun _ => ⟨rfl, rfl⟩

theorem keeps_stored (hv : v.hash ≠ none) (f : JobHash → JobHash) (stateTtl : Nat)
    (hf : ∀ h, (f h).submit = h.submit ∧ (f h).queueScore = h.queueScore) :
    v.Keeps (v.stored f stateTtl) := (keeps_hset hv f hf).trans (keeps_expiring _ stateTtl)

theorem keeps_zremPending (v : JobView) (priority : Int) : v.Keeps (v.zremPending priority) where
  hash h hv := ⟨h, hv, rfl, rfl⟩
  alive := id
  pending p score hp := by
    change Function.update v.pending priority none p = some score at hp
    by_cases he : p = priority
    · subst he
      rw [Function.update_self] at hp
      cases hp
    · rwa [Function.update_of_ne he] at hp
  delayed := id

theorem keeps_zremDelayed (v : JobView) : v.Keeps v.zremDelayed :=
  ⟨fun h hv => ⟨h, hv, rfl, rfl⟩, id, fun _ _ h => h, fun h => absurd rfl h⟩

/-- The other queues are not the job's place. -/
theorem Keeps.of_eq (hh : v'.hash = v.hash) (hp : v'.pending = v.pending)
    (hd : v'.delayed = v.delayed) : v.Keeps v' where
  hash h hv := ⟨h, hh ▸ hv, rfl, rfl⟩
  alive := by rw [hh]; exact id
  pending p score h := by rwa [hp] at h
  delayed := by rw [hd]; exact id

theorem keeps_sremInflight (v : JobView) : v.Keeps v.sremInflight := .of_eq rfl rfl rfl

theorem keeps_saddInflight (v : JobView) : v.Keeps v.saddInflight := .of_eq rfl rfl rfl

theorem keeps_zremHarvest (v : JobView) : v.Keeps v.zremHarvest := .of_eq rfl rfl rfl

theorem keeps_zaddHarvest (v : JobView) (score : ℚ) : v.Keeps (v.zaddHarvest score) :=
  .of_eq rfl rfl rfl

theorem Keeps.submittedAt (h : v.Keeps v') (hv : v.hash ≠ none) : v'.submittedAt = v.submittedAt := by
  obtain ⟨h', hh'⟩ := Option.ne_none_iff_exists'.mp (h.alive hv)
  obtain ⟨h₀, hh₀, hs, -⟩ := h.hash h' hh'
  rw [JobView.submittedAt, JobView.submittedAt, hh', hh₀]
  exact congrArg JobHash.Submit.submittedAt hs

theorem Placed.keep (hp : v.Placed) (h : v.Keeps v') : v'.Placed where
  readable h' hv := by
    obtain ⟨h₀, hh₀, hs, -⟩ := h.hash h' hv
    exact (hp.readable h₀ hh₀).keep hs
  pending p score hpend := by
    obtain ⟨h₀, hh₀, hlevel, hscore⟩ := hp.pending p score (h.pending p score hpend)
    obtain ⟨h', hh'⟩ := Option.ne_none_iff_exists'.mp (h.alive (hh₀ ▸ Option.some_ne_none h₀))
    obtain ⟨h₁, hh₁, hs, -⟩ := h.hash h' hh'
    obtain rfl := Option.some.inj (hh₀.symm.trans hh₁)
    refine ⟨h', hh', ?_, ?_⟩
    · rw [JobHash.priority_of_submit hs, hlevel]
    · exact (congrArg JobHash.Submit.submittedAt hs).trans hscore
  delayed hd := by
    obtain ⟨h₀, hh₀, hscore⟩ := hp.delayed (h.delayed hd)
    obtain ⟨h', hh'⟩ := Option.ne_none_iff_exists'.mp (h.alive (hh₀ ▸ Option.some_ne_none h₀))
    obtain ⟨h₁, hh₁, hs, hq⟩ := h.hash h' hh'
    obtain rfl := Option.some.inj (hh₀.symm.trans hh₁)
    exact ⟨h', hh', hq.trans (hscore.trans (congrArg JobHash.Submit.submittedAt hs).symm)⟩

/-- A job put on its level with its `submitted_at`. -/
theorem Placed.put (hp : v.Placed) {h : JobHash} (hv : v.hash = some h) {priority : Int} {score : ℚ}
    (hlevel : priority = h.priority.getD 0) (hscore : h.submittedAt = some score) :
    (v.zaddPending priority score).Placed where
  readable := hp.readable
  pending p s hpend := by
    change Function.update v.pending priority (some score) p = some s at hpend
    by_cases he : p = priority
    · subst he
      rw [Function.update_self] at hpend
      obtain rfl := Option.some.inj hpend
      exact ⟨h, hv, hlevel, hscore⟩
    · rw [Function.update_of_ne he] at hpend
      exact hp.pending p s hpend
  delayed := hp.delayed

/-- The level that the functions requeue at is the hash's. -/
theorem Placed.level (hp : v.Placed) {h : JobHash} (hv : v.hash = some h) :
    v.level = h.priority.getD 0 := by
  rw [JobView.level, JobView.state, hv]
  exact (hp.readable h hv).level

theorem hash_delay {h : JobHash} (hv : v.hash = some h) (now score delayS : ℚ)
    (avoid : Option BackendId) :
    (v.delay now score delayS avoid).hash = some (Site.avoidingHash score avoid h) := by
  cases avoid with
  | none => simp [JobView.delay, avoiding, zaddDelayed, hset, hv, Site.avoidingHash]
  | some b =>
    simp only [JobView.delay, avoiding, zaddDelayed, hset, hv, Site.avoidingHash]
    rfl

theorem submittedAt_delay {score : ℚ} (hscore : v.submittedAt = some score) (now score' delayS : ℚ)
    (avoid : Option BackendId) : (v.delay now score' delayS avoid).submittedAt = some score := by
  obtain ⟨h, hv, hsub⟩ := Option.bind_eq_some_iff.mp hscore
  rw [submittedAt, hash_delay hv, Option.bind_some, ← hsub]
  exact congrArg JobHash.Submit.submittedAt (JobHash.submit_avoidingHash h score' avoid)

theorem Placed.delay (hp : v.Placed) {score : ℚ} (hscore : v.submittedAt = some score)
    (now delayS : ℚ) (avoid : Option BackendId) : (v.delay now score delayS avoid).Placed := by
  obtain ⟨h, hv, hsub⟩ := Option.bind_eq_some_iff.mp hscore
  have hhash := hash_delay hv now score delayS avoid
  have hpending : (v.delay now score delayS avoid).pending = v.pending := by
    cases avoid <;> rfl
  have hsubmit := JobHash.submit_avoidingHash h score avoid
  refine ⟨fun h' hv' => ?_, fun p s hp' => ?_, fun _ => ⟨_, hhash, ?_⟩⟩
  · obtain rfl := Option.some.inj (hhash.symm.trans hv')
    exact (hp.readable h hv).keep hsubmit
  · rw [hpending] at hp'
    obtain ⟨h₀, hv₀, hlevel, hs⟩ := hp.pending p s hp'
    obtain rfl := Option.some.inj (hv.symm.trans hv₀)
    refine ⟨_, hhash, ?_, (congrArg JobHash.Submit.submittedAt hsubmit).trans hs⟩
    rw [JobHash.priority_of_submit hsubmit, hlevel]
  · have hqueue : (Site.avoidingHash score avoid h).queueScore = some score := by
      cases avoid <;> rfl
    exact hqueue.trans ((congrArg JobHash.Submit.submittedAt hsubmit).trans hsub).symm

end JobView

/-! ## Each move -/

section

variable {claimGraceS now : ℚ} {c c' : Option ℚ} {v v' : JobView}

open JobView

theorem Resolution.keeps (hv : v.hash ≠ none) {r : Resolution} (hr : Board.score? r = none) :
    v.Keeps (r.apply now v) := by
  cases r with
  | requeueJob originalScore => cases hr
  | scheduleRetry originalScore delayS avoid => cases hr
  | setRunning settings engineJobId backendUrl backendId stateTtl =>
    have hstored := keeps_stored hv
      (JobHash.running now settings engineJobId backendUrl backendId) stateTtl fun _ => ⟨rfl, rfl⟩
    exact hstored.trans (keeps_saddInflight _)
  | setFailed error stateTtl =>
    have hstored := keeps_stored hv (JobHash.failed now error) stateTtl fun _ => ⟨rfl, rfl⟩
    have hclear := (hstored.trans (keeps_zremHarvest _)).trans
      (keeps_hmod _ JobHash.clearHarvest fun _ => ⟨rfl, rfl⟩)
    exact hclear.trans (keeps_sremInflight _)

theorem keeps_backToQueued (hv : v.hash ≠ none) (stateTtl : Nat) :
    v.Keeps (v.backToQueued.cleared stateTtl) := by
  have hset : v.sremInflight.Keeps v.backToQueued :=
    keeps_hset (v := v.sremInflight) hv JobHash.queued fun _ => ⟨rfl, rfl⟩
  have hclear := (((keeps_sremInflight v).trans hset).trans
    (keeps_hmod _ JobHash.clearDispatch fun _ => ⟨rfl, rfl⟩)).trans (keeps_zremHarvest _)
  exact hclear.trans (keeps_expiring _ stateTtl)

theorem Outcome.keeps (hv : v.hash ≠ none) {o : Outcome}
    (ho : ∀ score stateTtl delayS avoid, o ≠ .releaseAndRequeue score stateTtl delayS avoid) :
    v.Keeps (o.apply now v) := by
  cases o with
  | releaseDone state engineRun =>
    rw [Outcome.apply]
    split
    · have hleft := (keeps_sremInflight v).trans (keeps_zaddHarvest _ now)
      exact hleft.trans (keeps_hmod _ (JobHash.storing engineRun) fun _ => ⟨rfl, rfl⟩)
    · exact Keeps.refl v
  | releaseAndRequeue score stateTtl delayS avoid => exact (ho _ _ _ _ rfl).elim
  | scheduleNextPoll at' => exact keeps_hset hv (JobHash.polled at' now) fun _ => ⟨rfl, rfl⟩
  | rescheduleHarvest delayS =>
    have hset := keeps_hset hv JobHash.attempted fun _ => ⟨rfl, rfl⟩
    exact hset.trans (keeps_zaddHarvest _ (now + delayS))
  | setDone stateTtl state =>
    have hstored := keeps_stored hv (JobHash.finished now) stateTtl fun _ => ⟨rfl, rfl⟩
    have hleft := (hstored.trans (keeps_sremInflight _)).trans (keeps_zremHarvest _)
    exact hleft.trans (keeps_hmod _ JobHash.clearHarvest fun _ => ⟨rfl, rfl⟩)
  | setFailed error stateTtl =>
    exact Resolution.keeps (r := .setFailed error stateTtl) hv rfl

theorem JobView.Placed.requeueJob (hp : v.Placed) (hv : v.hash ≠ none) {score : ℚ}
    (hscore : v.submittedAt = some score) : (v.zaddPending v.level score).Placed := by
  obtain ⟨h, hh⟩ := Option.ne_none_iff_exists'.mp hv
  refine hp.put hh (hp.level hh) ?_
  rwa [JobView.submittedAt, hh] at hscore

/-- **Every move leaves the job at its place.** -/
theorem Move.placed (hm : Move claimGraceS Placing now (c, v) (c', v')) (hp : v.Placed) :
    v'.Placed := by
  cases hm with
  | expire h => exact h.elim
  | @enqueue _ _ state stateTtl h =>
    obtain ⟨rfl, hs⟩ := h
    rw [Site.enqueued_empty]
    refine ⟨fun h hv => ?_, fun p score hpend => ?_, fun hd => ?_⟩
    · obtain rfl := Option.some.inj hv
      exact hs.readable stateTtl
    · have hsite : (Site.pending state.priority state.submittedAt) = .pending p score := by
        change Function.update (fun _ => none) state.priority (some state.submittedAt) p = _ at hpend
        by_cases he : p = state.priority
        · subst he
          rw [Function.update_self] at hpend
          rw [Option.some.inj hpend]
        · rw [Function.update_of_ne he] at hpend
          cases hpend
      cases hsite
      exact ⟨_, rfl, rfl, rfl⟩
    · exact absurd rfl hd
  | promote hd =>
    obtain ⟨h, hv, hscore⟩ := hp.delayed hd
    obtain ⟨s, hs⟩ := Option.isSome_iff_exists.mp (hp.readable h hv)
    obtain ⟨score, hsub⟩ := Option.isSome_iff_exists.mp
      ((JobState.isSome_fromHash h).mp (hp.readable h hv)).2.2.2
    have hpromote : v.promote now = v.zremDelayed.zaddPending s.priority (s.queueScore.getD now) := by
      obtain ⟨x, hx⟩ := Option.ne_none_iff_exists'.mp hd
      rw [JobView.promote, hx, JobView.state, hv, Option.bind_some, hs]
    rw [hpromote]
    refine (hp.keep v.keeps_zremDelayed).put hv (JobState.priority_of_fromHash hs) ?_
    rw [JobState.queueScore_of_fromHash hs, hscore, hsub]
    rfl
  | @claim _ _ priority hpend hh =>
    rw [JobView.claim, if_neg hpend]
    exact hp.keep ((keeps_zremPending v priority).trans
      (keeps_hmod _ (JobHash.claimed now) fun _ => ⟨rfl, rfl⟩))
  | @drop _ _ priority h => exact hp.keep (keeps_zremPending v priority)
  | @orphan _ _ h ho =>
    obtain ⟨score, hsub⟩ := Option.isSome_iff_exists.mp
      ((JobState.isSome_fromHash h).mp (hp.readable h ho.1)).2.2.2
    refine hp.put ho.1 rfl ?_
    rw [hsub]
    rfl
  | @resolve _ _ r h =>
    cases hr : Board.score? r with
    | none => exact hp.keep (Resolution.keeps h.1 hr)
    | some score =>
      have hscore := h.2 score hr
      cases r with
      | requeueJob originalScore =>
        cases hr
        exact hp.requeueJob h.1 hscore
      | scheduleRetry originalScore delayS avoid =>
        cases hr
        exact hp.delay hscore now delayS avoid
      | setRunning settings engineJobId backendUrl backendId stateTtl => cases hr
      | setFailed error stateTtl => cases hr
  | @outcome _ _ o h =>
    by_cases ho : ∃ score stateTtl delayS avoid, o = .releaseAndRequeue score stateTtl delayS avoid
    · obtain ⟨score, stateTtl, delayS, avoid, rfl⟩ := ho
      have hkeeps := keeps_backToQueued h.1 stateTtl
      have hscore := h.2 score stateTtl delayS avoid rfl
      have hback := hp.keep hkeeps
      have hback' := (hkeeps.submittedAt h.1).trans hscore
      rw [Outcome.apply, requeued]
      split
      · exact hback.delay hback' now delayS avoid
      · -- the level is of the snapshot, whose priority is the hash's
        obtain ⟨h₀, hh₀⟩ := Option.ne_none_iff_exists'.mp h.1
        obtain ⟨h', hh'⟩ := Option.ne_none_iff_exists'.mp (hkeeps.alive h.1)
        obtain ⟨h₁, hh₁, hs, -⟩ := hkeeps.hash h' hh'
        obtain rfl := Option.some.inj (hh₀.symm.trans hh₁)
        refine hback.put hh' ?_ ?_
        · rw [hp.level hh₀, JobHash.priority_of_submit hs]
        · rwa [JobView.submittedAt, hh'] at hback'
    · exact hp.keep (Outcome.keeps h.1 fun score stateTtl delayS avoid he =>
        ho ⟨score, stateTtl, delayS, avoid, he⟩)

/-- A job keeps its `submitted_at`. -/
theorem Move.submittedAt (hm : Move claimGraceS Placing now (c, v) (c', v')) {score : ℚ}
    (hscore : v.submittedAt = some score) : v'.submittedAt = some score := by
  have hkept : ∀ {v'}, v.Keeps v' → v'.submittedAt = some score := fun hk =>
    (hk.submittedAt fun hnone => by rw [JobView.submittedAt, hnone] at hscore; cases hscore).trans
      hscore
  cases hm with
  | expire h => exact h.elim
  | enqueue h =>
    rw [h.1] at hscore
    cases hscore
  | promote hd =>
    rw [JobView.promote]
    split
    · exact hscore
    · split <;> exact hscore
  | @claim _ _ priority hpend hh =>
    rw [JobView.claim, if_neg hpend]
    exact hkept ((keeps_zremPending v priority).trans
      (keeps_hmod _ (JobHash.claimed now) fun _ => ⟨rfl, rfl⟩))
  | @drop _ _ priority h => exact hscore
  | @orphan _ _ h ho => exact hscore
  | @resolve _ _ r h =>
    cases hr : Board.score? r with
    | none => exact hkept (Resolution.keeps h.1 hr)
    | some score' =>
      cases r with
      | requeueJob originalScore => exact hscore
      | scheduleRetry originalScore delayS avoid => exact submittedAt_delay hscore ..
      | setRunning settings engineJobId backendUrl backendId stateTtl => cases hr
      | setFailed error stateTtl => cases hr
  | @outcome _ _ o h =>
    by_cases ho : ∃ score stateTtl delayS avoid, o = .releaseAndRequeue score stateTtl delayS avoid
    · obtain ⟨score', stateTtl, delayS, avoid, rfl⟩ := ho
      have hback := hkept (keeps_backToQueued h.1 stateTtl)
      rw [Outcome.apply, requeued]
      split
      · exact submittedAt_delay hback ..
      · exact hback
    · exact hkept (Outcome.keeps h.1 fun score stateTtl delayS avoid he =>
        ho ⟨score, stateTtl, delayS, avoid, he⟩)

end

/-! ## The levels -/

/-- Every level that has jobs is registered. -/
def Redis.Levelled (r : Redis) : Prop :=
  ∀ j p, (r.view j).pending p ≠ none → p ∈ r.levels

theorem levels_hmod (r : Redis) (j : JobId) (f : JobHash → JobHash) :
    (r.hmod j f).levels = r.levels := by
  obtain ⟨jobs, h⟩ := r.exists_hmod j f
  rw [h]

theorem levels_countReleased (state : JobState) (r : Redis) :
    (r.countReleased state).levels = r.levels := by
  unfold Redis.countReleased
  split
  · rfl
  · split
    · rfl
    · dsimp only
      split <;> rfl

theorem levels_countRunning (b : BackendId) (state : Option JobState) (r : Redis) :
    (r.countRunning b state).levels = r.levels := by
  unfold Redis.countRunning
  split
  · rfl
  · dsimp only
    split <;> rfl

/-- The command takes no level off the register. -/
def Grows (effect : Redis → Redis) (_ : Redis → List Event) : Prop :=
  ∀ r, r.levels ⊆ (effect r).levels

theorem grows_act {f : Redis → Redis} (h : ∀ r, (f r).levels = r.levels) : Each Grows (act f) :=
  each_call fun r => (h r).symm.subset

/-- No command of a state function does. -/
theorem grows_levels : OfCommands Grows where
  loadQueued _ _ _ := subset_rfl
  loadInflight _ _ _ := subset_rfl
  loads _ _ := subset_rfl
  backend _ _ _ := subset_rfl
  batchPages _ _ _ _ := subset_rfl
  dropBatch _ _ _ := subset_rfl
  wakeSubmit _ := subset_rfl
  query _ := subset_rfl
  hset _ _ _ := subset_rfl
  hmod j f r := by
    rw [levels_hmod]
  put _ _ _ _ := subset_rfl
  drop _ _ _ := subset_rfl
  claim now entry r := by
    unfold Redis.claim
    split
    · exact subset_rfl
    · split <;> exact subset_rfl
  level p r := Finset.subset_insert p r.levels
  delay _ _ _ := subset_rfl
  promote _ _ := subset_rfl
  leaveInflight _ _ := subset_rfl
  leaveHarvest _ _ := subset_rfl
  release now j state engineRun r := by
    unfold Redis.releaseDone
    split
    · rw [levels_countReleased, levels_hmod]
      exact subset_rfl
    · exact subset_rfl
  markFailed now j error stateTtl r := by
    obtain ⟨jobs, h⟩ := r.exists_markFailed now j error stateTtl
    rw [h]
  countPage _ _ _ := subset_rfl
  publish _ _ _ := subset_rfl

theorem grows_setRunning (settings : Settings) (now : ℚ) (j : JobId)
    (engineJobId backendUrl : String) (b : BackendId) (stateTtl : Nat) :
    Each Grows (setRunning settings now j engineJobId backendUrl b stateTtl) := by
  have hentered : Each Grows (enteredInflight j b) :=
    (grows_levels.getJob j).bind fun state => grows_act (levels_countRunning b state)
  have hadded : Each Grows (call (fun r => decide (j ∉ r.inflight)) (Redis.saddInflight j)) :=
    each_call fun _ => subset_rfl
  exact (grows_act fun _ => rfl).bind fun _ => (grows_act fun r => levels_hmod r j _).bind fun _ =>
    hadded.bind fun added => hentered.when.bind fun _ => grows_act fun _ => rfl

/-- A whole call of a state function. -/
theorem levels_run {α : Type} {p : RedisProg α}
    (hp : p.Each Grows) (r : Redis) :
    r.levels ⊆ (run p r).2.levels :=
  hp.run (I := fun s _ => r.levels ⊆ s.levels) (fun _ _ s _ hc h => h.trans (hc s)) (e := [])
    subset_rfl

/-- The job that a call is about is on the levels that it was on, or on a registered one. -/
theorem Redis.Levelled.update {r r' : Redis} (hr : r.Levelled) {j : JobId} {v : JobView}
    (hv : r'.view = Function.update r.view j v) (hl : r.levels ⊆ r'.levels)
    (hp : ∀ p, v.pending p ≠ none → (r.view j).pending p ≠ none ∨ p ∈ r'.levels) : r'.Levelled := by
  intro k p hk
  rw [hv] at hk
  by_cases he : k = j
  · subst he
    rw [Function.update_self] at hk
    exact (hp p hk).elim (fun h => hl (hr k p h)) id
  · rw [Function.update_of_ne he] at hk
    exact hl (hr k p hk)

theorem pending_zaddPending {v : JobView} {priority p : Int} {score : ℚ}
    (h : (v.zaddPending priority score).pending p ≠ none) : v.pending p ≠ none ∨ p = priority := by
  by_cases he : p = priority
  · exact Or.inr he
  · refine Or.inl ?_
    change Function.update v.pending priority (some score) p ≠ none at h
    rwa [Function.update_of_ne he] at h

theorem level_mem_addPending (p : Int) (j : JobId) (score : ℚ) (r : Redis) :
    p ∈ (run (addPending p j score) r).2.levels := Finset.mem_insert_self p r.levels

/-- The last step of `release_and_requeue` registers the level. -/
theorem level_mem_requeueReleased (now score : ℚ) {delayS : ℚ} (hd : ¬0 < delayS)
    (avoid : Option BackendId) (state : Option JobState) (r : Redis) (j : JobId) :
    (state.map fun s => s.priority).getD 0 ∈
      (run (requeueReleased now j score delayS avoid state) r).2.levels := by
  rw [requeueReleased, if_neg hd]
  exact level_mem_addPending ..

section

variable {r : Redis} (hr : r.Levelled) (j : JobId)
include hr

theorem levelled_promoteMember (now : ℚ) : (run (promoteMember now j) r).2.Levelled := by
  refine hr.update (views_promoteMember r j now) (levels_run (grows_levels.promoteMember now j) r)
    fun p hp => ?_
  rw [JobView.promote] at hp
  split at hp
  · exact Or.inl hp
  · next score hd =>
    split at hp
    · exact Or.inl hp
    · next state hs =>
      refine (pending_zaddPending hp).imp_right fun he => ?_
      have hremoved : (r.delayed.lookup j).isSome = true := by
        rw [← Redis.view_delayed, hd]
        rfl
      have hstate : (r.zremDelayed j).state j = some state := hs
      rw [promoteMember, run_bind, run_call]
      dsimp only
      rw [if_pos hremoved, getJob, run_bind, run_query]
      dsimp only
      rw [hstate, run_bind, run_pure, he]
      exact level_mem_addPending ..

theorem levelled_resolution (now : ℚ) (res : Resolution) :
    (run (res.prog now j) r).2.Levelled := by
  have hviews := views_resolution r j now res
  cases res with
  | requeueJob originalScore =>
    refine hr.update hviews (levels_run (grows_levels.requeueJob j originalScore) r) fun p hp => ?_
    refine (pending_zaddPending hp).imp_right fun he => ?_
    rw [he]
    exact level_mem_addPending ..
  | scheduleRetry originalScore delayS avoid =>
    refine hr.update hviews (levels_run (grows_levels.scheduleRetry ..) r) fun p hp => Or.inl ?_
    cases avoid <;> exact hp
  | setRunning settings engineJobId backendUrl backendId stateTtl =>
    exact hr.update hviews (levels_run (grows_setRunning ..) r) fun p hp => Or.inl hp
  | setFailed error stateTtl =>
    refine hr.update hviews ?_ fun p hp => Or.inl hp
    exact levels_run ((grows_levels.setFailed now j error stateTtl).map _) r

theorem levelled_outcome (now : ℚ) (o : Outcome) : (run (o.prog now j) r).2.Levelled := by
  have hviews := views_outcome r j now o
  cases o with
  | releaseDone state engineRun =>
    refine hr.update hviews (levels_run ((grows_levels.releaseDone ..).map _) r) fun p hp =>
      Or.inl ?_
    rw [Outcome.apply] at hp
    split at hp <;> exact hp
  | releaseAndRequeue score stateTtl delayS avoid =>
    refine hr.update hviews (levels_run (grows_levels.releaseAndRequeue ..) r) fun p hp => ?_
    rw [Outcome.apply, JobView.requeued] at hp
    split at hp
    · refine Or.inl ?_
      cases avoid <;> exact hp
    · next hd =>
      refine (pending_zaddPending hp).imp_right fun he => ?_
      rw [Outcome.prog, releaseAndRequeue, run_bind, fst_giveUpSlot, run_bind, run_act, backToQueue,
        run_bind, run_bind, run_bind, he]
      exact level_mem_requeueReleased now score hd avoid (r.view j).state _ j
  | scheduleNextPoll at' =>
    exact hr.update hviews (levels_run (grows_act fun _ => rfl) r) fun p hp => Or.inl hp
  | rescheduleHarvest delayS =>
    exact hr.update hviews (levels_run (grows_act fun _ => rfl) r) fun p hp => Or.inl hp
  | setDone stateTtl state =>
    exact hr.update hviews (levels_run ((grows_levels.setDone ..).map _) r) fun p hp => Or.inl hp
  | setFailed error stateTtl =>
    exact hr.update hviews (levels_run ((grows_levels.setFailed ..).map _) r) fun p hp => Or.inl hp

end

/-- **A level with jobs stays registered, whatever step is taken.** -/
theorem levelled_micro {claimGraceS : ℚ} {C : Condition} {w w' : World}
    (hm : World.Micro claimGraceS C w w') (hr : w.redis.Levelled) : w'.redis.Levelled := by
  cases hm with
  | wait hd => exact hr
  | wake => exact hr
  | @expire jobId h =>
    exact hr.update (Redis.views_expireNow _ jobId) subset_rfl fun p hp => Or.inl hp
  | @enqueue jobId state stateTtl h =>
    refine hr.update (views_enqueue _ jobId stateTtl state) ?_ fun p hp => ?_
    · have hexpire := levels_hmod (w.redis.hset jobId state.toHash.overlay) jobId
        (JobHash.expiring stateTtl)
      exact hexpire.symm.subset.trans (Finset.subset_insert state.priority _)
    · refine (pending_zaddPending hp).imp id fun he => ?_
      rw [he]
      exact Finset.mem_insert_self _ _
  | promote jobId => exact levelled_promoteMember hr jobId w.now
  | claim entry =>
    refine hr.update (views_claim w.redis w.now entry) (grows_levels.claim w.now entry w.redis)
      fun p hp => Or.inl ?_
    rw [JobView.claim] at hp
    split at hp
    · exact hp
    · obtain ⟨score, hscore⟩ := Option.ne_none_iff_exists'.mp hp
      rw [(JobView.keeps_zremPending _ entry.priority).pending p score hscore]
      exact Option.some_ne_none score
  | @drop entry h =>
    refine hr.update (Redis.views_zremPending _ entry.jobId entry.priority) subset_rfl
      fun p hp => Or.inl ?_
    obtain ⟨score, hscore⟩ := Option.ne_none_iff_exists'.mp hp
    rw [(JobView.keeps_zremPending _ entry.priority).pending p score hscore]
    exact Option.some_ne_none score
  | orphan jobId =>
    change (w.redis.requeueOrphan w.now claimGraceS jobId).Levelled
    by_cases ho : ∃ h, (w.redis.view jobId).Orphaned w.now claimGraceS h
    · obtain ⟨h, ho⟩ := ho
      obtain ⟨hl, hscript⟩ := (orphaned_iff w.redis jobId w.now claimGraceS h).mpr ho
      have hlevels : (w.redis.requeueOrphan w.now claimGraceS jobId).levels =
          insert (h.priority.getD 0) w.redis.levels := by
        simp only [Redis.requeueOrphan, hl, hscript, if_true]
        rfl
      refine hr.update (views_requeueOrphan_of_orphaned _ jobId ho) ?_ fun p hp => ?_
      · rw [hlevels]
        exact Finset.subset_insert _ _
      · refine (pending_zaddPending hp).imp id fun he => ?_
        rw [hlevels, he]
        exact Finset.mem_insert_self _ _
    · rw [requeueOrphan_of_not _ jobId (not_exists.mp ho)]
      exact hr
  | @resolve jobId r h => exact levelled_resolution hr jobId w.now r
  | @outcome jobId o h => exact levelled_outcome hr jobId w.now o

/-! ## Runs -/

namespace Board

variable {claimGraceS : ℚ} {b : Board}

/-- The `submitted_at` that the workers have for a job, from a queue entry or a state. -/
def Knows (b : Board) (jobId : JobId) (score : ℚ) : Prop :=
  (∃ entry ∈ b.peeked, entry.jobId = jobId ∧ entry.score = score) ∨
    ∃ state, (jobId, state) ∈ b.states ∧ state.submittedAt = score

/-- Every job is at its place, on a registered level, and what the workers know of it is right. -/
structure Right (b : Board) : Prop where
  placed : ∀ j, (b.world.redis.view j).Placed
  knows : ∀ j score, b.Knows j score → (b.world.redis.view j).submittedAt = some score
  levelled : b.world.redis.Levelled

theorem right_initial (now : ℚ) : Right { world := World.initial now } where
  placed j := by
    have hview : ((World.initial now).redis.view j) = JobView.empty :=
      congrArg Prod.snd (World.case_initial now j)
    rw [hview]
    exact ⟨fun h hv => (nomatch hv), fun p s hp => (nomatch hp), fun hd => absurd rfl hd⟩
  knows j score hk := by
    rcases hk with ⟨entry, hmem, -⟩ | ⟨state, hmem, -⟩ <;> cases hmem
  levelled j p hp := by
    have hview : ((World.initial now).redis.view j) = JobView.empty :=
      congrArg Prod.snd (World.case_initial now j)
    rw [hview] at hp
    exact absurd rfl hp

/-- A peeked job was on the level that the entry names. -/
theorem mem_peekLevels {count : Nat} {levels : List Int} {results : List QueueEntry} {r : Redis}
    {entry : QueueEntry} (h : entry ∈ (run (peekLevels count levels results) r).1) :
    entry ∈ results ∨ (r.pending entry.priority).lookup entry.jobId = some entry.score := by
  induction levels generalizing results with
  | nil => exact Or.inl h
  | cons level levels ih =>
    rw [peekLevels] at h
    split at h
    · exact Or.inl h
    · rw [run_bind, run_query] at h
      rcases ih h with hmem | hmem
      · rcases List.mem_append.mp hmem with hmem | hmem
        · exact Or.inl hmem
        · obtain ⟨⟨jobId, score⟩, he, rfl⟩ := List.mem_map.mp hmem
          exact Or.inr (SortedSet.mem_range.mp (List.mem_of_mem_take he))
      · exact Or.inr hmem

theorem mem_peekPending {count : Nat} {r : Redis} {entry : QueueEntry}
    (h : entry ∈ (run (peekPending count) r).1) :
    (r.view entry.jobId).pending entry.priority = some entry.score := by
  rw [peekPending, run_bind, run_query] at h
  exact (mem_peekLevels h).resolve_left List.not_mem_nil

theorem Right.peek (hb : b.Right) (count : Nat) : (b.act claimGraceS (.peek count)).Right where
  placed := hb.placed
  knows j score hk := by
    rcases hk with ⟨entry, hmem, rfl, rfl⟩ | hk
    · rcases List.mem_append.mp hmem with hmem | hmem
      · exact hb.knows _ _ (Or.inl ⟨entry, hmem, rfl, rfl⟩)
      · obtain ⟨h, hv, -, hsub⟩ := (hb.placed _).pending _ _ (mem_peekPending hmem)
        change (b.world.redis.view entry.jobId).submittedAt = _
        rw [JobView.submittedAt, hv]
        exact hsub
    · exact hb.knows j score (Or.inr hk)
  levelled := hb.levelled

theorem Right.read (hb : b.Right) (jobId : JobId) : (b.act claimGraceS (.read jobId)).Right where
  placed := hb.placed
  knows j score hk := by
    rcases hk with hk | ⟨state, hmem, rfl⟩
    · exact hb.knows j score (Or.inl hk)
    · rcases List.mem_append.mp hmem with hmem | hmem
      · exact hb.knows _ _ (Or.inr ⟨state, hmem, rfl⟩)
      · rw [Option.mem_toList, Option.map_eq_some_iff] at hmem
        obtain ⟨state', hstate, heq⟩ := hmem
        cases heq
        obtain ⟨h, hv, hfrom⟩ := Option.bind_eq_some_iff.mp hstate
        change (b.world.redis.view jobId).submittedAt = _
        rw [JobView.submittedAt, Redis.view_hash, hv]
        exact JobState.submittedAt_of_fromHash hfrom
  levelled := hb.levelled

/-- What the workers do is what `Placing` asks for. -/
theorem Right.meets (hb : b.Right) {a : Action} (ha : b.Meets (.call a)) :
    b.world.Meets Placing a := by
  have hknown : ∀ {j score}, b.Knows j score → (b.world.redis.view j).hash ≠ none := by
    intro j score hk hnone
    have := hb.knows j score hk
    rw [JobView.submittedAt, hnone] at this
    cases this
  cases a with
  | wait d => exact ha
  | expire jobId => exact ha.elim
  | enqueueJobs jobs stateTtl =>
    refine ⟨ha.1, fun job hjob => ?_⟩
    obtain ⟨state, ttl, heq, hfresh⟩ := ha.2 job hjob
    cases heq
    exact hfresh
  | promoteDueRetries => trivial
  | claimPending entries => trivial
  | dropPending entries => exact ha
  | requeueOrphans jobIds => trivial
  | resolve jobId r =>
    obtain ⟨entry, hmem, rfl, hscore⟩ := ha
    have hk : b.Knows entry.jobId entry.score := Or.inl ⟨entry, hmem, rfl, rfl⟩
    refine ⟨hknown hk, fun score hr => ?_⟩
    rw [hscore score hr]
    exact hb.knows _ _ hk
  | outcome jobId o =>
    obtain ⟨state, hmem, hscore⟩ := ha
    have hk : b.Knows jobId state.submittedAt := Or.inr ⟨state, hmem, rfl⟩
    refine ⟨hknown hk, fun score stateTtl delayS avoid ho => ?_⟩
    rw [hscore score stateTtl delayS avoid ho]
    exact hb.knows _ _ hk

/-- **What a step does keeps every job at its place.** -/
theorem Right.act (hb : b.Right) {a : BoardAction} (ha : b.Meets a) :
    (b.act claimGraceS a).Right := by
  cases a with
  | peek count => exact hb.peek count
  | read jobId => exact hb.read jobId
  | call a =>
    have hmeets := hb.meets ha
    have hcases : (b.world.act claimGraceS a).EachJob fun j _ x =>
        x.2.Placed ∧ ∀ score, b.Knows j score → x.2.submittedAt = some score := by
      refine World.eachJob_act (fun _ _ _ _ _ h => h) (fun j now x y hm h => ?_) hmeets fun j =>
        ⟨hb.placed j, fun score hk => hb.knows j score hk⟩
      exact ⟨hm.placed h.1, fun score hk => hm.submittedAt (h.2 score hk)⟩
    refine ⟨fun j => (hcases j).1, fun j score hk => (hcases j).2 score hk, ?_⟩
    exact World.act_of_micro (P := fun w => w.redis.Levelled)
      (fun _ _ hm h => levelled_micro hm h) hmeets hb.levelled

end Board

/-- **Every waiting job is at the level of its hash's priority, with the time of its submit as its
score, and the level is registered.** -/
theorem placed_of_run {claimGraceS now : ℚ} {actions : List BoardAction}
    (h : Obeys (Board.act claimGraceS) Board.Meets { world := World.initial now } actions) :
    let r := (actions.foldl (Board.act claimGraceS) { world := World.initial now }).world.redis
    ∀ j p score, (r.pending p).lookup j = some score →
      (∃ hash, r.jobs.lookup j = some hash ∧ p = hash.priority.getD 0 ∧
        hash.submittedAt = some score) ∧ p ∈ r.levels := by
  intro r j p score hp
  have hright := h.inv (I := Board.Right) (fun b a hb ha => hb.act ha) (Board.right_initial now)
  refine ⟨(hright.placed j).pending p score hp, hright.levelled j p ?_⟩
  rw [Redis.view_pending, hp]
  exact Option.some_ne_none score

/-- A job that is peeked, claimed, fails to dispatch and is promoted again. -/
def sampleBoard : List BoardAction :=
  [.call (.enqueueJobs [(1, sampleJob)] 3600), .peek 5, .call (.claimPending [⟨1, 0, 0⟩]),
    .call (.resolve 1 (.scheduleRetry 0 0 (some 7))), .call .promoteDueRetries]

theorem sampleBoard_obeys :
    Obeys (Board.act 60) Board.Meets { world := World.initial 0 } sampleBoard := by
  refine ⟨⟨by decide, fun job hjob => ?_⟩, trivial, trivial, ?_, trivial, trivial⟩
  · obtain rfl := List.mem_singleton.mp hjob
    exact ⟨sampleJob, 3600, rfl, congrArg Prod.snd (World.case_initial 0 1), sampleJob_submitted⟩
  · refine ⟨⟨1, 0, 0⟩, by decide +kernel, rfl, fun score hscore => ?_⟩
    exact (Option.some.inj hscore).symm

theorem placed_of_run_sample :
    (0 : Int) ∈ (sampleBoard.foldl (Board.act 60) { world := World.initial 0 }).world.redis.levels :=
  (placed_of_run sampleBoard_obeys 1 0 0 (by decide +kernel)).2

end Taas

import Taas.Infra.Pool
import Taas.Properties.Sites

/-!
# Who has a job in hand

A job that a worker took off a queue, or that a poller takes off its engine, is in somebody's
hand until the call about it is over. What the calls do to each other's jobs depends on it.

* `Handled` — Redis, and which client has which job in hand.
* `Mark.Orderly` — the conditions on the commands that finish a job and on the calls that take
  one off its engine.
* `StatusCall.prog` — the calls, with the notes of who takes and lets go.
* `finality` — what the clients promise each other: no finished job is taken back.
* `final_inHand`, `final_closes`, `final_holding` — a call from its commands.

Clients may die between any two commands.
-/

namespace Taas

open Infra Infra.Prog

/-- The job's status is done or failed. -/
def Redis.Finished (r : Redis) (jobId : JobId) : Prop := Terminal (r.view jobId).hash

instance (hash : Option JobHash) : Decidable (Terminal hash) :=
  inferInstanceAs (Decidable (_ ∨ _))

instance (r : Redis) (jobId : JobId) : Decidable (r.Finished jobId) :=
  inferInstanceAs (Decidable (Terminal _))

/-- The job is on no pending level and not in the delayed set. -/
def JobView.NotWaiting (v : JobView) : Prop := (∀ p, v.pending p = none) ∧ v.delayed = none

/-! ## Who has a job in hand -/

/-- Redis, and what the clients are about to do with jobs. -/
structure Handled (ι : Type) where
  redis : Redis := {}
  /-- The client took the job off a queue or off its engine, and its call goes on. -/
  holds : ι × JobId → Bool := fun _ => false
  /-- The client's `set_done` or `set_failed` is between its write and its `SREM`. -/
  closing : ι × JobId → Bool := fun _ => false

/-- What is noted of a command, besides its events. -/
inductive Mark (ι : Type) where
  /-- A command of the client makes the job done or failed. -/
  | finishes (i : ι) (jobId : JobId)
  /-- A call begins to take the job off its engine. -/
  | releases (jobId : JobId)
  | enqueues (jobId : JobId)
  | expires (jobId : JobId)
deriving DecidableEq

variable {ι α β : Type}

/-- When the command may be executed. A job is finished while it waits nowhere and no other client
has it in hand, and it is taken off its engine while it is in flight and no call that finished it
has its `SREM` to come. New jobs have new ids. -/
def Mark.Orderly (t : Handled ι) : Mark ι → Prop
  | finishes i jobId =>
    (t.redis.view jobId).NotWaiting ∧ ∀ i', i' ≠ i → t.holds (i', jobId) = false
  | releases jobId => jobId ∈ t.redis.inflight ∧ ∀ i, t.closing (i, jobId) = false
  | enqueues jobId => t.redis.jobs.lookup jobId = none
  | expires _ => True

/-- A program whose commands are noted. -/
abbrev HandProg (ι α : Type) := Prog (Handled ι) (Event ⊕ Mark ι) α

namespace Handled

def put (r : Redis) (t : Handled ι) : Handled ι := { t with redis := r }

/-- The store `r` has the job finished, and the one before had not. -/
def finishes (jobId : JobId) (r : Redis) (t : Handled ι) : Bool :=
  decide (¬t.redis.Finished jobId ∧ r.Finished jobId)

variable [DecidableEq ι]

def take (i : ι) (jobId : JobId) (t : Handled ι) : Handled ι :=
  { t with holds := Function.update t.holds (i, jobId) true }

def letGo (i : ι) (jobId : JobId) (t : Handled ι) : Handled ι :=
  { t with holds := Function.update t.holds (i, jobId) false }

/-- After a command of client `i` on the job, which left the store `r`. Who finished a job is
closing it as long as it is in flight, and has nothing else to do with it. -/
def command (i : ι) (jobId : JobId) (r : Redis) (t : Handled ι) : Handled ι where
  redis := r
  holds := if t.finishes jobId r then Function.update t.holds (i, jobId) false else t.holds
  closing := Function.update t.closing (i, jobId)
    (decide (jobId ∈ r.inflight) && (t.finishes jobId r || t.closing (i, jobId)))

/-- After the death of client `i`. -/
def orphaned (i : ι) (t : Handled ι) : Handled ι :=
  { t with holds := fun k => t.holds k && decide (k.1 ≠ i) }

end Handled

/-- The interleavings in which every command is executed when it may be. -/
def orderly (ι : Type) [DecidableEq ι] : Regime (Handled ι) (Event ⊕ Mark ι) ι where
  allowed t events := ∀ m : Mark ι, .inr m ∈ events → m.Orderly t
  clean := Handled.orphaned

/-! ## The calls, with notes -/

/-- Commands on no job in particular. -/
def aside (p : RedisProg α) : HandProg ι α := zoom Handled.redis Handled.put Sum.inl p

section

variable [DecidableEq ι] (i : ι) (jobId : JobId)

/-- The commands of client `i` on the job. -/
def handled : RedisProg α → HandProg ι α
  | .ret a => .ret a
  | .cmd ready effect log next =>
    .cmd (fun t => ready t.redis) (fun t => t.command i jobId (effect t.redis))
      (fun t => (log t.redis).map Sum.inl ++
        if t.finishes jobId (effect t.redis) then [.inr (.finishes i jobId)] else [])
      fun t => handled (next t.redis)

/-- The first command takes the job in hand, if it finds the store so. -/
def grasping (takes : Redis → Bool) (marks : List (Mark ι)) : HandProg ι α → HandProg ι α
  | .ret a => .ret a
  | .cmd ready effect log next =>
    .cmd ready (fun t => if takes t.redis then (effect t).take i jobId else effect t)
      (fun t => log t ++ if takes t.redis then marks.map Sum.inr else []) next

/-- The job is let go when nothing of the call is to come. -/
def atEnd : HandProg ι α → Handled ι → Handled ι
  | .ret _, t => t.letGo i jobId
  | .cmd .., t => t

/-- The last command lets go of the job. -/
def lettingGo : HandProg ι α → HandProg ι α
  | .ret a => .ret a
  | .cmd ready effect log next =>
    .cmd ready (fun t => atEnd i jobId (next t) (effect t)) log fun t => lettingGo (next t)

/-- A call that has the job in hand once its first command took it. -/
def holding (takes : Redis → Bool) (marks : List (Mark ι)) (p : RedisProg α) : HandProg ι α :=
  lettingGo i jobId (grasping i jobId takes marks (handled i jobId p))

end

/-- A submit worker claims a job that it peeked, and does with it what came of the dispatch. -/
def dispatch (now : ℚ) (entry : QueueEntry) (later : ℚ) (resolution : Resolution) :
    RedisProg Unit := do
  let claimed ← claimOne now entry
  when claimed (resolution.prog later entry.jobId)

/-- A call of a submit worker, a poller, the reaper, the sweep or the API, from whatever it read
before. -/
inductive StatusCall where
  | enqueueJobs (jobs : List (JobId × JobState)) (stateTtl : Nat)
      (hjobs : ∀ job ∈ jobs, job.2.status = .queued)
  /-- One member of `promote_due_retries`. -/
  | promote (time : ℚ) (jobId : JobId)
  | dispatch (now : ℚ) (entry : QueueEntry) (later : ℚ) (resolution : Resolution)
  | dropPending (entries : List QueueEntry)
  | outcome (now : ℚ) (jobId : JobId) (o : Outcome)
  | countRequeue (jobId : JobId)
  | requeueOrphans (jobIds : List JobId) (now claimGraceS : ℚ)
  | forgetHarvests (jobIds : List JobId)
  /-- The hash's time is up. -/
  | expire (jobId : JobId)

/-- Fresh ids are noted where jobs are put. -/
def Event.enqueues : Event → Event ⊕ Mark ι
  | .put jobId => .inr (.enqueues jobId)
  | event => .inl event

namespace StatusCall

variable [DecidableEq ι]

def prog (i : ι) : StatusCall → HandProg ι Unit
  | enqueueJobs jobs stateTtl _ =>
    zoom Handled.redis Handled.put Event.enqueues (Taas.enqueueJobs jobs stateTtl)
  | promote time jobId =>
    (fun _ => ()) <$> holding i jobId (fun r => (r.delayed.lookup jobId).isSome) []
      (promoteMember time jobId)
  | dispatch now entry later resolution =>
    holding i entry.jobId (Redis.claimable entry) [] (Taas.dispatch now entry later resolution)
  | dropPending entries => aside (Taas.dropPending entries)
  | outcome now jobId (.releaseDone state run) =>
    holding i jobId (fun r => decide (jobId ∈ r.inflight)) [.releases jobId]
      (Outcome.prog now jobId (.releaseDone state run))
  | outcome now jobId (.releaseAndRequeue score stateTtl delayS avoidBackendId) =>
    holding i jobId (fun _ => true) [.releases jobId]
      (Outcome.prog now jobId (.releaseAndRequeue score stateTtl delayS avoidBackendId))
  | outcome now jobId o => handled i jobId (o.prog now jobId)
  | countRequeue jobId => handled i jobId (Taas.countRequeue jobId)
  | requeueOrphans jobIds now claimGraceS =>
    aside ((fun _ => ()) <$> Taas.requeueOrphans jobIds now claimGraceS)
  | forgetHarvests jobIds => aside (Taas.forgetHarvests jobIds)
  | expire jobId => callLog (fun _ => [.inr (.expires jobId)]) (fun _ => ()) fun t =>
      t.put (t.redis.expireNow jobId)

/-- A client makes one call after another. -/
def all (i : ι) : List StatusCall → HandProg ι Unit
  | [] => pure ()
  | call :: calls => do
    call.prog i
    all i calls

end StatusCall

/-- Redis at the start, and the clients with their calls. -/
def handlers [DecidableEq ι] (r : Redis) (calls : ι → List StatusCall) :
    Pool (Handled ι) (Event ⊕ Mark ι) ι where
  shared := { redis := r }
  procs i := some (StatusCall.all i (calls i))
  history := []

/-! ## What a command does to finished jobs -/

/-- The same jobs are finished, and none of them is put on a queue or into flight. -/
def Redis.Spares (r r' : Redis) : Prop := ∀ j, (r'.Finished j ↔ r.Finished j) ∧
  (r.Finished j → ((r.view j).NotWaiting → (r'.view j).NotWaiting) ∧
    (j ∈ r'.inflight → j ∈ r.inflight))

/-- Found in a store where `P` holds, the command spares finished jobs, and it claims none but
waiting ones. -/
def Heeds (P : Redis → Prop) (effect : Redis → Redis) (log : Redis → List Event) : Prop :=
  ∀ r, P r → r.Spares (effect r) ∧ ∀ j, .claimed j ∈ log r → ¬(r.view j).NotWaiting

/-- The command changes this job only: it may finish it, but does not put it on a queue or into
flight. -/
def Closes (jobId : JobId) (effect : Redis → Redis) (log : Redis → List Event) : Prop :=
  ∀ r, (∀ j, j ≠ jobId → (effect r).view j = r.view j) ∧
    (r.Finished jobId → (effect r).Finished jobId) ∧
      ((r.view jobId).NotWaiting → ((effect r).view jobId).NotWaiting) ∧
        (jobId ∈ (effect r).inflight → jobId ∈ r.inflight) ∧ ∀ j, .claimed j ∉ log r

section

variable {P : Redis → Prop} {jobId : JobId} {effect : Redis → Redis}

theorem Redis.finished_congr {r r' : Redis} {j : JobId} (h : r'.view j = r.view j) :
    r'.Finished j ↔ r.Finished j := by
  rw [Redis.Finished, h, Redis.Finished]

theorem Redis.mem_inflight_congr {r r' : Redis} {j : JobId} (h : r'.view j = r.view j) :
    j ∈ r'.inflight ↔ j ∈ r.inflight := iff_of_eq (congrArg JobView.inflight h)

/-- What is not touched, or finished neither before nor after, is spared. -/
theorem Redis.spares_of_views {r r' : Redis}
    (h : ∀ j, r'.view j = r.view j ∨ ¬r.Finished j ∧ ¬r'.Finished j) : r.Spares r' := by
  intro j
  rcases h j with h | ⟨hn, hn'⟩
  · exact ⟨Redis.finished_congr h, fun _ => ⟨fun hw => h ▸ hw, (Redis.mem_inflight_congr h).mp⟩⟩
  · exact ⟨⟨fun hf => absurd hf hn', fun hf => absurd hf hn⟩, fun hf => absurd hf hn⟩

theorem Redis.Spares.refl (r : Redis) : r.Spares r := Redis.spares_of_views fun _ => Or.inl rfl

theorem Redis.Spares.trans {r r' r'' : Redis} (h : r.Spares r') (h' : r'.Spares r'') :
    r.Spares r'' := by
  intro j
  obtain ⟨hf, hq⟩ := h j
  obtain ⟨hf', hq'⟩ := h' j
  exact ⟨hf'.trans hf, fun hj => ⟨fun hw => (hq' (hf.mpr hj)).1 ((hq hj).1 hw),
    fun hi => (hq hj).2 ((hq' (hf.mpr hj)).2 hi)⟩⟩

/-- A change of one job's view. -/
theorem Redis.spares_update {r r' : Redis} {v : JobView}
    (h : r'.view = Function.update r.view jobId v) (hf : Terminal v.hash ↔ r.Finished jobId)
    (hw : r.Finished jobId → (r.view jobId).NotWaiting → v.NotWaiting)
    (hi : r.Finished jobId → v.inflight → (r.view jobId).inflight) : r.Spares r' := by
  intro j
  by_cases hj : j = jobId
  · subst hj
    have hv : r'.view j = v := by rw [h, Function.update_self]
    have hin : j ∈ r'.inflight ↔ v.inflight := iff_of_eq (congrArg JobView.inflight hv)
    refine ⟨by rw [Redis.Finished, hv]; exact hf, fun hfin => ⟨fun hn => hv ▸ hw hfin hn, ?_⟩⟩
    exact fun hin' => hi hfin (hin.mp hin')
  · have hv : r'.view j = r.view j := by rw [h, Function.update_of_ne hj]
    exact ⟨Redis.finished_congr hv,
      fun _ => ⟨fun hn => hv ▸ hn, (Redis.mem_inflight_congr hv).mp⟩⟩

theorem heeds_of_view {log : Redis → List Event} (h : ∀ r, (effect r).view = r.view)
    (hlog : ∀ r j, .claimed j ∉ log r) : Heeds P effect log :=
  fun r _ => ⟨Redis.spares_of_views fun j => Or.inl (congrFun (h r) j),
    fun j hj => absurd hj (hlog r j)⟩

theorem closes_of_view (h : ∀ r, (effect r).view = r.view) :
    Closes jobId effect fun _ => [] := by
  intro r
  have hv := congrFun (h r) jobId
  exact ⟨fun j _ => congrFun (h r) j, (Redis.finished_congr hv).mpr, fun hw => hv ▸ hw,
    (Redis.mem_inflight_congr hv).mp, fun j => by simp⟩

/-- A command on an unfinished job that leaves it unfinished. -/
theorem heeds_unfinished {log : Redis → List Event} (g : JobView → JobView)
    (hview : ∀ r, (effect r).view = Function.update r.view jobId (g (r.view jobId)))
    (hg : ∀ v : JobView, ¬Terminal v.hash → ¬Terminal (g v).hash)
    (hlog : ∀ r j, .claimed j ∉ log r) :
    Heeds (fun r => ¬r.Finished jobId) effect log := by
  intro r hr
  refine ⟨Redis.spares_update (hview r) ?_ ?_ ?_, fun j hj => absurd hj (hlog r j)⟩
  · exact ⟨fun h => absurd h (hg _ hr), fun h => absurd h hr⟩
  · exact fun h => absurd h hr
  · exact fun h => absurd h hr

/-- A command on one job that keeps it finished and puts it nowhere. -/
theorem closes_of_job (g : JobView → JobView)
    (hview : ∀ r, (effect r).view = Function.update r.view jobId (g (r.view jobId)))
    (hf : ∀ v : JobView, Terminal v.hash → Terminal (g v).hash)
    (hw : ∀ v : JobView, v.NotWaiting → (g v).NotWaiting)
    (hi : ∀ v : JobView, (g v).inflight → v.inflight) : Closes jobId effect fun _ => [] := by
  intro r
  have hv : (effect r).view jobId = g (r.view jobId) := by rw [hview, Function.update_self]
  have hin : jobId ∈ (effect r).inflight ↔ (g (r.view jobId)).inflight :=
    iff_of_eq (congrArg JobView.inflight hv)
  refine ⟨fun j hj => by rw [hview, Function.update_of_ne hj], fun h => ?_, fun h => ?_,
    fun h => hi _ (hin.mp h), fun j => by simp⟩
  · rw [Redis.Finished, hv]
    exact hf _ h
  · rw [hv]
    exact hw _ h

end

/-! ## What the clients promise each other -/

/-- What is so of a finished job. -/
structure Handled.Out (t : Handled ι) (jobId : JobId) : Prop where
  notWaiting : (t.redis.view jobId).NotWaiting
  inHand : ∀ i, t.holds (i, jobId) = false
  closing : jobId ∈ t.redis.inflight → ∃ i, t.closing (i, jobId) = true

/-- Finished jobs are out. A client has jobs in hand by its own commands only, claims no
finished one, and takes none back. -/
def finality (ι : Type) : Contract (Handled ι) (Event ⊕ Mark ι) ι where
  inv t _ := ∀ j, t.redis.Finished j → t.Out j
  guar i t es t' es' := (∀ k, k.1 ≠ i → t'.holds k = t.holds k) ∧ ∃ new, es' = es ++ new ∧
    ∀ j, t.redis.Finished j →
      .inl (.claimed j) ∉ new ∧ (t'.redis.Finished j ∨ .inr (.expires j) ∈ new)

variable {i : ι} {jobId : JobId} {t : Handled ι} {es : List (Event ⊕ Mark ι)}

theorem stable_inHand (i : ι) (jobId : JobId) :
    (finality ι).Stable i fun t _ => t.holds (i, jobId) = true :=
  fun _ hj _ _ _ _ _ _ hg ht => (hg.1 (i, jobId) (Ne.symm hj)).trans ht

namespace Handled

theorem not_finishes (t : Handled ι) (jobId : JobId) {r : Redis} (h : t.redis.Spares r) :
    t.finishes jobId r = false := by
  simp [finishes, (h jobId).1]

/-- Where no job is finished or taken back, finished jobs stay out. -/
theorem Out.spares {r : Redis} {t' : Handled ι} {j : JobId} (ht : t.redis.Finished j → t.Out j)
    (hr : t'.redis = r) (h : t.redis.Spares r) (hholds : ∀ k, t'.holds k = true → t.holds k = true)
    (hclosing : ∀ k, k.2 ∈ r.inflight → t.closing k = true → t'.closing k = true)
    (hj : r.Finished j) : t'.Out j := by
  subst hr
  obtain ⟨hf, hq⟩ := h j
  have hj' := hf.mp hj
  obtain ⟨hw, hh, hc⟩ := ht hj'
  refine ⟨(hq hj').1 hw, fun i => ?_, fun hi => ?_⟩
  · rw [Bool.eq_false_iff]
    exact fun hk => Bool.eq_false_iff.mp (hh i) (hholds _ hk)
  · obtain ⟨i, hi'⟩ := hc ((hq hj').2 hi)
    exact ⟨i, hclosing (i, j) hi hi'⟩

variable [DecidableEq ι]

theorem command_spares {r : Redis} (h : t.redis.Spares r)
    (hinv : (finality ι).inv t es) : (finality ι).inv (t.command i jobId r) es := by
  refine fun j hj => Out.spares (hinv j) rfl h (fun k hk => ?_) (fun k hi hk => ?_) hj
  · rwa [command, t.not_finishes jobId h] at hk
  · by_cases hki : k = (i, jobId)
    · subst hki
      have hi' : jobId ∈ r.inflight := hi
      simp [command, hi', hk]
    · exact (Function.update_of_ne hki _ _).trans hk

theorem holds_command {r : Redis} {k : ι × JobId} (hk : k.1 ≠ i) :
    (t.command i jobId r).holds k = t.holds k := by
  have hne : k ≠ (i, jobId) := fun h => hk (congrArg Prod.fst h)
  unfold command
  dsimp only
  split
  · rw [Function.update_of_ne hne]
  · rfl

/-- **A command that finishes a job when it may, leaves it out.** -/
theorem command_closes {r : Redis} (hother : ∀ j, j ≠ jobId → r.view j = t.redis.view j)
    (hfin : t.redis.Finished jobId → r.Finished jobId)
    (hwait : (t.redis.view jobId).NotWaiting → (r.view jobId).NotWaiting)
    (hin : jobId ∈ r.inflight → jobId ∈ t.redis.inflight)
    (hm : t.finishes jobId r = true → (Mark.finishes i jobId).Orderly t)
    (hinv : (finality ι).inv t es) : (finality ι).inv (t.command i jobId r) es := by
  cases hf : t.finishes jobId r with
  | false =>
    have hiff : r.Finished jobId ↔ t.redis.Finished jobId := by
      refine ⟨fun h => by_contra fun hn => ?_, hfin⟩
      simp [finishes, hn, h] at hf
    refine command_spares (fun j => ?_) hinv
    by_cases hj : j = jobId
    · subst hj
      exact ⟨hiff, fun _ => ⟨hwait, hin⟩⟩
    · have hv := hother j hj
      exact ⟨Redis.finished_congr hv,
        fun _ => ⟨fun hn => hv ▸ hn, (Redis.mem_inflight_congr hv).mp⟩⟩
  | true =>
    obtain ⟨hw, hh⟩ := hm hf
    intro j hj
    by_cases hjj : j = jobId
    · subst hjj
      refine ⟨hwait hw, fun i' => ?_, fun hi => ⟨i, ?_⟩⟩
      · by_cases hii : i' = i
        · subst hii
          simp [command, hf]
        · rw [holds_command hii]
          exact hh i' hii
      · have hi' : j ∈ r.inflight := hi
        simp [command, hf, hi']
    · have hv := hother j hjj
      have hne : ∀ i', (i', j) ≠ (i, jobId) := fun i' h => hjj (congrArg Prod.snd h)
      obtain ⟨hw', hh', hc'⟩ := hinv j ((Redis.finished_congr hv).mp hj)
      refine ⟨?_, fun i' => ?_, fun hi' => ?_⟩
      · show (r.view j).NotWaiting
        rwa [hv]
      · simp [command, hf, Function.update_of_ne (hne i'), hh' i']
      · obtain ⟨i', hi''⟩ := hc' ((Redis.mem_inflight_congr hv).mp hi')
        exact ⟨i', by simp [command, Function.update_of_ne (hne i'), hi'']⟩

end Handled

/-! ## One call -/

/-- Client `i` runs `p` from a store where `A` holds, within its promise. -/
abbrev Final [DecidableEq ι] (i : ι) (A : Assertion (Handled ι) (Event ⊕ Mark ι))
    (p : HandProg ι α) : Prop :=
  Contract.Triple (orderly ι) (finality ι) i p A fun _ _ _ => True

section

variable {i : ι} {jobId : JobId} {t t' : Handled ι} {es new : List (Event ⊕ Mark ι)}

theorem guar_of_spares (hinv : (finality ι).inv t es) (hs : t.redis.Spares t'.redis)
    (hholds : ∀ k, k.1 ≠ i → t'.holds k = t.holds k) {log : List Event}
    (hnew : ∀ e, .inl e ∈ new → e ∈ log)
    (hlog : ∀ j, .claimed j ∈ log → ¬(t.redis.view j).NotWaiting) :
    (finality ι).guar i t es t' (es ++ new) :=
  ⟨hholds, new, rfl, fun j hj => ⟨fun hm => hlog j (hnew _ hm) (hinv j hj).notWaiting,
    Or.inl ((hs j).1.mpr hj)⟩⟩

/-- Nobody has a finished job in hand. -/
theorem not_finished_of_holds (hinv : (finality ι).inv t es) (h : t.holds (i, jobId) = true) :
    ¬t.redis.Finished jobId := fun hf => by
  rw [(hinv jobId hf).inHand i] at h
  cases h

variable [DecidableEq ι]

theorem final_aside {p : RedisProg α} (hp : p.Each (Heeds fun _ => True)) :
    Final i (fun _ _ => True) (aside p) := by
  induction p with
  | ret a => exact fun _ _ _ _ => trivial
  | cmd ready effect log next ih =>
    intro t es hi _ _ _
    obtain ⟨hs, hlog⟩ := hp.1 t.redis trivial
    exact ⟨fun j => Handled.Out.spares (hi j) rfl hs (fun _ => id) fun _ _ => id,
      guar_of_spares hi hs (fun _ _ => rfl) (fun e he => by simpa using he) hlog,
      fun _ _ => True, trivial, Contract.stable_true, ih _ (hp.2 _)⟩

theorem final_inHand {p : RedisProg α}
    (hp : p.Each (Heeds fun r => ¬r.Finished jobId)) :
    Final i (fun t _ => t.holds (i, jobId) = true) (handled i jobId p) := by
  induction p with
  | ret a => exact fun _ _ _ _ => trivial
  | cmd ready effect log next ih =>
    intro t es hi ht _ _
    obtain ⟨hs, hlog⟩ := hp.1 t.redis (not_finished_of_holds hi ht)
    have hmarks := t.not_finishes jobId hs
    refine ⟨Handled.command_spares hs hi,
      guar_of_spares hi hs (fun _ => Handled.holds_command) (fun e he => ?_) hlog, _, ?_,
      stable_inHand i jobId, ih _ (hp.2 _)⟩
    · simpa [hmarks] using he
    · simpa [Handled.command, hmarks] using ht

/-- A call on a job that puts it nowhere, but may finish it. -/
theorem final_closes {p : RedisProg α} (hp : p.Each (Closes jobId)) :
    Final i (fun _ _ => True) (handled i jobId p) := by
  induction p with
  | ret a => exact fun _ _ _ _ => trivial
  | cmd ready effect log next ih =>
    intro t es hi _ _ ha
    obtain ⟨hother, hfin, hwait, hin, hlog⟩ := hp.1 t.redis
    refine ⟨Handled.command_closes hother hfin hwait hin (fun hf => ha _ ?_) hi,
      ⟨fun _ => Handled.holds_command, _, rfl, fun j hj => ⟨fun hm => ?_, Or.inl ?_⟩⟩,
      fun _ _ => True, trivial, Contract.stable_true, ih _ (hp.2 _)⟩
    · simp [hf]
    · refine hlog j ?_
      rcases List.mem_append.mp hm with hm | hm
      · simpa using hm
      · split at hm <;> simp at hm
    · show (effect t.redis).Finished j
      by_cases hjj : j = jobId
      · exact hjj ▸ hfin (hjj ▸ hj)
      · exact (Redis.finished_congr (hother j hjj)).mpr hj

/-- A job may be let go of at any time. -/
theorem inv_letGo (hinv : (finality ι).inv t es) : (finality ι).inv (t.letGo i jobId) es := by
  refine fun j => Handled.Out.spares (hinv j) rfl (Redis.Spares.refl _) (fun k hk => ?_)
    fun _ _ => id
  unfold Handled.letGo at hk
  dsimp only at hk
  rw [Function.update_apply] at hk
  split at hk
  · cases hk
  · exact hk

theorem holds_letGo {k : ι × JobId} (hk : k.1 ≠ i) : (t.letGo i jobId).holds k = t.holds k :=
  Function.update_of_ne (fun h => hk (congrArg Prod.fst h)) _ _

/-- The last command lets go of the job besides. -/
theorem Final.lettingGo {p : HandProg ι α} {A : Assertion (Handled ι) (Event ⊕ Mark ι)}
    (h : Final i A p) : Final i A (Taas.lettingGo i jobId p) := by
  induction p generalizing A with
  | ret a => exact h
  | cmd ready effect log next ih =>
    intro t es hi hA hr ha
    obtain ⟨hinv, hg, B, hB, hst, hn⟩ := h t es hi hA hr ha
    dsimp only
    cases hnext : next t with
    | ret a =>
      exact ⟨inv_letGo hinv,
        ⟨fun k hk => (holds_letGo hk).trans (hg.1 k hk), hg.2⟩, fun _ _ => True, trivial,
        Contract.stable_true, fun _ _ _ _ => trivial⟩
    | cmd ready' effect' log' next' =>
      exact ⟨hinv, hg, B, hB, hst, hnext ▸ ih t hn⟩

end

section

variable [DecidableEq ι] {i : ι} {jobId : JobId}

theorem inv_take {t : Handled ι} {es : List (Event ⊕ Mark ι)} (hinv : (finality ι).inv t es)
    (hj : ¬t.redis.Finished jobId) : (finality ι).inv (t.take i jobId) es := by
  intro k hk
  have hne : k ≠ jobId := fun h => hj (h ▸ hk)
  obtain ⟨hw, hh, hc⟩ := hinv k hk
  refine ⟨hw, fun i' => ?_, hc⟩
  exact (Function.update_of_ne (fun h => hne (congrArg Prod.snd h)) _ _).trans (hh i')

/-- A call whose first command takes the job in hand, if it finds the store so. -/
theorem final_holding {takes : Redis → Bool} {marks : List (Mark ι)} {log : Redis → List Event}
    {reply : Redis → β} {effect : Redis → Redis} {rest : β → RedisProg α}
    (hfirst : ∀ t es, (finality ι).inv t es →
      (takes t.redis = true → ∀ m ∈ marks, m.Orderly t) →
        t.redis.Spares (effect t.redis) ∧
          (∀ j, .claimed j ∈ log t.redis → ¬(t.redis.view j).NotWaiting) ∧
            (takes t.redis = true → ¬t.redis.Finished jobId))
    (htaken : ∀ r, takes r = true →
      Final i (fun t _ => t.holds (i, jobId) = true) (handled i jobId (rest (reply r))))
    (hnot : ∀ r, takes r = false → (rest (reply r)).Each (Closes jobId)) :
    Final i (fun _ _ => True)
      (holding i jobId takes marks (callLog log reply effect >>= rest)) := by
  refine Final.lettingGo ?_
  intro t es hi _ _ ha
  have hm : takes t.redis = true → ∀ m ∈ marks, m.Orderly t :=
    fun ht m hm => ha m (by simp [ht, hm])
  obtain ⟨hs, hlog, hfin⟩ := hfirst t es hi hm
  have hmarks := t.not_finishes jobId hs
  have hinv : (finality ι).inv (t.command i jobId (effect t.redis)) es :=
    Handled.command_spares hs hi
  have hguar : ∀ t' : Handled ι, t'.redis = effect t.redis →
      (∀ k, k.1 ≠ i → t'.holds k = t.holds k) → ∀ marks' : List (Mark ι),
      (finality ι).guar i t es t'
        (es ++ ((log t.redis).map Sum.inl ++ [] ++ marks'.map Sum.inr)) :=
    fun t' ht' hk marks' => guar_of_spares hi (ht' ▸ hs) hk (fun e he => by simpa using he) hlog
  dsimp only
  rw [hmarks, if_neg Bool.false_ne_true]
  cases ht : takes t.redis with
  | true =>
    rw [if_pos rfl, if_pos rfl]
    refine ⟨inv_take hinv fun hf => hfin ht ((hs jobId).1.mp hf),
      hguar _ rfl (fun k hk => ?_) marks, _, ?_, stable_inHand i jobId, htaken _ ht⟩
    · exact (Function.update_of_ne (fun h => hk (congrArg Prod.fst h)) _ _).trans
        (Handled.holds_command hk)
    · exact Function.update_self ..
  | false =>
    rw [if_neg Bool.false_ne_true, if_neg Bool.false_ne_true]
    exact ⟨hinv, hguar _ rfl (fun _ => Handled.holds_command) [], fun _ _ => True, trivial,
      Contract.stable_true, final_closes (hnot _ ht)⟩

end

end Taas

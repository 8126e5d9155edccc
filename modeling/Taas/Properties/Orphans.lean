import Taas.Infra.Pool
import Taas.Properties.Places
import Taas.Properties.Puts

/-!
# The sweep finds every lost job, and no other

Submit workers peek, claim, drop and promote while the cleanup worker sweeps, command by
command and script by script, and any of them may die at any command. `Client` is what one
of them may do, `JobView.Tidy` what holds of every job all the while.

* `Redis.Sweeps` — what a sweep does from such a state.
* `sweeps_of_run` — after any regular run and any interleaving of clients, no job was claimed
  more often than it was put on a queue, and a sweep does what it should.
-/

namespace Taas

open Infra Infra.Prog

/-- A worker's program: any calls in any order, each decided from the answers so far. The
TTLs of the hashes count as a client, too. -/
inductive Client (claimGraceS : ℚ) : RedisProg Unit → Prop
  | done : Client claimGraceS (pure ())
  | peekPending (count : Nat) {f : List QueueEntry → RedisProg Unit}
      (hf : ∀ a, Client claimGraceS (f a)) : Client claimGraceS (Taas.peekPending count >>= f)
  | getJobs (jobIds : List JobId) {f : List (JobId × Option JobState) → RedisProg Unit}
      (hf : ∀ a, Client claimGraceS (f a)) : Client claimGraceS (Taas.getJobs jobIds >>= f)
  | claimPending (now : ℚ) (entries : List QueueEntry) {f : Finset JobId → RedisProg Unit}
      (hf : ∀ a, Client claimGraceS (f a)) :
      Client claimGraceS (Taas.claimPending now entries >>= f)
  | dropPending (entries : List QueueEntry) {f : Unit → RedisProg Unit}
      (hf : ∀ a, Client claimGraceS (f a)) : Client claimGraceS (Taas.dropPending entries >>= f)
  | promoteDueRetries (now time : ℚ) {f : Nat → RedisProg Unit}
      (hf : ∀ a, Client claimGraceS (f a)) :
      Client claimGraceS (Taas.promoteDueRetries now time >>= f)
  | requeueOrphans (jobIds : List JobId) (now : ℚ) {f : List JobId → RedisProg Unit}
      (hf : ∀ a, Client claimGraceS (f a)) :
      Client claimGraceS (Taas.requeueOrphans jobIds now claimGraceS >>= f)
  | expire (jobId : JobId) {f : Unit → RedisProg Unit}
      (hf : ∀ a, Client claimGraceS (f a)) :
      Client claimGraceS (act (Redis.expireNow jobId) >>= f)

theorem Client.fair {claimGraceS : ℚ} {c : RedisProg Unit} (h : Client claimGraceS c) :
    Each Fair c := by
  induction h with
  | done => exact each_pure _
  | peekPending count _ ih => exact (fair_commands.peekPending count).bind ih
  | getJobs jobIds _ ih => exact (fair_commands.getJobs jobIds).bind ih
  | claimPending now entries _ ih => exact (fair_commands.claimPending now entries).bind ih
  | dropPending entries _ ih => exact (fair_commands.dropPending entries).bind ih
  | promoteDueRetries now time _ ih => exact (fair_commands.promoteDueRetries now time).bind ih
  | requeueOrphans jobIds now _ ih => exact (fair_requeueOrphans jobIds now _).bind ih
  | expire jobId _ ih => exact Each.bind (fair_act fun _ => rfl) ih

/-! ## The invariant -/

namespace JobView

/-- A stored job waits at most once, at the level its hash says. -/
structure Tidy (v : JobView) : Prop where
  readable : ∀ h, v.hash = some h → h.Readable
  level : ∀ h p, v.hash = some h → v.pending p ≠ none → p = h.priority.getD 0
  once : ∀ p, v.pending p ≠ none → v.delayed = none

/-- What a client may make of a job: it is delayed no later, and its hash keeps what the
submit wrote. -/
structure Later (v v' : JobView) : Prop where
  delayed : v.delayed = none → v'.delayed = none
  hash : ∀ h', v'.hash = some h' → ∃ h, v.hash = some h ∧ h'.submit = h.submit

variable {v v' : JobView}

theorem Later.refl (v : JobView) : v.Later v := ⟨id, fun h hh => ⟨h, hh, rfl⟩⟩

/-- The job only left queues, or its hash was claimed or expired. -/
theorem Tidy.later (ht : v.Tidy) (hl : v.Later v')
    (hp : ∀ p, v'.pending p ≠ none → v.pending p ≠ none) : v'.Tidy where
  readable h' hh' := by
    obtain ⟨h, hh, hs⟩ := hl.hash h' hh'
    exact (ht.readable h hh).keep hs
  level h' p hh' hpend := by
    obtain ⟨h, hh, hs⟩ := hl.hash h' hh'
    rw [JobHash.priority_of_submit hs]
    exact ht.level h p hh (hp p hpend)
  once p hpend := hl.delayed (ht.once p (hp p hpend))

theorem Later.zaddPending (p : Int) (score : ℚ) : v.Later (v.zaddPending p score) :=
  ⟨id, fun h hh => ⟨h, hh, rfl⟩⟩

theorem Tidy.zaddPending (ht : v.Tidy) {p : Int} (score : ℚ) (hd : v.delayed = none)
    (hp : ∀ h, v.hash = some h → p = h.priority.getD 0) : (v.zaddPending p score).Tidy where
  readable := ht.readable
  level h q hh hq := by
    by_cases hqp : q = p
    · exact hqp ▸ hp h hh
    · refine ht.level h q hh ?_
      simpa [JobView.zaddPending, hqp] using hq
  once _ _ := hd

theorem Later.zremPending (p : Int) : v.Later (v.zremPending p) :=
  ⟨id, fun h hh => ⟨h, hh, rfl⟩⟩

theorem pending_zremPending {p q : Int} (h : (v.zremPending p).pending q ≠ none) :
    v.pending q ≠ none := by
  by_cases hqp : q = p
  · simp [JobView.zremPending, hqp] at h
  · simpa [JobView.zremPending, hqp] using h

theorem Later.claim (now : ℚ) (p : Int) : v.Later (v.claim now p) := by
  unfold JobView.claim
  split
  · exact .refl v
  · refine ⟨id, fun h' hh' => ?_⟩
    obtain ⟨h, hh, rfl⟩ := Option.map_eq_some_iff.mp hh'
    exact ⟨h, hh, rfl⟩

theorem pending_claim {now : ℚ} {p q : Int} (h : (v.claim now p).pending q ≠ none) :
    v.pending q ≠ none := by
  unfold JobView.claim at h
  split at h
  · exact h
  · exact pending_zremPending h

theorem Later.expired : v.Later v.expired := ⟨id, fun _ hh => nomatch hh⟩

theorem Later.zremDelayed : v.Later v.zremDelayed := ⟨fun _ => rfl, fun h hh => ⟨h, hh, rfl⟩⟩

/-- An orphan is put where its hash says. -/
theorem Tidy.orphan (ht : v.Tidy) {now claimGraceS : ℚ} {h : JobHash}
    (ho : v.Orphaned now claimGraceS h) (score : ℚ) :
    (v.zaddPending (h.priority.getD 0) score).Tidy :=
  ht.zaddPending score ho.2.2.1 fun h' hh' => by
    rw [Option.some.inj (ho.1.symm.trans hh')]

end JobView

/-! ## Each client keeps it -/

section

variable {ι : Type} {i : ι} {claimGraceS : ℚ}

/-- Every job is tidy, and every command makes of every job what it may. -/
def tidiness : Contract Redis Event ι where
  inv r _ := ∀ j, (r.view j).Tidy
  guar _ r _ r' _ := ∀ j, (r.view j).Later (r'.view j)

/-- A program that needs nothing and keeps every job tidy. -/
abbrev Tidies {α : Type} (i : ι) (p : RedisProg α) : Prop :=
  Contract.Triple Regime.free tidiness i p (fun _ _ => True) fun _ _ _ => True

variable {α β : Type}

theorem Tidies.bind {p : RedisProg α} {f : α → RedisProg β} (hp : Tidies i p)
    (hf : ∀ a, Tidies i (f a)) : Tidies i (p >>= f) := Contract.Triple.bind hp hf

theorem tidies_pure (a : α) : Tidies i (pure a : RedisProg α) := fun _ _ _ _ => trivial

theorem tidies_when {c : Bool} {p : RedisProg Unit} (hp : Tidies i p) : Tidies i (when c p) := by
  unfold Prog.when
  split
  · exact hp
  · exact tidies_pure ()

/-- A command that changes no job. -/
theorem tidies_still {log : Redis → List Event} {reply : Redis → α} {f : Redis → Redis}
    (hf : ∀ r, (f r).view = r.view) : Tidies i (callLog log reply f) := by
  refine Contract.triple_callLog (fun r _ hi _ _ => ⟨?_, ?_, trivial⟩) fun _ => Contract.stable_true
  · show ∀ j, ((f r).view j).Tidy
    rw [hf]
    exact hi
  · show ∀ j, (r.view j).Later ((f r).view j)
    rw [hf]
    exact fun j => .refl _

/-- What a command makes of one job, when it is tidy and may be. -/
theorem tidy_update {r r' : Redis} {j : JobId} {v : JobView} (hi : ∀ k, (r.view k).Tidy)
    (hr : r'.view = Function.update r.view j v) (hv : v.Tidy) (hl : (r.view j).Later v) :
    (∀ k, (r'.view k).Tidy) ∧ ∀ k, (r.view k).Later (r'.view k) := by
  rw [hr]
  constructor
  · intro k
    by_cases hk : k = j
    · subst hk
      rwa [Function.update_self]
    · rw [Function.update_of_ne hk]
      exact hi k
  · intro k
    by_cases hk : k = j
    · subst hk
      rwa [Function.update_self]
    · rw [Function.update_of_ne hk]
      exact .refl _

/-- A command that changes one job. -/
theorem tidies_callLog {log : Redis → List Event} {reply : Redis → α} {f : Redis → Redis}
    {j : JobId} {g : JobView → JobView}
    (hf : ∀ r, (f r).view = Function.update r.view j (g (r.view j)))
    (hg : ∀ v : JobView, v.Tidy → (g v).Tidy ∧ v.Later (g v)) :
    Tidies i (callLog log reply f) := by
  refine Contract.triple_callLog (fun r _ hi _ _ => ?_) fun _ => Contract.stable_true
  obtain ⟨hv, hl⟩ := hg _ (hi j)
  obtain ⟨htidy, hlater⟩ := tidy_update hi (hf r) hv hl
  exact ⟨htidy, hlater, trivial⟩

theorem tidies_signalSubmit : Tidies i signalSubmit := tidies_still fun _ => rfl

theorem tidies_getJobs (jobIds : List JobId) : Tidies i (getJobs jobIds) := by
  induction jobIds with
  | nil => exact tidies_pure _
  | cons jobId jobIds ih =>
    exact Tidies.bind (tidies_still fun _ => rfl) fun _ => ih.bind fun _ => tidies_pure _

theorem tidies_peekPending (count : Nat) : Tidies i (peekPending count) := by
  have hlevels : ∀ prios results, Tidies i (peekLevels count prios results) := by
    intro prios
    induction prios with
    | nil => exact fun _ => tidies_pure _
    | cons prio prios ih =>
      intro results
      unfold peekLevels
      split
      · exact tidies_pure _
      · exact Tidies.bind (tidies_still fun _ => rfl) fun _ => ih _
  exact Tidies.bind (tidies_still fun _ => rfl) fun _ => hlevels _ _

theorem tidies_claimPending (now : ℚ) (entries : List QueueEntry) :
    Tidies i (claimPending now entries) := by
  induction entries with
  | nil => exact tidies_pure _
  | cons entry entries ih =>
    have hone : Tidies i (claimOne now entry) :=
      tidies_callLog (fun r => views_claim r now entry) fun v hv =>
        ⟨hv.later (.claim now _) fun _ => JobView.pending_claim, .claim now _⟩
    exact hone.bind fun _ => ih.bind fun _ => tidies_pure _

theorem tidies_dropPending (entries : List QueueEntry) : Tidies i (dropPending entries) := by
  induction entries with
  | nil => exact tidies_pure _
  | cons entry entries ih =>
    have hone : Tidies i (act (Redis.zremPending entry.priority entry.jobId)) :=
      tidies_callLog (fun r => Redis.views_zremPending r entry.jobId entry.priority) fun v hv =>
        ⟨hv.later (.zremPending _) fun _ => JobView.pending_zremPending, .zremPending _⟩
    exact hone.bind fun _ => ih

/-! A promotion is two commands with a gap in between. In the gap the job is not delayed, and
nobody delays it again. -/

/-- The job is not delayed, and its hash has this priority. -/
def Promotable (j : JobId) (priority : Int) (r : Redis) : Prop :=
  (r.view j).delayed = none ∧ ∀ h, (r.view j).hash = some h → priority = h.priority.getD 0

theorem stable_gone (j : JobId) :
    tidiness.Stable i fun (r : Redis) _ => (r.view j).delayed = none :=
  fun _ _ _ _ _ _ _ _ hg hd => (hg j).delayed hd

theorem stable_promotable (j : JobId) (priority : Int) :
    tidiness.Stable i fun r _ => Promotable j priority r := by
  intro k _ r _ r' _ _ _ hg ⟨hd, hp⟩
  refine ⟨(hg j).delayed hd, fun h' hh' => ?_⟩
  obtain ⟨h, hh, hs⟩ := (hg j).hash h' hh'
  rw [JobHash.priority_of_submit hs]
  exact hp h hh

theorem triple_addPending {j : JobId} {priority : Int} {score : ℚ} :
    Contract.Triple Regime.free tidiness i (addPending priority j score)
      (fun r _ => Promotable j priority r) fun _ _ _ => True := by
  have hrest : Tidies i (do
      act (Redis.saddLevel priority)
      signalSubmit : RedisProg Unit) :=
    Tidies.bind (tidies_still fun _ => rfl) fun _ => tidies_signalSubmit
  refine Contract.Triple.bind (Contract.triple_callLog (fun r _ hi hpre _ => ?_)
    fun _ => Contract.stable_true) fun _ => hrest
  obtain ⟨htidy, hlater⟩ := tidy_update hi (Redis.views_zaddPending r j priority score)
    ((hi j).zaddPending score hpre.1 hpre.2) (.zaddPending priority score)
  exact ⟨htidy, hlater, trivial⟩

theorem tidies_promoteMember (time : ℚ) (j : JobId) : Tidies i (promoteMember time j) := by
  have hzrem : Contract.Triple Regime.free tidiness i
      (call (fun r => (r.delayed.lookup j).isSome) (Redis.zremDelayed j) : RedisProg Bool)
      (fun _ _ => True) fun _ r _ => (r.view j).delayed = none := by
    refine Contract.triple_call (fun r _ hi _ => ?_) fun _ => stable_gone j
    obtain ⟨htidy, hlater⟩ := tidy_update hi (Redis.views_zremDelayed r j)
      ((hi j).later .zremDelayed fun _ => id) .zremDelayed
    refine ⟨htidy, hlater, ?_⟩
    rw [Redis.views_zremDelayed, Function.update_self]
    rfl
  have hget : Contract.Triple Regime.free tidiness i (getJob j : RedisProg (Option JobState))
      (fun r _ => (r.view j).delayed = none)
      fun state r _ => ∀ s, state = some s → Promotable j s.priority r := by
    refine Contract.triple_call (fun r _ hi hd => ⟨hi, fun k => .refl _, ?_⟩) fun state => ?_
    · intro s hs
      refine ⟨hd, fun h hh => ?_⟩
      have hh' : (r.view j).hash = some h := hh
      rw [Redis.state_eq, JobView.state, hh'] at hs
      exact JobState.priority_of_fromHash hs
    · exact fun k hk r es r' es' hi hi' hg hs s he =>
        stable_promotable j s.priority k hk r es r' es' hi hi' hg (hs s he)
  refine hzrem.bind fun removed => ?_
  split
  · refine hget.bind fun state => ?_
    cases state with
    | none => exact Contract.Triple.imp (tidies_pure _) (fun _ _ _ _ => trivial) fun _ _ _ h => h
    | some s =>
      exact (triple_addPending.imp (fun _ _ _ h => h s rfl) fun _ _ _ h => h).bind
        fun _ => tidies_pure _
  · exact Contract.Triple.imp (tidies_pure _) (fun _ _ _ _ => trivial) fun _ _ _ h => h

theorem tidies_promoteDueRetries (now time : ℚ) : Tidies i (promoteDueRetries now time) := by
  refine Tidies.bind (tidies_still fun _ => rfl) fun jobIds => ?_
  induction jobIds with
  | nil => exact tidies_pure _
  | cons jobId jobIds ih =>
    exact (tidies_promoteMember time jobId).bind fun _ => ih.bind fun _ => tidies_pure _

end

/-! ## The sweep -/

namespace JobView

open Classical in
/-- The job after the script. -/
noncomputable def swept (now claimGraceS : ℚ) (v : JobView) : JobView :=
  if h : ∃ h, v.Orphaned now claimGraceS h then
    v.zaddPending (h.choose.priority.getD 0) (h.choose.submittedAt.getD now)
  else v

variable {now claimGraceS : ℚ} {v : JobView} {h : JobHash}

theorem swept_of_orphaned (ho : v.Orphaned now claimGraceS h) :
    v.swept now claimGraceS =
      v.zaddPending (h.priority.getD 0) (h.submittedAt.getD now) := by
  have hex : ∃ h, v.Orphaned now claimGraceS h := ⟨h, ho⟩
  have he : hex.choose = h := Option.some.inj (hex.choose_spec.1.symm.trans ho.1)
  rw [swept, dif_pos hex, he]

theorem swept_of_not (ho : ∀ h, ¬v.Orphaned now claimGraceS h) :
    v.swept now claimGraceS = v := dif_neg (not_exists.mpr ho)

/-- What the script leaves, no script takes for an orphan that the first did not. -/
theorem not_orphaned_swept {now' : ℚ} (h' : JobHash)
    (hlate : ∀ c, h'.claimedAt = some c → claimGraceS ≤ now' - c → claimGraceS ≤ now - c) :
    ¬(v.swept now claimGraceS).Orphaned now' claimGraceS h' := by
  by_cases ho : ∃ h, v.Orphaned now claimGraceS h
  · obtain ⟨h, ho⟩ := ho
    rw [swept_of_orphaned ho]
    rintro ⟨hh, -, -, -, hp⟩
    have he : h = h' := Option.some.inj (ho.1.symm.trans hh)
    simp [he, zaddPending] at hp
  · rw [swept_of_not (not_exists.mp ho)]
    rintro ⟨hh, hs, hd, hc, hp⟩
    exact ho ⟨h', hh, hs, hd, fun c hclaim => hlate c hclaim (hc c hclaim), hp⟩

theorem swept_swept : (v.swept now claimGraceS).swept now claimGraceS =
    v.swept now claimGraceS :=
  swept_of_not fun h => not_orphaned_swept h fun _ _ => id

theorem Tidy.swept (ht : v.Tidy) : (v.swept now claimGraceS).Tidy := by
  by_cases ho : ∃ h, v.Orphaned now claimGraceS h
  · obtain ⟨h, ho⟩ := ho
    rw [swept_of_orphaned ho]
    exact ht.orphan ho _
  · rw [swept_of_not (not_exists.mp ho)]
    exact ht

theorem hash_swept (now claimGraceS : ℚ) (v : JobView) :
    (v.swept now claimGraceS).hash = v.hash := by
  unfold JobView.swept
  split <;> rfl

theorem Later.swept : v.Later (v.swept now claimGraceS) := by
  unfold JobView.swept
  split
  · exact .zaddPending _ _
  · exact .refl v

end JobView

section

variable {claimGraceS : ℚ} {r : Redis}

theorem views_requeueOrphan (r : Redis) (now claimGraceS : ℚ) (j : JobId) :
    (r.requeueOrphan now claimGraceS j).view =
      Function.update r.view j ((r.view j).swept now claimGraceS) := by
  by_cases ho : ∃ h, (r.view j).Orphaned now claimGraceS h
  · obtain ⟨h, ho⟩ := ho
    rw [JobView.swept_of_orphaned ho, views_requeueOrphan_of_orphaned r j ho]
  · rw [JobView.swept_of_not (not_exists.mp ho), requeueOrphan_of_not r j (not_exists.mp ho),
      Function.update_eq_self]

/-- The scripts of a sweep, one after another. -/
theorem views_requeueOrphanScripts (jobIds : List JobId) (now : ℚ) (k : JobId) :
    ((run (requeueOrphanScripts now claimGraceS jobIds) r).2.view k) =
      if k ∈ jobIds then (r.view k).swept now claimGraceS else r.view k := by
  induction jobIds generalizing r with
  | nil => rfl
  | cons jobId jobIds ih =>
    have hrun : (run (requeueOrphanScripts now claimGraceS (jobId :: jobIds)) r).2 =
        (run (requeueOrphanScripts now claimGraceS jobIds)
          (r.requeueOrphan now claimGraceS jobId)).2 := by
      rw [requeueOrphanScripts, run_bind, run_bind]
      rfl
    rw [hrun, ih, views_requeueOrphan]
    by_cases hk : k = jobId
    · subst hk
      rw [Function.update_self, if_pos (List.mem_cons_self ..), JobView.swept_swept, ite_self]
    · rw [Function.update_of_ne hk]
      simp [hk]

/-- `requeue_orphans` over `jobIds`, from start to end. -/
def Redis.sweep (now claimGraceS : ℚ) (jobIds : List JobId) (r : Redis) : Redis :=
  (run (requeueOrphans jobIds now claimGraceS) r).2

theorem views_sweep (r : Redis) (now : ℚ) (jobIds : List JobId) (k : JobId) :
    (r.sweep now claimGraceS jobIds).view k =
      if k ∈ jobIds then (r.view k).swept now claimGraceS else r.view k := by
  simp only [Redis.sweep, requeueOrphans, run_bind, run_pure, (quiet_signalSubmit _).when.view,
    views_requeueOrphanScripts]

/-- A sweep that finds no orphan answers that it requeued none. -/
theorem requeueOrphans_of_none (jobIds : List JobId) (now : ℚ)
    (h : ∀ j ∈ jobIds, ∀ hash, ¬(r.view j).Orphaned now claimGraceS hash) :
    run (requeueOrphans jobIds now claimGraceS) r = ([], r) := by
  have hscripts : run (requeueOrphanScripts now claimGraceS jobIds) r = ([], r) := by
    induction jobIds with
    | nil => rfl
    | cons jobId jobIds ih =>
      have hno := h jobId (List.mem_cons_self ..)
      have hanswer : r.requeues now claimGraceS jobId = false := by
        rw [← Bool.not_eq_true, requeues_iff]
        exact not_exists.mpr hno
      rw [requeueOrphanScripts, run_bind, requeueOrphan, run_callLog,
        requeueOrphan_of_not r jobId hno, run_bind,
        ih fun j hj => h j (List.mem_cons_of_mem _ hj), hanswer]
      rfl
  rw [requeueOrphans, run_bind, hscripts]
  rfl

theorem tidies_requeueOrphans {ι : Type} {i : ι} (jobIds : List JobId) (now : ℚ) :
    Tidies i (requeueOrphans jobIds now claimGraceS) := by
  have hscripts : Tidies i (requeueOrphanScripts now claimGraceS jobIds) := by
    induction jobIds with
    | nil => exact tidies_pure _
    | cons jobId jobIds ih =>
      have hone : Tidies i (requeueOrphan now claimGraceS jobId) :=
        tidies_callLog (fun r => views_requeueOrphan r now claimGraceS jobId) fun v hv =>
          ⟨hv.swept, .swept⟩
      exact hone.bind fun _ => ih.bind fun _ => tidies_pure _
  exact hscripts.bind fun _ => (tidies_when tidies_signalSubmit).bind fun _ => tidies_pure _

/-- **Whatever a client does, every job stays tidy.** -/
theorem Client.tidies {ι : Type} {i : ι} {c : RedisProg Unit} (h : Client claimGraceS c) :
    Tidies i c := by
  induction h with
  | done => exact tidies_pure ()
  | peekPending count _ ih => exact (tidies_peekPending count).bind ih
  | getJobs jobIds _ ih => exact (tidies_getJobs jobIds).bind ih
  | claimPending now entries _ ih => exact (tidies_claimPending now entries).bind ih
  | dropPending entries _ ih => exact (tidies_dropPending entries).bind ih
  | promoteDueRetries now time _ ih => exact (tidies_promoteDueRetries now time).bind ih
  | requeueOrphans jobIds now _ ih => exact (tidies_requeueOrphans jobIds now).bind ih
  | expire jobId _ ih =>
    have hone : Tidies i (act (Redis.expireNow jobId)) :=
      tidies_callLog (fun r => Redis.views_expireNow r jobId) fun v hv =>
        ⟨hv.later .expired fun _ => id, .expired⟩
    exact hone.bind ih

/-! ## What a sweep does -/

/-- The hash was claimed less than the grace ago. -/
def JobHash.Fresh (now claimGraceS : ℚ) (h : JobHash) : Prop :=
  ∃ t, h.claimedAt = some t ∧ now - t < claimGraceS

/-- A sweep at `now` over `jobIds`, from the state `r`. -/
structure Redis.Sweeps (claimGraceS : ℚ) (r : Redis) (now : ℚ) (jobIds : List JobId) : Prop where
  /-- A queued job that was not claimed just now is then in the queue its hash says, or
  delayed, and not both. -/
  placed : ∀ j ∈ jobIds, ∀ h, r.jobs.lookup j = some h → h.status = some .queued →
    ¬h.Fresh now claimGraceS →
      j ∈ (r.sweep now claimGraceS jobIds).pending (h.priority.getD 0) ∧
          j ∉ (r.sweep now claimGraceS jobIds).delayed ∨
        j ∈ (r.sweep now claimGraceS jobIds).delayed ∧
          ∀ p, j ∉ (r.sweep now claimGraceS jobIds).pending p
  /-- What the sweep adds, it adds at the time of the submit. -/
  score : ∀ j p score, j ∉ r.pending p →
    ((r.sweep now claimGraceS jobIds).pending p).lookup j = some score →
      ∃ h, r.jobs.lookup j = some h ∧ p = h.priority.getD 0 ∧ h.submittedAt = some score
  /-- Every other job is left as it is. -/
  untouched : ∀ j, (∀ h, r.jobs.lookup j = some h → h.status = some .queued →
      h.Fresh now claimGraceS ∨ (∃ p, j ∈ r.pending p) ∨ j ∈ r.delayed) →
    (r.sweep now claimGraceS jobIds).view j = r.view j
  /-- A second sweep, at the same time or once every listed job was swept, adds nothing. -/
  again : ∀ now', (now' ≤ now ∨ ∀ j ∈ jobIds, ∀ h, r.jobs.lookup j = some h →
      ¬h.Fresh now claimGraceS) →
    run (requeueOrphans jobIds now' claimGraceS) (r.sweep now claimGraceS jobIds) =
      ([], r.sweep now claimGraceS jobIds)

variable {now : ℚ} {jobIds : List JobId}

theorem JobHash.old_of_not_fresh {h : JobHash} (hn : ¬h.Fresh now claimGraceS) (t : ℚ)
    (ht : h.claimedAt = some t) : claimGraceS ≤ now - t :=
  not_lt.mp fun hlt => hn ⟨t, ht, hlt⟩

theorem sweeps_of_tidy (ht : ∀ j, (r.view j).Tidy) : r.Sweeps claimGraceS now jobIds where
  placed j hj h hh hs hf := by
    have htidy : ((r.view j).swept now claimGraceS).Tidy := (ht j).swept
    have hhash : ((r.view j).swept now claimGraceS).hash = some h :=
      (JobView.hash_swept ..).trans hh
    have hno : ¬((r.view j).swept now claimGraceS).Orphaned now claimGraceS h :=
      JobView.not_orphaned_swept h fun _ _ => id
    rw [World.mem_pending_iff, World.mem_delayed_iff, views_sweep, if_pos hj]
    simp only [World.mem_pending_iff, views_sweep, if_pos hj]
    by_cases hd : ((r.view j).swept now claimGraceS).delayed = none
    · refine Or.inl ⟨fun hp => ?_, fun hn => hn hd⟩
      exact hno ⟨hhash, hs, hd, fun t htime => h.old_of_not_fresh hf t htime, hp⟩
    · exact Or.inr ⟨hd, fun p hp => hd (htidy.once p hp)⟩
  score j p score hp hscore := by
    have hp' : (r.view j).pending p = none := by
      rw [World.mem_pending_iff] at hp
      exact not_not.mp hp
    rw [← Redis.view_pending, views_sweep] at hscore
    split at hscore
    · by_cases ho : ∃ h, (r.view j).Orphaned now claimGraceS h
      · obtain ⟨h, ho⟩ := ho
        obtain ⟨-, -, -, hsubmit⟩ := (JobState.isSome_fromHash h).mp ((ht j).readable h ho.1)
        obtain ⟨at', hat⟩ := Option.isSome_iff_exists.mp hsubmit
        rw [JobView.swept_of_orphaned ho] at hscore
        by_cases hlevel : p = h.priority.getD 0
        · refine ⟨h, ho.1, hlevel, ?_⟩
          simpa [JobView.zaddPending, hlevel, hat] using hscore
        · simp [JobView.zaddPending, hlevel, hp'] at hscore
      · rw [JobView.swept_of_not (not_exists.mp ho), hp'] at hscore
        cases hscore
    · rw [hp'] at hscore
      cases hscore
  untouched j hj := by
    rw [views_sweep]
    split
    · refine JobView.swept_of_not fun h ho => ?_
      obtain ⟨hh, hs, hd, hclaim, hp⟩ := ho
      rcases hj h hh hs with ⟨t, htime, hlt⟩ | ⟨p, hmem⟩ | hmem
      · have := hclaim t htime
        linarith
      · rw [World.mem_pending_iff] at hmem
        exact hmem ((ht j).level h p hh hmem ▸ hp)
      · exact World.mem_delayed_iff.mp hmem hd
    · rfl
  again now' hlate := by
    refine requeueOrphans_of_none jobIds now' fun j hj h ho => ?_
    rw [views_sweep, if_pos hj] at ho
    have hh : (r.view j).hash = some h := (JobView.hash_swept ..).symm.trans ho.1
    refine JobView.not_orphaned_swept h (fun t htime hold => ?_) ho
    rcases hlate with hle | hall
    · linarith
    · exact h.old_of_not_fresh (hall j hj h hh) t htime

/-! ## Any interleaving -/

theorem tidy_of_ok {w : World} (hw : w.EachJob fun _ => JobCase.Ok False claimGraceS) (j : JobId) :
    (w.redis.view j).Tidy := by
  rcases hw j with hx | ⟨h, site, harvest, hv, hr, hf⟩
  · have hv : w.redis.view j = JobView.empty := congrArg Prod.snd hx
    rw [hv]
    constructor <;> simp [JobView.empty]
  · have hv' : w.redis.view j = site.view (some h) harvest := hv
    rw [hv']
    refine ⟨fun h' hh => Option.some.inj hh ▸ hr, fun h' p hh hp => ?_, fun p hp => ?_⟩
    · obtain rfl := Option.some.inj hh
      obtain ⟨score, rfl⟩ := (Site.pending_view ..).mp hp
      cases hf
      rfl
    · obtain ⟨score, rfl⟩ := (Site.pending_view ..).mp hp
      rfl

variable {ι : Type} [DecidableEq ι]

/-- Clients that start from tidy jobs, and from no more claims than puts. -/
theorem sweeps_of_pool {p q : Pool Redis Event ι} (hr : Pool.Run Regime.free p q)
    (hprocs : ∀ i c, p.procs i = some c → Client claimGraceS c)
    (hroom : AllRoom p.shared p.history) (ht : ∀ j, (p.shared.view j).Tidy) :
    (∀ j, claims j q.history ≤ puts j q.history) ∧
      ∀ now jobIds, q.shared.Sweeps claimGraceS now jobIds := by
  have hroom' : AllRoom q.shared q.history :=
    Pool.Run.each hr (fun effect log r es hf _ => AllRoom.fair effect log r es hf)
      (fun _ _ _ h => h) (fun i c hi => (hprocs i c hi).fair) hroom
  have hsound : Pool.Sound Regime.free tidiness (fun _ _ _ => True) p :=
    ⟨ht, fun i c hi => ⟨fun _ _ => True, trivial, Contract.stable_true, (hprocs i c hi).tidies⟩⟩
  have hsound' := hsound.run (fun _ _ _ hi => ⟨hi, fun j => .refl _⟩) hr
  exact ⟨hroom'.claims_le, fun now jobIds => sweeps_of_tidy hsound'.inv⟩

/-- **After a regular run and any interleaving of workers that may die at any command, no job
was claimed more often than it was put on a queue, and a sweep finds every lost job.** -/
theorem sweeps_of_run {start : ℚ} {actions : List Action}
    {procs : ι → Option (RedisProg Unit)} {q : Pool Redis Event ι}
    (h : (World.initial start).ObeysCalls claimGraceS (Regular claimGraceS) actions)
    (hprocs : ∀ i c, procs i = some c → Client claimGraceS c)
    (hr : Pool.Run Regime.free
      { shared := ((World.initial start).run claimGraceS actions).redis
        procs := procs
        history := (World.initial start).history claimGraceS actions } q) :
    (∀ j, claims j q.history ≤ puts j q.history) ∧
      ∀ now jobIds, q.shared.Sweeps claimGraceS now jobIds :=
  sweeps_of_pool hr hprocs (World.allRoom_run start actions)
    (tidy_of_ok (World.ok_run h (World.eachJob_initial start)))

/-- The sample job is claimed by a worker that dies, and swept back. -/
theorem sweeps_of_run_sample : ∃ q : Pool Redis Event Unit,
    q.procs () = none ∧ q.history = [.put 1, .claimed 1] ∧
      (∀ j, claims j q.history ≤ puts j q.history) ∧
        ∀ now jobIds, q.shared.Sweeps 60 now jobIds := by
  have hregular : (World.initial 0).ObeysCalls 60 (Regular 60) (sampleRun.take 1) :=
    ⟨sampleRun_regular.1, trivial⟩
  let worker : RedisProg Unit := claimPending 0 [⟨1, 0, 0⟩] >>= fun _ => pure ()
  have hclient : ∀ (i : Unit) c, (fun _ => some worker) i = some c → Client 60 c :=
    fun _ _ hc => Option.some.inj hc ▸ .claimPending 0 _ fun _ => .done
  let start : Pool Redis Event Unit :=
    { shared := ((World.initial 0).run 60 (sampleRun.take 1)).redis
      procs := fun _ => some worker
      history := (World.initial 0).history 60 (sampleRun.take 1) }
  have hclaimed := Pool.Step.exec (R := Regime.free) (p := start) (i := ()) rfl rfl trivial
  have hrun := (Relation.ReflTransGen.single hclaimed).tail (Pool.Step.crash (i := ()) rfl)
  exact ⟨_, rfl, by decide +kernel, sweeps_of_run hregular hclient hrun⟩

end

end Taas

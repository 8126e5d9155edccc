import Mathlib.Tactic.Linarith
import Taas.Infra.Runs
import Taas.Properties.Places
import Taas.Workers.Polls

/-!
# Polling backs off exponentially

The backoff is kept in two fields of the job's hash, which a dispatch, a status check and a requeue
each write in part.

* `JobView.Polled` — what the hash says of the checks.
* `Stint`, `Retry` — a dispatch, and one that ends with a requeue.
* `doubles_iff` — one dispatch, from what the hash said at its start.
* `backs_off_iff` — a dispatch after any number of others.
-/

namespace Taas

open Infra Infra.Prog

/-! ## What the hash says of the checks -/

/-- A whole job's hash, with its `next_poll_at` and its `last_poll`. -/
def JobView.Polled (v : JobView) (next last : Option ℚ) : Prop :=
  ∃ h, v.hash = some h ∧ h.Readable ∧ h.nextPollAt = next ∧ h.lastPoll = last

namespace JobView.Polled

variable {v : JobView} {next last next' last' : Option ℚ}

theorem hmod (hv : v.Polled next last) {f : JobHash → JobHash}
    (hsubmit : ∀ h, (f h).submit = h.submit)
    (hf : ∀ h : JobHash, h.nextPollAt = next → h.lastPoll = last →
      (f h).nextPollAt = next' ∧ (f h).lastPoll = last') : (v.hmod f).Polled next' last' := by
  obtain ⟨h, hh, hr, hn, hl⟩ := hv
  refine ⟨f h, ?_, hr.keep (hsubmit h), hf h hn hl⟩
  rw [JobView.hmod, hh]
  rfl

theorem hset (hv : v.Polled next last) {f : JobHash → JobHash}
    (hsubmit : ∀ h, (f h).submit = h.submit)
    (hf : ∀ h : JobHash, h.nextPollAt = next → h.lastPoll = last →
      (f h).nextPollAt = next' ∧ (f h).lastPoll = last') : (v.hset f).Polled next' last' := by
  obtain ⟨h, hh, hr, hn, hl⟩ := hv
  refine ⟨f h, ?_, hr.keep (hsubmit h), hf h hn hl⟩
  rw [JobView.hset, hh]
  rfl

theorem unique (hv : v.Polled next last) (hv' : v.Polled next' last') : last = last' := by
  obtain ⟨h, hh, -, -, rfl⟩ := hv
  obtain ⟨h', hh', -, -, rfl⟩ := hv'
  rw [Option.some.inj (hh.symm.trans hh')]

/-- `set_running` says when the first check is due, and leaves the last check's time. -/
theorem run (hv : v.Polled next last) (settings : Settings) (now : ℚ)
    (engineJobId backendUrl : String) (b : BackendId) (stateTtl : Nat) :
    (v.run settings now engineJobId backendUrl b stateTtl).Polled
      (some (now + settings.pollBackoffInitial)) last := by
  have hset := hv.hset (f := JobHash.running now settings engineJobId backendUrl b)
    (fun _ => rfl) fun _ _ hl => ⟨rfl, hl⟩
  exact hset.hmod (f := JobHash.expiring stateTtl) (fun _ => rfl) fun _ hn hl => ⟨hn, hl⟩

theorem polled (hv : v.Polled next last) (at' now : ℚ) :
    (v.hset (JobHash.polled at' now)).Polled (some at') (some now) :=
  hv.hset (f := JobHash.polled at' now) (fun _ => rfl) fun _ _ _ => ⟨rfl, rfl⟩

/-- A requeue leaves both fields. -/
theorem requeued (hv : v.Polled next last) (now score : ℚ) (stateTtl : Nat) (delayS : ℚ)
    (avoid : Option BackendId) (level : Int) :
    ((v.backToQueued.cleared stateTtl).requeued now score delayS avoid level).Polled next last := by
  have hqueued : v.backToQueued.Polled next last :=
    hset (v := v.sremInflight) hv (f := JobHash.queued) (fun _ => rfl) fun _ hn hl => ⟨hn, hl⟩
  have hclear := hqueued.hmod (f := JobHash.clearDispatch) (fun _ => rfl) fun _ hn hl => ⟨hn, hl⟩
  have hcleared : (v.backToQueued.cleared stateTtl).Polled next last :=
    hmod (v := (v.backToQueued.hmod JobHash.clearDispatch).zremHarvest) hclear
      (f := JobHash.expiring stateTtl) (fun _ => rfl) fun _ hn hl => ⟨hn, hl⟩
  unfold JobView.requeued
  split
  · have hscored := hcleared.hset (f := JobHash.scored score) (fun _ => rfl)
      fun _ hn hl => ⟨hn, hl⟩
    cases avoid with
    | none => exact hscored
    | some b =>
      exact hscored.hset (f := fun h => h.avoiding (insert b (h.avoidBackends.getD ∅)))
        (fun _ => rfl) fun _ hn hl => ⟨hn, hl⟩
  · exact hcleared

end JobView.Polled

/-! ## One check -/

section

variable {jobId : JobId} {r : Redis} {next : ℚ} {last : Option ℚ}

@[simp] theorem orNow_some {t now : ℚ} (h : t ≠ 0) : orNow (some t) now = t := by
  simp [orNow, Option.filter_some, h]

@[simp] theorem orNow_self (now : ℚ) : orNow (some now) now = now := by
  by_cases h : now = 0 <;> simp [orNow, Option.filter_some, h]

/-- A check made at `next`: it doubles the gap, and the next gap is the delay. -/
theorem run_checkWhenDue (settings : Settings) (cap : ℚ)
    (hr : (r.view jobId).Polled (some next) last) :
    let delay := min (max ((next - orNow last next) * 2) settings.pollBackoffInitial) cap
    (run (checkWhenDue settings cap jobId) r).1 = some delay ∧
      ((run (checkWhenDue settings cap jobId) r).2.view jobId).Polled (some (next + delay))
        (some next) := by
  intro delay
  have hpolled := hr
  obtain ⟨h, hh, hread, hn, hl⟩ := hr
  obtain ⟨s, hs⟩ := Option.isSome_iff_exists.mp hread
  have hstate : (run (getJob jobId) r).1 = some s := by
    show (r.view jobId).hash.bind JobState.fromHash = some s
    rw [hh, Option.bind_some, hs]
  have hfields : s.nextPollAt = some next ∧ s.lastPoll = last := by
    rw [← hn, ← hl]
    unfold JobState.fromHash at hs
    split at hs
    · rw [← Option.some.inj hs]
      exact ⟨rfl, rfl⟩
    · cases hs
  have hdelay : nextPollDelay s (s.nextPollAt.getD 0) settings.pollBackoffInitial cap = delay := by
    rw [nextPollDelay, hfields.1, hfields.2, Option.getD_some, orNow_self]
  have hrun : run (checkWhenDue settings cap jobId) r =
      (some delay, (run (scheduleNextPoll jobId (next + delay) next) r).2) := by
    rw [checkWhenDue, run_bind, hstate]
    simp only [run_bind, scheduleRunning, run_pure]
    rw [hdelay, hfields.1]
    rfl
  rw [hrun, views_scheduleNextPoll, Function.update_self]
  exact ⟨rfl, hpolled.polled _ _⟩

end

/-! ## One dispatch -/

/-- A dispatch of the job, and what the others do to Redis before each of its checks. -/
structure Stint where
  now : ℚ
  engineJobId : String
  backendUrl : String
  backendId : BackendId
  stateTtl : Nat
  others : Nat → Redis → Redis := fun _ => id

/-- A dispatch that ends with a requeue, after some checks that found the job running; then the job
waits until it is dispatched again. -/
structure Retry extends Stint where
  checks : Nat
  requeuedAt : ℚ
  score : ℚ
  delayS : ℚ := 0
  avoidBackendId : Option BackendId := none
  meanwhile : Redis → Redis := id

section

variable (settings : Settings) (cap : ℚ) (jobId : JobId)

def Stint.dispatched (s : Stint) (r : Redis) : Redis :=
  (run (setRunning settings s.now jobId s.engineJobId s.backendUrl s.backendId s.stateTtl) r).2

/-- Redis after the first `k` checks. -/
def Stint.checked (s : Stint) (r : Redis) : Nat → Redis
  | 0 => s.dispatched settings jobId r
  | k + 1 => (run (checkWhenDue settings cap jobId) (s.others k (s.checked r k))).2

/-- By how long the check after the first `k` ones puts the next one off. -/
def Stint.delay (s : Stint) (r : Redis) (k : Nat) : Option ℚ :=
  (run (checkWhenDue settings cap jobId) (s.others k (s.checked settings cap jobId r k))).1

def Retry.act (r : Redis) (t : Retry) : Redis :=
  t.meanwhile (run (releaseAndRequeue t.requeuedAt jobId t.score t.stateTtl t.delayS
    t.avoidBackendId) (t.checked settings cap jobId r t.checks)).2

/-- The others write neither of the two fields. -/
def LeavesPolls (f : Redis → Redis) : Prop :=
  ∀ r next last, (r.view jobId).Polled next last → ((f r).view jobId).Polled next last

/-- A dispatch is not before the job's last check. -/
def Clocked (r : Redis) (s : Stint) : Prop :=
  0 ≤ s.now ∧ ∀ next last, (r.view jobId).Polled next (some last) → last ≤ s.now

end

section

variable {settings : Settings} {cap : ℚ} {jobId : JobId} {r : Redis} {next : ℚ}
  {last : Option ℚ} {s : Stint}

theorem polled_dispatched {next last : Option ℚ} (hr : (r.view jobId).Polled next last) (s : Stint) :
    ((s.dispatched settings jobId r).view jobId).Polled
      (some (s.now + settings.pollBackoffInitial)) last := by
  rw [Stint.dispatched, views_setRunning, Function.update_self]
  exact hr.run ..

/-- Doubling a capped delay. -/
theorem double_capped {initial cap : ℚ} (h0 : 0 < initial) (hcap : initial ≤ cap) (k : Nat) :
    min (max (min (initial * 2 ^ k) cap * 2) initial) cap = min (initial * 2 ^ (k + 1)) cap := by
  have hpow : initial ≤ initial * 2 ^ k := le_mul_of_one_le_right h0.le (one_le_pow₀ one_le_two)
  have hle : initial ≤ min (initial * 2 ^ k) cap := le_min hpow hcap
  rw [max_eq_left (by linarith), pow_succ, ← mul_assoc]
  rcases le_total (initial * 2 ^ k) cap with hk | hk
  · rw [min_eq_left hk]
  · -- capped already
    rw [min_eq_right hk, min_eq_right (by linarith), min_eq_right (by linarith)]

/-- Once a delay is right, all later ones are. -/
theorem delay_eq (h0 : 0 < settings.pollBackoffInitial) (hcap : settings.pollBackoffInitial ≤ cap)
    (hothers : ∀ k, LeavesPolls jobId (s.others k))
    (hstart : ((s.dispatched settings jobId r).view jobId).Polled (some next) last) (hnext : 0 < next)
    (hfirst : min (max ((next - orNow last next) * 2) settings.pollBackoffInitial) cap =
      settings.pollBackoffInitial) (k : Nat) :
    ∃ next last, ((s.checked settings cap jobId r k).view jobId).Polled (some next) last ∧ 0 < next ∧
      min (max ((next - orNow last next) * 2) settings.pollBackoffInitial) cap =
        min (settings.pollBackoffInitial * 2 ^ k) cap := by
  induction k with
  | zero =>
    refine ⟨next, last, hstart, hnext, ?_⟩
    rw [hfirst, pow_zero, mul_one, min_eq_left hcap]
  | succ k ih =>
    obtain ⟨next, last, hpolled, hpos, hdelay⟩ := ih
    obtain ⟨-, hafter⟩ := run_checkWhenDue settings cap (hothers k _ _ _ hpolled)
    rw [hdelay] at hafter
    have hgap : 0 < min (settings.pollBackoffInitial * 2 ^ k) cap :=
      lt_min (by positivity) (h0.trans_le hcap)
    refine ⟨_, _, hafter, by linarith, ?_⟩
    rw [orNow_some hpos.ne', add_sub_cancel_left]
    exact double_capped h0 hcap k

/-- **A dispatch backs off as it should exactly if what the hash has of the last check makes no gap,
or there is nothing to back off.** -/
theorem doubles_iff (h0 : 0 < settings.pollBackoffInitial)
    (hcap : settings.pollBackoffInitial ≤ cap) (hothers : ∀ k, LeavesPolls jobId (s.others k))
    (hnow : 0 ≤ s.now) {next : Option ℚ} (hr : (r.view jobId).Polled next last) :
    (∀ k, s.delay settings cap jobId r k =
      some (min (settings.pollBackoffInitial * 2 ^ k) cap)) ↔
        settings.pollBackoffInitial = cap ∨
          (s.now + settings.pollBackoffInitial -
            orNow last (s.now + settings.pollBackoffInitial)) * 2 ≤ settings.pollBackoffInitial := by
  set first := s.now + settings.pollBackoffInitial with hfirst
  have hstart : ((s.dispatched settings jobId r).view jobId).Polled (some first) last :=
    polled_dispatched hr s
  have hpos : 0 < first := by linarith
  constructor
  · intro hall
    have hzero := hall 0
    have hfirst' : ((s.checked settings cap jobId r 0).view jobId).Polled (some first) last := hstart
    rw [Stint.delay, (run_checkWhenDue settings cap (hothers 0 _ _ _ hfirst')).1,
      Option.some.injEq, pow_zero, mul_one, min_eq_left hcap] at hzero
    rcases hcap.lt_or_eq with hlt | heq
    · right
      by_contra hgap
      rw [not_le] at hgap
      have hbig : settings.pollBackoffInitial <
          min (max ((first - orNow last first) * 2) settings.pollBackoffInitial) cap :=
        lt_min (lt_max_of_lt_left hgap) hlt
      rw [hzero] at hbig
      exact lt_irrefl _ hbig
    · exact Or.inl heq
  · intro hcond k
    have hdelay : min (max ((first - orNow last first) * 2) settings.pollBackoffInitial) cap =
        settings.pollBackoffInitial := by
      rcases hcond with heq | hgap
      · rw [← heq]
        exact min_eq_right (le_max_right _ _)
      · rw [max_eq_right hgap, min_eq_left hcap]
    obtain ⟨n, l, hpolled, -, hk⟩ := delay_eq h0 hcap hothers hstart hpos hdelay k
    rw [Stint.delay, (run_checkWhenDue settings cap (hothers k _ _ _ hpolled)).1, hk]

/-! ## One dispatch after another -/

/-- After a check the hash has its time. -/
theorem polled_checked (h0 : 0 < settings.pollBackoffInitial)
    (hcap : settings.pollBackoffInitial ≤ cap) (hothers : ∀ k, LeavesPolls jobId (s.others k))
    (hnow : 0 ≤ s.now) {next : Option ℚ} (hr : (r.view jobId).Polled next last) (k : Nat) :
    ∃ n l, ((s.checked settings cap jobId r k).view jobId).Polled (some n) l ∧ 0 < n ∧
      (k = 0 → l = last) ∧ (k ≠ 0 → ∃ t, l = some t ∧ 0 < t) := by
  induction k with
  | zero => exact ⟨_, last, polled_dispatched hr s, by linarith, fun _ => rfl, fun h => absurd rfl h⟩
  | succ k ih =>
    obtain ⟨n, l, hpolled, hpos, -, -⟩ := ih
    obtain ⟨-, hafter⟩ := run_checkWhenDue settings cap (hothers k _ _ _ hpolled)
    refine ⟨_, _, hafter, ?_, fun h => (nomatch h), fun _ => ⟨n, rfl, hpos⟩⟩
    have hdelay : 0 < min (max ((n - orNow l n) * 2) settings.pollBackoffInitial) cap :=
      lt_min (lt_max_of_lt_right h0) (h0.trans_le hcap)
    linarith

/-- Nothing but a check puts a time there. -/
theorem polled_act (h0 : 0 < settings.pollBackoffInitial)
    (hcap : settings.pollBackoffInitial ≤ cap) {t : Retry}
    (hothers : ∀ k, LeavesPolls jobId (t.others k)) (hmeanwhile : LeavesPolls jobId t.meanwhile)
    (hnow : 0 ≤ t.now) {next : Option ℚ} (hr : (r.view jobId).Polled next last) :
    ∃ n l, ((t.act settings cap jobId r).view jobId).Polled n l ∧ (t.checks = 0 → l = last) ∧
      (t.checks ≠ 0 → ∃ time, l = some time ∧ 0 < time) := by
  obtain ⟨n, l, hpolled, -, hzero, hsome⟩ := polled_checked h0 hcap hothers hnow hr t.checks
  refine ⟨some n, l, hmeanwhile _ _ _ ?_, hzero, hsome⟩
  rw [views_releaseAndRequeue, Function.update_self]
  exact hpolled.requeued ..

/-- After some dispatches the hash has the time of the last check of all. -/
theorem polled_foldl (h0 : 0 < settings.pollBackoffInitial)
    (hcap : settings.pollBackoffInitial ≤ cap) {retries : List Retry}
    (hothers : ∀ t ∈ retries, (∀ k, LeavesPolls jobId (t.others k)) ∧ LeavesPolls jobId t.meanwhile)
    (hclock : Obeys (Retry.act settings cap jobId) (fun r t => Clocked jobId r t.toStint) r retries)
    {next : Option ℚ} (hr : (r.view jobId).Polled next last) :
    ∃ n l, ((retries.foldl (Retry.act settings cap jobId) r).view jobId).Polled n l ∧
      ((∀ t ∈ retries, t.checks = 0) → l = last) ∧
        (¬(∀ t ∈ retries, t.checks = 0) → ∃ time, l = some time ∧ 0 < time) := by
  induction retries generalizing r next last with
  | nil => exact ⟨next, last, hr, fun _ => rfl, fun h => absurd (fun t ht => (nomatch ht)) h⟩
  | cons t retries ih =>
    obtain ⟨ho, hm⟩ := hothers t List.mem_cons_self
    obtain ⟨n, l, hpolled, hzero, hsome⟩ := polled_act h0 hcap ho hm hclock.1.1 hr
    obtain ⟨n', l', hpolled', hzero', hsome'⟩ :=
      ih (fun t ht => hothers t (List.mem_cons_of_mem _ ht)) hclock.2 hpolled
    refine ⟨n', l', hpolled', fun hall => ?_, fun hnot => ?_⟩
    · rw [hzero' fun t ht => hall t (List.mem_cons_of_mem _ ht), hzero (hall t List.mem_cons_self)]
    · by_cases hrest : ∀ t ∈ retries, t.checks = 0
      · have hne : t.checks ≠ 0 := by
          intro hz
          refine hnot fun t' ht' => ?_
          rcases List.mem_cons.mp ht' with rfl | ht'
          · exact hz
          · exact hrest t' ht'
        rw [hzero' hrest]
        exact hsome hne
      · exact hsome' hrest

/-- **A dispatch backs off as it should exactly if none before it was found running, or there is
nothing to back off.** -/
theorem backs_off_iff (settings : Settings) (cap : ℚ) (jobId : JobId)
    (h0 : 0 < settings.pollBackoffInitial) (hcap : settings.pollBackoffInitial ≤ cap) {r : Redis}
    {next : Option ℚ} (hnew : (r.view jobId).Polled next none) (retries : List Retry)
    (hothers : ∀ t ∈ retries, (∀ k, LeavesPolls jobId (t.others k)) ∧ LeavesPolls jobId t.meanwhile)
    (hclock : Obeys (Retry.act settings cap jobId) (fun r t => Clocked jobId r t.toStint) r retries)
    (s : Stint) (hs : ∀ k, LeavesPolls jobId (s.others k))
    (hnow : Clocked jobId (retries.foldl (Retry.act settings cap jobId) r) s) :
    (∀ k, s.delay settings cap jobId (retries.foldl (Retry.act settings cap jobId) r) k =
      some (min (settings.pollBackoffInitial * 2 ^ k) cap)) ↔
        settings.pollBackoffInitial = cap ∨ ∀ t ∈ retries, t.checks = 0 := by
  obtain ⟨n, l, hpolled, hzero, hsome⟩ := polled_foldl h0 hcap hothers hclock hnew
  rw [doubles_iff h0 hcap hs hnow.1 hpolled]
  refine or_congr Iff.rfl ⟨fun hgap => ?_, fun hall => ?_⟩
  · -- a check before the dispatch makes a gap that is longer than the initial one
    by_contra hnot
    obtain ⟨time, rfl, hpos⟩ := hsome hnot
    have hle := hnow.2 n time hpolled
    rw [orNow_some hpos.ne'] at hgap
    linarith
  · rw [hzero hall]
    simp [orNow, h0.le]

end

/-- Job 1, just submitted. -/
def sampleSubmitted : Redis where
  jobs := Finmap.singleton 1 sampleJob.toHash

/-- It is dispatched, checked some times, and requeued. -/
def sampleRetry (checks : Nat) : Retry where
  now := 1000
  engineJobId := "a"
  backendUrl := "http://engine"
  backendId := 1
  stateTtl := 3600
  checks := checks
  requeuedAt := 1010
  score := 0

def sampleStint : Stint where
  now := 2000
  engineJobId := "b"
  backendUrl := "http://engine"
  backendId := 2
  stateTtl := 3600

/-- The first check of the second dispatch doubles the time since the last check of the first one. -/
theorem starts_at_cap :
    let r := Retry.act {} 5 1 sampleSubmitted (sampleRetry 1)
    sampleStint.delay {} 5 1 r 0 = some 5 ∧ ¬∀ k, sampleStint.delay {} 5 1 r k =
      some (min (({} : Settings).pollBackoffInitial * 2 ^ k) 5) := by
  intro r
  have hfive : sampleStint.delay {} 5 1 r 0 = some 5 := by decide +kernel
  refine ⟨hfive, fun hall => ?_⟩
  have hone := hfive.symm.trans (hall 0)
  revert hone
  decide +kernel

theorem sampleSubmitted_polled : (sampleSubmitted.view 1).Polled none none := by
  have hhash : sampleSubmitted.jobs.lookup 1 = some sampleJob.toHash := by
    rw [sampleSubmitted, Finmap.lookup_singleton_eq]
  refine ⟨sampleJob.toHash, hhash, ?_, rfl, rfl⟩
  show (JobState.fromHash sampleJob.toHash).isSome = true
  decide

/-- When the first dispatch was not found running, the second one backs off from the start. -/
theorem backs_off_iff_sample :
    sampleStint.delay {} 5 1 (Retry.act {} 5 1 sampleSubmitted (sampleRetry 0)) 3 = some 5 := by
  have hleaves : LeavesPolls 1 id := fun _ _ _ h => h
  have h0 : 0 < ({} : Settings).pollBackoffInitial := by decide
  have hcap : ({} : Settings).pollBackoffInitial ≤ 5 := by decide
  have hnever : ∀ {r : Redis} {next : Option ℚ} (s : Stint), (r.view 1).Polled next none →
      0 ≤ s.now → Clocked 1 r s := by
    intro r next s hr hs
    refine ⟨hs, fun next' last' hr' => ?_⟩
    cases hr.unique hr'
  have hretried : ∃ n, ((Retry.act {} 5 1 sampleSubmitted (sampleRetry 0)).view 1).Polled n none := by
    obtain ⟨n, l, hpolled, hzero, -⟩ : ∃ n l,
        ((Retry.act {} 5 1 sampleSubmitted (sampleRetry 0)).view 1).Polled n l ∧ _ :=
      polled_act h0 hcap (fun _ => hleaves) hleaves (by decide) sampleSubmitted_polled
    exact ⟨n, hzero rfl ▸ hpolled⟩
  obtain ⟨n, hpolled⟩ := hretried
  have hall := (backs_off_iff {} 5 1 h0 hcap sampleSubmitted_polled [sampleRetry 0]
    (fun t ht => ?_) ⟨hnever (sampleRetry 0).toStint sampleSubmitted_polled (by decide), trivial⟩
    sampleStint (fun _ => hleaves) (hnever sampleStint hpolled (by decide))).mpr (Or.inr ?_)
  · exact (hall 3).trans (by decide +kernel)
  · obtain rfl := List.mem_singleton.mp ht
    exact ⟨fun _ => hleaves, hleaves⟩
  · intro t ht
    obtain rfl := List.mem_singleton.mp ht
    rfl

end Taas

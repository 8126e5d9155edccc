import Mathlib.Algebra.GroupWithZero.Nat
import Mathlib.Data.List.Nodup
import Mathlib.Logic.Relation
import Taas.Workers.Drain

/-!
# Every due job is checked once

What holds of `drain_poll_queue` in whatever order and grouping the checks end, however many of
them raise, and wherever it is stopped or cancelled.

* `Drain.Inv` — the invariant.
* `drain_checks_once` — the window, the order of the starts, and what is left at each exit.
* `Drain.Step.todo_lt`, `Drain.Inv.goes_on` — it comes to an exit.
-/

namespace Taas

variable {ι ω : Type}

/-- The outcomes of the checks that ended without raising. -/
def Check.outcomes (checks : List (Check ι ω)) : List ω :=
  checks.filterMap fun c => c.result.bind CheckResult.outcome

theorem completedChecks_eq {completed : List (Check ι ω)} {statuses : List ω}
    (h : completedChecks completed = some statuses) : statuses = Check.outcomes completed := by
  induction completed generalizing statuses with
  | nil => exact (Option.some.inj h).symm
  | cons c completed ih =>
    obtain ⟨jobId, result, cancelRequested⟩ := c
    rcases result with _ | (outcome | _ | _)
    · exact ih h
    · obtain ⟨rest, hrest, rfl⟩ := Option.map_eq_some_iff.mp h
      exact congrArg (outcome :: ·) (ih hrest)
    · exact ih h
    · cases h

namespace Drain

variable {concurrency : Nat} {due : List ι} {d d' : Drain ι ω}

/-- The outcomes of all checks that ended without raising so far. -/
def outcomes (d : Drain ι ω) : List ω := d.finished.filterMap fun f => f.2.outcome

/-- The ids of the checks under way. -/
def underWay (d : Drain ι ω) : List ι :=
  (d.active.filter fun c => !c.isDone).map Check.jobId

/-- Nothing was cancelled. -/
def Live (d : Drain ι ω) : Prop :=
  d.phase = .waiting ∨ d.phase = .processing ∨ d.phase = .over .returned

/-! ## The invariant -/

/-- What the window and its books say. -/
structure Tracked (concurrency : Nat) (due : List ι) (d : Drain ι ω) : Prop where
  bound : d.active.length ≤ concurrency
  order : d.started ++ d.pending = due
  tally : (d.finished.map Prod.fst ++ d.underWay).Perm d.started

/-- Every outcome was handed over, or is still to be. -/
def Settled (d : Drain ι ω) : Prop := (d.handed ++ Check.outcomes d.active).Perm d.outcomes

/-- All slots are taken, as long as there is something to take them. -/
def Filled (concurrency : Nat) (d : Drain ι ω) : Prop :=
  d.stop = false → d.pending = [] ∨ concurrency ≤ d.active.length

structure Inv (concurrency : Nat) (due : List ι) (d : Drain ι ω) : Prop
    extends Tracked concurrency due d where
  settled : d.Live → d.Settled
  filled : d.Live → d.Filled concurrency
  waiting : d.phase = .waiting → d.active ≠ []
  returned : d.phase = .over .returned → d.active = []
  awaited : ∀ exit, d.phase = .over exit → ∀ c ∈ d.active, c.isDone = true
  cancelled : ∀ exit, d.phase = .cancelling exit ∨ d.phase = .over exit →
    ∀ c ∈ d.active, c.cancelRequested = true
  raised : d.phase ≠ .cancelling .returned

/-! ## The slots -/

theorem Tracked.start (h : d.Tracked concurrency due) {jobId : ι} {rest : List ι}
    (hp : d.pending = jobId :: rest) (hlt : d.active.length < concurrency) :
    (d.start jobId rest).Tracked concurrency due where
  bound := by
    show (d.active ++ _).length ≤ concurrency
    rw [List.length_append, List.length_singleton]
    omega
  order := by
    show (d.started ++ [jobId]) ++ rest = due
    rw [List.append_assoc, List.singleton_append, ← hp, h.order]
  tally := by
    have hway : (d.start jobId rest).underWay = d.underWay ++ [jobId] := by
      simp [underWay, Drain.start, Check.isDone]
    show (d.finished.map Prod.fst ++ (d.start jobId rest).underWay).Perm (d.started ++ [jobId])
    rw [hway, ← List.append_assoc]
    exact h.tally.append_right _

/-- What `fill_slots` leaves. -/
theorem fillFrom_spec {rest : List ι} (hp : d.pending = rest) (h : d.Tracked concurrency due) :
    (d.fillFrom concurrency rest).Tracked concurrency due ∧
      (d.fillFrom concurrency rest).Filled concurrency := by
  induction rest generalizing d with
  | nil => exact ⟨h, fun _ => Or.inl hp⟩
  | cons jobId rest ih =>
    unfold fillFrom
    split
    · next hguard =>
      rw [Bool.and_eq_true, decide_eq_true_eq] at hguard
      exact ih rfl (h.start hp hguard.1)
    · next hguard =>
      refine ⟨h, fun hstop => Or.inr ?_⟩
      rw [hstop, Bool.not_false, Bool.and_true, decide_eq_true_eq] at hguard
      omega

theorem fillFrom_of_stop (h : d.stop = true) (rest : List ι) :
    d.fillFrom concurrency rest = d := by
  cases rest with
  | nil => rfl
  | cons jobId rest => simp [fillFrom, h]

/-- It starts checks, and nothing else. -/
structure Refilled (d d' : Drain ι ω) : Prop where
  stop : d'.stop = d.stop
  finished : d'.finished = d.finished
  handed : d'.handed = d.handed
  open' : Check.outcomes d'.active = Check.outcomes d.active

theorem refilled_fillFrom (concurrency : Nat) (rest : List ι) :
    d.Refilled (d.fillFrom concurrency rest) := by
  induction rest generalizing d with
  | nil => exact ⟨rfl, rfl, rfl, rfl⟩
  | cons jobId rest ih =>
    unfold fillFrom
    split
    · obtain ⟨hs, hf, hh, ho⟩ := ih (d := d.start jobId rest)
      refine ⟨hs, hf, hh, ho.trans ?_⟩
      simp [Check.outcomes, Drain.start]
    · exact ⟨rfl, rfl, rfl, rfl⟩

/-! ## The exits -/

theorem Tracked.of_parts (h : d.Tracked concurrency due) (hp : d'.pending = d.pending)
    (hst : d'.started = d.started) (hf : d'.finished = d.finished)
    (hl : d'.active.length = d.active.length) (hw : d'.underWay = d.underWay) :
    d'.Tracked concurrency due where
  bound := hl ▸ h.bound
  order := by rw [hst, hp, h.order]
  tally := by rw [hf, hw, hst]; exact h.tally

theorem underWay_cancelChecks (exit : DrainExit) : (d.cancelChecks exit).underWay = d.underWay := by
  simp only [underWay, cancelChecks, List.filter_map, List.map_map]
  rfl

theorem Tracked.cancelChecks (h : d.Tracked concurrency due) (exit : DrainExit) :
    (d.cancelChecks exit).Tracked concurrency due :=
  h.of_parts rfl rfl rfl (List.length_map ..) (underWay_cancelChecks exit)

/-- Leaving early cancels all checks. -/
theorem Tracked.leave (h : d.Tracked concurrency due) {exit : DrainExit}
    (hexit : exit ≠ .returned) : (d.cancelChecks exit).Inv concurrency due := by
  have hphase : (d.cancelChecks exit).phase = .over exit ∧ d.active = [] ∨
      (d.cancelChecks exit).phase = .cancelling exit := by
    show (if d.active.isEmpty then DrainPhase.over exit else .cancelling exit) = _ ∧ _ ∨
      (if d.active.isEmpty then DrainPhase.over exit else .cancelling exit) = _
    split
    · next hempty => exact Or.inl ⟨rfl, List.isEmpty_iff.mp hempty⟩
    · exact Or.inr rfl
  have hdead : ¬(d.cancelChecks exit).Live := by
    rintro (hp | hp | hp) <;> rcases hphase with ⟨hp', -⟩ | hp' <;> rw [hp'] at hp <;> cases hp
    exact hexit rfl
  refine ⟨h.cancelChecks exit, fun hl => absurd hl hdead, fun hl => absurd hl hdead,
    fun hp => absurd (Or.inl hp) hdead, fun hp => absurd (Or.inr (Or.inr hp)) hdead, ?_, ?_, ?_⟩
  · intro e hp c hc
    rcases hphase with ⟨-, hempty⟩ | hp'
    · rw [Drain.cancelChecks, hempty] at hc
      cases hc
    · rw [hp'] at hp
      cases hp
  · intro _ _ c hc
    obtain ⟨c', -, rfl⟩ := List.mem_map.mp hc
    rfl
  · intro hp
    rcases hphase with ⟨hp', -⟩ | hp' <;> rw [hp'] at hp <;> cases hp
    exact hexit rfl

/-- The head of the loop. -/
theorem Tracked.loop (h : d.Tracked concurrency due) (hs : d.Settled) (hf : d.Filled concurrency) :
    d.loop.Inv concurrency due := by
  unfold Drain.loop
  split
  · next hempty =>
    have hnil : d.active = [] := List.isEmpty_iff.mp hempty
    have hactive : (d.cancelChecks .returned).active = [] := by simp [Drain.cancelChecks, hnil]
    have hphase : (d.cancelChecks .returned).phase = .over .returned := if_pos hempty
    refine ⟨h.cancelChecks .returned, fun _ => ?_, fun _ hstop => ?_, ?_, fun _ => hactive, ?_, ?_, ?_⟩
    · show (d.handed ++ Check.outcomes (d.cancelChecks .returned).active).Perm d.outcomes
      rw [hactive, ← hnil]
      exact hs
    · rw [hactive, ← hnil]
      exact hf hstop
    · intro hp
      rw [hphase] at hp
      cases hp
    · intro _ _ c hc
      rw [hactive] at hc
      cases hc
    · intro _ _ c hc
      rw [hactive] at hc
      cases hc
    · intro hp
      rw [hphase] at hp
      cases hp
  · next hempty =>
    exact ⟨h.of_parts rfl rfl rfl rfl rfl, fun _ => hs, fun _ => hf,
      fun _ hnil => hempty (List.isEmpty_iff.mpr hnil), nofun, nofun, nofun, nofun⟩

/-! ## The step lemma -/

/-- A check that ends stays in the window, and is in the books. -/
theorem Inv.complete {before after : List (Check ι ω)} {jobId : ι} {cancelRequested : Bool}
    (h : d.Inv concurrency due) (result : CheckResult ω)
    (ha : d.active = before ++ ⟨jobId, none, cancelRequested⟩ :: after) :
    Inv concurrency due
      { d with
        active := before ++ ⟨jobId, some result, cancelRequested⟩ :: after
        finished := d.finished ++ [(jobId, result)] } where
  bound := by
    have := h.bound
    simp only [ha, List.length_append, List.length_cons] at this ⊢
    exact this
  order := h.order
  tally := by
    have htally := h.tally
    simp only [underWay, ha, List.filter_append, List.filter_cons, Check.isDone, Option.isSome_none,
      Option.isSome_some, Bool.not_false, Bool.not_true, List.map_append, if_true, List.map_cons,
      Bool.false_eq_true, if_false, List.map_nil] at htally ⊢
    refine List.Perm.trans ?_ htally
    rw [List.append_assoc, List.singleton_append]
    exact List.Perm.append_left _ List.perm_middle.symm
  settled hl := by
    have hsettled := h.settled hl
    simp only [Settled, Check.outcomes, outcomes, ha, List.filterMap_append, List.filterMap_cons,
      Option.bind_none, Option.bind_some, List.filterMap_nil] at hsettled ⊢
    cases hout : result.outcome with
    | none => simpa using hsettled
    | some outcome =>
      simp only
      rw [← List.append_assoc] at hsettled ⊢
      exact List.perm_middle.trans ((hsettled.cons outcome).trans
        (List.perm_append_singleton outcome _).symm)
  filled hl hstop := by
    have := h.filled hl hstop
    simp only [ha, List.length_append, List.length_cons] at this ⊢
    exact this
  waiting _ := by simp
  returned hp := by
    have := h.returned hp
    simp [ha] at this
  awaited exit hp := by
    have hdone := h.awaited exit hp ⟨jobId, none, cancelRequested⟩ (by simp [ha])
    simp [Check.isDone] at hdone
  cancelled exit hp c hc := by
    have hreq := h.cancelled exit hp
    rw [ha] at hreq
    simp only [List.mem_append, List.mem_cons] at hc hreq
    rcases hc with hc | rfl | hc
    · exact hreq c (Or.inl hc)
    · exact hreq ⟨jobId, none, cancelRequested⟩ (Or.inr (Or.inl rfl))
    · exact hreq c (Or.inr (Or.inr hc))
  raised := h.raised

/-- The checks that ended leave the window. -/
theorem Tracked.dropDone (h : d.Tracked concurrency due) : d.dropDone.Tracked concurrency due where
  bound := Nat.le_trans (List.length_filter_le ..) h.bound
  order := h.order
  tally := by
    have hway : d.dropDone.underWay = d.underWay := by
      simp [underWay, Drain.dropDone, List.filter_filter]
    show (d.finished.map Prod.fst ++ d.dropDone.underWay).Perm d.started
    rw [hway]
    exact h.tally

theorem outcomes_filter_isDone (checks : List (Check ι ω)) :
    Check.outcomes (checks.filter Check.isDone) = Check.outcomes checks := by
  unfold Check.outcomes
  rw [List.filterMap_filter]
  congr 1
  funext c
  cases hr : c.result <;> simp [Check.isDone, hr]

theorem outcomes_dropDone : Check.outcomes d.dropDone.active = [] := by
  refine List.filterMap_eq_nil_iff.mpr fun c hc => ?_
  have hnone := (List.mem_filter.mp hc).2
  rw [Check.isDone, Bool.not_eq_true', Option.isSome_eq_false_iff, Option.isNone_iff_eq_none] at hnone
  rw [hnone]
  rfl

/-- From the end of `asyncio.wait` to the next suspension. -/
theorem Inv.resume (h : d.Inv concurrency due) (hphase : d.phase = .waiting)
    {completed : List (Check ι ω)} (hcompleted : completed.Perm (d.active.filter Check.isDone)) :
    (d.resume concurrency completed).Inv concurrency due := by
  unfold Drain.resume
  split
  · exact h.dropDone.leave nofun
  · next statuses hstatuses =>
    -- what is handed over now is what the window had for it
    have hperm : statuses.Perm (Check.outcomes d.active) := by
      rw [completedChecks_eq hstatuses, ← outcomes_filter_isDone d.active]
      exact hcompleted.filterMap _
    have hhanded : (d.handed ++ statuses).Perm d.outcomes :=
      (hperm.append_left _).trans (h.settled (Or.inl hphase))
    obtain ⟨ht, hf⟩ := fillFrom_spec (d := d.dropDone) rfl h.dropDone
    obtain ⟨-, hfin, hhand, hopen⟩ := refilled_fillFrom (d := d.dropDone) concurrency d.pending
    rw [outcomes_dropDone] at hopen
    have hout : (d.dropDone.fillFrom concurrency d.pending).outcomes = d.outcomes := by
      rw [outcomes, hfin]
      rfl
    dsimp only
    split
    · next hempty =>
      rw [List.isEmpty_iff.mp hempty, List.append_nil] at hhanded
      refine ht.loop ?_ hf
      show ((d.dropDone.fillFrom concurrency d.pending).handed ++
        Check.outcomes (d.dropDone.fillFrom concurrency d.pending).active).Perm
          (d.dropDone.fillFrom concurrency d.pending).outcomes
      rw [hout, hhand, hopen, List.append_nil]
      exact hhanded
    · refine ⟨ht.of_parts rfl rfl rfl rfl rfl, fun _ => ?_, fun _ => hf, nofun, nofun, nofun, nofun,
        nofun⟩
      show ((d.dropDone.fillFrom concurrency d.pending).handed ++ statuses ++
        Check.outcomes (d.dropDone.fillFrom concurrency d.pending).active).Perm
          (d.dropDone.fillFrom concurrency d.pending).outcomes
      rw [hout, hhand, hopen, List.append_nil]
      exact hhanded

/-- **Every step keeps the invariant.** -/
theorem Inv.step (h : d.Inv concurrency due) (hs : Step concurrency d d') :
    d'.Inv concurrency due := by
  cases hs with
  | complete result ha => exact h.complete result ha
  | wake hphase hcompleted _ => exact h.resume hphase hcompleted
  | processed hphase =>
    have hlive : d.Live := Or.inr (Or.inl hphase)
    exact h.toTracked.loop (h.settled hlive) (h.filled hlive)
  | processRaised _ => exact h.leave nofun
  | cancel _ => exact h.leave nofun
  | setStop =>
    exact ⟨h.of_parts rfl rfl rfl rfl rfl, h.settled, (by intro _ hstop; cases hstop), h.waiting,
      h.returned, h.awaited, h.cancelled, h.raised⟩
  | cancelAgain hphase =>
    refine ⟨h.of_parts rfl rfl rfl rfl rfl, ?_, ?_, nofun, nofun, nofun, ?_, nofun⟩
    · rintro (hp | hp | hp) <;> cases hp
    · rintro (hp | hp | hp) <;> cases hp
    · exact fun _ _ => h.cancelled _ (Or.inl hphase)
  | @awaited exit hphase hdone =>
    have hexit : exit ≠ .returned := by
      rintro rfl
      exact h.raised hphase
    have hdead : ¬Live { d with phase := .over exit } := by
      rintro (hp | hp | hp) <;> cases hp
      exact hexit rfl
    refine ⟨h.of_parts rfl rfl rfl rfl rfl, fun hl => absurd hl hdead, fun hl => absurd hl hdead,
      nofun, fun hp => absurd (Or.inr (Or.inr hp)) hdead, fun _ _ => hdone, ?_, nofun⟩
    exact fun _ _ => h.cancelled _ (Or.inl hphase)

/-- Any number of steps. -/
abbrev Run (concurrency : Nat) : Drain ι ω → Drain ι ω → Prop :=
  Relation.ReflTransGen (Step concurrency)

theorem Inv.run (h : d.Inv concurrency due) (hr : Run concurrency d d') :
    d'.Inv concurrency due := by
  induction hr with
  | refl => exact h
  | tail _ hs ih => exact ih.step hs

theorem inv_drainPollQueue {stop : Bool} (h : drainPollQueue due concurrency stop = .ok d) :
    d.Inv concurrency due := by
  unfold drainPollQueue at h
  split at h
  · cases h
  · obtain rfl := Except.ok.inj h
    let d₀ : Drain ι ω := { pending := due, stop := stop }
    have h₀ : d₀.Tracked concurrency due := ⟨Nat.zero_le _, rfl, List.Perm.refl _⟩
    obtain ⟨ht, hf⟩ := fillFrom_spec (d := d₀) rfl h₀
    obtain ⟨-, hfin, hhand, hopen⟩ := refilled_fillFrom (d := d₀) concurrency due
    refine ht.loop ?_ hf
    rw [Settled, outcomes, hfin, hhand, hopen]
    exact List.Perm.refl _

/-! ## Stopped and cancelled -/

/-- Once `stop` is set no check is started. -/
theorem Step.of_stop (hs : Step concurrency d d') (h : d.stop = true) :
    d'.stop = true ∧ d'.started = d.started := by
  have hloop : ∀ e : Drain ι ω, e.loop.stop = e.stop ∧ e.loop.started = e.started := by
    intro e
    unfold Drain.loop
    split <;> exact ⟨rfl, rfl⟩
  cases hs with
  | complete => exact ⟨h, rfl⟩
  | wake =>
    unfold Drain.resume
    split
    · exact ⟨h, rfl⟩
    · have hfill : d.dropDone.fillSlots concurrency = d.dropDone :=
        fillFrom_of_stop (d := d.dropDone) h _
      rw [hfill]
      dsimp only
      split
      · exact ⟨(hloop _).1.trans h, (hloop _).2⟩
      · exact ⟨h, rfl⟩
  | processed => exact ⟨(hloop d).1.trans h, (hloop d).2⟩
  | processRaised | cancel | cancelAgain | awaited => exact ⟨h, rfl⟩
  | setStop => exact ⟨rfl, rfl⟩

theorem Run.of_stop (hr : Run concurrency d d') (h : d.stop = true) :
    d'.stop = true ∧ d'.started = d.started := by
  induction hr with
  | refl => exact ⟨h, rfl⟩
  | tail _ hs ih =>
    obtain ⟨hstop, hstarted⟩ := hs.of_stop ih.1
    exact ⟨hstop, hstarted.trans ih.2⟩

/-- It is in `_cancel_checks` with these checks, or behind it. -/
structure Leaving (ids : List ι) (d : Drain ι ω) : Prop where
  phase : ∃ exit, d.phase = .cancelling exit ∨ d.phase = .over exit
  ids : d.active.map Check.jobId = ids
  cancelled : ∀ c ∈ d.active, c.cancelRequested = true
  awaited : ∀ exit, d.phase = .over exit → ∀ c ∈ d.active, c.isDone = true

theorem leaving_cancelChecks (exit : DrainExit) :
    (d.cancelChecks exit).Leaving (d.active.map Check.jobId) := by
  have hphase : (d.cancelChecks exit).phase =
      if d.active.isEmpty then .over exit else .cancelling exit := rfl
  refine ⟨⟨exit, ?_⟩, ?_, fun c hc => ?_, fun e hp c hc => ?_⟩
  · rw [hphase]
    split
    · exact Or.inr rfl
    · exact Or.inl rfl
  · simp [cancelChecks, Function.comp_def]
  · obtain ⟨c', -, rfl⟩ := List.mem_map.mp hc
    rfl
  · rw [hphase] at hp
    split at hp
    · next hempty =>
      rw [cancelChecks, List.isEmpty_iff.mp hempty] at hc
      cases hc
    · cases hp

theorem Leaving.step {ids : List ι} (h : d.Leaving ids) (hs : Step concurrency d d') :
    d'.Leaving ids := by
  obtain ⟨⟨exit, hphase⟩, hids, hreq, hdone⟩ := h
  cases hs with
  | @complete before after jobId cancelRequested result ha =>
    rw [ha] at hids hreq hdone
    refine ⟨⟨exit, hphase⟩, ?_, fun c hc => ?_, fun e hp c hc => ?_⟩
    · rw [← hids]
      simp
    · simp only [List.mem_append, List.mem_cons] at hc hreq
      rcases hc with hc | rfl | hc
      · exact hreq c (Or.inl hc)
      · exact hreq ⟨jobId, none, cancelRequested⟩ (Or.inr (Or.inl rfl))
      · exact hreq c (Or.inr (Or.inr hc))
    · have hopen := hdone e hp ⟨jobId, none, cancelRequested⟩ (by simp)
      cases hopen
  | wake hp | processed hp | processRaised hp =>
    rw [hp] at hphase
    rcases hphase with hp' | hp' <;> cases hp'
  | cancel hp =>
    rcases hp with hp | hp <;> rw [hp] at hphase <;> rcases hphase with hp' | hp' <;> cases hp'
  | setStop => exact ⟨⟨exit, hphase⟩, hids, hreq, hdone⟩
  | cancelAgain _ => exact ⟨⟨.cancelled, Or.inl rfl⟩, hids, hreq, nofun⟩
  | @awaited e _ hall => exact ⟨⟨e, Or.inr rfl⟩, hids, hreq, fun _ _ => hall⟩

theorem Leaving.run {ids : List ι} (h : d.Leaving ids) (hr : Run concurrency d d') :
    d'.Leaving ids := by
  induction hr with
  | refl => exact h
  | tail _ hs ih => exact ih.step hs

end Drain

open Drain in
/-- **The window is never larger than `concurrency`, the checks start in the order of the list
and once each. When it returns, every check that was started has ended, every outcome was handed
over once, and without `stop` that is all of `due`. After `stop` nothing is started. When it
leaves early, all active checks are cancelled and awaited.** -/
theorem drain_checks_once {due : List ι} (hdue : due.Nodup) {concurrency : Nat} {stop : Bool}
    {d₀ d : Drain ι ω} (h₀ : drainPollQueue due concurrency stop = .ok d₀)
    (hr : Run concurrency d₀ d) :
    d.active.length ≤ concurrency ∧ d.started <+: due ∧ d.started.Nodup ∧
      (d.phase = .over .returned → (d.finished.map Prod.fst).Perm d.started ∧
        d.handed.Perm d.outcomes ∧ (d.stop = false → d.started = due)) ∧
      (∀ d', d.stop = true → Run concurrency d d' → d'.started = d.started) ∧
      ∀ exit d', Run concurrency (d.cancelChecks exit) d' →
        d'.active.map Check.jobId = d.active.map Check.jobId ∧
          ∀ c ∈ d'.active, c.cancelRequested = true ∧
            ((∃ e, d'.phase = .over e) → c.isDone = true) := by
  have hinv : d.Inv concurrency due := (inv_drainPollQueue h₀).run hr
  have hpre : d.started <+: due := ⟨d.pending, hinv.order⟩
  refine ⟨hinv.bound, hpre, hdue.sublist hpre.sublist, fun hphase => ?_,
    fun d' hstop hr' => (hr'.of_stop hstop).2, fun exit d' hr' => ?_⟩
  · have hlive : d.Live := Or.inr (Or.inr hphase)
    have hactive : d.active = [] := hinv.returned hphase
    have htally := hinv.tally
    have hsettled := hinv.settled hlive
    rw [underWay, hactive, List.filter_nil, List.map_nil, List.append_nil] at htally
    rw [Settled, hactive, Check.outcomes, List.filterMap_nil, List.append_nil] at hsettled
    refine ⟨htally, hsettled, fun hstop => ?_⟩
    have hpos : 1 ≤ concurrency := by
      unfold drainPollQueue at h₀
      split at h₀
      · cases h₀
      · omega
    have hpending : d.pending = [] := by
      refine (hinv.filled hlive hstop).resolve_right fun hle => ?_
      rw [hactive, List.length_nil] at hle
      omega
    have horder := hinv.order
    rwa [hpending, List.append_nil] at horder
  · have hleft := (leaving_cancelChecks exit).run hr'
    exact ⟨hleft.ids, fun c hc => ⟨hleft.cancelled c hc, fun ⟨e, he⟩ => hleft.awaited e he c hc⟩⟩

open Drain in
/-- Two jobs in a window of one; the check of the second raises. -/
theorem drain_checks_once_sample : ∃ d : Drain Nat String, d.phase = .over .returned ∧
    d.handed = ["done"] ∧ d.started = [1, 2] ∧ d.handed.Perm d.outcomes := by
  let d₀ : Drain Nat String := (fillSlots 1 { pending := [1, 2], stop := false }).loop
  let d₁ : Drain Nat String :=
    { d₀ with active := [⟨1, some (.returned "done"), false⟩], finished := [(1, .returned "done")] }
  let d₂ : Drain Nat String := (d₁.resume 1 d₁.active).loop
  let d₃ : Drain Nat String :=
    { d₂ with
      active := [⟨2, some .raised, false⟩]
      finished := [(1, .returned "done"), (2, .raised)] }
  have hr : Run 1 d₀ (d₃.resume 1 d₃.active) := by
    have h₁ : Drain.Step 1 d₀ d₁ := @Drain.Step.complete _ _ _ d₀ [] [] 1 false (.returned "done") rfl
    have h₂ : Drain.Step 1 d₁ (d₁.resume 1 d₁.active) := .wake rfl (List.Perm.refl _) nofun
    have h₃ : Drain.Step 1 (d₁.resume 1 d₁.active) d₂ := .processed rfl
    have h₄ : Drain.Step 1 d₂ d₃ := @Drain.Step.complete _ _ _ d₂ [] [] 2 false .raised rfl
    have h₅ : Drain.Step 1 d₃ (d₃.resume 1 d₃.active) := .wake rfl (List.Perm.refl _) nofun
    exact .head h₁ (.head h₂ (.head h₃ (.head h₄ (.single h₅))))
  obtain ⟨-, -, -, hreturned, -⟩ := drain_checks_once (by decide) rfl hr
  exact ⟨_, rfl, rfl, (hreturned rfl).2.2 rfl, (hreturned rfl).2.1⟩

/-! ## It comes to an exit -/

def DrainPhase.todo : DrainPhase → Nat
  | .processing => 3
  | .waiting => 2
  | .cancelling _ => 1
  | .over _ => 0

def Check.todo (c : Check ι ω) : Nat := if c.isDone then 3 else 4

namespace Drain

variable {concurrency : Nat} {due : List ι} {d d' : Drain ι ω}

/-- What the checks still take. -/
def work (d : Drain ι ω) : Nat := 5 * d.pending.length + (d.active.map Check.todo).sum

/-- What the coroutine and its checks still take. -/
def todo (d : Drain ι ω) : Nat := d.work + d.phase.todo

theorem work_cancelChecks (exit : DrainExit) : (d.cancelChecks exit).work = d.work := by
  simp only [work, cancelChecks, List.map_map]
  rfl

theorem todo_cancelChecks_le (exit : DrainExit) : (d.cancelChecks exit).todo ≤ d.work + 1 := by
  have hphase : (d.cancelChecks exit).phase.todo ≤ 1 := by
    show (if d.active.isEmpty then DrainPhase.over exit else .cancelling exit).todo ≤ 1
    split
    · exact Nat.zero_le 1
    · exact Nat.le_refl 1
  rw [todo, work_cancelChecks]
  omega

theorem todo_loop_le : d.loop.todo ≤ d.work + 2 := by
  unfold loop
  split
  · have := d.todo_cancelChecks_le .returned
    omega
  · exact Nat.le_refl _

theorem work_fillFrom_le {rest : List ι} (hp : d.pending = rest) :
    (d.fillFrom concurrency rest).work ≤ d.work := by
  induction rest generalizing d with
  | nil => exact Nat.le_refl _
  | cons jobId rest ih =>
    unfold fillFrom
    split
    · refine Nat.le_trans (ih rfl) ?_
      simp only [work, start, hp, List.length_cons, List.map_append, List.map_cons, List.map_nil,
        List.sum_append, List.sum_singleton, Check.todo, Check.isDone]
      simp
      omega
    · exact Nat.le_refl _

theorem work_dropDone :
    d.dropDone.work + 3 * (d.active.filter Check.isDone).length = d.work := by
  have hsum : ∀ checks : List (Check ι ω), ((checks.filter fun c => !c.isDone).map Check.todo).sum +
      3 * (checks.filter Check.isDone).length = (checks.map Check.todo).sum := by
    intro checks
    induction checks with
    | nil => rfl
    | cons c checks ih =>
      have htodo : c.todo = if c.isDone then 3 else 4 := rfl
      cases hc : c.isDone <;>
        simp only [hc, List.filter_cons, List.map_cons, List.sum_cons, htodo, Bool.not_true,
          Bool.not_false, Bool.false_eq_true, if_true, if_false, List.length_cons] <;> omega
  have := hsum d.active
  simp only [work, dropDone]
  omega

theorem todo_resume_lt {completed : List (Check ι ω)} (hphase : d.phase = .waiting)
    (hcompleted : completed.Perm (d.active.filter Check.isDone)) (hne : completed ≠ []) :
    (d.resume concurrency completed).todo < d.todo := by
  have hlen : 0 < (d.active.filter Check.isDone).length := by
    rw [← hcompleted.length_eq]
    exact List.length_pos_of_ne_nil hne
  have hdrop := d.work_dropDone
  have htodo : d.todo = d.work + 2 := by rw [todo, hphase]; rfl
  unfold resume
  split
  · have := d.dropDone.todo_cancelChecks_le .cancelled
    omega
  · have hfill : (d.dropDone.fillSlots concurrency).work ≤ d.dropDone.work := work_fillFrom_le rfl
    dsimp only
    split
    · have := (d.dropDone.fillSlots concurrency).todo_loop_le
      omega
    · next statuses _ _ =>
      have : ((d.dropDone.fillSlots concurrency).process statuses).todo =
        (d.dropDone.fillSlots concurrency).work + 3 := rfl
      omega

/-- **Everything but `stop` and a second cancellation brings it nearer to its exit.** -/
theorem Step.todo_lt (hs : Step concurrency d d') : d'.todo < d.todo ∨ d' = { d with stop := true } ∨
    ∃ exit, d.phase = .cancelling exit ∧ d' = { d with phase := .cancelling .cancelled } := by
  have htodo : d.todo = d.work + d.phase.todo := rfl
  cases hs with
  | complete result ha =>
    left
    simp [todo, work, ha, Check.todo, Check.isDone]
  | wake hphase hcompleted hne => exact Or.inl (todo_resume_lt hphase hcompleted hne)
  | processed hphase =>
    left
    have := d.todo_loop_le
    simp only [hphase, DrainPhase.todo] at htodo
    omega
  | processRaised hphase =>
    left
    have := d.todo_cancelChecks_le .raised
    simp only [hphase, DrainPhase.todo] at htodo
    omega
  | cancel hphase =>
    left
    have := d.todo_cancelChecks_le .cancelled
    rcases hphase with hp | hp <;> simp only [hp, DrainPhase.todo] at htodo <;> omega
  | setStop => exact Or.inr (Or.inl rfl)
  | cancelAgain hphase => exact Or.inr (Or.inr ⟨_, hphase, rfl⟩)
  | awaited hphase _ =>
    left
    simp [todo, work, hphase, DrainPhase.todo]

/-- **Before its exit it can go on, by its checks and itself alone.** -/
theorem Inv.goes_on (h : d.Inv concurrency due) (hphase : ∀ exit, d.phase ≠ .over exit) :
    ∃ d', Step concurrency d d' ∧ d'.todo < d.todo := by
  by_cases hall : ∀ c ∈ d.active, c.isDone = true
  · match hp : d.phase with
    | .waiting =>
      have hfilter : d.active.filter Check.isDone = d.active := List.filter_eq_self.mpr hall
      have hne : d.active.filter Check.isDone ≠ [] := by
        rw [hfilter]
        exact h.waiting hp
      exact ⟨_, .wake hp (List.Perm.refl _) hne, todo_resume_lt hp (List.Perm.refl _) hne⟩
    | .processing =>
      refine ⟨_, .processed hp, ?_⟩
      have htodo : d.todo = d.work + 3 := by rw [todo, hp]; rfl
      have := d.todo_loop_le
      omega
    | .cancelling exit =>
      refine ⟨_, .awaited hp hall, ?_⟩
      simp [todo, work, hp, DrainPhase.todo]
    | .over exit => exact absurd hp (hphase exit)
  · -- a check that is under way may end
    push Not at hall
    obtain ⟨⟨jobId, result, cancelRequested⟩, hc, hdone⟩ := hall
    obtain rfl : result = none := by
      rcases result with _ | result
      · rfl
      · exact absurd rfl hdone
    obtain ⟨before, after, ha⟩ := List.append_of_mem hc
    refine ⟨_, .complete .raised ha, ?_⟩
    simp [todo, work, ha, Check.todo, Check.isDone]

end Drain

end Taas

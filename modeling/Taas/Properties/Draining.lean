import Taas.Deploy.Schedule
import Mathlib.Tactic.Linarith

/-!
# The box drains before it stops

Whatever happens to the containers and the gate from tick to tick, and whichever `docker` command
fails, as long as no remembered deadline is left behind.

* `Clears` — a tick that should forget the drain deadline gets to the point where it does.
* `Trusted` — what a remembered deadline means.
* `drains_before_stopping` — the engine is stopped only at the end of a drain.
-/

namespace Taas.Box

variable {cfg : Config} {s : Scheduler} {w : World} {t : Tick} {history : List Tick}

/-! ## What the ticks show -/

namespace Tick

def Decided (action : Action) (t : Tick) : Prop := t.decision.map Plan.action = some action

/-- The tick was out of the schedule. -/
def Out (cfg : Config) (t : Tick) : Prop := isUp cfg.windows t.world.now = false

/-- The tick saw the gate closed, unless its first command failed before it looked. -/
def SawClosed (t : Tick) : Prop := t.world.gateClosed = true ∨ t.decision = none

end Tick

/-- In `history` somebody decided `close` at least the drain before `until'`, and since then every
tick was out of the schedule and saw the gate closed. -/
def Drained (cfg : Config) (until' : ℚ) (history : List Tick) : Prop :=
  ∃ after close before, history = after ++ close :: before ∧ close.Decided .close ∧
    close.world.now + cfg.drain ≤ until' ∧ close.Out cfg ∧ ∀ u ∈ after, u.Out cfg ∧ u.SawClosed

/-- What a tick may stop, after the ticks of `history`. -/
structure Safe (cfg : Config) (history : List Tick) (t : Tick) : Prop where
  drained : t.Decided .stopEngine →
    t.Out cfg ∧ t.world.gateClosed = true ∧ Drained cfg t.world.now history
  /-- Nothing is stopped inside the schedule. -/
  inside : ¬t.Out cfg → t.done.stopped = []
  /-- `close_stop` found no engine running, and what it stops are tunnels. -/
  closeStop : t.Decided .closeStop →
    containersListed t.world.engines cfg.engineServices = some [] ∧
      ∀ c ∈ t.done.stopped, ∃ tunnels,
        containersListed t.world.tunnels cfg.tunnelServices = some tunnels ∧ c ∈ tunnels

/-! ## When the deadline is forgotten -/

/-- The tick has something to start, and starts it. -/
def StartCompletes (cfg : Config) (w : World) : Prop :=
  ∃ engineUp ids, containersListed w.engines cfg.engineServices = some engineUp ∧
    (engineUp = [] ∨ w.gateClosed = true) ∧
    containersListed w.all (cfg.engineServices ++ cfg.tunnelServices ++ cfg.gateServices) =
      some ids ∧ ids ≠ [] ∧ w.start ids = true

/-- The tick finds the tunnels, if it is to stop them, and stops what it found. -/
def StopCompletes (cfg : Config) (w : World) (engineUp : List Container) : Prop :=
  ∃ tunnelUp, (if cfg.stopTunnel then containersListed w.tunnels cfg.tunnelServices else some []) =
      some tunnelUp ∧ (engineUp ++ tunnelUp = [] ∨ w.stop (engineUp ++ tunnelUp) = true)

/-- With a deadline remembered, a tick inside the schedule completes a start, and one that is out of
it and finds no engine running but the gate open completes a stop. -/
def Clears (cfg : Config) (s : Scheduler) (w : World) : Prop :=
  s.deadline ≠ none →
    (isUp cfg.windows w.now = true → StartCompletes cfg w) ∧
    (isUp cfg.windows w.now = false → containersListed w.engines cfg.engineServices = some [] →
      w.gateClosed = false → StopCompletes cfg w [])

/-! ## The plan -/

section

variable {wantUp gateClosed engineRunning : Bool} {deadline : Option ℚ} {now drain : ℚ}

/-- What each plan with a drain says of what was observed. -/
theorem plan_cases (hdrain : 0 < drain) (p : Plan)
    (hp : p = plan wantUp gateClosed engineRunning deadline now drain) :
    match p.action with
    | .start => wantUp = true ∧ (engineRunning = false ∨ gateClosed = true)
    | .close => wantUp = false ∧ p.drainDeadline = some (now + drain)
    | .stopEngine => wantUp = false ∧ gateClosed = true ∧ ∃ d, deadline = some d ∧ d ≤ now
    | .closeStop => wantUp = false ∧ engineRunning = false ∧ gateClosed = false
    | .wait => wantUp = false ∧ gateClosed = true
    | .none => wantUp = true ∧ engineRunning = true ∧ gateClosed = false ∨
        wantUp = false ∧ gateClosed = true := by
  subst hp
  have hpos : ¬drain ≤ 0 := not_le.mpr hdrain
  unfold plan
  cases wantUp <;> cases gateClosed <;> cases engineRunning <;> simp [hpos]
  cases deadline with
  | none => simp
  | some d => by_cases h : d ≤ now <;> simp [h]

end

/-! ## A tick -/

@[simp] theorem deadline_settle (s : Scheduler) : s.settle.deadline = s.deadline := by
  unfold Scheduler.settle
  split <;> rfl

/-- A start that leaves the deadline did not complete. -/
theorem deadline_start {d : ℚ} (h : (s.start cfg w).scheduler.deadline = some d) :
    s.deadline = some d ∧ ¬StartCompletes cfg w := by
  refine ⟨?_, fun hstart => ?_⟩
  · unfold Scheduler.start at h
    split at h
    · exact h
    · split at h
      · exact h
      · split at h
        · cases h
        · exact h
  · obtain ⟨-, ids, -, -, hids, hne, hstarts⟩ := hstart
    unfold Scheduler.start at h
    rw [hids] at h
    dsimp only at h
    rw [if_neg hne, if_pos hstarts] at h
    cases h

theorem stopped_start : (s.start cfg w).stopped = [] := by
  unfold Scheduler.start
  split
  · rfl
  · split
    · rfl
    · split <;> rfl

/-- A stop that leaves the deadline did not complete. -/
theorem deadline_stop {engineUp : List Container} {d : ℚ}
    (h : (s.stop cfg w engineUp).scheduler.deadline = some d) :
    s.deadline = some d ∧ ¬StopCompletes cfg w engineUp := by
  refine ⟨?_, fun hstop => ?_⟩
  · unfold Scheduler.stop at h
    split at h
    · exact h
    · dsimp only at h
      split at h
      · cases h
      · split at h
        · cases h
        · exact h
  · obtain ⟨tunnelUp, htunnel, hstops⟩ := hstop
    unfold Scheduler.stop at h
    rw [htunnel] at h
    dsimp only at h
    split at h
    · cases h
    · next hne =>
      rw [if_pos (hstops.resolve_left hne)] at h
      cases h

/-- Without an engine to stop, only tunnels are stopped. -/
theorem mem_stopped {c : Container} (h : c ∈ (s.stop cfg w []).stopped) :
    ∃ tunnels, containersListed w.tunnels cfg.tunnelServices = some tunnels ∧ c ∈ tunnels := by
  unfold Scheduler.stop at h
  cases hconf : cfg.stopTunnel with
  | false =>
    rw [hconf] at h
    exact absurd h List.not_mem_nil
  | true =>
    rw [hconf, if_pos rfl] at h
    cases htunnel : containersListed w.tunnels cfg.tunnelServices with
    | none =>
      rw [htunnel] at h
      exact absurd h List.not_mem_nil
    | some tunnels =>
      rw [htunnel] at h
      dsimp only at h
      refine ⟨tunnels, rfl, ?_⟩
      split at h
      · exact absurd h List.not_mem_nil
      · split at h
        · exact h
        · exact h

/-- The plan of a tick that lists the engines `engineUp`. -/
def planOf (cfg : Config) (s : Scheduler) (w : World) (engineUp : List Container) : Plan :=
  plan (isUp cfg.windows w.now) w.gateClosed (engineUp ≠ []) s.deadline w.now cfg.drain

theorem tick_failed (h : containersListed w.engines cfg.engineServices = none) :
    (s.tick cfg w).decision = none ∧ (s.tick cfg w).done.scheduler.deadline = s.deadline ∧
      (s.tick cfg w).done.stopped = [] := by
  unfold Scheduler.tick
  rw [h]
  exact ⟨rfl, deadline_settle _, rfl⟩

theorem tick_listed {engineUp : List Container}
    (h : containersListed w.engines cfg.engineServices = some engineUp) :
    (s.tick cfg w).decision = some (planOf cfg s w engineUp) ∧
      (s.tick cfg w).done.scheduler.deadline =
        ({ s with acted := (planOf cfg s w engineUp).action }.act cfg w (planOf cfg s w engineUp)
          engineUp).scheduler.deadline ∧
      (s.tick cfg w).done.stopped =
        ({ s with acted := (planOf cfg s w engineUp).action }.act cfg w (planOf cfg s w engineUp)
          engineUp).stopped := by
  unfold Scheduler.tick
  rw [h]
  exact ⟨rfl, deadline_settle _, rfl⟩

@[simp] theorem world_tick : (s.tick cfg w).world = w := by
  unfold Scheduler.tick
  split <;> rfl

/-! ## What a remembered deadline means -/

theorem Drained.cons {d : ℚ} (h : Drained cfg d history) (hout : t.Out cfg) (hgate : t.SawClosed) :
    Drained cfg d (t :: history) := by
  obtain ⟨after, close, before, rfl, hclose, hle, hcout, hafter⟩ := h
  refine ⟨t :: after, close, before, rfl, hclose, hle, hcout, fun u hu => ?_⟩
  rcases List.mem_cons.mp hu with rfl | hu
  · exact ⟨hout, hgate⟩
  · exact hafter u hu

theorem Drained.later {d d' : ℚ} (h : Drained cfg d history) (hle : d ≤ d') :
    Drained cfg d' history := by
  obtain ⟨after, close, before, hsplit, hclose, hd, hcout, hafter⟩ := h
  exact ⟨after, close, before, hsplit, hclose, hd.trans hle, hcout, hafter⟩

/-- The remembered deadline is the end of a drain that nothing has interrupted. -/
def Trusted (cfg : Config) (s : Scheduler) (history : List Tick) : Prop :=
  ∀ d, s.deadline = some d → Drained cfg d history

/-- **A tick that forgets the deadline where it should leaves a trusted one.** -/
theorem Trusted.tick (h : Trusted cfg s history) (hdrain : 0 < cfg.drain) (hc : Clears cfg s w) :
    Trusted cfg (s.tick cfg w).done.scheduler (s.tick cfg w :: history) := by
  intro d hd
  -- a deadline that the tick leaves as it was
  have hkeep : s.deadline = some d → isUp cfg.windows w.now = false → (s.tick cfg w).SawClosed →
      Drained cfg d (s.tick cfg w :: history) := by
    intro hs hout hgate
    refine (h d hs).cons ?_ hgate
    rw [Tick.Out, world_tick]
    exact hout
  cases hlist : containersListed w.engines cfg.engineServices with
  | none =>
    obtain ⟨hdecision, hdeadline, -⟩ := tick_failed (s := s) hlist
    rw [hdeadline] at hd
    refine hkeep hd ?_ (Or.inr hdecision)
    by_contra hup
    rw [Bool.not_eq_false] at hup
    obtain ⟨engineUp, -, hsome, -⟩ := (hc (by rw [hd]; exact nofun)).1 hup
    rw [hlist] at hsome
    cases hsome
  | some engineUp =>
    obtain ⟨hdecision, hdeadline, -⟩ := tick_listed (s := s) hlist
    rw [hdeadline] at hd
    have hplan := plan_cases hdrain (planOf cfg s w engineUp) rfl
    have hsaw : w.gateClosed = true → (s.tick cfg w).SawClosed := by
      intro hgate
      refine Or.inl ?_
      rw [world_tick]
      exact hgate
    unfold Scheduler.act at hd
    cases haction : (planOf cfg s w engineUp).action with
    | start =>
      rw [haction] at hd hplan
      obtain ⟨hs, hnot⟩ := deadline_start hd
      exact absurd ((hc (Option.ne_none_iff_exists'.mpr ⟨d, hs⟩)).1 hplan.1) hnot
    | close =>
      rw [haction] at hd hplan
      obtain ⟨hout, hdue⟩ := hplan
      refine ⟨[], s.tick cfg w, history, rfl, ?_, ?_, ?_, fun u hu => absurd hu List.not_mem_nil⟩
      · rw [Tick.Decided, hdecision, Option.map_some, haction]
      · have hd' : some (w.now + cfg.drain) = some d := hdue.symm.trans hd
        rw [world_tick, Option.some.inj hd']
      · rw [Tick.Out, world_tick]
        exact hout
    | stopEngine =>
      rw [haction] at hd hplan
      obtain ⟨hout, hgate, -⟩ := hplan
      exact hkeep (deadline_stop hd).1 hout (hsaw hgate)
    | closeStop =>
      rw [haction] at hd hplan
      obtain ⟨hout, hidle, hgate⟩ := hplan
      obtain ⟨hs, hnot⟩ := deadline_stop hd
      have hnone : engineUp = [] := by simpa using hidle
      rw [hnone] at hlist hnot
      exact absurd ((hc (Option.ne_none_iff_exists'.mpr ⟨d, hs⟩)).2 hout hlist hgate) hnot
    | wait =>
      rw [haction] at hd hplan
      exact hkeep hd hplan.1 (hsaw hplan.2)
    | none =>
      rw [haction] at hd hplan
      rcases hplan with ⟨hup, hrunning, hgate⟩ | ⟨hout, hgate⟩
      · -- inside the schedule with nothing to start: the deadline should be forgotten, and is not
        have hs : s.deadline = some d := hd
        obtain ⟨up, -, hup', hor, -⟩ := (hc (Option.ne_none_iff_exists'.mpr ⟨d, hs⟩)).1 hup
        rw [hlist] at hup'
        obtain rfl := Option.some.inj hup'
        rcases hor with hnil | hclosed
        · simp [hnil] at hrunning
        · rw [hgate] at hclosed
          cases hclosed
      · exact hkeep hd hout (hsaw hgate)

/-- **After a trusted deadline a tick stops only what it may.** -/
theorem Trusted.safe (h : Trusted cfg s history) (hdrain : 0 < cfg.drain) (w : World) :
    Safe cfg history (s.tick cfg w) := by
  cases hlist : containersListed w.engines cfg.engineServices with
  | none =>
    obtain ⟨hdecision, -, hstopped⟩ := tick_failed (s := s) hlist
    refine ⟨fun hstop => ?_, fun _ => hstopped, fun hstop => ?_⟩
    · rw [Tick.Decided, hdecision] at hstop
      cases hstop
    · rw [Tick.Decided, hdecision] at hstop
      cases hstop
  | some engineUp =>
    obtain ⟨hdecision, -, hstopped⟩ := tick_listed (s := s) hlist
    have hplan := plan_cases hdrain (planOf cfg s w engineUp) rfl
    refine ⟨fun hstop => ?_, fun hin => ?_, fun hstop => ?_⟩
    · rw [Tick.Decided, hdecision, Option.map_some, Option.some.injEq] at hstop
      rw [hstop] at hplan
      obtain ⟨hout, hgate, d, hd, hle⟩ := hplan
      rw [Tick.Out, world_tick]
      exact ⟨hout, hgate, (h d hd).later hle⟩
    · rw [Tick.Out, world_tick, Bool.not_eq_false] at hin
      rw [hstopped]
      unfold Scheduler.act
      cases haction : (planOf cfg s w engineUp).action with
      | start => exact stopped_start
      | close | wait | none => rfl
      | stopEngine | closeStop =>
        rw [haction, hin] at hplan
        cases hplan.1
    · rw [Tick.Decided, hdecision, Option.map_some, Option.some.injEq] at hstop
      rw [hstop] at hplan
      have hnone : engineUp = [] := by simpa using hplan.2.1
      rw [world_tick, hstopped]
      refine ⟨hnone ▸ hlist, fun c hc => ?_⟩
      unfold Scheduler.act at hc
      rw [hstop, hnone] at hc
      exact mem_stopped hc

/-! ## Any run -/

theorem trusted_start : Trusted cfg {} [] := fun _ hd => nomatch hd

theorem ticks_append (cfg : Config) (earlier : List World) (w : World) :
    ticks cfg (earlier ++ [w]) = (((ticks cfg earlier).1.tick cfg w).done.scheduler,
      (ticks cfg earlier).1.tick cfg w :: (ticks cfg earlier).2) := by
  rw [ticks, List.foldl_append]
  rfl

theorem trusted_ticks (hdrain : 0 < cfg.drain) (worlds : List World)
    (h : ∀ earlier w later, worlds = earlier ++ w :: later →
      Clears cfg (ticks cfg earlier).1 w) :
    Trusted cfg (ticks cfg worlds).1 (ticks cfg worlds).2 := by
  induction worlds using List.reverseRecOn with
  | nil => exact trusted_start
  | append_singleton worlds w ih =>
    rw [ticks_append]
    refine (ih fun earlier v later hsplit => ?_).tick hdrain (h worlds w [] rfl)
    refine h earlier v (later ++ [w]) ?_
    rw [hsplit, List.append_assoc]
    rfl

/-- **As long as no tick leaves a deadline behind that it should forget, the engine is stopped only
out of the schedule and at the end of a drain: since some tick closed the gate, every tick was out
of the schedule and saw it closed. No engine is stopped inside the schedule, or by `close_stop`.** -/
theorem drains_before_stopping (cfg : Config) (hdrain : 0 < cfg.drain) (worlds : List World)
    (h : ∀ earlier w later, worlds = earlier ++ w :: later →
      Clears cfg (ticks cfg earlier).1 w) :
    ∀ earlier w later, worlds = earlier ++ w :: later →
      Safe cfg (ticks cfg earlier).2 ((ticks cfg earlier).1.tick cfg w) := by
  intro earlier w later hsplit
  refine (trusted_ticks hdrain earlier fun earlier' v later' hsplit' => ?_).safe hdrain w
  refine h earlier' v (later' ++ w :: later) ?_
  rw [hsplit, hsplit', List.append_assoc]
  rfl

/-! ## A start that fails -/

/-- A box that works from 22:00 to 06:00, every day, and drains for ten minutes. -/
def nightly : Config where
  windows := [⟨{0, 1, 2, 3, 4, 5, 6}, 22 * 60, 6 * 60⟩]
  drain := 600
  engineServices := ["tuzkaocr"]

/-- One engine runs; `lists` is whether `docker ps -aq` works. -/
def sampleWorld (now : ℚ) (gateClosed lists : Bool) : World where
  now := now
  gateClosed := gateClosed
  engines _ := some ["e1"]
  tunnels _ := some []
  all _ := if lists then some ["e1"] else none
  start _ := true
  stop _ := true

/-- Monday 06:00, and 22:00: the tick that should open the gate can't list the containers. -/
def sampleFailure : List World := [sampleWorld 21600 false true, sampleWorld 79200 true false]

/-- Tuesday 06:00: the engine is stopped at once, by Monday's deadline. -/
theorem stopped_undrained : ∃ worlds : List World, worlds = sampleFailure ∧
    ¬Safe nightly (ticks nightly worlds).2
      ((ticks nightly worlds).1.tick nightly (sampleWorld 108000 true true)) := by
  refine ⟨sampleFailure, rfl, fun hsafe => ?_⟩
  have hstop : (((ticks nightly sampleFailure).1.tick nightly
      (sampleWorld 108000 true true)).decision.map Plan.action) = some .stopEngine := by
    decide +kernel
  obtain ⟨-, -, after, close, before, hsplit, hclose, -, -, hafter⟩ := hsafe.drained hstop
  have hall : (ticks nightly sampleFailure).2.map (fun t =>
      (t.decision.map Plan.action, isUp nightly.windows t.world.now)) =
        [(some .start, true), (some .close, false)] := by
    decide +kernel
  rw [hsplit, List.map_append, List.map_cons] at hall
  match after, hall, hafter with
  | [], hall, _ =>
    have hstart := congrArg Prod.fst (List.cons.inj hall).1
    rw [Tick.Decided] at hclose
    rw [hclose] at hstart
    cases hstart
  | t :: _, hall, hafter =>
    have hin : isUp nightly.windows t.world.now = true := congrArg Prod.snd (List.cons.inj hall).1
    rw [(hafter t List.mem_cons_self).1] at hin
    cases hin

/-- Monday 06:00 and 06:10. -/
def sampleDrain : List World := [sampleWorld 21600 false true, sampleWorld 22200 true true]

theorem drains_before_stopping_sample : ∃ w : World, w = sampleWorld 22200 true true ∧
    Drained nightly 22200 (ticks nightly [sampleWorld 21600 false true]).2 := by
  refine ⟨_, rfl, ?_⟩
  have hclears : ∀ earlier w later, sampleDrain = earlier ++ w :: later →
      Clears nightly (ticks nightly earlier).1 w := by
    intro earlier w later hsplit
    have hmem : w ∈ sampleDrain := by
      rw [hsplit]
      exact List.mem_append_right _ List.mem_cons_self
    -- both ticks are outside the window, with one engine running
    obtain ⟨hout, hrunning⟩ : isUp nightly.windows w.now = false ∧
        containersListed w.engines nightly.engineServices = some ["e1"] := by
      rcases List.mem_cons.mp hmem with rfl | hmem
      · exact ⟨by decide +kernel, rfl⟩
      · obtain rfl := List.mem_singleton.mp hmem
        exact ⟨by decide +kernel, rfl⟩
    refine fun _ => ⟨fun hup => ?_, fun _ hnone => ?_⟩
    · rw [hout] at hup
      cases hup
    · rw [hrunning] at hnone
      cases hnone
  have hstop : (((ticks nightly [sampleWorld 21600 false true]).1.tick nightly
      (sampleWorld 22200 true true)).decision.map Plan.action) = some .stopEngine := by
    decide +kernel
  have hsafe := drains_before_stopping nightly (by decide) sampleDrain hclears
    [sampleWorld 21600 false true] (sampleWorld 22200 true true) [] rfl
  have hdrained := (hsafe.drained hstop).2.2
  rw [world_tick] at hdrained
  exact hdrained

end Taas.Box

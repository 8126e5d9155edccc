import Mathlib.Data.Finset.Basic
import Mathlib.Data.Rat.Floor

/-!
# The box scheduler

`deploy/box/scheduler/schedule.py`: a box's engine runs only inside a weekly schedule, and is drained
before it is stopped. What a tick finds outside of itself is its argument.

* `isUp` — the schedule.
* `plan` — what a tick decides from what it observed.
* `Scheduler.tick` — a tick.
-/

namespace Taas.Box

/-! ## The schedule -/

/-- An up-window: on each day in `days`, from `start` to `stop` minutes past midnight. With
`stop < start` it wraps past midnight into the next day. -/
structure Window where
  days : Finset Int
  start : Int
  stop : Int
deriving DecidableEq

/-- `now.hour * 60 + now.minute`, with `now` in seconds since the midnight of a Monday. -/
def minuteOfDay (now : ℚ) : Int := ⌊now / 60⌋ % 1440

/-- `now.weekday()` -/
def weekday (now : ℚ) : Int := ⌊now / 86400⌋ % 7

def Window.holds (now : ℚ) (window : Window) : Bool :=
  let minute := minuteOfDay now
  let today := weekday now
  let yesterday := (today - 1) % 7
  if window.start < window.stop then
    today ∈ window.days && window.start ≤ minute && minute < window.stop
  else
    -- the tail of a wrapping window belongs to the day after each listed day
    today ∈ window.days && window.start ≤ minute ||
      yesterday ∈ window.days && minute < window.stop

/-- Whether `now` falls inside any window. -/
def isUp (windows : List Window) (now : ℚ) : Bool := windows.any (Window.holds now)

/-! ## What a tick decides -/

/-- What a tick does. -/
inductive Action where
  /-- Open the gate and bring the containers up. -/
  | start
  /-- Close the gate and start the drain clock; the engine keeps working. -/
  | close
  /-- The drain is over: stop the engine. -/
  | stopEngine
  /-- Close the gate and stop the engine at once. -/
  | closeStop
  /-- Draining, the deadline is not reached. -/
  | wait
  /-- The observed state already matches the schedule. -/
  | none
deriving DecidableEq

/-- Actions after which nothing changed. -/
def Action.isIdle (action : Action) : Bool := action = .none || action = .wait

/-- What to do this tick, and for a drain (close, wait) when it ends. -/
structure Plan where
  action : Action
  drainDeadline : Option ℚ := none
  hasDeadline : action = .close ∨ action = .wait → drainDeadline.isSome := by decide

/-- Decide this tick's action from the observed state. -/
def plan (wantUp gateClosed engineRunning : Bool) (drainDeadline : Option ℚ) (now drain : ℚ) :
    Plan :=
  if wantUp then
    if engineRunning && !gateClosed then { action := .none }
    else { action := .start }
  else if !engineRunning then
    if gateClosed then { action := .none }
    else { action := .closeStop }
  else if drain ≤ 0 then { action := .closeStop }
  else if !gateClosed then
    { action := .close, drainDeadline := some (now + drain), hasDeadline := fun _ => rfl }
  else
    match drainDeadline with
    -- a restart mid-drain: a fresh grace period
    | none => { action := .close, drainDeadline := some (now + drain), hasDeadline := fun _ => rfl }
    | some deadline =>
      if deadline ≤ now then { action := .stopEngine }
      else { action := .wait, drainDeadline := some deadline, hasDeadline := fun _ => rfl }

/-! ## A tick -/

abbrev Container := String

structure Config where
  windows : List Window
  /-- In seconds. -/
  drain : ℚ
  stopTunnel : Bool := false
  engineServices : List String := ["tuzkaocr", "tuzkaocr-build"]
  tunnelServices : List String := ["frpc"]
  gateServices : List String := ["gate"]
deriving DecidableEq

/-- What a tick finds outside: the clock, the gate's flag, and the answers of `docker` to the
commands that it may give, where `none` and `false` are a command that fails. -/
structure World where
  now : ℚ
  gateClosed : Bool
  /-- `docker ps -q` for an engine service. -/
  engines : String → Option (List Container)
  /-- `docker ps -q` for a tunnel service, just before they are stopped. -/
  tunnels : String → Option (List Container)
  /-- `docker ps -aq` for any service. -/
  all : String → Option (List Container)
  start : List Container → Bool
  stop : List Container → Bool

/-- `_containers_listed`: a `docker ps` for each service, as long as they succeed. -/
def containersListed (ps : String → Option (List Container)) (services : List String) :
    Option (List Container) :=
  (services.mapM ps).map List.flatten

/-- What a tick can't observe: the drain deadline, the steady state last logged, and what the last
tick did. -/
structure Scheduler where
  deadline : Option ℚ := none
  lastLogged : Option String := none
  acted : Action := .none
deriving DecidableEq

/-- What is left of the scheduler and of the gate, and what `docker` was told to start and stop. -/
structure Done where
  scheduler : Scheduler
  gateClosed : Bool
  started : List Container := []
  stopped : List Container := []

namespace Scheduler

variable (cfg : Config) (w : World)

/-- `_log_once` -/
def logOnce (state : String) (s : Scheduler) : Scheduler := { s with lastLogged := some state }

/-- `_start`. The exception of a failing command leaves what was done before it. -/
def start (s : Scheduler) : Done :=
  match containersListed w.all (cfg.engineServices ++ cfg.tunnelServices ++ cfg.gateServices) with
  | none => { scheduler := s, gateClosed := w.gateClosed }
  | some ids =>
    if ids = [] then
      { scheduler := { s with acted := .none }.logOnce "absent", gateClosed := w.gateClosed }
    else if w.start ids then
      { scheduler := { s with deadline := none }, gateClosed := false, started := ids }
    else { scheduler := s, gateClosed := false, started := ids }

/-- `_close` -/
def close (decision : Plan) (s : Scheduler) : Done :=
  { scheduler := { s with deadline := decision.drainDeadline }, gateClosed := true }

/-- `_stop` -/
def stop (engineUp : List Container) (s : Scheduler) : Done :=
  match if cfg.stopTunnel then containersListed w.tunnels cfg.tunnelServices else some [] with
  | none => { scheduler := s, gateClosed := true }
  | some tunnelUp =>
    let toStop := engineUp ++ tunnelUp
    if toStop = [] then { scheduler := { s with deadline := none }, gateClosed := true }
    else if w.stop toStop then
      { scheduler := { s with deadline := none }, gateClosed := true, stopped := toStop }
    else { scheduler := s, gateClosed := true, stopped := toStop }

/-- `_log_steady` -/
def logSteady (decision : Plan) (engineUp : List Container) (s : Scheduler) : Done :=
  { scheduler := s.logOnce
      (if decision.action = .wait then "draining" else if engineUp ≠ [] then "up" else "down")
    gateClosed := w.gateClosed }

/-- `_act` -/
def act (decision : Plan) (engineUp : List Container) (s : Scheduler) : Done :=
  match decision.action with
  | .start => s.start cfg w
  | .close => s.close decision
  | .stopEngine | .closeStop => s.stop cfg w engineUp
  | .wait | .none => s.logSteady w decision engineUp

/-- The end of a tick: whatever was done makes the next steady state news. -/
def settle (s : Scheduler) : Scheduler :=
  if s.acted.isIdle then s else { s with lastLogged := none }

/-- The plan of a tick that got the running engines. -/
def planned (engineUp : List Container) (s : Scheduler) : Plan :=
  plan (isUp cfg.windows w.now) w.gateClosed (engineUp ≠ []) s.deadline w.now cfg.drain

end Scheduler

/-- A tick: what it found, what it decided if it came to that, and what it did. -/
structure Tick where
  world : World
  decision : Option Plan
  done : Done

/-- Observe, plan and act. A failure is logged, not raised. -/
def Scheduler.tick (cfg : Config) (w : World) (s : Scheduler) : Tick :=
  match containersListed w.engines cfg.engineServices with
  | none =>
    { world := w
      decision := none
      done := { scheduler := { s with acted := .none }.settle, gateClosed := w.gateClosed } }
  | some engineUp =>
    let decision := { s with acted := .none }.planned cfg w engineUp
    let done := { s with acted := decision.action }.act cfg w decision engineUp
    { world := w
      decision := some decision
      done := { done with scheduler := done.scheduler.settle } }

/-- The ticks of a scheduler in these worlds, the last one first. -/
def ticks (cfg : Config) (worlds : List World) : Scheduler × List Tick :=
  worlds.foldl (fun s w => ((s.1.tick cfg w).done.scheduler, s.1.tick cfg w :: s.2)) ({}, [])

end Taas.Box

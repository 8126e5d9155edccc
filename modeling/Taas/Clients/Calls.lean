import Mathlib.Data.Finset.Insert
import Mathlib.Logic.Function.Basic
import Taas.Infra.Runs
import Taas.Models.Catalog

/-!
# The calls of a client

What users and the WebSocket make of a per-page client, whatever its language: how far its submits,
its resolves and its waits for all jobs have come.

* `WaitCall` — where one call of `wait` or `awaitAll` is.
* `Calls`, `CallStep`, `Calls.step` — all calls of a client, and what happens in them outside the
  updates under its lock.
* `ClientCode`, `ClientStep`, `ClientCode.step` — a client whose blocks under its lock are one step
  each.
* `MeansAll` — what a wait that returned true tells.
* `Calls.Quiet`, `NeverHangs` — when nothing is left to do, every wait returns true.
-/

namespace Taas

/-- Where a call of `wait` is; `before` are the jobs whose submit had returned before it. -/
inductive WaitCall where
  | uncalled
  /-- It has yet to look at the pending jobs. -/
  | called (before : Finset JobId)
  /-- It saw pending jobs, and goes on to the event. -/
  | checked (before : Finset JobId)
  /-- Among the waiters of the event. -/
  | waiting (before : Finset JobId)
  /-- The event was set with this call among its waiters. -/
  | woken (before : Finset JobId)
  | returned (before : Finset JobId) (answer : Bool)
deriving DecidableEq

namespace WaitCall

def call (before : Finset JobId) : WaitCall → WaitCall
  | uncalled => called before
  | w => w

/-- `if not pending: return True` -/
def check (nonePending : Bool) : WaitCall → WaitCall
  | called before => if nonePending then returned before true else checked before
  | w => w

/-- The start of the event's own wait, which looks at its flag. -/
def await (flag : Bool) : WaitCall → WaitCall
  | checked before => if flag then returned before true else waiting before
  | w => w

/-- The event is set. -/
def notify : WaitCall → WaitCall
  | waiting before => woken before
  | w => w

/-- The end of the event's own wait, whatever the flag is by now. -/
def wake : WaitCall → WaitCall
  | woken before => returned before true
  | w => w

/-- The timeout is over; it can be while the call is being woken. -/
def timeOut : WaitCall → WaitCall
  | waiting before => returned before false
  | woken before => returned before false
  | w => w

/-- What had returned before the call, while the call lasts. -/
def during : WaitCall → Option (Finset JobId)
  | uncalled => none
  | called before => some before
  | checked before => some before
  | waiting before => some before
  | woken before => some before
  | returned _ _ => none

/-- It saw pending jobs, and the event has not been set for it. -/
def past : WaitCall → Bool
  | checked _ => true
  | waiting _ => true
  | _ => false

end WaitCall

/-- All calls of a client. The server gives each submit a job of its own. -/
structure Calls where
  /-- The jobs whose submit got its response. -/
  submitted : Finset JobId := ∅
  /-- The jobs whose submit is past its update of the pending jobs. -/
  updated : Finset JobId := ∅
  /-- The jobs whose submit has returned. -/
  returned : Finset JobId := ∅
  /-- The jobs for which a `resolve` took effect: they are not pending, or remembered as early. -/
  resolved : Finset JobId := ∅
  /-- The jobs for which a `resolve` returned. -/
  handled : Finset JobId := ∅
  waits : ℕ → WaitCall := fun _ => .uncalled

/-- What happens in the calls outside the updates under the lock. -/
inductive CallStep where
  /-- The response to a submit arrives. -/
  | respond (jobId : JobId)
  /-- A submit returns, after its update. -/
  | submitReturns (jobId : JobId)
  | call (w : ℕ)
  | check (w : ℕ)
  | await (w : ℕ)
  | wake (w : ℕ)
  | timeOut (w : ℕ)
deriving DecidableEq

namespace Calls

/-- The submit of this job has its response, and its update is to come. -/
def Answered (c : Calls) (jobId : JobId) : Prop := jobId ∈ c.submitted ∧ jobId ∉ c.updated

instance (c : Calls) (jobId : JobId) : Decidable (c.Answered jobId) :=
  inferInstanceAs (Decidable (_ ∧ _))

def moveWait (w : ℕ) (move : WaitCall → WaitCall) (c : Calls) : Calls :=
  { c with waits := Function.update c.waits w (move (c.waits w)) }

/-- The event is set: all its waiters are woken. -/
def notifyAll (c : Calls) : Calls := { c with waits := fun w => (c.waits w).notify }

def step (nonePending flag : Bool) (c : Calls) : CallStep → Calls
  | .respond jobId => { c with submitted := insert jobId c.submitted }
  | .submitReturns jobId =>
    if jobId ∈ c.updated then { c with returned := insert jobId c.returned } else c
  | .call w => c.moveWait w (.call c.returned)
  | .check w => c.moveWait w (.check nonePending)
  | .await w => c.moveWait w (.await flag)
  | .wake w => c.moveWait w .wake
  | .timeOut w => c.moveWait w .timeOut

/-- Every submitted job's event has been handled, and no submit is in progress. -/
def Quiet (c : Calls) : Prop := c.submitted ⊆ c.handled ∧ c.submitted ⊆ c.returned

end Calls

/-! ## Blocks under the lock -/

/-- The keys of a map in the order of their insertion, after a `put`. -/
def putKey (key : JobId) (keys : List JobId) : List JobId :=
  if key ∈ keys then keys else keys ++ [key]

/-- What a client does under its lock, and what its waits look at. -/
structure ClientCode (γ : Type) where
  pending : γ → Finset JobId
  /-- Whether the event is set, or the latch is down. -/
  flag : γ → Bool
  /-- The block of `submit`. -/
  update : JobId → γ → γ
  resolve : JobId → γ → γ

/-- A client and its calls. -/
structure InUse (γ : Type) where
  client : γ
  calls : Calls := {}

inductive ClientStep where
  /-- A submit that has its response makes its update. -/
  | update (jobId : JobId)
  /-- The handling of an event of the job ends. -/
  | resolve (jobId : JobId)
  | call (move : CallStep)
deriving DecidableEq

namespace ClientCode

variable {γ : Type} (code : ClientCode γ)

/-- Whether `resolve` sets the event: the job was the last one pending. -/
def isLast (jobId : JobId) (client : γ) : Bool :=
  jobId ∈ code.pending client && (code.pending client).erase jobId = ∅

def step (s : InUse γ) : ClientStep → InUse γ
  | .update jobId =>
    if s.calls.Answered jobId then
      { client := code.update jobId s.client
        calls := { s.calls with updated := insert jobId s.calls.updated } }
    else s
  | .resolve jobId =>
    let calls := { s.calls with
      resolved := insert jobId s.calls.resolved
      handled := insert jobId s.calls.handled }
    { client := code.resolve jobId s.client
      calls := if code.isLast jobId s.client then calls.notifyAll else calls }
  | .call move =>
    { s with calls := s.calls.step (code.pending s.client = ∅) (code.flag s.client) move }

end ClientCode

/-- A wait that returned true by the end of the run saw, at some moment during the call, every job
resolved whose submit had returned before the call. -/
def MeansAll {σ l : Type} (step : σ → l → σ) (calls : σ → Calls) (s : σ) (as : List l) : Prop :=
  ∀ w before, (calls (as.foldl step s)).waits w = .returned before true →
    ∃ bs, bs <+: as ∧ ((calls (bs.foldl step s)).waits w).during = some before ∧
      before ⊆ (calls (bs.foldl step s)).resolved

/-- A wait that has not timed out returns true when it goes on, or when it is called. -/
def AnswersAll {σ l : Type} (step : σ → l → σ) (calls : σ → Calls) (call : CallStep → l) (s : σ) :
    Prop :=
  ∀ w, (∃ before, (calls s).waits w = .returned before false) ∨
    ∃ before, (calls (([.call w, .check w, .await w, .wake w].map call).foldl step s)).waits w =
      .returned before true

/-- Once every submitted job's event has been handled and no submit is in progress, no job is
pending, and every wait returns true. -/
def NeverHangs {σ l : Type} (step : σ → l → σ) (calls : σ → Calls) (pending : σ → Finset JobId)
    (call : CallStep → l) (s : σ) : Prop :=
  (calls s).Quiet → pending s = ∅ ∧ AnswersAll step calls call s

end Taas

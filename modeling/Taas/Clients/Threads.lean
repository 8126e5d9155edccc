import Taas.Clients.Calls
import Taas.Clients.Client

/-!
# The Python clients in use

`clients/python/taas_client/client.py` and `async_client.py`: what `submit`, `_resolve` and `wait`
do with the pending jobs. The threaded client updates them under `_pending_lock`, but its `wait`
looks at them without it, between any two statements of an update. A coroutine of the async client
is undisturbed from one await to the next, so that its blocks are one step each.

* `TaasClient.update` — the block of `submit`, the same in both.
* `Threads`, `ThreadStep`, `Threads.step` — the threaded client, statement by statement.
* `AsyncTaasClient.code`, `AsyncTaasClient.step` — the async client.
-/

namespace Taas

namespace TaasClient

/-- `_finished_early`, a `dict[UUID, None]`: each value is `None`. -/
def earlyItems (c : TaasClient) : List (JobId × Option Unit) :=
  c.finishedEarly.map fun jobId => (jobId, none)

/-- What `_finished_early.pop(job_id, None)` gives: the value of the key, or `None` without it. -/
def popEarly (jobId : JobId) (c : TaasClient) : Option Unit := (c.earlyItems.lookup jobId).join

/-- The block of `submit`. -/
def update (jobId : JobId) (c : TaasClient) : TaasClient :=
  if c.popEarly jobId = none then
    { c with
      finishedEarly := c.finishedEarly.erase jobId
      pending := insert jobId c.pending
      allDone := false }
  else { c with finishedEarly := c.finishedEarly.erase jobId }

end TaasClient

/-! ## The threaded client -/

/-- Where the thread that holds `_pending_lock` is. -/
inductive HolderAt where
  /-- In `submit`, before the `pop`. -/
  | popping (jobId : JobId)
  | adding (jobId : JobId)
  | clearing (jobId : JobId)
  /-- In `submit`, at the end of the block. -/
  | updated (jobId : JobId)
  /-- In `_resolve`, before it looks for the job. -/
  | looking (jobId : JobId)
  | discarding (jobId : JobId)
  | testing (jobId : JobId)
  | setting (jobId : JobId)
  | remembering (jobId : JobId)
  | capping (jobId : JobId)
  /-- In `_resolve`, at the end of the block. -/
  | resolved (jobId : JobId)
deriving DecidableEq

/-- The threaded client and its calls. -/
structure Threads where
  client : TaasClient := {}
  calls : Calls := {}
  holder : Option HolderAt := none

inductive ThreadStep where
  /-- A submit that has its response takes the lock. -/
  | lockUpdate (jobId : JobId)
  /-- A `_resolve` takes the lock. -/
  | lockResolve (jobId : JobId)
  /-- The thread with the lock goes on by a statement. -/
  | statement
  | call (move : CallStep)
deriving DecidableEq

namespace Threads

/-- The statements of the two blocks. -/
def statement (s : Threads) : Threads :=
  match s.holder with
  | none => s
  | some (.popping jobId) =>
    { s with
      client := { s.client with finishedEarly := s.client.finishedEarly.erase jobId }
      holder := some (if s.client.popEarly jobId = none then .adding jobId else .updated jobId) }
  | some (.adding jobId) =>
    { s with
      client := { s.client with pending := insert jobId s.client.pending }
      holder := some (.clearing jobId) }
  | some (.clearing jobId) =>
    { s with
      client := { s.client with allDone := false }
      holder := some (.updated jobId) }
  | some (.updated jobId) =>
    { s with
      calls := { s.calls with updated := insert jobId s.calls.updated }
      holder := none }
  | some (.looking jobId) =>
    { s with
      holder := some
        (if jobId ∈ s.client.pending then .discarding jobId else .remembering jobId) }
  | some (.discarding jobId) =>
    { client := { s.client with pending := s.client.pending.erase jobId }
      calls := { s.calls with resolved := insert jobId s.calls.resolved }
      holder := some (.testing jobId) }
  | some (.testing jobId) =>
    { s with
      holder := some (if s.client.pending = ∅ then .setting jobId else .resolved jobId) }
  | some (.setting jobId) =>
    { client := { s.client with allDone := true }
      calls := s.calls.notifyAll
      holder := some (.resolved jobId) }
  | some (.remembering jobId) =>
    { client := { s.client with finishedEarly := putKey jobId s.client.finishedEarly }
      calls := { s.calls with resolved := insert jobId s.calls.resolved }
      holder := some (.capping jobId) }
  | some (.capping jobId) =>
    { s with
      client := { s.client with
        finishedEarly :=
          if finishedEarlyMax < s.client.finishedEarly.length then s.client.finishedEarly.tail
          else s.client.finishedEarly }
      holder := some (.resolved jobId) }
  | some (.resolved jobId) =>
    { s with
      calls := { s.calls with handled := insert jobId s.calls.handled }
      holder := none }

/-- `wait` does not ask for the lock. -/
def step (s : Threads) : ThreadStep → Threads
  | .lockUpdate jobId =>
    if s.holder = none ∧ s.calls.Answered jobId then { s with holder := some (.popping jobId) }
    else s
  | .lockResolve jobId =>
    if s.holder = none then { s with holder := some (.looking jobId) } else s
  | .statement => s.statement
  | .call move => { s with calls := s.calls.step (s.client.pending = ∅) s.client.allDone move }

def run (as : List ThreadStep) : Threads := as.foldl step {}

end Threads

/-! ## The async client -/

namespace AsyncTaasClient

def code : ClientCode TaasClient where
  pending := TaasClient.pending
  flag := TaasClient.allDone
  update := TaasClient.update
  resolve := TaasClient.resolve

def step : InUse TaasClient → ClientStep → InUse TaasClient := code.step

/-- A client that nobody has used yet. -/
def new : InUse TaasClient := { client := {} }

def run (as : List ClientStep) : InUse TaasClient := as.foldl step new

end AsyncTaasClient

end Taas

import Taas.Clients.Calls

/-!
# The Java client

`clients/java/…/TaasClient.java`: what `submit`, `resolve` and `awaitAll` do with the pending jobs.
All three look at them in a block `synchronized (pendingLock)`.

* `Java.TaasClient` — the client, with its `doneLatch`.
* `Java.code`, `Java.step` — the client under all threads that use it.
-/

namespace Taas.Java

structure TaasClient where
  pending : Finset JobId := ∅
  /-- The keys of the map in the order of their insertion; each value is `TRUE`. -/
  finishedEarly : List JobId := []
  /-- Whether `doneLatch`, a latch of one, has been counted down. It cannot be reset. -/
  doneLatch : Bool := false

/-- `FINISHED_EARLY_MAX` -/
def finishedEarlyMax : Nat := 10000

namespace TaasClient

/-- The block of `submit`. -/
def update (jobId : JobId) (c : TaasClient) : TaasClient :=
  if jobId ∈ c.finishedEarly then { c with finishedEarly := c.finishedEarly.erase jobId }
  else { c with pending := insert jobId c.pending }

def resolve (jobId : JobId) (c : TaasClient) : TaasClient :=
  if jobId ∈ c.pending then
    { c with
      pending := c.pending.erase jobId
      doneLatch := c.doneLatch || c.pending.erase jobId = ∅ }
  else
    let early := putKey jobId c.finishedEarly
    { c with finishedEarly := if finishedEarlyMax < early.length then early.tail else early }

end TaasClient

/-- `countDown` lets all that wait for the latch go on. -/
def code : ClientCode TaasClient where
  pending := TaasClient.pending
  flag := TaasClient.doneLatch
  update := TaasClient.update
  resolve := TaasClient.resolve

def step : InUse TaasClient → ClientStep → InUse TaasClient := code.step

/-- A client that nobody has used yet. -/
def new : InUse TaasClient := { client := {} }

end Taas.Java

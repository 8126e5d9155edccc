import Mathlib.Data.Multiset.AddSub

/-!
# The event emitter

`app/services/event_emitter.py`, of an enabled emitter. Between two awaits a coroutine runs
undisturbed, so a step is what happens from one await to the next.

* `EventEmitter` — the emitter, where its background task is, and where its `aclose` is.
* `EmitterStep`, `EventEmitter.step` — the steps of all that use it.
-/

namespace Taas

variable {ρ : Type}

/-- `BATCH_ROWS` -/
def batchRows : Nat := 500

/-- A `_post` that waits for ClickHouse. -/
structure Post (ρ : Type) where
  rows : List ρ
  /-- What ClickHouse answered, before the coroutine goes on: whether it accepted the rows. -/
  answer : Option Bool := none
deriving DecidableEq

/-- Where the background task waits. -/
inductive TaskAt (ρ : Type) where
  | unstarted
  /-- For the first row of a batch. -/
  | waiting
  /-- For more rows, until the batch's time is over. -/
  | filling
  | posting (post : Post ρ)
  | ended
deriving DecidableEq

/-- Where `aclose` is. -/
inductive CloserAt (ρ : Type) where
  | uncalled
  /-- In `flush`, before it looks for rows. -/
  | flushing
  | posting (post : Post ρ)
  /-- In the client's own `aclose`. -/
  | closing
  | returned
deriving DecidableEq

structure EventEmitter (ρ : Type) where
  /-- `0` is a queue without a bound. -/
  queueMax : Nat := 10000
  ownsHttp : Bool := true
  queue : List ρ := []
  /-- What the background task has taken off the queue and not posted yet. -/
  batch : List ρ := []
  task : TaskAt ρ := .unstarted
  closer : CloserAt ρ := .uncalled
  dropped : Nat := 0
  /-- All rows that were emitted. -/
  emitted : List ρ := []
  /-- The rows of each successful post. -/
  accepted : List (List ρ) := []
  /-- The rows that `dropped` counts. -/
  counted : List ρ := []
deriving DecidableEq

namespace EventEmitter

/-- `_queue.full()` -/
def full (e : EventEmitter ρ) : Bool := 0 < e.queueMax && e.queueMax ≤ e.queue.length

/-- `_drop(len(rows), …)` -/
def drop (rows : List ρ) (e : EventEmitter ρ) : EventEmitter ρ :=
  { e with dropped := e.dropped + rows.length, counted := e.counted ++ rows }

def emit (row : ρ) (e : EventEmitter ρ) : EventEmitter ρ :=
  let e := { e with emitted := e.emitted ++ [row] }
  if e.full then e.drop [row] else { e with queue := e.queue ++ [row] }

/-- A `_queue.get()` of the background task. -/
def get (e : EventEmitter ρ) : EventEmitter ρ :=
  match e.queue with
  | [] => e
  | row :: queue => { e with queue := queue, batch := e.batch ++ [row], task := .filling }

/-- The batch is full, or its time is over. -/
def postBatch (e : EventEmitter ρ) : EventEmitter ρ :=
  { e with batch := [], task := .posting { rows := e.batch } }

/-- ClickHouse answers. -/
def answered (ok : Bool) (post : Post ρ) (e : EventEmitter ρ) : EventEmitter ρ :=
  { e with accepted := if ok then e.accepted ++ [post.rows] else e.accepted }

/-- The end of a `_post` that was answered. -/
def posted (ok : Bool) (post : Post ρ) (e : EventEmitter ρ) : EventEmitter ρ :=
  if ok then e else e.drop post.rows

/-- The cancelled task ends at its await; a batch in progress stays in `batch`. -/
def cancelTask (e : EventEmitter ρ) : EventEmitter ρ :=
  { e with task := match e.task with
      | .unstarted => .unstarted
      | .waiting | .filling | .posting _ | .ended => .ended }

/-- `aclose` after its `flush`. -/
def close (e : EventEmitter ρ) : EventEmitter ρ :=
  { e with closer := if e.ownsHttp then .closing else .returned }

/-- `_http is not None`: an emitter that owns its client makes it when it is started. -/
def hasClient (e : EventEmitter ρ) : Bool :=
  !e.ownsHttp || match e.task with
    | .unstarted => false
    | _ => true

/-- `flush` up to its next post. Only the background task fills `batch`, and it has ended. -/
def flush (e : EventEmitter ρ) : EventEmitter ρ :=
  -- without a client `_post` returns at once, and nothing is to be closed
  if !e.hasClient then { e with batch := [], queue := [], closer := .returned }
  else if e.batch ≠ [] then { e with batch := [], closer := .posting { rows := e.batch } }
  else if e.queue ≠ [] then
    { e with
      queue := e.queue.drop batchRows
      closer := .posting { rows := e.queue.take batchRows } }
  else e.close

end EventEmitter

/-- A step of whoever uses the emitter. -/
inductive EmitterStep (ρ : Type) where
  | start
  | emit (row : ρ)
  /-- The background task gets a row. -/
  | get
  /-- The background task has waited for its batch long enough. -/
  | postBatch
  /-- ClickHouse answers the post in progress. -/
  | answer (ok : Bool)
  /-- The coroutine whose post was answered goes on. -/
  | resume
  /-- `aclose` is called, and cancels the background task. -/
  | aclose
  | flush
  /-- `CLOSE_TIMEOUT_SECONDS` are over. -/
  | timeout
  /-- The client is closed, and `aclose` returns. -/
  | closed
deriving DecidableEq

namespace EventEmitter

/-- A step that can't be taken does nothing. -/
def step (e : EventEmitter ρ) : EmitterStep ρ → EventEmitter ρ
  | .start =>
    match e.task, e.closer with
    | .unstarted, .uncalled => { e with task := .waiting }
    | _, _ => e
  | .emit row =>
    match e.closer with
    | .returned => e
    | _ => e.emit row
  | .get =>
    match e.task with
    | .waiting => e.get
    | .filling => if e.batch.length < batchRows then e.get else e
    | _ => e
  | .postBatch =>
    match e.task with
    | .filling => e.postBatch
    | _ => e
  | .answer ok =>
    match e.task, e.closer with
    | .posting { rows, answer := none }, _ =>
      { e.answered ok { rows } with task := .posting { rows, answer := some ok } }
    | _, .posting { rows, answer := none } =>
      { e.answered ok { rows } with closer := .posting { rows, answer := some ok } }
    | _, _ => e
  | .resume =>
    match e.task, e.closer with
    | .posting { rows, answer := some ok }, _ => { e.posted ok { rows } with task := .waiting }
    | _, .posting { rows, answer := some ok } =>
      { e.posted ok { rows } with closer := .flushing }
    | _, _ => e
  | .aclose =>
    match e.closer with
    | .uncalled => { e.cancelTask with closer := .flushing }
    | _ => e
  | .flush =>
    match e.closer with
    | .flushing => e.flush
    | _ => e
  | .timeout =>
    match e.closer with
    -- the post in progress is cancelled
    | .posting _ => (e.drop e.queue).close
    | _ => e
  | .closed =>
    match e.closer with
    | .closing => { e with closer := .returned }
    | _ => e

end EventEmitter

end Taas

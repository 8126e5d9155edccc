import Taas.Workers.Rows

/-!
# The WebSocket of a user

`app/routers/ws.py`: a connection replays the jobs that finished lately, subscribes to the
user's channel and forwards what is published on it. Redis keeps no message: `PUBLISH` reaches
the connections that are subscribed at that moment.

* `Hub` — the stores and the connections.
* `onHub` — a worker, whose published messages reach the subscribed connections.
* `websocketEndpoint` — a connection, from its handshake on.
-/

namespace Taas

open Infra Infra.Prog

/-- A connection. -/
structure Socket where
  /-- The user whose channel it is subscribed to. -/
  channel : Option String := none
  /-- What was published on the channel and not read yet. -/
  inbox : List Message := []
  sent : List Message := []

structure Hub (ι : Type) where
  stores : Stores ι
  sockets : ι → Socket := fun _ => {}

inductive HubEvent (ι : Type) where
  | note (n : Note ι)
  | accepted (connection : ι)
  /-- The connection looked for the jobs that finished lately. -/
  | queried (connection : ι)
  | subscribed (connection : ι)
deriving DecidableEq

/-- A program of worker commands and of connections. -/
abbrev HubProg (ι α : Type) := Prog (Hub ι) (HubEvent ι) α

/-- What a note publishes on the user's channel. -/
def Note.messageTo {ι : Type} (username : String) (n : Note ι) : Option Message :=
  match n.what with
  | .inl (.published channel message) => if channel = username then some message else none
  | _ => none

/-- `PUBLISH`, as a connection sees it. -/
def Socket.receive {ι : Type} (notes : List (Note ι)) (socket : Socket) : Socket :=
  match socket.channel with
  | none => socket
  | some username => { socket with inbox := socket.inbox ++ notes.filterMap (Note.messageTo username) }

theorem Socket.receive_of_none {ι : Type} (notes : List (Note ι)) {socket : Socket}
    (h : socket.channel = none) : socket.receive notes = socket := by
  rw [Socket.receive, h]

theorem Socket.receive_of_some {ι : Type} (notes : List (Note ι)) {socket : Socket}
    {username : String} (h : socket.channel = some username) : socket.receive notes =
      { socket with inbox := socket.inbox ++ notes.filterMap (Note.messageTo username) } := by
  rw [Socket.receive, h]

def onHub {ι α : Type} (p : WorkerProg ι α) : HubProg ι α :=
  relay Hub.stores (fun stores notes h =>
    { stores := stores, sockets := fun c => (h.sockets c).receive notes }) .note p

/-- The row finished lately, for the catch-up query. -/
def JobRow.recent (username : String) (cutoff : ℚ) (row : JobRow) : Bool :=
  row.username = username && row.finishedAt.any (cutoff ≤ ·) && row.status.isTerminal

def Postgres.recentJobs {ι : Type} (username : String) (cutoff : ℚ) (db : Postgres ι) :
    List (JobId × JobRow) :=
  ((sorted (· ≤ ·) db.jobs.rows.val).map fun k => (k, db.jobs.committed k)).filter
    fun job => job.2.recent username cutoff

def catchUpEvent (job : JobId × JobRow) : Message :=
  jobEventPayload
    { jobId := job.1, externalId := job.2.externalId, status := job.2.status,
      ts := job.2.finishedAt, error := nonEmpty job.2.error }

variable {ι : Type} [DecidableEq ι] (connection : ι)

def Hub.setSocket (f : Socket → Socket) (h : Hub ι) : Hub ι :=
  { h with sockets := Function.update h.sockets connection (f (h.sockets connection)) }

def accept : HubProg ι Unit := callLog (fun _ => [.accepted connection]) (fun _ => ()) id

/-- The catch-up query. Its session writes nothing, so it sees what is committed. -/
def selectRecent (username : String) (cutoff : ℚ) : HubProg ι (List (JobId × JobRow)) :=
  callLog (fun _ => [.queried connection]) (fun h => h.stores.db.recentJobs username cutoff) id

def Socket.send (message : Message) (socket : Socket) : Socket :=
  { socket with sent := socket.sent ++ [message] }

def send (message : Message) : HubProg ι Unit :=
  act (Hub.setSocket connection (Socket.send message))

def sendCatchUp : List (JobId × JobRow) → HubProg ι Unit
  | [] => pure ()
  | job :: jobs => do
    send connection (catchUpEvent job)
    sendCatchUp jobs

def subscribe (username : String) : HubProg ι Unit :=
  callLog (fun _ => [.subscribed connection]) (fun _ => ())
    (Hub.setSocket connection fun socket => { socket with channel := some username })

/-- The next message, if one came in time. -/
def getMessage : HubProg ι (Option Message) :=
  call (fun h => (h.sockets connection).inbox.head?)
    (Hub.setSocket connection fun socket => { socket with inbox := socket.inbox.tail })

/-- The loop that forwards the messages, for its first rounds. -/
def forward : Nat → HubProg ι Unit
  | 0 => pure ()
  | rounds + 1 => do
    let message ← getMessage connection
    match message with
    | none => pure ()
    | some message => send connection message
    forward rounds

/-- A connection after its catch-up query. -/
def replay (username : String) (rounds : Nat) (catchup : List (JobId × JobRow)) :
    HubProg ι Unit := do
  sendCatchUp connection catchup
  subscribe connection username
  forward connection rounds

/-- A connection from its catch-up query on. -/
def catchUp (username : String) (now wsCatchUpSeconds : ℚ) (rounds : Nat) : HubProg ι Unit := do
  let catchup ← selectRecent connection username (now - wsCatchUpSeconds)
  replay connection username rounds catchup

/-- A connection that stays open for that many rounds. -/
def websocketEndpoint (username : String) (now wsCatchUpSeconds : ℚ) (rounds : Nat) :
    HubProg ι Unit := do
  accept connection
  catchUp connection username now wsCatchUpSeconds rounds

end Taas

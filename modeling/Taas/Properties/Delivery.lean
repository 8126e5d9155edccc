import Taas.Infra.Runs
import Taas.Properties.Outcomes
import Taas.Routers.Ws

/-!
# What reaches a WebSocket

Workers finish jobs, each with the commit of its row and then a message on the user's channel,
while connections replay, subscribe and forward. One job of one user is followed to one
connection (`c`).

* `Outside` — what everybody else does to the connection: its inbox gets what is published of
  the job while it is subscribed, and nothing else happens to it.
* `delivered_iff` — a connection that has forwarded all it received has sent the outcome of the
  job if and only if it was published after the connection subscribed, or the catch-up query
  found the row.
* `event_lost` — so an outcome between the two is lost, and one that the engine's clock puts
  before the cutoff.
-/

namespace Taas

open Infra Infra.Prog

/-- The job's outcome was published. -/
def HubEvent.publishes {ι : Type} (jobId : JobId) : HubEvent ι → Bool
  | .note n => reports jobId n.what
  | _ => false

/-- The job's finish was committed. -/
def HubEvent.finishes {ι : Type} (jobId : JobId) : HubEvent ι → Bool
  | .note n => ends jobId n.what
  | _ => false

def HubEvent.accepts {ι : Type} [DecidableEq ι] (c : ι) : HubEvent ι → Bool
  | .accepted i => i = c
  | _ => false

def HubEvent.subscribes {ι : Type} [DecidableEq ι] (c : ι) : HubEvent ι → Bool
  | .subscribed i => i = c
  | _ => false

/-- A worker that finishes jobs, or a connection. Jobs belong to users (`owner`). -/
inductive HubClient {ι : Type} [DecidableEq ι] (owner : JobId → String) (i : ι) :
    HubProg ι Unit → Prop
  | harvest (now jobId stamps fetched delay stateTtl) {state : JobState}
      (hs : state.username = owner jobId) :
      HubClient owner i (onHub (harvest i now jobId state stamps fetched delay stateTtl))
  | markFailed (now jobId error attempt stamps stateTtl) {state : JobState}
      (hs : state.username = owner jobId) :
      HubClient owner i (onHub (markFailed i now jobId state error attempt stamps stateTtl))
  | failJob (now jobId attempt stateTtl) {state : JobState} (hs : state.username = owner jobId) :
      HubClient owner i (onHub (failJob i now jobId state attempt stateTtl))
  | reapStale (now stateTtl) {stale : List (JobId × JobRow × String)}
      (hs : ∀ job ∈ stale, job.2.1.username = owner job.1) :
      HubClient owner i (onHub (reapStale i now stateTtl stale))
  | websocket (username now wsCatchUpSeconds rounds) :
      HubClient owner i (websocketEndpoint i username now wsCatchUpSeconds rounds)

/-- Any step; who dies loses its transaction, and its connection. -/
def hubs {ι : Type} [DecidableEq ι] : Regime (Hub ι) (HubEvent ι) ι where
  allowed _ _ := True
  clean i h :=
    { stores := { h.stores with db := h.stores.db.rollback i }
      sockets := Function.update h.sockets i {} }

section

variable {ι : Type} [DecidableEq ι] {owner : JobId → String} {jobId : JobId} {c i : ι}

/-! ## Workers -/

/-- The job's outcome is published on the channel of its user. -/
def Addressed (owner : JobId → String) (jobId : JobId) (_ : Stores ι → Stores ι)
    (log : Stores ι → List (Note ι)) : Prop :=
  ∀ s, ∀ n ∈ log s, ∀ username message, n.what = .inl (.published username message) →
    message.reports jobId = true → username = owner jobId

omit [DecidableEq ι] in
theorem addressed_onDb {α : Type} (p : DbProg ι α) : Each (Addressed owner jobId) (onDb i p) := by
  refine (each_of_forall (C := fun _ _ => True) (fun _ _ => trivial) p).zoom ?_
  rintro effect log - s n hn username message hwhat -
  obtain ⟨statement, -, rfl⟩ := List.mem_map.mp hn
  cases hwhat

omit [DecidableEq ι] in
theorem addressed_still {α : Type} {p : RedisProg α} (h : Each Still p) :
    Each (Addressed owner jobId) (onRedis i p) := by
  refine h.zoom fun effect log hc s n hn => ?_
  dsimp only at hn
  rw [hc.2] at hn
  cases hn

omit [DecidableEq ι] in
theorem addressed_publish {username : String} {message : Message}
    (h : message.reports jobId = true → username = owner jobId) :
    Each (Addressed owner jobId) (onRedis i (publishEvent username message)) := by
  refine each_callLog fun s n hn username' message' hwhat hreports => ?_
  obtain rfl := List.mem_singleton.mp hn
  cases hwhat
  exact h hreports

omit [DecidableEq ι] in
theorem addressed_publishBatch (username : String) (batch : Option (BatchId × BatchCounts)) :
    Each (Addressed owner jobId) (publishBatch i username batch) := by
  unfold publishBatch
  split
  · exact each_pure _
  · exact addressed_publish fun h => nomatch h

omit [DecidableEq ι] in
/-- The event of a job is published for the user its state names. -/
theorem addressed_event {username : String} {event : JobEvent}
    (h : username = owner event.jobId) :
    Each (Addressed owner jobId) (onRedis i (publishEvent username (jobEventPayload event))) := by
  refine addressed_publish fun hreports => ?_
  have hjob : event.jobId = jobId := of_decide_eq_true (Bool.and_eq_true_iff.mp hreports).1
  rw [h, hjob]

variable {job : JobId} {state : JobState}

theorem addressed_markFailed (hs : state.username = owner job) (now : ℚ) (error : String)
    (attempt : Option Attempt) (stamps : EngineStamps) (stateTtl : Nat) :
    Each (Addressed owner jobId) (markFailed i now job state error attempt stamps stateTtl) := by
  refine (addressed_onDb _).bind fun status => ?_
  split
  · exact (addressed_still (still_setDone ..)).bind fun _ => addressed_onDb _
  · exact (addressed_still (still_setFailed ..)).bind fun _ => (addressed_onDb _).bind fun _ =>
      (addressed_event hs).bind fun _ => addressed_publishBatch _ _

theorem addressed_harvest (hs : state.username = owner job) (now : ℚ) (stamps : EngineStamps)
    (fetched : Fetched) (delay : ℚ) (stateTtl : Nat) :
    Each (Addressed owner jobId) (harvest i now job state stamps fetched delay stateTtl) := by
  cases fetched with
  | stored urls =>
    refine (addressed_onDb _).bind fun first => (addressed_still (still_setDone ..)).bind
      fun batch => ?_
    split
    · exact (addressed_event hs).bind fun _ => addressed_publishBatch _ _
    · exact addressed_publishBatch _ _
  | unavailable error => exact addressed_markFailed hs now error _ stamps stateTtl
  | failed error transient =>
    show Each (Addressed owner jobId) (if transient then _ else _)
    split
    · exact addressed_still (still_act fun _ => rfl)
    · exact addressed_markFailed hs now error none stamps stateTtl

theorem addressed_failJob (hs : state.username = owner job) (now : ℚ) (attempt : Attempt)
    (stateTtl : Nat) : Each (Addressed owner jobId) (failJob i now job state attempt stateTtl) :=
  (addressed_still (still_setFailed ..)).bind fun _ => (addressed_onDb _).bind fun _ =>
    (addressed_event hs).bind fun _ => addressed_publishBatch _ _

/-- The reaper publishes for the users that the rows name. -/
theorem addressed_reapStale {stale : List (JobId × JobRow × String)}
    (hs : ∀ job ∈ stale, job.2.1.username = owner job.1) (now : ℚ) (stateTtl : Nat) :
    Each (Addressed owner jobId) (reapStale i now stateTtl stale) := by
  have hfail : ∀ stale, Each (Addressed owner jobId) (failStale i now stateTtl stale) := by
    intro stale
    induction stale with
    | nil => exact each_pure _
    | cons job stale ih =>
      exact (addressed_still (still_setFailed ..)).bind fun _ => ih.bind fun _ => each_pure _
  have hpublish : Each (Addressed owner jobId) (publishStale i stale) := by
    induction stale with
    | nil => exact each_pure _
    | cons job stale ih =>
      obtain ⟨hjob, hstale⟩ := List.forall_mem_cons.mp hs
      exact (addressed_event hjob).bind fun _ => ih hstale
  have hbatches : ∀ batches, Each (Addressed owner jobId) (publishBatches i batches) := by
    intro batches
    induction batches with
    | nil => exact each_pure _
    | cons batch batches ih => exact (addressed_publishBatch _ _).bind fun _ => ih
  exact (hfail stale).bind fun batches => (addressed_onDb _).bind fun _ =>
    hpublish.bind fun _ => hbatches _

/-! ## What the others do to the connection -/

/-- A step that logs `new` does no more to the connection `c` than publish to it. -/
structure Outside (owner : JobId → String) (jobId : JobId) (c : ι) (h h' : Hub ι)
    (new : List (HubEvent ι)) : Prop where
  unmarked : new.any (HubEvent.subscribes c) = false
  unsubscribed : (h.sockets c).channel = none → h'.sockets c = h.sockets c
  subscribed : (h.sockets c).channel = some (owner jobId) →
    (h'.sockets c).channel = some (owner jobId) ∧ (h'.sockets c).sent = (h.sockets c).sent ∧
      (h'.sockets c).inbox.any (Message.reports jobId) =
        ((h.sockets c).inbox.any (Message.reports jobId) || new.any (HubEvent.publishes jobId))

/-- A command of somebody else. -/
def Elsewhere (owner : JobId → String) (jobId : JobId) (c : ι) (effect : Hub ι → Hub ι)
    (log : Hub ι → List (HubEvent ι)) : Prop :=
  ∀ h, Outside owner jobId c h (effect h) (log h)

/-- Nothing happens to the connection. -/
theorem outside_of_socket {h h' : Hub ι} {new : List (HubEvent ι)}
    (hsocket : h'.sockets c = h.sockets c) (hs : new.any (HubEvent.subscribes c) = false)
    (hp : new.any (HubEvent.publishes jobId) = false) : Outside owner jobId c h h' new := by
  refine ⟨hs, fun _ => hsocket, fun hc => ?_⟩
  rw [hsocket, hp, Bool.or_false]
  exact ⟨hc, rfl, rfl⟩

omit [DecidableEq ι] in
/-- What the user's channel carries of the job is all that is published of it. -/
theorem any_messageTo {notes : List (Note ι)}
    (h : ∀ n ∈ notes, ∀ username message, n.what = .inl (.published username message) →
      message.reports jobId = true → username = owner jobId) :
    (notes.filterMap (Note.messageTo (owner jobId))).any (Message.reports jobId) =
      notes.any fun n => reports jobId n.what := by
  induction notes with
  | nil => rfl
  | cons n notes ih =>
    have hn := h n (List.mem_cons_self ..)
    rw [List.any_cons, ← ih fun n hn => h n (List.mem_cons_of_mem _ hn), List.filterMap_cons]
    cases hwhat : n.what with
    | inr statement => simp [Note.messageTo, hwhat, reports]
    | inl event =>
      cases event with
      | put j => simp [Note.messageTo, hwhat, reports]
      | claimed j => simp [Note.messageTo, hwhat, reports]
      | published username message =>
        by_cases hu : username = owner jobId
        · simp [Note.messageTo, hwhat, reports, hu]
        · have hnot : message.reports jobId = false := by
            rw [Bool.eq_false_iff]
            intro hreports
            exact hu (hn username message hwhat hreports)
          simp [Note.messageTo, hwhat, reports, hu, hnot]

theorem elsewhere_onHub {α : Type} {p : WorkerProg ι α} (h : Each (Addressed owner jobId) p) :
    Each (Elsewhere owner jobId c) (onHub p) := by
  refine h.relay fun effect log hc s => ?_
  have hmarks : ((log s.stores).map HubEvent.note).any (HubEvent.subscribes c) = false := by
    rw [List.any_map, List.any_eq_false]
    intro n _ hn
    cases hn
  refine ⟨hmarks, fun hnone => ?_, fun hsome => ?_⟩
  · exact Socket.receive_of_none _ hnone
  · dsimp only
    rw [Socket.receive_of_some _ hsome]
    refine ⟨hsome, rfl, ?_⟩
    rw [List.any_append, any_messageTo (hc s.stores), List.any_map]
    rfl

theorem elsewhere_setSocket (hi : i ≠ c) {α : Type} {reply : Hub ι → α} (f : Socket → Socket) :
    Each (Elsewhere owner jobId c) (call reply (Hub.setSocket i f) : HubProg ι α) :=
  each_call fun _ => outside_of_socket (Function.update_of_ne (Ne.symm hi) ..) rfl rfl

theorem elsewhere_catchUp (hi : i ≠ c) (username : String) (now wsCatchUpSeconds : ℚ)
    (rounds : Nat) : Each (Elsewhere owner jobId c)
      (catchUp i username now wsCatchUpSeconds rounds) := by
  have hsend : ∀ jobs, Each (Elsewhere owner jobId c) (sendCatchUp i jobs) := by
    intro jobs
    induction jobs with
    | nil => exact each_pure _
    | cons job jobs ih => exact (elsewhere_setSocket hi _).bind fun _ => ih
  have hforward : Each (Elsewhere owner jobId c) (forward i rounds) := by
    induction rounds with
    | zero => exact each_pure _
    | succ rounds ih =>
      refine (elsewhere_setSocket hi _).bind fun message => ?_
      cases message with
      | none => exact ih
      | some message => exact (elsewhere_setSocket hi _).bind fun _ => ih
  refine Each.bind (each_callLog fun _ => outside_of_socket rfl rfl rfl) fun jobs => ?_
  refine (hsend jobs).bind fun _ => Each.bind (each_callLog fun _ => ?_) fun _ => hforward
  refine outside_of_socket (Function.update_of_ne (Ne.symm hi) ..) ?_ rfl
  simp [HubEvent.subscribes, hi]

/-- What another client does to the connection. -/
theorem HubClient.elsewhere (hi : i ≠ c) {p : HubProg ι Unit} (h : HubClient owner i p) :
    Each (Elsewhere owner jobId c) p := by
  cases h with
  | harvest now job stamps fetched delay stateTtl hs =>
    exact elsewhere_onHub (addressed_harvest hs now stamps fetched delay stateTtl)
  | markFailed now job error attempt stamps stateTtl hs =>
    exact elsewhere_onHub (addressed_markFailed hs now error attempt stamps stateTtl)
  | failJob now job attempt stateTtl hs =>
    exact elsewhere_onHub (addressed_failJob hs now attempt stateTtl)
  | reapStale now stateTtl hs => exact elsewhere_onHub (addressed_reapStale hs now stateTtl)
  | websocket username now wsCatchUpSeconds rounds =>
    exact Each.bind (each_callLog fun _ => outside_of_socket rfl rfl rfl)
      fun _ => elsewhere_catchUp hi username now wsCatchUpSeconds rounds

/-! ## What the connection does -/

/-- Everybody else stays outside the connection. -/
def watching (owner : JobId → String) (jobId : JobId) (c : ι) :
    Contract (Hub ι) (HubEvent ι) ι where
  inv _ _ := True
  guar i h es h' es' := i ≠ c → ∃ new, es' = es ++ new ∧ Outside owner jobId c h h' new

/-- The connection is about to send the messages `todo`. -/
structure Replaying (jobId : JobId) (c : ι) (found : Bool) (todo : List Message) (h : Hub ι)
    (es : List (HubEvent ι)) : Prop where
  channel : (h.sockets c).channel = none
  inbox : (h.sockets c).inbox = []
  unmarked : es.any (HubEvent.subscribes c) = false
  sent : ((h.sockets c).sent ++ todo).any (Message.reports jobId) = found

/-- The connection is subscribed, and about to send the messages `hand`. -/
structure Forwarding (owner : JobId → String) (jobId : JobId) (c : ι) (found : Bool)
    (hand : List Message) (h : Hub ι) (es : List (HubEvent ι)) : Prop where
  channel : (h.sockets c).channel = some (owner jobId)
  marked : es.any (HubEvent.subscribes c) = true
  sent : ((h.sockets c).sent ++ hand ++ (h.sockets c).inbox).any (Message.reports jobId) =
    (found || before (HubEvent.subscribes c) (HubEvent.publishes jobId) es)

variable {found : Bool}

theorem stable_replaying {todo : List Message} :
    (watching owner jobId c).Stable c (Replaying jobId c found todo) := by
  rintro j hj h es h' es' - - hg hr
  obtain ⟨new, rfl, ho⟩ := hg hj
  have hsame := ho.unsubscribed hr.channel
  refine ⟨hsame ▸ hr.channel, hsame ▸ hr.inbox, ?_, hsame ▸ hr.sent⟩
  rw [List.any_append, hr.unmarked, ho.unmarked]
  rfl

theorem stable_forwarding {hand : List Message} :
    (watching owner jobId c).Stable c (Forwarding owner jobId c found hand) := by
  rintro j hj h es h' es' - - hg hf
  obtain ⟨new, rfl, ho⟩ := hg hj
  obtain ⟨hchannel, hsent, hinbox⟩ := ho.subscribed hf.channel
  refine ⟨hchannel, ?_, ?_⟩
  · rw [List.any_append, hf.marked, Bool.true_or]
  · -- what is published now comes after the subscription, and into the inbox
    rw [hsent, List.any_append, hinbox, ← Bool.or_assoc, ← List.any_append, hf.sent,
      before_append, hf.marked, before_eq_false_of_left ho.unmarked, Bool.or_false, Bool.true_and,
      Bool.or_assoc]

/-- A program of the connection. -/
abbrev Connects {α : Type} (owner : JobId → String) (jobId : JobId) (c : ι) (p : HubProg ι α)
    (A : Assertion (Hub ι) (HubEvent ι)) (Q : α → Assertion (Hub ι) (HubEvent ι)) : Prop :=
  Contract.Triple hubs (watching owner jobId c) c p A Q

/-- A command on the connection's own socket. -/
theorem connects_setSocket {α : Type} {reply : Hub ι → α} {f : Socket → Socket}
    {A : Assertion (Hub ι) (HubEvent ι)} {Q : α → Assertion (Hub ι) (HubEvent ι)}
    (h : ∀ h es, A h es → Q (reply h) (h.setSocket c f) es)
    (hQ : ∀ a, (watching owner jobId c).Stable c (Q a)) :
    Connects owner jobId c (call reply (Hub.setSocket c f)) A Q :=
  Contract.triple_call (fun s es _ hs => ⟨trivial, fun hne => absurd rfl hne, h s es hs⟩) hQ

theorem setSocket_self (h : Hub ι) (f : Socket → Socket) :
    (h.setSocket c f).sockets c = f (h.sockets c) := Function.update_self ..

theorem connects_sendCatchUp (jobs : List (JobId × JobRow)) :
    Connects owner jobId c (sendCatchUp c jobs) (Replaying jobId c found (jobs.map catchUpEvent))
      fun _ => Replaying jobId c found [] := by
  induction jobs with
  | nil => exact Contract.triple_pure fun _ _ _ h => h
  | cons job jobs ih =>
    refine Contract.Triple.bind (connects_setSocket (fun h es hr => ?_) fun _ => stable_replaying)
      fun _ => ih
    refine ⟨?_, ?_, hr.unmarked, ?_⟩
    · rw [setSocket_self]
      exact hr.channel
    · rw [setSocket_self]
      exact hr.inbox
    · rw [setSocket_self, Socket.send, List.append_assoc]
      exact hr.sent

theorem connects_subscribe : Connects owner jobId c (subscribe c (owner jobId))
    (Replaying jobId c found []) fun _ => Forwarding owner jobId c found [] := by
  refine Contract.triple_callLog (fun h es _ hr _ => ?_) fun _ => stable_forwarding
  refine ⟨trivial, fun hne => absurd rfl hne, ?_, ?_, ?_⟩
  · rw [setSocket_self]
  · simp [HubEvent.subscribes]
  · -- nothing was published after the subscription yet
    have hbefore : before (HubEvent.subscribes c) (HubEvent.publishes jobId)
        (es ++ [.subscribed c]) = false := by
      rw [before_append, before_eq_false_of_left hr.unmarked, hr.unmarked]
      simp [before]
    rw [setSocket_self, hbefore, Bool.or_false]
    dsimp only
    rw [hr.inbox, List.append_nil]
    exact hr.sent

theorem connects_forward (rounds : Nat) : Connects owner jobId c (forward c rounds)
    (Forwarding owner jobId c found []) fun _ => Forwarding owner jobId c found [] := by
  induction rounds with
  | zero => exact Contract.triple_pure fun _ _ _ h => h
  | succ rounds ih =>
    refine Contract.Triple.bind (P := fun message => Forwarding owner jobId c found message.toList)
      (connects_setSocket (fun h es hf => ?_) fun _ => stable_forwarding) fun message => ?_
    · -- the message moves from the inbox to the hand
      refine ⟨?_, hf.marked, ?_⟩
      · rw [setSocket_self]
        exact hf.channel
      · rw [setSocket_self, ← hf.sent]
        cases hinbox : (h.sockets c).inbox with
        | nil => simp
        | cons message inbox => simp
    · cases message with
      | none => exact ih
      | some message =>
        refine Contract.Triple.bind (connects_setSocket (fun h es hf => ?_)
          fun _ => stable_forwarding) fun _ => ih
        refine ⟨?_, hf.marked, ?_⟩
        · rw [setSocket_self]
          exact hf.channel
        · rw [setSocket_self, ← hf.sent]
          simp [Socket.send]

/-! ## The catch-up query -/

omit [DecidableEq ι] in
/-- The query finds the job when its row finished lately. -/
theorem any_recent (db : Postgres ι) {username : String} {cutoff : ℚ} :
    ((db.recentJobs username cutoff).map catchUpEvent).any (Message.reports jobId) =
      (decide (jobId ∈ db.jobs.rows) && (db.jobs.committed jobId).recent username cutoff) := by
  rw [Postgres.recentJobs, Bool.eq_iff_iff, List.any_map, List.any_filter, List.any_map,
    List.any_eq_true, Bool.and_eq_true_iff, decide_eq_true_eq]
  constructor
  · rintro ⟨k, hk, hjob⟩
    obtain ⟨hrecent, hreports⟩ := Bool.and_eq_true_iff.mp hjob
    obtain rfl : k = jobId := of_decide_eq_true (Bool.and_eq_true_iff.mp hreports).1
    exact ⟨(mem_sorted _).mp hk, hrecent⟩
  · rintro ⟨hk, hrecent⟩
    refine ⟨jobId, (mem_sorted _).mpr hk, Bool.and_eq_true_iff.mpr ⟨hrecent, ?_⟩⟩
    have hterminal := (Bool.and_eq_true_iff.mp hrecent).2
    exact Bool.and_eq_true_iff.mpr ⟨decide_eq_true rfl, hterminal⟩

/-- The step of the query. -/
theorem exec_catchUp {p : Pool (Hub ι) (HubEvent ι) ι} {username : String}
    {now wsCatchUpSeconds : ℚ} {rounds : Nat}
    (hc : p.procs c = some (catchUp c username now wsCatchUpSeconds rounds)) :
    p.exec c = some
      { shared := p.shared
        procs := Function.update p.procs c (some (replay c username rounds
          (p.shared.stores.db.recentJobs username (now - wsCatchUpSeconds))))
        history := p.history ++ [.queried c] } := by
  rw [Pool.exec, hc]
  rfl

theorem connects_replay (rounds : Nat) (jobs : List (JobId × JobRow)) :
    Connects owner jobId c (replay c (owner jobId) rounds jobs)
      (Replaying jobId c found (jobs.map catchUpEvent))
      fun _ => Forwarding owner jobId c found [] :=
  (connects_sendCatchUp jobs).bind fun _ => connects_subscribe.bind fun _ =>
    connects_forward rounds

theorem cleanOk_hubs : Pool.CleanOk hubs (watching owner jobId c) := by
  intro i h es _
  refine ⟨trivial, fun hi => ⟨[], (List.append_nil es).symm, ?_⟩⟩
  exact outside_of_socket (Function.update_of_ne (Ne.symm hi) ..) rfl rfl

variable {p₀ p p' q : Pool (Hub ι) (HubEvent ι) ι}

/-- **A connection that forwarded all it received has sent the outcome of a job if and only if
the outcome was published after the connection subscribed, or the row was finished, and lately,
when the connection looked.** -/
theorem delivered_iff {now wsCatchUpSeconds : ℚ} {rounds : Nat}
    (hclients : ∀ i client, p₀.procs i = some client → HubClient owner i client)
    (hp : Pool.Run hubs p₀ p)
    (hc : p.procs c = some (catchUp c (owner jobId) now wsCatchUpSeconds rounds))
    (hfresh : p.shared.sockets c = {}) (hunmarked : p.history.any (HubEvent.subscribes c) = false)
    (hquery : p.exec c = some p') (hq : Pool.Run hubs p' q)
    (hended : q.procs c = some (.ret ())) (hinbox : (q.shared.sockets c).inbox = []) :
    (∃ message ∈ (q.shared.sockets c).sent, message.reports jobId = true) ↔
      before (HubEvent.subscribes c) (HubEvent.publishes jobId) q.history = true ∨
        jobId ∈ p.shared.stores.db.jobs.rows ∧ (p.shared.stores.db.jobs.committed jobId).recent
          (owner jobId) (now - wsCatchUpSeconds) = true := by
  obtain ⟨found, hfound⟩ : ∃ found, found = (decide (jobId ∈ p.shared.stores.db.jobs.rows) &&
      (p.shared.stores.db.jobs.committed jobId).recent (owner jobId) (now - wsCatchUpSeconds)) :=
    ⟨_, rfl⟩
  rw [exec_catchUp hc] at hquery
  obtain rfl := Option.some.inj hquery
  have hsound : Pool.Sound hubs (watching owner jobId c)
      (fun i h es => i = c → Forwarding owner jobId c found [] h es)
      { shared := p.shared
        procs := Function.update p.procs c (some (replay c (owner jobId) rounds
          (p.shared.stores.db.recentJobs (owner jobId) (now - wsCatchUpSeconds))))
        history := p.history ++ [.queried c] } := by
    refine ⟨trivial, fun i client hclient => ?_⟩
    dsimp only at hclient
    by_cases hi : i = c
    · subst hi
      rw [Function.update_self] at hclient
      obtain rfl := Option.some.inj hclient
      refine ⟨_, ?_, stable_replaying, (connects_replay rounds _).imp (fun _ _ _ h => h)
        fun _ _ _ h _ => h⟩
      refine ⟨by rw [hfresh], by rw [hfresh], ?_, ?_⟩
      · rw [List.any_append, hunmarked]
        rfl
      · rw [hfresh, hfound, ← any_recent]
        rfl
    · rw [Function.update_of_ne hi] at hclient
      have helsewhere : client.Each (Elsewhere owner jobId c) :=
        hp.proc (fun client h => (hclients i client h).elsewhere hi) client hclient
      refine ⟨fun _ _ => True, trivial, Contract.stable_true, ?_⟩
      refine (Contract.triple_of_each Contract.stable_true (fun effect log ho h es _ _ _ => ?_)
        helsewhere).imp (fun _ _ _ h => h) fun _ _ _ _ hic => absurd hic hi
      exact ⟨trivial, fun _ => ⟨_, rfl, ho h⟩, trivial⟩
  have hsent := ((hsound.run cleanOk_hubs hq).post hended rfl).sent
  rw [hinbox, List.append_nil, List.append_nil] at hsent
  rw [← List.any_eq_true, hsent, Bool.or_eq_true, hfound, Bool.and_eq_true, decide_eq_true_eq]
  exact Or.comm

end

/-! ## Outcomes that are lost -/

/-- The job of `sampleRows` is harvested at `now` (`true`), its engine having finished it at
`finishedAt`, and its user connects (`false`). -/
def sampleHub (now : ℚ) (finishedAt : Option ℚ) : Pool (Hub Bool) (HubEvent Bool) Bool where
  shared := { stores := sampleRows.shared }
  procs
    | true => some (onHub (harvest true now 1 { sampleJob with backendId := some 1 }
        { finishedAt := finishedAt } (.stored []) 0 3600))
    | false => some (websocketEndpoint false "user" now 120 1)
  history := []

theorem sampleHub_clients (now : ℚ) (finishedAt : Option ℚ) (i : Bool) (client : HubProg Bool Unit)
    (h : (sampleHub now finishedAt).procs i = some client) :
    HubClient (fun _ => "user") i client := by
  cases i with
  | true => exact Option.some.inj h ▸ .harvest now 1 _ _ _ _ rfl
  | false => exact Option.some.inj h ▸ .websocket ..

/-- The connection is open, has forwarded all it received, and has not sent the job's outcome. -/
def Lost (q : Pool (Hub Bool) (HubEvent Bool) Bool) : Prop :=
  q.procs false = some (.ret ()) ∧ (q.shared.sockets false).inbox = [] ∧
    ∀ message ∈ (q.shared.sockets false).sent, message.reports 1 = false

theorem exists_lost {now : ℚ} {finishedAt : Option ℚ} (is : List Bool)
    {P : Pool (Hub Bool) (HubEvent Bool) Bool → Bool}
    (h : ((sampleHub now finishedAt).schedule is).any (fun q => q.ended false &&
      ((q.shared.sockets false).inbox = [] && (q.shared.sockets false).sent = [] && P q)) = true) :
    ∃ q, Pool.Run hubs (sampleHub now finishedAt) q ∧ Lost q ∧ P q = true := by
  obtain ⟨q, hq, hlost⟩ := Pool.exists_run_of_schedule (R := hubs) (fun _ _ => trivial) h
  simp only [Bool.and_eq_true, decide_eq_true_eq] at hlost
  obtain ⟨hended, ⟨hinbox, hsent⟩, hP⟩ := hlost
  refine ⟨q, hq, ⟨Pool.procs_of_ended hended, hinbox, ?_⟩, hP⟩
  rw [hsent]
  exact fun _ h => nomatch h

/-- A job that finishes between the catch-up query and the subscription of an accepted
connection, and a job that was committed in the second of the query, but with the finish that
its engine's clock gave it long before. -/
theorem event_lost :
    (∃ q, Pool.Run hubs (sampleHub 100 none) q ∧ Lost q ∧
      before (HubEvent.accepts false) (HubEvent.finishes 1) q.history = true) ∧
    ∃ q, Pool.Run hubs (sampleHub 1000 (some 5)) q ∧ Lost q ∧
      ((q.shared.stores.db.jobs.committed 1).storedAt = some 1000 &&
        before (HubEvent.finishes 1) (HubEvent.accepts false) q.history) = true :=
  ⟨exists_lost ([false, false] ++ List.replicate 9 true ++ [false, false]) (by decide +kernel),
    exists_lost (List.replicate 9 true ++ [false, false, false, false]) (by decide +kernel)⟩

/-- A job that finishes after the subscription. -/
theorem delivered_iff_sample : ∃ p q : Pool (Hub Bool) (HubEvent Bool) Bool,
    Pool.Run hubs p q ∧ ((∃ message ∈ (q.shared.sockets false).sent, message.reports 1 = true) ↔
      before (HubEvent.subscribes false) (HubEvent.publishes 1) q.history = true ∨
        1 ∈ p.shared.stores.db.jobs.rows ∧ (p.shared.stores.db.jobs.committed 1).recent "user"
          (100 - 120) = true) := by
  have haccept := Pool.Step.exec (R := hubs) (p := sampleHub 100 none) (i := false) rfl rfl trivial
  obtain ⟨p, hp, hc, hfresh, hunmarked, hrest⟩ : ∃ p, Pool.Run hubs (sampleHub 100 none) p ∧
      p.procs false = some (catchUp false "user" 100 120 1) ∧ p.shared.sockets false = {} ∧
        p.history.any (HubEvent.subscribes false) = false ∧
          (p.schedule (false :: false :: List.replicate 9 true ++ [false, false])).any (fun q =>
            q.ended false && (q.shared.sockets false).inbox = []) = true :=
    ⟨_, .single haccept, rfl, rfl, rfl, by decide +kernel⟩
  obtain ⟨q, hq, hends⟩ := (Option.any_eq_true ..).mp hrest
  rw [Bool.and_eq_true_iff, decide_eq_true_eq] at hends
  obtain ⟨p', hquery, hq'⟩ := Option.bind_eq_some_iff.mp hq
  have hrun : Pool.Run hubs p' q := Pool.run_of_schedule (fun _ _ => trivial) hq'
  have hstep := Pool.step_of_exec (R := hubs) (fun _ _ => trivial) hquery
  exact ⟨p, q, .head hstep hrun, delivered_iff (sampleHub_clients 100 none) hp hc hfresh hunmarked
    hquery hrun (Pool.procs_of_ended hends.1) hends.2⟩

end Taas

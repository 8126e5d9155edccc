import Taas.Properties.Puts
import Taas.Properties.Rows

/-!
# One outcome for a job

Any number of harvests and of `mark_failed` calls handle one job at once. What they did to its
row, whose commit ended it and who published an outcome is kept in its `Docket`.

* `Docket.Once` — at most one commit ends the job, and nobody publishes more outcomes than
  his commits ended it.
* `one_outcome` — as long as the updates of the row are `Timely`, at most one outcome of the
  job is published.
* `harvested_job_fails` — the condition is needed: a job is reported done, then failed.
-/

namespace Taas

open Infra Infra.Prog

/-- The call harvests the job, or fails it. -/
inductive OutcomeCall {ι : Type} [DecidableEq ι] (i : ι) (jobId : JobId) :
    WorkerProg ι Unit → Prop
  | harvest (now state stamps fetched delay stateTtl) :
      OutcomeCall i jobId (harvest i now jobId state stamps fetched delay stateTtl)
  | markFailed (now state error attempt stamps stateTtl) :
      OutcomeCall i jobId (markFailed i now jobId state error attempt stamps stateTtl)

/-- A worker that calls them one after another. -/
inductive Reporter {ι : Type} [DecidableEq ι] (i : ι) (jobId : JobId) : WorkerProg ι Unit → Prop
  | done : Reporter i jobId (pure ())
  | call {p rest : WorkerProg ι Unit} (hp : OutcomeCall i jobId p)
      (hrest : Reporter i jobId rest) : Reporter i jobId (p >>= fun _ => rest)

/-- `mark_failed` updates the job's row only while it is active, and a harvest only while it is
not failed. -/
def Postgres.Timely {ι : Type} (jobId : JobId) (db : Postgres ι) (statement : Statement) : Prop :=
  (statement = .update .markFailed jobId →
      jobId ∈ db.jobs.rows ∧ (db.jobs.committed jobId).status.isActive = true) ∧
    (statement = .update .recordDone jobId → (db.jobs.committed jobId).status ≠ .failed)

/-! ## What happened to a job -/

/-- The message says that the job is done or failed. -/
def Message.reports (jobId : JobId) : Message → Bool
  | .job event => event.jobId = jobId && event.status.isTerminal
  | .batch _ _ => false

def reports (jobId : JobId) : Event ⊕ Statement → Bool
  | .inl (.published _ message) => message.reports jobId
  | _ => false

/-- A commit took the job to a terminal status. -/
def ends (jobId : JobId) : Event ⊕ Statement → Bool
  | .inr (.committed ended) => jobId ∈ ended
  | _ => false

/-- Those who did it. -/
def actors {ι : Type} (kind : Event ⊕ Statement → Bool) (notes : List (Note ι)) : List ι :=
  (notes.filter fun n => kind n.what).map fun n => n.actor

/-- The rows, who ended the job, and who published an outcome of it. -/
structure Docket (ι : Type) where
  jobs : Table JobId JobRow ι
  wins : List ι
  outcomes : List ι

def docket {ι : Type} (jobId : JobId) (s : Stores ι) (notes : List (Note ι)) : Docket ι :=
  ⟨s.db.jobs, actors (ends jobId) notes, actors (reports jobId) notes⟩

@[simp] theorem actors_nil {ι : Type} (kind : Event ⊕ Statement → Bool) :
    actors kind ([] : List (Note ι)) = [] := rfl

@[simp] theorem actors_append {ι : Type} (kind : Event ⊕ Statement → Bool)
    (notes es : List (Note ι)) : actors kind (notes ++ es) = actors kind notes ++ actors kind es := by
  simp [actors]

theorem actors_singleton {ι : Type} (kind : Event ⊕ Statement → Bool) (n : Note ι) :
    actors kind [n] = if kind n.what then [n.actor] else [] := by
  unfold actors
  by_cases h : kind n.what = true
  · simp [h]
  · simp [h]

namespace Docket

variable {ι : Type} [DecidableEq ι] {jobId : JobId} {d d' : Docket ι} {i j : ι}

/-- The job ends once, and an outcome is published by who ended it. -/
structure Once (jobId : JobId) (d : Docket ι) : Prop where
  ended : d.wins.length + (if (d.jobs.committed jobId).status.isActive then 1 else 0) ≤ 1
  /-- A transaction that holds the row takes it to a terminal status. -/
  drafts : ∀ i row, d.jobs.draft jobId = some (i, row) → row.status.isActive = false
  paid : ∀ i, d.outcomes.count i ≤ d.wins.count i

theorem Once.outcomes_le (h : d.Once jobId) : d.outcomes.length ≤ 1 := by
  have hsub : (d.outcomes : Multiset ι) ≤ d.wins := by
    rw [Multiset.le_iff_count]
    intro i
    rw [Multiset.coe_count, Multiset.coe_count]
    exact h.paid i
  have hcard := Multiset.card_le_card hsub
  rw [Multiset.coe_card, Multiset.coe_card] at hcard
  have := h.ended
  omega

/-- What `i` leaves to the others. -/
structure Polite (i : ι) (d d' : Docket ι) : Prop where
  rows : d'.jobs.rows = d.jobs.rows
  foreign : ∀ j, j ≠ i → d.jobs.Foreign j d'.jobs
  wins : ∀ j, j ≠ i → d'.wins.count j = d.wins.count j
  outcomes : ∀ j, j ≠ i → d'.outcomes.count j = d.outcomes.count j

theorem Polite.refl (i : ι) (d : Docket ι) : d.Polite i d :=
  ⟨rfl, fun j _ => Table.Foreign.refl j d.jobs, fun _ _ => rfl, fun _ _ => rfl⟩

/-- `i` holds no row. -/
def Clear (i : ι) (d : Docket ι) : Prop := d.jobs.Idle i

/-- `i` is about to end the job. -/
def Ending (i : ι) (jobId : JobId) (d : Docket ι) : Prop :=
  (∃ row, d.jobs.draft jobId = some (i, row)) ∧
    (d.jobs.committed jobId).status.isActive = true ∧ jobId ∈ d.jobs.rows

/-- `i` ended the job and has to report it. -/
def Owing (i : ι) (d : Docket ι) : Prop :=
  d.jobs.Idle i ∧ d.outcomes.count i < d.wins.count i

theorem Clear.polite (h : d.Clear i) (hp : d.Polite j d') (hij : i ≠ j) : d'.Clear i :=
  (hp.foreign i hij).idle h

theorem Ending.polite (h : d.Ending i jobId) (hp : d.Polite j d') (hij : i ≠ j) :
    d'.Ending i jobId := by
  obtain ⟨⟨row, hrow⟩, hactive, hmem⟩ := h
  have hf := hp.foreign i hij
  refine ⟨⟨row, (hf.draft jobId row).mpr hrow⟩, ?_, ?_⟩
  · rw [hf.committed jobId row hrow]
    exact hactive
  · rw [hp.rows]
    exact hmem

theorem Owing.polite (h : d.Owing i) (hp : d.Polite j d') (hij : i ≠ j) : d'.Owing i := by
  refine ⟨(hp.foreign i hij).idle h.1, ?_⟩
  rw [hp.wins i hij, hp.outcomes i hij]
  exact h.2

/-! ### Moves -/

/-- `i` takes the row to `row`. -/
def write (i : ι) (jobId : JobId) (row : JobRow) (d : Docket ι) : Docket ι :=
  { d with jobs := d.jobs.write i jobId row }

def rollback (i : ι) (d : Docket ι) : Docket ι := { d with jobs := d.jobs.rollback i }

/-- `i` ends the job with its commit. -/
def EndsBy (i : ι) (jobId : JobId) (d : Docket ι) : Prop :=
  jobId ∈ d.jobs.rows ∧ (d.jobs.committed jobId).status.isActive = true ∧
    (d.jobs.sees i jobId).status.isTerminal = true

instance : Decidable (d.EndsBy i jobId) := by unfold EndsBy; infer_instance

def commit (i : ι) (jobId : JobId) (d : Docket ι) : Docket ι :=
  { d with
    jobs := d.jobs.commit i
    wins := d.wins ++ if d.EndsBy i jobId then [i] else [] }

def report (i : ι) (d : Docket ι) : Docket ι := { d with outcomes := d.outcomes ++ [i] }

variable {row : JobRow}

theorem Once.write (h : d.Once jobId) (hrow : row.status.isActive = false) :
    (d.write i jobId row).Once jobId where
  ended := h.ended
  drafts j row' hd := by
    rw [Docket.write, Table.draft_write_self] at hd
    rw [← (Prod.mk.inj (Option.some.inj hd)).2]
    exact hrow
  paid := h.paid

theorem polite_write (hf : d.jobs.free i jobId = true) : d.Polite i (d.write i jobId row) where
  rows := rfl
  foreign _ hj := Table.foreign_write (Ne.symm hj) hf
  wins _ _ := rfl
  outcomes _ _ := rfl

theorem Once.rollback (h : d.Once jobId) (i : ι) : (d.rollback i).Once jobId where
  ended := h.ended
  drafts j row hd := h.drafts j row (Table.draft_rollback.mp hd).1
  paid := h.paid

theorem polite_rollback : d.Polite i (d.rollback i) where
  rows := rfl
  foreign _ hj := Table.foreign_rollback (Ne.symm hj)
  wins _ _ := rfl
  outcomes _ _ := rfl

/-- A commit makes no job active. -/
theorem Once.active_of_commit (h : d.Once jobId)
    (ha : (d.jobs.sees i jobId).status.isActive = true) :
    (d.jobs.committed jobId).status.isActive = true := by
  by_cases hd : ∃ row, d.jobs.draft jobId = some (i, row)
  · obtain ⟨row, hd⟩ := hd
    rw [Table.sees_of_draft hd, h.drafts i row hd] at ha
    cases ha
  · rwa [Table.sees_of_not_draft (not_exists.mp hd)] at ha

theorem Once.commit (h : d.Once jobId) (i : ι) : (d.commit i jobId).Once jobId where
  ended := by
    have hone := h.ended
    show (d.wins ++ if d.EndsBy i jobId then [i] else []).length +
      (if (d.jobs.sees i jobId).status.isActive then 1 else 0) ≤ 1
    by_cases he : d.EndsBy i jobId
    · -- the one commit that ends the job leaves it ended
      have hnot : (d.jobs.sees i jobId).status.isActive = false := by
        rw [← Bool.not_eq_true', ← JobStatus.isTerminal_eq]
        exact he.2.2
      rw [if_pos he, hnot, if_neg Bool.false_ne_true]
      rw [if_pos he.2.1] at hone
      simp only [List.length_append, List.length_singleton]
      omega
    · rw [if_neg he, List.append_nil]
      split
      · next ha => rwa [if_pos (h.active_of_commit ha)] at hone
      · omega
  drafts j row hd := h.drafts j row (Table.draft_commit.mp hd).1
  paid j := (h.paid j).trans (List.Sublist.count_le j (List.sublist_append_left _ _))

theorem polite_commit : d.Polite i (d.commit i jobId) where
  rows := rfl
  foreign _ hj := Table.foreign_commit (Ne.symm hj)
  wins j hj := by
    show (d.wins ++ if d.EndsBy i jobId then [i] else []).count j = d.wins.count j
    split
    · rw [List.count_append, List.count_singleton, if_neg (by simpa using Ne.symm hj),
        Nat.add_zero]
    · rw [List.append_nil]
  outcomes _ _ := rfl

theorem Ending.commit (he : d.Ending i jobId) (h : d.Once jobId) : (d.commit i jobId).Owing i := by
  obtain ⟨⟨row, hrow⟩, hactive, hmem⟩ := he
  refine ⟨Table.idle_commit, ?_⟩
  have hends : d.EndsBy i jobId := by
    refine ⟨hmem, hactive, ?_⟩
    rw [Table.sees_of_draft hrow, JobStatus.isTerminal_eq, h.drafts i row hrow]
    rfl
  show d.outcomes.count i < (d.wins ++ if d.EndsBy i jobId then [i] else []).count i
  rw [if_pos hends, List.count_append, List.count_singleton_self]
  have := h.paid i
  omega

theorem Owing.report (ho : d.Owing i) (h : d.Once jobId) : (d.report i).Once jobId where
  ended := h.ended
  drafts := h.drafts
  paid j := by
    show (d.outcomes ++ [i]).count j ≤ d.wins.count j
    by_cases hj : j = i
    · subst hj
      rw [List.count_append, List.count_singleton_self]
      exact ho.2
    · rw [List.count_append, List.count_singleton, if_neg (by simpa using Ne.symm hj),
        Nat.add_zero]
      exact h.paid j

theorem polite_report : d.Polite i (d.report i) where
  rows := rfl
  foreign j _ := Table.Foreign.refl j d.jobs
  wins _ _ := rfl
  outcomes j hj := by
    show (d.outcomes ++ [i]).count j = d.outcomes.count j
    rw [List.count_append, List.count_singleton, if_neg (by simpa using Ne.symm hj), Nat.add_zero]

end Docket

/-! ## What each call does -/

section

variable {ι : Type} [DecidableEq ι] {i : ι} {jobId : JobId}

abbrev timely (jobId : JobId) : Regime (Stores ι) (Note ι) ι := executing (Postgres.Timely jobId)

/-- The job ends once, and everybody is polite. -/
def once (jobId : JobId) : Contract (Stores ι) (Note ι) ι where
  inv s notes := (docket jobId s notes).Once jobId
  guar i s notes s' notes' := (docket jobId s notes).Polite i (docket jobId s' notes')

/-- `p`, executed by `i`, takes a docket as `P` describes to one as `Q` describes. -/
abbrev Does {α : Type} (i : ι) (jobId : JobId) (p : WorkerProg ι α) (P : Docket ι → Prop)
    (Q : α → Docket ι → Prop) : Prop :=
  Contract.Triple (timely jobId) (once jobId) i p (fun s notes => P (docket jobId s notes))
    fun a s notes => Q a (docket jobId s notes)

/-- What the others leave true for `i`. -/
def Lasts (i : ι) (P : Docket ι → Prop) : Prop :=
  ∀ j, i ≠ j → ∀ d d' : Docket ι, d.Polite j d' → P d → P d'

theorem Lasts.stable {P : Docket ι → Prop} (h : Lasts i P) :
    (once jobId).Stable i fun s notes => P (docket jobId s notes) :=
  fun j hj _ _ _ _ _ _ hg hp => h j (Ne.symm hj) _ _ hg hp

theorem lasts_clear : Lasts i (Docket.Clear i) := fun _ hij _ _ hp h => h.polite hp hij

theorem lasts_ending : Lasts i (Docket.Ending i jobId) := fun _ hij _ _ hp h => h.polite hp hij

theorem lasts_owing : Lasts i (Docket.Owing i) := fun _ hij _ _ hp h => h.polite hp hij

/-- A command that neither writes rows nor ends or reports the job. -/
def Aside (jobId : JobId) (effect : Stores ι → Stores ι) (log : Stores ι → List (Note ι)) :
    Prop :=
  ∀ s notes, docket jobId (effect s) (notes ++ log s) = docket jobId s notes

theorem does_aside {α : Type} {p : WorkerProg ι α} {P : Docket ι → Prop} (hP : Lasts i P)
    (h : Each (Aside jobId) p) : Does i jobId p P fun _ => P := by
  refine Contract.triple_of_each hP.stable (fun effect log hc s notes hi hs _ => ?_) h
  show (docket jobId (effect s) (notes ++ log s)).Once jobId ∧
    (docket jobId s notes).Polite i (docket jobId (effect s) (notes ++ log s)) ∧
      P (docket jobId (effect s) (notes ++ log s))
  rw [hc s notes]
  exact ⟨hi, .refl i _, hs⟩

omit [DecidableEq ι] in
theorem aside_onRedis {α : Type} {p : RedisProg α} (h : Each Still p) :
    Each (Aside jobId) (onRedis i p) := by
  refine h.zoom fun effect log hc s notes => ?_
  dsimp only
  rw [hc.2, List.map_nil, List.append_nil]
  rfl

omit [DecidableEq ι] in
theorem aside_publishBatch (username : String) (batch : Option (BatchId × BatchCounts)) :
    Each (Aside jobId) (publishBatch i username batch) := by
  unfold publishBatch
  split
  · exact each_pure _
  · refine each_callLog fun s notes => ?_
    simp [docket, actors_singleton, reports, Message.reports, ends, batchEvent]

omit [DecidableEq ι] in
theorem aside_query {α : Type} {reply : Postgres ι → α} :
    Each (Aside jobId) (onDb i (query reply)) :=
  each_call fun s notes => by
    rw [List.append_nil]
    rfl

theorem aside_finishIfDone (now : ℚ) (batchId : Option BatchId) :
    Each (Aside jobId) (onDb i (finishIfDone i now batchId)) := by
  unfold finishIfDone
  split
  · exact each_pure _
  · rw [onDb_bind]
    refine Each.bind (each_await fun s notes => ?_) fun _ => each_await fun s notes => ?_
    all_goals
      rw [List.map_nil, List.append_nil]
      unfold docket
      dsimp only
      split <;> rfl

omit [DecidableEq ι] in
/-- The statement as it is noted. -/
theorem docket_update (s : Stores ι) (notes : List (Note ι)) (writer : Writer) (db : Postgres ι) :
    docket jobId { s with db := db } (notes ++ [⟨i, .inr (.update writer jobId)⟩]) =
      { docket jobId s notes with jobs := db.jobs } := by
  simp [docket, actors_singleton, reports, ends]

/-- An update that matches only while the job is active, and takes it to a terminal status. -/
theorem does_update {writer : Writer} {cond : JobRow → Bool} {values : JobRow → JobRow}
    {Q : Bool → Docket ι → Prop} (hQ : ∀ b, Lasts i (Q b))
    (hactive : ∀ db : Postgres ι, db.Timely jobId (.update writer jobId) →
      cond (db.jobs.committed jobId) = true → (db.jobs.committed jobId).status.isActive = true)
    (hvalues : ∀ row, (values row).status.isActive = false)
    (hhit : ∀ d : Docket ι, d.Ending i jobId → Q true d)
    (hmiss : ∀ db : Postgres ι, db.Timely jobId (.update writer jobId) →
      (jobId ∈ db.jobs.rows → cond (db.jobs.committed jobId) = false) →
        ∀ d : Docket ι, d.Clear i → Q false d) :
    Does i jobId (onDb i (updateJob i writer jobId cond values)) (Docket.Clear i) Q := by
  refine Contract.triple_await (fun s notes hi hc hready ha => ?_) fun b => (hQ b).stable
  have hsees : s.db.jobs.sees i = s.db.jobs.committed := Table.sees_of_idle hc
  have htimely := ha _ (List.mem_singleton_self _) _ rfl
  show (docket jobId { s with db := s.db.update i jobId cond values } (notes ++ [_])).Once jobId ∧
    (docket jobId s notes).Polite i (docket jobId { s with db := _ } (notes ++ [_])) ∧
      Q (s.db.matchesJob i jobId cond) (docket jobId { s with db := _ } (notes ++ [_]))
  rw [docket_update, Postgres.update]
  by_cases hm : s.db.matchesJob i jobId cond = true
  · obtain ⟨hmem, hcond⟩ := Bool.and_eq_true_iff.mp hm
    rw [hsees] at hcond
    dsimp only at hready
    rw [hm, Bool.not_true, Bool.false_or] at hready
    rw [if_pos hm, hm]
    refine ⟨hi.write (hvalues _), Docket.polite_write hready, hhit _ ⟨?_, ?_, ?_⟩⟩
    · exact ⟨_, Table.draft_write_self⟩
    · exact hactive s.db htimely hcond
    · exact of_decide_eq_true hmem
  · rw [if_neg hm, Bool.eq_false_iff.mpr hm]
    refine ⟨hi, .refl i _, hmiss s.db htimely (fun hmem => ?_) _ hc⟩
    rw [Postgres.matchesJob, hsees, decide_eq_true hmem, Bool.true_and, Bool.not_eq_true] at hm
    exact hm

/-- The commit of a transaction, noted. -/
theorem docket_commit (s : Stores ι) (notes : List (Note ι)) :
    docket jobId { s with db := s.db.commit i } (notes ++ [⟨i, .inr (.committed (s.db.ended i))⟩]) =
      (docket jobId s notes).commit i jobId := by
  have hends : ends jobId (.inr (.committed (s.db.ended i))) = true ↔
      (docket jobId s notes).EndsBy i jobId := by
    simp [ends, Postgres.ended, Docket.EndsBy, docket]
  simp only [docket, Docket.commit, actors_append, actors_singleton, hends, reports,
    Bool.false_eq_true, if_false, List.append_nil]
  rfl

theorem does_commit {P Q : Docket ι → Prop} (hQ : Lasts i Q)
    (h : ∀ d : Docket ι, d.Once jobId → P d → Q (d.commit i jobId)) :
    Does i jobId (onDb i (commit i)) P fun _ => Q := by
  refine Contract.triple_callLog (fun s notes hi hp _ => ?_) fun _ => hQ.stable
  show (docket jobId { s with db := s.db.commit i } _).Once jobId ∧
    (docket jobId s notes).Polite i (docket jobId { s with db := s.db.commit i } _) ∧
      Q (docket jobId { s with db := s.db.commit i } _)
  dsimp only [List.map]
  rw [docket_commit]
  exact ⟨hi.commit i, Docket.polite_commit, h _ hi hp⟩

theorem does_rollback : Does i jobId (onDb i (rollback i)) (Docket.Clear i)
    fun _ => Docket.Clear i := by
  refine Contract.triple_call (fun s notes hi _ => ?_) fun _ => lasts_clear.stable
  exact ⟨hi.rollback i, Docket.polite_rollback, Table.idle_rollback⟩

/-- An outcome of the job is published by who has to report it. -/
theorem does_publish (username : String) {event : JobEvent} (hjob : event.jobId = jobId)
    (hstatus : event.status.isTerminal = true) :
    Does i jobId (onRedis i (publishEvent username (jobEventPayload event))) (Docket.Owing i)
      fun _ => Docket.Clear i := by
  refine Contract.triple_callLog (fun s notes hi hp _ => ?_) fun _ => lasts_clear.stable
  have hdocket : docket jobId s (notes ++ [⟨i, .inl (.published username (jobEventPayload event))⟩]) =
      (docket jobId s notes).report i := by
    simp [docket, Docket.report, actors_singleton, reports, Message.reports, ends, jobEventPayload,
      hjob, hstatus]
  show (docket jobId s (notes ++ [_])).Once jobId ∧
    (docket jobId s notes).Polite i (docket jobId s (notes ++ [_])) ∧
      (docket jobId s (notes ++ [_])).Clear i
  rw [hdocket]
  exact ⟨hp.report hi, Docket.polite_report, hp.1⟩

/-! ## Calls -/

theorem does_finishIfDone {P : Docket ι → Prop} (hP : Lasts i P) (now : ℚ)
    (batchId : Option BatchId) : Does i jobId (onDb i (finishIfDone i now batchId)) P fun _ => P :=
  does_aside hP (aside_finishIfDone now batchId)

/-- A harvest has to report the job when it was the first to mark it. -/
theorem does_recordDone (now : ℚ) (batchId : Option BatchId) (stamps : EngineStamps) :
    Does i jobId (recordDone i now jobId batchId stamps) (Docket.Clear i)
      fun first => if first then Docket.Owing i else Docket.Clear i := by
  unfold recordDone finishPage
  have hupdate : Does i jobId (onDb i (updateJob i .recordDone jobId notDone fun row =>
      { row with status := .done, storedAt := some now, finishedAt := some now }.stamped stamps))
      (Docket.Clear i) fun first => if first then Docket.Ending i jobId else Docket.Clear i := by
    refine does_update (fun b => ?_) (fun db htimely hcond => ?_) (fun _ => rfl) (fun _ h => h)
      fun _ _ _ _ h => h
    · cases b with
      | true => exact lasts_ending
      | false => exact lasts_clear
    · have hfailed := htimely.2 rfl
      have hdone := ne_done_of_notDone _ hcond
      cases h : (db.jobs.committed jobId).status <;> simp_all [JobStatus.isActive]
  rw [onDb_bind]
  refine hupdate.bind fun first => ?_
  rw [onDb_bind]
  cases first with
  | true =>
    refine (does_finishIfDone lasts_ending now batchId).bind fun _ => ?_
    rw [onDb_bind]
    exact (does_commit lasts_owing fun d hd he => he.commit hd).bind
      fun _ => Contract.triple_pure fun _ _ _ h => h
  | false =>
    refine (does_finishIfDone lasts_clear now batchId).bind fun _ => ?_
    rw [onDb_bind]
    exact (does_commit lasts_clear fun _ _ _ => Table.idle_commit).bind
      fun _ => Contract.triple_pure fun _ _ _ h => h

theorem does_recordFailed (now : ℚ) (error : String) (attempt : Option Attempt)
    (stamps : EngineStamps) (batchId : Option BatchId) :
    Does i jobId (onDb i (recordFailed i now jobId error attempt stamps batchId)) (Docket.Clear i)
      fun _ => Docket.Owing i := by
  unfold recordFailed
  rw [onDb_bind]
  refine Contract.Triple.bind (P := fun _ s notes => (docket jobId s notes).Ending i jobId)
    (does_update (fun _ => lasts_ending) (fun db htimely _ => (htimely.1 rfl).2) (fun _ => rfl)
      (fun _ h => h) fun db htimely hmiss d _ => ?_) fun _ => ?_
  · -- an active row is not done, so the update matched it
    obtain ⟨hmem, hactive⟩ := htimely.1 rfl
    have hdone : (db.jobs.committed jobId).status = .done := by
      simpa [notDone] using hmiss hmem
    rw [hdone] at hactive
    cases hactive
  · rw [onDb_bind]
    refine (does_aside lasts_ending aside_query).bind fun _ => ?_
    rw [onDb_bind]
    refine (does_finishIfDone lasts_ending now batchId).bind fun _ => ?_
    rw [onDb_bind]
    exact (does_commit lasts_owing fun d hd he => he.commit hd).bind
      fun _ => Contract.triple_pure fun _ _ _ h => h

theorem does_publishBatch (username : String) (batch : Option (BatchId × BatchCounts)) :
    Does i jobId (publishBatch i username batch) (Docket.Clear i) fun _ => Docket.Clear i :=
  does_aside lasts_clear (aside_publishBatch username batch)

theorem does_markFailed (now : ℚ) (state : JobState) (error : String) (attempt : Option Attempt)
    (stamps : EngineStamps) (stateTtl : Nat) :
    Does i jobId (markFailed i now jobId state error attempt stamps stateTtl) (Docket.Clear i)
      fun _ => Docket.Clear i := by
  have hselect : Does i jobId (onDb i (selectStatus i jobId)) (Docket.Clear i)
      fun _ => Docket.Clear i := does_aside lasts_clear (each_call fun s notes => by
        rw [List.append_nil]
        rfl)
  refine hselect.bind fun status => Contract.Triple.ite (fun _ => ?_) fun _ => ?_
  · exact (does_aside lasts_clear (aside_onRedis (still_setDone ..))).bind fun _ => does_rollback
  · refine (does_aside lasts_clear (aside_onRedis (still_setFailed ..))).bind fun batch => ?_
    refine (does_recordFailed now error attempt stamps state.batchId).bind fun _ => ?_
    exact (does_publish state.username (by rfl) (by rfl)).bind fun _ => does_publishBatch _ _

theorem does_harvestStored (now : ℚ) (state : JobState) (stamps : EngineStamps)
    (urls : List (String × String)) (stateTtl : Nat) :
    Does i jobId (harvestStored i now jobId state stamps urls stateTtl) (Docket.Clear i)
      fun _ => Docket.Clear i := by
  refine (does_recordDone now state.batchId stamps).bind fun first => ?_
  cases first with
  | true =>
    refine (does_aside lasts_owing (aside_onRedis (still_setDone ..))).bind fun batch => ?_
    exact (does_publish state.username (by rfl) (by rfl)).bind fun _ => does_publishBatch _ _
  | false =>
    exact (does_aside lasts_clear (aside_onRedis (still_setDone ..))).bind
      fun batch => does_publishBatch _ _

/-- Every call leaves its client with nothing to report. -/
theorem OutcomeCall.does {p : WorkerProg ι Unit} (h : OutcomeCall i jobId p) :
    Does i jobId p (Docket.Clear i) fun _ => Docket.Clear i := by
  cases h with
  | markFailed => exact does_markFailed _ _ _ _ _ _
  | harvest now state stamps fetched delay stateTtl =>
    cases fetched with
    | stored urls => exact does_harvestStored _ _ _ _ _
    | unavailable error => exact does_markFailed _ _ _ _ _ _
    | failed error transient =>
      show Does i jobId (if transient then _ else _) _ _
      refine Contract.Triple.ite (fun _ => ?_) fun _ => does_markFailed _ _ _ _ _ _
      exact does_aside lasts_clear (aside_onRedis (still_act fun _ => rfl))

theorem Reporter.does {p : WorkerProg ι Unit} (h : Reporter i jobId p) :
    Does i jobId p (Docket.Clear i) fun _ => Docket.Clear i := by
  induction h with
  | done => exact Contract.triple_pure fun _ _ _ h => h
  | call hp _ ih => exact hp.does.bind fun _ => ih

/-- **As long as no update of the job's row comes late, at most one outcome of the job is
published.** -/
theorem one_outcome {p q : Pool (Stores ι) (Note ι) ι}
    (hprocs : ∀ i c, p.procs i = some c → Reporter i jobId c)
    (hidle : ∀ k, p.shared.db.jobs.draft k = none) (hnew : p.history = [])
    (hr : Pool.Run (timely jobId) p q) : (actors (reports jobId) q.history).length ≤ 1 := by
  have hclear : ∀ i, p.shared.db.jobs.Idle i := by
    intro i k row hd
    rw [hidle k] at hd
    cases hd
  have honce : (docket jobId p.shared p.history).Once jobId := by
    rw [hnew]
    refine ⟨?_, fun i row hd => absurd hd (hclear i jobId row), fun _ => Nat.le_refl _⟩
    show 0 + _ ≤ 1
    split <;> omega
  have hsound : Pool.Sound (timely jobId) (once jobId)
      (fun i s notes => (docket jobId s notes).Clear i) p :=
    ⟨honce, fun i c hi => ⟨fun s notes => (docket jobId s notes).Clear i, hclear i,
      lasts_clear.stable, (hprocs i c hi).does⟩⟩
  have hclean : Pool.CleanOk (timely jobId : Regime (Stores ι) (Note ι) ι) (once jobId) := by
    intro i s notes hi
    exact ⟨hi.rollback i, Docket.polite_rollback⟩
  exact (hsound.run hclean hr).inv.outcomes_le

end

/-! ## A job that is reported done and failed -/

/-- The job of `sampleRows`. One harvest (`true`) saved its outputs, and another one (`false`)
came when the engine had lost them. -/
def sampleReports : Pool (Stores Bool) (Note Bool) Bool where
  shared := sampleRows.shared
  procs
    | true => some do
      harvest true 100 1 { sampleJob with backendId := some 1 } {} (.stored []) 0 3600
      pure ()
    | false => some do
      harvest false 100 1 { sampleJob with backendId := some 1 } {} (.failed "gone" false) 0 3600
      pure ()
  history := []

theorem sampleReports_procs (i : Bool) (c : WorkerProg Bool Unit)
    (h : sampleReports.procs i = some c) : Reporter i 1 c := by
  cases i with
  | true => exact Option.some.inj h ▸ .call (.harvest ..) .done
  | false => exact Option.some.inj h ▸ .call (.harvest ..) .done

/-- Both harvests get the job before either has it; the second fails it when the first one has
reported it. -/
theorem harvested_job_fails : ∃ q : Pool (Stores Bool) (Note Bool) Bool,
    (∀ i c, sampleReports.procs i = some c → Reporter i 1 c) ∧
      (∀ k, sampleReports.shared.db.jobs.draft k = none) ∧ sampleReports.history = [] ∧
        Pool.Run careless sampleReports q ∧ actors (reports 1) q.history = [true, false] := by
  have hany : ∀ s es, (careless : Regime (Stores Bool) (Note Bool) Bool).allowed s es :=
    fun _ _ _ _ _ _ => trivial
  -- the late harvest selects the status first, and comes back when the other one is over
  obtain ⟨q, hq, hreported⟩ := Pool.exists_run_of_schedule hany (p := sampleReports)
    (l := false :: List.replicate 9 true ++ List.replicate 7 false)
    (P := fun q => actors (reports 1) q.history = [true, false]) (by decide +kernel)
  exact ⟨q, sampleReports_procs, fun _ => rfl, rfl, hq, of_decide_eq_true hreported⟩

def Postgres.isTimely (jobId : JobId) (db : Postgres Bool) (statement : Statement) : Bool :=
  if statement = .update .markFailed jobId then
    jobId ∈ db.jobs.rows && (db.jobs.committed jobId).status.isActive
  else if statement = .update .recordDone jobId then
    (db.jobs.committed jobId).status ≠ .failed
  else true

theorem Postgres.timely_of_isTimely (jobId : JobId) (db : Postgres Bool)
    (statement : Statement) (h : db.isTimely jobId statement = true) : db.Timely jobId statement := by
  constructor
  · rintro rfl
    simpa [isTimely] using h
  · rintro rfl
    simpa [isTimely] using h

/-- The second harvest selects the job's status when the first one has committed it. Both come
to their ends, each between the commands of the other. -/
theorem one_outcome_sample : ∃ q : Pool (Stores Bool) (Note Bool) Bool,
    q.ended true = true ∧ q.ended false = true ∧ actors (reports 1) q.history = [true] ∧
      (actors (reports 1) q.history).length ≤ 1 := by
  obtain ⟨q, hq, h⟩ := Pool.exists_run_of_scheduleIf
    (executing_of_executes (Postgres.timely_of_isTimely 1)) (p := sampleReports)
    (l := List.replicate 4 true ++
      [false, true, false, true, false, true, false, true, false, true, false, false])
    (P := fun q => q.ended true && (q.ended false && actors (reports 1) q.history = [true]))
    (by decide +kernel)
  rw [Bool.and_eq_true_iff, Bool.and_eq_true_iff] at h
  exact ⟨q, h.1, h.2.1, of_decide_eq_true h.2.2,
    one_outcome sampleReports_procs (fun _ => rfl) rfl hq⟩

end Taas

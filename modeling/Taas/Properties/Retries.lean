import Taas.Infra.Sections
import Taas.Routers.Batches

/-!
# A failed page is retried once

* `retrier` — a client that calls `retry_batch`: a section from the read of the batch's status to
  the commit, and the rest.
* `Lobby.Once` — what holds of the batch between two commands.
* `page_retried_once` — in every run in which these sections do not overlap, a page gets one new
  job at most.
-/

namespace Taas

open Infra Infra.Prog Infra.Contract

/-- The endpoints and their database, with who is between the read and the commit. -/
abbrev Lobby (ι : Type) := Sections (ApiStores ι) BatchId ι

/-- What is noted of them. -/
abbrev LobbyEvent (ι : Type) := (Filed ⊕ Note ι) ⊕ BatchId

/-- The jobs whose rows were committed. -/
def filed {ι : Type} (events : List (LobbyEvent ι)) : List Filed :=
  events.filterMap fun event => event.getLeft?.bind Sum.getLeft?

section

variable {ι : Type} [DecidableEq ι] (settings : UploadSettings) (batchId : BatchId) (i : ι)

/-- `retry_batch` after its section. -/
def afterReopen (request : RetryCall) : Except RetryAnswer Reopened → ApiProg ι Unit
  | .error _ => pure ()
  | .ok reopened => (fun _ => ()) <$> requeueRetried batchId request i reopened

/-- One call after another, by client `i`. -/
def retrier : List RetryCall → Prog (Lobby ι) (LobbyEvent ι) Unit
  | [] => pure ()
  | request :: requests => do
    let reopened ← fence i batchId (reopenBatch settings batchId request i)
    outside (afterReopen batchId i request reopened)
    retrier requests

/-- A dead client's transaction is rolled back; it is nowhere inside. -/
def hangUp (i : ι) (t : Lobby ι) : Lobby ι :=
  (t.put { t.store with catalog := t.store.catalog.rollback i }).evict i

/-- No call reads the batch's status while another one is between that and its commit. -/
def inTurns : Regime (Lobby ι) (LobbyEvent ι) ι := Sections.apartWith hangUp

/-- Calls overlap anyhow. -/
def anyhow : Regime (Lobby ι) (LobbyEvent ι) ι where
  allowed _ _ := True
  clean := hangUp

end

/-! ## Between two commands -/

namespace Lobby

variable {ι : Type} {batchId : BatchId} {t t' : Lobby ι} {es es' : List (LobbyEvent ι)} {i : ι}

/-- Only who is inside has written something, and no page has two new jobs; it has none while the
batch is finished. -/
structure Once (batchId : BatchId) (t : Lobby ι) (es : List (LobbyEvent ι)) : Prop where
  drafts : ∀ k row, t.store.catalog.db.batches.draft batchId = some (k, row) →
    t.inside batchId = some k
  inserted : ∀ k, t.store.catalog.inserted k ≠ [] → t.inside batchId = some k
  names : ((filed es).map Prod.snd).Nodup
  fresh : (t.store.catalog.db.batches.committed batchId).status = .finished → filed es = []

/-- What `i` leaves to those who are inside. -/
def Civil (batchId : BatchId) (i : ι) (t : Lobby ι) (es : List (LobbyEvent ι)) (t' : Lobby ι)
    (es' : List (LobbyEvent ι)) : Prop :=
  ∀ k, k ≠ i → t.inside batchId = some k → t'.inside batchId = some k ∧
    t'.store.catalog.db.batches.committed batchId =
      t.store.catalog.db.batches.committed batchId ∧
    t'.store.catalog.db.batches.draft batchId = t.store.catalog.db.batches.draft batchId ∧
    t'.store.catalog.inserted k = t.store.catalog.inserted k ∧ filed es' = filed es

/-- Client `i` is inside, with what it wrote to the batch and what it inserted. -/
structure Holds (batchId : BatchId) (i : ι) (row : Option BatchRow) (jobs : List NewJob)
    (status : BatchStatus) (t : Lobby ι) : Prop where
  inside : t.inside batchId = some i
  draft : t.store.catalog.db.batches.draft batchId = row.map fun row => (i, row)
  inserted : t.store.catalog.inserted i = jobs
  committed : (t.store.catalog.db.batches.committed batchId).status = status

theorem filed_append : filed (es ++ es') = filed es ++ filed es' := List.filterMap_append ..

theorem Civil.trans {t'' : Lobby ι} {es'' : List (LobbyEvent ι)} (h : Civil batchId i t es t' es')
    (h' : Civil batchId i t' es' t'' es'') : Civil batchId i t es t'' es'' := by
  intro k hk hin
  obtain ⟨hin', hcommitted, hdraft, hinserted, hfiled⟩ := h k hk hin
  obtain ⟨hin'', hcommitted', hdraft', hinserted', hfiled'⟩ := h' k hk hin'
  exact ⟨hin'', hcommitted'.trans hcommitted, hdraft'.trans hdraft, hinserted'.trans hinserted,
    hfiled'.trans hfiled⟩

/-- Who is inside does as it likes. -/
theorem civil_of_inside (hin : t.inside batchId = some i) : Civil batchId i t es t' es' :=
  fun _ hk hin' => absurd (Option.some.inj (hin'.symm.trans hin)) hk

end Lobby

/-! ## The calls -/

section

variable {ι : Type} {batchId : BatchId} {i : ι}

/-- `Lobby.Once` and `Lobby.Civil`, as a contract. -/
def retries (batchId : BatchId) : Contract (Lobby ι) (LobbyEvent ι) ι where
  inv := Lobby.Once batchId
  guar := Lobby.Civil batchId

theorem stable_holds {row : Option BatchRow} {jobs : List NewJob} {status : BatchStatus} :
    (retries batchId).Stable i fun t _ => Lobby.Holds batchId i row jobs status t := by
  intro j hj t es t' es' _ _ hg h
  obtain ⟨hin, hcommitted, hdraft, hinserted, -⟩ := hg i (Ne.symm hj) h.inside
  exact ⟨hin, hdraft.trans h.draft, hinserted.trans h.inserted, hcommitted ▸ h.committed⟩

/-- The command leaves the tables alone. -/
def Tableless (effect : ApiStores ι → ApiStores ι) (log : ApiStores ι → List (Filed ⊕ Note ι)) : Prop :=
  ∀ s, (effect s).catalog = s.catalog ∧ (log s).filterMap Sum.getLeft? = []

theorem filed_inl (events : List (Filed ⊕ Note ι)) :
    filed (events.map (Sum.inl : _ → LobbyEvent ι)) = events.filterMap Sum.getLeft? := by
  unfold filed
  rw [List.filterMap_map]
  rfl

theorem each_tableless_redis {α : Type} (p : RedisProg α) : (onStores (onRedis i p)).Each Tableless := by
  refine Each.zoom (C := fun effect _ => ∀ s : Stores ι, (effect s).db = s.db) ?_ ?_
  · intro effect log h s
    refine ⟨?_, ?_⟩
    · change { s.catalog with db := (effect s.stores).db } = s.catalog
      rw [h]
      rfl
    · rw [List.filterMap_map]
      exact List.filterMap_eq_nil_iff.mpr fun _ _ => rfl
  · exact Each.zoom (C := fun _ _ => True) (fun _ _ _ _ => rfl) (each_of_forall (fun _ _ => trivial) p)

variable [DecidableEq ι]

/-- What leaves the tables alone keeps what is known of them. -/
theorem triple_tableless {A : Assertion (Lobby ι) (LobbyEvent ι)} (hA : (retries batchId).Stable i A)
    (hkeep : ∀ (t t' : Lobby ι) es es', t'.inside = t.inside →
      t'.store.catalog = t.store.catalog → A t es → A t' es')
    {α : Type} {p : ApiProg ι α} (hp : p.Each Tableless) :
    (retries batchId).Triple inTurns i (outside p) A fun _ => A := by
  refine triple_of_each (C := fun effect log => ∀ t : Lobby ι, (effect t).inside = t.inside ∧
    (effect t).store.catalog = t.store.catalog ∧ filed (log t) = []) hA ?_ (Each.zoom ?_ hp)
  · intro effect log h t es hi ha _
    obtain ⟨hin, hcatalog, hfiled⟩ := h t
    have hsame : filed (es ++ log t) = filed es := by
      rw [Lobby.filed_append, hfiled, List.append_nil]
    refine ⟨⟨?_, ?_, ?_, ?_⟩, fun k _ hk => ?_, hkeep _ _ _ _ hin hcatalog ha⟩
    · rw [hin, hcatalog]
      exact hi.drafts
    · rw [hin, hcatalog]
      exact hi.inserted
    · rw [hsame]
      exact hi.names
    · rw [hsame, hcatalog]
      exact hi.fresh
    · rw [hin, hcatalog, hsame]
      exact ⟨hk, rfl, rfl, rfl, rfl⟩
  · intro effect log h t
    exact ⟨rfl, (h t.store).1, by rw [filed_inl, (h t.store).2]⟩

/-! ## The section, command by command -/

omit [DecidableEq ι] in
theorem triple_read {β : Type} {reply : Catalog ι → β} {A : Assertion (Lobby ι) (LobbyEvent ι)}
    {Q : β → Assertion (Lobby ι) (LobbyEvent ι)} (hQ : ∀ b, (retries batchId).Stable i (Q b))
    (h : ∀ t es, Lobby.Once batchId t es → A t es → Q (reply t.store.catalog) t es) :
    (retries batchId).Triple (Sections.apartWith clean) i (outside (onCatalog (query reply))) A Q := by
  change Triple _ _ _ (call (fun t : Lobby ι => reply t.store.catalog) id) A Q
  refine triple_call (fun t es hi ha => ⟨hi, fun k _ hk => ⟨hk, rfl, rfl, rfl, rfl⟩, h t es hi ha⟩) hQ

/-- The caller is inside and has written nothing. -/
abbrev Entered (batchId : BatchId) (i : ι) (status : BatchStatus) : Assertion (Lobby ι) (LobbyEvent ι) :=
  fun t _ => Lobby.Holds batchId i none [] status t

/-- The batch's status is read as it is committed, and stays so. -/
theorem triple_ownedBatch (username : String) :
    (retries batchId).Triple inTurns i (outside (onCatalog (ownedBatch i batchId username)))
      (fun t es => ∃ status, Entered batchId i status t es)
      fun answer t es => ∃ status, Entered batchId i status t es ∧
        ∀ batch, answer = some batch → batch.1.status = status := by
  refine triple_read (fun answer => ?_) ?_
  · intro j hj t es t' es' hi hi' hg ⟨status, h, hanswer⟩
    exact ⟨status, stable_holds j hj t es t' es' hi hi' hg h, hanswer⟩
  · intro t es _ ⟨status, h⟩
    refine ⟨status, h, fun batch hbatch => ?_⟩
    split at hbatch
    · obtain rfl := Option.some.inj hbatch
      have hsees : t.store.catalog.db.batches.sees i batchId =
          t.store.catalog.db.batches.committed batchId := by
        refine Table.sees_of_not_draft fun row hrow => ?_
        rw [h.draft] at hrow
        cases hrow
      rw [hsees]
      exact h.committed
    · cases hbatch

omit [DecidableEq ι] in
theorem answers_copyFailed (settings : UploadSettings) (request : RetryCall)
    (megapixels : JobId → Option ℚ) (failed : List CurrentPage) :
    (copyFailed (ι := ι) settings request megapixels failed).Answers
      fun answer => answer.1.Sublist failed := by
  induction failed with
  | nil => exact List.Sublist.refl _
  | cons old failed ih =>
    intro s
    refine ih.bind fun answer hanswer => ?_
    change (if _ then _ else _ : List CurrentPage × List Text).1.Sublist _
    split
    · exact hanswer.cons_cons old
    · exact hanswer.cons old

omit [DecidableEq ι] in
theorem each_tableless_copyFailed (settings : UploadSettings) (request : RetryCall)
    (megapixels : JobId → Option ℚ) (failed : List CurrentPage) :
    (copyFailed (ι := ι) settings request megapixels failed).Each Tableless := by
  induction failed with
  | nil => exact each_pure _
  | cons old failed ih =>
    refine Each.bind (each_call fun s => ⟨?_, rfl⟩) fun _ => ih.bind fun _ => each_pure _
    split <;> rfl

/-- The lobby after a command on the tables. -/
def Lobby.withCatalog (c : Catalog ι) (t : Lobby ι) : Lobby ι :=
  t.put { t.store with catalog := c }

/-- How the lobby notes rows that were committed. -/
def noteFiled (jobs : List Filed) : List (LobbyEvent ι) := (jobs.map .inl).map .inl

omit [DecidableEq ι] in
@[simp] theorem filed_noteFiled (jobs : List Filed) : filed (noteFiled (ι := ι) jobs) = jobs := by
  unfold noteFiled
  rw [filed_inl, List.filterMap_map]
  exact List.filterMap_some

/-- A command on the tables by who is inside. -/
theorem triple_inside {β : Type} {ready : Catalog ι → Bool} {log : Catalog ι → List Filed}
    {reply : Catalog ι → β} {effect : Catalog ι → Catalog ι}
    {A : Assertion (Lobby ι) (LobbyEvent ι)} {Q : β → Assertion (Lobby ι) (LobbyEvent ι)}
    (hin : ∀ t es, A t es → t.inside batchId = some i)
    (h : ∀ (t : Lobby ι) es, Lobby.Once batchId t es → A t es →
      Lobby.Once batchId (t.withCatalog (effect t.store.catalog))
          (es ++ noteFiled (log t.store.catalog)) ∧
        Q (reply t.store.catalog) (t.withCatalog (effect t.store.catalog))
          (es ++ noteFiled (log t.store.catalog)))
    (hQ : ∀ b, (retries batchId).Stable i (Q b)) :
    (retries batchId).Triple inTurns i (outside (onCatalog (await ready log reply effect))) A Q := by
  change Triple _ _ _ (await (fun t : Lobby ι => ready t.store.catalog)
    (fun t => noteFiled (log t.store.catalog)) (fun t => reply t.store.catalog)
    fun t => t.withCatalog (effect t.store.catalog)) A Q
  refine triple_await (fun t es hi ha _ _ => ?_) hQ
  obtain ⟨hinv, hq⟩ := h t es hi ha
  exact ⟨hinv, Lobby.civil_of_inside (hin t es ha), hq⟩

/-- The batch is written by who is inside. -/
theorem triple_updateBatch {status : BatchStatus} (row : BatchRow → BatchRow)
    (columns : BatchColumns → BatchColumns) (hrow : ∀ r, (row r).status ≠ .finished) :
    (retries batchId).Triple inTurns i (outside (onCatalog (updateBatch i batchId row columns)))
      (Entered batchId i status) fun _ t _ => ∃ written : BatchRow, written.status ≠ .finished ∧
        Lobby.Holds batchId i (some written) [] status t := by
  refine triple_inside (fun t es h => h.inside) (fun t es hi h => ?_) fun _ => ?_
  · rw [noteFiled, List.map_nil, List.map_nil, List.append_nil]
    have hdraft : (t.store.catalog.updateBatch i batchId row columns).db.batches.draft batchId =
        some (i, row (t.store.catalog.db.batches.sees i batchId)) := Table.draft_write_self
    refine ⟨⟨fun k r hk => ?_, hi.inserted, hi.names, hi.fresh⟩, _, hrow _, h.inside, hdraft,
      h.inserted, h.committed⟩
    obtain ⟨rfl, -⟩ := Prod.mk.inj (Option.some.inj (hdraft.symm.trans hk))
    exact h.inside
  · intro j hj t es t' es' hi hi' hg ⟨written, hwritten, h⟩
    exact ⟨written, hwritten, stable_holds j hj t es t' es' hi hi' hg h⟩

theorem triple_insertJobs {status : BatchStatus} {written : BatchRow} (jobs : List NewJob) :
    (retries batchId).Triple inTurns i (outside (onCatalog (insertJobs i jobs)))
      (fun t _ => Lobby.Holds batchId i (some written) [] status t)
      fun _ t _ => Lobby.Holds batchId i (some written) jobs status t := by
  refine triple_inside (fun t es h => h.inside) (fun t es hi h => ?_) fun _ => stable_holds
  rw [noteFiled, List.map_nil, List.map_nil, List.append_nil]
  refine ⟨⟨hi.drafts, fun k hk => ?_, hi.names, hi.fresh⟩, h.inside, h.draft, ?_, h.committed⟩
  · by_cases hki : k = i
    · subst hki
      exact h.inside
    · refine hi.inserted k ?_
      change Function.update t.store.catalog.inserted i _ k ≠ [] at hk
      rwa [Function.update_of_ne hki] at hk
  · change Function.update t.store.catalog.inserted i _ i = jobs
    rw [Function.update_self, h.inserted, List.nil_append]

/-- The commit files the new jobs, each for another page. -/
theorem triple_commit {written : BatchRow} {jobs : List NewJob} (hwritten : written.status ≠ .finished)
    (hjobs : (jobs.map fun job => job.columns.sourceName).Nodup) :
    (retries batchId).Triple inTurns i (outside (onCatalog (commitCatalog i)))
      (fun t _ => Lobby.Holds batchId i (some written) jobs .finished t)
      fun _ t es => ∃ status, Entered batchId i status t es := by
  refine triple_inside (fun t es h => h.inside) (fun t es hi h => ?_) fun _ => ?_
  · have hfiled : filed (es ++ noteFiled ((t.store.catalog.inserted i).map fun job =>
        (job.id, job.columns.sourceName))) = jobs.map fun job => (job.id, job.columns.sourceName) := by
      rw [Lobby.filed_append, filed_noteFiled, hi.fresh h.committed, h.inserted, List.nil_append]
    have hbatches : (t.store.catalog.commit i).db.batches =
        t.store.catalog.db.batches.commit i := rfl
    have hstatus : ((t.store.catalog.commit i).db.batches.committed batchId) = written := by
      rw [hbatches, Table.committed_commit]
      exact Table.sees_of_draft h.draft
    have hinserted : ∀ k, (t.store.catalog.commit i).inserted k =
        Function.update t.store.catalog.inserted i [] k := fun _ => rfl
    refine ⟨⟨fun k row hk => ?_, fun k hk => ?_, ?_, fun hfinished => ?_⟩, written.status,
      h.inside, ?_, ?_, congrArg _ hstatus⟩
    · exact hi.drafts k row (Table.draft_commit.mp hk).1
    · refine hi.inserted k fun hnil => hk ?_
      change (t.store.catalog.commit i).inserted k = []
      rw [hinserted, Function.update_apply, hnil, ite_self]
    · rw [hfiled, List.map_map]
      exact hjobs
    · change ((t.store.catalog.commit i).db.batches.committed batchId).status = _ at hfinished
      rw [hstatus] at hfinished
      exact absurd hfinished hwritten
    · change (t.store.catalog.commit i).db.batches.draft batchId = none
      rw [hbatches]
      refine Option.eq_none_iff_forall_ne_some.mpr fun d hd => ?_
      obtain ⟨hd', hne⟩ := Table.draft_commit.mp hd
      exact hne (Prod.mk.inj (Option.some.inj (hd'.symm.trans h.draft))).1
    · change (t.store.catalog.commit i).inserted i = []
      rw [hinserted, Function.update_self]
  · intro j hj t es t' es' hi hi' hg ⟨status, h⟩
    exact ⟨status, stable_holds j hj t es t' es' hi hi' hg h⟩

/-- From the read of the status to the commit. -/
theorem triple_reopenBatch (settings : UploadSettings) (request : RetryCall) :
    (retries batchId).Triple inTurns i (outside (reopenBatch settings batchId request i))
      (fun t es => ∃ status, Entered batchId i status t es)
      fun _ t es => ∃ status, Entered batchId i status t es := by
  unfold reopenBatch
  rw [outside_bind]
  refine (triple_ownedBatch request.username).bind fun answer => ?_
  rcases answer with - | ⟨row, batch⟩
  · exact fun t es _ ⟨status, h, _⟩ => ⟨status, h⟩
  dsimp only
  split
  · exact fun t es _ ⟨status, h, _⟩ => ⟨status, h⟩
  next hstatus =>
  rw [ne_eq, not_not] at hstatus
  -- nobody else changes the batch from here to the commit
  suffices hopen : (retries batchId).Triple inTurns i (outside _) (Entered batchId i .finished)
      fun _ t es => ∃ status, Entered batchId i status t es by
    refine hopen.imp (fun t es _ ⟨status, h, hrow⟩ => ?_) fun _ _ _ h => h
    have hrow' : row.status = status := hrow _ rfl
    rwa [← hrow', hstatus] at h
  rw [outside_bind]
  have hpages : (retries batchId).Triple inTurns i (outside (onCatalog (batchPages i batchId)))
      (Entered batchId i .finished) fun pages t es =>
        (pages.map CurrentPage.sourceName).Nodup ∧ Entered batchId i .finished t es := by
    refine triple_read (fun pages => ?_) fun t es _ h => ⟨?_, h⟩
    · exact Stable.and (fun _ _ _ _ _ _ _ _ _ h => h) stable_holds
    · rw [Catalog.names_currentPages]
      exact Catalog.nodup_sourceNames
  refine hpages.bind fun pages => triple_of_and fun hnames => ?_
  rw [outside_bind]
  refine (triple_read (fun _ => stable_holds) fun t es _ h => h).bind fun megapixels => ?_
  rw [outside_bind]
  refine ((triple_tableless stable_holds (fun t t' es es' hin hcatalog h => ?_)
    (each_tableless_copyFailed settings request megapixels _)).answers
      (answers_copyFailed settings request megapixels _).zoom).bind fun copied =>
        triple_of_and fun hcopied => ?_
  · exact ⟨hin ▸ h.inside, hcatalog ▸ h.draft, hcatalog ▸ h.inserted, hcatalog ▸ h.committed⟩
  obtain ⟨retried, expired⟩ := copied
  dsimp only at hcopied ⊢
  have hretried : (retried.map CurrentPage.sourceName).Nodup :=
    hnames.sublist ((hcopied.trans List.filter_sublist).map _)
  split
  · exact fun t es _ h => ⟨_, h⟩
  rw [outside_bind]
  refine (triple_updateBatch _ _ fun r => by simp).bind fun _ => ?_
  refine triple_of_exists fun written => triple_of_and fun hwritten => ?_
  rw [outside_bind]
  refine (triple_insertJobs _).bind fun _ => ?_
  rw [outside_bind]
  refine (triple_commit hwritten ?_).bind fun _ => fun _ _ _ h => h
  rw [List.map_map]
  exact hretried

theorem each_tableless_requeueRetried (request : RetryCall) (reopened : Reopened) :
    (requeueRetried batchId request i reopened).Each Tableless :=
  Each.bind (each_call fun _ => ⟨rfl, rfl⟩) fun _ => (each_tableless_redis _).bind fun _ =>
    (each_tableless_redis _).bind fun _ => each_pure _

theorem triple_afterReopen (request : RetryCall) (answer : Except RetryAnswer Reopened) :
    (retries batchId).Triple inTurns i (outside (afterReopen batchId i request answer))
      (fun _ _ => True) fun _ _ _ => True := by
  refine triple_tableless stable_true (fun _ _ _ _ _ _ _ => trivial) ?_
  cases answer with
  | error answer => exact each_pure _
  | ok reopened => exact (each_tableless_requeueRetried request reopened).map _

theorem triple_retrier (settings : UploadSettings) (requests : List RetryCall) :
    (retries batchId).Triple inTurns i (retrier settings batchId i requests) (fun _ _ => True)
      fun _ _ _ => True := by
  induction requests with
  | nil => exact fun _ _ _ _ => trivial
  | cons request requests ih =>
    refine Triple.bind (P := fun _ _ _ => True) ?_ fun answer =>
      (triple_afterReopen request answer).bind fun _ => ih
    refine Sections.triple_fence (K := retries batchId)
      (fun _ _ _ _ _ _ h h' => Lobby.Civil.trans h h') (fun _ => stable_true) ?_ ?_
      (fun answer h => ?_) (triple_reopenBatch settings request)
    · -- who leaves has written nothing
      intro answer t es hi ⟨status, h⟩
      refine ⟨⟨fun k row hk => ?_, fun k hk => ?_, hi.names, hi.fresh⟩,
        Lobby.civil_of_inside h.inside, trivial⟩
      · exact absurd (h.draft.symm.trans hk) (by simp)
      · have hki : k = i := Option.some.inj ((hi.inserted k hk).symm.trans h.inside)
        rw [hki] at hk
        exact absurd h.inserted hk
    · intro t es hi _ hnone
      have hfiled : filed (es ++ [(.inr batchId : LobbyEvent ι)]) = filed es := by
        rw [Lobby.filed_append]
        exact List.append_nil _
      have hdraft : t.store.catalog.db.batches.draft batchId = none := by
        refine Option.eq_none_iff_forall_ne_some.mpr fun d hd => ?_
        rw [hi.drafts d.1 d.2 hd] at hnone
        cases hnone
      have hinserted : ∀ k, t.store.catalog.inserted k = [] := by
        intro k
        by_contra hk
        rw [hi.inserted k hk] at hnone
        cases hnone
      refine ⟨⟨fun k row hk => ?_, fun k hk => absurd (hinserted k) hk, ?_, ?_⟩, fun k _ hk => ?_,
        _, Function.update_self .., hdraft, hinserted i, rfl⟩
      · exact absurd (hdraft.symm.trans hk) (by simp)
      · rw [hfiled]
        exact hi.names
      · rw [hfiled]
        exact hi.fresh
      · rw [hnone] at hk
        cases hk
    · cases h

/-! ## Any interleaving -/

variable {p q : Pool (Lobby ι) (LobbyEvent ι) ι}

/-- Nobody has begun to retry the batch. -/
structure Lobby.Untouched (batchId : BatchId) (t : Lobby ι) : Prop where
  drafts : t.store.catalog.db.batches.draft batchId = none
  inserted : ∀ k, t.store.catalog.inserted k = []

theorem once_hangUp {t : Lobby ι} {es : List (LobbyEvent ι)} (hi : t.Once batchId es) :
    (hangUp i t).Once batchId es ∧ t.Civil batchId i es (hangUp i t) es := by
  have hrollback : ∀ k row, (t.store.catalog.db.batches.rollback i).draft batchId = some (k, row) ↔
      t.store.catalog.db.batches.draft batchId = some (k, row) ∧ k ≠ i :=
    fun k row => Table.draft_rollback
  refine ⟨⟨fun k row hk => ?_, fun k hk => ?_, hi.names, hi.fresh⟩, fun k hki hk => ?_⟩
  · obtain ⟨hd, hne⟩ := (hrollback k row).mp hk
    exact Sections.inside_evict.mpr ⟨hi.drafts k row hd, hne⟩
  · change Function.update t.store.catalog.inserted i [] k ≠ [] at hk
    by_cases hki : k = i
    · rw [hki, Function.update_self] at hk
      exact absurd rfl hk
    · rw [Function.update_of_ne hki] at hk
      exact Sections.inside_evict.mpr ⟨hi.inserted k hk, hki⟩
  · refine ⟨Sections.inside_evict.mpr ⟨hk, hki⟩, rfl, ?_, Function.update_of_ne hki .., rfl⟩
    change (t.store.catalog.db.batches.rollback i).draft batchId = _
    refine Option.ext fun d => ?_
    rw [hrollback d.1 d.2]
    refine ⟨fun h => h.1, fun hd => ⟨hd, fun hne => hki ?_⟩⟩
    exact (Option.some.inj (hk.symm.trans (hi.drafts d.1 d.2 hd))).trans hne

/-- **As long as no call reads the batch's status between another call's read and its commit, each
page gets one new job at most.** -/
theorem page_retried_once {settings : UploadSettings}
    (hprocs : ∀ i c, p.procs i = some c → ∃ requests, c = retrier settings batchId i requests)
    (hstart : Lobby.Untouched batchId p.shared) (hnone : p.history = [])
    (hr : Pool.Run inTurns p q) (name : Text) :
    ((filed q.history).map Prod.snd).count name ≤ 1 := by
  have hsound : Pool.Sound inTurns (retries batchId) (fun _ _ _ => True) p := by
    refine ⟨⟨fun k row hk => ?_, fun k hk => absurd (hstart.inserted k) hk, ?_, ?_⟩,
      fun i c hi => ?_⟩
    · exact absurd (hstart.drafts.symm.trans hk) (by simp)
    · rw [hnone]
      exact List.nodup_nil
    · rw [hnone]
      exact fun _ => rfl
    · obtain ⟨requests, rfl⟩ := hprocs i c hi
      exact ⟨fun _ _ => True, trivial, stable_true, triple_retrier settings requests⟩
  have hclean : Pool.CleanOk inTurns (retries batchId (ι := ι)) := fun i t es hi => once_hangUp hi
  exact List.nodup_iff_count_le_one.mp (hsound.run hclean hr).inv.names name

end

/-! ## A page that is retried twice -/

def sampleUploads : UploadSettings where
  maxUploadBytes := 1000
  batchMaxPages := 10
  allowedExtensions := [['.', 'p']]
  lower := id

/-- A finished batch whose only page failed as job 1; its upload is still there. -/
def sampleFinished : ApiStores Bool where
  catalog :=
    { db :=
        { jobs := ⟨{1}, fun _ =>
            { username := "u", status := .failed, batchId := some "b", submittedAt := 0 },
            fun _ => none⟩
          batches := ⟨{"b"}, fun _ => { status := .finished, finishedAt := some 50 }, fun _ => none⟩ }
      batches := ⟨{"b"}, fun _ =>
        { username := "u", domain := "default", outputs := {"alto"}, total := 1 }, fun _ => none⟩
      pages := fun _ => { sourceName := ['1', '.', 'p'], fmt := "alto", outputs := {"alto"} } }
  incoming := {⟨"u", 1, ['.', 'p']⟩}

/-- Two clicks on retry. -/
def sampleRetries : Pool (Lobby Bool) (LobbyEvent Bool) Bool where
  shared := { store := sampleFinished }
  procs := fun i => some (retrier sampleUploads "b" i
    [{ username := "u", now := 100, jobId := fun _ => if i then 2 else 3, submitted := 100,
       stateTtl := 60 }])
  history := []

theorem sampleRetries_untouched : Lobby.Untouched "b" sampleRetries.shared := ⟨rfl, fun _ => rfl⟩

theorem sampleRetries_procs (i : Bool) (c : Prog (Lobby Bool) (LobbyEvent Bool) Unit)
    (h : sampleRetries.procs i = some c) : ∃ requests, c = retrier sampleUploads "b" i requests :=
  ⟨_, (Option.some.inj h).symm⟩

/-- Both calls find the page failed before either reopens the batch. -/
theorem page_retried_twice : ∃ q : Pool (Lobby Bool) (LobbyEvent Bool) Bool,
    Lobby.Untouched "b" sampleRetries.shared ∧
      (∀ i c, sampleRetries.procs i = some c → ∃ requests, c = retrier sampleUploads "b" i requests) ∧
        Pool.Run anyhow sampleRetries q ∧
          ((filed q.history).map Prod.snd).count ['1', '.', 'p'] = 2 := by
  obtain ⟨q, hq, htwice⟩ := Pool.exists_run_of_schedule (R := anyhow) (fun _ _ => trivial)
    (p := sampleRetries)
    (l := [true, false, true, false] ++ List.replicate 5 true ++ List.replicate 5 false)
    (P := fun q => ((filed q.history).map Prod.snd).count ['1', '.', 'p'] = 2) (by decide +kernel)
  exact ⟨q, sampleRetries_untouched, sampleRetries_procs, hq, of_decide_eq_true htwice⟩

/-- The second click comes after the first call's commit. -/
theorem page_retried_once_sample : ∃ q : Pool (Lobby Bool) (LobbyEvent Bool) Bool,
    (filed q.history = [(2, ['1', '.', 'p'])] ∧ q.ended false = true) ∧
      ((filed q.history).map Prod.snd).count ['1', '.', 'p'] ≤ 1 := by
  obtain ⟨q, hq, hended⟩ := Pool.exists_run_of_scheduleIf (R := inTurns) Sections.apart_of_free
    (p := sampleRetries) (l := List.replicate 7 true ++ [false])
    (P := fun q => filed q.history = [(2, ['1', '.', 'p'])] && q.ended false) (by decide +kernel)
  exact ⟨q, by simpa using hended,
    page_retried_once sampleRetries_procs sampleRetries_untouched rfl hq _⟩

end Taas

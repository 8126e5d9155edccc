import Taas.Routers.Upload

/-!
# A batch upload is all or nothing

* `UploadStores.Evolves` — what the tasks may do while the archive is read.
* `Loading` — the loop's invariant: every page so far has a task and a row.
* `triple_storeArchive` — what `_store_pages` leaves.
* `all_or_nothing_iff` — when it is all or nothing.
-/

namespace Taas

open Infra Infra.Prog Infra.Contract

variable {ι : Type} {settings : UploadSettings} {batch : Submission} {faults : UploadFaults}

/-! ## What is to be shown -/

/-- The members of an archive that are images. -/
def imageMembers (settings : UploadSettings) (members : List Member) : List Member :=
  members.filter fun member => !skips settings member

/-- The pages that some images become. -/
def pagesOf (settings : UploadSettings) (batch : Submission) (images : List Member) :
    List UploadedPage :=
  images.zipIdx.map fun image => batch.page settings image.2 image.1

/-- The job rows of some images. -/
def jobsOf (settings : UploadSettings) (batch : Submission) (images : List Member) :
    List (ℚ → NewJob) :=
  images.zipIdx.map fun image => batch.newJob (batch.page settings image.2 image.1) image.1

/-- The row is in the table, as it was inserted. -/
structure Catalog.Has (c : Catalog ι) (job : NewJob) : Prop where
  mem : job.id ∈ c.db.jobs.rows
  row : c.db.jobs.committed job.id = job.row
  columns : c.pages job.id = job.columns

/-- Every image is a page; it is uploaded, and its row is committed or in the session. -/
structure Complete (settings : UploadSettings) (batch : Submission) (stored : StoredPages)
    (unsaved : List (ℚ → NewJob)) (s : UploadStores ι) : Prop where
  pages : stored.pages = pagesOf settings batch (imageMembers settings batch.members)
  uploaded : ∀ page ∈ stored.pages, page.incomingPath batch.username ∈ s.api.incoming
  rows : ∀ job ∈ jobsOf settings batch (imageMembers settings batch.members),
    job ∈ unsaved ∨ ∃ now, s.api.catalog.Has (job now)

/-- No row of the batch, nor of its jobs. -/
structure Gone (batch : Submission) (s : UploadStores ι) : Prop where
  row : batch.id ∉ s.api.catalog.db.batches.rows
  columns : batch.id ∉ s.api.catalog.batches.rows
  jobs : ∀ k ∈ s.api.catalog.db.jobs.rows,
    (s.api.catalog.db.jobs.committed k).batchId ≠ some batch.id

/-- The batch's row is there. -/
def Opened (batch : Submission) (s : UploadStores ι) : Prop :=
  batch.id ∈ s.api.catalog.db.batches.rows

/-- `_store_pages` returned with all pages, or raised and left nothing. -/
def AllOrNothing (settings : UploadSettings) (batch : Submission) (s : UploadStores ι) : Prop :=
  match s.outcome with
  | none => False
  | some (.returned stored unsaved) => Complete settings batch stored unsaved s
  | some (.raised _ _) => Gone batch s

/-- The undo had pages to delete, and its storage call raised. -/
def UndoRaised (faults : UploadFaults) (s : UploadStores ι) : Prop :=
  ∃ error pages, s.outcome = some (.raised error pages) ∧ pages ≠ [] ∧ faults.deleteRaises = true

/-! ## The tasks -/

/-- What tasks do: uploads that run come to their ends. -/
structure UploadStores.Evolves (s s' : UploadStores ι) : Prop where
  catalog : s'.api.catalog = s.api.catalog
  outcome : s'.outcome = s.outcome
  incoming : s.api.incoming ⊆ s'.api.incoming
  tasks : ∀ k, s'.uploads.tasks k = s.uploads.tasks k ∨
    ∃ path, s.uploads.tasks k = some (.running path) ∧
      (s'.uploads.tasks k = some .failed ∨
        s'.uploads.tasks k = some (.stored path) ∧ path ∈ s'.api.incoming)

theorem evolves_put (k : Nat) (s : UploadStores ι) : s.Evolves (s.put faults k) := by
  unfold UploadStores.put
  split
  · next path hpath =>
    have hothers : ∀ (task : UploadTask) j, j ≠ k →
        (s.setTask k task).uploads.tasks j = s.uploads.tasks j :=
      fun task j hj => Function.update_of_ne hj ..
    split
    · refine ⟨rfl, rfl, Finset.Subset.refl _, fun j => ?_⟩
      by_cases hj : j = k
      · subst hj
        exact Or.inr ⟨path, hpath, Or.inl (Function.update_self ..)⟩
      · exact Or.inl (hothers _ j hj)
    · refine ⟨rfl, rfl, Finset.subset_insert .., fun j => ?_⟩
      by_cases hj : j = k
      · subst hj
        exact Or.inr ⟨path, hpath,
          Or.inr ⟨Function.update_self .., Finset.mem_insert_self ..⟩⟩
      · exact Or.inl (hothers _ j hj)
  · exact ⟨rfl, rfl, Finset.Subset.refl _, fun _ => Or.inl rfl⟩

/-- `_store_pages` may do anything, its tasks may do what tasks do. -/
def storing : Contract (UploadStores ι) (Filed ⊕ Note ι) (Option Nat) where
  inv _ _ := True
  guar client s _ s' _ := client.isSome → s.Evolves s'

theorem triple_uploadTask (k : Nat) :
    (storing (ι := ι)).Triple Regime.free (some k) (uploadTask faults k) (fun _ _ => True)
      fun _ _ _ => True := by
  refine Triple.bind (P := fun _ _ _ => True) (triple_await ?_ fun _ => stable_true) fun _ => ?_
  · exact fun s es _ _ _ _ => ⟨trivial, fun _ => evolves_put k s, trivial⟩
  · refine triple_call (fun s es _ _ => ⟨trivial, fun _ => ?_, trivial⟩) fun _ => stable_true
    exact ⟨rfl, rfl, Finset.Subset.refl _, fun _ => Or.inl rfl⟩

/-! ## What the tasks leave to the loop -/

/-- An assertion that no task falsifies. -/
def Undisturbed (B : UploadStores ι → Prop) : Prop := ∀ s s', s.Evolves s' → B s → B s'

/-- What is said of the store, whatever was logged. -/
abbrev ofStore (B : UploadStores ι → Prop) : Assertion (UploadStores ι) (Filed ⊕ Note ι) :=
  fun s _ => B s

theorem Undisturbed.stable {B : UploadStores ι → Prop} (hB : Undisturbed B) :
    storing.Stable none (ofStore B) := by
  intro j hj s es s' es' _ _ hg hs
  exact hB s s' (hg (Option.ne_none_iff_isSome.mp hj)) hs

/-- A triple of the loop. -/
abbrev Loads {α : Type} (p : UploadProg ι α) (A : UploadStores ι → Prop)
    (Q : α → UploadStores ι → Prop) : Prop :=
  storing.Triple Regime.free none p (ofStore A) fun a => ofStore (Q a)

variable {A : UploadStores ι → Prop}

theorem loads_await {β : Type} {ready : UploadStores ι → Bool} {reply : UploadStores ι → β}
    {effect : UploadStores ι → UploadStores ι} {Q : β → UploadStores ι → Prop}
    (h : ∀ s, A s → ready s = true → Q (reply s) (effect s)) (hQ : ∀ b, Undisturbed (Q b)) :
    Loads (await ready (fun _ => []) reply effect) A Q :=
  triple_await (fun s _ _ hs hr _ => ⟨trivial, fun h => absurd h (by simp), h s hs hr⟩)
    fun b => (hQ b).stable

theorem loads_act {effect : UploadStores ι → UploadStores ι} {Q : Unit → UploadStores ι → Prop}
    (h : ∀ s, A s → Q () (effect s)) (hQ : ∀ b, Undisturbed (Q b)) : Loads (act effect) A Q :=
  loads_await (fun s hs _ => h s hs) hQ

/-- A statement of the session. -/
theorem loads_statement {log : Catalog ι → List Filed} {effect : Catalog ι → Catalog ι}
    {Q : Unit → UploadStores ι → Prop}
    (h : ∀ s, A s →
      Q () { s with api := { s.api with catalog := effect s.api.catalog } })
    (hQ : ∀ b, Undisturbed (Q b)) :
    Loads (onApi (onCatalog (callLog log (fun _ => ()) effect))) A Q :=
  fun s _ _ hs _ _ => ⟨trivial, fun h => absurd h (by simp), ofStore (Q ()), h s hs, (hQ ()).stable,
    fun _ _ _ h => h⟩

/-! ## The rows that a commit adds -/

section

variable {c : Catalog ι} {job : NewJob}

theorem Catalog.Has.file_of_ne {new : NewJob} (h : c.Has job) (hne : job.id ≠ new.id) :
    (c.file [new]).Has job where
  mem := Finset.mem_insert_of_mem h.mem
  row := (Function.update_of_ne hne ..).trans h.row
  columns := (Function.update_of_ne hne ..).trans h.columns

theorem Catalog.has_file_one : (c.file [job]).Has job where
  mem := Finset.mem_insert_self ..
  row := Function.update_self ..
  columns := Function.update_self ..

/-- A row stays, unless another one of its id is added. -/
theorem Catalog.Has.file {jobs : List NewJob} (h : c.Has job)
    (hsame : ∀ new ∈ jobs, new.id = job.id → new = job) : (c.file jobs).Has job := by
  induction jobs generalizing c with
  | nil => exact h
  | cons new jobs ih =>
    change ((c.file [new]).file jobs).Has job
    refine ih ?_ fun other hother => hsame other (List.mem_cons_of_mem _ hother)
    by_cases hid : new.id = job.id
    · rw [hsame new List.mem_cons_self hid]
      exact has_file_one
    · exact h.file_of_ne (Ne.symm hid)

/-- The rows that are added are there. -/
theorem Catalog.has_file {jobs : List NewJob} (hmem : job ∈ jobs)
    (hsame : ∀ new ∈ jobs, new.id = job.id → new = job) : (c.file jobs).Has job := by
  induction jobs generalizing c with
  | nil => cases hmem
  | cons new jobs ih =>
    change ((c.file [new]).file jobs).Has job
    have hrest : ∀ other ∈ jobs, other.id = job.id → other = job :=
      fun other hother => hsame other (List.mem_cons_of_mem _ hother)
    rcases List.mem_cons.mp hmem with rfl | hmem
    · exact has_file_one.file hrest
    · exact ih hmem hrest

theorem Catalog.draft_file (jobs : List NewJob) : (c.file jobs).db.jobs.draft = c.db.jobs.draft := by
  induction jobs generalizing c with
  | nil => rfl
  | cons new jobs ih => exact (ih (c := c.file [new])).trans rfl

end

/-! ## The loop's invariant -/

section

variable (settings batch) (i : ι)

/-- An upload that was started, and not cancelled. -/
def Begun (path : IncomingPath) (s : UploadStores ι) : Option UploadTask → Prop
  | some (.running path') => path' = path
  | some (.stored path') => path' = path ∧ path ∈ s.api.incoming
  | some .failed => True
  | _ => False

/-- The images `done` were stored: the rows `unsaved` are in the session, and `inserted` those that
were sent to the database; the others are committed. -/
structure Loading (done : List Member) (unsaved : List (ℚ → NewJob)) (inserted : List NewJob)
    (s : UploadStores ι) : Prop where
  opened : Opened batch s
  idle : s.api.catalog.db.jobs.Idle i
  inserted : s.api.catalog.inserted i = inserted
  known : ∀ job ∈ unsaved, job ∈ jobsOf settings batch done
  rows : ∀ job ∈ jobsOf settings batch done,
    job ∈ unsaved ∨ ∃ now, s.api.catalog.Has (job now)
  tasks : ∀ k page, (pagesOf settings batch done)[k]? = some page →
    Begun (page.incomingPath batch.username) s (s.uploads.tasks k)

variable {settings batch i} {done : List Member} {unsaved : List (ℚ → NewJob)}
  {inserted : List NewJob} {s s' : UploadStores ι}

theorem UploadStores.Evolves.begun (h : s.Evolves s') {path : IncomingPath} {k : Nat}
    (hb : Begun path s (s.uploads.tasks k)) : Begun path s' (s'.uploads.tasks k) := by
  rcases h.tasks k with heq | ⟨path', hrunning, hends⟩
  · rw [heq]
    unfold Begun at *
    split at hb
    · exact hb
    · exact ⟨hb.1, h.incoming hb.2⟩
    · trivial
    · exact hb
  · rw [hrunning] at hb
    obtain rfl : path' = path := hb
    rcases hends with hfailed | ⟨hstored, hmem⟩
    · rw [hfailed]
      trivial
    · rw [hstored]
      exact ⟨rfl, hmem⟩

theorem undisturbed_opened : Undisturbed (Opened (ι := ι) batch) := by
  intro s s' h ho
  unfold Opened
  rw [h.catalog]
  exact ho

theorem undisturbed_loading : Undisturbed (Loading settings batch i done unsaved inserted) := by
  intro s s' h hl
  exact
    { opened := undisturbed_opened s s' h hl.opened
      idle := h.catalog ▸ hl.idle
      inserted := h.catalog ▸ hl.inserted
      known := hl.known
      rows := h.catalog ▸ hl.rows
      tasks := fun k page hpage => h.begun (hl.tasks k page hpage) }

theorem pagesOf_append (done : List Member) (member : Member) :
    pagesOf settings batch (done ++ [member]) =
      pagesOf settings batch done ++ [batch.page settings done.length member] := by
  simp [pagesOf, List.zipIdx_append]

theorem jobsOf_append (done : List Member) (member : Member) :
    jobsOf settings batch (done ++ [member]) = jobsOf settings batch done ++
      [batch.newJob (batch.page settings done.length member) member] := by
  simp [jobsOf, List.zipIdx_append]

theorem length_pagesOf (done : List Member) : (pagesOf settings batch done).length = done.length := by
  simp [pagesOf]

/-! ## The steps of the loop -/

/-- A member's upload is started and its row added, or an earlier upload had failed. -/
theorem loads_startUpload (member : Member) :
    Loads (startUpload done.length
        ((batch.page settings done.length member).incomingPath batch.username))
      (Loading settings batch i done unsaved []) fun started s => Opened batch s ∧
        (started = true → Loading settings batch i (done ++ [member])
          (unsaved ++ [batch.newJob (batch.page settings done.length member) member]) [] s) := by
  have hlast : ∀ b : Bool, Undisturbed fun s : UploadStores ι => Opened batch s ∧
      (b = true → Loading settings batch i (done ++ [member])
        (unsaved ++ [batch.newJob (batch.page settings done.length member) member]) [] s) :=
    fun b s s' h hs => ⟨undisturbed_opened s s' h hs.1, fun hb => undisturbed_loading s s' h (hs.2 hb)⟩
  refine Triple.bind (loads_await (Q := fun _ => Loading settings batch i done unsaved [])
    (fun s hs _ => ⟨hs.opened, hs.idle, hs.inserted, hs.known, hs.rows, hs.tasks⟩)
    fun _ => undisturbed_loading) fun _ => ?_
  refine Triple.bind (loads_await (Q := fun _ => Loading settings batch i done unsaved [])
    (fun s hs _ => hs) fun _ => undisturbed_loading) fun raised => ?_
  cases raised with
  | true => exact triple_pure fun s es _ hs => ⟨hs.opened, fun h => by cases h⟩
  | false =>
    refine Triple.bind (loads_act (Q := fun _ s => Opened batch s ∧ (true = true → _))
      (fun s hs => ⟨hs.opened, fun _ => ?_⟩) fun _ => hlast true) fun _ =>
        triple_pure fun s es _ hs => hs
    refine ⟨hs.opened, hs.idle, hs.inserted, ?_, ?_, fun k page hpage => ?_⟩
    · rw [jobsOf_append]
      intro job hjob
      exact List.mem_append.mpr ((List.mem_append.mp hjob).imp_left (hs.known job))
    · rw [jobsOf_append]
      intro job hjob
      rcases List.mem_append.mp hjob with hjob | hjob
      · exact (hs.rows job hjob).imp_left (List.mem_append_left _)
      · exact Or.inl (List.mem_append_right _ hjob)
    · rw [pagesOf_append] at hpage
      by_cases hk : k = done.length
      · -- the new task
        subst hk
        have hlen : done.length = (pagesOf settings batch done).length := (length_pagesOf done).symm
        rw [hlen, List.getElem?_concat_length] at hpage
        obtain rfl := Option.some.inj hpage
        rw [length_pagesOf]
        have hself : (s.setTask done.length (.running ((batch.page settings done.length
            member).incomingPath batch.username))).uploads.tasks done.length =
              some (.running ((batch.page settings done.length member).incomingPath
                batch.username)) := Function.update_self ..
        rw [hself]
        rfl
      · have hold : (pagesOf settings batch done)[k]? = some page := by
          obtain ⟨hlt, -⟩ := List.getElem?_eq_some_iff.mp hpage
          rw [List.length_append, length_pagesOf, List.length_singleton] at hlt
          rwa [List.getElem?_append_left (by rw [length_pagesOf]; omega)] at hpage
        have hother : (s.setTask done.length (.running ((batch.page settings done.length
            member).incomingPath batch.username))).uploads.tasks k = s.uploads.tasks k :=
          Function.update_of_ne hk ..
        rw [hother]
        exact hs.tasks k page hold

/-- Jobs of different images have different ids. -/
theorem eq_of_mem_jobsOf (hdistinct : ∀ k k', batch.jobId k = batch.jobId k' → k = k')
    {f g : ℚ → NewJob} (hf : f ∈ jobsOf settings batch done) (hg : g ∈ jobsOf settings batch done)
    {now now' : ℚ} (hid : (f now).id = (g now').id) : f = g := by
  obtain ⟨⟨member, k⟩, hk, rfl⟩ := List.mem_map.mp hf
  obtain ⟨⟨member', k'⟩, hk', rfl⟩ := List.mem_map.mp hg
  obtain rfl : k = k' := hdistinct k k' hid
  have hmember := List.mk_mem_zipIdx_iff_getElem?.mp hk
  have hmember' := List.mk_mem_zipIdx_iff_getElem?.mp hk'
  obtain rfl := Option.some.inj (hmember.symm.trans hmember')
  rfl

/-- When `finish` returns, every page is uploaded. -/
theorem loads_finishUploads :
    Loads (finishUploads done.length) (Loading settings batch i done unsaved [])
      fun finished s => Opened batch s ∧ (finished = true →
        Loading settings batch i done unsaved [] s ∧ ∀ page ∈ pagesOf settings batch done,
          page.incomingPath batch.username ∈ s.api.incoming) := by
  refine loads_await (fun s hs hready => ⟨hs.opened, fun hfinished => ⟨hs, fun page hpage => ?_⟩⟩)
    fun b s s' h hs => ⟨undisturbed_opened s s' h hs.1, fun hb => ?_⟩
  · obtain ⟨k, hk⟩ := List.mem_iff_getElem?.mp hpage
    have hlt : k < done.length := by
      obtain ⟨hlt, -⟩ := List.getElem?_eq_some_iff.mp hk
      rwa [length_pagesOf] at hlt
    have hbegun := hs.tasks k page hk
    have hraise : s.uploads.raiseFailed done.length = false := by simpa using hfinished
    rw [hraise, Bool.false_or] at hready
    have hnotRunning := List.all_eq_true.mp hready k (List.mem_range.mpr hlt)
    have hnotFailed := List.any_eq_false.mp hraise k (List.mem_range.mpr hlt)
    -- neither running nor failed, so it is stored
    cases htask : s.uploads.tasks k with
    | none =>
      rw [htask] at hbegun
      exact hbegun.elim
    | some task =>
      rw [htask] at hbegun hnotRunning hnotFailed
      cases task with
      | running path => simp [UploadTask.isRunning] at hnotRunning
      | stored path => exact hbegun.2
      | failed => simp [UploadTask.isFailed] at hnotFailed
      | cancelled => exact hbegun.elim
  · obtain ⟨hl, hup⟩ := hs.2 hb
    exact ⟨undisturbed_loading s s' h hl, fun page hpage => h.incoming (hup page hpage)⟩

variable [DecidableEq ι]

theorem Catalog.Has.commit {c : Catalog ι} {job : NewJob} (h : c.Has job)
    (hidle : c.db.jobs.Idle i) (hsame : ∀ new ∈ c.inserted i, new.id = job.id → new = job) :
    (c.commit i).Has job := by
  refine Has.file ⟨h.mem, ?_, h.columns⟩ hsame
  have hcommitted : (c.db.commit i).jobs.committed = c.db.jobs.committed :=
    Table.sees_of_idle hidle
  change (c.db.commit i).jobs.committed job.id = job.row
  rw [hcommitted]
  exact h.row

theorem idle_catalogCommit (c : Catalog ι) : (c.commit i).db.jobs.Idle i := by
  intro k row hdraft
  rw [Catalog.commit, Catalog.draft_file] at hdraft
  exact Table.idle_commit (t := c.db.jobs) k row hdraft

/-- The rows are committed, or lost with the session. -/
theorem Loading.commit (hdistinct : ∀ k k', batch.jobId k = batch.jobId k' → k = k') {now : ℚ}
    (h : Loading settings batch i done unsaved (unsaved.map fun job => job now) s) :
    Loading settings batch i done [] []
      { s with api := { s.api with catalog := s.api.catalog.commit i } } := by
  have hsame : ∀ job ∈ jobsOf settings batch done, ∀ now' : ℚ,
      ∀ new ∈ s.api.catalog.inserted i, new.id = (job now').id → new = job now := by
    intro job hjob now' new hnew hid
    rw [h.inserted] at hnew
    obtain ⟨f, hf, rfl⟩ := List.mem_map.mp hnew
    rw [eq_of_mem_jobsOf hdistinct (h.known f hf) hjob hid]
  refine ⟨h.opened, idle_catalogCommit _, Function.update_self .., by simp, ?_, h.tasks⟩
  intro job hjob
  refine Or.inr ?_
  by_cases hunsaved : job ∈ unsaved
  · refine ⟨now, Catalog.has_file ?_ (hsame job hjob now)⟩
    rw [h.inserted]
    exact List.mem_map_of_mem hunsaved
  · obtain ⟨now', hhas⟩ := (h.rows job hjob).resolve_left hunsaved
    refine ⟨now', hhas.commit h.idle fun new hnew hid => absurd ?_ hunsaved⟩
    rw [h.inserted] at hnew
    obtain ⟨f, hf, rfl⟩ := List.mem_map.mp hnew
    rwa [← eq_of_mem_jobsOf hdistinct (h.known f hf) hjob hid]

theorem loads_insertJobs (rows : List NewJob) :
    Loads (onApi (onCatalog (insertJobs i rows))) (Loading settings batch i done unsaved [])
      fun _ => Loading settings batch i done unsaved rows := by
  refine loads_statement (fun s hs => ?_) fun _ => undisturbed_loading
  refine ⟨hs.opened, hs.idle, ?_, hs.known, fun job hjob => ?_, hs.tasks⟩
  · dsimp only
    rw [Function.update_self, hs.inserted, List.nil_append]
  · exact (hs.rows job hjob).imp_right fun ⟨now, h⟩ => ⟨now, h.mem, h.row, h.columns⟩

theorem loads_commitCatalog (hdistinct : ∀ k k', batch.jobId k = batch.jobId k' → k = k')
    (now : ℚ) : Loads (onApi (onCatalog (commitCatalog i)))
      (Loading settings batch i done unsaved (unsaved.map fun job => job now))
      fun _ => Loading settings batch i done [] [] :=
  loads_statement (fun _ hs => hs.commit hdistinct) fun _ => undisturbed_loading

/-- A commit of the rows in the session; whatever happens, the batch's row stays. -/
theorem loads_commitRows (hdistinct : ∀ k k', batch.jobId k = batch.jobId k' → k = k') (now : ℚ)
    (reply : CommitReply) :
    Loads (commitRows i (unsaved.map fun job => job now) reply)
      (Loading settings batch i done unsaved []) fun raised s => Opened batch s ∧
        (raised = false → Loading settings batch i done [] [] s) := by
  cases reply with
  | ok =>
    exact (loads_insertJobs _).bind fun _ => (loads_commitCatalog hdistinct now).bind fun _ =>
      triple_pure fun s es _ hs => ⟨hs.opened, fun _ => hs⟩
  | raised =>
    exact (loads_insertJobs _).bind fun _ => triple_pure fun s es _ hs =>
      ⟨hs.opened, fun h => by cases h⟩
  | lost =>
    exact (loads_insertJobs _).bind fun _ => (loads_commitCatalog hdistinct now).bind fun _ =>
      triple_pure fun s es _ hs => ⟨hs.opened, fun h => by cases h⟩

/-! ## The loop -/

/-- What the loop leaves: all pages, uploaded and with their rows, or at least the batch's row. -/
def Loaded (settings : UploadSettings) (batch : Submission) (i : ι) (images : List Member) :
    Except (StoreError × List UploadedPage) (StoredPages × List (ℚ → NewJob)) →
      UploadStores ι → Prop
  | .error _, s => Opened batch s
  | .ok (stored, unsaved), s => stored.pages = pagesOf settings batch images ∧
      Loading settings batch i images unsaved [] s ∧
        ∀ page ∈ stored.pages, page.incomingPath batch.username ∈ s.api.incoming

omit [DecidableEq ι] in
theorem loads_error {images : List Member} {error : StoreError × List UploadedPage}
    {A : UploadStores ι → Prop} (hA : ∀ s, A s → Opened batch s) :
    Loads (pure (.error error)) A (Loaded settings batch i images) :=
  triple_pure fun s _ _ hs => hA s hs

theorem imageMembers_skip {member : Member} {members : List Member}
    (h : skips settings member = true) :
    imageMembers settings (member :: members) = imageMembers settings members :=
  List.filter_cons_of_neg (by simp [h])

theorem imageMembers_image {member : Member} {members : List Member}
    (h : ¬skips settings member = true) :
    imageMembers settings (member :: members) = member :: imageMembers settings members :=
  List.filter_cons_of_pos (by simpa using h)

theorem loads_storeMembers (hdistinct : ∀ k k', batch.jobId k = batch.jobId k' → k = k')
    (members : List Member) (read : Nat) (done : List Member) (unsaved : List (ℚ → NewJob))
    (skipped : List Text) :
    Loads (storeMembers settings batch faults i read members (pagesOf settings batch done) unsaved
        skipped) (Loading settings batch i done unsaved [])
      (Loaded settings batch i (done ++ imageMembers settings members)) := by
  induction members generalizing read done unsaved skipped with
  | nil =>
    unfold storeMembers
    refine Triple.ite (fun _ => loads_error fun _ hs => hs.opened) fun _ =>
      Triple.ite (fun _ => loads_error fun _ hs => hs.opened) fun _ => ?_
    rw [length_pagesOf]
    refine loads_finishUploads.bind fun finished => ?_
    cases finished with
    | false => exact loads_error fun s hs => hs.1
    | true =>
      refine triple_pure fun s es _ hs => ?_
      obtain ⟨hl, hup⟩ := hs.2 rfl
      rw [imageMembers, List.filter_nil, List.append_nil]
      exact ⟨rfl, hl, hup⟩
  | cons member members ih =>
    unfold storeMembers
    refine Triple.ite (fun _ => loads_error fun _ hs => hs.opened) fun _ =>
      Triple.ite (fun _ => loads_error fun _ hs => hs.opened) fun _ =>
        Triple.ite (fun hskip => ?_) fun himage =>
          Triple.ite (fun _ => loads_error fun _ hs => hs.opened) fun _ => ?_
    · rw [imageMembers_skip hskip]
      exact ih _ _ _ _
    · rw [imageMembers_image himage, List.append_cons]
      rw [length_pagesOf]
      refine (loads_startUpload member).bind fun started => ?_
      cases started with
      | false => exact loads_error fun s hs => hs.1
      | true =>
        have hadded : ∀ s : UploadStores ι, (Opened batch s ∧ (true = true →
            Loading settings batch i (done ++ [member]) (unsaved ++
              [batch.newJob (batch.page settings done.length member) member]) [] s)) →
            Loading settings batch i (done ++ [member]) (unsaved ++
              [batch.newJob (batch.page settings done.length member) member]) [] s :=
          fun s hs => hs.2 rfl
        rw [← pagesOf_append]
        refine Triple.ite (fun h => by cases h) fun _ => Triple.ite (fun _ => ?_) fun _ => ?_
        · refine Triple.bind ((loads_commitRows hdistinct _ _).imp (fun s _ _ => hadded s)
            fun _ _ _ h => h) fun raised => ?_
          cases raised with
          | true => exact loads_error fun s hs => hs.1
          | false =>
            exact (ih _ _ _ _).imp (fun s _ _ hs => hs.2 rfl)
              fun _ _ _ h => h
        · exact (ih _ _ _ _).imp (fun s _ _ => hadded s)
            fun _ _ _ h => h

/-! ## The undo -/

omit [DecidableEq ι] in
theorem onApi_bind {α β : Type} (p : ApiProg ι α) (f : α → ApiProg ι β) :
    onApi (p >>= f) = onApi p >>= fun a => onApi (f a) := zoom_bind p f

omit [DecidableEq ι] in
theorem undisturbed_gone : Undisturbed (Gone (ι := ι) batch) := by
  intro s s' h hs
  exact ⟨h.catalog ▸ hs.row, h.catalog ▸ hs.columns, h.catalog ▸ hs.jobs⟩

/-- The session was rolled back. -/
structure RolledBack (i : ι) (s : UploadStores ι) : Prop where
  idle : s.api.catalog.db.jobs.Idle i
  inserted : s.api.catalog.inserted i = []

omit [DecidableEq ι] in
theorem undisturbed_rolledBack : Undisturbed (RolledBack i) := by
  intro s s' h hs
  exact ⟨h.catalog ▸ hs.idle, h.catalog ▸ hs.inserted⟩

omit [DecidableEq ι] in
theorem Undisturbed.and {B B' : UploadStores ι → Prop} (hB : Undisturbed B) (hB' : Undisturbed B') :
    Undisturbed fun s => B s ∧ B' s :=
  fun s s' h hs => ⟨hB s s' h hs.1, hB' s s' h hs.2⟩

theorem loads_rollback {A : UploadStores ι → Prop} (hA : ∀ s, A s → Opened batch s) :
    Loads (onApi (onCatalog (rollbackCatalog i))) A
      fun _ s => Opened batch s ∧ RolledBack i s := by
  refine loads_statement (fun s hs => ⟨hA s hs, ?_, ?_⟩)
    fun _ => undisturbed_opened.and undisturbed_rolledBack
  · exact Table.idle_rollback (t := s.api.catalog.db.jobs)
  · exact Function.update_self ..

/-- The jobs go with the batch row. -/
theorem gone_deleteBatch {s : UploadStores ι} (h : RolledBack i s) :
    Gone batch { s with api := { s.api with
      catalog := s.api.catalog.deleteBatch i batch.id } } where
  row := Finset.notMem_erase _ _
  columns := Finset.notMem_erase _ _
  jobs := by
    intro k hk
    have hbatch := (Finset.mem_filter.mp hk).2
    rwa [Table.sees_of_idle h.idle] at hbatch

theorem Gone.commit {s : UploadStores ι} (hs : Gone batch s) (h : RolledBack i s) :
    Gone batch { s with api := { s.api with catalog := s.api.catalog.commit i } } := by
  have hcommit : s.api.catalog.commit i =
      { s.api.catalog with
        db := s.api.catalog.db.commit i
        batches := s.api.catalog.batches.commit i
        inserted := Function.update s.api.catalog.inserted i [] } := by
    rw [Catalog.commit, h.inserted]
    rfl
  refine ⟨?_, ?_, fun k hk => ?_⟩
  · rw [hcommit]
    exact hs.row
  · rw [hcommit]
    exact hs.columns
  · rw [hcommit] at hk ⊢
    have hcommitted : (s.api.catalog.db.commit i).jobs.committed =
        s.api.catalog.db.jobs.committed := Table.sees_of_idle h.idle
    change ((s.api.catalog.db.commit i).jobs.committed k).batchId ≠ some batch.id
    rw [hcommitted]
    exact hs.jobs k hk

/-- `_abandon` leaves no rows; if its storage call raises, it leaves the batch's. -/
theorem loads_abandonPages (pages : List UploadedPage) :
    Loads (abandonPages batch faults i pages) (Opened batch) fun raised s =>
      (raised = true ↔ pages ≠ [] ∧ faults.deleteRaises = true) ∧
        if raised then Opened batch s else Gone batch s := by
  unfold abandonPages
  refine Triple.ite (fun hraises => ?_) fun hraises => ?_
  · refine (loads_rollback fun _ h => h).bind fun _ => triple_pure fun s es _ hs => ⟨?_, hs.1⟩
    simpa using hraises
  · have hfalse : (false = true ↔ pages ≠ [] ∧ faults.deleteRaises = true) := by
      simpa using hraises
    simp only [abandon, onApi_bind, bind_assoc]
    refine (loads_rollback fun _ h => h).bind fun _ => ?_
    have hdelete : Loads (onApi (when (!pages.isEmpty)
        (deleteObjects (pages.map fun page => page.incomingPath batch.username))))
        (fun s : UploadStores ι => Opened batch s ∧ RolledBack i s) fun _ => RolledBack i := by
      unfold Prog.when
      split
      · exact fun s es _ hs _ _ => ⟨trivial, fun h => absurd h (by simp), ofStore (RolledBack i),
          ⟨hs.2.idle, hs.2.inserted⟩, undisturbed_rolledBack.stable, fun _ _ _ h => h⟩
      · exact triple_pure fun s es _ hs => hs.2
    refine hdelete.bind fun _ => ?_
    refine (loads_statement (Q := fun _ s => Gone batch s ∧ RolledBack i s)
      (fun s hs => ⟨gone_deleteBatch hs, hs.idle, hs.inserted⟩)
      fun _ => undisturbed_gone.and undisturbed_rolledBack).bind fun _ => ?_
    refine (loads_statement (Q := fun _ => Gone batch) (fun s hs => hs.1.commit hs.2)
      fun _ => undisturbed_gone).bind fun _ => triple_pure fun s es _ hs => ⟨hfalse, hs⟩

/-! ## The whole of it -/

/-- How `_store_pages` ends. -/
def Ends (settings : UploadSettings) (batch : Submission) (faults : UploadFaults)
    (s : UploadStores ι) : Prop :=
  match s.outcome with
  | none => False
  | some (.returned stored unsaved) => Complete settings batch stored unsaved s
  | some (.raised _ pages) =>
    if pages ≠ [] ∧ faults.deleteRaises = true then Opened batch s else Gone batch s

omit [DecidableEq ι] in
theorem undisturbed_ends : Undisturbed (Ends (ι := ι) settings batch faults) := by
  intro s s' h hs
  unfold Ends at *
  rw [h.outcome]
  split at hs
  · exact hs
  · next stored unsaved heq =>
    exact ⟨hs.pages, fun page hpage => h.incoming (hs.uploaded page hpage), h.catalog ▸ hs.rows⟩
  · split at hs
    · next hraised =>
      exact (if_pos hraised).mpr (undisturbed_opened s s' h hs)
    · next hraised => exact (if_neg hraised).mpr (undisturbed_gone s s' h hs)

theorem loads_storeArchive (hdistinct : ∀ k k', batch.jobId k = batch.jobId k' → k = k') :
    Loads (storeArchive settings batch faults i) (Loading settings batch i [] [] [])
      fun _ => Ends settings batch faults := by
  refine (loads_storeMembers hdistinct batch.members 0 [] [] []).bind fun result => ?_
  rcases result with ⟨error, pages⟩ | ⟨stored, unsaved⟩
  · refine Triple.bind (loads_act (Q := fun _ => Opened batch) (fun s hs => hs)
      fun _ => undisturbed_opened) fun _ => (loads_abandonPages pages).bind fun raised =>
        loads_act (fun s hs => ?_) fun _ => undisturbed_ends
    obtain ⟨hiff, hleft⟩ := hs
    change if _ then _ else _
    cases raised with
    | true =>
      rw [if_pos (hiff.mp rfl)]
      exact hleft
    | false =>
      rw [if_neg fun h => by cases hiff.mpr h]
      have hgone : Gone batch s := hleft
      exact ⟨hgone.row, hgone.columns, hgone.jobs⟩
  · refine loads_act (fun s hs => ?_) fun _ => undisturbed_ends
    obtain ⟨hpages, hl, hup⟩ := hs
    exact ⟨hpages, hup, fun job hjob => hl.rows job hjob⟩

/-- The session is clean, and the batch's row is committed. -/
structure Fresh (batch : Submission) (i : ι) (api : ApiStores ι) : Prop where
  opened : batch.id ∈ api.catalog.db.batches.rows
  idle : api.catalog.db.jobs.Idle i
  inserted : api.catalog.inserted i = []

/-- **A batch upload is all or nothing exactly if the undo did not fail to delete pages.** -/
theorem all_or_nothing_iff (hdistinct : ∀ k k', batch.jobId k = batch.jobId k' → k = k')
    {api : ApiStores ι} (hfresh : Fresh batch i api)
    {q : Pool (UploadStores ι) (Filed ⊕ Note ι) (Option Nat)}
    (hr : Pool.Run Regime.free (storingPool settings batch faults i api) q)
    (hend : q.ended none = true) :
    AllOrNothing settings batch q.shared ↔ ¬UndoRaised faults q.shared := by
  have hsound : Pool.Sound Regime.free storing
      (fun client s _ => client = none → Ends settings batch faults s)
      (storingPool settings batch faults i api) := by
    refine ⟨trivial, fun client c hc => ?_⟩
    cases client with
    | none =>
      obtain rfl := Option.some.inj hc
      refine ⟨ofStore (Loading settings batch i [] [] []), ?_, undisturbed_loading.stable, ?_⟩
      · exact ⟨hfresh.opened, hfresh.idle, hfresh.inserted, by simp, by simp [jobsOf],
          by simp [pagesOf]⟩
      · exact (loads_storeArchive hdistinct).imp (fun _ _ _ h => h) fun _ _ _ h _ => h
    | some k =>
      obtain rfl := Option.some.inj hc
      exact ⟨fun _ _ => True, trivial, stable_true,
        (triple_uploadTask k).imp (fun _ _ _ h => h) fun _ _ _ _ h => by cases h⟩
  have hclean : Pool.CleanOk (Regime.free (σ := UploadStores ι)) storing :=
    fun client s es _ => ⟨trivial, fun _ =>
      ⟨rfl, rfl, Finset.Subset.refl _, fun _ => Or.inl rfl⟩⟩
  have hends := (hsound.run hclean hr).post (Pool.procs_of_ended hend) rfl
  unfold Ends at hends
  unfold AllOrNothing UndoRaised
  split at hends
  · exact hends.elim
  · next heq => simp [heq, hends]
  · next error pages heq =>
    simp only [heq, Option.some.injEq, StoreOutcome.raised.injEq]
    split at hends
    · next hraised =>
      -- the rows stay, since the undo got no further than the storage call
      exact ⟨fun hgone => absurd hends hgone.row,
        fun h => absurd ⟨error, pages, ⟨rfl, rfl⟩, hraised⟩ h⟩
    · next hraised =>
      refine ⟨fun _ => ?_, fun _ => hends⟩
      rintro ⟨_, _, ⟨rfl, rfl⟩, h⟩
      exact hraised h

end

/-- A batch of one page; `1.png` is not empty. -/
def onePage : Submission where
  id := "b"
  username := "u"
  domain := "d"
  outputs := {"alto"}
  members := [{ name := ['1', '.', 'p', 'n', 'g'], size := 1, data := [0] }]
  imageMegapixels _ := 1
  jobId k := k
  now _ := 0
  submitted := 0
  stateTtl := 60

def pngUploads : UploadSettings where
  maxUploadBytes := 100
  batchMaxPages := 10
  allowedExtensions := [['.', 'p', 'n', 'g']]
  lower name := name

/-- The batch's row is committed, nothing else is there. -/
def openedBatch : ApiStores Unit where
  catalog := Catalog.insertBatch "b" {} { username := "u", domain := "d", outputs := {"alto"} }
    { db := ⟨⟨∅, fun _ => { username := "", submittedAt := 0 }, fun _ => none⟩,
        ⟨∅, fun _ => {}, fun _ => none⟩⟩
      batches := ⟨∅, fun _ => { username := "", domain := "", outputs := ∅ }, fun _ => none⟩
      pages := fun _ => { sourceName := [], fmt := "", outputs := ∅ } }

theorem openedBatch_fresh : Fresh onePage () openedBatch where
  opened := Finset.mem_insert_self ..
  idle := fun _ _ h => by cases h
  inserted := rfl

def StoreOutcome.isRaised : StoreOutcome → Bool
  | .returned _ _ => false
  | .raised _ _ => true

/-- Reading the archive raises after the first page, and so does the storage call of the undo. -/
theorem rows_stay : ∃ q : Pool (UploadStores Unit) (Filed ⊕ Note Unit) (Option Nat),
    Pool.Run Regime.free (storingPool pngUploads onePage
      { unreadable := fun read => read = 1, deleteRaises := true } () openedBatch) q ∧
        q.ended none = true ∧ ¬AllOrNothing pngUploads onePage q.shared := by
  obtain ⟨q, hq, hP⟩ := Pool.exists_run_of_schedule (R := Regime.free) (fun _ _ => trivial)
    (p := storingPool pngUploads onePage
      { unreadable := fun read => read = 1, deleteRaises := true } () openedBatch)
    (l := [none, none, none, some 0, some 0, none, none, none])
    (P := fun q => q.ended none && (q.shared.outcome.any StoreOutcome.isRaised &&
      decide ("b" ∈ q.shared.api.catalog.db.batches.rows)))
    (by decide +kernel)
  rw [Bool.and_eq_true, Bool.and_eq_true, decide_eq_true_iff] at hP
  obtain ⟨hended, hraised, hrow⟩ := hP
  refine ⟨q, hq, hended, fun hall => ?_⟩
  obtain ⟨outcome, heq, hraised⟩ := (Option.any_eq_true _ _).mp hraised
  unfold AllOrNothing at hall
  rw [heq] at hall
  cases outcome with
  | returned stored unsaved => cases hraised
  | raised error pages => exact hall.row hrow

/-- A batch of two pages. -/
def twoPages : Submission :=
  { onePage with members := onePage.members ++
      [{ name := ['2', '.', 'p', 'n', 'g'], size := 1, data := [0] }] }

/-- The first page is uploaded, the second upload fails, and everything is undone. -/
theorem all_or_nothing_sample : ∃ q : Pool (UploadStores Unit) (Filed ⊕ Note Unit) (Option Nat),
    q.ended none = true ∧ q.shared.outcome.any StoreOutcome.isRaised = true ∧
      q.ended (some 0) = true ∧ (q.shared.uploads.tasks 1).any UploadTask.isFailed = true ∧
        AllOrNothing pngUploads twoPages q.shared := by
  obtain ⟨q, hq, hP⟩ := Pool.exists_run_of_schedule (R := Regime.free) (fun _ _ => trivial)
    (p := storingPool pngUploads twoPages { uploadFails := fun k => k = 1 } () openedBatch)
    (l := [none, none, none, some 0, none, none, some 0, none, some 1] ++ List.replicate 7 none)
    (P := fun q => q.ended none && (q.shared.outcome.any StoreOutcome.isRaised &&
      (q.ended (some 0) && (q.shared.uploads.tasks 1).any UploadTask.isFailed)))
    (by decide +kernel)
  rw [Bool.and_eq_true, Bool.and_eq_true, Bool.and_eq_true] at hP
  obtain ⟨hended, hraised, hstored, hfailed⟩ := hP
  have hfresh : Fresh twoPages () openedBatch :=
    ⟨openedBatch_fresh.opened, openedBatch_fresh.idle, rfl⟩
  refine ⟨q, hended, hraised, hstored, hfailed,
    (all_or_nothing_iff (fun _ _ h => h) hfresh hq hended).mpr ?_⟩
  rintro ⟨error, pages, -, -, hdelete⟩
  cases hdelete

end Taas

import Mathlib.Algebra.BigOperators.Group.List.Basic
import Taas.Infra.Runs
import Taas.Properties.Retries
import Taas.Properties.Statements

/-!
# Batch accounting

An archive is submitted; then workers report outcomes of its pages, and it is retried, one call
after another.

* `Entry`, `Catalog.Lists` — the batch's rows as a ledger: one entry for each job, in the order
  in which they were created.
* `Chronicle` — the stores after each call, and the jobs created so far.
* `Chronicle.Accounts` — the ledger of a batch whose archive had these images.
* `adds_up_iff` — the counts add up, and every page is listed once with its newest job, if and
  only if the images' names are distinct.
-/

namespace Taas

open Infra Infra.Prog

/-! ## The ledger of a batch -/

/-- What nothing changes about the row of a page. -/
structure Entry where
  jobId : JobId
  sourceName : Text
  submittedAt : ℚ

def Entry.filed (e : Entry) : Filed := (e.jobId, e.sourceName)

def NewJob.entry (job : NewJob) : Entry := ⟨job.id, job.columns.sourceName, job.row.submittedAt⟩

/-- No update of a worker changes a row's batch or its submit time. -/
theorem RowUpdate.entry {writer : Writer} {cond : JobRow → Bool} {values : JobRow → JobRow}
    (h : RowUpdate writer cond values) (row : JobRow) :
    (values row).batchId = row.batchId ∧ (values row).submittedAt = row.submittedAt := by
  cases h <;> exact ⟨rfl, rfl⟩

section

variable {ι : Type} [DecidableEq ι] {i : ι} {batchId : BatchId} {c c' : Catalog ι}
  {L : List Entry}

namespace Catalog

/-- The versions of a row agree on what nothing changes. -/
def Steady (c : Catalog ι) : Prop :=
  ∀ k j row, c.db.jobs.draft k = some (j, row) → k ∈ c.db.jobs.rows ∧
    row.batchId = (c.db.jobs.committed k).batchId ∧
      row.submittedAt = (c.db.jobs.committed k).submittedAt

/-- The batch's rows are those of the ledger. -/
structure Lists (batchId : BatchId) (c : Catalog ι) (L : List Entry) : Prop where
  steady : c.Steady
  ids : (L.map Entry.jobId).Nodup
  rows : ∀ k, (k ∈ c.db.jobs.rows ∧ (c.db.jobs.committed k).batchId = some batchId) ↔
    k ∈ L.map Entry.jobId
  entries : ∀ e ∈ L, (c.db.jobs.committed e.jobId).submittedAt = e.submittedAt ∧
    (c.pages e.jobId).sourceName = e.sourceName

omit [DecidableEq ι] in
theorem steady_sees [DecidableEq ι] (h : c.Steady) (k : JobId) :
    (c.db.jobs.sees i k).batchId = (c.db.jobs.committed k).batchId ∧
      (c.db.jobs.sees i k).submittedAt = (c.db.jobs.committed k).submittedAt := by
  unfold Table.sees
  split
  · exact ⟨rfl, rfl⟩
  · next j row hd =>
    split
    · exact (h k j row hd).2
    · exact ⟨rfl, rfl⟩

/-- What two catalogs say about what nothing changes. -/
structure Same (c c' : Catalog ι) : Prop where
  rows : c'.db.jobs.rows = c.db.jobs.rows
  batchId : ∀ k, (c'.db.jobs.committed k).batchId = (c.db.jobs.committed k).batchId
  submittedAt : ∀ k, (c'.db.jobs.committed k).submittedAt = (c.db.jobs.committed k).submittedAt
  pages : c'.pages = c.pages
  steady : c'.Steady

omit [DecidableEq ι] in
theorem Lists.same (h : c.Lists batchId L) (hs : c.Same c') : c'.Lists batchId L where
  steady := hs.steady
  ids := h.ids
  rows k := by
    rw [hs.rows, hs.batchId]
    exact h.rows k
  entries e he := by
    rw [hs.submittedAt, hs.pages]
    exact h.entries e he

omit [DecidableEq ι] in
theorem same_of_eq (h : c.Steady) (hjobs : c'.db.jobs = c.db.jobs) (hpages : c'.pages = c.pages) :
    c.Same c' := by
  refine ⟨by rw [hjobs], fun k => by rw [hjobs], fun k => by rw [hjobs], hpages, ?_⟩
  unfold Steady
  rw [hjobs]
  exact h

omit [DecidableEq ι] in
theorem Same.trans {c'' : Catalog ι} (h : c.Same c') (h' : c'.Same c'') : c.Same c'' where
  rows := h'.rows.trans h.rows
  batchId k := (h'.batchId k).trans (h.batchId k)
  submittedAt k := (h'.submittedAt k).trans (h.submittedAt k)
  pages := h'.pages.trans h.pages
  steady := h'.steady

theorem same_commit (h : c.Steady) (hjobs : c'.db.jobs = c.db.jobs.commit i)
    (hpages : c'.pages = c.pages) : c.Same c' where
  rows := by rw [hjobs, Table.rows_commit]
  batchId k := by
    rw [hjobs, Table.committed_commit]
    exact (steady_sees h k).1
  submittedAt k := by
    rw [hjobs, Table.committed_commit]
    exact (steady_sees h k).2
  pages := hpages
  steady k j row hd := by
    rw [hjobs] at hd ⊢
    obtain ⟨hmem, hbatch, hsubmitted⟩ := h k j row (Table.draft_commit.mp hd).1
    rw [Table.rows_commit, Table.committed_commit]
    exact ⟨hmem, hbatch.trans (steady_sees h k).1.symm, hsubmitted.trans (steady_sees h k).2.symm⟩

theorem same_rollback (h : c.Steady) (hjobs : c'.db.jobs = c.db.jobs.rollback i)
    (hpages : c'.pages = c.pages) : c.Same c' where
  rows := by rw [hjobs, Table.rows_rollback]
  batchId k := by rw [hjobs, Table.committed_rollback]
  submittedAt k := by rw [hjobs, Table.committed_rollback]
  pages := hpages
  steady k j row hd := by
    rw [hjobs] at hd ⊢
    exact h k j row (Table.draft_rollback.mp hd).1

/-- A worker's statement leaves the ledger as it is. -/
theorem same_statement {W : Writer → Prop} {effect : Postgres ι → Postgres ι}
    {log : Postgres ι → List Statement} (h : c.Steady) (hs : RowStatement W i effect log) :
    c.Same { c with db := effect c.db } := by
  cases hs with
  | other hjobs => exact same_of_eq h (hjobs c.db) rfl
  | commit => exact same_commit h rfl rfl
  | rollback => exact same_rollback h rfl rfl
  | @update writer cond values jobId hupdate hw =>
    unfold Postgres.update
    split
    · next hmatch =>
      have hmem : jobId ∈ c.db.jobs.rows := by
        simp only [Postgres.matchesJob, Bool.and_eq_true, decide_eq_true_eq] at hmatch
        exact hmatch.1
      refine ⟨rfl, fun _ => rfl, fun _ => rfl, rfl, fun k j row hd => ?_⟩
      by_cases hk : k = jobId
      · subst hk
        have hdraft : some (i, values (c.db.jobs.sees i k)) = some (j, row) :=
          Table.draft_write_self.symm.trans hd
        obtain ⟨-, rfl⟩ := Prod.mk.inj (Option.some.inj hdraft)
        obtain ⟨hbatch, hsubmitted⟩ := hupdate.entry (c.db.jobs.sees i k)
        obtain ⟨hbatch', hsubmitted'⟩ := steady_sees (i := i) h k
        exact ⟨hmem, hbatch.trans hbatch', hsubmitted.trans hsubmitted'⟩
      · exact h k j row ((Table.draft_write_of_ne hk).symm.trans hd)
    · exact same_of_eq h rfl rfl

omit [DecidableEq ι] in
/-- One more row. -/
theorem Lists.file_one (h : c.Lists batchId L) {job : NewJob}
    (hjob : job.row.batchId = some batchId) (hnew : job.id ∉ c.db.jobs.rows) :
    (c.file [job]).Lists batchId (L ++ [job.entry]) := by
  have hnot : job.id ∉ L.map Entry.jobId := fun hmem => hnew ((h.rows job.id).mpr hmem).1
  have hcommitted : (c.file [job]).db.jobs.committed =
      Function.update c.db.jobs.committed job.id job.row := rfl
  have hpages : (c.file [job]).pages = Function.update c.pages job.id job.columns := rfl
  have hne : ∀ e ∈ L, e.jobId ≠ job.id := fun e he heq => hnot (heq ▸ List.mem_map_of_mem he)
  refine ⟨fun k j row hd => ?_, ?_, fun k => ?_, fun e he => ?_⟩
  · obtain ⟨hmem, hrest⟩ := h.steady k j row hd
    have hk : k ≠ job.id := fun heq => hnew (heq ▸ hmem)
    rw [hcommitted, Function.update_of_ne hk]
    exact ⟨Finset.mem_insert_of_mem hmem, hrest⟩
  · rw [List.map_append, List.nodup_append]
    refine ⟨h.ids, List.nodup_singleton _, fun a ha b hb => ?_⟩
    rw [List.map_singleton, List.mem_singleton] at hb
    rintro rfl
    rw [hb] at ha
    exact hnot ha
  · rw [List.map_append, List.mem_append, ← h.rows k, hcommitted]
    change (k ∈ insert job.id c.db.jobs.rows ∧ _) ↔ _ ∨ k ∈ [job.id]
    by_cases hk : k = job.id
    · subst hk
      simp [hjob]
    · simp [hk]
  · rw [hcommitted, hpages]
    rcases List.mem_append.mp he with he | he
    · rw [Function.update_of_ne (hne e he), Function.update_of_ne (hne e he)]
      exact h.entries e he
    · obtain rfl := List.mem_singleton.mp he
      have hid : job.entry.jobId = job.id := rfl
      rw [hid, Function.update_self, Function.update_self]
      exact ⟨rfl, rfl⟩

omit [DecidableEq ι] in
theorem file_cons (job : NewJob) (jobs : List NewJob) :
    c.file (job :: jobs) = (c.file [job]).file jobs := rfl

omit [DecidableEq ι] in
theorem Lists.file (h : c.Lists batchId L) {jobs : List NewJob}
    (hjobs : ∀ job ∈ jobs, job.row.batchId = some batchId) (hids : (jobs.map NewJob.id).Nodup)
    (hnew : ∀ job ∈ jobs, job.id ∉ c.db.jobs.rows) :
    (c.file jobs).Lists batchId (L ++ jobs.map NewJob.entry) := by
  induction jobs generalizing c L with
  | nil => simpa [Catalog.file] using h
  | cons job jobs ih =>
    rw [List.map_cons, List.nodup_cons] at hids
    have hone := h.file_one (hjobs job List.mem_cons_self) (hnew job List.mem_cons_self)
    have hrest := ih hone (fun j hj => hjobs j (List.mem_cons_of_mem _ hj)) hids.2 fun j hj hmem => by
      rcases Finset.mem_insert.mp hmem with heq | hmem
      · exact hids.1 (heq ▸ List.mem_map_of_mem hj)
      · exact hnew j (List.mem_cons_of_mem _ hj) hmem
    rw [file_cons, List.map_cons]
    rwa [List.append_assoc, List.singleton_append] at hrest

/-! ## What the listing shows of a ledger -/

theorem mem_batchJobs (h : c.Lists batchId L) {k : JobId} :
    k ∈ (c.batchJobs i batchId).map Prod.fst ↔ k ∈ L.map Entry.jobId := by
  rw [← h.rows k]
  simp only [batchJobs, List.mem_map, List.mem_filter, decide_eq_true_eq, mem_sorted,
    Finset.mem_val]
  constructor
  · rintro ⟨job, ⟨⟨k', hk', rfl⟩, hbatch⟩, rfl⟩
    exact ⟨hk', (steady_sees h.steady k').1 ▸ hbatch⟩
  · rintro ⟨hk, hbatch⟩
    exact ⟨(k, c.db.jobs.sees i k), ⟨⟨k, hk, rfl⟩, (steady_sees h.steady k).1.trans hbatch⟩, rfl⟩

theorem sees_of_mem_batchJobs {job : JobId × JobRow} (h : job ∈ c.batchJobs i batchId) :
    job.2 = c.db.jobs.sees i job.1 := by
  simp only [batchJobs, List.mem_filter, List.mem_map] at h
  obtain ⟨⟨k, -, rfl⟩, -⟩ := h
  rfl

theorem mem_sourceNames_of_lists (h : c.Lists batchId L) {name : Text} :
    name ∈ c.sourceNames i batchId ↔ name ∈ L.map Entry.sourceName := by
  rw [mem_sourceNames]
  constructor
  · rintro ⟨job, hjob, rfl⟩
    obtain ⟨e, he, hid⟩ := List.mem_map.mp ((mem_batchJobs h).mp (List.mem_map_of_mem hjob))
    rw [← hid, (h.entries e he).2]
    exact List.mem_map_of_mem he
  · intro hname
    obtain ⟨e, he, rfl⟩ := List.mem_map.mp hname
    obtain ⟨job, hjob, hid⟩ := List.mem_map.mp ((mem_batchJobs (i := i) h).mpr (List.mem_map_of_mem he))
    exact ⟨job, hjob, by rw [hid, (h.entries e he).2]⟩

/-- A later job of a page was submitted later. -/
def Ordered (L : List Entry) : Prop :=
  L.Pairwise fun e e' => e.sourceName = e'.sourceName → e.submittedAt < e'.submittedAt

/-- What the listing shows of a page is its last job. -/
theorem newest_eq_last (h : c.Lists batchId L) (hL : Ordered L) {name : Text}
    {job : JobId × JobRow} (hjob : c.newest i batchId name = some job) :
    ((L.filter fun e => e.sourceName = name).getLast?).map Entry.jobId = some job.1 := by
  obtain ⟨hmem, hname⟩ := mem_of_newest hjob
  obtain ⟨e, he, hid⟩ := List.mem_map.mp ((mem_batchJobs h).mp (List.mem_map_of_mem hmem))
  have hsees : ∀ {job' : JobId × JobRow} {e' : Entry}, job' ∈ c.batchJobs i batchId → e' ∈ L →
      e'.jobId = job'.1 → job'.2.submittedAt = e'.submittedAt := by
    intro job' e' hjob' he' hid'
    rw [sees_of_mem_batchJobs hjob', (steady_sees h.steady job'.1).2, ← hid', (h.entries e' he').1]
  have hename : e.sourceName = name := by
    rw [← (h.entries e he).2, hid, hname]
  have hefilter : e ∈ L.filter fun e => e.sourceName = name :=
    List.mem_filter.mpr ⟨he, by simpa using hename⟩
  obtain ⟨last, hlast⟩ := Option.ne_none_iff_exists'.mp
    (List.getLast?_eq_none_iff.not.mpr (List.ne_nil_of_mem hefilter))
  obtain ⟨earlier, hsplit⟩ := List.getLast?_eq_some_iff.mp hlast
  have hlastL : last ∈ L ∧ last.sourceName = name := by
    have hin : last ∈ L.filter fun e => e.sourceName = name := by simp [hsplit]
    simpa using hin
  -- the last job of the page is among those that the query chooses from
  obtain ⟨job', hjob', hid'⟩ := List.mem_map.mp
    ((mem_batchJobs (i := i) h).mpr (List.mem_map_of_mem hlastL.1))
  have hle : job'.2.submittedAt ≤ job.2.submittedAt := by
    refine List.le_of_mem_argmax (f := fun job : JobId × JobRow => job.2.submittedAt)
      (List.mem_filter.mpr ⟨hjob', ?_⟩) hjob
    rw [decide_eq_true_eq, hid', (h.entries last hlastL.1).2, hlastL.2]
  rw [hsees hjob' hlastL.1 hid'.symm, hsees hmem he hid] at hle
  rw [hlast, Option.map_some, Option.some.injEq, ← hid]
  rcases List.mem_append.mp (hsplit ▸ hefilter) with hearlier | hin
  · have hpair : Ordered (earlier ++ [last]) := by
      rw [← hsplit]
      exact List.Pairwise.sublist List.filter_sublist hL
    have hlt := (List.pairwise_append.mp hpair).2.2 e hearlier last (List.mem_singleton_self _)
      (hename.trans hlastL.2.symm)
    exact absurd hlt (not_lt.mpr hle)
  · rw [List.mem_singleton.mp hin]

/-- The counts of all statuses together. -/
def countedPages (counts : JobStatus → Nat) : Nat :=
  ([.queued, .running, .storing, .done, .failed].map counts).sum

omit [DecidableEq ι] in
theorem countedPages_eq_length (jobs : List (JobId × JobRow)) :
    countedPages (fun status => (jobs.filter fun job => job.2.status = status).length) =
      jobs.length := by
  induction jobs with
  | nil => rfl
  | cons job jobs ih =>
    rw [List.length_cons, ← ih]
    unfold countedPages
    cases h : job.2.status <;> simp [h] <;> omega

theorem countedPages_statusCounts :
    countedPages (c.statusCounts i batchId) = (c.sourceNames i batchId).length := by
  rw [← names_latestPages, List.length_map]
  exact countedPages_eq_length _

/-- The counts sum to the batch's total, and every uploaded page is listed once, with its newest
job: `created` are the jobs in the order in which they were created. -/
structure AddsUp (i : ι) (batchId : BatchId) (uploaded : List Text) (created : List Filed)
    (c : Catalog ι) : Prop where
  counts : countedPages (c.statusCounts i batchId) = (c.batches.committed batchId).total
  pages : ((c.currentPages i batchId).map CurrentPage.sourceName).Perm uploaded
  newest : ∀ page ∈ c.currentPages i batchId,
    ((created.filter fun job => job.2 = page.sourceName).getLast?).map Prod.fst = some page.jobId

omit [DecidableEq ι] in
theorem getLast?_filed (L : List Entry) (name : Text) :
    (((L.map Entry.filed).filter fun job => job.2 = name).getLast?).map Prod.fst =
      ((L.filter fun e => e.sourceName = name).getLast?).map Entry.jobId := by
  rw [List.filter_map, List.getLast?_map, Option.map_map]
  rfl

/-- **A ledger adds up exactly if the uploaded pages had distinct names.** -/
theorem Lists.addsUp_iff {uploaded : List Text} (h : c.Lists batchId L)
    (hnames : ∀ name, name ∈ L.map Entry.sourceName ↔ name ∈ uploaded)
    (htotal : (c.batches.committed batchId).total = uploaded.length)
    (hL : uploaded.Nodup → Ordered L) :
    c.AddsUp i batchId uploaded (L.map Entry.filed) ↔ uploaded.Nodup := by
  constructor
  · intro hadds
    have hpages := hadds.pages
    rw [names_currentPages] at hpages
    exact hpages.nodup_iff.mp nodup_sourceNames
  · intro hnodup
    have hperm : (c.sourceNames i batchId).Perm uploaded :=
      (List.perm_ext_iff_of_nodup nodup_sourceNames hnodup).mpr fun name =>
        (mem_sourceNames_of_lists h).trans (hnames name)
    refine ⟨?_, ?_, fun page hpage => ?_⟩
    · rw [countedPages_statusCounts, htotal]
      exact hperm.length_eq
    · rw [names_currentPages]
      exact hperm
    · obtain ⟨job, hjob, rfl⟩ := List.mem_map.mp hpage
      obtain ⟨name, -, hnewest⟩ := List.mem_filterMap.mp hjob
      dsimp only
      rw [getLast?_filed, (mem_of_newest hnewest).2]
      exact newest_eq_last h (hL hnodup) hnewest

/-- The tables when a transaction inserted the jobs and committed. -/
def commitWith (i : ι) (jobs : List NewJob) (c : Catalog ι) : Catalog ι :=
  commit i { c with inserted := Function.update c.inserted i (c.inserted i ++ jobs) }

theorem commitWith_eq {jobs : List NewJob} (hc : c.inserted i = []) : c.commitWith i jobs =
    ({ c with db := c.db.commit i, batches := c.batches.commit i
              inserted := Function.update (Function.update c.inserted i jobs) i [] }).file jobs := by
  unfold commitWith commit
  simp only [hc, List.nil_append, Function.update_self]

theorem Lists.commitWith (h : c.Lists batchId L) (hc : c.inserted i = []) {jobs : List NewJob}
    (hjobs : ∀ job ∈ jobs, job.row.batchId = some batchId) (hids : (jobs.map NewJob.id).Nodup)
    (hnew : ∀ job ∈ jobs, job.id ∉ c.db.jobs.rows) :
    (c.commitWith i jobs).Lists batchId (L ++ jobs.map NewJob.entry) := by
  rw [commitWith_eq hc]
  refine Lists.file (h.same ?_) hjobs hids hnew
  exact same_commit (i := i) h.steady rfl rfl

theorem inserted_commitWith (hc : ∀ j, c.inserted j = []) (jobs : List NewJob) (j : ι) :
    (c.commitWith i jobs).inserted j = [] := by
  rw [commitWith_eq (hc i)]
  change Function.update (Function.update c.inserted i jobs) i [] j = []
  rw [Function.update_idem]
  by_cases hj : j = i
  · rw [hj, Function.update_self]
  · rw [Function.update_of_ne hj]
    exact hc j

theorem rows_commitWith (hc : c.inserted i = []) {jobs : List NewJob} {k : JobId} :
    k ∈ (c.commitWith i jobs).db.jobs.rows ↔ k ∈ c.db.jobs.rows ∨ k ∈ jobs.map NewJob.id := by
  rw [commitWith_eq hc]
  have hfile : ∀ (jobs : List NewJob) (t : Table JobId JobRow ι),
      k ∈ (jobs.foldl (fun t job => t.add job.id job.row) t).rows ↔
        k ∈ t.rows ∨ k ∈ jobs.map NewJob.id := by
    intro jobs
    induction jobs with
    | nil => simp
    | cons job jobs ih =>
      intro t
      rw [List.foldl_cons, ih, List.map_cons, List.mem_cons]
      change k ∈ insert job.id t.rows ∨ _ ↔ _
      rw [Finset.mem_insert]
      tauto
  exact hfile jobs (c.db.jobs.commit i)

end Catalog

/-! ## One call after another -/

omit [DecidableEq ι] in
theorem run_onCatalog {α : Type} (p : CatalogProg ι α) (s : ApiStores ι) : run (onCatalog p) s =
    ((run p s.catalog).1, { s with catalog := (run p s.catalog).2 }) ∧
      (trace (onCatalog p) s).filterMap Sum.getLeft? = trace p s.catalog := by
  obtain ⟨hrun, htrace⟩ : run (onCatalog p) s =
      ((run p s.catalog).1, { s with catalog := (run p s.catalog).2 }) ∧
        trace (onCatalog p) s = (trace p s.catalog).map Sum.inl := by
    unfold onCatalog
    refine run_zoom_eq ?_ ?_ ?_ p s
    · exact fun _ _ => rfl
    · exact fun _ => rfl
    · exact fun _ _ _ => rfl
  refine ⟨hrun, ?_⟩
  rw [htrace, List.filterMap_map]
  exact List.filterMap_some

/-- The stores after some calls, and the jobs they created, in order. -/
structure Chronicle (ι : Type) where
  stores : ApiStores ι
  created : List Filed := []

namespace Chronicle

variable {h : Chronicle ι} {uploaded : List Text}

/-- After the program ran alone. -/
def after {α : Type} (p : ApiProg ι α) (h : Chronicle ι) : Chronicle ι where
  stores := (run p h.stores).2
  created := h.created ++ (trace p h.stores).filterMap Sum.getLeft?

omit [DecidableEq ι] in
theorem after_bind {α β : Type} (p : ApiProg ι α) (f : α → ApiProg ι β) (h : Chronicle ι) :
    h.after (p >>= f) = (h.after p).after (f (run p h.stores).1) := by
  unfold after
  rw [run_bind, trace_bind, List.filterMap_append, ← List.append_assoc]

omit [DecidableEq ι] in
theorem answer_bind {α β : Type} (p : ApiProg ι α) (f : α → ApiProg ι β) (h : Chronicle ι) :
    (run (p >>= f) h.stores).1 = (run (f (run p h.stores).1) (h.after p).stores).1 := by
  rw [run_bind]
  rfl

omit [DecidableEq ι] in
theorem after_onCatalog {α : Type} (p : CatalogProg ι α) (h : Chronicle ι) :
    h.after (onCatalog p) =
      ⟨{ h.stores with catalog := (run p h.stores.catalog).2 },
        h.created ++ trace p h.stores.catalog⟩ := by
  obtain ⟨hrun, htrace⟩ := run_onCatalog p h.stores
  unfold after
  rw [htrace, hrun]

omit [DecidableEq ι] in
theorem after_pure {α : Type} (a : α) (h : Chronicle ι) : h.after (pure a : ApiProg ι α) = h := by
  change (⟨h.stores, h.created ++ []⟩ : Chronicle ι) = h
  rw [List.append_nil]

omit [DecidableEq ι] in
theorem after_query {α : Type} (reply : Catalog ι → α) (h : Chronicle ι) :
    h.after (onCatalog (query reply)) = h := by
  change (⟨h.stores, h.created ++ []⟩ : Chronicle ι) = h
  rw [List.append_nil]

omit [DecidableEq ι] in
/-- What leaves the tables alone creates no job. -/
theorem after_tableless {α : Type} {p : ApiProg ι α} (hp : p.Each Tableless) (h : Chronicle ι) :
    (h.after p).stores.catalog = h.stores.catalog ∧ (h.after p).created = h.created := by
  have hrun := Each.run (I := fun s es => s.catalog = h.stores.catalog ∧
    es.filterMap Sum.getLeft? = []) (fun effect log s es hc hi => ?_) hp (s := h.stores) (e := [])
    ⟨rfl, rfl⟩
  · refine ⟨hrun.1, ?_⟩
    have hcreated := hrun.2
    rw [List.nil_append] at hcreated
    unfold after
    rw [hcreated, List.append_nil]
  · refine ⟨(hc s).1.trans hi.1, ?_⟩
    rw [List.filterMap_append, hi.2, (hc s).2, List.append_nil]

/-- The ledger of a batch whose archive had the pages `uploaded`. -/
structure Ledger (batchId : BatchId) (uploaded : List Text) (h : Chronicle ι)
    (L : List Entry) : Prop where
  lists : h.stores.catalog.Lists batchId L
  created : h.created = L.map Entry.filed
  inserted : ∀ j, h.stores.catalog.inserted j = []
  names : ∀ name, name ∈ L.map Entry.sourceName ↔ name ∈ uploaded
  total : (h.stores.catalog.batches.committed batchId).total = uploaded.length
  drafts : ∀ j columns, h.stores.catalog.batches.draft batchId = some (j, columns) →
    columns.total = uploaded.length
  ordered : uploaded.Nodup → Catalog.Ordered L

/-- It has one. -/
def Accounts (batchId : BatchId) (uploaded : List Text) (h : Chronicle ι) : Prop :=
  ∃ L, h.Ledger batchId uploaded L

theorem Accounts.addsUp_iff (hacc : h.Accounts batchId uploaded) :
    h.stores.catalog.AddsUp i batchId uploaded h.created ↔ uploaded.Nodup := by
  obtain ⟨L, hL⟩ := hacc
  rw [hL.created]
  exact hL.lists.addsUp_iff hL.names hL.total hL.ordered

omit [DecidableEq ι] in
/-- What is the same to the ledger. -/
theorem Accounts.same {h' : Chronicle ι} (hacc : h.Accounts batchId uploaded)
    (hsame : h.stores.catalog.Same h'.stores.catalog)
    (hbatches : h'.stores.catalog.batches = h.stores.catalog.batches)
    (hinserted : h'.stores.catalog.inserted = h.stores.catalog.inserted)
    (hcreated : h'.created = h.created) : h'.Accounts batchId uploaded := by
  obtain ⟨L, hL⟩ := hacc
  exact ⟨L, hL.lists.same hsame, hcreated.trans hL.created, by rw [hinserted]; exact hL.inserted,
    hL.names, by rw [hbatches]; exact hL.total, by rw [hbatches]; exact hL.drafts, hL.ordered⟩

omit [DecidableEq ι] in
theorem Accounts.tableless {α : Type} {p : ApiProg ι α} (hacc : h.Accounts batchId uploaded)
    (hp : p.Each Tableless) : (h.after p).Accounts batchId uploaded := by
  obtain ⟨hcatalog, hcreated⟩ := after_tableless hp h
  obtain ⟨L, hL⟩ := hacc
  refine Accounts.same ⟨L, hL⟩ ?_ (by rw [hcatalog]) (by rw [hcatalog]) hcreated
  exact Catalog.same_of_eq hL.lists.steady (by rw [hcatalog]) (by rw [hcatalog])

/-! ## A worker's call -/

theorem Accounts.worker {W : Writer → Prop} {p : WorkerProg ι Unit}
    (hacc : h.Accounts batchId uploaded) (hp : p.Each (WorkerStatement W i)) :
    (h.after (onStores p)).Accounts batchId uploaded := by
  obtain ⟨L, hL⟩ := hacc
  obtain ⟨hrun, htrace⟩ : run (onStores p) h.stores =
      ((run p h.stores.stores).1, h.stores.setStores (run p h.stores.stores).2) ∧
        trace (onStores p) h.stores = (trace p h.stores.stores).map Sum.inr := by
    unfold onStores
    refine run_zoom_eq ?_ ?_ ?_ p h.stores
    · exact fun _ _ => rfl
    · exact fun _ => rfl
    · exact fun _ _ _ => rfl
  have hsame := Each.run (I := fun (s : Stores ι) (_ : List (Note ι)) =>
    h.stores.catalog.Same { h.stores.catalog with db := s.db }) (fun effect log s es hc hi => ?_)
    hp (s := h.stores.stores) (e := []) (Catalog.same_of_eq hL.lists.steady rfl rfl)
  · have hafter : h.after (onStores p) =
        ⟨h.stores.setStores (run p h.stores.stores).2, h.created⟩ := by
      unfold after
      rw [htrace, hrun, List.filterMap_map]
      have hnone : (trace p h.stores.stores).filterMap
          (Sum.getLeft? ∘ (Sum.inr : Note ι → Filed ⊕ Note ι)) = [] :=
        List.filterMap_eq_nil_iff.mpr fun _ _ => rfl
      rw [hnone, List.append_nil]
    rw [hafter]
    exact Accounts.same ⟨L, hL⟩ hsame rfl rfl rfl
  · rcases hc with hdb | ⟨dbEffect, dbLog, hstatement, hdb, -⟩
    · rw [hdb s]
      exact hi
    · rw [hdb s]
      exact hi.trans (Catalog.same_statement hi.steady hstatement)

/-! ## A retry -/

/-- The new jobs of a retry: for some pages of the batch, with new uuids, and later than all. -/
structure Retried (batchId : BatchId) (request : RetryCall) (c : Catalog ι) (pages : List CurrentPage)
    (jobs : List NewJob) : Prop where
  ids : jobs.map NewJob.id = pages.map fun page => request.jobId page.jobId
  names : jobs.map (fun job => job.columns.sourceName) = pages.map CurrentPage.sourceName
  rows : ∀ job ∈ jobs, job.row.batchId = some batchId ∧ job.row.submittedAt = request.now

/-- The requests that can come: the transaction begins after the batch's jobs were submitted, and
the uuids are new. -/
structure Meets (batchId : BatchId) (request : RetryCall) (h : Chronicle ι) : Prop where
  later : ∀ k ∈ h.stores.catalog.db.jobs.rows,
    (h.stores.catalog.db.jobs.committed k).batchId = some batchId →
      (h.stores.catalog.db.jobs.committed k).submittedAt < request.now
  distinct : ∀ k k', request.jobId k = request.jobId k' → k = k'
  fresh : ∀ k, request.jobId k ∉ h.stores.catalog.db.jobs.rows

/-- Some pages of the batch get new jobs. -/
theorem Accounts.reopen {request : RetryCall} {pages : List CurrentPage} {jobs : List NewJob}
    {row : BatchRow → BatchRow} {h' : Chronicle ι}
    (hacc : h.Accounts batchId uploaded) (hmeets : h.Meets batchId request)
    (hpages : pages.Sublist (h.stores.catalog.currentPages i batchId))
    (hjobs : Retried batchId request h.stores.catalog pages jobs)
    (hcatalog : h'.stores.catalog = (h.stores.catalog.updateBatch i batchId row
      fun columns => { columns with archiveBuiltAt := none }).commitWith i jobs)
    (hcreated : h'.created = h.created ++ jobs.map fun job => job.entry.filed) :
    h'.Accounts batchId uploaded := by
  obtain ⟨L, hL⟩ := hacc
  have hopen : (h.stores.catalog.updateBatch i batchId row
      fun columns => { columns with archiveBuiltAt := none }).Lists batchId L :=
    hL.lists.same (Catalog.same_of_eq hL.lists.steady rfl rfl)
  have hnames : (pages.map CurrentPage.sourceName).Nodup := by
    refine List.Nodup.sublist (hpages.map _) ?_
    rw [Catalog.names_currentPages]
    exact Catalog.nodup_sourceNames
  have hpagenames : pages.map CurrentPage.sourceName =
      (pages.map CurrentPage.jobId).map fun k => (h.stores.catalog.pages k).sourceName := by
    rw [List.map_map]
    refine List.map_congr_left fun page hpage => ?_
    obtain ⟨job, -, rfl⟩ := List.mem_map.mp (hpages.subset hpage)
    rfl
  have hids : (jobs.map NewJob.id).Nodup := by
    have hpageids : (pages.map CurrentPage.jobId).Nodup := .of_map _ (hpagenames ▸ hnames)
    have hnew := hpageids.map_on (f := request.jobId) fun k _ k' _ hkk => hmeets.distinct k k' hkk
    rw [List.map_map] at hnew
    rwa [hjobs.ids]
  have hfresh : ∀ job ∈ jobs, job.id ∉ h.stores.catalog.db.jobs.rows := by
    intro job hjob
    have hid := hjobs.ids ▸ List.mem_map_of_mem (f := NewJob.id) hjob
    obtain ⟨page, -, hpage⟩ := List.mem_map.mp hid
    rw [← hpage]
    exact hmeets.fresh page.jobId
  have hentries : (jobs.map NewJob.entry).map Entry.sourceName =
      pages.map CurrentPage.sourceName := by
    rw [List.map_map, ← hjobs.names]
    rfl
  have hsees : (h.stores.catalog.batches.sees i batchId).total = uploaded.length := by
    unfold Table.sees
    split
    · exact hL.total
    · next j columns hd =>
      split
      · exact hL.drafts j columns hd
      · exact hL.total
  refine ⟨L ++ jobs.map NewJob.entry, ?_, ?_, ?_, fun name => ?_, ?_, ?_, fun hnodup => ?_⟩
  · rw [hcatalog]
    exact hopen.commitWith (hL.inserted i) (fun job hjob => (hjobs.rows job hjob).1) hids hfresh
  · rw [hcreated, hL.created, List.map_append, List.map_map]
    rfl
  · rw [hcatalog]
    exact Catalog.inserted_commitWith hL.inserted jobs
  · rw [List.map_append, List.mem_append, hentries, hL.names name, or_iff_left_iff_imp]
    intro hname
    have hlisted := (hpages.map CurrentPage.sourceName).subset hname
    rw [Catalog.names_currentPages] at hlisted
    exact (hL.names name).mp ((Catalog.mem_sourceNames_of_lists hL.lists).mp hlisted)
  · rw [hcatalog]
    change (Table.sees i (Table.write i batchId _ h.stores.catalog.batches) batchId).total = _
    rw [Table.sees_write_self]
    exact hsees
  · intro j columns hd
    rw [hcatalog] at hd
    obtain ⟨hd, hne⟩ := Table.draft_commit.mp hd
    have hself := Table.draft_write_self.symm.trans hd
    exact absurd (Prod.mk.inj (Option.some.inj hself)).1.symm hne
  · refine List.pairwise_append.mpr ⟨hL.ordered hnodup, ?_, fun e he e' he' _ => ?_⟩
    · have hdistinct : ((jobs.map NewJob.entry).map Entry.sourceName).Nodup := hentries ▸ hnames
      exact (List.pairwise_map.mp hdistinct).imp fun hne heq => absurd heq hne
    · -- the jobs of the batch were submitted before the retry began
      obtain ⟨job, hjob, rfl⟩ := List.mem_map.mp he'
      obtain ⟨hmem, hbatch⟩ := (hL.lists.rows e.jobId).mpr (List.mem_map_of_mem he)
      have hlater := hmeets.later e.jobId hmem hbatch
      rw [(hL.lists.entries e he).1] at hlater
      exact hlater.trans_eq (hjobs.rows job hjob).2.symm

theorem Accounts.reopenBatch {settings : UploadSettings} {request : RetryCall}
    (hacc : h.Accounts batchId uploaded) (hmeets : h.Meets batchId request) :
    (h.after (reopenBatch settings batchId request i)).Accounts batchId uploaded := by
  unfold Taas.reopenBatch
  rw [after_bind, show h.after (onCatalog (ownedBatch i batchId request.username)) = h from
    after_query _ h]
  rcases (run (onCatalog (ownedBatch i batchId request.username)) h.stores).1 with - | ⟨row, batch⟩
  · rwa [after_pure]
  dsimp only
  split
  · rwa [after_pure]
  rw [after_bind, show h.after (onCatalog (batchPages i batchId)) = h from after_query _ h]
  have hpages : (run (onCatalog (batchPages i batchId)) h.stores).1 =
      h.stores.catalog.currentPages i batchId := rfl
  rw [hpages, after_bind, show ∀ ids, h.after (onCatalog (selectMegapixels ids)) = h from
    fun ids => after_query _ h]
  generalize (run (onCatalog (selectMegapixels _)) h.stores).1 = megapixels
  rw [after_bind]
  have hquiet := each_tableless_copyFailed (ι := ι) settings request megapixels
    ((h.stores.catalog.currentPages i batchId).filter fun page => page.status = .failed)
  obtain ⟨hcatalog, hcreated⟩ := after_tableless hquiet h
  have hsublist := (answers_copyFailed (ι := ι) settings request megapixels
    ((h.stores.catalog.currentPages i batchId).filter fun page => page.status = .failed)).run
      h.stores
  have hcopied := hacc.tableless hquiet
  revert hsublist
  generalize (run (copyFailed settings request megapixels _) h.stores).1 = copied
  obtain ⟨retried, expired⟩ := copied
  intro hsublist
  generalize h.after (copyFailed settings request megapixels _) = h₁ at hcatalog hcreated hcopied ⊢
  dsimp only at hsublist ⊢
  split
  · rwa [after_pure]
  have hmeets₁ : h₁.Meets batchId request :=
    ⟨by rw [hcatalog]; exact hmeets.later, hmeets.distinct, by rw [hcatalog]; exact hmeets.fresh⟩
  rw [after_bind, after_onCatalog, after_bind, after_onCatalog, after_bind, after_onCatalog,
    after_pure]
  have hinserted : h₁.stores.catalog.inserted i = [] := by
    obtain ⟨L, hL⟩ := hcopied
    exact hL.inserted i
  have hjobs : Retried batchId request h₁.stores.catalog retried (retried.map fun page =>
      request.newJob batchId batch megapixels page.jobId page.sourceName) := by
    refine ⟨by rw [List.map_map]; rfl, by rw [List.map_map]; rfl, fun job hjob => ?_⟩
    obtain ⟨page, -, rfl⟩ := List.mem_map.mp hjob
    exact ⟨rfl, rfl⟩
  refine hcopied.reopen hmeets₁ (hcatalog ▸ hsublist.trans List.filter_sublist) hjobs rfl ?_
  change ((h₁.created ++ []) ++ []) ++ ((Function.update h₁.stores.catalog.inserted i
    (h₁.stores.catalog.inserted i ++ _) i).map _ ++ []) = _
  rw [Function.update_self, hinserted, List.nil_append, List.append_nil, List.append_nil,
    List.append_nil]
  rfl

/-- A retry that runs alone keeps the ledger. -/
theorem Accounts.retry {settings : UploadSettings} {request : RetryCall}
    (hacc : h.Accounts batchId uploaded) (hmeets : h.Meets batchId request) :
    (h.after (retryBatch settings batchId request i)).Accounts batchId uploaded := by
  unfold retryBatch
  rw [after_bind]
  refine (hacc.reopenBatch hmeets).tableless ?_
  split
  · exact each_pure _
  · exact each_tableless_requeueRetried _ _

/-! ## A submit -/

end Chronicle

/-- The names of the archive's images, in its order. -/
def imageNames (settings : UploadSettings) (members : List Member) : List Text :=
  (members.filter fun member => !(member.data.isEmpty || !planBatchMember settings member.name)).map
    Member.name

/-- The uuids of the batch and of its pages are new, and no transaction of the client is open. -/
structure Submission.New (batch : Submission) (c : Catalog ι) : Prop where
  steady : c.Steady
  unused : ∀ k ∈ c.db.jobs.rows, (c.db.jobs.committed k).batchId ≠ some batch.id
  distinct : ∀ k k', batch.jobId k = batch.jobId k' → k = k'
  fresh : ∀ k, batch.jobId k ∉ c.db.jobs.rows
  inserted : ∀ j, c.inserted j = []

namespace Chronicle

variable {h : Chronicle ι} {settings : UploadSettings} {batch : Submission} {names : List Text}
  {pages : Nat} {unsaved : List (ℚ → NewJob)}

/-- Between two members: so many pages are stored, with these names; the last of them are not
committed. -/
structure Storing (batch : Submission) (names : List Text) (pages : Nat)
    (unsaved : List (ℚ → NewJob)) (h : Chronicle ι) (L : List Entry) : Prop where
  lists : h.stores.catalog.Lists batch.id L
  created : h.created = L.map Entry.filed
  inserted : ∀ j, h.stores.catalog.inserted j = []
  pending : ∀ f ∈ unsaved, ∃ page member, f = batch.newJob page member
  ids : L.map Entry.jobId ++ unsaved.map (fun f => (f 0).id) = (List.range pages).map batch.jobId
  names : L.map Entry.sourceName ++ unsaved.map (fun f => (f 0).columns.sourceName) = names
  fresh : ∀ k, L.length ≤ k → batch.jobId k ∉ h.stores.catalog.db.jobs.rows

omit [DecidableEq ι] in
theorem Storing.unsaved_ids (hs : h.Storing batch names pages unsaved L) :
    unsaved.map (fun f => (f 0).id) =
      (List.range unsaved.length).map fun k => batch.jobId (L.length + k) := by
  have hids := hs.ids
  have hpages : pages = L.length + unsaved.length := by
    have hlength := congrArg List.length hids
    simpa using hlength.symm
  rw [hpages, List.range_add, List.map_append, List.map_map] at hids
  exact (List.append_inj hids (by simp)).2

/-- The rows that were added since the last commit are committed. -/
theorem Storing.save (hs : h.Storing batch names pages unsaved L)
    (hdistinct : ∀ k k', batch.jobId k = batch.jobId k' → k = k') (now : ℚ) {h' : Chronicle ι}
    {c : Catalog ι} (hjobs : c.db.jobs = h.stores.catalog.db.jobs)
    (hpages : c.pages = h.stores.catalog.pages) (hinserted : ∀ j, c.inserted j = [])
    (hcatalog : h'.stores.catalog = c.commitWith i (unsaved.map fun f => f now))
    (hcreated : h'.created = h.created ++ (unsaved.map fun f => f now).map fun job =>
      job.entry.filed) :
    h'.Storing batch names pages [] (L ++ (unsaved.map fun f => f now).map NewJob.entry) := by
  have hsame : ∀ f ∈ unsaved, (f now).id = (f 0).id ∧ (f now).columns = (f 0).columns ∧
      (f now).row.batchId = some batch.id := by
    intro f hf
    obtain ⟨page, member, rfl⟩ := hs.pending f hf
    exact ⟨rfl, rfl, rfl⟩
  have hids : (unsaved.map fun f => f now).map NewJob.id =
      (List.range unsaved.length).map fun k => batch.jobId (L.length + k) := by
    rw [← hs.unsaved_ids, List.map_map]
    exact List.map_congr_left fun f hf => (hsame f hf).1
  have hlists : c.Lists batch.id L := hs.lists.same (Catalog.same_of_eq hs.lists.steady hjobs hpages)
  have hnew : ∀ job ∈ unsaved.map fun f => f now, job.id ∉ c.db.jobs.rows := by
    intro job hjob
    obtain ⟨k, -, hk⟩ := List.mem_map.mp (hids ▸ List.mem_map_of_mem (f := NewJob.id) hjob)
    rw [← hk, hjobs]
    exact hs.fresh _ (Nat.le_add_right ..)
  have hnodup : ((unsaved.map fun f => f now).map NewJob.id).Nodup := by
    rw [hids]
    refine List.nodup_range.map_on fun k _ k' _ hkk => ?_
    have := hdistinct _ _ hkk
    omega
  refine ⟨?_, ?_, ?_, by simp, ?_, ?_, fun k hk => ?_⟩
  · rw [hcatalog]
    refine hlists.commitWith (hinserted i) (fun job hjob => ?_) hnodup hnew
    obtain ⟨f, hf, rfl⟩ := List.mem_map.mp hjob
    exact (hsame f hf).2.2
  · rw [hcreated, hs.created, List.map_append, List.map_map, List.map_map, List.map_map]
    rfl
  · rw [hcatalog]
    exact Catalog.inserted_commitWith hinserted _
  · have hentry : ((unsaved.map fun f => f now).map NewJob.entry).map Entry.jobId =
        unsaved.map fun f => (f 0).id := by
      rw [hs.unsaved_ids, ← hids, List.map_map]
      rfl
    rw [List.map_append, hentry, List.map_nil, List.append_nil]
    exact hs.ids
  · have hentry : ((unsaved.map fun f => f now).map NewJob.entry).map Entry.sourceName =
        unsaved.map fun f => (f 0).columns.sourceName := by
      rw [List.map_map, List.map_map]
      exact List.map_congr_left fun f hf => congrArg PageColumns.sourceName (hsame f hf).2.1
    rw [List.map_append, hentry, List.map_nil, List.append_nil]
    exact hs.names
  · rw [List.length_append, List.length_map, List.length_map] at hk
    rw [hcatalog, Catalog.rows_commitWith (hinserted i), hids, hjobs]
    rintro (hmem | hmem)
    · exact hs.fresh k (by omega) hmem
    · obtain ⟨m, hm, heq⟩ := List.mem_map.mp hmem
      have := hdistinct _ _ heq
      rw [List.mem_range] at hm
      omega

omit [DecidableEq ι] in
/-- What leaves the tables alone keeps what is stored. -/
theorem Storing.tableless {α : Type} {p : ApiProg ι α} (hs : h.Storing batch names pages unsaved L)
    (hp : p.Each Tableless) : (h.after p).Storing batch names pages unsaved L := by
  obtain ⟨hcatalog, hcreated⟩ := after_tableless hp h
  exact ⟨by rw [hcatalog]; exact hs.lists, hcreated.trans hs.created,
    by rw [hcatalog]; exact hs.inserted, hs.pending, hs.ids, hs.names,
    by rw [hcatalog]; exact hs.fresh⟩

omit [DecidableEq ι] in
/-- One more image. -/
theorem Storing.add (hs : h.Storing batch names pages unsaved L) (member : Member) :
    h.Storing batch (names ++ [member.name]) (pages + 1)
      (unsaved ++ [batch.newJob (batch.page settings pages member) member]) L := by
  refine ⟨hs.lists, hs.created, hs.inserted, fun f hf => ?_, ?_, ?_, hs.fresh⟩
  · rcases List.mem_append.mp hf with hf | hf
    · exact hs.pending f hf
    · exact ⟨_, _, List.mem_singleton.mp hf⟩
  · rw [List.map_append, ← List.append_assoc, hs.ids, List.range_succ, List.map_append]
    rfl
  · rw [List.map_append, ← List.append_assoc, hs.names]
    rfl

theorem after_insert_commit (jobs : List NewJob) (h : Chronicle ι)
    (hinserted : h.stores.catalog.inserted i = []) :
    ((h.after (onCatalog (insertJobs i jobs))).after (onCatalog (commitCatalog i))).stores.catalog =
        h.stores.catalog.commitWith i jobs ∧
      ((h.after (onCatalog (insertJobs i jobs))).after (onCatalog (commitCatalog i))).created =
        h.created ++ jobs.map fun job => job.entry.filed := by
  rw [after_onCatalog, after_onCatalog]
  refine ⟨rfl, ?_⟩
  change (h.created ++ []) ++ ((Function.update h.stores.catalog.inserted i
    (h.stores.catalog.inserted i ++ jobs) i).map _ ++ []) = _
  rw [Function.update_self, hinserted, List.nil_append, List.append_nil, List.append_nil]
  rfl

/-- The loop over the members stores the images, whatever was committed on the way. -/
theorem Storing.storePages (hdistinct : ∀ k k', batch.jobId k = batch.jobId k' → k = k')
    {members : List Member} {stored : List UploadedPage} {skipped : List Text}
    (hs : h.Storing batch names stored.length unsaved L) {done : StoredPages}
    {rest : List (ℚ → NewJob)}
    (hok : (run (storePages settings batch i members stored unsaved skipped) h.stores).1 =
      .ok (done, rest)) :
    ∃ L', (h.after (storePages settings batch i members stored unsaved skipped)).Storing batch
      (names ++ imageNames settings members) done.pages.length rest L' := by
  induction members generalizing stored unsaved skipped names h L with
  | nil =>
    unfold Taas.storePages at hok ⊢
    split at hok
    · cases hok
    next hsome =>
    split at hok
    · cases hok
    next huploaded =>
    obtain ⟨rfl, rfl⟩ := Prod.mk.inj (Except.ok.inj hok)
    rw [if_neg hsome, if_neg huploaded, after_pure]
    exact ⟨L, by simpa [imageNames] using hs⟩
  | cons member members ih =>
    unfold Taas.storePages at hok ⊢
    split at hok
    · cases hok
    next hsize =>
    rw [if_neg hsize]
    split at hok
    · next hskip =>
      rw [if_pos hskip]
      have himages : imageNames settings (member :: members) = imageNames settings members := by
        unfold imageNames
        rw [List.filter_cons_of_neg (by rw [hskip]; decide)]
      rw [himages]
      exact ih hs hok
    next hskip =>
    rw [if_neg hskip]
    have himages : imageNames settings (member :: members) =
        member.name :: imageNames settings members := by
      unfold imageNames
      rw [List.filter_cons_of_pos (by rw [Bool.not_eq_true] at hskip; rw [hskip]; rfl),
        List.map_cons]
    have hnames : names ++ imageNames settings (member :: members) =
        (names ++ [member.name]) ++ imageNames settings members := by
      rw [himages, List.append_assoc, List.singleton_append]
    split at hok
    · cases hok
    next hroom =>
    rw [if_neg hroom]
    split at hok
    · cases hok
    next huploaded =>
    rw [if_neg huploaded]
    dsimp only at hok ⊢
    rw [answer_bind] at hok
    rw [after_bind, hnames]
    have hput : (h.after (putObject ((batch.page settings stored.length member).incomingPath
        batch.username))).Storing batch (names ++ [member.name]) (stored.length + 1)
          (unsaved ++ [batch.newJob (batch.page settings stored.length member) member]) L :=
      (hs.add member).tableless (each_call fun _ => ⟨rfl, rfl⟩)
    have hlength : (stored ++ [batch.page settings stored.length member]).length =
        stored.length + 1 := List.length_append
    generalize h.after (putObject _) = h₁ at hok hput ⊢
    split at hok
    · next hfull =>
      rw [if_pos hfull]
      -- a commit in the middle of the archive
      obtain ⟨hcatalog, hcreated⟩ := after_insert_commit
        ((unsaved ++ [batch.newJob (batch.page settings stored.length member) member]).map fun job =>
          job (batch.now (stored.length + 1))) h₁ (hput.inserted i)
      have hsaved := hput.save hdistinct _ rfl rfl hput.inserted hcatalog hcreated
      rw [answer_bind, answer_bind] at hok
      rw [after_bind, after_bind]
      exact ih (by rw [hlength]; exact hsaved) hok
    · next hfull =>
      rw [if_neg hfull]
      exact ih (hlength ▸ hput) hok

/-- The commit that ends the upload. -/
theorem Storing.close (hs : h.Storing batch names pages unsaved L)
    (hdistinct : ∀ k k', batch.jobId k = batch.jobId k' → k = k') (now : ℚ) :
    (((h.after (onCatalog (updateBatch i batch.id (fun row => { row with status := .queued })
      fun columns => { columns with total := pages }))).after
        (onCatalog (insertJobs i (unsaved.map fun job => job now)))).after
          (onCatalog (commitCatalog i))).Accounts batch.id names := by
  have hupdated : (h.after (onCatalog (updateBatch i batch.id
      (fun row => { row with status := .queued })
      fun columns => { columns with total := pages }))).Storing batch names pages unsaved L := by
    refine ⟨hs.lists.same (Catalog.same_of_eq hs.lists.steady rfl rfl), ?_, hs.inserted,
      hs.pending, hs.ids, hs.names, hs.fresh⟩
    exact (List.append_nil _).trans hs.created
  have hbatches : (h.after (onCatalog (updateBatch i batch.id
      (fun row => { row with status := .queued })
      fun columns => { columns with total := pages }))).stores.catalog.batches =
        Table.write i batch.id { Table.sees i h.stores.catalog.batches batch.id with total := pages }
          h.stores.catalog.batches := rfl
  generalize h.after _ = h₁ at hupdated hbatches ⊢
  obtain ⟨hcatalog, hcreated⟩ := after_insert_commit (unsaved.map fun job => job now) h₁
    (hupdated.inserted i)
  have hsaved := hupdated.save hdistinct now rfl rfl hupdated.inserted hcatalog hcreated
  generalize Chronicle.after _ (Chronicle.after _ h₁) = h₂ at hcatalog hsaved ⊢
  have hlength : pages = names.length := by
    have hids := congrArg List.length hsaved.ids
    have hnames := congrArg List.length hsaved.names
    simp only [List.map_nil, List.append_nil, List.length_map, List.length_range] at hids hnames
    exact hids.symm.trans hnames
  have hcommitted : h₂.stores.catalog.batches = Table.commit i h₁.stores.catalog.batches := by
    rw [hcatalog]
    rfl
  have hnames := hsaved.names
  rw [List.map_nil, List.append_nil] at hnames
  refine ⟨_, hsaved.lists, hsaved.created, hsaved.inserted, fun name => by rw [hnames], ?_,
    fun j columns hd => ?_, fun hnodup => ?_⟩
  · rw [hcommitted, Table.committed_commit, hbatches, Table.sees_write_self]
    exact hlength
  · rw [hcommitted, hbatches] at hd
    obtain ⟨hd, hne⟩ := Table.draft_commit.mp hd
    have hself := Table.draft_write_self.symm.trans hd
    exact absurd (Prod.mk.inj (Option.some.inj hself)).1.symm hne
  · rw [← hnames] at hnodup
    exact (List.pairwise_map.mp hnodup).imp fun hne heq => absurd heq hne

/-- A submit starts the ledger. -/
theorem accounts_submit (hnew : batch.New h.stores.catalog) (hcreated : h.created = [])
    {answer : Nat × List Text}
    (hok : (run (submitBatch settings batch i) h.stores).1 = .ok answer) :
    (h.after (submitBatch settings batch i)).Accounts batch.id
      (imageNames settings batch.members) := by
  have hopened : (h.after (onCatalog (act (Catalog.insertBatch batch.id {}
      { username := batch.username, externalId := batch.externalId, domain := batch.domain,
        outputs := batch.outputs })))).Storing batch [] 0 [] [] := by
    refine ⟨⟨hnew.steady, List.nodup_nil, fun k => ?_, by simp⟩, ?_, hnew.inserted, by simp, rfl,
      rfl, fun k _ => hnew.fresh k⟩
    · exact iff_of_false (fun hk => hnew.unused k hk.1 hk.2) (by simp)
    · change h.created ++ [] = []
      rw [hcreated, List.append_nil]
  unfold submitBatch at hok ⊢
  rw [answer_bind] at hok
  rw [after_bind]
  generalize h.after (onCatalog _) = h₁ at hok hopened ⊢
  rw [answer_bind] at hok
  rw [after_bind]
  rcases hresult : (run (Taas.storePages settings batch i batch.members [] [] []) h₁.stores).1 with
    ⟨error, pages⟩ | ⟨stored, unsaved⟩
  · rw [hresult] at hok
    dsimp only at hok
    rw [answer_bind] at hok
    cases hok
  obtain ⟨L, hL⟩ := hopened.storePages hnew.distinct hresult
  dsimp only
  rw [List.nil_append] at hL
  generalize h₁.after _ = h₂ at hL ⊢
  rw [after_bind, after_bind, after_bind, after_bind, after_pure]
  refine (hL.close hnew.distinct _).tableless ?_
  exact (each_tableless_redis _).bind fun _ => each_tableless_redis _

end Chronicle

/-! ## Any sequence of calls -/

/-- What comes after a submit: a worker reports outcomes, or the batch is retried. Each call has a
session of its own. -/
inductive BatchCall (ι : Type) [DecidableEq ι] where
  | outcome (i : ι) (p : WorkerProg ι Unit) (h : RowCall i p)
  | retry (i : ι) (request : RetryCall)

variable {settings : UploadSettings} {batch : Submission} {s : ApiStores ι}

/-- The chronicle when the call ended. -/
def Chronicle.afterCall (settings : UploadSettings) (batchId : BatchId) (h : Chronicle ι) :
    BatchCall ι → Chronicle ι
  | .outcome _ p _ => h.after (onStores p)
  | .retry i request => h.after (retryBatch settings batchId request i)

/-- The call can come now. -/
def Chronicle.Expects (batchId : BatchId) (h : Chronicle ι) : BatchCall ι → Prop
  | .outcome .. => True
  | .retry _ request => h.Meets batchId request

theorem Chronicle.Accounts.call {h : Chronicle ι} {uploaded : List Text} {call : BatchCall ι}
    (hacc : h.Accounts batchId uploaded) (hcall : h.Expects batchId call) :
    (h.afterCall settings batchId call).Accounts batchId uploaded := by
  cases call with
  | outcome i p hp => exact hacc.worker (hp.statements (W := fun _ => True) fun _ => trivial)
  | retry i request => exact hacc.retry hcall

/-- **The accounting of a submitted batch adds up, whatever is reported and retried, exactly if
the images of its archive had distinct names.** -/
theorem adds_up_iff {answer : Nat × List Text} {calls : List (BatchCall ι)}
    (hnew : batch.New s.catalog) (hok : (run (submitBatch settings batch i) s).1 = .ok answer)
    (hcalls : Obeys (Chronicle.afterCall settings batch.id) (Chronicle.Expects batch.id)
      ((Chronicle.mk s []).after (submitBatch settings batch i)) calls) (j : ι) :
    (calls.foldl (Chronicle.afterCall settings batch.id)
      ((Chronicle.mk s []).after (submitBatch settings batch i))).stores.catalog.AddsUp j batch.id
        (imageNames settings batch.members)
          (calls.foldl (Chronicle.afterCall settings batch.id)
            ((Chronicle.mk s []).after (submitBatch settings batch i))).created ↔
      (imageNames settings batch.members).Nodup := by
  refine Chronicle.Accounts.addsUp_iff (hcalls.inv (fun _ _ hacc hcall => hacc.call hcall) ?_)
  exact Chronicle.accounts_submit (h := ⟨s, []⟩) hnew rfl hok

end

/-! ## Two archives -/

/-- The tables before anything was submitted. -/
def sampleEmpty : ApiStores Bool where
  catalog :=
    { db :=
        { jobs := ⟨∅, fun _ => { username := "u", submittedAt := 0 }, fun _ => none⟩
          batches := ⟨∅, fun _ => {}, fun _ => none⟩ }
      batches := ⟨∅, fun _ => { username := "u", domain := "default", outputs := {"alto"} },
        fun _ => none⟩
      pages := fun _ => { sourceName := [], fmt := "alto", outputs := {"alto"} } }

/-- An archive of two images with these names. -/
def sampleArchive (name name' : Text) : Submission where
  id := "b"
  username := "u"
  domain := "default"
  outputs := {"alto"}
  members := [⟨name, 1, [0]⟩, ⟨name', 1, [1]⟩]
  imageMegapixels := fun _ => 1
  jobId := fun k => k + 1
  now := fun _ => 5
  submitted := 6
  stateTtl := 60

theorem sampleArchive_new (name name' : Text) : (sampleArchive name name').New sampleEmpty.catalog where
  steady k j row hd := by cases hd
  unused k hk := by cases hk
  distinct k k' h := Nat.succ.inj h
  fresh k hk := by cases hk
  inserted _ := rfl

/-- Two members of one name are two pages of the total and one of the counts. -/
theorem adds_up_fails : ∃ s : ApiStores Bool, ∃ batch : Submission, batch.New s.catalog ∧
    (run (submitBatch sampleUploads batch true) s).1 = .ok (2, []) ∧
      ¬ ((Chronicle.mk s []).after (submitBatch sampleUploads batch true)).stores.catalog.AddsUp
        true batch.id (imageNames sampleUploads batch.members)
          ((Chronicle.mk s []).after (submitBatch sampleUploads batch true)).created := by
  refine ⟨sampleEmpty, sampleArchive ['1', '.', 'p'] ['1', '.', 'p'], sampleArchive_new _ _, ?_,
    fun hadds => ?_⟩
  · decide +kernel
  · exact absurd hadds.counts (by decide +kernel)

def samplePageState : JobState where
  username := "u"
  batchId := some "b"
  fmt := "alto"
  outputs := {"alto"}
  submittedAt := 6

/-- Both pages fail, and the batch is retried. -/
def sampleCalls : List (BatchCall Bool) :=
  [.outcome false _ (.markFailed 10 1 samplePageState "no text" none {} 60),
    .outcome true _ (.markFailed 20 2 samplePageState "no text" none {} 60),
    .retry false
      { username := "u", now := 30, jobId := fun k => k + 10, submitted := 30, stateTtl := 60 }]

/-- The chronicle of an archive of two images, up to the first calls. -/
def sampleChronicle (calls : Nat) : Chronicle Bool :=
  (sampleCalls.take calls).foldl (Chronicle.afterCall sampleUploads "b")
    ((Chronicle.mk sampleEmpty []).after
      (submitBatch sampleUploads (sampleArchive ['1', '.', 'p'] ['2', '.', 'p']) true))

theorem sampleChronicle_expects : Obeys (Chronicle.afterCall sampleUploads "b")
    (Chronicle.Expects "b") (sampleChronicle 0) sampleCalls := by
  have hrows : (sampleChronicle 2).stores.catalog.db.jobs.rows = {1, 2} := by decide +kernel
  have hlater : ∀ k ∈ (sampleChronicle 2).stores.catalog.db.jobs.rows,
      ((sampleChronicle 2).stores.catalog.db.jobs.committed k).submittedAt < 30 := by decide +kernel
  have hfresh : ∀ n : Nat, n + 10 ∉ ({1, 2} : Finset Nat) := by
    intro n
    simp only [Finset.mem_insert, Finset.mem_singleton]
    omega
  exact ⟨trivial, trivial, ⟨fun k hk _ => hlater k hk, fun k k' h => Nat.add_right_cancel h,
    fun k => hrows ▸ hfresh k⟩, trivial⟩

theorem adds_up_iff_sample :
    (sampleChronicle 3).created.map Prod.fst = [1, 2, 11, 12] ∧
      ((sampleChronicle 3).stores.catalog.AddsUp true "b" [['1', '.', 'p'], ['2', '.', 'p']]
        (sampleChronicle 3).created ↔ [['1', '.', 'p'], ['2', '.', 'p']].Nodup) := by
  refine ⟨by decide +kernel, ?_⟩
  have himages : imageNames sampleUploads
      (sampleArchive ['1', '.', 'p'] ['2', '.', 'p']).members =
        [['1', '.', 'p'], ['2', '.', 'p']] := by decide +kernel
  have hok : (run (submitBatch sampleUploads
      (sampleArchive ['1', '.', 'p'] ['2', '.', 'p']) true) sampleEmpty).1 = .ok (2, []) := by
    decide +kernel
  rw [← himages]
  exact adds_up_iff (sampleArchive_new _ _) hok sampleChronicle_expects true

end Taas

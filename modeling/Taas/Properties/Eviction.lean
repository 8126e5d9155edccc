import Mathlib.Algebra.BigOperators.Group.List.Basic
import Mathlib.Algebra.Order.BigOperators.Group.List
import Taas.Infra.Lists
import Taas.Properties.Sweeps

/-!
# The storage cap

* `planEviction_eq` — what the plan takes is the shortest prefix that is enough.
* `run_removeEvicted` — what is to go goes, with its marks, and nothing else changes.
* `evictResults_iff` — the sweep.
* `shared_object_lost` — two results with one object.
-/

namespace Taas

open Infra Infra.Prog

/-! ## The plan -/

section Plan

variable {K : Type}

/-- The bytes of what is left after the first `n` went. -/
def bytesLeft (entries : List (K × Int)) (n : Nat) : Int :=
  ((entries.drop n).map Prod.snd).sum

/-- The first `n` are the shortest prefix that is enough, or all of them when none is. -/
structure Shortest (target : ℚ) (entries : List (K × Int)) (n : Nat) : Prop where
  le : n ≤ entries.length
  notBefore : ∀ m < n, target < bytesLeft entries m
  enough : bytesLeft entries n ≤ target ∨ n = entries.length

theorem evictDown_eq (target : ℚ) (entries : List (K × Int)) :
    ∃ n, Shortest target entries n ∧
      evictDown target entries (entries.map Prod.snd).sum = (entries.take n).map Prod.fst := by
  induction entries with
  | nil => exact ⟨0, ⟨le_refl _, fun m hm => absurd hm (Nat.not_lt_zero m), Or.inr rfl⟩, rfl⟩
  | cons entry entries ih =>
    obtain ⟨key, size⟩ := entry
    obtain ⟨n, hn, heq⟩ := ih
    have hused : (((key, size) :: entries).map Prod.snd).sum - size =
        (entries.map Prod.snd).sum := by
      rw [List.map_cons, List.sum_cons]
      omega
    unfold evictDown
    split
    · next hle =>
      refine ⟨0, ⟨Nat.zero_le _, fun m hm => absurd hm (Nat.not_lt_zero m), Or.inl ?_⟩, rfl⟩
      exact hle
    · next hlt =>
      rw [hused, heq]
      refine ⟨n + 1, ⟨Nat.succ_le_succ hn.le, fun m hm => ?_, ?_⟩, rfl⟩
      · cases m with
        | zero => exact not_le.mp hlt
        | succ m => exact hn.notBefore m (Nat.lt_of_succ_lt_succ hm)
      · rcases hn.enough with henough | hall
        · exact Or.inl henough
        · exact Or.inr (congrArg Nat.succ hall)

/-- How much goes over the cap: none within the cap, else as little as is enough. -/
structure Least (cap : Option Int) (entries : List (K × Int)) (n : Nat) : Prop where
  uncapped : cap = none → n = 0
  within : ∀ c, cap = some c → bytesLeft entries 0 ≤ c → n = 0
  above : ∀ c : Int, cap = some c → c < bytesLeft entries 0 →
    Shortest (c * (9 / 10) : ℚ) entries n

/-- What is enough leaves less than what is not. -/
theorem Shortest.lt_bytesLeft_iff {target : ℚ} {entries : List (K × Int)} {n m : Nat}
    (h : Shortest target entries n) (hsizes : ∀ e ∈ entries, 0 ≤ e.2) (hm : m < entries.length) :
    target < bytesLeft entries m ↔ m < n := by
  refine ⟨fun hlt => ?_, h.notBefore m⟩
  by_contra hnm
  have hnm := not_lt.mp hnm
  rcases h.enough with henough | hall
  · have hsub : ((entries.drop m).map Prod.snd).Sublist ((entries.drop n).map Prod.snd) :=
      (List.drop_sublist_drop_left entries hnm).map Prod.snd
    have hle : bytesLeft entries m ≤ bytesLeft entries n := by
      refine hsub.sum_le_sum fun size hsize => ?_
      obtain ⟨e, he, rfl⟩ := List.mem_map.mp hsize
      exact hsizes e (List.mem_of_mem_drop he)
    exact absurd (hlt.trans_le (Int.cast_le.mpr hle)) (not_lt.mpr henough)
  · omega

/-- What `plan_eviction` takes. -/
theorem planEviction_eq (entries : List (K × Int)) (cap : Int)
    (hover : cap < (entries.map Prod.snd).sum) :
    ∃ n, Shortest (cap * evictTo) entries n ∧
      planEviction entries (entries.map Prod.snd).sum cap = (entries.take n).map Prod.fst := by
  rw [planEviction, if_neg (not_le.mpr hover)]
  exact evictDown_eq (cap * evictTo) entries

end Plan

/-! ## What is removed -/

section Removed

variable {ι : Type} [DecidableEq ι]

omit [DecidableEq ι] in
theorem run_deleteChunks_eq (chunks : List (List ResultPath)) (s : Shelf ι) :
    run (deleteChunks chunks) s =
      ((), { s with objects := s.objects.filter (· ∉ chunks.flatten) }) := by
  induction chunks generalizing s with
  | nil => simp [deleteChunks]
  | cons paths chunks ih =>
    rw [deleteChunks, run_bind, run_act, ih]
    simp only [Finset.filter_filter, List.flatten_cons, List.mem_append, not_or]

/-- The primary keys of what is evicted. -/
def evictKeys (evict : List (JobId × Text × String)) : List (JobId × Text) :=
  evict.map fun (jobId, fmt, _) => (jobId, fmt)

/-- The rows of `job_results`, some of them evicted now. -/
def markRows (now : ℚ) (keys : List (JobId × Text)) (rows : List ResultRow) : List ResultRow :=
  rows.map fun row => if row.key ∈ keys then { row with evictedAt := some now } else row

theorem markRows_cons (now : ℚ) (key : JobId × Text) (keys : List (JobId × Text))
    (rows : List ResultRow) :
    markRows now keys (rows.map fun row =>
      if row.key = key then { row with evictedAt := some now } else row) =
        markRows now (key :: keys) rows := by
  rw [markRows, markRows, List.map_map]
  refine List.map_congr_left fun row _ => ?_
  rw [Function.comp_apply]
  by_cases hkey : row.key = key
  · have hmark : ResultRow.key { row with evictedAt := some now } = row.key := rfl
    rw [if_pos hkey, hmark, if_pos (List.mem_cons.mpr (Or.inl hkey))]
    split <;> rfl
  · rw [if_neg hkey]
    simp only [List.mem_cons, hkey, false_or]

omit [DecidableEq ι] in
theorem run_markResults (now : ℚ) (evict : List (JobId × Text × String)) (s : Vault ι) :
    run (markResults now evict) s = ((),
      { s with
        shelf := { s.shelf with results := markRows now (evictKeys evict) s.shelf.results }
        presignedUrl := fun key =>
          if key ∈ evictKeys evict then none else s.presignedUrl key }) := by
  induction evict generalizing s with
  | nil => simp [markResults, markRows, evictKeys]
  | cons entry evict ih =>
    obtain ⟨jobId, fmt, username⟩ := entry
    have hurl : (fun key => if key ∈ evictKeys evict then none else
        Function.update s.presignedUrl (jobId, fmt) none key) =
          fun key => if key ∈ evictKeys ((jobId, fmt, username) :: evict) then none
            else s.presignedUrl key := by
      funext key
      have hcons : evictKeys ((jobId, fmt, username) :: evict) =
          (jobId, fmt) :: evictKeys evict := rfl
      rw [hcons]
      by_cases hkey : key = (jobId, fmt)
      · subst hkey
        rw [Function.update_self, if_pos List.mem_cons_self]
        split <;> rfl
      · rw [Function.update_of_ne hkey]
        simp only [List.mem_cons, hkey, false_or]
    rw [markResults, run_bind, run_act, ih, Vault.markEvicted]
    dsimp only
    rw [markRows_cons, hurl]
    rfl

/-- The columns of `batches` without some of the archives. -/
def clearColumns (batchIds : List BatchId) (rows : BatchId → BatchColumns) (batchId : BatchId) :
    BatchColumns :=
  if batchId ∈ batchIds then { rows batchId with archiveBuiltAt := none } else rows batchId

/-- Nobody holds a row of the batches' columns either. -/
structure Catalog.Still (i : ι) (c : Catalog ι) : Prop where
  rests : c.Rests i
  columns : c.batches.draft = fun _ => none

theorem foldl_updateBatch (i : ι) (batchIds : List BatchId) (c : Catalog ι) :
    batchIds.foldl (fun c batchId => c.updateBatch i batchId id fun columns =>
      { columns with archiveBuiltAt := none }) c =
        { c with
          db := { c.db with batches := c.db.batches.writeAll i id batchIds }
          batches := c.batches.writeAll i
            (fun columns => { columns with archiveBuiltAt := none }) batchIds } := by
  induction batchIds generalizing c with
  | nil => rfl
  | cons b batchIds ih =>
    rw [List.foldl_cons, ih]
    rfl

/-- The archives of the batches are cleared, and the change is committed. -/
theorem commit_clear {i : ι} {c : Catalog ι} (h : c.Still i) (batchIds : List BatchId) :
    (batchIds.foldl (fun c batchId => c.updateBatch i batchId id fun columns =>
      { columns with archiveBuiltAt := none }) c).commit i =
        { c with
          batches := { c.batches with
            committed := clearColumns batchIds c.batches.committed } } := by
  have hjobs : c.db.jobs.commit i = c.db.jobs := Table.commit_of_rest h.rests.jobs
  have hbatches : (c.db.batches.writeAll i id batchIds).commit i = c.db.batches := by
    have hwrite : (c.db.batches.writeAll i id batchIds).commit i = _ :=
      Table.commit_writeAll h.rests.batches fun _ => rfl
    rw [hwrite]
    simp only [id_eq, ite_self]
  have hcolumns : (c.batches.writeAll i
      (fun columns => { columns with archiveBuiltAt := none }) batchIds).commit i =
        { c.batches with committed := clearColumns batchIds c.batches.committed } :=
    Table.commit_writeAll h.columns fun _ => rfl
  have hnone : Function.update c.inserted i [] = c.inserted := by
    rw [← h.rests.inserted, Function.update_eq_self]
  rw [foldl_updateBatch, Catalog.commit]
  dsimp only
  rw [h.rests.inserted, Postgres.commit]
  dsimp only
  rw [hjobs, hbatches, hcolumns, hnone]
  rfl

namespace Vault

/-- The state without what is evicted. -/
def withdraw (now : ℚ) (evict : List (JobId × Text × String))
    (evictArchives : List (BatchId × String)) (s : Vault ι) : Vault ι :=
  { shelf :=
      { catalog :=
          { s.shelf.catalog with
            batches := { s.shelf.catalog.batches with
              committed :=
                clearColumns (evictArchives.map Prod.fst) s.shelf.catalog.batches.committed } }
        results := markRows now (evictKeys evict) s.shelf.results
        objects := s.shelf.objects.filter (· ∉ evictedPaths evict evictArchives) }
    sizeBytes := s.sizeBytes
    presignedUrl := fun key => if key ∈ evictKeys evict then none else s.presignedUrl key
    archiveSizeBytes := fun batchId =>
      if batchId ∈ evictArchives.map Prod.fst then none else s.archiveSizeBytes batchId }

omit [DecidableEq ι] in
theorem withdraw_nil (now : ℚ) (s : Vault ι) : s.withdraw now [] [] = s := by
  have hrows : markRows now [] s.shelf.results = s.shelf.results := by
    simp [markRows]
  have hcolumns : clearColumns [] s.shelf.catalog.batches.committed =
      s.shelf.catalog.batches.committed := by
    funext batchId
    simp [clearColumns]
  have hobjects : s.shelf.objects.filter (· ∉ evictedPaths [] []) = s.shelf.objects := by
    simp [evictedPaths]
  unfold withdraw
  simp only [evictKeys, List.map_nil, hrows, hcolumns, hobjects, List.not_mem_nil, if_false]

theorem clearArchives_nil (i : ι) (s : Vault ι) : s.clearArchives i [] = s := by
  simp [clearArchives]

end Vault

omit [DecidableEq ι] in
theorem run_onShelf (p : ShelfProg ι Unit) (s : Vault ι) :
    run (zoom Vault.shelf (fun shelf (s : Vault ι) => { s with shelf }) (id : Filed → Filed) p) s =
      ((run p s.shelf).1, { s with shelf := (run p s.shelf).2 }) := by
  refine (run_zoom_eq ?_ ?_ ?_ p s).1
  · exact fun _ _ => rfl
  · exact fun _ => rfl
  · exact fun _ _ _ => rfl

/-- What is to go goes, with its marks, and nothing else changes. -/
theorem run_removeEvicted {i : ι} {s : Vault ι} (h : s.shelf.catalog.Still i) (now : ℚ)
    (evict : List (JobId × Text × String)) (evictArchives : List (BatchId × String)) :
    (run (removeEvicted i now evict evictArchives) s).2 = s.withdraw now evict evictArchives := by
  have hclear : ∀ s : Vault ι, run (when (evictArchives ≠ [])
      (act (Vault.clearArchives i (evictArchives.map Prod.fst))) : VaultProg ι Unit) s =
        ((), s.clearArchives i (evictArchives.map Prod.fst)) := by
    intro s
    rw [run_when, run_act]
    split
    · rfl
    · next hnil =>
      have hnil : evictArchives = [] := by simpa using hnil
      rw [hnil, List.map_nil, Vault.clearArchives_nil]
  rw [removeEvicted, run_bind, run_onShelf, run_bind, run_markResults, run_bind, hclear, run_act,
    run_deleteChunks_eq, flatten_toChunks]
  dsimp only [Vault.clearArchives]
  rw [commit_clear h]
  rfl

/-! ## What is left -/

def LiveResult.key (r : LiveResult) : JobId × Text := (r.jobId, r.fmt)

/-- What the update of an evicted result names. -/
def LiveResult.evicted (r : LiveResult) : JobId × Text × String := (r.jobId, r.fmt, r.username)

def BuiltArchive.evicted (a : BuiltArchive) : BatchId × String := (a.batchId, a.username)

/-- The object of a live result. -/
def LiveResult.path (r : LiveResult) : ResultPath := .output r.username r.jobId (extFor r.fmt)

/-- The object of a batch archive. -/
def BuiltArchive.path (a : BuiltArchive) : ResultPath := .archive a.username a.batchId false

theorem evictKeys_map (results : List LiveResult) :
    evictKeys (results.map LiveResult.evicted) = results.map LiveResult.key := by
  rw [evictKeys, List.map_map]
  rfl

namespace Vault

variable {i : ι} {s : Vault ι} (now : ℚ) (evict : List (JobId × Text × String))
  (evictArchives : List (BatchId × String))

theorem liveResults_withdraw : (s.withdraw now evict evictArchives).liveResults i =
    (s.liveResults i).filter fun r => r.key ∉ evictKeys evict := by
  rw [liveResults, liveResults, List.filter_filterMap, withdraw]
  dsimp only
  rw [markRows, List.filterMap_map]
  refine List.filterMap_congr fun row _ => ?_
  rw [Function.comp_apply]
  by_cases hkey : row.key ∈ evictKeys evict
  · rw [if_pos hkey, if_neg fun hlive => by cases hlive.1]
    symm
    rw [Option.filter_eq_none_iff]
    intro r hr
    split at hr
    · cases hr
      exact fun hout => of_decide_eq_true hout hkey
    · cases hr
  · rw [if_neg hkey]
    split
    · exact (if_pos (decide_eq_true hkey)).symm
    · rfl

theorem builtArchives_withdraw (h : s.shelf.catalog.Still i) :
    (s.withdraw now evict evictArchives).builtArchives i =
      (s.builtArchives i).filter fun a => a.batchId ∉ evictArchives.map Prod.fst := by
  have hsees := Table.sees_of_rest (i := i) h.columns
  have hsees' : (s.withdraw now evict evictArchives).shelf.catalog.batches.sees i =
      clearColumns (evictArchives.map Prod.fst) s.shelf.catalog.batches.committed :=
    Table.sees_of_rest h.columns
  rw [builtArchives, builtArchives, List.filter_filterMap, hsees, hsees']
  refine List.filterMap_congr fun batchId _ => ?_
  dsimp only [withdraw]
  by_cases hid : batchId ∈ evictArchives.map Prod.fst
  · rw [clearColumns, if_pos hid, if_pos hid, Option.map_none]
    symm
    rw [Option.filter_eq_none_iff]
    intro a ha
    obtain ⟨builtAt, -, rfl⟩ := Option.map_eq_some_iff.mp ha
    exact fun hout => of_decide_eq_true hout hid
  · rw [clearColumns, if_neg hid, if_neg hid]
    cases (s.shelf.catalog.batches.committed batchId).archiveBuiltAt with
    | none => rfl
    | some builtAt => exact (if_pos (decide_eq_true hid)).symm

/-- What the sweep finds: every live result is of a job that was stored, no size is negative, and
none of the queries reaches its limit. -/
structure Sound (i : ι) (s : Vault ι) : Prop where
  still : s.shelf.catalog.Still i
  keys : (s.shelf.results.map ResultRow.key).Nodup
  stored : ∀ row ∈ s.shelf.results, row.evictedAt = none →
    row.jobId ∈ s.shelf.catalog.db.jobs.rows ∧
      (s.shelf.catalog.db.jobs.committed row.jobId).storedAt.isSome
  sizes : ∀ r ∈ s.liveResults i, 0 ≤ r.size
  archiveSizes : ∀ a ∈ s.builtArchives i, 0 ≤ a.size
  results_le : (s.liveResults i).length ≤ deleteBatchSize * maxBatchesPerTick
  archives_le : (s.builtArchives i).length ≤ deleteBatchSize * maxBatchesPerTick

/-- The bytes of the live results and the built archives. -/
def usage (i : ι) (s : Vault ι) : Int := s.storedBytes + s.storedArchiveBytes i

theorem storedBytes_eq (h : ∀ row ∈ s.shelf.results, row.evictedAt = none →
    row.jobId ∈ s.shelf.catalog.db.jobs.rows) :
    s.storedBytes = ((s.liveResults i).map LiveResult.size).sum := by
  rw [storedBytes, liveResults, List.map_filterMap, ← List.filterMap_eq_map, List.filterMap_filter]
  refine congrArg List.sum (List.filterMap_congr fun row hrow => ?_)
  by_cases hlive : row.evictedAt = none
  · rw [if_pos (decide_eq_true hlive), if_pos ⟨hlive, h row hrow hlive⟩]
    rfl
  · rw [if_neg fun hrow => hlive (of_decide_eq_true hrow), if_neg fun hrow => hlive hrow.1]
    rfl

theorem Sound.nodup_liveResults (h : s.Sound i) :
    ((s.liveResults i).map LiveResult.key).Nodup := by
  refine nodup_map_filterMap (fun row r hr => ?_) h.keys
  split at hr
  · cases hr
    rfl
  · cases hr

theorem nodup_builtArchives : ((s.builtArchives i).map BuiltArchive.batchId).Nodup := by
  have hrows : ((sorted (· ≤ ·) s.shelf.catalog.batches.rows.val).map id).Nodup := by
    rw [List.map_id]
    exact (nodup_sorted _).mpr s.shelf.catalog.batches.rows.nodup
  refine nodup_map_filterMap (fun batchId a ha => ?_) hrows
  obtain ⟨builtAt, -, rfl⟩ := Option.map_eq_some_iff.mp ha
  rfl

/-- The sweep's split of the live results by age. -/
theorem Sound.perm_liveResults (h : s.Sound i) (cutoff : ℚ) :
    (s.liveResults i).Perm (s.agedResults i cutoff ++ s.newerResults i cutoff) := by
  have hnewer : s.newerResults i cutoff = (s.liveResults i).filter fun r =>
      !r.storedAt.any fun t => decide (t < cutoff) := by
    refine List.filter_congr fun r hr => ?_
    obtain ⟨row, hrow, hr⟩ := List.mem_filterMap.mp hr
    split at hr
    · next hlive =>
      cases hr
      have hsees : s.shelf.catalog.db.jobs.sees i = s.shelf.catalog.db.jobs.committed :=
        Table.sees_of_rest h.still.rests.jobs
      obtain ⟨t, ht⟩ := Option.isSome_iff_exists.mp (h.stored row hrow hlive.1).2
      dsimp only
      rw [hsees, ht, Option.any_some, Option.any_some, ← decide_not]
      exact decide_eq_decide.mpr not_lt.symm
    · cases hr
  rw [hnewer]
  exact (List.filter_append_perm _ _).symm

theorem perm_builtArchives (cutoff : ℚ) :
    (s.builtArchives i).Perm (s.agedArchives i cutoff ++ s.newerArchives i cutoff) := by
  have hnewer : s.newerArchives i cutoff = (s.builtArchives i).filter fun a =>
      !decide (a.builtAt < cutoff) :=
    List.filter_congr fun a _ => by rw [← decide_not]; exact decide_eq_decide.mpr not_lt.symm
  rw [hnewer]
  exact (List.filter_append_perm _ _).symm

end Vault

/-- The database may answer so: `LIMIT` and `ORDER BY` as the queries have them. -/
structure EvictAnswers.Allowed (i : ι) (s : Vault ι) (cutoff : ℚ) (answers : EvictAnswers) :
    Prop where
  aged : Returned (fun _ => ()) (deleteBatchSize * maxBatchesPerTick) (s.agedResults i cutoff)
    (answers.aged (s.agedResults i cutoff))
  agedArchives : Returned (fun _ => ()) (deleteBatchSize * maxBatchesPerTick)
    (s.agedArchives i cutoff) (answers.agedArchives (s.agedArchives i cutoff))
  newerArchives : Returned BuiltArchive.builtAt (deleteBatchSize * maxBatchesPerTick)
    (s.newerArchives i cutoff) (answers.newerArchives (s.newerArchives i cutoff))
  oldest : Returned (fun r : LiveResult => r.storedAt.getD 0) (deleteBatchSize * maxBatchesPerTick)
    (s.newerResults i cutoff) (answers.oldest (s.newerResults i cutoff))

section Answers

variable (i : ι) (now cutoff : ℚ) (answers : EvictAnswers) (s : Vault ι)

/-- Archives oldest first, then results oldest first. -/
def evictables : List (Candidate × Int) :=
  (answers.newerArchives (s.newerArchives i cutoff)).map BuiltArchive.candidate ++
    (answers.oldest (s.newerResults i cutoff)).map LiveResult.candidate

/-- How many results are among the first `n` evictables. -/
def resultsIn (n : Nat) : Nat := n - (answers.newerArchives (s.newerArchives i cutoff)).length

/-- The results that are too old, and those among the first `n` evictables. -/
def goneResults (n : Nat) : List LiveResult :=
  answers.aged (s.agedResults i cutoff) ++
    (answers.oldest (s.newerResults i cutoff)).take (resultsIn i cutoff answers s n)

/-- The archives that are too old, and those among the first `n` evictables. -/
def goneArchives (n : Nat) : List BuiltArchive :=
  answers.agedArchives (s.agedArchives i cutoff) ++
    (answers.newerArchives (s.newerArchives i cutoff)).take n

/-- The state that the sweep leaves when `n` of the evictables go. -/
def evictUpTo (n : Nat) : Vault ι :=
  s.withdraw now ((goneResults i cutoff answers s n).map LiveResult.evicted)
    ((goneArchives i cutoff answers s n).map BuiltArchive.evicted)

theorem take_evictables (n : Nat) : (evictables i cutoff answers s).take n =
    ((answers.newerArchives (s.newerArchives i cutoff)).take n).map BuiltArchive.candidate ++
      ((answers.oldest (s.newerResults i cutoff)).take (resultsIn i cutoff answers s n)).map
        LiveResult.candidate := by
  rw [evictables, List.take_append, List.length_map, List.map_take, List.map_take, resultsIn]

theorem drop_evictables (n : Nat) : (evictables i cutoff answers s).drop n =
    ((answers.newerArchives (s.newerArchives i cutoff)).drop n).map BuiltArchive.candidate ++
      ((answers.oldest (s.newerResults i cutoff)).drop (resultsIn i cutoff answers s n)).map
        LiveResult.candidate := by
  rw [evictables, List.drop_append, List.length_map, List.map_drop, List.map_drop, resultsIn]

omit [DecidableEq ι] in
theorem filterMap_result (archives : List BuiltArchive) (results : List LiveResult) :
    ((archives.map BuiltArchive.candidate ++ results.map LiveResult.candidate).map
      Prod.fst).filterMap Candidate.result? = results.map LiveResult.evicted := by
  have hnone : (archives.map BuiltArchive.candidate).filterMap
      (Candidate.result? ∘ Prod.fst) = [] := by
    rw [List.filterMap_map, List.filterMap_eq_nil_iff]
    exact fun _ _ => rfl
  rw [List.filterMap_map, List.filterMap_append, hnone, List.filterMap_map, List.nil_append]
  exact congrFun (List.filterMap_eq_map' (f := LiveResult.evicted)) results

omit [DecidableEq ι] in
theorem filterMap_archive (archives : List BuiltArchive) (results : List LiveResult) :
    ((archives.map BuiltArchive.candidate ++ results.map LiveResult.candidate).map
      Prod.fst).filterMap Candidate.archive? = archives.map BuiltArchive.evicted := by
  have hnone : (results.map LiveResult.candidate).filterMap
      (Candidate.archive? ∘ Prod.fst) = [] := by
    rw [List.filterMap_map, List.filterMap_eq_nil_iff]
    exact fun _ _ => rfl
  rw [List.filterMap_map, List.filterMap_append, hnone, List.filterMap_map, List.append_nil]
  exact congrFun (List.filterMap_eq_map' (f := BuiltArchive.evicted)) archives

variable {i cutoff answers s}

/-- The live results that are left. -/
theorem liveResults_evictUpTo (hs : s.Sound i) (h : answers.Allowed i s cutoff) (n : Nat) :
    ((evictUpTo i now cutoff answers s n).liveResults i).Perm
      ((answers.oldest (s.newerResults i cutoff)).drop (resultsIn i cutoff answers s n)) := by
  have haged := (h.aged.whole ((List.length_filter_le ..).trans hs.results_le)).1
  have holdest := (h.oldest.whole ((List.length_filter_le ..).trans hs.results_le)).1
  rw [evictUpTo, Vault.liveResults_withdraw, evictKeys_map]
  refine filter_notMem_perm ?_ hs.nodup_liveResults
  rw [goneResults, List.append_assoc, List.take_append_drop]
  exact (hs.perm_liveResults cutoff).trans (haged.append holdest).symm

theorem builtArchives_evictUpTo (hs : s.Sound i) (h : answers.Allowed i s cutoff) (n : Nat) :
    ((evictUpTo i now cutoff answers s n).builtArchives i).Perm
      ((answers.newerArchives (s.newerArchives i cutoff)).drop n) := by
  have haged := (h.agedArchives.whole ((List.length_filter_le ..).trans hs.archives_le)).1
  have hnewer := (h.newerArchives.whole ((List.length_filter_le ..).trans hs.archives_le)).1
  rw [evictUpTo, Vault.builtArchives_withdraw _ _ _ hs.still, List.map_map]
  refine filter_notMem_perm (f := BuiltArchive.batchId) ?_ Vault.nodup_builtArchives
  rw [goneArchives, List.append_assoc, List.take_append_drop]
  exact (Vault.perm_builtArchives cutoff).trans (haged.append hnewer).symm

theorem usage_evictUpTo (hs : s.Sound i) (h : answers.Allowed i s cutoff) (n : Nat) :
    (evictUpTo i now cutoff answers s n).usage i = bytesLeft (evictables i cutoff answers s) n := by
  have hresults := ((liveResults_evictUpTo now hs h n).map LiveResult.size).sum_eq
  have harchives := ((builtArchives_evictUpTo now hs h n).map BuiltArchive.size).sum_eq
  have hrows : ∀ row ∈ (evictUpTo i now cutoff answers s n).shelf.results, row.evictedAt = none →
      row.jobId ∈ (evictUpTo i now cutoff answers s n).shelf.catalog.db.jobs.rows := by
    intro row hrow hlive
    obtain ⟨before, hbefore, rfl⟩ := List.mem_map.mp hrow
    split at hlive
    · cases hlive
    · next hkey =>
      rw [if_neg hkey]
      exact (hs.stored before hbefore hlive).1
  rw [Vault.usage, Vault.storedBytes_eq hrows, hresults, bytesLeft, drop_evictables,
    List.map_append, List.sum_append, List.map_map, List.map_map, add_comm]
  exact congrArg (· + _) harchives

/-- What the code takes for the usage after the age cut. -/
theorem used_eq (hs : s.Sound i) (h : answers.Allowed i s cutoff) :
    s.storedBytes + s.storedArchiveBytes i -
        ((answers.aged (s.agedResults i cutoff)).map LiveResult.size).sum -
        ((answers.agedArchives (s.agedArchives i cutoff)).map BuiltArchive.size).sum =
      ((evictables i cutoff answers s).map Prod.snd).sum := by
  have haged := (h.aged.whole ((List.length_filter_le ..).trans hs.results_le)).1
  have holdest := (h.oldest.whole ((List.length_filter_le ..).trans hs.results_le)).1
  have hagedArchives := (h.agedArchives.whole ((List.length_filter_le ..).trans hs.archives_le)).1
  have hnewer := (h.newerArchives.whole ((List.length_filter_le ..).trans hs.archives_le)).1
  have hresults := (((hs.perm_liveResults cutoff).trans (haged.append holdest).symm).map
    LiveResult.size).sum_eq
  have harchives := (((Vault.perm_builtArchives cutoff).trans
    (hagedArchives.append hnewer).symm).map BuiltArchive.size).sum_eq
  have hbytes : s.storedArchiveBytes i = ((s.builtArchives i).map BuiltArchive.size).sum := rfl
  have hevictables : ((evictables i cutoff answers s).map Prod.snd).sum =
      ((answers.newerArchives (s.newerArchives i cutoff)).map BuiltArchive.size).sum +
        ((answers.oldest (s.newerResults i cutoff)).map LiveResult.size).sum := by
    rw [evictables, List.map_append, List.sum_append, List.map_map, List.map_map]
    rfl
  rw [Vault.storedBytes_eq fun row hrow hlive => (hs.stored row hrow hlive).1, hbytes, hresults,
    harchives, hevictables, List.map_append, List.map_append, List.sum_append, List.sum_append]
  omega

omit [DecidableEq ι] in
/-- How much the plan takes. -/
theorem exists_least (cap : Option Int) (entries : List (Candidate × Int)) :
    ∃ n, Least cap entries n ∧ ∀ c, cap = some c →
      (if c < (entries.map Prod.snd).sum then planEviction entries (entries.map Prod.snd).sum c
        else []) = (entries.take n).map Prod.fst := by
  cases cap with
  | none => exact ⟨0, ⟨fun _ => rfl, fun _ hc => (by cases hc), fun _ hc => (by cases hc)⟩,
      fun _ hc => (by cases hc)⟩
  | some cap =>
    by_cases hover : cap < (entries.map Prod.snd).sum
    · obtain ⟨n, hn, hplan⟩ := planEviction_eq entries cap hover
      refine ⟨n, ⟨fun hnone => (by cases hnone), fun c hc hle => ?_, fun c hc _ => ?_⟩,
        fun c hc => ?_⟩ <;> cases hc
      · exact absurd hover (not_lt.mpr hle)
      · exact hn
      · rw [if_pos hover, hplan]
    · refine ⟨0, ⟨fun _ => rfl, fun _ _ _ => rfl, fun c hc hlt => ?_⟩, fun c hc => ?_⟩ <;> cases hc
      · exact absurd hlt hover
      · rw [if_neg hover]
        rfl

theorem run_planOverCap (hs : s.Sound i) (h : answers.Allowed i s cutoff) (cap : Option Int) :
    ∃ n, Least cap (evictables i cutoff answers s) n ∧
      run (planOverCap i cutoff cap answers (answers.aged (s.agedResults i cutoff))
        (answers.agedArchives (s.agedArchives i cutoff))) s =
          (((evictables i cutoff answers s).take n).map Prod.fst, s) := by
  obtain ⟨n, hn, hplan⟩ := exists_least cap (evictables i cutoff answers s)
  refine ⟨n, hn, ?_⟩
  cases cap with
  | none =>
    rw [hn.uncapped rfl]
    rfl
  | some cap =>
    have hplan := hplan cap rfl
    rw [planOverCap]
    simp only [run_bind, run_query, used_eq hs h]
    split at hplan
    · next hover =>
      rw [if_pos hover]
      simp only [run_bind, run_query, run_pure]
      exact congrArg (·, s) hplan
    · next hover =>
      rw [if_neg hover, ← hplan]
      rfl

/-- The state after the sweep. -/
theorem run_evictResults {maxAge : Int} (hs : s.Sound i)
    (h : answers.Allowed i s (now - maxAge)) (cap : Option Int) :
    ∃ n, Least cap (evictables i (now - maxAge) answers s) n ∧
      (run (evictResults i now maxAge cap answers) s).2 =
        evictUpTo i now (now - maxAge) answers s n := by
  obtain ⟨n, hn, hplan⟩ := run_planOverCap hs h cap
  refine ⟨n, hn, ?_⟩
  have hresults := filterMap_result
    ((answers.newerArchives (s.newerArchives i (now - maxAge))).take n)
    ((answers.oldest (s.newerResults i (now - maxAge))).take
      (resultsIn i (now - maxAge) answers s n))
  have harchives := filterMap_archive
    ((answers.newerArchives (s.newerArchives i (now - maxAge))).take n)
    ((answers.oldest (s.newerResults i (now - maxAge))).take
      (resultsIn i (now - maxAge) answers s n))
  rw [← take_evictables] at hresults harchives
  rw [evictResults, run_bind, run_query, run_bind, run_query, run_bind, hplan]
  dsimp only
  rw [hresults, harchives, evictUpTo, goneResults, goneArchives, List.map_append, List.map_append]
  split
  · next hnone =>
    refine (Vault.withdraw_nil now s).symm.trans ?_
    exact congrArg₂ (fun evict evictArchives => s.withdraw now evict evictArchives)
      hnone.1.symm hnone.2.symm
  · rw [run_bind, run_pure, run_removeEvicted hs.still]
    rfl

/-! ## The objects -/

/-- The sweep does what it is for: `n` of the evictables go, as few as are enough, and their
objects and their marks with them. -/
structure Evicts (i : ι) (now cutoff : ℚ) (cap : Option Int) (answers : EvictAnswers)
    (s s' : Vault ι) (n : Nat) : Prop where
  least : Least cap (evictables i cutoff answers s) n
  usage : s'.usage i = bytesLeft (evictables i cutoff answers s) n
  young : ∀ r ∈ s'.liveResults i, ∃ t, r.storedAt = some t ∧ cutoff ≤ t
  youngArchives : ∀ a ∈ s'.builtArchives i, cutoff ≤ a.builtAt
  marked : s'.shelf.results =
    markRows now ((goneResults i cutoff answers s n).map LiveResult.key) s.shelf.results
  cleared : s'.builtArchives i = (s.builtArchives i).filter fun a =>
    a.batchId ∉ (goneArchives i cutoff answers s n).map BuiltArchive.batchId
  /-- The object of a live result is deleted if and only if the result is marked. -/
  objects : ∀ r ∈ s.liveResults i,
    (r.path ∈ s'.shelf.objects ↔ r.path ∈ s.shelf.objects ∧ r ∈ s'.liveResults i)
  archives : ∀ a ∈ s.builtArchives i,
    (a.path ∈ s'.shelf.objects ↔ a.path ∈ s.shelf.objects ∧ a ∈ s'.builtArchives i)
  others : ∀ path, (∀ r ∈ s.liveResults i, r.path ≠ path) →
    (∀ a ∈ s.builtArchives i, a.path ≠ path) →
      (path ∈ s'.shelf.objects ↔ path ∈ s.shelf.objects)

/-- The bytes of the result and of those after it. -/
def bytesFrom (results : List LiveResult) (r : LiveResult) : Int :=
  ((results.drop (results.idxOf r)).map LiveResult.size).sum

/-- Two results have one object only if the sweep stops before both of them or after both. -/
def NoneSplit (i : ι) (cutoff : ℚ) (cap : Option Int) (answers : EvictAnswers) (s : Vault ι) :
    Prop :=
  let results := answers.oldest (s.newerResults i cutoff)
  ∀ c : Int, cap = some c → c < bytesLeft (evictables i cutoff answers s) 0 →
    ∀ r ∈ results, ∀ r' ∈ results, r.path = r'.path → r.path ∈ s.shelf.objects →
      (c * (9 / 10) : ℚ) < bytesFrom results r → (c * (9 / 10) : ℚ) < bytesFrom results r'

/-- Two live results with one object are of one job. -/
theorem storedAt_of_path (s : Vault ι) {r r' : LiveResult} (hr : r ∈ s.liveResults i)
    (hr' : r' ∈ s.liveResults i) (hpath : r.path = r'.path) : r.storedAt = r'.storedAt := by
  have hjob : ∀ {r : LiveResult}, r ∈ s.liveResults i →
      r.storedAt = (s.shelf.catalog.db.jobs.sees i r.jobId).storedAt := by
    intro r hr
    obtain ⟨row, -, hrow⟩ := List.mem_filterMap.mp hr
    split at hrow
    · cases hrow
      rfl
    · cases hrow
  rw [hjob hr, hjob hr', (ResultPath.output.inj hpath).2.1]

theorem mem_goneResults (hs : s.Sound i) (h : answers.Allowed i s cutoff) {n : Nat}
    {r : LiveResult} : r ∈ goneResults i cutoff answers s n ↔ r ∈ s.agedResults i cutoff ∨
      r ∈ (answers.oldest (s.newerResults i cutoff)).take (resultsIn i cutoff answers s n) := by
  have haged := (h.aged.whole ((List.length_filter_le ..).trans hs.results_le)).1
  rw [goneResults, List.mem_append, haged.mem_iff]

theorem goneResults_subset (h : answers.Allowed i s cutoff) {n : Nat} {r : LiveResult}
    (hr : r ∈ goneResults i cutoff answers s n) : r ∈ s.liveResults i := by
  rcases List.mem_append.mp hr with hr | hr
  · exact List.mem_of_mem_filter (h.aged.subset hr)
  · exact List.mem_of_mem_filter (h.oldest.subset (List.mem_of_mem_take hr))

theorem goneArchives_subset (h : answers.Allowed i s cutoff) {n : Nat} {a : BuiltArchive}
    (ha : a ∈ goneArchives i cutoff answers s n) : a ∈ s.builtArchives i := by
  rcases List.mem_append.mp ha with ha | ha
  · exact List.mem_of_mem_filter (h.agedArchives.subset ha)
  · exact List.mem_of_mem_filter (h.newerArchives.subset (List.mem_of_mem_take ha))

theorem mem_live_evictUpTo (hs : s.Sound i) (h : answers.Allowed i s cutoff) {n : Nat}
    {r : LiveResult} : r ∈ (evictUpTo i now cutoff answers s n).liveResults i ↔
      r ∈ s.liveResults i ∧ r ∉ goneResults i cutoff answers s n := by
  rw [evictUpTo, Vault.liveResults_withdraw, evictKeys_map, List.mem_filter, decide_eq_true_iff]
  refine and_congr_right fun hr => not_congr ⟨fun hkey => ?_, List.mem_map_of_mem⟩
  obtain ⟨r', hr', hkey⟩ := List.mem_map.mp hkey
  obtain rfl := List.inj_on_of_nodup_map hs.nodup_liveResults (goneResults_subset h hr') hr hkey
  exact hr'

theorem mem_built_evictUpTo (hs : s.Sound i) (h : answers.Allowed i s cutoff) {n : Nat}
    {a : BuiltArchive} : a ∈ (evictUpTo i now cutoff answers s n).builtArchives i ↔
      a ∈ s.builtArchives i ∧ a ∉ goneArchives i cutoff answers s n := by
  rw [evictUpTo, Vault.builtArchives_withdraw _ _ _ hs.still, List.map_map, List.mem_filter,
    decide_eq_true_iff]
  refine and_congr_right fun ha => not_congr ⟨fun hid => ?_, fun ha => List.mem_map_of_mem ha⟩
  obtain ⟨a', ha', hid⟩ := List.mem_map.mp hid
  obtain rfl := List.inj_on_of_nodup_map Vault.nodup_builtArchives (goneArchives_subset h ha') ha
    hid
  exact ha'

omit [DecidableEq ι] in
theorem evictedPaths_map (results : List LiveResult) (archives : List BuiltArchive) :
    evictedPaths (results.map LiveResult.evicted) (archives.map BuiltArchive.evicted) =
      results.map LiveResult.path ++ archives.map BuiltArchive.path := by
  rw [evictedPaths, List.map_map, List.map_map]
  rfl

/-- What is deleted is the objects of what goes. -/
theorem mem_objects_evictUpTo {n : Nat} {path : ResultPath} :
    path ∈ (evictUpTo i now cutoff answers s n).shelf.objects ↔ path ∈ s.shelf.objects ∧
      (∀ r ∈ goneResults i cutoff answers s n, r.path ≠ path) ∧
        ∀ a ∈ goneArchives i cutoff answers s n, a.path ≠ path := by
  have hobjects : (evictUpTo i now cutoff answers s n).shelf.objects = s.shelf.objects.filter
      (· ∉ evictedPaths ((goneResults i cutoff answers s n).map LiveResult.evicted)
        ((goneArchives i cutoff answers s n).map BuiltArchive.evicted)) := rfl
  rw [hobjects, evictedPaths_map, Finset.mem_filter]
  simp only [List.mem_append, List.mem_map, not_or, not_exists, not_and, ne_eq]

theorem evictables_nonneg (hs : s.Sound i) (h : answers.Allowed i s cutoff) :
    ∀ e ∈ evictables i cutoff answers s, 0 ≤ e.2 := by
  intro e he
  rcases List.mem_append.mp he with he | he <;> obtain ⟨x, hx, rfl⟩ := List.mem_map.mp he
  · exact hs.archiveSizes x (List.mem_of_mem_filter (h.newerArchives.subset hx))
  · exact hs.sizes x (List.mem_of_mem_filter (h.oldest.subset hx))

/-- What is left when all archives and the results before `r` are gone. -/
theorem bytesLeft_idxOf (r : LiveResult) :
    bytesLeft (evictables i cutoff answers s)
      ((answers.newerArchives (s.newerArchives i cutoff)).length +
        (answers.oldest (s.newerResults i cutoff)).idxOf r) =
      bytesFrom (answers.oldest (s.newerResults i cutoff)) r := by
  rw [bytesLeft, drop_evictables, resultsIn, Nat.add_sub_cancel_left,
    List.drop_of_length_le (Nat.le_add_right _ _), List.map_nil, List.nil_append, bytesFrom,
    List.map_map]
  rfl

/-- A newer result goes if there is too much from it on. -/
theorem mem_take_iff {cap : Option Int} {n : Nat} (hs : s.Sound i)
    (h : answers.Allowed i s cutoff) (hn : Least cap (evictables i cutoff answers s) n)
    {r : LiveResult} (hr : r ∈ answers.oldest (s.newerResults i cutoff)) :
    r ∈ (answers.oldest (s.newerResults i cutoff)).take (resultsIn i cutoff answers s n) ↔
      ∃ c : Int, cap = some c ∧ c < bytesLeft (evictables i cutoff answers s) 0 ∧
        (c * (9 / 10) : ℚ) < bytesFrom (answers.oldest (s.newerResults i cutoff)) r := by
  have hnone : n = 0 → r ∉ (answers.oldest (s.newerResults i cutoff)).take
      (resultsIn i cutoff answers s n) := by
    intro h0
    rw [h0, resultsIn, Nat.zero_sub, List.take_zero]
    exact List.not_mem_nil
  cases cap with
  | none => exact ⟨fun hmem => absurd hmem (hnone (hn.uncapped rfl)), fun ⟨_, hc, _⟩ => by cases hc⟩
  | some c =>
    by_cases hover : c < bytesLeft (evictables i cutoff answers s) 0
    · have hidx := List.idxOf_lt_length_iff.mpr hr
      have hlen : (evictables i cutoff answers s).length =
          (answers.newerArchives (s.newerArchives i cutoff)).length +
            (answers.oldest (s.newerResults i cutoff)).length := by
        rw [evictables, List.length_append, List.length_map, List.length_map]
      have hiff := (hn.above c rfl hover).lt_bytesLeft_iff (evictables_nonneg hs h)
        (m := (answers.newerArchives (s.newerArchives i cutoff)).length +
            (answers.oldest (s.newerResults i cutoff)).idxOf r) (by omega)
      rw [bytesLeft_idxOf] at hiff
      rw [List.mem_take_iff_idxOf_lt hr, resultsIn]
      constructor
      · intro hlt
        exact ⟨c, rfl, hover, hiff.mpr (by omega)⟩
      · rintro ⟨_, hc, -, hlt⟩
        cases hc
        have := hiff.mp hlt
        omega
    · refine ⟨fun hmem => absurd hmem (hnone (hn.within c rfl (not_lt.mp hover))), ?_⟩
      rintro ⟨_, hc, hlt, -⟩
      cases hc
      exact absurd hlt hover

/-- Of two results with one object both go or both stay. -/
theorem NoneSplit.gone {cap : Option Int} {n : Nat} (hsplit : NoneSplit i cutoff cap answers s)
    (hs : s.Sound i) (h : answers.Allowed i s cutoff)
    (hn : Least cap (evictables i cutoff answers s) n) {r r' : LiveResult}
    (hr : r ∈ goneResults i cutoff answers s n) (hr' : r' ∈ s.liveResults i)
    (hpath : r.path = r'.path) (hobject : r.path ∈ s.shelf.objects) :
    r' ∈ goneResults i cutoff answers s n := by
  have hstored := storedAt_of_path s (goneResults_subset h hr) hr' hpath
  rcases (mem_goneResults hs h).mp hr with haged | htake
  · refine (mem_goneResults hs h).mpr (Or.inl (List.mem_filter.mpr ⟨hr', ?_⟩))
    rw [← hstored]
    exact (List.mem_filter.mp haged).2
  · have hmem := List.mem_of_mem_take htake
    have holdest := (h.oldest.whole ((List.length_filter_le ..).trans hs.results_le)).1
    have hmem' : r' ∈ answers.oldest (s.newerResults i cutoff) := by
      refine holdest.mem_iff.mpr (List.mem_filter.mpr ⟨hr', ?_⟩)
      rw [← hstored]
      exact (List.mem_filter.mp (h.oldest.subset hmem)).2
    obtain ⟨c, hc, hover, hlt⟩ := (mem_take_iff hs h hn hmem).mp htake
    have hlt' := hsplit c hc hover r hmem r' hmem' hpath hobject hlt
    exact (mem_goneResults hs h).mpr
      (Or.inr ((mem_take_iff hs h hn hmem').mpr ⟨c, hc, hover, hlt'⟩))

/-- Where no two results with one object are split, each object goes with its mark. -/
theorem evicts_evictUpTo {cap : Option Int} {n : Nat} (hsplit : NoneSplit i cutoff cap answers s)
    (hs : s.Sound i) (h : answers.Allowed i s cutoff)
    (hn : Least cap (evictables i cutoff answers s) n) :
    Evicts i now cutoff cap answers s (evictUpTo i now cutoff answers s n) n where
  least := hn
  usage := usage_evictUpTo now hs h n
  young r hr := by
    have hr := List.mem_of_mem_drop ((liveResults_evictUpTo now hs h n).mem_iff.mp hr)
    have hage := (List.mem_filter.mp (h.oldest.subset hr)).2
    obtain ⟨t, ht, hle⟩ := (Option.any_eq_true ..).mp hage
    exact ⟨t, ht, of_decide_eq_true hle⟩
  youngArchives a ha := by
    have ha := List.mem_of_mem_drop ((builtArchives_evictUpTo now hs h n).mem_iff.mp ha)
    exact of_decide_eq_true (List.mem_filter.mp (h.newerArchives.subset ha)).2
  marked := by
    rw [← evictKeys_map]
    rfl
  cleared := by
    rw [evictUpTo, Vault.builtArchives_withdraw _ _ _ hs.still, List.map_map]
    rfl
  objects r hr := by
    rw [mem_objects_evictUpTo, mem_live_evictUpTo now hs h]
    refine and_congr_right fun hobject => ⟨fun hkept => ⟨hr, fun hgone => hkept.1 r hgone rfl⟩,
      fun hlive => ⟨fun r' hr' hpath => hlive.2 ?_, fun _ _ hpath => by cases hpath⟩⟩
    exact hsplit.gone hs h hn hr' hr hpath (hpath ▸ hobject)
  archives a ha := by
    rw [mem_objects_evictUpTo, mem_built_evictUpTo now hs h]
    refine and_congr_right fun _ => ⟨fun hkept => ⟨ha, fun hgone => hkept.2 a hgone rfl⟩,
      fun hlive => ⟨fun _ _ hpath => (by cases hpath), fun a' ha' hpath => hlive.2 ?_⟩⟩
    have hid : a'.batchId = a.batchId := (ResultPath.archive.inj hpath).2.1
    obtain rfl := List.inj_on_of_nodup_map Vault.nodup_builtArchives (goneArchives_subset h ha')
      ha hid
    exact ha'
  others path hresults harchives := by
    rw [mem_objects_evictUpTo]
    exact and_iff_left ⟨fun r hr => hresults r (goneResults_subset h hr),
      fun a ha => harchives a (goneArchives_subset h ha)⟩

/-- Of two split results the one that stays loses its object. -/
theorem noneSplit_of_objects {cap : Option Int} {n : Nat} (hs : s.Sound i)
    (h : answers.Allowed i s cutoff) (hn : Least cap (evictables i cutoff answers s) n)
    (hobjects : ∀ r ∈ s.liveResults i,
      r.path ∈ s.shelf.objects → r ∈ (evictUpTo i now cutoff answers s n).liveResults i →
        r.path ∈ (evictUpTo i now cutoff answers s n).shelf.objects) :
    NoneSplit i cutoff cap answers s := by
  intro c hc hover r hr r' hr' hpath hobject hlt
  by_contra hstays
  have hgone : r ∈ goneResults i cutoff answers s n := (mem_goneResults hs h).mpr
    (Or.inr ((mem_take_iff hs h hn hr).mpr ⟨c, hc, hover, hlt⟩))
  have hlive' : r' ∈ s.liveResults i := List.mem_of_mem_filter (h.oldest.subset hr')
  have hkept : r' ∉ goneResults i cutoff answers s n := by
    intro hgone'
    rcases (mem_goneResults hs h).mp hgone' with haged | htake
    · obtain ⟨t, ht, hold⟩ := (Option.any_eq_true ..).mp (List.mem_filter.mp haged).2
      obtain ⟨t', ht', hnew⟩ := (Option.any_eq_true ..).mp
        (List.mem_filter.mp (h.oldest.subset hr')).2
      obtain rfl := Option.some_inj.mp (ht.symm.trans ht')
      exact absurd (of_decide_eq_true hold) (not_lt.mpr (of_decide_eq_true hnew))
    · obtain ⟨c', hc', -, hlt'⟩ := (mem_take_iff hs h hn hr').mp htake
      obtain rfl := Option.some_inj.mp (hc.symm.trans hc')
      exact hstays hlt'
  have hpath' := hobjects r' hlive' (hpath ▸ hobject)
    ((mem_live_evictUpTo now hs h).mpr ⟨hlive', hkept⟩)
  exact ((mem_objects_evictUpTo now).mp hpath').2.1 r hgone hpath

end Answers

/-- **The sweep of the results.** What is too old goes, then as little as brings the usage under
the cap, with its objects and its marks: if and only if no two results of one object are split. -/
theorem evictResults_iff {i : ι} {now : ℚ} {maxAge : Int} {cap : Option Int}
    {answers : EvictAnswers} {s : Vault ι} (hs : s.Sound i)
    (h : answers.Allowed i s (now - maxAge)) :
    (∃ n, Evicts i now (now - maxAge) cap answers s
      (run (evictResults i now maxAge cap answers) s).2 n) ↔
        NoneSplit i (now - maxAge) cap answers s := by
  obtain ⟨n, hn, hrun⟩ := run_evictResults now hs h cap
  rw [hrun]
  constructor
  · rintro ⟨_, hevicts⟩
    exact noneSplit_of_objects now hs h hn fun r hr hobject hlive =>
      (hevicts.objects r hr).mpr ⟨hobject, hlive⟩
  · exact fun hsplit => ⟨n, evicts_evictUpTo now hsplit hs h hn⟩

end Removed

/-- Three jobs that were stored at 10, 20 and 30, and a batch with an archive. -/
def sampleCatalog : Catalog Unit where
  db :=
    { jobs :=
        { rows := {1, 2, 3}
          committed := fun jobId =>
            { username := "reader", status := .done, submittedAt := 0,
              storedAt := some (10 * (jobId : ℚ)) } }
      batches := { rows := {"b"}, committed := fun _ => { status := .finished } } }
  batches :=
    { rows := {"b"}
      committed := fun _ =>
        { username := "reader", domain := "default", outputs := {"txt"},
          archiveBuiltAt := some 30 } }
  pages := fun _ => { sourceName := [], fmt := "txt", outputs := {"txt"} }

/-- The results of three jobs, one of which has a second format. -/
def sampleVault (fmt : Text) : Vault Unit where
  shelf :=
    { catalog := sampleCatalog
      results := [{ jobId := 1, fmt := "alto".toList }, { jobId := 2, fmt := "alto".toList },
        { jobId := 2, fmt := fmt }, { jobId := 3, fmt := "alto".toList }]
      objects := {.output "reader" 1 "xml".toList, .output "reader" 2 "xml".toList,
        .output "reader" 2 (extFor fmt), .output "reader" 3 "xml".toList,
        .archive "reader" "b" false} }
  sizeBytes := fun key => some (4 * (key.1 : Int))
  presignedUrl := fun _ => none
  archiveSizeBytes := fun _ => some 6

theorem sound_sampleVault {fmt : Text} (h : fmt = "txt".toList ∨ fmt = "xml".toList) :
    (sampleVault fmt).Sound () where
  still := ⟨⟨rfl, rfl, rfl⟩, rfl⟩
  keys := by rcases h with rfl | rfl <;> decide
  stored := by rcases h with rfl | rfl <;> decide +kernel
  sizes := by rcases h with rfl | rfl <;> decide +kernel
  archiveSizes := by rcases h with rfl | rfl <;> decide +kernel
  results_le := by rcases h with rfl | rfl <;> decide +kernel
  archives_le := by rcases h with rfl | rfl <;> decide +kernel

/-- The rows as they are. -/
def sampleAnswers : EvictAnswers := ⟨id, id, id, id⟩

theorem allowed_sampleAnswers {fmt : Text} (h : fmt = "txt".toList ∨ fmt = "xml".toList) :
    sampleAnswers.Allowed () (sampleVault fmt) (100 - (85 : Int)) := by
  rcases h with rfl | rfl <;>
    refine ⟨⟨_, List.Perm.refl _, ?_, ?_⟩, ⟨_, List.Perm.refl _, ?_, ?_⟩,
      ⟨_, List.Perm.refl _, ?_, ?_⟩, ⟨_, List.Perm.refl _, ?_, ?_⟩⟩ <;>
    decide +kernel

/-- Results `alto` and `txt` of the second job: the result of the first is too old, the archive and
the second's `alto` go over the cap, and every object is where its mark says. -/
theorem evictResults_iff_sample : (∃ n, Evicts () 100 (100 - (85 : Int)) (some 25) sampleAnswers
      (sampleVault "txt".toList)
      (run (evictResults () 100 85 (some 25) sampleAnswers) (sampleVault "txt".toList)).2 n) ∧
    (run (evictResults () 100 85 (some 25) sampleAnswers)
      (sampleVault "txt".toList)).2.shelf.objects =
        {.output "reader" 2 "txt".toList, .output "reader" 3 "xml".toList} := by
  refine ⟨(evictResults_iff (sound_sampleVault (Or.inl rfl))
    (allowed_sampleAnswers (Or.inl rfl))).mpr ?_, by decide +kernel⟩
  intro c hc
  cases hc
  decide +kernel

/-- Results `alto` and `xml` of the second job have one object, which goes with the first of them:
the other is still live. -/
theorem shared_object_lost : (sampleVault "xml".toList).Sound () ∧
    sampleAnswers.Allowed () (sampleVault "xml".toList) (100 - (85 : Int)) ∧
    ¬ ∃ n, Evicts () 100 (100 - (85 : Int)) (some 25) sampleAnswers (sampleVault "xml".toList)
      (run (evictResults () 100 85 (some 25) sampleAnswers) (sampleVault "xml".toList)).2 n := by
  refine ⟨sound_sampleVault (Or.inr rfl), allowed_sampleAnswers (Or.inr rfl), ?_⟩
  rintro ⟨n, hevicts⟩
  let lost : LiveResult := ⟨2, "xml".toList, "reader", some 8, some 20⟩
  have hbefore : lost ∈ (sampleVault "xml".toList).liveResults () := by decide +kernel
  have hstored : lost.path ∈ (sampleVault "xml".toList).shelf.objects := by decide +kernel
  have hlive : lost ∈ (run (evictResults () 100 85 (some 25) sampleAnswers)
      (sampleVault "xml".toList)).2.liveResults () := by decide +kernel
  have hgone : lost.path ∉ (run (evictResults () 100 85 (some 25) sampleAnswers)
      (sampleVault "xml".toList)).2.shelf.objects := by decide +kernel
  exact hgone ((hevicts.objects lost hbefore).mpr ⟨hstored, hlive⟩)

end Taas

import Taas.Infra.Lists
import Taas.Services.BatchArchive

/-!
# Whose results the archive holds

`page_path` drops a name's extension, and the parts that name nothing or climb. Two pages
whose names differ only there get one path, and the second page's text takes the first one's
place; a page whose path runs through another's cannot be extracted.

* `KeepsResults` — the archive gives every page its own results.
* `place` — a name's folders and stem, with the extension of the output.
* `components_pagePath` — `page_path` leads to the page's place, under `pages`.
* `keepsResults_iff` — the archive keeps every page's results exactly when the places are
  apart.
-/

namespace Taas

open Infra

variable {β : Type} (io : ArchiveIo β) (username : Text)

/-- The path is one of a file below `pages`. -/
def UnderPages (path : Text) : Prop :=
  "pages/".toList <+: path ∧ components path ≠ ["pages".toList] ∧ ['.', '.'] ∉ components path

/-- The archive is built, its member paths are pairwise distinct and all under `pages` except
the manifest, and, extracted, it holds at every path that the manifest names for a page and
an output what is stored for that page's job and output. -/
def KeepsResults (rows : List PageRow) : Prop :=
  ∃ members manifest files,
    buildResultsArchive io username rows = some members ∧ buildManifest rows = some manifest ∧
    (members.map fun m => components m.name).Nodup ∧
    (∀ m ∈ members, m.name = manifestName ∨ UnderPages m.name) ∧
    extract members = some files ∧
    ∀ entry ∈ manifest, ∀ named ∈ entry.outputs,
      files.read (components named.2) = io.stored username entry.jobId named.1

/-! ## Places -/

/-- The file name has something, and not just a dot, before its extension. -/
def HasStem (sourceName : Text) : Prop :=
  (PurePosixPath.parse sourceName).stem ≠ [] ∧ (PurePosixPath.parse sourceName).stem ≠ ['.']

/-- A name's folders and its file name without the extension, `..` left out. -/
def keptNames (sourceName : Text) : List Text :=
  let path := PurePosixPath.parse sourceName
  (path.tail.dropLast ++ [path.stem]).filter (· ≠ ['.', '.'])

/-- What stands before the extension if nothing of the name is kept. -/
def emptyStem (sourceName : Text) : Text :=
  if (PurePosixPath.parse sourceName).root = ['/', '/'] then [] else ['.']

/-- Where an output of a page belongs, below `pages`. -/
def place (page : PageRow × Text) : List Text :=
  let kept := keptNames page.1.sourceName
  kept.dropLast ++
    components (kept.getLast?.getD (emptyStem page.1.sourceName) ++ '.' :: extFor page.2)

/-- Every stored output of the pages. -/
def storedOutputs (rows : List PageRow) : List (PageRow × Text) :=
  rows.flatMap fun row => row.outputs.map fun output => (row, output)

/-- Every stored output has a place below `pages`, and none is another's, or on the way to
it. -/
structure PlacesApart (rows : List PageRow) : Prop where
  stem : ∀ page ∈ storedOutputs rows, HasStem page.1.sourceName
  inside : ∀ page ∈ storedOutputs rows, place page ≠ [] ∧ ['.', '.'] ∉ place page
  apart : (storedOutputs rows).Pairwise fun a b => Apart (place a) (place b)

instance (sourceName : Text) : Decidable (HasStem sourceName) :=
  inferInstanceAs (Decidable (_ ∧ _))

/-! ## Paths -/

/-- The parts that are kept are those of a path again. -/
theorem kept_parts {q : PurePosixPath} (hq : q.WellFormed) :
    q.parts.filter (· ∉ unsafeParts) =
      PurePosixPath.parts
        ⟨if q.root = ['/'] then [] else q.root, q.tail.filter (· ≠ ['.', '.'])⟩ := by
  have htail : q.tail.filter (· ∉ unsafeParts) = q.tail.filter (· ≠ ['.', '.']) := by
    refine List.filter_congr fun n hn => ?_
    obtain ⟨hne, hdot, hslash⟩ := hq.tail n hn
    have hroot : n ≠ ['/'] := by
      rintro rfl
      simp at hslash
    simp [unsafeParts, hne, hdot, hroot]
  unfold PurePosixPath.parts
  rcases hq.root with hr | hr | hr
  · rw [if_pos hr, htail]
    simp [hr]
  · rw [if_neg (by simp [hr]), List.filter_cons_of_neg (by simp [hr, unsafeParts]), htail]
    simp [hr]
  · rw [if_neg (by simp [hr]), List.filter_cons_of_pos (by simp [hr, unsafeParts]), htail]
    simp [hr]

/-- `page_path` answers for a name with a stem, with a path to the place. -/
theorem components_pagePath {page : PageRow × Text} {path : Text}
    (h : pagePath page.1.sourceName page.2 = some path) :
    HasStem page.1.sourceName ∧ "pages/".toList <+: path ∧
      components path = "pages".toList :: place page := by
  have hparse := PurePosixPath.wellFormed_parse page.1.sourceName
  unfold pagePath at h
  rw [hparse.withSuffix_nil] at h
  split at h
  · cases h
  rename_i hstem
  have hstem := not_or.mp hstem
  have hkept := hparse.dropSuffix (hparse.withSuffix_nil.trans (if_neg (not_or.mpr hstem)))
  simp only [Option.bind_eq_bind, Option.bind_some, Option.pure_def, Option.some.injEq] at h
  rw [kept_parts hkept] at h
  generalize hsafe : (⟨_, _⟩ : PurePosixPath) = safe at h
  have hwf : safe.WellFormed := by
    subst hsafe
    refine ⟨?_, fun n hn => hkept.tail n (List.mem_of_mem_filter hn)⟩
    rcases hparse.root with hr | hr | hr <;> simp [hr]
  rw [hwf.ofSegments_parts] at h
  have hpages : IsComponent "pages".toList := by
    refine ⟨?_, ?_, ?_⟩ <;> decide
  refine ⟨hstem, ⟨_, h⟩, ?_⟩
  have hsplit : path = "pages".toList ++ '/' :: (safe.str ++ '.' :: extFor page.2) := by
    rw [← h]
    rfl
  rw [hsplit, hpages.components_slash, hwf.components_str_append]
  have htail : safe.tail = keptNames page.1.sourceName := by
    rw [← hsafe]
    rfl
  have hleaf : safe.leaf =
      (keptNames page.1.sourceName).getLast?.getD (emptyStem page.1.sourceName) := by
    unfold PurePosixPath.leaf emptyStem
    rw [htail, ← hsafe]
    rcases hparse.root with hr | hr | hr <;> simp [hr]
  rw [htail, hleaf]
  rfl

theorem exists_pagePath {sourceName : Text} (h : HasStem sourceName) (output : Text) :
    ∃ path, pagePath sourceName output = some path := by
  unfold pagePath
  rw [(PurePosixPath.wellFormed_parse sourceName).withSuffix_nil, if_neg (not_or.mpr h)]
  exact ⟨_, rfl⟩

/-! ## Building -/

theorem perm_storedOutputs (rows : List PageRow) :
    (archivedOutputs rows).Perm (storedOutputs rows) :=
  List.Perm.flatMap_left rows fun row _ => (List.perm_insertionSort _ row.outputs).map _

variable {io username} {rows : List PageRow}

theorem addOutput_eq_some {page : PageRow × Text} {m : ArchiveMember β}
    (h : addOutput io username page.1 page.2 = some m) :
    pagePath page.1.sourceName page.2 = some m.name ∧
      io.stored username page.1.jobId page.2 = some m.data := by
  obtain ⟨data, hdata, h⟩ := Option.bind_eq_some_iff.mp h
  obtain ⟨path, hpath, h⟩ := Option.bind_eq_some_iff.mp h
  obtain rfl := Option.some.inj h
  exact ⟨hpath, hdata⟩

/-- What the manifest names for an output of a page is the path `page_path` gives. -/
theorem mem_manifest {manifest : List ManifestEntry} (h : buildManifest rows = some manifest)
    {entry : ManifestEntry} (hentry : entry ∈ manifest) {named : Text × Text}
    (hnamed : named ∈ entry.outputs) :
    ∃ page ∈ archivedOutputs rows, page.1.jobId = entry.jobId ∧ page.2 = named.1 ∧
      pagePath page.1.sourceName page.2 = some named.2 := by
  have hrows := mapM_eq_some_iff.mp h
  have hentry : some entry ∈ manifest.map some := List.mem_map_of_mem hentry
  rw [← hrows] at hentry
  obtain ⟨row, hrow, hentry⟩ := List.mem_map.mp hentry
  obtain ⟨outputs, houtputs, hentry⟩ := Option.bind_eq_some_iff.mp hentry
  obtain rfl := Option.some.inj hentry
  have hnamed : some named ∈ outputs.map some := List.mem_map_of_mem hnamed
  rw [← mapM_eq_some_iff.mp houtputs] at hnamed
  obtain ⟨output, houtput, hnamed⟩ := List.mem_map.mp hnamed
  obtain ⟨path, hpath, hnamed⟩ := Option.bind_eq_some_iff.mp hnamed
  obtain rfl := Option.some.inj hnamed
  exact ⟨(row, output), List.mem_flatMap.mpr ⟨row, hrow, List.mem_map_of_mem houtput⟩,
    rfl, rfl, hpath⟩

theorem exists_manifest (h : ∀ page ∈ archivedOutputs rows, HasStem page.1.sourceName) :
    ∃ manifest, buildManifest rows = some manifest := by
  refine exists_mapM fun row hrow => ?_
  obtain ⟨outputs, houtputs⟩ : ∃ outputs, (row.sortedOutputs.mapM fun output => do
      let path ← pagePath row.sourceName output
      return (output, path)) = some outputs := by
    refine exists_mapM fun output houtput => ?_
    have hstem : HasStem row.sourceName :=
      h (row, output) (List.mem_flatMap.mpr ⟨row, hrow, List.mem_map_of_mem houtput⟩)
    obtain ⟨path, hpath⟩ := exists_pagePath hstem output
    exact ⟨(output, path), by simp [hpath]⟩
  exact ⟨_, by rw [houtputs]; rfl⟩

/-- The members of an archive that was built: the pages' outputs, and the manifest. -/
theorem buildResultsArchive_eq_some {members : List (ArchiveMember β)}
    (h : buildResultsArchive io username rows = some members) :
    ∃ pages manifest, buildManifest rows = some manifest ∧
      (archivedOutputs rows).map (fun page => addOutput io username page.1 page.2) =
        pages.map some ∧
      members = pages ++ [⟨manifestName, io.dumps manifest⟩] := by
  obtain ⟨pages, hpages, h⟩ := Option.bind_eq_some_iff.mp h
  obtain ⟨manifest, hmanifest, h⟩ := Option.bind_eq_some_iff.mp h
  exact ⟨pages, manifest, hmanifest, mapM_eq_some_iff.mp hpages, (Option.some.inj h).symm⟩

/-- The pages' members stand at the pages' places. -/
theorem paths_of_pages {pages : List (ArchiveMember β)}
    (h : (archivedOutputs rows).map (fun page => addOutput io username page.1 page.2) =
      pages.map some) :
    pages.map (fun m => components m.name) =
      (archivedOutputs rows).map fun page => "pages".toList :: place page := by
  generalize archivedOutputs rows = outputs at h ⊢
  induction outputs generalizing pages with
  | nil =>
    obtain rfl := List.map_eq_nil_iff.mp h.symm
    rfl
  | cons page outputs ih =>
    match pages, h with
    | m :: pages, h =>
      obtain ⟨hm, hrest⟩ := List.cons_eq_cons.mp h
      rw [List.map_cons, List.map_cons, ih hrest,
        (components_pagePath (addOutput_eq_some hm).1).2.2]

/-! ## Extracting -/

theorem apart_cons {a b : List Text} (x : Text) : Apart (x :: a) (x :: b) ↔ Apart a b := by
  simp [Apart, List.cons_prefix_cons]

theorem pairwise_places :
    (storedOutputs rows).Pairwise (fun a b => Apart (place a) (place b)) ↔
      ((archivedOutputs rows).map fun page => "pages".toList :: place page).Pairwise Apart := by
  rw [List.pairwise_map,
    List.Perm.pairwise_iff (fun h => h.symm) (perm_storedOutputs rows).symm]
  simp only [apart_cons]

theorem components_manifestName : components manifestName = [manifestName] := by decide

/-- The manifest is apart from every page. -/
theorem apart_manifest (path : List Text) :
    Apart ("pages".toList :: path) (components manifestName) := by
  have hne : "pages".toList ≠ manifestName := by decide
  rw [components_manifestName]
  unfold Apart
  rw [List.cons_prefix_cons, List.cons_prefix_cons]
  exact ⟨fun h => hne h.1, fun h => hne h.1.symm⟩

/-- Where the members of a built archive are: the pages at their places, and the manifest. -/
theorem paths_of_members {pages : List (ArchiveMember β)} {manifest : ArchiveMember β}
    (h : (archivedOutputs rows).map (fun page => addOutput io username page.1 page.2) =
      pages.map some) (hname : manifest.name = manifestName) :
    (pages ++ [manifest]).map (fun m => components m.name) =
      ((archivedOutputs rows).map fun page => "pages".toList :: place page) ++
        [components manifestName] := by
  rw [List.map_append, paths_of_pages h, List.map_singleton, hname]

theorem pairwise_paths {pages : List (ArchiveMember β)} {manifest : ArchiveMember β}
    (h : (archivedOutputs rows).map (fun page => addOutput io username page.1 page.2) =
      pages.map some) (hname : manifest.name = manifestName) :
    ((pages ++ [manifest]).map fun m => (components m.name, m.data)).Pairwise
        (fun a b => Apart a.1 b.1) ↔
      (storedOutputs rows).Pairwise fun a b => Apart (place a) (place b) := by
  rw [← List.pairwise_map (f := Prod.fst), List.map_map]
  simp only [Function.comp_def]
  rw [paths_of_members h hname, List.pairwise_append, pairwise_places]
  constructor
  · exact fun h => h.1
  · refine fun h => ⟨h, List.pairwise_singleton _ _, fun path hpath last hlast => ?_⟩
    obtain ⟨page, -, rfl⟩ := List.mem_map.mp hpath
    rw [List.mem_singleton.mp hlast]
    exact apart_manifest _

theorem mem_storedOutputs {page : PageRow × Text} :
    page ∈ archivedOutputs rows ↔ page ∈ storedOutputs rows :=
  (perm_storedOutputs rows).mem_iff

/-- A member that is not the manifest is a page's, at its place. -/
theorem mem_pages {pages : List (ArchiveMember β)}
    (h : (archivedOutputs rows).map (fun page => addOutput io username page.1 page.2) =
      pages.map some) :
    (∀ m ∈ pages, ∃ page ∈ archivedOutputs rows,
      addOutput io username page.1 page.2 = some m) ∧
    ∀ page ∈ archivedOutputs rows, ∃ m ∈ pages,
      addOutput io username page.1 page.2 = some m := by
  constructor
  · intro m hm
    have hm : some m ∈ pages.map some := List.mem_map_of_mem hm
    rw [← h] at hm
    exact List.mem_map.mp hm
  · intro page hpage
    have hm := List.mem_map_of_mem (f := fun page : PageRow × Text =>
      addOutput io username page.1 page.2) hpage
    rw [h] at hm
    obtain ⟨m, hm, heq⟩ := List.mem_map.mp hm
    exact ⟨m, hm, heq.symm⟩

/-- A page's path is one below `pages` exactly when its place is. -/
theorem underPages_iff {page : PageRow × Text} {path : Text}
    (h : pagePath page.1.sourceName page.2 = some path) :
    UnderPages path ↔ place page ≠ [] ∧ ['.', '.'] ∉ place page := by
  obtain ⟨-, hfolders, hpath⟩ := components_pagePath h
  have hne : ['.', '.'] ≠ "pages".toList := by decide
  unfold UnderPages
  rw [hpath, List.mem_cons, not_or]
  constructor
  · rintro ⟨-, hsome, -, hclimb⟩
    exact ⟨fun he => hsome (by rw [he]), hclimb⟩
  · rintro ⟨hsome, hclimb⟩
    exact ⟨hfolders, fun he => hsome (List.cons.inj he).2, hne, hclimb⟩

theorem not_pages_manifest {page : PageRow × Text} {path : Text}
    (h : pagePath page.1.sourceName page.2 = some path) : path ≠ manifestName := by
  intro he
  have hpath := (components_pagePath h).2.2
  rw [he, components_manifestName] at hpath
  have hne : manifestName ≠ "pages".toList := by decide
  exact hne (List.cons.inj hpath).1

/-- What the archive keeps, it keeps at places apart. -/
theorem KeepsResults.placesApart (h : KeepsResults io username rows) : PlacesApart rows := by
  obtain ⟨members, manifest, files, hbuild, -, hnodup, hunder, hfiles, -⟩ := h
  obtain ⟨pages, manifest, -, hpages, rfl⟩ := buildResultsArchive_eq_some hbuild
  obtain ⟨-, hadded⟩ := mem_pages hpages
  constructor
  · intro page hpage
    obtain ⟨m, -, hm⟩ := hadded page (mem_storedOutputs.mpr hpage)
    exact (components_pagePath (addOutput_eq_some hm).1).1
  · intro page hpage
    obtain ⟨m, hmem, hm⟩ := hadded page (mem_storedOutputs.mpr hpage)
    have hpath := (addOutput_eq_some hm).1
    rcases hunder m (List.mem_append_left _ hmem) with hname | hname
    · exact absurd hname (not_pages_manifest hpath)
    · exact (underPages_iff hpath).mp hname
  · refine (pairwise_paths hpages rfl).mp (FileTree.apart_of_extract ?_ hfiles)
    rw [List.map_map]
    exact hnodup

/-- Nothing is raised: every name has a stem, and every output is stored. -/
theorem PlacesApart.exists_build (h : PlacesApart rows)
    (hstored : ∀ row ∈ rows, ∀ output ∈ row.outputs,
      (io.stored username row.jobId output).isSome) :
    ∃ pages manifest, buildManifest rows = some manifest ∧
      (archivedOutputs rows).map (fun page => addOutput io username page.1 page.2) =
        pages.map some ∧
      buildResultsArchive io username rows =
        some (pages ++ [⟨manifestName, io.dumps manifest⟩]) := by
  have hstem : ∀ page ∈ archivedOutputs rows, HasStem page.1.sourceName :=
    fun page hpage => h.stem page (mem_storedOutputs.mp hpage)
  obtain ⟨manifest, hmanifest⟩ := exists_manifest hstem
  obtain ⟨pages, hpages⟩ : ∃ pages, (archivedOutputs rows).mapM
      (fun page => addOutput io username page.1 page.2) = some pages := by
    refine exists_mapM fun page hpage => ?_
    obtain ⟨row, hrow, hout⟩ := List.mem_flatMap.mp (mem_storedOutputs.mp hpage)
    obtain ⟨output, houtput, rfl⟩ := List.mem_map.mp hout
    obtain ⟨data, hdata⟩ := Option.isSome_iff_exists.mp (hstored row hrow output houtput)
    obtain ⟨path, hpath⟩ := exists_pagePath (hstem _ hpage) output
    exact ⟨⟨path, data⟩, by simp [addOutput, hdata, hpath]⟩
  exact ⟨pages, manifest, hmanifest, mapM_eq_some_iff.mp hpages,
    by simp [buildResultsArchive, hpages, hmanifest]⟩

/-- At places apart, every member is extracted, and reads as it was stored. -/
theorem PlacesApart.keepsResults (h : PlacesApart rows)
    (hstored : ∀ row ∈ rows, ∀ output ∈ row.outputs,
      (io.stored username row.jobId output).isSome) : KeepsResults io username rows := by
  obtain ⟨pages, manifest, hmanifest, hpages, hbuild⟩ := h.exists_build hstored
  have hapart := (pairwise_paths hpages
    (rfl : (⟨manifestName, io.dumps manifest⟩ : ArchiveMember β).name = manifestName)).mpr h.apart
  obtain ⟨hextract, hread⟩ := FileTree.extract_of_apart hapart
  obtain ⟨hfrom, hadded⟩ := mem_pages hpages
  refine ⟨_, manifest, _, hbuild, hmanifest, ?_, ?_, hextract, ?_⟩
  · rw [List.nodup_iff_pairwise_ne, List.pairwise_map]
    rw [List.pairwise_map] at hapart
    exact hapart.imp fun h => (FileTree.apart_iff.mp h).2
  · intro m hm
    rcases List.mem_append.mp hm with hm | hm
    · obtain ⟨page, hpage, hm⟩ := hfrom m hm
      exact Or.inr ((underPages_iff (addOutput_eq_some hm).1).mpr
        (h.inside page (mem_storedOutputs.mp hpage)))
    · rw [List.mem_singleton.mp hm]
      exact Or.inl rfl
  · intro entry hentry named hnamed
    -- The manifest names the path that the page's own member was added under.
    obtain ⟨page, hpage, hjob, houtput, hpath⟩ := mem_manifest hmanifest hentry hnamed
    obtain ⟨m, hmem, hm⟩ := hadded page hpage
    obtain ⟨hname, hdata⟩ := addOutput_eq_some hm
    have hnamed : named.2 = m.name := Option.some.inj (hpath.symm.trans hname)
    rw [hnamed, ← hjob, ← houtput, hdata]
    exact hread _ (List.mem_map_of_mem (List.mem_append_left _ hmem))

/-- **The archive gives every page its own results exactly when the places of the stored
outputs are apart.** -/
theorem archive_keeps_results
    (hstored : ∀ row ∈ rows, ∀ output ∈ row.outputs,
      (io.stored username row.jobId output).isSome) :
    KeepsResults io username rows ↔ PlacesApart rows :=
  ⟨KeepsResults.placesApart, fun h => h.keepsResults hstored⟩

/-- Results that read as the path they are stored at. -/
def sampleIo : ArchiveIo Text := ⟨some, some, fun _ => []⟩

/-- Two pages of one folder, the first with both outputs. -/
def twoScans : List PageRow :=
  [⟨"1".toList, "scans/p1.tif".toList, .done, none, ["txt".toList, "alto".toList]⟩,
    ⟨"2".toList, "scans/p2.tif".toList, .done, none, ["alto".toList]⟩]

theorem archive_keeps_results_sample : KeepsResults sampleIo "alice".toList twoScans :=
  (archive_keeps_results fun _ _ _ _ => rfl).mpr
    ⟨by decide +kernel, by decide +kernel, by decide +kernel⟩

/-- One image as TIFF and as PNG, both done. -/
def twoFormats : List PageRow :=
  [⟨"1".toList, "p1.tif".toList, .done, none, ["alto".toList]⟩,
    ⟨"2".toList, "p1.png".toList, .done, none, ["alto".toList]⟩]

/-- Two pages with different names, each with its own text: the archive has one path for
both. -/
theorem archive_path_shared :
    (twoFormats.map PageRow.sourceName).Nodup ∧
      (∀ row ∈ twoFormats, (row.outputs.map extFor).Nodup) ∧
      (∀ row ∈ twoFormats, ∀ output ∈ row.outputs,
        (sampleIo.stored "alice".toList row.jobId output).isSome) ∧
      ¬KeepsResults sampleIo "alice".toList twoFormats := by
  refine ⟨by decide +kernel, by decide +kernel, fun _ _ _ _ => rfl, ?_⟩
  rintro ⟨members, -, -, hbuild, -, hnodup, -⟩
  have hpaths : (buildResultsArchive sampleIo "alice".toList twoFormats).map
      (fun ms => ms.map fun m => m.name) =
        some ["pages/p1.xml".toList, "pages/p1.xml".toList, manifestName] := by
    decide +kernel
  rw [hbuild, Option.map_some, Option.some.injEq] at hpaths
  have hnames := congrArg (List.map components) hpaths
  rw [List.map_map] at hnames
  have hnodup : (members.map (components ∘ ArchiveMember.name)).Nodup := hnodup
  rw [hnames] at hnodup
  exact absurd hnodup (by decide +kernel)

end Taas

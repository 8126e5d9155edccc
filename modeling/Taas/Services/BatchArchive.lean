import Mathlib.Data.Char
import Mathlib.Data.List.Sort
import Taas.Infra.FileTree
import Taas.Infra.PosixPath
import Taas.Vocabulary

/-!
# A batch's results archive

`app/services/batch_archive.py`, with `ext_for` of `app/engines/outputs.py`: where a page's
outputs go in the archive, its manifest, and its members in the order they are written.

* `pagePath`, `buildManifest`, `buildResultsArchive` — the functions; `none` is an exception.
* `extract` — the archive extracted, member by member.
-/

namespace Taas

open Infra

variable {β : Type}

/-- `OUTPUT_EXT` -/
def outputExt : List (Text × Text) :=
  [("alto".toList, "xml".toList), ("txt".toList, "txt".toList)]

/-- The file extension of an output format; the name itself, if it has none. -/
def extFor (output : Text) : Text := (outputExt.lookup output).getD output

/-- `MANIFEST` -/
def manifestName : Text := "manifest.json".toList

/-- A page as the archive is built from it. -/
structure PageRow where
  /-- The job's UUID, as text. -/
  jobId : Text
  sourceName : Text
  status : JobStatus
  error : Option Text := none
  /-- The outputs stored for it (empty unless done). -/
  outputs : List Text
deriving DecidableEq

/-- `sorted(row.outputs)` -/
def PageRow.sortedOutputs (row : PageRow) : List Text := row.outputs.insertionSort (· ≤ ·)

/-- The parts of a name that a path in the archive never holds. -/
def unsafeParts : List Text := [[], ['.'], ['.', '.'], ['/']]

/-- Where a page's output goes in the archive: `pages/<its path, minus extension>.<ext>`. -/
def pagePath (sourceName output : Text) : Option Text := do
  let stem ← (PurePosixPath.parse sourceName).withSuffix []
  -- A path that tries to leave the archive root is kept inside it.
  let safe := PurePosixPath.ofSegments (stem.parts.filter (· ∉ unsafeParts))
  return "pages/".toList ++ (safe.str ++ '.' :: extFor output)

/-- An entry of the manifest. -/
structure ManifestEntry where
  sourceName : Text
  jobId : Text
  status : JobStatus
  /-- Each output, and its path in the archive. -/
  outputs : List (Text × Text)
  error : Option Text
deriving DecidableEq

/-- One entry per page, in the order given. -/
def buildManifest (rows : List PageRow) : Option (List ManifestEntry) :=
  rows.mapM fun row => do
    let outputs ← row.sortedOutputs.mapM fun output => do
      let path ← pagePath row.sourceName output
      return (output, path)
    return ⟨row.sourceName, row.jobId, row.status, outputs, row.error⟩

/-- The results bucket, and what the archive is built with. -/
structure ArchiveIo (β : Type) where
  /-- The object at a path of the bucket. -/
  getObject : Text → Option β
  decompress : β → Option β
  /-- `json.dumps(...).encode()` of the manifest -/
  dumps : List ManifestEntry → β

variable (io : ArchiveIo β) (username : Text)

/-- What is stored for an output of a job. -/
def ArchiveIo.stored (jobId output : Text) : Option β := do
  let object ← io.getObject (username ++ '/' :: jobId ++ '.' :: extFor output ++ ".zst".toList)
  io.decompress object

/-- A member of the archive. -/
structure ArchiveMember (β : Type) where
  name : Text
  data : β
deriving DecidableEq

/-- An output of a page, as it is added. -/
def addOutput (row : PageRow) (output : Text) : Option (ArchiveMember β) := do
  let data ← io.stored username row.jobId output
  let path ← pagePath row.sourceName output
  return ⟨path, data⟩

/-- The outputs of the pages, in the order they are added. -/
def archivedOutputs (rows : List PageRow) : List (PageRow × Text) :=
  rows.flatMap fun row => row.sortedOutputs.map fun output => (row, output)

/-- The archive of `rows`: its members in order, the manifest last. -/
def buildResultsArchive (rows : List PageRow) : Option (List (ArchiveMember β)) := do
  let pages ← (archivedOutputs rows).mapM fun page => addOutput io username page.1 page.2
  let manifest ← buildManifest rows
  return pages ++ [⟨manifestName, io.dumps manifest⟩]

/-- The archive extracted into an empty directory, member by member. -/
def extract (members : List (ArchiveMember β)) : Option (FileTree Text β) :=
  FileTree.extract [] (members.map fun m => (components m.name, m.data))

example : pagePath "scans/p1.tif".toList "alto".toList = some "pages/scans/p1.xml".toList := by
  decide +kernel

example : pagePath "../../etc/p.jpg".toList "alto".toList = some "pages/etc/p.xml".toList := by
  decide +kernel

end Taas

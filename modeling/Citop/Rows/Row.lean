import Citop.Cache.Store

/-!
The rows of the build tree (`repository_builds.go`): `buildRowKey`, `buildRow`, its `Tabular`
columns, and the conversions `buildRowFromBuild`, `buildRowFromStage` and `buildRowFromJob`.

`repository_builds.go` was written against a revision of the domain types that the
sources do not contain: build IDs are integers there, and stages and jobs point back to their
build and stage. The namespace `Rows` holds that revision of `Build`, `Stage` and `Job`, with
each back pointer reduced to the fields read through it (`BuildRef`, and a stage's ID).

* `sortedRows` is the loop the three conversions share: the keys of a map in ascending
  order (`sort.Ints`), and the row of each entry.
* `buildRowFromBuild`: the build row, its jobs in ascending job ID, then its stages in
  ascending stage ID, each stage row with its own jobs.
-/

namespace Citop.Rows

/-- `buildRowKey`: a build, stage or job of an account; a stage or job ID of `0` means that
the row is not a stage or job. -/
structure BuildRowKey where
  accountID : String
  buildID : Int
  stageID : Int
  jobID : Int
  deriving DecidableEq, Repr

/-- `%v` of a `buildRowKey`. -/
def BuildRowKey.format (k : BuildRowKey) : String :=
  "\x7b" ++ k.accountID ++ " " ++ toString k.buildID ++ " " ++ toString k.stageID ++ " " ++
    toString k.jobID ++ "\x7d"

/-- `buildRow`: one node of the tree, mirroring a build, a stage or a job. `prefix_` is the
field `prefix`, a keyword here as `type` is in Go. -/
structure BuildRow where
  key : BuildRowKey
  id : String
  type_ : String
  state : String
  name : String
  prefix_ : String
  startedAt : NullTime
  finishedAt : NullTime
  updatedAt : NullTime
  children : List BuildRow
  traversable : Bool
  url : String
  deriving Repr

/-- `buildRow.Tabular`: the column values the UI shows. `utils.ElapsedSince` reads the clock,
so the formatting of a set time is a parameter. -/
def BuildRow.tabular (elapsedSince : Int → String) (b : BuildRow) : List (String × String) :=
  let nullTimeToString (t : NullTime) : String := if t.valid then elapsedSince t.time else "-"
  [("ACCOUNT", b.key.accountID), ("STATE", b.state), (" NAME", b.prefix_ ++ b.name),
    ("BUILD", toString b.key.buildID), ("STAGE", toString b.key.stageID),
    ("JOB", toString b.key.jobID), ("TYPE", b.type_), ("ID", b.id),
    ("STARTED", nullTimeToString b.startedAt), ("FINISHED", nullTimeToString b.finishedAt),
    ("UPDATED", nullTimeToString b.updatedAt)]

/-! ### The domain types as `repository_builds.go` reads them -/

/-- What a stage or a job reads through its `Build` pointer: the account ID of the build's
repository, and the build ID. -/
structure BuildRef where
  accountID : String
  id : Int
  deriving DecidableEq, Repr

/-- `Job`, with its `Build` pointer and its `Stage` pointer (nil for a job of the build
itself, otherwise the ID of the stage read through it). -/
structure Job where
  build : BuildRef
  stage : Option Int
  id : Int
  state : State
  name : String
  createdAt : NullTime
  startedAt : NullTime
  finishedAt : NullTime
  webURL : String
  deriving DecidableEq, Repr

/-- `Stage`, with its `Build` pointer. -/
structure Stage where
  build : BuildRef
  id : Int
  name : String
  state : State
  jobs : GoMap Int Job

/-- `Build`, as the cache stores it: its repository is set and its maps are not nil. -/
structure Build where
  repository : Repository
  id : Int
  commit : Commit
  state : State
  startedAt : NullTime
  finishedAt : NullTime
  updatedAt : Int
  webURL : String
  stages : GoMap Int Stage
  jobs : GoMap Int Job

/-- The account and ID a build's stages and jobs should point back to. -/
def Build.ref (b : Build) : BuildRef := ⟨b.repository.accountID, b.id⟩

/-! ### From builds to rows -/

/-- The loop the conversions share: the map's keys in ascending order, then the row of the
entry under each. -/
def sortedRows {α : Type} (m : GoMap Int α) (row : α → BuildRow) : List BuildRow :=
  (m.keys.insertionSort (· ≤ ·)).filterMap fun k => (m.lookup k).map row

/-- A row the loop yields is the row of some entry. -/
lemma mem_sortedRows {α : Type} {m : GoMap Int α} {f : α → BuildRow} {r : BuildRow}
    (hr : r ∈ sortedRows m f) : ∃ e ∈ m.entries, r = f e.2 := by
  obtain ⟨k, -, hk⟩ := List.mem_filterMap.mp hr
  obtain ⟨a, ha, rfl⟩ := Option.map_eq_some'.mp hk
  exact ⟨⟨k, a⟩, AList.mem_lookup_iff.mp ha, rfl⟩

/-- `strings.SplitN(message, "\n", 2)[0]`: the text before the first line break. -/
def firstLine (message : String) : String := ⟨message.data.takeWhile (· ≠ '\n')⟩

/-- `buildRowFromJob`. -/
def buildRowFromJob (j : Job) : BuildRow where
  key := ⟨j.build.accountID, j.build.id, j.stage.getD 0, j.id⟩
  id := ""
  type_ := "J"
  state := j.state.val
  name := j.name
  prefix_ := ""
  startedAt := j.startedAt
  finishedAt := j.finishedAt
  updatedAt := coalesce [j.finishedAt, j.startedAt, j.createdAt]
  children := []
  traversable := false
  url := j.webURL

/-- `buildRowFromStage`. -/
def buildRowFromStage (s : Stage) : BuildRow where
  key := ⟨s.build.accountID, s.build.id, s.id, 0⟩
  id := ""
  type_ := "S"
  state := s.state.val
  name := s.name
  prefix_ := ""
  startedAt := {}
  finishedAt := {}
  updatedAt := {}
  children := sortedRows s.jobs buildRowFromJob
  traversable := false
  url := ""

/-- `buildRowFromBuild`. -/
def buildRowFromBuild (b : Build) : BuildRow where
  key := ⟨b.repository.accountID, b.id, 0, 0⟩
  id := ""
  type_ := "P"
  state := b.state.val
  name := firstLine b.commit.message
  prefix_ := ""
  startedAt := b.startedAt
  finishedAt := b.finishedAt
  updatedAt := ⟨b.updatedAt, true⟩
  children := sortedRows b.jobs buildRowFromJob ++ sortedRows b.stages buildRowFromStage
  traversable := false
  url := b.webURL

end Citop.Rows

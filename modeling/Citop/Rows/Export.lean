import Citop.Rows.Visible
import Citop.Rows.Session

/-!
`WriteToDirectory` up to its call of `cache.FetchJobs`: the jobs a build, stage or job row
exports.

* `JobKey` and `BuildRow.jobKey`: the key `FetchJobs` reads a job under, read off a row's key.
* `RepositoryBuilds.writeToDirectory`: the error for a key `treeIndex` lacks, or the key of every
  job row that `DepthFirstTraversal(build, true)` lists from the key's row, in order.
* `BuildRow.bare`: a tree with its view state erased, every flag unset and every prefix empty.
  It keeps the key and the type of every row, and the full traversal and reads through a path
  commute with it (`bare_depthFirstTraversal`, `bare_forestGet?`).
* `writeToDirectory_ignores_view`: two states whose forests differ only in flags and prefixes,
  with one tree index, pass the same keys to `FetchJobs`: one per job row below the key's row,
  in depth-first pre-order, visible or not.
-/

namespace Citop.Rows

/-- `JobKey`, which the sources use but do not contain: the account, build, stage and job ID a
job is fetched under, the fields `WriteToDirectory` sets. -/
structure JobKey where
  accountID : String
  buildID : Int
  stageID : Int
  id : Int
  deriving DecidableEq, Repr

/-- The `JobKey` `WriteToDirectory` builds from a row's key. -/
def BuildRow.jobKey (r : BuildRow) : JobKey :=
  ⟨r.key.accountID, r.key.buildID, r.key.stageID, r.key.jobID⟩

/-- The loop of `WriteToDirectory` over the rows it lists: the key of each job row, in order. -/
def jobKeys (rows : List BuildRow) : List JobKey :=
  rows.filterMap fun r => if r.type_ = "J" then some r.jobKey else none

/-- `WriteToDirectory(ctx, key, dir)` up to its call of `cache.FetchJobs`: the error for a key
`treeIndex` lacks, or the keys it passes to `FetchJobs`, those of the job rows
`DepthFirstTraversal(build, true)` lists from the key's row. A pointer of `treeIndex` reaches a
row; a path into the forest that reaches none lists no row. The type assertion on `key`, the
files, `WriteLogs` and the returned `Streamer` are left out. -/
def RepositoryBuilds.writeToDirectory (key : BuildRowKey) (s : RepositoryBuilds) :
    Except GoError (List JobKey) :=
  match s.treeIndex key with
  | none => .error (.new ("no row associated to key '" ++ key.format ++ "'"))
  | some p => .ok (jobKeys ((forestGet? s.rows p).toList.flatMap (depthFirstTraversal true)))

/-- The loop keeps the job rows, in order. -/
lemma jobKeys_eq (rows : List BuildRow) :
    jobKeys rows = (rows.filter fun r => r.type_ == "J").map BuildRow.jobKey := by
  induction rows with
  | nil => rfl
  | cons r rows ih =>
      by_cases h : r.type_ = "J" <;> simp [jobKeys, List.filter_cons, h, ← ih]

/-! ### Rows with their view state erased -/

@[simp] lemma setTraversableAllList_eq (v : Bool) (rs : List BuildRow) :
    setTraversableAllList v rs = rs.map (setTraversableAll v) := by
  induction rs with
  | nil => rfl
  | cons r rs ih => simp [setTraversableAllList, ih]

lemma setTraversableAll_eq (v : Bool) (r : BuildRow) :
    setTraversableAll v r =
      { r with traversable := v, children := r.children.map (setTraversableAll v) } := by
  cases r; simp [setTraversableAll]

mutual

/-- A recursive write of a flag overwrites an earlier one. -/
lemma setTraversableAll_setTraversableAll (v w : Bool) :
    ∀ r : BuildRow, setTraversableAll v (setTraversableAll w r) = setTraversableAll v r
  | { children := cs, .. } => by
      simp only [setTraversableAll, setTraversableAllList_setTraversableAllList v w cs]

lemma setTraversableAllList_setTraversableAllList (v w : Bool) :
    ∀ rs : List BuildRow,
      setTraversableAllList v (setTraversableAllList w rs) = setTraversableAllList v rs
  | [] => rfl
  | r :: rs => by
      simp only [setTraversableAllList, setTraversableAll_setTraversableAll v w r,
        setTraversableAllList_setTraversableAllList v w rs]

end

/-- A tree with its view state erased: every flag unset and every prefix empty. Two forests
differ only in flags and prefixes when their bare forests are equal. -/
def BuildRow.bare (r : BuildRow) : BuildRow := (setTraversableAll false r).unprefixed

namespace BuildRow

@[simp] lemma key_bare (r : BuildRow) : r.bare.key = r.key := by
  rw [bare, key_unprefixed, setTraversableAll_eq]

@[simp] lemma type_bare (r : BuildRow) : r.bare.type_ = r.type_ := by
  rw [bare, unprefixed_eq, setTraversableAll_eq]

@[simp] lemma children_bare (r : BuildRow) : r.bare.children = r.children.map bare := by
  rw [bare, children_unprefixed, setTraversableAll_eq, List.map_map]
  rfl

lemma bare_setTraversableAll (v : Bool) (r : BuildRow) : (setTraversableAll v r).bare = r.bare := by
  rw [bare, bare, setTraversableAll_setTraversableAll]

/-- The full traversal does not read flags or prefixes, so it commutes with erasing them. -/
lemma bare_depthFirstTraversal : ∀ r : BuildRow,
    (depthFirstTraversal true r).map bare = depthFirstTraversal true r.bare
  | r@{ children := cs, .. } => by
      rw [depthFirstTraversal_eq, depthFirstTraversal_eq, children_bare]
      simp only [Bool.true_or, if_true, List.map_cons, List.map_flatMap, List.flatMap_map]
      congr 1
      exact List.flatMap_congr fun c _ => bare_depthFirstTraversal c

/-- Reading through a path commutes with erasing the view state. -/
lemma bare_get? : ∀ (r : BuildRow) (p : RowPtr), (r.get? p).map bare = r.bare.get? p
  | r, [] => rfl
  | r, i :: p => by
      simp only [get?, children_bare, List.getElem?_map]
      cases r.children[i]? with
      | none => rfl
      | some c => exact c.bare_get? p

end BuildRow

lemma bare_forestGet? (rows : List BuildRow) (p : RowPtr) :
    (forestGet? rows p).map BuildRow.bare = forestGet? (rows.map BuildRow.bare) p := by
  cases p with
  | nil => rfl
  | cons i p =>
      simp only [forestGet?, List.getElem?_map]
      cases rows[i]? with
      | none => rfl
      | some r => exact r.bare_get? p

/-- The loop reads the key and the type of each row only. -/
lemma jobKeys_map_bare (rows : List BuildRow) : jobKeys (rows.map BuildRow.bare) = jobKeys rows := by
  simp [jobKeys, List.filterMap_map, Function.comp_def, BuildRow.jobKey]

/-- The job keys listed below a path depend on the bare forest only. -/
lemma jobKeys_forestGet?_bare (rows : List BuildRow) (p : RowPtr) :
    jobKeys ((forestGet? rows p).toList.flatMap (depthFirstTraversal true)) =
      jobKeys ((forestGet? (rows.map BuildRow.bare) p).toList.flatMap (depthFirstTraversal true)) := by
  rw [← jobKeys_map_bare, ← bare_forestGet?]
  cases forestGet? rows p with
  | none => rfl
  | some r => simp [BuildRow.bare_depthFirstTraversal]

/-! ### The export ignores the view -/

/-- **The export ignores the view.** Two states whose forests differ only in the flags and
prefixes of their rows, with one tree index, pass the same keys to `FetchJobs` for every key:
for a key of the tree index, the keys of the job rows of the subtree at its pointer, one per
job row, in depth-first pre-order, whether visible or not. -/
theorem writeToDirectory_ignores_view {s s' : RepositoryBuilds}
    (hrows : s'.rows.map BuildRow.bare = s.rows.map BuildRow.bare)
    (hindex : s'.treeIndex = s.treeIndex) :
    (∀ key, s'.writeToDirectory key = s.writeToDirectory key) ∧
    ∀ key p sub, s.treeIndex key = some p → forestGet? s.rows p = some sub →
      s.writeToDirectory key =
        .ok ((sub.entries.filter fun e => e.2.type_ == "J").map fun e => e.2.jobKey) := by
  refine ⟨fun key => ?_, fun key p sub hp hsub => ?_⟩
  · simp only [RepositoryBuilds.writeToDirectory, hindex]
    split
    · rfl
    · rw [jobKeys_forestGet?_bare, hrows, ← jobKeys_forestGet?_bare]
  · simp only [RepositoryBuilds.writeToDirectory, hp, hsub, Option.toList_some,
      List.flatMap_singleton, ← BuildRow.map_snd_entries, jobKeys_eq, List.filter_map,
      List.map_map]
    rfl

namespace RepositoryBuilds

/-- `sampleState` with every row collapsed. -/
def collapsedSampleState : RepositoryBuilds :=
  { sampleState with rows := sampleState.rows.map (setTraversableAll false) }

theorem writeToDirectory_ignores_view_collapsed :
    collapsedSampleState.rows.map BuildRow.bare = sampleState.rows.map BuildRow.bare ∧
    collapsedSampleState.treeIndex = sampleState.treeIndex ∧
    (∀ key, collapsedSampleState.writeToDirectory key = sampleState.writeToDirectory key) ∧
    ∀ key p sub, sampleState.treeIndex key = some p → forestGet? sampleState.rows p = some sub →
      sampleState.writeToDirectory key =
        .ok ((sub.entries.filter fun e => e.2.type_ == "J").map fun e => e.2.jobKey) := by
  have hrows : collapsedSampleState.rows.map BuildRow.bare = sampleState.rows.map BuildRow.bare := by
    simp [collapsedSampleState, Function.comp_def, BuildRow.bare_setTraversableAll]
  exact ⟨hrows, rfl, writeToDirectory_ignores_view hrows rfl⟩

end RepositoryBuilds

end Citop.Rows

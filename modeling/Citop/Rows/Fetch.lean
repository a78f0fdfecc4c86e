import Citop.Rows.Tree

/-!
`RepositoryBuilds` and its two writers, `FetchRows` and `SetTraversable`.

The state keeps the forest `rows`, the index `treeIndex` from keys to pointers into it, and
the flattened view `dfsTraversal` with its index `dfsIndex`, memoised until `dfsUpToDate` is
cleared. The cache a `RepositoryBuilds` reads is outside the model: `fetchRows` takes the
snapshot `s.cache.Builds()` returned as its argument, in whatever order the map yields it.

* `fetchRows`: the traversable keys of the old forest are saved, a row tree is built for each
  build of the snapshot, the trees are sorted by decreasing update time, the saved flags are
  restored by key, and `treeIndex` is rebuilt.
* `setTraversable`: the row `treeIndex` points to takes the flag, and its descendants too when
  the call is recursive.
* `treeIndex_spec`: the index `fetchRows` builds points each key of the forest at a row with
  that key and holds no other key, once the keys of the forest are distinct.
-/

namespace Citop.Rows

/-- `RepositoryBuilds`. The Go slice `dfsTraversal` holds pointers into `rows`; every write
to a row it points to changes only the flag, which neither `Select` nor `NextMatch` reads from
it, so the model keeps the rows themselves. -/
structure RepositoryBuilds where
  rows : List BuildRow
  treeIndex : BuildRowKey → Option RowPtr
  dfsTraversal : List BuildRow
  dfsIndex : BuildRowKey → Option Int
  dfsUpToDate : Bool

namespace RepositoryBuilds

/-- The zero value, which `NewRepositoryBuilds` returns: no rows, nil maps, no view. -/
def zero : RepositoryBuilds := ⟨[], fun _ => none, [], fun _ => none, false⟩

end RepositoryBuilds

/-! ### `FetchRows` -/

/-- The map `traversables` of `FetchRows`: `true` for the key of every traversable row of the
forest. -/
def savedTraversables (rows : List BuildRow) : BuildRowKey → Option Bool :=
  indexOf (((depthFirstTraversalList true rows).filter (·.traversable)).map fun r => (true, r.key))

mutual

/-- The restore step of `FetchRows`, at every row: a row whose key was saved takes the saved
flag. -/
def restoreTraversable (saved : BuildRowKey → Option Bool) : BuildRow → BuildRow
  | r@{ children := cs, .. } =>
      { r with traversable := (saved r.key).getD r.traversable
               children := restoreTraversableList saved cs }

/-- The restore step over a list of trees. -/
def restoreTraversableList (saved : BuildRowKey → Option Bool) : List BuildRow → List BuildRow
  | [] => []
  | r :: rs => restoreTraversable saved r :: restoreTraversableList saved rs

end

/-- The `less` of the `sort.Slice` in `FetchRows`: both update times set, the first later. -/
def updatedAfter (a b : BuildRow) : Prop :=
  a.updatedAt.valid ∧ b.updatedAt.valid ∧ b.updatedAt.time < a.updatedAt.time

/-- The order `sort.Slice` leaves the rows of `FetchRows` in: no row is `updatedAfter` the
rows before it. Every row sorted there is a build row, whose update time is set, and on those
that reads `b.updatedAt.time ≤ a.updatedAt.time` (`updatedFirst_iff`). `sort.Slice` is not
stable and the order of rows updated at the same time is its algorithm's; the model takes
insertion sort's. -/
def updatedFirst (a b : BuildRow) : Prop := b.updatedAt.time ≤ a.updatedAt.time

instance : DecidableRel updatedFirst := fun _ _ => inferInstanceAs (Decidable (_ ≤ _))

instance : IsTotal BuildRow updatedFirst := ⟨fun a b => le_total b.updatedAt.time a.updatedAt.time⟩

instance : IsTrans BuildRow updatedFirst := ⟨fun _ _ _ hab hbc => le_trans hbc hab⟩

lemma updatedFirst_iff {a b : BuildRow} (ha : a.updatedAt.valid) (hb : b.updatedAt.valid) :
    updatedFirst a b ↔ ¬updatedAfter b a := by
  simp [updatedFirst, updatedAfter, ha, hb]

/-- The `treeIndex` loop of `FetchRows` over the rebuilt forest: each row's key mapped to its
pointer. The loop reads a row's position and key only, so it runs over the skeletons. -/
def treeIndexOf (rows : List BuildRow) : BuildRowKey → Option RowPtr :=
  indexOf (KeyTree.ptrsList [] 0 (rows.map BuildRow.keyTree))

/-- `FetchRows` over the snapshot `builds`. -/
def RepositoryBuilds.fetchRows (builds : List Build) (s : RepositoryBuilds) : RepositoryBuilds :=
  let traversables := savedTraversables s.rows
  let rows := ((builds.map buildRowFromBuild).insertionSort updatedFirst).map
    (restoreTraversable traversables)
  { s with rows := rows, treeIndex := treeIndexOf rows, dfsUpToDate := false }

/-! ### `SetTraversable` -/

mutual

/-- A row and all its descendants with the flag `traversable`. -/
def setTraversableAll (traversable : Bool) : BuildRow → BuildRow
  | r@{ children := cs, .. } =>
      { r with traversable := traversable, children := setTraversableAllList traversable cs }

/-- The same over a list of trees. -/
def setTraversableAllList (traversable : Bool) : List BuildRow → List BuildRow
  | [] => []
  | r :: rs => setTraversableAll traversable r :: setTraversableAllList traversable rs

end

/-- The write `SetTraversable` makes through its pointer: the row's flag, and when
`recursive` the flag of every row `DepthFirstTraversal(row, true)` lists, which are the row
and its descendants. -/
def setTraversableRow (traversable recursive : Bool) (r : BuildRow) : BuildRow :=
  if recursive then setTraversableAll traversable r else { r with traversable := traversable }

/-- `SetTraversable(key, traversable, recursive)`: nothing when `treeIndex` has no row for
the key. -/
def RepositoryBuilds.setTraversable (key : BuildRowKey) (traversable recursive : Bool)
    (s : RepositoryBuilds) : RepositoryBuilds :=
  match s.treeIndex key with
  | none => s
  | some p =>
      { s with rows := forestModifyAt (setTraversableRow traversable recursive) s.rows p
               dfsUpToDate := false }

/-! ### Writes keep the skeleton -/

@[simp] lemma key_restoreTraversable (saved : BuildRowKey → Option Bool) (r : BuildRow) :
    (restoreTraversable saved r).key = r.key := by
  cases r; rfl

@[simp] lemma updatedAt_restoreTraversable (saved : BuildRowKey → Option Bool) (r : BuildRow) :
    (restoreTraversable saved r).updatedAt = r.updatedAt := by
  cases r; rfl

mutual

lemma keyTree_restoreTraversable (saved : BuildRowKey → Option Bool) :
    ∀ r : BuildRow, (restoreTraversable saved r).keyTree = r.keyTree
  | { key := k, children := cs, .. } => by
      simp only [restoreTraversable, BuildRow.keyTree, keyTreeList_eq]
      rw [keyTrees_restoreTraversableList saved cs]

lemma keyTrees_restoreTraversableList (saved : BuildRowKey → Option Bool) :
    ∀ rs : List BuildRow,
      (restoreTraversableList saved rs).map BuildRow.keyTree = rs.map BuildRow.keyTree
  | [] => rfl
  | r :: rs => by
      simp [restoreTraversableList, keyTree_restoreTraversable saved r,
        keyTrees_restoreTraversableList saved rs]

end

mutual

lemma keyTree_setTraversableAll (v : Bool) :
    ∀ r : BuildRow, (setTraversableAll v r).keyTree = r.keyTree
  | { key := k, children := cs, .. } => by
      simp only [setTraversableAll, BuildRow.keyTree, keyTreeList_eq]
      rw [keyTrees_setTraversableAllList v cs]

lemma keyTrees_setTraversableAllList (v : Bool) :
    ∀ rs : List BuildRow,
      (setTraversableAllList v rs).map BuildRow.keyTree = rs.map BuildRow.keyTree
  | [] => rfl
  | r :: rs => by
      simp [setTraversableAllList, keyTree_setTraversableAll v r, keyTrees_setTraversableAllList v rs]

end

lemma keyTree_setTraversableRow (v recursive : Bool) (r : BuildRow) :
    (setTraversableRow v recursive r).keyTree = r.keyTree := by
  unfold setTraversableRow
  split_ifs
  · exact keyTree_setTraversableAll v r
  · cases r; rfl

/-! ### The tree index -/

/-- A key the index maps points at a row with that key. -/
lemma forestGet?_of_treeIndexOf {rows : List BuildRow} {k : BuildRowKey} {p : RowPtr}
    (h : treeIndexOf rows k = some p) : ∃ r, forestGet? rows p = some r ∧ r.key = k := by
  obtain ⟨j, rel, rfl, hk⟩ := KeyTree.get?_of_mem_ptrsList _ [] 0 p k (mem_of_indexOf h)
  have hget := keyTree_forestGet? rows (j :: rel)
  rw [Nat.zero_add, List.nil_append] at *
  simp only [KeyTree.forestGet?] at hget
  rw [← hget, Option.map_map] at hk
  obtain ⟨r, hr, hrk⟩ := Option.map_eq_some'.mp hk
  exact ⟨r, hr, by simpa using hrk⟩

/-- The index leaves out exactly the keys that are not in the forest. -/
lemma treeIndexOf_eq_none {rows : List BuildRow} {k : BuildRowKey} :
    treeIndexOf rows k = none ↔ k ∉ forestKeys rows := by
  rw [treeIndexOf, indexOf_eq_none, KeyTree.ptrsList_keys, forestKeys_eq, KeyTree.keysList_eq]

/-- **The tree index** maps each key of the forest to a row with that key, and no other key.
When the keys are distinct, that row is the one carrying the key. -/
theorem treeIndex_spec (rows : List BuildRow) (k : BuildRowKey) :
    (k ∈ forestKeys rows → ∃ p r, treeIndexOf rows k = some p ∧ forestGet? rows p = some r ∧
      r.key = k) ∧ (k ∉ forestKeys rows → treeIndexOf rows k = none) := by
  refine ⟨fun hk => ?_, treeIndexOf_eq_none.mpr⟩
  cases h : treeIndexOf rows k with
  | none => exact absurd hk (treeIndexOf_eq_none.mp h)
  | some p =>
      obtain ⟨r, hr, hrk⟩ := forestGet?_of_treeIndexOf h
      exact ⟨p, r, rfl, hr, hrk⟩

end Citop.Rows

import Citop.Rows.Fetch

/-!
The flattened view: `utils.DepthFirstTraversalPrefixing` and `prefixAndIndex`.

* `depthFirstTraversalPrefixing`: `utils.DepthFirstTraversalPrefixing`, which the sources call
  but do not contain, modelled from §4.2 of the spec: every row reachable through traversable
  ancestors gets a tree-drawing prefix from its depth and from whether it is the last of its
  siblings.
* `RepositoryBuilds.prefixAndIndex`: each top-level row is prefixed, then the rows its visible
  traversal lists are appended to `dfsTraversal`, and `dfsIndex` maps each key to its position
  (`viewIndex`).
* `BuildRow.unprefixed` forgets every prefix. Prefixing changes nothing else
  (`unprefixed_depthFirstTraversalPrefixing`), so the skeleton, the flags and the traversals
  of a forest survive `prefixAndIndex`; and it depends on nothing it writes, so a second
  `prefixAndIndex` changes nothing (`prefixAndIndex_prefixAndIndex`).
* `viewIndex_spec`: on a view with distinct keys, `dfsIndex` maps the key of the row at each
  position to that position, and no other key.
-/

namespace Citop.Rows

/-! ### Prefixes -/

mutual

/-- Modelled from the spec: the prefix of a row below the top level. The spec fixes only what
the prefix reflects, the row's depth and whether it is the last of its siblings; the model
draws it as the UI does, `indent` then a branch, and extends the indent for the row's children
by a bar or by blanks after a last row. The children of a collapsed row are left alone. -/
def prefixChild (indent : String) (last : Bool) : BuildRow → BuildRow
  | r@{ children := cs, .. } =>
      { r with prefix_ := indent ++ (if last then "└─" else "├─")
               children := if r.traversable then
                 prefixChildren (indent ++ if last then "  " else "│ ") cs else cs }

/-- The children of a row, each prefixed, the last one as the last sibling. -/
def prefixChildren (indent : String) : List BuildRow → List BuildRow
  | [] => []
  | r :: rs => prefixChild indent rs.isEmpty r :: prefixChildren indent rs

end

/-- Modelled from the spec: `utils.DepthFirstTraversalPrefixing(row)` on a top-level row,
which gets the empty prefix. -/
def depthFirstTraversalPrefixing : BuildRow → BuildRow
  | r@{ children := cs, .. } =>
      { r with prefix_ := "", children := if r.traversable then prefixChildren "" cs else cs }

@[simp] lemma length_prefixChildren (indent : String) (rs : List BuildRow) :
    (prefixChildren indent rs).length = rs.length := by
  induction rs with
  | nil => rfl
  | cons r rs ih => simp [prefixChildren, ih]

/-! ### Prefixes erased -/

mutual

/-- A tree with every prefix erased. -/
def BuildRow.unprefixed : BuildRow → BuildRow
  | r@{ children := cs, .. } => { r with prefix_ := "", children := unprefixedList cs }

/-- The same over a list of trees. -/
def unprefixedList : List BuildRow → List BuildRow
  | [] => []
  | r :: rs => r.unprefixed :: unprefixedList rs

end

@[simp] lemma unprefixedList_eq (rs : List BuildRow) : unprefixedList rs = rs.map BuildRow.unprefixed := by
  induction rs with
  | nil => rfl
  | cons r rs ih => simp [unprefixedList, ih]

lemma BuildRow.unprefixed_eq (r : BuildRow) :
    r.unprefixed = { r with prefix_ := "", children := r.children.map BuildRow.unprefixed } := by
  cases r; simp [BuildRow.unprefixed]

@[simp] lemma BuildRow.key_unprefixed (r : BuildRow) : r.unprefixed.key = r.key := by
  rw [r.unprefixed_eq]

@[simp] lemma BuildRow.traversable_unprefixed (r : BuildRow) :
    r.unprefixed.traversable = r.traversable := by
  rw [r.unprefixed_eq]

@[simp] lemma BuildRow.children_unprefixed (r : BuildRow) :
    r.unprefixed.children = r.children.map BuildRow.unprefixed := by
  rw [r.unprefixed_eq]

/-- Erasing prefixes keeps the skeleton. -/
lemma BuildRow.keyTree_unprefixed : ∀ r : BuildRow, r.unprefixed.keyTree = r.keyTree
  | { key := k, children := cs, .. } => by
      rw [BuildRow.unprefixed_eq, BuildRow.keyTree_eq, BuildRow.keyTree_eq]
      simp only [List.map_map]
      congr 1
      exact List.map_congr_left fun c _ => c.keyTree_unprefixed

/-- Traversals read flags and children only, so they commute with erasing prefixes. -/
lemma unprefixed_depthFirstTraversal (all : Bool) :
    ∀ r : BuildRow, (depthFirstTraversal all r).map BuildRow.unprefixed =
      depthFirstTraversal all r.unprefixed
  | r@{ children := cs, .. } => by
      rw [depthFirstTraversal_eq, depthFirstTraversal_eq, BuildRow.traversable_unprefixed,
        BuildRow.children_unprefixed]
      split_ifs
      · simp only [List.map_cons, List.flatMap_map, List.map_flatMap]
        congr 1
        exact List.flatMap_congr fun c _ => unprefixed_depthFirstTraversal all c
      · rfl

mutual

lemma unprefixed_prefixChild (indent : String) (last : Bool) :
    ∀ r : BuildRow, (prefixChild indent last r).unprefixed = r.unprefixed
  | { key := k, children := cs, traversable := t, .. } => by
      cases t
      · simp [prefixChild, BuildRow.unprefixed_eq]
      · simp only [prefixChild, BuildRow.unprefixed_eq, if_true]
        rw [unprefixed_prefixChildren]

lemma unprefixed_prefixChildren (indent : String) :
    ∀ rs : List BuildRow, (prefixChildren indent rs).map BuildRow.unprefixed = rs.map BuildRow.unprefixed
  | [] => rfl
  | r :: rs => by
      simp only [prefixChildren, List.map_cons, unprefixed_prefixChild indent _ r,
        unprefixed_prefixChildren indent rs]

end

/-- **Prefixing changes prefixes only.** -/
lemma unprefixed_depthFirstTraversalPrefixing (r : BuildRow) :
    (depthFirstTraversalPrefixing r).unprefixed = r.unprefixed := by
  cases r with
  | mk k id ty st nm pf sa fa ua cs t url =>
      cases t
      · simp [depthFirstTraversalPrefixing, BuildRow.unprefixed_eq]
      · simp only [depthFirstTraversalPrefixing, BuildRow.unprefixed_eq, if_true]
        rw [unprefixed_prefixChildren]

lemma keyTree_depthFirstTraversalPrefixing (r : BuildRow) :
    (depthFirstTraversalPrefixing r).keyTree = r.keyTree := by
  rw [← BuildRow.keyTree_unprefixed, unprefixed_depthFirstTraversalPrefixing,
    BuildRow.keyTree_unprefixed]

/-! ### Prefixing twice -/

mutual

/-- A prefix depends on the shape and the flags only, which prefixing keeps. -/
lemma prefixChild_prefixChild (indent indent' : String) (last last' : Bool) :
    ∀ r : BuildRow, prefixChild indent last (prefixChild indent' last' r) = prefixChild indent last r
  | { key := k, children := cs, traversable := t, .. } => by
      cases t
      · simp [prefixChild]
      · simp only [prefixChild, if_true]
        rw [prefixChildren_prefixChildren]

lemma prefixChildren_prefixChildren (indent indent' : String) :
    ∀ rs : List BuildRow,
      prefixChildren indent (prefixChildren indent' rs) = prefixChildren indent rs
  | [] => rfl
  | r :: rs => by
      have hempty : (prefixChildren indent' rs).isEmpty = rs.isEmpty := by
        cases rs <;> rfl
      simp only [prefixChildren, hempty, prefixChild_prefixChild indent indent' _ _ r,
        prefixChildren_prefixChildren indent indent' rs]

end

lemma depthFirstTraversalPrefixing_idem (r : BuildRow) :
    depthFirstTraversalPrefixing (depthFirstTraversalPrefixing r) = depthFirstTraversalPrefixing r := by
  cases r with
  | mk k id ty st nm pf sa fa ua cs t url =>
      cases t
      · simp [depthFirstTraversalPrefixing]
      · simp only [depthFirstTraversalPrefixing, if_true]
        rw [prefixChildren_prefixChildren]

/-! ### `prefixAndIndex` -/

/-- The `dfsIndex` loop of `prefixAndIndex` over the view: each row's key mapped to its
position. -/
def viewIndex (view : List BuildRow) : BuildRowKey → Option Int :=
  indexOf (view.enum.map fun e => ((e.1 : Int), e.2.key))

/-- `prefixAndIndex`. Prefixing a top-level row changes that row only, so prefixing all of them
before the traversals, as the model does, is the loop of the source. -/
def RepositoryBuilds.prefixAndIndex (s : RepositoryBuilds) : RepositoryBuilds :=
  let rows := s.rows.map depthFirstTraversalPrefixing
  let view := rows.flatMap (depthFirstTraversal false)
  { s with rows := rows, dfsTraversal := view, dfsIndex := viewIndex view, dfsUpToDate := true }

namespace RepositoryBuilds

variable (s : RepositoryBuilds)

@[simp] lemma prefixAndIndex_rows :
    s.prefixAndIndex.rows = s.rows.map depthFirstTraversalPrefixing := rfl

@[simp] lemma prefixAndIndex_dfsTraversal :
    s.prefixAndIndex.dfsTraversal =
      (s.rows.map depthFirstTraversalPrefixing).flatMap (depthFirstTraversal false) := rfl

@[simp] lemma prefixAndIndex_dfsIndex :
    s.prefixAndIndex.dfsIndex = viewIndex s.prefixAndIndex.dfsTraversal := rfl

@[simp] lemma prefixAndIndex_treeIndex : s.prefixAndIndex.treeIndex = s.treeIndex := rfl

@[simp] lemma prefixAndIndex_dfsUpToDate : s.prefixAndIndex.dfsUpToDate = true := rfl

/-- A second `prefixAndIndex` changes nothing: a fresh view is its own rebuild. -/
lemma prefixAndIndex_prefixAndIndex : s.prefixAndIndex.prefixAndIndex = s.prefixAndIndex := by
  have hrows : (s.rows.map depthFirstTraversalPrefixing).map depthFirstTraversalPrefixing =
      s.rows.map depthFirstTraversalPrefixing := by
    simp only [List.map_map]
    exact List.map_congr_left fun r _ => depthFirstTraversalPrefixing_idem r
  simp only [prefixAndIndex, hrows]

end RepositoryBuilds

/-- The skeletons of a forest survive `prefixAndIndex`. -/
lemma keyTrees_prefixAndIndex (s : RepositoryBuilds) :
    s.prefixAndIndex.rows.map BuildRow.keyTree = s.rows.map BuildRow.keyTree := by
  simp only [RepositoryBuilds.prefixAndIndex_rows, List.map_map]
  exact List.map_congr_left fun r _ => keyTree_depthFirstTraversalPrefixing r

/-- The view is the visible traversal of the forest, up to prefixes. -/
lemma unprefixed_prefixAndIndex_dfsTraversal (s : RepositoryBuilds) :
    s.prefixAndIndex.dfsTraversal.map BuildRow.unprefixed =
      (s.rows.map BuildRow.unprefixed).flatMap (depthFirstTraversal false) := by
  simp only [RepositoryBuilds.prefixAndIndex_dfsTraversal, List.map_flatMap, List.flatMap_map]
  exact List.flatMap_congr fun r _ => by
    rw [unprefixed_depthFirstTraversal, unprefixed_depthFirstTraversalPrefixing]

/-! ### The view index -/

/-- A key the view index maps is at that position of the view. -/
lemma getElem?_of_viewIndex {view : List BuildRow} {k : BuildRowKey} {i : Int}
    (h : viewIndex view k = some i) :
    ∃ n : Nat, i = n ∧ ∃ r, view[n]? = some r ∧ r.key = k := by
  obtain ⟨⟨n, r⟩, hmem, he⟩ := List.mem_map.mp (mem_of_indexOf h)
  simp only [Prod.mk.injEq] at he
  exact ⟨n, he.1.symm, r, List.mem_enum_iff_getElem?.mp hmem, he.2⟩

/-- The view index holds the keys of the view, and no other. -/
lemma viewIndex_eq_none {view : List BuildRow} {k : BuildRowKey} :
    viewIndex view k = none ↔ k ∉ view.map BuildRow.key := by
  rw [viewIndex, indexOf_eq_none, List.map_map]
  have : (Prod.snd ∘ fun e : Nat × BuildRow => ((e.1 : Int), e.2.key)) = BuildRow.key ∘ Prod.snd :=
    rfl
  rw [this, ← List.map_map, List.enum_map_snd]

/-- **The view index.** On a view with distinct keys, the key of the row at each position is
mapped to that position. -/
theorem viewIndex_spec {view : List BuildRow} (hnd : (view.map BuildRow.key).Nodup) {n : Nat}
    (hn : n < view.length) : viewIndex view view[n].key = some n := by
  apply indexOf_of_mem
  · have : ((view.enum.map fun e => ((e.1 : Int), e.2.key)).map Prod.snd) = view.map BuildRow.key := by
      rw [List.map_map, ← List.enum_map_snd view, List.map_map, List.enum_map_snd]
      rfl
    rwa [this]
  · exact List.mem_map.mpr ⟨(n, view[n]), List.mem_enum_iff_getElem?.mpr (by simp [hn]), rfl⟩

end Citop.Rows

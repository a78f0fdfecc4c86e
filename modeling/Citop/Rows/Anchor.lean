import Citop.Rows.Visible
import Citop.Rows.Select
import Citop.Rows.Flags

/-!
Where `Select` anchors its window on the forest `FetchRows` builds from a snapshot, under any
flags `SetTraversable` writes.

`Select` tries the key, the key of its stage and the key of its build (`selectCandidates`). On
the rows `FetchRows` builds these are the keys of the row, of its stage row and of its build
row, so the first of them in the view is the deepest visible ancestor-or-self of the row.

* `KeyTree.BuildLayout`: the key layout of a build row, which a row mirroring a build has
  (`MirrorsBuild.buildLayout`). Under it the candidates for the key of a row are the keys of the
  row, of the row or its parent, and of its top-level row (`candidates_forestGet?`), and the
  build key of every key of the forest is the key of a top-level row
  (`buildKey_of_mem_forestKeys`).
* `resolveKey_prefixAndIndex`: on the rebuilt view of such a forest with distinct keys, the key
  of a row resolves to the position of its deepest visible ancestor-or-self;
  `resolveKey_eq_none_iff`: a key resolves to nothing exactly when its build key is not in the
  forest.
* `FetchedView`: what `FetchRows` over a snapshot leaves and `SetTraversable` keeps, the
  snapshot's skeleton and a stale view.
* `select_anchors_visible_ancestor`: after `FetchRows` over a snapshot of distinct, well-formed
  builds keyed by ID and any `SetTraversable` calls, `Select` at the key of a row copies the
  window around its deepest visible ancestor-or-self, with no error in the range of `int`; it
  reports a key not found exactly when the forest has no row for the key's build, unless the
  snapshot is empty, when it returns nothing and no error.
-/

namespace Citop.Rows

/-! ### The key layout of a build row -/

/-- The key layout of a build row: the key of a build, with stage and job ID `0`; below it rows
of that build, either with stage ID `0` and no children, its jobs, or with job ID `0`, its
stages; below a stage, rows of that build and stage with no children, its jobs. -/
def KeyTree.BuildLayout (t : KeyTree) : Prop :=
  ∃ (accountID : String) (buildID : Int), t.key = ⟨accountID, buildID, 0, 0⟩ ∧
    ∀ c ∈ t.children,
      (c.key = ⟨accountID, buildID, 0, c.key.jobID⟩ ∧ c.children = []) ∨
      (c.key = ⟨accountID, buildID, c.key.stageID, 0⟩ ∧ ∀ g ∈ c.children,
        g.key = ⟨accountID, buildID, c.key.stageID, g.key.jobID⟩ ∧ g.children = [])

/-- A row mirroring a build has the key layout of a build row. -/
lemma MirrorsBuild.buildLayout {b : Build} {t : KeyTree} (h : MirrorsBuild b t) :
    t.BuildLayout := by
  obtain ⟨ks, ts, rfl, -, hks, -, -, hts⟩ := h
  refine ⟨b.repository.accountID, b.id, rfl, fun c hc => ?_⟩
  rcases List.mem_append.mp hc with hc | hc
  · -- a job of the build
    obtain ⟨k, hk, rfl⟩ := List.mem_map.mp hc
    obtain ⟨e, -, rfl⟩ := List.mem_map.mp (hks.subset hk)
    exact .inl ⟨rfl, rfl⟩
  · -- a stage, over its jobs
    obtain ⟨e, -, ks', rfl, -, hks'⟩ := hts c hc
    refine .inr ⟨rfl, fun g hg => ?_⟩
    obtain ⟨k, hk, rfl⟩ := List.mem_map.mp hg
    obtain ⟨f, -, rfl⟩ := List.mem_map.mp (hks'.subset hk)
    exact ⟨rfl, rfl⟩

/-- Under the layout of a build row, `Select`'s candidates for the key of the row at a path are
the keys of that row, of its ancestor-or-self at depth `d`, the row itself or its parent, and of
the build row. -/
lemma KeyTree.BuildLayout.candidates {t : KeyTree} (h : t.BuildLayout) :
    ∀ (rel : RowPtr) (u : KeyTree), t.get? rel = some u →
      ∃ d v, d ≤ 1 ∧ rel.length ≤ d + 1 ∧ t.get? (rel.take d) = some v ∧
        selectCandidates u.key = [u.key, v.key, t.key] := by
  obtain ⟨a, b, ht, hcs⟩ := h
  rintro (_ | ⟨j, _ | ⟨l, rel⟩⟩) u hu
  · -- the build row
    cases hu
    exact ⟨0, t, by simp, by simp, rfl, by rw [ht]; rfl⟩
  · -- a job of the build, or a stage
    have hmem : u ∈ t.children := by
      simp only [KeyTree.get?, Option.bind_eq_some] at hu
      obtain ⟨c, hc, hcu⟩ := hu
      cases hcu
      exact List.getElem?_mem hc
    rcases hcs u hmem with ⟨hu', -⟩ | ⟨hu', -⟩
    · exact ⟨0, t, by simp, by simp, rfl, by rw [hu', ht]; rfl⟩
    · exact ⟨1, u, le_rfl, by simp, hu, by rw [hu', ht]; rfl⟩
  · -- a job of a stage
    simp only [KeyTree.get?, Option.bind_eq_some] at hu
    obtain ⟨c, hc, g, hg, hgu⟩ := hu
    rcases hcs c (List.getElem?_mem hc) with ⟨-, hnil⟩ | ⟨hck, hgs⟩
    · simp [hnil] at hg
    obtain ⟨hgk, hgnil⟩ := hgs g (List.getElem?_mem hg)
    cases rel with
    | cons m rel => simp [KeyTree.get?, hgnil] at hgu
    | nil =>
        cases hgu
        exact ⟨1, c, le_rfl, le_rfl, by simp [KeyTree.get?, hc], by rw [hgk, hck, ht]; rfl⟩

/-- A path that reaches a row is not empty. -/
lemma ne_nil_of_forestGet? {rows : List BuildRow} {p : RowPtr} {n : BuildRow}
    (h : forestGet? rows p = some n) : p ≠ [] := by
  rintro rfl; cases h

/-- The key of a row a path reaches is a key of the forest. -/
lemma key_mem_forestKeys {rows : List BuildRow} {p : RowPtr} {n : BuildRow}
    (h : forestGet? rows p = some n) : n.key ∈ forestKeys rows := by
  rw [← keys_forestEntries]
  exact List.mem_map_of_mem (·.2.key) (mem_forestEntries.mpr h)

/-- In a forest of rows with the layout of build rows, `Select`'s candidates for the key of a
row are the keys of the row, of its ancestor-or-self at depth `d`, the row itself or its parent,
and of its top-level row. -/
lemma candidates_forestGet? {rows : List BuildRow}
    (hlay : ∀ t ∈ rows.map BuildRow.keyTree, t.BuildLayout) {p : RowPtr} {n : BuildRow}
    (hp : forestGet? rows p = some n) :
    ∃ d y z, 1 ≤ d ∧ d ≤ 2 ∧ p.length ≤ d + 1 ∧ forestGet? rows (p.take d) = some y ∧
      forestGet? rows (p.take 1) = some z ∧ selectCandidates n.key = [n.key, y.key, z.key] := by
  obtain ⟨i, rel, rfl⟩ := List.exists_cons_of_ne_nil (ne_nil_of_forestGet? hp)
  simp only [forestGet?, Option.bind_eq_some] at hp
  obtain ⟨r, hr, hn⟩ := hp
  have hu : r.keyTree.get? rel = some n.keyTree := by rw [← BuildRow.keyTree_get?, hn]; rfl
  obtain ⟨d, v, hd, hlen, hv, hc⟩ :=
    (hlay _ (List.mem_map_of_mem _ (List.getElem?_mem hr))).candidates rel _ hu
  rw [← BuildRow.keyTree_get?] at hv
  obtain ⟨y, hy, rfl⟩ := Option.map_eq_some'.mp hv
  refine ⟨d + 1, y, r, by omega, by omega, by simpa using hlen, ?_, ?_, by simpa using hc⟩
  · simp [forestGet?, hr, hy]
  · simp [forestGet?, hr, BuildRow.get?]

/-- The build key of every key of such a forest is the key of a visible row, a top-level one. -/
lemma buildKey_of_mem_forestKeys {rows : List BuildRow}
    (hlay : ∀ t ∈ rows.map BuildRow.keyTree, t.BuildLayout) {k : BuildRowKey}
    (hk : k ∈ forestKeys rows) :
    ∃ q z, forestGet? rows q = some z ∧ forestVisibleAt rows q = true ∧
      z.key = ⟨k.accountID, k.buildID, 0, 0⟩ := by
  rw [← keys_forestEntries] at hk
  obtain ⟨⟨p, n⟩, he, rfl⟩ := List.mem_map.mp hk
  have hp := mem_forestEntries.mp he
  obtain ⟨d, y, z, -, -, -, -, hz, hc⟩ := candidates_forestGet? hlay hp
  have hL := List.length_pos.mpr (forestVisibleAt_forestVisiblePrefix hp).1
  have htop := List.take_prefix 1 p
  refine ⟨p.take 1, z, hz, (forestVisibleAt_prefix_iff rows htop
    (ne_nil_of_forestGet? hz)).mpr (by rw [List.length_take]; omega), ?_⟩
  simp only [selectCandidates, List.cons.injEq] at hc
  exact hc.2.2.1.symm

/-! ### The candidates in the rebuilt view -/

/-- `prefixAndIndex` keeps the key at every path. -/
lemma key_forestGet?_prefixAndIndex (s : RepositoryBuilds) (q : RowPtr) :
    (forestGet? s.prefixAndIndex.rows q).map BuildRow.key =
      (forestGet? s.rows q).map BuildRow.key := by
  have h := congrArg (Option.map KeyTree.key) (keyTree_forestGet? s.prefixAndIndex.rows q)
  rw [keyTrees_prefixAndIndex, ← keyTree_forestGet?, Option.map_map, Option.map_map] at h
  simpa [Function.comp_def] using h

/-- On a forest with distinct keys, the rebuilt view's index maps the key of a visible row to
its position in the view, and holds no key of a hidden one. -/
lemma dfsIndex_prefixAndIndex {s : RepositoryBuilds} (hnd : (forestKeys s.rows).Nodup)
    {q : RowPtr} {y : BuildRow} (hq : forestGet? s.rows q = some y) :
    (forestVisibleAt s.rows q = true → ∃ i : Nat, s.prefixAndIndex.dfsIndex y.key = some (i : Int) ∧
      (s.prefixAndIndex.dfsTraversal[i]?).map BuildRow.key = some y.key) ∧
    (forestVisibleAt s.rows q = false → s.prefixAndIndex.dfsIndex y.key = none) := by
  obtain ⟨y', hy', hkey⟩ : ∃ y', forestGet? s.prefixAndIndex.rows q = some y' ∧ y'.key = y.key := by
    simpa [hq] using key_forestGet?_prefixAndIndex s q
  have hnd' : (forestKeys s.prefixAndIndex.rows).Nodup := by rwa [forestKeys_prefixAndIndex]
  have hmem : y.key ∈ s.prefixAndIndex.dfsTraversal.map BuildRow.key ↔
      forestVisibleAt s.rows q = true := by
    rw [← hkey, ← forestVisibleAt_prefixAndIndex]
    exact key_mem_view_iff hnd' hy'
  refine ⟨fun hv => ?_, fun hv => viewIndex_eq_none.mpr fun h => by simp [hmem.mp h] at hv⟩
  obtain ⟨x, hx, hxk⟩ := List.mem_map.mp (hmem.mpr hv)
  obtain ⟨i, hi, rfl⟩ := List.getElem_of_mem hx
  refine ⟨i, ?_, by rw [List.getElem?_eq_getElem hi, Option.map_some', hxk]⟩
  rw [← hxk]
  exact viewIndex_spec (nodup_keys_prefixAndIndex hnd) hi

/-- **The anchor.** On a forest with distinct keys whose rows have the layout of build rows, the
rebuilt view resolves the key of any row to the position of the row's deepest visible
ancestor-or-self: the candidates are the keys of ancestors-or-self of the row, deepest first,
none skipped, and a prefix of the row's path is visible exactly when it is no longer than
that one. -/
lemma resolveKey_prefixAndIndex {s : RepositoryBuilds} (hnd : (forestKeys s.rows).Nodup)
    (hlay : ∀ t ∈ s.rows.map BuildRow.keyTree, t.BuildLayout) {p : RowPtr} {n : BuildRow}
    (hp : forestGet? s.rows p = some n) :
    ∃ (x : BuildRow) (i : Nat), forestGet? s.rows (forestVisiblePrefix s.rows p) = some x ∧
      resolveKey s.prefixAndIndex.dfsIndex n.key = some (i : Int) ∧
      (s.prefixAndIndex.dfsTraversal[i]?).map BuildRow.key = some x.key := by
  obtain ⟨d, y, z, hd1, hd2, hlen, hy, hz, hc⟩ := candidates_forestGet? hlay hp
  have hpne := ne_nil_of_forestGet? hp
  have hp0 : 0 < p.length := List.length_pos.mpr hpne
  have hpre := forestVisiblePrefix_prefix s.rows p
  have hL : 1 ≤ (forestVisiblePrefix s.rows p).length :=
    List.length_pos.mpr (forestVisibleAt_forestVisiblePrefix hp).1
  have hLp := hpre.length_le
  -- a prefix of the path is visible when it is no longer than the deepest visible one
  have hvis : ∀ m, 1 ≤ m → (forestVisibleAt s.rows (p.take m) = true ↔
      min m p.length ≤ (forestVisiblePrefix s.rows p).length) := by
    intro m hm
    have hmp := List.take_prefix m p
    rw [forestVisibleAt_prefix_iff s.rows hmp
      (by simp only [ne_eq, List.take_eq_nil_iff, hpne, or_false]; omega), List.length_take]
  have hanchor : ∀ m, min m p.length = (forestVisiblePrefix s.rows p).length →
      forestVisiblePrefix s.rows p = p.take m := by
    intro m hm
    rw [List.prefix_iff_eq_take.mp hpre, List.take_eq_take]
    omega
  have hp' : forestGet? s.rows (p.take p.length) = some n := by rwa [List.take_length]
  have ip := dfsIndex_prefixAndIndex hnd hp'
  have iy := dfsIndex_prefixAndIndex hnd hy
  have iz := dfsIndex_prefixAndIndex hnd hz
  rw [resolveKey, hc]
  by_cases h1 : p.length ≤ (forestVisiblePrefix s.rows p).length
  · -- the row is visible
    obtain ⟨i, hi, hk⟩ := ip.1 ((hvis _ (by omega)).mpr (by omega))
    exact ⟨n, i, by rwa [hanchor p.length (by omega)], by simp only [List.findSome?, hi], hk⟩
  have hn := ip.2 (Bool.eq_false_iff.mpr fun h => h1 (by have := (hvis _ (by omega)).mp h; omega))
  by_cases h2 : min d p.length ≤ (forestVisiblePrefix s.rows p).length
  · -- hidden below a visible row at depth `d`, the row itself or its parent
    obtain ⟨i, hi, hk⟩ := iy.1 ((hvis d hd1).mpr h2)
    exact ⟨y, i, by rwa [hanchor d (by omega)], by simp only [List.findSome?, hn, hi], hk⟩
  · -- hidden down to the top-level row
    have hy' := iy.2 (Bool.eq_false_iff.mpr fun h => h2 ((hvis d hd1).mp h))
    obtain ⟨i, hi, hk⟩ := iz.1 ((hvis 1 le_rfl).mpr (by omega))
    exact ⟨z, i, by rwa [hanchor 1 (by omega)], by simp only [List.findSome?, hn, hy', hi], hk⟩

/-- A key resolves to nothing on the rebuilt view exactly when the forest has no row for the
key's build: every key of the forest has the row of its build at the top level, where it is
visible, and every candidate names the key's build. -/
lemma resolveKey_eq_none_iff {s : RepositoryBuilds} (hnd : (forestKeys s.rows).Nodup)
    (hlay : ∀ t ∈ s.rows.map BuildRow.keyTree, t.BuildLayout) (key : BuildRowKey) :
    resolveKey s.prefixAndIndex.dfsIndex key = none ↔
      (⟨key.accountID, key.buildID, 0, 0⟩ : BuildRowKey) ∉ forestKeys s.rows := by
  rw [resolveKey, List.findSome?_eq_none_iff]
  constructor
  · intro h hb
    obtain ⟨q, z, hz, hv, hzk⟩ := buildKey_of_mem_forestKeys hlay hb
    obtain ⟨i, hi, -⟩ := (dfsIndex_prefixAndIndex hnd hz).1 hv
    rw [hzk] at hi
    exact Option.some_ne_none _ (hi.symm.trans (h _ (by simp [selectCandidates])))
  · intro hb c hc
    rw [RepositoryBuilds.prefixAndIndex_dfsIndex, viewIndex_eq_none]
    intro hcv
    have hcf : c ∈ forestKeys s.rows :=
      forestKeys_prefixAndIndex s ▸ (keys_view_sublist s.prefixAndIndex.rows).subset hcv
    obtain ⟨q, z, hz, -, hzk⟩ := buildKey_of_mem_forestKeys hlay hcf
    have hab : c.accountID = key.accountID ∧ c.buildID = key.buildID := by
      simp only [selectCandidates, List.mem_cons, List.mem_singleton, List.not_mem_nil,
        or_false] at hc
      rcases hc with rfl | rfl | rfl <;> exact ⟨rfl, rfl⟩
    rw [← hab.1, ← hab.2, ← hzk] at hb
    exact hb (key_mem_forestKeys hz)

/-! ### The window holds its anchor -/

/-- In the range of `int`, the window of `Select` around a position `k` of the view reports no
error and holds the row at `k` at the index it returns. -/
lemma selectWindow_anchor {view : List BuildRow} {k : Nat} {nbrBefore nbrAfter : Int}
    (hk : k < view.length) (hb : 0 ≤ nbrBefore) (ha : 0 ≤ nbrAfter)
    (hbo : nbrBefore + nbrAfter + 1 < 2 ^ 63) (hko : k + nbrAfter + 1 < 2 ^ 63) :
    ∃ sel, selectWindow view k nbrBefore nbrAfter = .ok sel ∧ sel.err = none ∧
      sel.rows[sel.index.toNat]? = view[k]? := by
  have hkL : (k : Int) < view.length := Int.ofNat_lt.mpr hk
  obtain ⟨hstart, hsize, hlok, hkup⟩ := selectClamps (Int.natCast_nonneg k) hkL hb ha
  refine ⟨_, selectWindow_eq (Int.natCast_nonneg k) hkL hb ha hbo hko, rfl, ?_⟩
  dsimp only
  rw [List.getElem?_take_of_lt (by omega), List.getElem?_drop]
  congr 1
  omega

/-! ### The forest `FetchRows` builds, under any flags -/

/-- What a state keeps of `FetchRows` over `builds` through any `SetTraversable` calls: the
skeleton of the snapshot's forest, and a view marked stale. -/
structure FetchedView (builds : List Build) (s : RepositoryBuilds) : Prop where
  forest : s.rows.map BuildRow.keyTree = snapshotForest builds
  stale : s.dfsUpToDate = false

lemma fetchedView_fetchRows (s : RepositoryBuilds) (builds : List Build) :
    FetchedView builds (s.fetchRows builds) :=
  ⟨keyTrees_fetchRows s builds, rfl⟩

namespace FetchedView

variable {builds : List Build} {s : RepositoryBuilds}

lemma setTraversable (h : FetchedView builds s) (key : BuildRowKey) (v recursive : Bool) :
    FetchedView builds (s.setTraversable key v recursive) := by
  refine ⟨(keyTrees_setTraversable s key v recursive).trans h.forest, ?_⟩
  unfold RepositoryBuilds.setTraversable
  split
  · exact h.stale
  · rfl

/-- **The invariant along the calls.** -/
lemma foldl : ∀ (calls : List (BuildRowKey × Bool × Bool)) {s : RepositoryBuilds},
    FetchedView builds s →
      FetchedView builds (calls.foldl (fun s c => s.setTraversable c.1 c.2.1 c.2.2) s)
  | [], _, h => h
  | c :: calls, _, h => foldl calls (h.setTraversable c.1 c.2.1 c.2.2)

/-- A row of the snapshot's forest is the row of one of its builds. -/
lemma mem_snapshotRows {r : BuildRow}
    (hr : r ∈ (builds.map buildRowFromBuild).insertionSort updatedFirst) :
    ∃ b ∈ builds, r = buildRowFromBuild b := by
  obtain ⟨b, hb, rfl⟩ := List.mem_map.mp ((List.perm_insertionSort _ _).subset hr)
  exact ⟨b, hb, rfl⟩

lemma buildLayout (h : FetchedView builds s) (hw : ∀ b ∈ builds, b.WellFormed)
    (hk : ∀ b ∈ builds, b.KeyedByID) : ∀ t ∈ s.rows.map BuildRow.keyTree, t.BuildLayout := by
  rw [h.forest, snapshotForest]
  intro t ht
  obtain ⟨r, hr, rfl⟩ := List.mem_map.mp ht
  obtain ⟨b, hb, rfl⟩ := mem_snapshotRows hr
  exact (mirrorsBuild_keyTree (hw b hb) (hk b hb)).buildLayout

lemma nodup (h : FetchedView builds s) (hnd : (builds.map Build.rowKey).Nodup)
    (hw : ∀ b ∈ builds, b.WellFormed) (hk : ∀ b ∈ builds, b.KeyedByID) :
    (forestKeys s.rows).Nodup := by
  rw [forestKeys_eq, h.forest, snapshotForest, ← forestKeys_eq]
  refine forestKeys_nodup ?_ fun r hr => ?_
  · refine ((List.perm_insertionSort _ _).map BuildRow.key).nodup_iff.mpr ?_
    rwa [List.map_map]
  · obtain ⟨b, hb, rfl⟩ := mem_snapshotRows hr
    exact ⟨b, hw b hb, mirrorsBuild_keyTree (hw b hb) (hk b hb)⟩

lemma rows_eq_nil (h : FetchedView builds s) : s.rows = [] ↔ builds = [] := by
  have hlen := congrArg List.length h.forest
  simp only [List.length_map, snapshotForest, List.length_insertionSort] at hlen
  rw [← List.length_eq_zero, hlen, List.length_eq_zero]

end FetchedView

/-- The rebuilt view is empty exactly when the forest is: every top-level row is in it. -/
lemma prefixAndIndex_dfsTraversal_eq_nil (s : RepositoryBuilds) :
    s.prefixAndIndex.dfsTraversal = [] ↔ s.rows = [] := by
  cases h : s.rows with
  | nil => simp [h]
  | cons r rs => simp [h, depthFirstTraversal_eq]

/-! ### `Select` after `FetchRows` and `SetTraversable` -/

namespace RepositoryBuilds

/-- **Where `Select` anchors.** After `FetchRows` over a snapshot of
well-formed builds with distinct keys, each keyed by ID, and then any `SetTraversable` calls,
`Select` at the key of any row `n` copies the window of the view around the deepest
ancestor-or-self of `n` that is visible: `n` if it is, else its stage row if that is, else its
build row. In the range of `int` it returns that window with no error, the anchor at the index
it returns. For any key, `Select` reports the key not found exactly when the forest has no row
for the key's build, unless the snapshot is empty: then it returns no rows and no error. -/
theorem select_anchors_visible_ancestor (s₀ : RepositoryBuilds) (builds : List Build)
    (hnd : (builds.map Build.rowKey).Nodup) (hw : ∀ b ∈ builds, b.WellFormed)
    (hk : ∀ b ∈ builds, b.KeyedByID) (calls : List (BuildRowKey × Bool × Bool)) :
    let s := calls.foldl (fun s c => s.setTraversable c.1 c.2.1 c.2.2) (s₀.fetchRows builds)
    (∀ p n, forestGet? s.rows p = some n → ∃ (q : RowPtr) (x : BuildRow) (i : Nat),
      q <+: p ∧ forestGet? s.rows q = some x ∧ forestVisibleAt s.rows q = true ∧
      (∀ q', q' <+: p → forestVisibleAt s.rows q' = true → q'.length ≤ q.length) ∧
      (s.refresh.dfsTraversal[i]?).map BuildRow.key = some x.key ∧
      (∀ nbrBefore nbrAfter, s.select n.key nbrBefore nbrAfter =
        (selectWindow s.refresh.dfsTraversal i nbrBefore nbrAfter).map (s.refresh, ·)) ∧
      ∀ nbrBefore nbrAfter, 0 ≤ nbrBefore → 0 ≤ nbrAfter → nbrBefore + nbrAfter + 1 < 2 ^ 63 →
        (i : Int) + nbrAfter + 1 < 2 ^ 63 → ∃ sel, s.select n.key nbrBefore nbrAfter = .ok (s.refresh, sel) ∧
          sel.err = none ∧ (sel.rows[sel.index.toNat]?).map BuildRow.key = some x.key) ∧
    (builds = [] → ∀ key nbrBefore nbrAfter,
      s.select key nbrBefore nbrAfter = .ok (s.refresh, ⟨[], 0, none⟩)) ∧
    (builds ≠ [] → ∀ key nbrBefore nbrAfter,
      s.select key nbrBefore nbrAfter =
          .ok (s.refresh, ⟨[], 0, some (.new ("key '" ++ key.format ++ "' not found"))⟩) ↔
        (⟨key.accountID, key.buildID, 0, 0⟩ : BuildRowKey) ∉ forestKeys s.rows) := by
  intro s
  have hv : FetchedView builds s := FetchedView.foldl calls (fetchedView_fetchRows s₀ builds)
  have hnd' := hv.nodup hnd hw hk
  have hlay := hv.buildLayout hw hk
  have hs : s.refresh = s.prefixAndIndex := refresh_of_stale hv.stale
  refine ⟨fun p n hp => ?_, fun hb key nbrBefore nbrAfter => ?_,
    fun hb key nbrBefore nbrAfter => ?_⟩
  · obtain ⟨x, i, hx, hi, hix⟩ := resolveKey_prefixAndIndex hnd' hlay hp
    have hpre := forestVisiblePrefix_prefix s.rows p
    rw [← hs] at hi hix
    have hil : i < s.refresh.dfsTraversal.length := by
      by_contra h
      rw [List.getElem?_eq_none (not_lt.mp h)] at hix
      cases hix
    have hwin := select_eq_selectWindow (List.ne_nil_of_length_pos (by omega)) hi
    refine ⟨_, x, i, hpre, hx, (forestVisibleAt_forestVisiblePrefix hp).2,
      fun q' hq' hv' => (forestVisibleAt_prefix_iff s.rows hq' (by rintro rfl; cases hv')).mp hv',
      hix, hwin, fun nbrBefore nbrAfter hb ha hbo hko => ?_⟩
    obtain ⟨sel, hsel, herr, hrow⟩ := selectWindow_anchor hil hb ha hbo hko
    exact ⟨sel, by rw [hwin, hsel]; rfl, herr, by rw [hrow]; exact hix⟩
  · -- no build: an empty view
    have hnil : s.refresh.dfsTraversal = [] := by
      rw [hs, prefixAndIndex_dfsTraversal_eq_nil, hv.rows_eq_nil]; exact hb
    simp [select, hnil]
  · -- a view with a row: the key is not found when no candidate is in it
    have hne : s.refresh.dfsTraversal ≠ [] := by
      rw [hs, ne_eq, prefixAndIndex_dfsTraversal_eq_nil, hv.rows_eq_nil]; exact hb
    rw [← resolveKey_eq_none_iff hnd' hlay, ← hs]
    simp only [select, refresh_refresh, List.isEmpty_iff, hne, if_false]
    cases resolveKey s.refresh.dfsIndex key with
    | none => simp
    | some k =>
        cases hq : selectWindow s.refresh.dfsTraversal k nbrBefore nbrAfter with
        | error e => simp [Except.map, hq]
        | ok q =>
            simp only [Except.map, hq, Except.ok.injEq, Prod.mk.injEq, true_and, reduceCtorEq,
              iff_false]
            rintro rfl
            cases selectWindow_err hq

theorem select_anchors_visible_ancestor_sampleBuild :
    ([sampleBuild].map Build.rowKey).Nodup ∧ (∀ b ∈ [sampleBuild], b.WellFormed) ∧
    (∀ b ∈ [sampleBuild], b.KeyedByID) ∧
    let s := [(sampleBuild.rowKey, true, false)].foldl
      (fun s c => s.setTraversable c.1 c.2.1 c.2.2) (zero.fetchRows [sampleBuild])
    ([sampleBuild] ≠ [] → ∀ key nbrBefore nbrAfter,
      s.select key nbrBefore nbrAfter =
          .ok (s.refresh, ⟨[], 0, some (.new ("key '" ++ key.format ++ "' not found"))⟩) ↔
        (⟨key.accountID, key.buildID, 0, 0⟩ : BuildRowKey) ∉ forestKeys s.rows) := by
  have hnd : ([sampleBuild].map Build.rowKey).Nodup := by decide
  have hw : ∀ b ∈ [sampleBuild], b.WellFormed := by simpa using ⟨by decide, by decide⟩
  have hk : ∀ b ∈ [sampleBuild], b.KeyedByID := by simpa using ⟨by decide, by decide⟩
  exact ⟨hnd, hw, hk, (select_anchors_visible_ancestor zero [sampleBuild] hnd hw hk _).2.2⟩

set_option maxRecDepth 2000 in
/-- Why the anchor needs a snapshot with a build and jobs keyed by ID. With no build, the
forest has no build row, yet `Select` returns no rows and no error, not the error for a missing
key. A well-formed build may store one job under two IDs:
its forest then has two job rows with one key. With the build expanded the first is visible, at
position 1 of the view, after the build row; `Select` resolves the key to the second, so one
row before it is the first job row, not the build row. -/
theorem select_anchor_counterexamples :
    forestKeys (zero.fetchRows []).rows = [] ∧
    ((zero.fetchRows []).select ⟨"acc", 5, 0, 0⟩ 0 0).toOption.map (·.2.err) = some none ∧
    duplicateJobBuild.WellFormed ∧
    let s := (zero.fetchRows [duplicateJobBuild]).setTraversable duplicateJobBuild.rowKey true false
    (forestGet? s.rows [0, 0]).map BuildRow.key = some ⟨"acc", 5, 0, 7⟩ ∧
    forestVisibleAt s.rows [0, 0] = true ∧
    s.refresh.dfsTraversal.map BuildRow.key =
      [⟨"acc", 5, 0, 0⟩, ⟨"acc", 5, 0, 7⟩, ⟨"acc", 5, 0, 7⟩] ∧
    (s.select ⟨"acc", 5, 0, 7⟩ 1 0).toOption.map (fun q => (q.2.rows.map BuildRow.key, q.2.index)) =
      some ([⟨"acc", 5, 0, 7⟩, ⟨"acc", 5, 0, 7⟩], 1) :=
  ⟨by decide, by decide, ⟨by decide, by decide⟩, by decide, by decide, by decide, by decide⟩

end RepositoryBuilds

end Citop.Rows

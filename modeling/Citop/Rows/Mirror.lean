import Citop.Rows.Fetch

/-!
What `FetchRows` builds from a well-formed snapshot of the cache.

A snapshot comes from the cache's map, keyed by account and build ID, so its builds have
distinct references. `Build.WellFormed` is the rest of what the rows need of a build: stage
and job IDs are not zero, and every stage and job points back to the build and the stage that
hold it. `Build.KeyedByID` asks in addition that every stage and job be stored under its own
ID, as `SaveJob` stores jobs: `buildRowFromBuild` orders children by map key but keys rows by
ID, and the two agree only then (`fetchRows_duplicate_job_ids`).

* `MirrorsStage`, `MirrorsBuild`: the skeleton the spec describes for the row of a stage and of
  a build, read off the snapshot: the row's key over its jobs in ascending job ID, then its
  stages in ascending stage ID.
* `mirrorsBuild_keyTree`: the row `buildRowFromBuild` builds has that skeleton.
* `keys_nodup_of_mirrorsBuild`: the keys of such a row are distinct.
* `fetchRows_mirrors_snapshot`: after `FetchRows`, one top-level row per build, in
  non-increasing update time, each mirroring its build, all keys distinct, and `treeIndex`
  pointing each key at its row and holding no other key.
-/

namespace Citop.Rows

/-- The key of the row of a build. -/
def Build.rowKey (b : Build) : BuildRowKey := ⟨b.repository.accountID, b.id, 0, 0⟩

/-- A well-formed build: stage and job IDs are not zero (a zero ID in a key means
"not a stage" or "not a job"), every stage and job points back to its build, and a job points
to the stage that holds it, or to none when the build holds it. -/
structure Build.WellFormed (b : Build) : Prop where
  jobs : ∀ e ∈ b.jobs.entries, e.2.id ≠ 0 ∧ e.2.build = b.ref ∧ e.2.stage = none
  stages : ∀ e ∈ b.stages.entries, e.2.id ≠ 0 ∧ e.2.build = b.ref ∧
    ∀ f ∈ e.2.jobs.entries, f.2.id ≠ 0 ∧ f.2.build = b.ref ∧ f.2.stage = some e.2.id

/-- Every stage and job of the build is stored under its own ID. -/
structure Build.KeyedByID (b : Build) : Prop where
  jobs : ∀ e ∈ b.jobs.entries, e.2.id = e.1
  stages : ∀ e ∈ b.stages.entries, e.2.id = e.1 ∧ ∀ f ∈ e.2.jobs.entries, f.2.id = f.1

/-- The skeleton of the row of a stage: the stage's key over its jobs,
which have no children, in ascending job ID. -/
def MirrorsStage (b : Build) (st : Stage) (t : KeyTree) : Prop :=
  ∃ ks : List BuildRowKey,
    t = .node ⟨b.repository.accountID, b.id, st.id, 0⟩ (ks.map (.node · [])) ∧
    ks.Sorted (·.jobID < ·.jobID) ∧
    ks.Perm (st.jobs.entries.map fun e => ⟨b.repository.accountID, b.id, st.id, e.2.id⟩)

/-- The skeleton of the row of a build: the build's key over its
build-level jobs in ascending job ID, then its stages in ascending stage ID, each mirroring
its stage. -/
def MirrorsBuild (b : Build) (t : KeyTree) : Prop :=
  ∃ (ks : List BuildRowKey) (ts : List KeyTree),
    t = .node b.rowKey (ks.map (.node · []) ++ ts) ∧
    ks.Sorted (·.jobID < ·.jobID) ∧
    ks.Perm (b.jobs.entries.map fun e => ⟨b.repository.accountID, b.id, 0, e.2.id⟩) ∧
    (ts.map KeyTree.key).Sorted (·.stageID < ·.stageID) ∧
    (ts.map KeyTree.key).Perm (b.stages.entries.map fun e => ⟨b.repository.accountID, b.id, e.2.id, 0⟩) ∧
    ∀ t ∈ ts, ∃ e ∈ b.stages.entries, MirrorsStage b e.2 t

/-! ### The loop over a map's keys -/

/-- The keys of a map in ascending order, each once. -/
lemma sorted_sortedKeys {α : Type} (m : GoMap Int α) :
    (m.keys.insertionSort (· ≤ ·)).Sorted (· < ·) :=
  (List.sorted_insertionSort _ _).lt_of_le
    ((List.perm_insertionSort _ _).nodup_iff.mpr m.keys_nodup)

/-- The loop over the sorted keys, read through any function of the rows. -/
lemma map_sortedRows {α β : Type} {m : GoMap Int α} {f : α → BuildRow} {g : BuildRow → β}
    {h : Int → β} (hf : ∀ k a, m.lookup k = some a → g (f a) = h k) :
    (sortedRows m f).map g = (m.keys.insertionSort (· ≤ ·)).map h := by
  have key : ∀ l : List Int, (∀ k ∈ l, k ∈ m) →
      l.filterMap (fun k => ((m.lookup k).map f).map g) = l.map h := by
    intro l hl
    induction l with
    | nil => rfl
    | cons k ks ih =>
        obtain ⟨a, ha⟩ := Option.isSome_iff_exists.mp
          (AList.lookup_isSome.mpr (hl k (List.mem_cons_self _ _)))
        simp only [List.filterMap_cons, ha, Option.map_some', List.map_cons,
          ih fun k' hk' => hl k' (List.mem_cons_of_mem _ hk'), hf k a ha]
  rw [sortedRows, List.map_filterMap]
  exact key _ fun k hk => AList.mem_keys.mpr ((List.perm_insertionSort _ _).subset hk)

/-- The sorted keys of a map keyed by `id`, read as ascending IDs of its entries. -/
lemma sortedKeys_perm {α : Type} {m : GoMap Int α} {id : α → Int}
    (hid : ∀ e ∈ m.entries, id e.2 = e.1) {β : Type} (g : Int → β) :
    ((m.keys.insertionSort (· ≤ ·)).map g).Perm (m.entries.map fun e => g (id e.2)) := by
  have hkeys : m.entries.map (fun e => g (id e.2)) = m.keys.map g := by
    rw [AList.keys, List.keys, List.map_map]
    exact List.map_congr_left fun e he => by simp [hid e he]
  rw [hkeys]
  exact (List.perm_insertionSort _ _).map g

/-! ### The row of a build -/

lemma keyTree_buildRowFromJob (j : Job) :
    (buildRowFromJob j).keyTree = .node ⟨j.build.accountID, j.build.id, j.stage.getD 0, j.id⟩ [] :=
  rfl

lemma keyTree_buildRowFromStage (st : Stage) :
    (buildRowFromStage st).keyTree = .node ⟨st.build.accountID, st.build.id, st.id, 0⟩
      ((sortedRows st.jobs buildRowFromJob).map BuildRow.keyTree) := by
  simp [buildRowFromStage, BuildRow.keyTree]

lemma keyTree_buildRowFromBuild (b : Build) :
    (buildRowFromBuild b).keyTree = .node b.rowKey
      ((sortedRows b.jobs buildRowFromJob).map BuildRow.keyTree ++
        (sortedRows b.stages buildRowFromStage).map BuildRow.keyTree) := by
  simp [buildRowFromBuild, BuildRow.keyTree, Build.rowKey]

/-- The row of a stage of a well-formed build mirrors the stage. -/
lemma mirrorsStage_keyTree {b : Build} {e : Σ _ : Int, Stage} (he : e ∈ b.stages.entries)
    (hw : b.WellFormed) (hk : b.KeyedByID) : MirrorsStage b e.2 (buildRowFromStage e.2).keyTree := by
  obtain ⟨-, hbuild, hjobs⟩ := hw.stages e he
  have hid := (hk.stages e he).2
  have hrows := map_sortedRows (m := e.2.jobs) (f := buildRowFromJob) (g := BuildRow.keyTree)
    (h := fun k => .node ⟨b.repository.accountID, b.id, e.2.id, k⟩ []) fun k j hj => by
      have hmem := AList.mem_lookup_iff.mp hj
      obtain ⟨-, hjb, hjs⟩ := hjobs _ hmem
      have hjk : j.id = k := hid _ hmem
      dsimp only at hjb hjs
      simp [keyTree_buildRowFromJob, hjb, hjs, Build.ref, hjk]
  refine ⟨(e.2.jobs.keys.insertionSort (· ≤ ·)).map fun k => ⟨b.repository.accountID, b.id, e.2.id, k⟩,
    ?_, List.pairwise_map.mpr (sorted_sortedKeys _), sortedKeys_perm hid _⟩
  rw [keyTree_buildRowFromStage, hrows, hbuild, List.map_map]
  rfl

/-- **The row of a build.** Under a well-formed build keyed by ID, `buildRowFromBuild` builds
the skeleton `MirrorsBuild` describes. -/
theorem mirrorsBuild_keyTree {b : Build} (hw : b.WellFormed) (hk : b.KeyedByID) :
    MirrorsBuild b (buildRowFromBuild b).keyTree := by
  have hjobs := map_sortedRows (m := b.jobs) (f := buildRowFromJob) (g := BuildRow.keyTree)
    (h := fun k => .node ⟨b.repository.accountID, b.id, 0, k⟩ []) fun k j hj => by
      have hmem := AList.mem_lookup_iff.mp hj
      obtain ⟨-, hjb, hjs⟩ := hw.jobs _ hmem
      have hjk : j.id = k := hk.jobs _ hmem
      dsimp only at hjb hjs
      simp [keyTree_buildRowFromJob, hjb, hjs, Build.ref, hjk]
  have hstageKeys := map_sortedRows (m := b.stages) (f := buildRowFromStage)
    (g := KeyTree.key ∘ BuildRow.keyTree) (h := fun k => ⟨b.repository.accountID, b.id, k, 0⟩)
    fun k st hst => by
      have hmem := AList.mem_lookup_iff.mp hst
      obtain ⟨-, hsb, -⟩ := hw.stages _ hmem
      have hsk : st.id = k := (hk.stages _ hmem).1
      dsimp only at hsb
      simp [keyTree_buildRowFromStage, hsb, Build.ref, hsk, KeyTree.key]
  have hsid : ∀ e ∈ b.stages.entries, e.2.id = e.1 := fun e he => (hk.stages e he).1
  refine ⟨(b.jobs.keys.insertionSort (· ≤ ·)).map fun k => ⟨b.repository.accountID, b.id, 0, k⟩,
    (sortedRows b.stages buildRowFromStage).map BuildRow.keyTree, ?_,
    List.pairwise_map.mpr (sorted_sortedKeys _), sortedKeys_perm hk.jobs _, ?_, ?_, ?_⟩
  · rw [keyTree_buildRowFromBuild, hjobs, List.map_map]
    rfl
  · rw [List.map_map, hstageKeys]
    exact List.pairwise_map.mpr (sorted_sortedKeys _)
  · rw [List.map_map, hstageKeys]
    exact sortedKeys_perm hsid _
  · intro t ht
    obtain ⟨r, hr, rfl⟩ := List.mem_map.mp ht
    obtain ⟨e, he, rfl⟩ := mem_sortedRows hr
    exact ⟨e, he, mirrorsStage_keyTree he hw hk⟩

/-! ### Distinct keys -/

/-- A key listed for a stage's job lies under the stage and names a job. -/
lemma MirrorsStage.mem_keys {b : Build} {st : Stage} {t : KeyTree} (h : MirrorsStage b st t)
    (hjobs : ∀ f ∈ st.jobs.entries, f.2.id ≠ 0) :
    t.key = ⟨b.repository.accountID, b.id, st.id, 0⟩ ∧ t.keys.Nodup ∧
      ∀ k ∈ t.keys, k.accountID = b.repository.accountID ∧ k.buildID = b.id ∧ k.stageID = st.id := by
  obtain ⟨ks, rfl, hs, hp⟩ := h
  have hks : ∀ k ∈ ks, k.accountID = b.repository.accountID ∧ k.buildID = b.id ∧
      k.stageID = st.id ∧ k.jobID ≠ 0 := by
    intro k hk
    obtain ⟨f, hf, rfl⟩ := List.mem_map.mp (hp.subset hk)
    exact ⟨rfl, rfl, rfl, hjobs f hf⟩
  simp only [KeyTree.key, KeyTree.keys_node, List.flatMap_map, KeyTree.keys_node,
    List.flatMap_nil, List.flatMap_singleton', List.nodup_cons, List.mem_cons, forall_eq_or_imp,
    true_and]
  exact ⟨⟨fun hk => (hks _ hk).2.2.2 rfl, hs.imp fun h => ne_of_apply_ne BuildRowKey.jobID h.ne⟩,
    fun k hk => ⟨(hks k hk).1, (hks k hk).2.1, (hks k hk).2.2.1⟩⟩

/-- The keys of a row mirroring a well-formed build are distinct, and all name the build. -/
lemma MirrorsBuild.keys_spec {b : Build} {t : KeyTree} (h : MirrorsBuild b t) (hw : b.WellFormed) :
    t.key = b.rowKey ∧ t.keys.Nodup ∧
      ∀ k ∈ t.keys, k.accountID = b.repository.accountID ∧ k.buildID = b.id := by
  obtain ⟨ks, ts, rfl, hs, hp, hts, -, hmir⟩ := h
  have hks : ∀ k ∈ ks, k.accountID = b.repository.accountID ∧ k.buildID = b.id ∧
      k.stageID = 0 ∧ k.jobID ≠ 0 := by
    intro k hk
    obtain ⟨f, hf, rfl⟩ := List.mem_map.mp (hp.subset hk)
    exact ⟨rfl, rfl, rfl, (hw.jobs f hf).1⟩
  have hstage : ∀ t ∈ ts, t.key.stageID ≠ 0 ∧ t.keys.Nodup ∧ ∀ k ∈ t.keys,
      k.accountID = b.repository.accountID ∧ k.buildID = b.id ∧ k.stageID = t.key.stageID := by
    intro t ht
    obtain ⟨e, he, hm⟩ := hmir t ht
    obtain ⟨hid, -, hjobs⟩ := hw.stages e he
    obtain ⟨hkey, hnd, hk⟩ := hm.mem_keys fun f hf => (hjobs f hf).1
    rw [hkey]
    exact ⟨hid, hnd, hk⟩
  have hdisj : ts.Pairwise fun t u => t.keys.Disjoint u.keys :=
    (List.pairwise_map.mp hts).imp_of_mem fun ht hu hlt k hkt hku => by
      have := (hstage _ ht).2.2 k hkt
      have := (hstage _ hu).2.2 k hku
      omega
  have hkeys : (KeyTree.node b.rowKey (ks.map (.node · []) ++ ts)).keys =
      b.rowKey :: (ks ++ ts.flatMap KeyTree.keys) := by
    simp [List.flatMap_map]
  rw [hkeys, List.nodup_cons, List.nodup_append, List.nodup_flatMap]
  refine ⟨rfl, ⟨?_, ⟨hs.imp fun h => ne_of_apply_ne BuildRowKey.jobID h.ne,
    ⟨fun t ht => (hstage t ht).2.1, hdisj⟩, ?_⟩⟩, ?_⟩
  · rw [List.mem_append, List.mem_flatMap]
    rintro (hk | ⟨t, ht, hk⟩)
    · exact (hks _ hk).2.2.2 rfl
    · exact (hstage t ht).1 ((hstage t ht).2.2 _ hk).2.2.symm
  · intro k hk hk'
    obtain ⟨t, ht, hkt⟩ := List.mem_flatMap.mp hk'
    exact (hstage t ht).1 (((hstage t ht).2.2 k hkt).2.2 ▸ (hks k hk).2.2.1)
  · simp only [List.mem_cons, List.mem_append, List.mem_flatMap]
    rintro k (rfl | hk | ⟨t, ht, hk⟩)
    · exact ⟨rfl, rfl⟩
    · exact ⟨(hks k hk).1, (hks k hk).2.1⟩
    · exact ⟨((hstage t ht).2.2 k hk).1, ((hstage t ht).2.2 k hk).2.1⟩

/-! ### `FetchRows` over a snapshot -/

/-- The rows of distinct builds, each mirroring its build, have disjoint keys. -/
lemma forestKeys_nodup {rows : List BuildRow} (hnd : (rows.map BuildRow.key).Nodup)
    (hmir : ∀ r ∈ rows, ∃ b, b.WellFormed ∧ MirrorsBuild b r.keyTree) :
    (forestKeys rows).Nodup := by
  have hspec : ∀ r ∈ rows, ∃ b : Build, r.key = b.rowKey ∧ r.keyTree.keys.Nodup ∧
      ∀ k ∈ r.keyTree.keys, k.accountID = b.repository.accountID ∧ k.buildID = b.id := by
    intro r hr
    obtain ⟨b, hw, hm⟩ := hmir r hr
    obtain ⟨hkey, hnd, hk⟩ := hm.keys_spec hw
    exact ⟨b, by simpa using hkey, hnd, hk⟩
  rw [forestKeys_eq, List.flatMap_map, List.nodup_flatMap]
  refine ⟨fun r hr => ?_, (List.pairwise_map.mp hnd).imp_of_mem ?_⟩
  · obtain ⟨b, -, hnd, -⟩ := hspec r hr
    exact hnd
  intro r r' hr hr' hne k hk hk'
  obtain ⟨b, hb, -, hbk⟩ := hspec r hr
  obtain ⟨b', hb', -, hbk'⟩ := hspec r' hr'
  obtain ⟨ha, hi⟩ := hbk k hk
  obtain ⟨ha', hi'⟩ := hbk' k hk'
  exact hne (by rw [hb, hb', Build.rowKey, Build.rowKey, ← ha, ← hi, ← ha', ← hi'])

/-- **`FetchRows` over a snapshot**: on a snapshot of distinct, well-formed
builds, each keyed by ID, the new forest has one top-level row per build, in non-increasing
update time, each mirroring its build and carrying its update time; its keys are distinct; and
`treeIndex` points each key at the row carrying it and holds no other key. -/
theorem fetchRows_mirrors_snapshot (s : RepositoryBuilds) (builds : List Build)
    (hnd : (builds.map Build.rowKey).Nodup) (hw : ∀ b ∈ builds, b.WellFormed)
    (hk : ∀ b ∈ builds, b.KeyedByID) :
    ((s.fetchRows builds).rows.map BuildRow.key).Perm (builds.map Build.rowKey) ∧
    (∀ r ∈ (s.fetchRows builds).rows, ∃ b ∈ builds,
      MirrorsBuild b r.keyTree ∧ r.updatedAt = ⟨b.updatedAt, true⟩) ∧
    (s.fetchRows builds).rows.Sorted (fun r r' => r'.updatedAt.time ≤ r.updatedAt.time) ∧
    (forestKeys (s.fetchRows builds).rows).Nodup ∧
    ∀ k, (k ∈ forestKeys (s.fetchRows builds).rows → ∃ p r, (s.fetchRows builds).treeIndex k = some p ∧
        forestGet? (s.fetchRows builds).rows p = some r ∧ r.key = k) ∧
      (k ∉ forestKeys (s.fetchRows builds).rows → (s.fetchRows builds).treeIndex k = none) := by
  set sorted := (builds.map buildRowFromBuild).insertionSort updatedFirst
  have hrows : (s.fetchRows builds).rows = sorted.map (restoreTraversable (savedTraversables s.rows)) :=
    rfl
  have hperm : (sorted.map BuildRow.key).Perm (builds.map Build.rowKey) := by
    rw [show builds.map Build.rowKey = (builds.map buildRowFromBuild).map BuildRow.key from
      by rw [List.map_map]; rfl]
    exact (List.perm_insertionSort _ _).map _
  have hkeys : (s.fetchRows builds).rows.map BuildRow.key = sorted.map BuildRow.key := by
    rw [hrows, List.map_map]
    exact List.map_congr_left fun r _ => key_restoreTraversable _ r
  have hmir : ∀ r ∈ (s.fetchRows builds).rows, ∃ b ∈ builds,
      MirrorsBuild b r.keyTree ∧ r.updatedAt = ⟨b.updatedAt, true⟩ := by
    intro r hr
    rw [hrows] at hr
    obtain ⟨r₀, hr₀, rfl⟩ := List.mem_map.mp hr
    obtain ⟨b, hb, rfl⟩ := List.mem_map.mp ((List.perm_insertionSort _ _).subset hr₀)
    rw [keyTree_restoreTraversable, updatedAt_restoreTraversable]
    exact ⟨b, hb, mirrorsBuild_keyTree (hw b hb) (hk b hb), rfl⟩
  have hnd' : (forestKeys (s.fetchRows builds).rows).Nodup := by
    refine forestKeys_nodup (hkeys ▸ hperm.nodup_iff.mpr hnd) fun r hr => ?_
    obtain ⟨b, hb, hm, -⟩ := hmir r hr
    exact ⟨b, hw b hb, hm⟩
  refine ⟨hkeys ▸ hperm, hmir, ?_, hnd', treeIndex_spec _⟩
  rw [hrows, List.Sorted, List.pairwise_map]
  exact (List.sorted_insertionSort updatedFirst _).imp fun h => by simpa using h

/-- A build of one account with a job of its own and a stage of one job, each stored under
its ID. -/
def sampleBuild : Build where
  repository := ⟨"acc", 1, "acc/repo", "acc", "repo"⟩
  id := 5
  commit := ⟨"sha", "Fix the build\n\nDetails", {}⟩
  state := .passed
  startedAt := {}
  finishedAt := {}
  updatedAt := 100
  webURL := ""
  stages := (∅ : GoMap Int Stage).insert 3
    ⟨⟨"acc", 5⟩, 3, "test", .passed,
      (∅ : GoMap Int Job).insert 8 ⟨⟨"acc", 5⟩, some 3, 8, .passed, "unit", {}, {}, {}, ""⟩⟩
  jobs := (∅ : GoMap Int Job).insert 7 ⟨⟨"acc", 5⟩, none, 7, .passed, "lint", {}, {}, {}, ""⟩

theorem fetchRows_mirrors_sampleBuild :
    ([sampleBuild].map Build.rowKey).Nodup ∧ sampleBuild.WellFormed ∧ sampleBuild.KeyedByID ∧
      (forestKeys (RepositoryBuilds.zero.fetchRows [sampleBuild]).rows).Nodup := by
  have hnd : ([sampleBuild].map Build.rowKey).Nodup := by decide
  have hw : sampleBuild.WellFormed := ⟨by decide, by decide⟩
  have hk : sampleBuild.KeyedByID := ⟨by decide, by decide⟩
  exact ⟨hnd, hw, hk, (fetchRows_mirrors_snapshot _ _ hnd (by simpa using hw)
    (by simpa using hk)).2.2.2.1⟩

/-- The build-level job of `sampleBuild` stored under two keys, 1 and 2. -/
def duplicateJobBuild : Build :=
  { sampleBuild with
    stages := ∅
    jobs := ((∅ : GoMap Int Job).insert 1 ⟨⟨"acc", 5⟩, none, 7, .passed, "lint", {}, {}, {}, ""⟩).insert 2
      ⟨⟨"acc", 5⟩, none, 7, .passed, "lint", {}, {}, {}, ""⟩ }

/-- Stored under two keys, one job yields two rows with one key: the build is well formed, but
the keys of the forest are not distinct. -/
theorem fetchRows_duplicate_job_ids :
    duplicateJobBuild.WellFormed ∧
      ¬(forestKeys (RepositoryBuilds.zero.fetchRows [duplicateJobBuild]).rows).Nodup :=
  ⟨⟨by decide, by decide⟩, by decide⟩

end Citop.Rows

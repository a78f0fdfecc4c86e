import Citop.Rows.Mirror

/-!
The `traversable` flags across `FetchRows` and `SetTraversable`.

* `flagEntries`: a tree's rows in full traversal order, each as its flag and its key.
* `flagEntries_modifyAt`: a write through a pointer changes the entries of the subtree it reaches
  and no other (the frame lemma).
* `flagEntries_restoreTraversable`: `FetchRows` gives every new row the flag saved under its key,
  and `false` when none was saved, since the rows it builds are collapsed.
* `fetchRows_idempotent`: a second `FetchRows` over the same snapshot changes nothing.
-/

namespace Citop.Rows

/-! ### Flags of a forest -/

/-- A row's flag with its key. -/
def BuildRow.flagEntry (r : BuildRow) : Bool × BuildRowKey := (r.traversable, r.key)

/-- The flags of a tree, in full traversal order. -/
def flagEntries (r : BuildRow) : List (Bool × BuildRowKey) :=
  (depthFirstTraversal true r).map BuildRow.flagEntry

lemma flagEntries_eq (r : BuildRow) :
    flagEntries r = r.flagEntry :: r.children.flatMap flagEntries := by
  rw [flagEntries, depthFirstTraversal_eq]
  simp only [Bool.true_or, if_true, List.map_cons, List.map_flatMap]
  rfl

/-- The keys of the entries are the keys of the skeleton. -/
lemma keys_flagEntries (r : BuildRow) : (flagEntries r).map Prod.snd = r.keyTree.keys := by
  rw [flagEntries, List.map_map, ← keys_depthFirstTraversal]
  rfl

lemma keys_flatMap_flagEntries (rows : List BuildRow) :
    (rows.flatMap flagEntries).map Prod.snd = forestKeys rows := by
  rw [forestKeys_eq, List.map_flatMap, List.flatMap_map]
  exact List.flatMap_congr fun r _ => keys_flagEntries r

/-! ### The frame of a write -/

/-- Rewriting one element of a list rewrites one block of a `flatMap`. -/
lemma flatMap_modify {α β : Type} (f : α → α) (h : α → List β) :
    ∀ (l : List α) (i : Nat) (c : α), l[i]? = some c →
      ∃ pre post, l.flatMap h = pre ++ h c ++ post ∧
        (l.modify f i).flatMap h = pre ++ h (f c) ++ post
  | [], _, _, hc => by simp at hc
  | a :: l, 0, c, hc => by
      obtain rfl : a = c := by simpa using hc
      exact ⟨[], l.flatMap h, by simp, by simp⟩
  | a :: l, i + 1, c, hc => by
      obtain ⟨pre, post, h1, h2⟩ := flatMap_modify f h l i c (by simpa using hc)
      exact ⟨h a ++ pre, post, by simp [h1], by simp [h2]⟩

/-- **The frame lemma.** A write through a path below a row changes the flags of the subtree it
reaches, and no other: the entries before and after that subtree's are unchanged. -/
lemma flagEntries_modifyAt (g : BuildRow → BuildRow) :
    ∀ (r : BuildRow) (p : RowPtr) (sub : BuildRow), r.get? p = some sub →
      ∃ pre post, flagEntries r = pre ++ flagEntries sub ++ post ∧
        flagEntries (r.modifyAt g p) = pre ++ flagEntries (g sub) ++ post
  | r, [], sub, h => by
      cases h
      exact ⟨[], [], by simp, by simp [BuildRow.modifyAt]⟩
  | r, i :: p, sub, h => by
      simp only [BuildRow.get?, Option.bind_eq_some] at h
      obtain ⟨c, hc, hsub⟩ := h
      obtain ⟨pre, post, h1, h2⟩ := flagEntries_modifyAt g c p sub hsub
      obtain ⟨pre', post', h3, h4⟩ := flatMap_modify (·.modifyAt g p) flagEntries r.children i c hc
      refine ⟨r.flagEntry :: (pre' ++ pre), post ++ post', ?_, ?_⟩
      · rw [flagEntries_eq, h3, h1]; simp
      · rw [flagEntries_eq, BuildRow.modifyAt]
        simp only [h4, h2]
        simp [BuildRow.flagEntry]

/-- The frame lemma for a pointer into the forest. -/
lemma flagEntries_forestModifyAt (g : BuildRow → BuildRow) {rows : List BuildRow} {p : RowPtr} {sub : BuildRow} (h : forestGet? rows p = some sub) :
    ∃ pre post, rows.flatMap flagEntries = pre ++ flagEntries sub ++ post ∧
      (forestModifyAt g rows p).flatMap flagEntries = pre ++ flagEntries (g sub) ++ post := by
  cases p with
  | nil => simp [forestGet?] at h
  | cons i p =>
      simp only [forestGet?, Option.bind_eq_some] at h
      obtain ⟨c, hc, hsub⟩ := h
      obtain ⟨pre, post, h1, h2⟩ := flagEntries_modifyAt g c p sub hsub
      obtain ⟨pre', post', h3, h4⟩ := flatMap_modify (·.modifyAt g p) flagEntries rows i c hc
      exact ⟨pre' ++ pre, post ++ post', by rw [h3, h1]; simp, by
        rw [forestModifyAt, h4, h2]; simp⟩

/-- A row a pointer reaches is listed by the full traversal. -/
lemma BuildRow.mem_of_get? : ∀ (r : BuildRow) (p : RowPtr) {sub : BuildRow}, r.get? p = some sub →
    sub ∈ depthFirstTraversal true r
  | r, [], sub, h => by
      cases h
      rw [depthFirstTraversal_eq]; exact List.mem_cons_self _ _
  | r, i :: p, sub, h => by
      simp only [BuildRow.get?, Option.bind_eq_some] at h
      obtain ⟨c, hc, hsub⟩ := h
      rw [depthFirstTraversal_eq]
      simp only [Bool.true_or, if_true, List.mem_cons, List.mem_flatMap]
      exact .inr ⟨c, List.getElem?_mem hc, c.mem_of_get? p hsub⟩

lemma mem_of_forestGet? {rows : List BuildRow} {p : RowPtr} {sub : BuildRow}
    (h : forestGet? rows p = some sub) : sub ∈ rows.flatMap (depthFirstTraversal true) := by
  cases p with
  | nil => simp [forestGet?] at h
  | cons i p =>
      simp only [forestGet?, Option.bind_eq_some] at h
      obtain ⟨c, hc, hsub⟩ := h
      exact List.mem_flatMap.mpr ⟨c, List.getElem?_mem hc, c.mem_of_get? p hsub⟩

/-! ### The flags `FetchRows` and `SetTraversable` write -/

/-- A job row is a leaf. -/
lemma flagEntries_buildRowFromJob (j : Job) :
    flagEntries (buildRowFromJob j) = [(false, (buildRowFromJob j).key)] := by
  rw [flagEntries_eq]; rfl

/-- The rows `FetchRows` builds are collapsed. -/
lemma flagEntries_buildRowFromBuild (b : Build) :
    ∀ e ∈ flagEntries (buildRowFromBuild b), e.1 = false := by
  have hjobs : ∀ {m : GoMap Int Job}, ∀ e ∈ (sortedRows m buildRowFromJob).flatMap flagEntries,
      e.1 = false := by
    intro m e he
    obtain ⟨c, hc, he⟩ := List.mem_flatMap.mp he
    obtain ⟨j, -, rfl⟩ := mem_sortedRows hc
    rw [flagEntries_buildRowFromJob, List.mem_singleton] at he
    rw [he]
  intro e he
  rw [flagEntries_eq] at he
  simp only [List.mem_cons, List.mem_flatMap] at he
  rcases he with rfl | ⟨c, hc, he⟩
  · rfl
  · rcases List.mem_append.mp hc with hc | hc
    · exact hjobs e (List.mem_flatMap.mpr ⟨c, hc, he⟩)
    · obtain ⟨st, -, rfl⟩ := mem_sortedRows hc
      rw [flagEntries_eq] at he
      rcases List.mem_cons.mp he with rfl | he
      · rfl
      · exact hjobs e he

mutual

/-- The restore step of `FetchRows` gives each row the flag saved under its key. -/
lemma flagEntries_restoreTraversable (saved : BuildRowKey → Option Bool) :
    ∀ r : BuildRow, flagEntries (restoreTraversable saved r) =
      (flagEntries r).map fun e => ((saved e.2).getD e.1, e.2)
  | { key := k, children := cs, .. } => by
      simp only [restoreTraversable]
      rw [flagEntries_eq, flagEntries_eq]
      simp only [List.map_cons, flatMap_flagEntries_restoreTraversableList saved cs]
      rfl

lemma flatMap_flagEntries_restoreTraversableList (saved : BuildRowKey → Option Bool) :
    ∀ rs : List BuildRow, (restoreTraversableList saved rs).flatMap flagEntries =
      (rs.flatMap flagEntries).map fun e => ((saved e.2).getD e.1, e.2)
  | [] => rfl
  | r :: rs => by
      simp only [restoreTraversableList, List.flatMap_cons, List.map_append,
        flagEntries_restoreTraversable saved r, flatMap_flagEntries_restoreTraversableList saved rs]

end

/-- `traversables[key]` holds exactly the keys of the expanded rows. -/
lemma savedTraversables_eq (rows : List BuildRow) (k : BuildRowKey) :
    savedTraversables rows k = if (true, k) ∈ rows.flatMap flagEntries then some true else none := by
  have hmem : (true, k) ∈ rows.flatMap flagEntries ↔
      k ∈ (((depthFirstTraversalList true rows).filter (·.traversable)).map
        fun r => (true, r.key)).map Prod.snd := by
    simp only [flagEntries, depthFirstTraversalList_eq, List.mem_flatMap, List.mem_map,
      List.map_map, List.mem_filter, BuildRow.flagEntry, Prod.mk.injEq, Function.comp_def]
    constructor
    · rintro ⟨c, hc, r, hr, ht, rfl⟩; exact ⟨r, ⟨⟨c, hc, hr⟩, ht⟩, rfl⟩
    · rintro ⟨r, ⟨⟨c, hc, hr⟩, ht⟩, rfl⟩; exact ⟨c, hc, r, hr, ht, rfl⟩
  split_ifs with h
  · obtain ⟨b, hb⟩ := Option.ne_none_iff_exists'.mp
      (mt indexOf_eq_none.mp (not_not.mpr (hmem.mp h)))
    have := mem_of_indexOf hb
    simp only [List.mem_map] at this
    obtain ⟨r, -, he⟩ := this
    rw [savedTraversables, hb, ← (Prod.mk.inj he).1]
  · exact indexOf_eq_none.mpr (mt hmem.mpr h)

/-- **`FetchRows` carries the flags forward by key.** Every row of the new forest is expanded
exactly when a row of the old forest with its key was. -/
lemma flagEntries_fetchRows (s : RepositoryBuilds) (builds : List Build) :
    ∀ e ∈ (s.fetchRows builds).rows.flatMap flagEntries,
      e.1 = decide ((true, e.2) ∈ s.rows.flatMap flagEntries) := by
  intro e he
  simp only [RepositoryBuilds.fetchRows, List.flatMap_map, List.mem_flatMap] at he
  obtain ⟨r, hr, he⟩ := he
  rw [flagEntries_restoreTraversable, List.mem_map] at he
  obtain ⟨e', he', rfl⟩ := he
  obtain ⟨b, -, rfl⟩ := List.mem_map.mp ((List.perm_insertionSort _ _).subset hr)
  rw [flagEntries_buildRowFromBuild b e' he', savedTraversables_eq]
  split_ifs with h <;> simp [h]

mutual

/-- The restore step reads the saved flags only through the flags it gives the tree's rows. -/
lemma restoreTraversable_congr {saved saved' : BuildRowKey → Option Bool} :
    ∀ r : BuildRow, (∀ e ∈ flagEntries r, (saved e.2).getD e.1 = (saved' e.2).getD e.1) →
      restoreTraversable saved r = restoreTraversable saved' r
  | { key := k, children := cs, traversable := t, .. }, h => by
      rw [flagEntries_eq] at h
      have hroot : (saved k).getD t = (saved' k).getD t := h _ (List.mem_cons_self _ _)
      simp only [restoreTraversable]
      rw [hroot, restoreTraversableList_congr cs fun e he => h e (List.mem_cons_of_mem _ he)]

lemma restoreTraversableList_congr {saved saved' : BuildRowKey → Option Bool} :
    ∀ rs : List BuildRow, (∀ e ∈ rs.flatMap flagEntries, (saved e.2).getD e.1 = (saved' e.2).getD e.1) →
      restoreTraversableList saved rs = restoreTraversableList saved' rs
  | [], _ => rfl
  | r :: rs, h => by
      simp only [List.flatMap_cons, List.mem_append] at h
      simp only [restoreTraversableList]
      rw [restoreTraversable_congr r fun e he => h e (.inl he),
        restoreTraversableList_congr rs fun e he => h e (.inr he)]

end

/-- After `FetchRows`, a key is saved as expanded exactly when it was before the call, for the
keys of the new forest. -/
lemma expanded_fetchRows (s : RepositoryBuilds) (builds : List Build) {k : BuildRowKey}
    (hk : k ∈ ((s.fetchRows builds).rows.flatMap flagEntries).map Prod.snd) :
    (true, k) ∈ (s.fetchRows builds).rows.flatMap flagEntries ↔ (true, k) ∈ s.rows.flatMap flagEntries := by
  constructor
  · intro h
    simpa using flagEntries_fetchRows s builds _ h
  · intro h
    obtain ⟨e, he, rfl⟩ := List.mem_map.mp hk
    have := flagEntries_fetchRows s builds e he
    rw [decide_eq_true h] at this
    rwa [← this]

/-- **`FetchRows` is idempotent.** A second `FetchRows` over the same snapshot leaves the state as
the first left it: every row keeps the flag the first call restored, and nothing else changes. -/
theorem fetchRows_idempotent (s : RepositoryBuilds) (builds : List Build) :
    (s.fetchRows builds).fetchRows builds = s.fetchRows builds := by
  have hrows : ((builds.map buildRowFromBuild).insertionSort updatedFirst).map
        (restoreTraversable (savedTraversables (s.fetchRows builds).rows)) =
      (s.fetchRows builds).rows := by
    refine List.map_congr_left fun r hr => restoreTraversable_congr r fun e he => ?_
    obtain ⟨b, -, rfl⟩ := List.mem_map.mp ((List.perm_insertionSort _ _).subset hr)
    rw [flagEntries_buildRowFromBuild b e he, savedTraversables_eq, savedTraversables_eq]
    have hk : e.2 ∈ ((s.fetchRows builds).rows.flatMap flagEntries).map Prod.snd := by
      simp only [RepositoryBuilds.fetchRows, List.flatMap_map, List.map_flatMap]
      refine List.mem_flatMap.mpr ⟨_, hr, ?_⟩
      rw [flagEntries_restoreTraversable, List.map_map]
      exact List.mem_map.mpr ⟨e, he, rfl⟩
    simp only [expanded_fetchRows s builds hk]
  simp only [RepositoryBuilds.fetchRows] at hrows ⊢
  rw [hrows]

mutual

lemma flagEntries_setTraversableAll (v : Bool) :
    ∀ r : BuildRow, flagEntries (setTraversableAll v r) = (flagEntries r).map fun e => (v, e.2)
  | { key := k, children := cs, .. } => by
      simp only [setTraversableAll]
      rw [flagEntries_eq, flagEntries_eq]
      simp only [List.map_cons, flatMap_flagEntries_setTraversableAllList v cs]
      rfl

lemma flatMap_flagEntries_setTraversableAllList (v : Bool) :
    ∀ rs : List BuildRow, (setTraversableAllList v rs).flatMap flagEntries =
      (rs.flatMap flagEntries).map fun e => (v, e.2)
  | [] => rfl
  | r :: rs => by
      simp only [setTraversableAllList, List.flatMap_cons, List.map_append,
        flagEntries_setTraversableAll v r, flatMap_flagEntries_setTraversableAllList v rs]

end

/-- A write of one flag changes the row's own entry only. -/
lemma flagEntries_setTraversableRow_false (v : Bool) (r : BuildRow) :
    flagEntries (setTraversableRow v false r) = (v, r.key) :: r.children.flatMap flagEntries := by
  rw [setTraversableRow, if_neg Bool.false_ne_true, flagEntries_eq]
  rfl

/-! ### Subtrees of the skeleton -/

namespace KeyTree

mutual

/-- Every subtree, in depth-first pre-order. -/
def subtrees : KeyTree → List KeyTree
  | .node k cs => .node k cs :: subtreesList cs

/-- The subtrees of a list of trees, one tree after the other. -/
def subtreesList : List KeyTree → List KeyTree
  | [] => []
  | t :: ts => subtrees t ++ subtreesList ts

end

@[simp] lemma subtreesList_eq (ts : List KeyTree) : subtreesList ts = ts.flatMap subtrees := by
  induction ts with
  | nil => rfl
  | cons t ts ih => simp [subtreesList, ih]

/-- The keys of a subtree are keys of the tree. -/
lemma mem_keys_of_mem_subtrees : ∀ (u t : KeyTree), t ∈ u.subtrees → ∀ k ∈ t.keys, k ∈ u.keys
  | .node k' cs, t, ht, k, hk => by
      simp only [subtrees, subtreesList_eq, List.mem_cons, List.mem_flatMap] at ht
      rcases ht with rfl | ⟨c, hc, ht⟩
      · exact hk
      · simp only [keys_node, List.mem_cons, List.mem_flatMap]
        exact .inr ⟨c, hc, mem_keys_of_mem_subtrees c t ht k hk⟩

end KeyTree

mutual

/-- The skeletons of the rows a full traversal lists are the subtrees of the skeleton. -/
lemma subtrees_keyTree : ∀ r : BuildRow,
    (depthFirstTraversal true r).map BuildRow.keyTree = r.keyTree.subtrees
  | { key := k, children := cs, .. } => by
      simp only [depthFirstTraversal, BuildRow.keyTree, Bool.true_or, if_true, List.map_cons,
        KeyTree.subtrees, keyTreeList_eq, KeyTree.subtreesList_eq, depthFirstTraversalList_eq]
      rw [subtrees_keyTreeList cs]

lemma subtrees_keyTreeList : ∀ rs : List BuildRow,
    (rs.flatMap (depthFirstTraversal true)).map BuildRow.keyTree =
      (rs.map BuildRow.keyTree).flatMap KeyTree.subtrees
  | [] => rfl
  | r :: rs => by
      simp only [List.flatMap_cons, List.map_append, subtrees_keyTree r, subtrees_keyTreeList rs,
        List.map_cons]

end

/-! ### The flags the calls determine -/

/-- The two calls that write the flags: `FetchRows` and `SetTraversable`. -/
inductive TreeOp where
  | fetchRows (builds : List Build)
  | setTraversable (key : BuildRowKey) (traversable recursive : Bool)

/-- The call made on a state. -/
def TreeOp.apply : TreeOp → RepositoryBuilds → RepositoryBuilds
  | .fetchRows builds, s => s.fetchRows builds
  | .setTraversable key traversable recursive, s => s.setTraversable key traversable recursive

/-- The skeleton of the forest `FetchRows` builds from a snapshot. -/
def snapshotForest (builds : List Build) : List KeyTree :=
  ((builds.map buildRowFromBuild).insertionSort updatedFirst).map BuildRow.keyTree

/-- The skeleton of the forest after the calls of a history, the latest call first. -/
def forestOf : List TreeOp → List KeyTree
  | [] => []
  | .fetchRows builds :: _ => snapshotForest builds
  | .setTraversable .. :: older => forestOf older

/-- A call `SetTraversable(key, _, recursive)` on a forest targets `k` when `key` is in the
forest and is `k` itself, or, for a recursive call, the key of an ancestor of `k`'s row. -/
def targets (ts : List KeyTree) (key : BuildRowKey) (recursive : Bool) (k : BuildRowKey) : Bool :=
  decide (key ∈ ts.flatMap KeyTree.keys) &&
    (decide (k = key) ||
      recursive && (ts.flatMap KeyTree.subtrees).any fun t => decide (t.key = key ∧ k ∈ t.keys))

/-- The flag `k` should have after a history, read from the latest call back: the value of
the latest call that targeted `k`, unless a `FetchRows` since then built a forest without `k`;
`false` when no call targeted `k`. -/
def expectedFlag : List TreeOp → BuildRowKey → Bool
  | [], _ => false
  | .fetchRows builds :: older, k =>
      decide (k ∈ (snapshotForest builds).flatMap KeyTree.keys) && expectedFlag older k
  | .setTraversable key traversable recursive :: older, k =>
      if targets (forestOf older) key recursive k then traversable else expectedFlag older k

/-! ### `SetTraversable` against the expected flags -/

/-- With distinct keys, the rows a call targets are the row its key names and, for a recursive
call, that row's descendants. -/
lemma targets_eq {rows : List BuildRow} (hnd : (forestKeys rows).Nodup) {p : RowPtr}
    {sub : BuildRow} (hp : forestGet? rows p = some sub) (recursive : Bool) (k : BuildRowKey) :
    targets (rows.map BuildRow.keyTree) sub.key recursive k =
      (decide (k = sub.key) || recursive && decide (k ∈ sub.keyTree.keys)) := by
  have hmem := mem_of_forestGet? hp
  have hnd' : ((rows.flatMap (depthFirstTraversal true)).map BuildRow.key).Nodup := by
    simpa [forestKeys] using hnd
  have hkey : sub.key ∈ (rows.map BuildRow.keyTree).flatMap KeyTree.keys := by
    rw [← forestKeys_eq, forestKeys, depthFirstTraversalList_eq]
    exact List.mem_map_of_mem _ hmem
  have hany : ((rows.map BuildRow.keyTree).flatMap KeyTree.subtrees).any
      (fun t => decide (t.key = sub.key ∧ k ∈ t.keys)) = decide (k ∈ sub.keyTree.keys) := by
    rw [← subtrees_keyTreeList]
    apply Bool.eq_iff_iff.mpr
    simp only [List.any_eq_true, List.mem_map, decide_eq_true_eq]
    constructor
    · rintro ⟨_, ⟨x, hx, rfl⟩, hxk, hk⟩
      rw [BuildRow.key_keyTree] at hxk
      rwa [List.inj_on_of_nodup_map hnd' hx hmem hxk] at hk
    · exact fun hk => ⟨sub.keyTree, ⟨sub, hmem, rfl⟩, BuildRow.key_keyTree sub, hk⟩
  simp only [targets, hkey, decide_True, Bool.true_and, hany]

/-- Within the row a call names, the call gives its value to the row and, when recursive, to
every descendant, and leaves every other entry of the row's subtree as it was. -/
lemma flagEntries_setTraversableRow (v recursive : Bool) (sub : BuildRow)
    (hnd : ((flagEntries sub).map Prod.snd).Nodup) :
    ∀ e ∈ flagEntries (setTraversableRow v recursive sub),
      ((decide (e.2 = sub.key) || recursive && decide (e.2 ∈ sub.keyTree.keys)) = true → e.1 = v) ∧
      ((decide (e.2 = sub.key) || recursive && decide (e.2 ∈ sub.keyTree.keys)) = false →
        e ∈ flagEntries sub) := by
  intro e he
  cases recursive
  · rw [flagEntries_setTraversableRow_false, List.mem_cons] at he
    rcases he with rfl | he
    · exact ⟨fun _ => rfl, fun h => by simp at h⟩
    · rw [flagEntries_eq, List.map_cons, List.nodup_cons] at hnd
      have hne : e.2 ≠ sub.key := fun h => hnd.1 (by
        rw [show sub.flagEntry.2 = e.2 from h.symm]; exact List.mem_map_of_mem Prod.snd he)
      refine ⟨fun h => by simp [hne] at h, fun _ => ?_⟩
      rw [flagEntries_eq]
      exact List.mem_cons_of_mem _ he
  · rw [setTraversableRow, if_pos rfl, flagEntries_setTraversableAll, List.mem_map] at he
    obtain ⟨e', he', rfl⟩ := he
    have hk : e'.2 ∈ sub.keyTree.keys := keys_flagEntries sub ▸ List.mem_map_of_mem Prod.snd he'
    exact ⟨fun _ => rfl, fun h => by simp [hk] at h⟩

/-- **`SetTraversable`, flag by flag.** In a state whose tree index is that of its forest and
whose keys are distinct, a call gives its value to every row it targets and leaves every other
row's flag as it was. -/
lemma flagEntries_setTraversable {s : RepositoryBuilds} (htree : s.treeIndex = treeIndexOf s.rows)
    (hnd : (forestKeys s.rows).Nodup) (key : BuildRowKey) (v recursive : Bool) :
    ∀ e ∈ (s.setTraversable key v recursive).rows.flatMap flagEntries,
      (targets (s.rows.map BuildRow.keyTree) key recursive e.2 = true → e.1 = v) ∧
      (targets (s.rows.map BuildRow.keyTree) key recursive e.2 = false →
        e ∈ s.rows.flatMap flagEntries) := by
  unfold RepositoryBuilds.setTraversable
  split
  · rename_i hnone
    have hout : key ∉ forestKeys s.rows := treeIndexOf_eq_none.mp (htree ▸ hnone)
    intro e he
    refine ⟨fun h => absurd ?_ hout, fun _ => he⟩
    simp only [targets, Bool.and_eq_true, decide_eq_true_eq] at h
    rw [forestKeys_eq]
    exact h.1
  · rename_i p hp
    obtain ⟨sub, hsub, rfl⟩ := forestGet?_of_treeIndexOf (htree ▸ hp)
    obtain ⟨pre, post, hold, hnew⟩ :=
      flagEntries_forestModifyAt (setTraversableRow v recursive) hsub
    have hnd' := keys_flatMap_flagEntries s.rows ▸ hnd
    rw [hold] at hnd'
    simp only [List.map_append, List.nodup_append, List.disjoint_append_right,
      List.disjoint_append_left] at hnd'
    obtain ⟨⟨-, hsubnd, hpre⟩, -, -, hpost⟩ := hnd'
    -- An entry outside the subtree is not targeted, and is kept.
    have houtside : ∀ e, e.2 ∉ (flagEntries sub).map Prod.snd → e ∈ pre ∨ e ∈ post →
        (decide (e.2 = sub.key) || recursive && decide (e.2 ∈ sub.keyTree.keys)) = false ∧
          e ∈ s.rows.flatMap flagEntries := by
      intro e hnot hmem
      have hk : e.2 ∉ sub.keyTree.keys := keys_flagEntries sub ▸ hnot
      have hne : e.2 ≠ sub.key := fun h => hnot (by rw [h, flagEntries_eq]; exact List.mem_cons_self _ _)
      refine ⟨by simp [hne, hk], ?_⟩
      rw [hold]
      rcases hmem with h | h <;> simp [h]
    intro e he
    rw [targets_eq hnd hsub]
    rw [hnew, List.mem_append, List.mem_append] at he
    rcases he with (he | he) | he
    · obtain ⟨hf, hkeep⟩ := houtside e (fun h => hpre (List.mem_map_of_mem Prod.snd he) h) (.inl he)
      exact ⟨fun h => absurd (hf ▸ h) Bool.false_ne_true, fun _ => hkeep⟩
    · obtain ⟨hset, hkeep⟩ := flagEntries_setTraversableRow v recursive sub hsubnd e he
      exact ⟨hset, fun h => by rw [hold]; simp [hkeep h]⟩
    · obtain ⟨hf, hkeep⟩ := houtside e (fun h => hpost h (List.mem_map_of_mem Prod.snd he)) (.inr he)
      exact ⟨fun h => absurd (hf ▸ h) Bool.false_ne_true, fun _ => hkeep⟩

/-! ### The flags along a run -/

/-- What a run of `FetchRows` and `SetTraversable` keeps, for its history, the latest call
first: the tree index is that of the forest, the keys are distinct, the skeleton is the one the
history builds, every flag is the expected one, and only keys of the forest are expected set. -/
structure FlagInv (history : List TreeOp) (s : RepositoryBuilds) : Prop where
  treeIndex : s.treeIndex = treeIndexOf s.rows
  nodup : (forestKeys s.rows).Nodup
  forest : s.rows.map BuildRow.keyTree = forestOf history
  flags : ∀ e ∈ s.rows.flatMap flagEntries, e.1 = expectedFlag history e.2
  present : ∀ k, expectedFlag history k = true → k ∈ forestKeys s.rows

lemma flagInv_zero : FlagInv [] RepositoryBuilds.zero :=
  ⟨rfl, List.nodup_nil, rfl, fun _ he => by simp [RepositoryBuilds.zero] at he,
    fun _ h => by cases h⟩

/-- The skeleton of the forest `FetchRows` builds is the snapshot's, whatever the flags. -/
lemma keyTrees_fetchRows (s : RepositoryBuilds) (builds : List Build) :
    (s.fetchRows builds).rows.map BuildRow.keyTree = snapshotForest builds := by
  simp only [RepositoryBuilds.fetchRows, snapshotForest, List.map_map]
  exact List.map_congr_left fun r _ => keyTree_restoreTraversable _ r

/-- `SetTraversable` writes flags only. -/
lemma keyTrees_setTraversable (s : RepositoryBuilds) (key : BuildRowKey) (v recursive : Bool) :
    (s.setTraversable key v recursive).rows.map BuildRow.keyTree = s.rows.map BuildRow.keyTree := by
  unfold RepositoryBuilds.setTraversable
  split
  · rfl
  · exact keyTrees_forestModifyAt (keyTree_setTraversableRow v recursive) _ _

/-- The keys of the forest `FetchRows` builds are those of the snapshot's rows, reordered. -/
lemma forestKeys_fetchRows (s : RepositoryBuilds) (builds : List Build) :
    forestKeys (s.fetchRows builds).rows = (snapshotForest builds).flatMap KeyTree.keys ∧
      (forestKeys (s.fetchRows builds).rows).Perm (forestKeys (builds.map buildRowFromBuild)) := by
  refine ⟨by rw [forestKeys_eq, keyTrees_fetchRows], ?_⟩
  rw [forestKeys_eq, forestKeys_eq, keyTrees_fetchRows, snapshotForest]
  exact ((List.perm_insertionSort _ _).map _).flatMap_right _

lemma FlagInv.fetchRows {history : List TreeOp} {s : RepositoryBuilds} (h : FlagInv history s)
    {builds : List Build} (hnd : (forestKeys (builds.map buildRowFromBuild)).Nodup) :
    FlagInv (.fetchRows builds :: history) (s.fetchRows builds) := by
  obtain ⟨hkeys, hperm⟩ := forestKeys_fetchRows s builds
  refine ⟨rfl, hperm.nodup_iff.mpr hnd, ?_, fun e he => ?_, fun k hk => ?_⟩
  · exact keyTrees_fetchRows s builds
  · have hin : e.2 ∈ (snapshotForest builds).flatMap KeyTree.keys := by
      rw [← hkeys, ← keys_flatMap_flagEntries]; exact List.mem_map_of_mem _ he
    rw [flagEntries_fetchRows s builds e he, expectedFlag, decide_eq_true hin, Bool.true_and]
    apply Bool.eq_iff_iff.mpr
    rw [decide_eq_true_iff]
    constructor
    · intro ht; exact (h.flags _ ht).symm
    · intro hc
      have hk := h.present _ hc
      rw [← keys_flatMap_flagEntries, List.mem_map] at hk
      obtain ⟨e', he', hk'⟩ := hk
      have : e' = (true, e.2) := Prod.ext (by rw [h.flags e' he', hk', hc]) hk'
      exact this ▸ he'
  · rw [expectedFlag, Bool.and_eq_true, decide_eq_true_iff] at hk
    rw [hkeys]; exact hk.1

lemma FlagInv.setTraversable {history : List TreeOp} {s : RepositoryBuilds} (h : FlagInv history s)
    (key : BuildRowKey) (v recursive : Bool) :
    FlagInv (.setTraversable key v recursive :: history) (s.setTraversable key v recursive) := by
  have hskel := keyTrees_setTraversable s key v recursive
  have hkeys : forestKeys (s.setTraversable key v recursive).rows = forestKeys s.rows := by
    rw [forestKeys_eq, forestKeys_eq, hskel]
  have hindex : (s.setTraversable key v recursive).treeIndex = s.treeIndex := by
    unfold RepositoryBuilds.setTraversable; split <;> rfl
  have hexpected : ∀ k, expectedFlag (.setTraversable key v recursive :: history) k =
      if targets (s.rows.map BuildRow.keyTree) key recursive k then v else expectedFlag history k := by
    intro k; rw [expectedFlag, h.forest]
  refine ⟨?_, hkeys ▸ h.nodup, by rw [hskel, h.forest]; rfl, fun e he => ?_, fun k hk => ?_⟩
  · rw [hindex, h.treeIndex, treeIndexOf, treeIndexOf, hskel]
  · obtain ⟨htgt, hother⟩ := flagEntries_setTraversable h.treeIndex h.nodup key v recursive e he
    rw [hexpected]
    split_ifs with ht
    · exact htgt ht
    · exact h.flags e (hother (Bool.eq_false_iff.mpr ht))
  · rw [hexpected] at hk
    rw [hkeys]
    split_ifs at hk with ht
    · simp only [targets, Bool.and_eq_true, decide_eq_true_iff, Bool.or_eq_true,
        List.any_eq_true] at ht
      obtain ⟨hkey, rfl | ⟨-, t, ht, -, hkt⟩⟩ := ht
      · rwa [forestKeys_eq]
      · obtain ⟨u, hu, htu⟩ := List.mem_flatMap.mp ht
        rw [forestKeys_eq]
        exact List.mem_flatMap.mpr ⟨u, hu, KeyTree.mem_keys_of_mem_subtrees u t htu k hkt⟩
    · exact h.present k hk

/-- **The invariant along a run.** -/
lemma flagInv_foldl : ∀ (ops : List TreeOp) {history : List TreeOp} {s : RepositoryBuilds},
    FlagInv history s →
    (∀ builds, TreeOp.fetchRows builds ∈ ops → (forestKeys (builds.map buildRowFromBuild)).Nodup) →
    FlagInv (ops.reverse ++ history) (ops.foldl (fun s op => op.apply s) s)
  | [], _, _, h, _ => h
  | op :: ops, history, s, h, hnd => by
      have hstep : FlagInv (op :: history) (op.apply s) := by
        cases op with
        | fetchRows builds => exact h.fetchRows (hnd builds (List.mem_cons_self _ _))
        | setTraversable key v recursive => exact h.setTraversable key v recursive
      simpa using flagInv_foldl ops hstep fun builds hb => hnd builds (List.mem_cons_of_mem _ hb)

/-- **The flags across rebuilds and toggles.** After any sequence of `FetchRows` and
`SetTraversable` calls from the zero value, where every snapshot yields a forest with distinct
keys, every row's flag is the one `expectedFlag` reads off the calls; a `SetTraversable` whose key
`treeIndex` lacks changes nothing; and a `SetTraversable` gives its value to the rows it
targets and leaves the flag of every other row, its ancestors included, as it was. -/
theorem flags_follow_calls (ops : List TreeOp)
    (hnd : ∀ builds, TreeOp.fetchRows builds ∈ ops →
      (forestKeys (builds.map buildRowFromBuild)).Nodup) :
    let s := ops.foldl (fun s op => op.apply s) RepositoryBuilds.zero
    (∀ r ∈ depthFirstTraversalList true s.rows, r.traversable = expectedFlag ops.reverse r.key) ∧
    (∀ key v recursive, s.treeIndex key = none → s.setTraversable key v recursive = s) ∧
    (∀ key v recursive, ∀ e ∈ (s.setTraversable key v recursive).rows.flatMap flagEntries,
      (targets (s.rows.map BuildRow.keyTree) key recursive e.2 = true → e.1 = v) ∧
      (targets (s.rows.map BuildRow.keyTree) key recursive e.2 = false →
        e ∈ s.rows.flatMap flagEntries)) := by
  intro s
  have h : FlagInv ops.reverse s := by simpa using flagInv_foldl ops flagInv_zero hnd
  refine ⟨fun r hr => ?_, fun key v recursive hk => ?_,
    fun key v recursive => flagEntries_setTraversable h.treeIndex h.nodup key v recursive⟩
  · rw [depthFirstTraversalList_eq, List.mem_flatMap] at hr
    obtain ⟨c, hc, hr⟩ := hr
    exact h.flags r.flagEntry (List.mem_flatMap.mpr ⟨c, hc, List.mem_map_of_mem _ hr⟩)
  · simp [RepositoryBuilds.setTraversable, hk]

theorem flags_follow_calls_sampleBuild :
    (∀ builds, TreeOp.fetchRows builds ∈
        [.fetchRows [sampleBuild], .setTraversable sampleBuild.rowKey true true] →
      (forestKeys (builds.map buildRowFromBuild)).Nodup) ∧
    let ops : List TreeOp := [.fetchRows [sampleBuild], .setTraversable sampleBuild.rowKey true true]
    let s := ops.foldl (fun s op => op.apply s) RepositoryBuilds.zero
    (∀ r ∈ depthFirstTraversalList true s.rows, r.traversable = expectedFlag ops.reverse r.key) ∧
    (∀ key v recursive, s.treeIndex key = none → s.setTraversable key v recursive = s) ∧
    (∀ key v recursive, ∀ e ∈ (s.setTraversable key v recursive).rows.flatMap flagEntries,
      (targets (s.rows.map BuildRow.keyTree) key recursive e.2 = true → e.1 = v) ∧
      (targets (s.rows.map BuildRow.keyTree) key recursive e.2 = false →
        e ∈ s.rows.flatMap flagEntries)) := by
  have hnd : ∀ builds, TreeOp.fetchRows builds ∈
      [.fetchRows [sampleBuild], .setTraversable sampleBuild.rowKey true true] →
      (forestKeys (builds.map buildRowFromBuild)).Nodup := by
    intro builds hb
    simp only [List.mem_cons, TreeOp.fetchRows.injEq, reduceCtorEq, List.mem_nil_iff,
      or_false] at hb
    subst hb
    decide
  exact ⟨hnd, flags_follow_calls _ hnd⟩

end Citop.Rows

import Citop.Rows.View

/-!
The flattened view against its description: the rows of the forest in depth-first pre-order,
each kept when every proper ancestor of it is traversable.

* `BuildRow.entries`, `forestEntries`: every row of a tree or a forest with its path, in
  depth-first pre-order. A path is listed with the row it reaches (`mem_forestEntries`), and
  the full traversal lists these rows (`map_snd_forestEntries`).
* `BuildRow.visibleAt`, `forestVisibleAt`: the row at a path is visible when it exists and every
  proper ancestor of it is traversable. Its own flag is not read, and a top-level row has no
  proper ancestor. `forestVisiblePrefix` is the deepest visible ancestor-or-self of a row: a
  prefix of the row's path is visible exactly when it is no longer than that one
  (`forestVisibleAt_prefix_iff`).
* `filter_forestEntries_visible`: the traversal of `prefixAndIndex`, which stops below a
  collapsed row, is the pre-order list filtered by visibility.
* `prefixAndIndex_flattens`: so `dfsTraversal` is that list; on a forest with distinct keys
  `dfsIndex` maps the key at each position to it and holds no other key, and a key of the
  forest is in the view exactly when its row is visible (`key_mem_view_iff`).
-/

namespace Citop.Rows

/-! ### Rows with their paths -/

mutual

/-- The rows of a tree with their paths from it, in depth-first pre-order: the tree itself at
the empty path, then the rows of each child below the child's index. -/
def BuildRow.entries : BuildRow → List (RowPtr × BuildRow)
  | r@{ children := cs, .. } => ([], r) :: entriesList 0 cs

/-- The entries of the trees of a list, the first at index `i`, each below its index. -/
def entriesList (i : Nat) : List BuildRow → List (RowPtr × BuildRow)
  | [] => []
  | r :: rs => r.entries.map (fun e => (i :: e.1, e.2)) ++ entriesList (i + 1) rs

end

/-- Every row of a forest with its path, in depth-first pre-order. -/
def forestEntries (rows : List BuildRow) : List (RowPtr × BuildRow) := entriesList 0 rows

lemma BuildRow.entries_eq (r : BuildRow) : r.entries = ([], r) :: entriesList 0 r.children := by
  cases r; simp [BuildRow.entries]

mutual

/-- A path is listed with the row it reaches. -/
lemma BuildRow.mem_entries : ∀ (r : BuildRow) (p : RowPtr) (n : BuildRow),
    (p, n) ∈ r.entries ↔ r.get? p = some n
  | r@{ children := cs, .. }, p, n => by
      rw [BuildRow.entries_eq, List.mem_cons, mem_entriesList cs 0 p n]
      cases p with
      | nil => simp [BuildRow.get?, eq_comm]
      | cons i p => simp [BuildRow.get?, and_assoc]

lemma mem_entriesList : ∀ (rs : List BuildRow) (i : Nat) (p : RowPtr) (n : BuildRow),
    (p, n) ∈ entriesList i rs ↔ ∃ j rel, p = (i + j) :: rel ∧ rs[j]?.bind (·.get? rel) = some n
  | [], _, _, _ => by simp [entriesList]
  | r :: rs, i, p, n => by
      simp only [entriesList, List.mem_append, List.mem_map, Prod.mk.injEq,
        mem_entriesList rs (i + 1) p n]
      constructor
      · rintro (⟨⟨rel, m⟩, hm, rfl, rfl⟩ | ⟨j, rel, rfl, h⟩)
        · exact ⟨0, rel, rfl, by simpa using (r.mem_entries rel m).mp hm⟩
        · exact ⟨j + 1, rel, by rw [Nat.add_right_comm, Nat.add_assoc], by simpa using h⟩
      · rintro ⟨j, rel, rfl, h⟩
        cases j with
        | zero => exact .inl ⟨(rel, n), (r.mem_entries rel n).mpr (by simpa using h), rfl, rfl⟩
        | succ j => exact .inr ⟨j, rel, by rw [Nat.add_right_comm, Nat.add_assoc], by simpa using h⟩

end

lemma mem_forestEntries {rows : List BuildRow} {p : RowPtr} {n : BuildRow} :
    (p, n) ∈ forestEntries rows ↔ forestGet? rows p = some n := by
  rw [forestEntries, mem_entriesList]
  cases p with
  | nil => simp [forestGet?]
  | cons i p => simp [forestGet?, and_assoc]

mutual

/-- The full traversal lists the rows of the entries. -/
lemma BuildRow.map_snd_entries : ∀ r : BuildRow,
    r.entries.map Prod.snd = depthFirstTraversal true r
  | r@{ children := cs, .. } => by
      rw [BuildRow.entries_eq, depthFirstTraversal_eq]
      simp [map_snd_entriesList cs 0]

lemma map_snd_entriesList : ∀ (rs : List BuildRow) (i : Nat),
    (entriesList i rs).map Prod.snd = rs.flatMap (depthFirstTraversal true)
  | [], _ => rfl
  | r :: rs, i => by
      simp only [entriesList, List.map_append, List.map_map, List.flatMap_cons,
        map_snd_entriesList rs (i + 1), ← r.map_snd_entries]
      rfl

end

lemma map_snd_forestEntries (rows : List BuildRow) :
    (forestEntries rows).map Prod.snd = depthFirstTraversalList true rows := by
  rw [forestEntries, map_snd_entriesList, depthFirstTraversalList_eq]

/-- The keys of the entries are the keys of the forest. -/
lemma keys_forestEntries (rows : List BuildRow) :
    (forestEntries rows).map (·.2.key) = forestKeys rows := by
  rw [forestKeys, ← map_snd_forestEntries, List.map_map]
  rfl

/-! ### Visibility -/

/-- Below `r`, the row at the end of the path is visible: it exists, and every row the path
passes through on its way there, `r` included, is traversable. Its own flag is not read. -/
def BuildRow.visibleAt (r : BuildRow) : RowPtr → Bool
  | [] => true
  | i :: p => r.traversable && r.children[i]?.any (·.visibleAt p)

/-- The row at a path of the forest is visible: it exists and every proper ancestor of it is
traversable. A top-level row has no proper ancestor. -/
def forestVisibleAt (rows : List BuildRow) : RowPtr → Bool
  | [] => false
  | i :: p => rows[i]?.any (·.visibleAt p)

/-- The deepest ancestor-or-self of the row at the end of `p`, below `r`, that is visible: the
path cut below the first row on its way that is not traversable. -/
def BuildRow.visiblePrefix (r : BuildRow) : RowPtr → RowPtr
  | [] => []
  | i :: p =>
      if r.traversable then
        match r.children[i]? with
        | some c => i :: c.visiblePrefix p
        | none => []
      else []

/-- The deepest visible ancestor-or-self of the row at a path of the forest. -/
def forestVisiblePrefix (rows : List BuildRow) : RowPtr → RowPtr
  | [] => []
  | i :: p =>
      match rows[i]? with
      | some r => i :: r.visiblePrefix p
      | none => []

@[simp] lemma forestVisibleAt_singleton (rows : List BuildRow) (i : Nat) :
    forestVisibleAt rows [i] = decide (i < rows.length) := by
  simp only [forestVisibleAt]
  cases h : rows[i]? with
  | none => simp [List.getElem?_eq_none_iff.mp h]
  | some r => simp [(List.getElem?_eq_some_iff.mp h).1, BuildRow.visibleAt]

/-- A visible row exists. -/
lemma BuildRow.get?_of_visibleAt : ∀ (r : BuildRow) (p : RowPtr), r.visibleAt p = true →
    ∃ x, r.get? p = some x
  | r, [], _ => ⟨r, rfl⟩
  | r, i :: p, h => by
      simp only [BuildRow.visibleAt, Bool.and_eq_true] at h
      cases hc : r.children[i]? with
      | none => simp [hc] at h
      | some c =>
          simp only [hc, Option.any_some] at h
          simpa [BuildRow.get?, hc] using c.get?_of_visibleAt p h.2

lemma forestGet?_of_visibleAt {rows : List BuildRow} {p : RowPtr}
    (h : forestVisibleAt rows p = true) : ∃ x, forestGet? rows p = some x := by
  cases p with
  | nil => cases h
  | cons i p =>
      simp only [forestVisibleAt] at h
      cases hr : rows[i]? with
      | none => simp [hr] at h
      | some r =>
          simp only [hr, Option.any_some] at h
          simpa [forestGet?, hr] using r.get?_of_visibleAt p h

lemma BuildRow.visiblePrefix_prefix : ∀ (r : BuildRow) (p : RowPtr), r.visiblePrefix p <+: p
  | r, [] => List.prefix_refl _
  | r, i :: p => by
      unfold BuildRow.visiblePrefix
      cases r.traversable with
      | false => exact List.nil_prefix
      | true =>
          cases r.children[i]? with
          | none => exact List.nil_prefix
          | some c => exact List.cons_prefix_cons.mpr ⟨rfl, BuildRow.visiblePrefix_prefix c p⟩

/-- A prefix of a path is visible exactly when it is no longer than the deepest visible one. -/
lemma BuildRow.visibleAt_prefix_iff {q p : RowPtr} (h : q <+: p) : ∀ r : BuildRow,
    r.visibleAt q = true ↔ q.length ≤ (r.visiblePrefix p).length := by
  induction q generalizing p with
  | nil => simp [BuildRow.visibleAt]
  | cons i q ih =>
      cases p with
      | nil => exact absurd (List.eq_nil_of_prefix_nil h) (List.cons_ne_nil _ _)
      | cons j p =>
          obtain ⟨rfl, hqp⟩ := List.cons_prefix_cons.mp h
          intro r
          simp only [BuildRow.visibleAt, BuildRow.visiblePrefix]
          cases r.traversable <;> cases r.children[i]? <;> simp [ih hqp]

lemma forestVisiblePrefix_prefix (rows : List BuildRow) (p : RowPtr) :
    forestVisiblePrefix rows p <+: p := by
  cases p with
  | nil => exact List.prefix_refl _
  | cons i p =>
      simp only [forestVisiblePrefix]
      cases rows[i]? with
      | none => exact List.nil_prefix
      | some r => exact List.cons_prefix_cons.mpr ⟨rfl, BuildRow.visiblePrefix_prefix r p⟩

lemma forestVisibleAt_prefix_iff (rows : List BuildRow) {q p : RowPtr} (h : q <+: p) (hq : q ≠ []) :
    forestVisibleAt rows q = true ↔ q.length ≤ (forestVisiblePrefix rows p).length := by
  match q, p, h with
  | [], _, _ => exact absurd rfl hq
  | i :: q, [], h => exact absurd (List.eq_nil_of_prefix_nil h) (List.cons_ne_nil _ _)
  | i :: q, j :: p, h =>
      obtain ⟨rfl, hqp⟩ := List.cons_prefix_cons.mp h
      simp only [forestVisibleAt, forestVisiblePrefix]
      cases rows[i]? <;> simp [BuildRow.visibleAt_prefix_iff hqp]

/-- The deepest visible ancestor-or-self of a row of the forest is a visible row. -/
lemma forestVisibleAt_forestVisiblePrefix {rows : List BuildRow} {p : RowPtr} {n : BuildRow}
    (hp : forestGet? rows p = some n) :
    forestVisiblePrefix rows p ≠ [] ∧ forestVisibleAt rows (forestVisiblePrefix rows p) = true := by
  have hne : forestVisiblePrefix rows p ≠ [] := by
    cases p with
    | nil => cases hp
    | cons i p =>
        simp only [forestGet?, Option.bind_eq_some] at hp
        obtain ⟨r, hr, -⟩ := hp
        simp [forestVisiblePrefix, hr]
  have hpre := forestVisiblePrefix_prefix rows p
  exact ⟨hne, (forestVisibleAt_prefix_iff rows hpre hne).mpr le_rfl⟩

/-! ### Prefixes are not read -/

lemma BuildRow.visibleAt_unprefixed : ∀ (r : BuildRow) (p : RowPtr),
    r.unprefixed.visibleAt p = r.visibleAt p
  | r, [] => rfl
  | r, i :: p => by
      simp only [BuildRow.visibleAt, BuildRow.traversable_unprefixed, BuildRow.children_unprefixed,
        List.getElem?_map]
      cases r.children[i]? with
      | none => rfl
      | some c => simp [c.visibleAt_unprefixed p]

lemma forestVisibleAt_prefixAndIndex (s : RepositoryBuilds) :
    forestVisibleAt s.prefixAndIndex.rows = forestVisibleAt s.rows := by
  funext p
  cases p with
  | nil => rfl
  | cons i p =>
      simp only [forestVisibleAt, RepositoryBuilds.prefixAndIndex_rows, List.getElem?_map]
      cases s.rows[i]? with
      | none => rfl
      | some r =>
          simp only [Option.map_some', Option.any_some]
          rw [← BuildRow.visibleAt_unprefixed, unprefixed_depthFirstTraversalPrefixing,
            BuildRow.visibleAt_unprefixed]

/-! ### Pruning is filtering -/

/-- The entries of a list of trees are below the indexes of the list. -/
lemma path_ne_nil_of_mem_entriesList {rs : List BuildRow} {i : Nat} {e : RowPtr × BuildRow}
    (he : e ∈ entriesList i rs) : e.1 ≠ [] := by
  obtain ⟨j, rel, hp, -⟩ := (mem_entriesList rs i e.1 e.2).mp he
  rw [hp]; exact List.cons_ne_nil _ _

/-- Below a row, an entry of its children is visible when the row is traversable and the entry
is visible in the forest of the children. -/
lemma BuildRow.filter_entriesList_children (r : BuildRow) :
    (entriesList 0 r.children).filter (fun e => r.visibleAt e.1) =
      (entriesList 0 r.children).filter fun e => r.traversable && forestVisibleAt r.children e.1 :=
  List.filter_congr fun e he => by
    obtain ⟨i, rel, hp⟩ := List.exists_cons_of_ne_nil (path_ne_nil_of_mem_entriesList he)
    rw [hp]; rfl

mutual

lemma BuildRow.filter_entries_visibleAt : ∀ r : BuildRow,
    (r.entries.filter fun e => r.visibleAt e.1).map Prod.snd = depthFirstTraversal false r
  | { children := cs, traversable := t, .. } => by
      rw [BuildRow.entries_eq, depthFirstTraversal_eq, List.filter_cons_of_pos rfl,
        BuildRow.filter_entriesList_children]
      cases t
      · simp
      · simpa using filter_entriesList_visibleAt cs []

lemma filter_entriesList_visibleAt : ∀ (rs pre : List BuildRow),
    ((entriesList pre.length rs).filter fun e => forestVisibleAt (pre ++ rs) e.1).map Prod.snd =
      rs.flatMap (depthFirstTraversal false)
  | [], _ => by simp [entriesList]
  | r :: rs, pre => by
      have hr : ∀ rel, forestVisibleAt (pre ++ r :: rs) (pre.length :: rel) = r.visibleAt rel := by
        intro rel
        rw [forestVisibleAt, List.getElem?_append_right (le_refl _), Nat.sub_self,
          List.getElem?_cons_zero, Option.any_some]
      have hrs := filter_entriesList_visibleAt rs (pre ++ [r])
      rw [List.length_append, List.length_singleton, List.append_assoc, List.singleton_append]
        at hrs
      simp only [entriesList, List.filter_append, List.map_append, List.filter_map, List.map_map,
        List.flatMap_cons, hrs, Function.comp_def, hr]
      rw [← r.filter_entries_visibleAt]

end

/-- **Pruning is filtering.** The traversal that stops below a collapsed row lists the rows of
the forest in depth-first pre-order whose every proper ancestor is traversable. -/
lemma filter_forestEntries_visible (rows : List BuildRow) :
    ((forestEntries rows).filter fun e => forestVisibleAt rows e.1).map Prod.snd =
      rows.flatMap (depthFirstTraversal false) :=
  filter_entriesList_visibleAt rows []

/-- On a forest with distinct keys, the key of a row is in the view exactly when the row is
visible. -/
lemma key_mem_view_iff {rows : List BuildRow} (hnd : (forestKeys rows).Nodup) {p : RowPtr}
    {n : BuildRow} (hp : forestGet? rows p = some n) :
    n.key ∈ (rows.flatMap (depthFirstTraversal false)).map BuildRow.key ↔
      forestVisibleAt rows p = true := by
  have hmem : (p, n) ∈ forestEntries rows := mem_forestEntries.mpr hp
  rw [← filter_forestEntries_visible, List.map_map]
  constructor
  · intro h
    obtain ⟨e, he, hk⟩ := List.mem_map.mp h
    obtain ⟨he, hv⟩ := List.mem_filter.mp he
    rw [← keys_forestEntries] at hnd
    rw [List.inj_on_of_nodup_map hnd he hmem hk] at hv
    simpa using hv
  · exact fun hv => List.mem_map.mpr ⟨(p, n), List.mem_filter.mpr ⟨hmem, by simpa using hv⟩, rfl⟩

/-- The keys of the view are keys of the forest, in order. -/
lemma keys_view_sublist (rows : List BuildRow) :
    ((rows.flatMap (depthFirstTraversal false)).map BuildRow.key).Sublist (forestKeys rows) := by
  rw [← filter_forestEntries_visible, List.map_map, ← keys_forestEntries]
  exact (List.filter_sublist _).map _

/-! ### The view `prefixAndIndex` builds -/

/-- `prefixAndIndex` keeps the keys of the forest. -/
lemma forestKeys_prefixAndIndex (s : RepositoryBuilds) :
    forestKeys s.prefixAndIndex.rows = forestKeys s.rows := by
  rw [forestKeys_eq, keyTrees_prefixAndIndex, ← forestKeys_eq]

/-- On a forest with distinct keys the view has distinct keys. -/
lemma nodup_keys_prefixAndIndex {s : RepositoryBuilds} (hnd : (forestKeys s.rows).Nodup) :
    (s.prefixAndIndex.dfsTraversal.map BuildRow.key).Nodup := by
  have hsub := keys_view_sublist s.prefixAndIndex.rows
  rw [forestKeys_prefixAndIndex] at hsub
  exact hnd.sublist hsub

end Citop.Rows

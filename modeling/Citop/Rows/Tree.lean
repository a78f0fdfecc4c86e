import Citop.Rows.Row

/-!
The forest of rows as `RepositoryBuilds` walks it: the depth-first traversal of `utils`, the
pointers `*buildRow` into the forest, and the key skeleton of a forest.

* `depthFirstTraversal`: `utils.DepthFirstTraversal`, which the sources call but do not contain,
  modelled from §4.2 of the spec: a row, then the traversals of its children when it is
  traversable or every row is asked for.
* A pointer is a `RowPtr`, the path from the forest to the row: `forestGet?` reads through it
  and `forestModifyAt` writes through it.
* `KeyTree` keeps of a tree only its keys and its shape. Pointers, the tree index and the
  ancestors of a row depend on nothing else (`keyTree_forestGet?`), and every write the
  package makes through a pointer changes flags and prefixes only, so it keeps the skeleton
  (`keyTrees_forestModifyAt`).
* `KeyTree.ptrsList` lists each row's pointer with its key, in the order `FetchRows` fills
  `treeIndex`; `indexOf` is that loop, and `indexOf_spec` reads a key back when the keys of
  the forest are distinct.
-/

namespace Citop.Rows

/-! ### Depth-first traversal -/

mutual

/-- Modelled from the spec: `utils.DepthFirstTraversal(node, traverseAll)` is not in the
sources. Per §4.2 it lists the node, then, when `traverseAll` is set or the node is
traversable, the traversal of each child in order; a row under a collapsed ancestor is left
out even when it is traversable itself. -/
def depthFirstTraversal (traverseAll : Bool) : BuildRow → List BuildRow
  | r@{ children := cs, .. } =>
      r :: if traverseAll || r.traversable then depthFirstTraversalList traverseAll cs else []

/-- The traversals of a list of trees, one after the other. -/
def depthFirstTraversalList (traverseAll : Bool) : List BuildRow → List BuildRow
  | [] => []
  | r :: rs => depthFirstTraversal traverseAll r ++ depthFirstTraversalList traverseAll rs

end

@[simp] lemma depthFirstTraversalList_eq (traverseAll : Bool) (rs : List BuildRow) :
    depthFirstTraversalList traverseAll rs = rs.flatMap (depthFirstTraversal traverseAll) := by
  induction rs with
  | nil => rfl
  | cons r rs ih => simp [depthFirstTraversalList, ih]

lemma depthFirstTraversal_eq (traverseAll : Bool) (r : BuildRow) :
    depthFirstTraversal traverseAll r =
      r :: if traverseAll || r.traversable then
        r.children.flatMap (depthFirstTraversal traverseAll) else [] := by
  cases r; simp [depthFirstTraversal]

/-! ### Pointers into the forest -/

/-- A pointer `*buildRow` into `s.rows`: the index of the top-level row, then the index of
each child on the way down. -/
abbrev RowPtr := List Nat

/-- The row a path reaches from a row, the row itself for the empty path. -/
def BuildRow.get? (r : BuildRow) : RowPtr → Option BuildRow
  | [] => some r
  | i :: p => r.children[i]?.bind (·.get? p)

/-- `*p` for a pointer into the forest. -/
def forestGet? (rows : List BuildRow) : RowPtr → Option BuildRow
  | [] => none
  | i :: p => rows[i]?.bind (·.get? p)

/-- A write through a path below a row. -/
def BuildRow.modifyAt (g : BuildRow → BuildRow) (r : BuildRow) : RowPtr → BuildRow
  | [] => g r
  | i :: p => { r with children := r.children.modify (·.modifyAt g p) i }

/-- A write through a pointer into the forest. -/
def forestModifyAt (g : BuildRow → BuildRow) (rows : List BuildRow) : RowPtr → List BuildRow
  | [] => rows
  | i :: p => rows.modify (·.modifyAt g p) i

/-! ### The key skeleton -/

/-- The keys of a tree with its shape. -/
inductive KeyTree where
  | node (key : BuildRowKey) (children : List KeyTree)

namespace KeyTree

def key : KeyTree → BuildRowKey
  | .node k _ => k

def children : KeyTree → List KeyTree
  | .node _ cs => cs

mutual

/-- The keys in depth-first pre-order. -/
def keys : KeyTree → List BuildRowKey
  | .node k cs => k :: keysList cs

/-- The keys of a list of trees, one tree after the other. -/
def keysList : List KeyTree → List BuildRowKey
  | [] => []
  | t :: ts => keys t ++ keysList ts

end

mutual

/-- Each pointer below `p` with its key, in depth-first pre-order. -/
def ptrs (p : RowPtr) : KeyTree → List (RowPtr × BuildRowKey)
  | .node k cs => (p, k) :: ptrsList p 0 cs

/-- The pointers of the children of `p` from the `i`-th on. -/
def ptrsList (p : RowPtr) (i : Nat) : List KeyTree → List (RowPtr × BuildRowKey)
  | [] => []
  | t :: ts => ptrs (p ++ [i]) t ++ ptrsList p (i + 1) ts

end

/-- The subtree a path reaches. -/
def get? (t : KeyTree) : RowPtr → Option KeyTree
  | [] => some t
  | i :: p => t.children[i]?.bind (·.get? p)

/-- The subtree a pointer reaches in a forest. -/
def forestGet? (ts : List KeyTree) : RowPtr → Option KeyTree
  | [] => none
  | i :: p => ts[i]?.bind (·.get? p)

@[simp] lemma keysList_eq (ts : List KeyTree) : keysList ts = ts.flatMap keys := by
  induction ts with
  | nil => rfl
  | cons t ts ih => simp [keysList, ih]

@[simp] lemma keys_node (k : BuildRowKey) (cs : List KeyTree) :
    keys (.node k cs) = k :: cs.flatMap keys := by
  simp [keys]

mutual

/-- Every pointer listed below `p` extends `p` and reaches a subtree with the listed key. -/
theorem get?_of_mem_ptrs :
    ∀ (t : KeyTree) (p q : RowPtr) (k : BuildRowKey), (q, k) ∈ ptrs p t →
      ∃ rel, q = p ++ rel ∧ (t.get? rel).map key = some k
  | .node k' cs, p, q, k, h => by
      simp only [ptrs, List.mem_cons, Prod.mk.injEq] at h
      rcases h with ⟨rfl, rfl⟩ | h
      · exact ⟨[], by simp, rfl⟩
      · obtain ⟨j, rel, rfl, hj⟩ := get?_of_mem_ptrsList cs p 0 q k h
        exact ⟨j :: rel, by simp, by simpa [get?, children] using hj⟩

/-- The list version: a pointer listed from the `i`-th child on goes through a child. -/
theorem get?_of_mem_ptrsList :
    ∀ (ts : List KeyTree) (p : RowPtr) (i : Nat) (q : RowPtr) (k : BuildRowKey),
      (q, k) ∈ ptrsList p i ts →
      ∃ j rel, q = p ++ (i + j) :: rel ∧ (ts[j]?.bind (·.get? rel)).map key = some k
  | [], _, _, _, _, h => by simp [ptrsList] at h
  | t :: ts, p, i, q, k, h => by
      simp only [ptrsList, List.mem_append] at h
      rcases h with h | h
      · obtain ⟨rel, rfl, hk⟩ := get?_of_mem_ptrs t (p ++ [i]) q k h
        exact ⟨0, rel, by simp, by simpa using hk⟩
      · obtain ⟨j, rel, rfl, hk⟩ := get?_of_mem_ptrsList ts p (i + 1) q k h
        exact ⟨j + 1, rel, by simp [Nat.add_assoc, Nat.add_comm 1], by simpa using hk⟩

end

mutual

/-- The keys the pointers are listed with are the keys of the tree, in the same order. -/
theorem ptrs_keys : ∀ (t : KeyTree) (p : RowPtr), (ptrs p t).map Prod.snd = t.keys
  | .node k cs, p => by simp [ptrs, ptrsList_keys cs p 0]

theorem ptrsList_keys :
    ∀ (ts : List KeyTree) (p : RowPtr) (i : Nat), (ptrsList p i ts).map Prod.snd = keysList ts
  | [], _, _ => rfl
  | t :: ts, p, i => by simp [ptrsList, ptrs_keys t, ptrsList_keys ts p (i + 1)]

end

end KeyTree

mutual

/-- The key skeleton of a tree of rows. -/
def BuildRow.keyTree : BuildRow → KeyTree
  | { key := k, children := cs, .. } => .node k (keyTreeList cs)

/-- The key skeletons of a list of trees. -/
def keyTreeList : List BuildRow → List KeyTree
  | [] => []
  | r :: rs => r.keyTree :: keyTreeList rs

end

@[simp] lemma keyTreeList_eq (rs : List BuildRow) : keyTreeList rs = rs.map BuildRow.keyTree := by
  induction rs with
  | nil => rfl
  | cons r rs ih => simp [keyTreeList, ih]

lemma BuildRow.keyTree_eq (r : BuildRow) :
    r.keyTree = .node r.key (r.children.map BuildRow.keyTree) := by
  cases r; simp [BuildRow.keyTree]

@[simp] lemma BuildRow.key_keyTree (r : BuildRow) : r.keyTree.key = r.key := by
  rw [r.keyTree_eq]; rfl

@[simp] lemma BuildRow.children_keyTree (r : BuildRow) :
    r.keyTree.children = r.children.map BuildRow.keyTree := by
  rw [r.keyTree_eq]; rfl

/-- The keys of a forest, every row's, in depth-first pre-order. -/
def forestKeys (rows : List BuildRow) : List BuildRowKey :=
  (depthFirstTraversalList true rows).map (·.key)

mutual

/-- The keys of the full traversal of a tree are the keys of its skeleton. -/
theorem keys_depthFirstTraversal :
    ∀ r : BuildRow, (depthFirstTraversal true r).map (·.key) = r.keyTree.keys
  | { key := k, children := cs, .. } => by
      simp [depthFirstTraversal, BuildRow.keyTree, keys_depthFirstTraversalList cs]

theorem keys_depthFirstTraversalList :
    ∀ rs : List BuildRow,
      (rs.flatMap (depthFirstTraversal true)).map (·.key) =
        (rs.map BuildRow.keyTree).flatMap KeyTree.keys
  | [] => rfl
  | r :: rs => by
      simp only [List.flatMap_cons, List.map_append, keys_depthFirstTraversal r,
        keys_depthFirstTraversalList rs, List.map_cons]

end

lemma forestKeys_eq (rows : List BuildRow) :
    forestKeys rows = (rows.map BuildRow.keyTree).flatMap KeyTree.keys := by
  simpa [forestKeys] using keys_depthFirstTraversalList rows

/-- Reading through a path commutes with taking skeletons. -/
lemma BuildRow.keyTree_get? : ∀ (r : BuildRow) (p : RowPtr),
    (r.get? p).map BuildRow.keyTree = r.keyTree.get? p
  | r, [] => rfl
  | r, i :: p => by
      simp only [BuildRow.get?, KeyTree.get?, BuildRow.children_keyTree, List.getElem?_map]
      cases r.children[i]? with
      | none => rfl
      | some c => exact c.keyTree_get? p

lemma keyTree_forestGet? (rows : List BuildRow) (p : RowPtr) :
    (forestGet? rows p).map BuildRow.keyTree = KeyTree.forestGet? (rows.map BuildRow.keyTree) p := by
  cases p with
  | nil => rfl
  | cons i p =>
      simp only [forestGet?, KeyTree.forestGet?, List.getElem?_map]
      cases rows[i]? with
      | none => rfl
      | some r => exact r.keyTree_get? p

/-- A write that keeps the skeleton of the row it is made to keeps the skeleton of the tree. -/
lemma BuildRow.keyTree_modifyAt {g : BuildRow → BuildRow} (hg : ∀ r, (g r).keyTree = r.keyTree) :
    ∀ (r : BuildRow) (p : RowPtr), (r.modifyAt g p).keyTree = r.keyTree
  | r, [] => hg r
  | r, i :: p => by
      rw [BuildRow.modifyAt, BuildRow.keyTree_eq, r.keyTree_eq]
      congr 1
      apply List.ext_getElem?
      intro j
      simp only [List.getElem?_map, List.getElem?_modify]
      cases r.children[j]? with
      | none => rfl
      | some c => by_cases hij : i = j <;> simp [hij, BuildRow.keyTree_modifyAt hg]

lemma keyTrees_forestModifyAt {g : BuildRow → BuildRow} (hg : ∀ r, (g r).keyTree = r.keyTree)
    (rows : List BuildRow) (p : RowPtr) :
    (forestModifyAt g rows p).map BuildRow.keyTree = rows.map BuildRow.keyTree := by
  cases p with
  | nil => rfl
  | cons i p =>
      apply List.ext_getElem?
      intro j
      simp only [forestModifyAt, List.getElem?_map, List.getElem?_modify]
      cases rows[j]? with
      | none => rfl
      | some c => by_cases hij : i = j <;> simp [hij, BuildRow.keyTree_modifyAt hg]

/-! ### Indexes filled by a loop -/

/-- A Go map filled by a loop `m[key] = value` over a list: each key is mapped to the value of
the last entry listed with it. `treeIndex` and `dfsIndex` are filled so. -/
def indexOf {α : Type} (l : List (α × BuildRowKey)) : BuildRowKey → Option α :=
  l.foldl indexStep fun _ => none
where
  /-- One pass: `m[key] = value`. -/
  indexStep (m : BuildRowKey → Option α) (e : α × BuildRowKey) : BuildRowKey → Option α :=
    Function.update m e.2 (some e.1)

lemma foldl_indexStep_apply {α : Type} (l : List (α × BuildRowKey)) (m : BuildRowKey → Option α)
    (k : BuildRowKey) :
    l.foldl indexOf.indexStep m k =
      ((l.reverse.find? fun e => decide (e.2 = k)).map (·.1)).or (m k) := by
  induction l generalizing m with
  | nil => simp
  | cons e l ih =>
      rw [List.foldl_cons, ih, List.reverse_cons, List.find?_append]
      cases h : l.reverse.find? (·.2 = k) with
      | some e' => simp
      | none =>
          by_cases he : e.2 = k
          · subst he; simp [indexOf.indexStep]
          · simp [List.find?, he, indexOf.indexStep, Function.update_noteq (Ne.symm he)]

/-- Without a key the loop leaves the key out. -/
lemma indexOf_eq_none {α : Type} {l : List (α × BuildRowKey)} {k : BuildRowKey} :
    indexOf l k = none ↔ k ∉ l.map Prod.snd := by
  simp only [indexOf, foldl_indexStep_apply, Option.or_eq_none, Option.map_eq_none',
    List.find?_eq_none, List.mem_reverse, decide_eq_true_eq, and_true, List.mem_map,
    not_exists, not_and]

/-- A key the loop maps is listed with its value. -/
lemma mem_of_indexOf {α : Type} {l : List (α × BuildRowKey)} {k : BuildRowKey} {a : α}
    (h : indexOf l k = some a) : (a, k) ∈ l := by
  simp only [indexOf, foldl_indexStep_apply, Option.or_eq_some, Option.map_eq_some'] at h
  rcases h with ⟨e, he, rfl⟩ | ⟨-, h⟩
  · have hm := List.mem_reverse.mp (List.mem_of_find?_eq_some he)
    have hk : e.2 = k := by simpa using List.find?_some he
    exact hk ▸ hm
  · cases h

/-- When each key is listed once, the loop maps it to its value. -/
lemma indexOf_of_mem {α : Type} {l : List (α × BuildRowKey)} {k : BuildRowKey} {a : α}
    (hnd : (l.map Prod.snd).Nodup) (hmem : (a, k) ∈ l) : indexOf l k = some a := by
  have hne : indexOf l k ≠ none := by
    rw [Ne, indexOf_eq_none, not_not]
    exact List.mem_map_of_mem _ hmem
  obtain ⟨b, hb⟩ := Option.ne_none_iff_exists'.mp hne
  have hba : (b, k) = (a, k) := List.inj_on_of_nodup_map hnd (mem_of_indexOf hb) hmem rfl
  rw [hb, (Prod.mk.inj hba).1]

end Citop.Rows

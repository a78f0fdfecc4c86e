import Citop.Rows.View

/-!
The windowed queries `Select`, `SelectFirst` and `SelectLast`.

Each query first rebuilds the view when it is stale (`refresh`). `Select` then resolves its key
against `dfsIndex`, trying the key, its stage's key and its build's key (`resolveKey`), and
copies a window of the view around the position found (`selectWindow`). The window arithmetic
is Go's `int` arithmetic, wrapped (`wrapInt`), on the caller's `nbrBefore` and `nbrAfter`.

* `select_of_stale`: on a stale view a query answers as on the rebuilt one.
* `selectWindow_of_fits`: when the window asked for, `[k - nbrBefore, k + nbrAfter]`, lies
  within the view, `Select` returns exactly those rows, with the key's position among them.
-/

namespace Citop.Rows

/-- What `Select` returns besides the state: the rows, the position of the key among them, and
the error. -/
structure Selection where
  rows : List BuildRow
  index : Int
  err : Option GoError

/-- The view a query reads: the state itself when the view is up to date, else rebuilt. -/
def RepositoryBuilds.refresh (s : RepositoryBuilds) : RepositoryBuilds :=
  if s.dfsUpToDate then s else s.prefixAndIndex

/-- The keys `Select` tries, in order: the key, the key of its stage, the key of its build. -/
def selectCandidates (key : BuildRowKey) : List BuildRowKey :=
  [key, ⟨key.accountID, key.buildID, key.stageID, 0⟩, ⟨key.accountID, key.buildID, 0, 0⟩]

/-- The loop over the candidates: the position of the first one in `dfsIndex`. -/
def resolveKey (dfsIndex : BuildRowKey → Option Int) (key : BuildRowKey) : Option Int :=
  (selectCandidates key).findSome? dfsIndex

/-- The window of `Select` around `keyIndex`, then the copy loop. `make` panics on a negative
length; the loop compares each row with `s.dfsTraversal[keyIndex]`, which panics when the
position is out of range and the window is not empty. The rows of the view are distinct
nodes, so the pointer comparison is the comparison of positions. -/
def selectWindow (view : List BuildRow) (keyIndex nbrBefore nbrAfter : Int) : Except Fault Selection :=
  let len : Int := view.length
  let lower := bounded (wrapInt (keyIndex - nbrBefore)) 0 len
  let upper := bounded (wrapInt (wrapInt (wrapInt (lower + nbrBefore) + nbrAfter) + 1)) 0 len
  let lower := bounded (wrapInt (upper - wrapInt (wrapInt (nbrBefore + nbrAfter) + 1))) 0 len
  if upper < lower then .error .makesliceLenOutOfRange
  else if lower < upper ∧ ¬(0 ≤ keyIndex ∧ keyIndex < len) then .error .indexOutOfRange
  else .ok ⟨(view.drop lower.toNat).take (upper - lower).toNat,
    if lower ≤ keyIndex ∧ keyIndex < upper then keyIndex - lower else 0, none⟩

/-- `Select(key, nbrBefore, nbrAfter)`. -/
def RepositoryBuilds.select (key : BuildRowKey) (nbrBefore nbrAfter : Int) (s : RepositoryBuilds) :
    Except Fault (RepositoryBuilds × Selection) :=
  let s := s.refresh
  if s.dfsTraversal.isEmpty then .ok (s, ⟨[], 0, none⟩)
  else match resolveKey s.dfsIndex key with
    | none => .ok (s, ⟨[], 0, some (.new ("key '" ++ key.format ++ "' not found"))⟩)
    | some keyIndex => (selectWindow s.dfsTraversal keyIndex nbrBefore nbrAfter).map (s, ·)

/-- `SelectFirst(limit)`: `Select` at the first row of the view, `limit - 1` rows after it. -/
def RepositoryBuilds.selectFirst (limit : Int) (s : RepositoryBuilds) :
    Except Fault (RepositoryBuilds × List BuildRow × Option GoError) :=
  let s := s.refresh
  match s.dfsTraversal with
  | [] => .ok (s, [], none)
  | r :: _ => (s.select r.key 0 (wrapInt (limit - 1))).map fun q => (q.1, q.2.rows, q.2.err)

/-- `SelectLast(limit)`: `Select` at the last row of the view, `limit - 1` rows before it. -/
def RepositoryBuilds.selectLast (limit : Int) (s : RepositoryBuilds) :
    Except Fault (RepositoryBuilds × List BuildRow × Option GoError) :=
  let s := s.refresh
  match s.dfsTraversal.getLast? with
  | none => .ok (s, [], none)
  | some r => (s.select r.key (wrapInt (limit - 1)) 0).map fun q => (q.1, q.2.rows, q.2.err)

/-! ### Refreshing -/

namespace RepositoryBuilds

@[simp] lemma refresh_of_upToDate {s : RepositoryBuilds} (h : s.dfsUpToDate = true) :
    s.refresh = s := by
  simp [refresh, h]

@[simp] lemma refresh_of_stale {s : RepositoryBuilds} (h : s.dfsUpToDate = false) :
    s.refresh = s.prefixAndIndex := by
  simp [refresh, h]

@[simp] lemma refresh_prefixAndIndex (s : RepositoryBuilds) :
    s.prefixAndIndex.refresh = s.prefixAndIndex :=
  refresh_of_upToDate (prefixAndIndex_dfsUpToDate s)

@[simp] lemma dfsUpToDate_refresh (s : RepositoryBuilds) : s.refresh.dfsUpToDate = true := by
  unfold refresh; split_ifs with h <;> simp [h]

@[simp] lemma refresh_refresh (s : RepositoryBuilds) : s.refresh.refresh = s.refresh :=
  refresh_of_upToDate (dfsUpToDate_refresh s)

/-- The queries read the state through `refresh` only. -/
lemma select_refresh (s : RepositoryBuilds) (key : BuildRowKey) (nbrBefore nbrAfter : Int) :
    s.refresh.select key nbrBefore nbrAfter = s.select key nbrBefore nbrAfter := by
  simp only [select, refresh_refresh]

/-- On a stale view a query answers as on the rebuilt one. -/
lemma select_of_stale {s : RepositoryBuilds} (h : s.dfsUpToDate = false) (key : BuildRowKey)
    (nbrBefore nbrAfter : Int) :
    s.select key nbrBefore nbrAfter = s.prefixAndIndex.select key nbrBefore nbrAfter := by
  rw [← select_refresh, refresh_of_stale h]

/-- A key in the index resolves to its own position. -/
lemma resolveKey_of_index {dfsIndex : BuildRowKey → Option Int} {key : BuildRowKey} {k : Int}
    (h : dfsIndex key = some k) : resolveKey dfsIndex key = some k := by
  simp [resolveKey, selectCandidates, List.findSome?, h]

/-- Once the key resolves, `Select` copies the window of the refreshed view around its
position. -/
lemma select_eq_selectWindow {s : RepositoryBuilds} {key : BuildRowKey} {k : Int}
    (hne : s.refresh.dfsTraversal ≠ []) (hk : resolveKey s.refresh.dfsIndex key = some k)
    (nbrBefore nbrAfter : Int) :
    s.select key nbrBefore nbrAfter =
      (selectWindow s.refresh.dfsTraversal k nbrBefore nbrAfter).map (s.refresh, ·) := by
  simp only [select, refresh_refresh, List.isEmpty_iff, hne, if_false, hk]

/-- On an up-to-date, non-empty view, `Select` copies the window around the key's position. -/
lemma select_of_resolveKey {s : RepositoryBuilds} (hup : s.dfsUpToDate = true)
    (hne : s.dfsTraversal ≠ []) {key : BuildRowKey} {k : Int} (hk : resolveKey s.dfsIndex key = some k)
    (nbrBefore nbrAfter : Int) :
    s.select key nbrBefore nbrAfter = (selectWindow s.dfsTraversal k nbrBefore nbrAfter).map (s, ·) := by
  simp only [select, refresh_of_upToDate hup, List.isEmpty_iff, hne, if_false, hk]

end RepositoryBuilds

/-! ### The window -/

/-- The window reports no error. -/
lemma selectWindow_err {view : List BuildRow} {k nbrBefore nbrAfter : Int} {q : Selection}
    (h : selectWindow view k nbrBefore nbrAfter = .ok q) : q.err = none := by
  simp only [selectWindow] at h
  split_ifs at h <;> cases h <;> rfl

/-- **The exact window.** When the window asked for around `k`, from `lo` to `hi`, lies within
the view, `Select`'s arithmetic neither clamps nor wraps, and it returns exactly those rows with
the position of `k` among them. -/
lemma selectWindow_of_fits {view : List BuildRow} {k lo hi : Int} (h0 : 0 ≤ lo) (hlo : lo ≤ k)
    (hk : k ≤ hi) (hhi : hi < view.length) (hL : (view.length : Int) < 2 ^ 63) :
    selectWindow view k (k - lo) (hi - k) =
      .ok ⟨(view.drop lo.toNat).take (hi + 1 - lo).toNat, k - lo, none⟩ := by
  have e1 : bounded (wrapInt (k - (k - lo))) 0 view.length = lo := by
    rw [wrapInt_of_mem (by omega) (by omega), bounded_eq (by omega) (by omega)]; ring
  have e2 : bounded (wrapInt (wrapInt (wrapInt (lo + (k - lo)) + (hi - k)) + 1)) 0 view.length =
      hi + 1 := by
    rw [wrapInt_of_mem (x := lo + (k - lo)) (by omega) (by omega),
      wrapInt_of_mem (x := lo + (k - lo) + (hi - k)) (by omega) (by omega),
      wrapInt_of_mem (by omega) (by omega), bounded_eq (by omega) (by omega)]; ring
  have e3 : bounded (wrapInt (hi + 1 - wrapInt (wrapInt (k - lo + (hi - k)) + 1))) 0 view.length =
      lo := by
    rw [wrapInt_of_mem (x := k - lo + (hi - k)) (by omega) (by omega),
      wrapInt_of_mem (x := k - lo + (hi - k) + 1) (by omega) (by omega),
      wrapInt_of_mem (by omega) (by omega), bounded_eq (by omega) (by omega)]; ring
  simp only [selectWindow, e1, e2, e3]
  rw [if_neg (by omega), if_neg (by omega), if_pos ⟨hlo, by omega⟩]

/-- The clamps of `Select` in exact arithmetic, around a position `k` of a view of `len` rows:
the window starts at `max 0 (min (k - nbrBefore) (len - (nbrBefore + nbrAfter + 1)))`, holds
`min (nbrBefore + nbrAfter + 1) len` rows, and contains `k`. -/
lemma selectClamps {len k nbrBefore nbrAfter : Int} (hk0 : 0 ≤ k) (hk : k < len)
    (hb : 0 ≤ nbrBefore) (ha : 0 ≤ nbrAfter) :
    max 0 (min (max 0 (k - nbrBefore) + nbrBefore + nbrAfter + 1) len -
        (nbrBefore + nbrAfter + 1)) =
      max 0 (min (k - nbrBefore) (len - (nbrBefore + nbrAfter + 1))) ∧
    min (max 0 (k - nbrBefore) + nbrBefore + nbrAfter + 1) len -
        max 0 (min (max 0 (k - nbrBefore) + nbrBefore + nbrAfter + 1) len -
          (nbrBefore + nbrAfter + 1)) =
      min (nbrBefore + nbrAfter + 1) len ∧
    max 0 (min (max 0 (k - nbrBefore) + nbrBefore + nbrAfter + 1) len -
        (nbrBefore + nbrAfter + 1)) ≤ k ∧
    k < min (max 0 (k - nbrBefore) + nbrBefore + nbrAfter + 1) len := by
  rcases le_total k nbrBefore with hkb | hkb
  · -- the window would start before the view: it starts at `0`
    rw [max_eq_left (by omega : k - nbrBefore ≤ 0),
      max_eq_left (by omega : min (k - nbrBefore) (len - (nbrBefore + nbrAfter + 1)) ≤ 0),
      max_eq_left (by omega : min (0 + nbrBefore + nbrAfter + 1) len -
        (nbrBefore + nbrAfter + 1) ≤ 0)]
    omega
  · rw [max_eq_right (by omega : 0 ≤ k - nbrBefore)]
    rcases le_total (k + nbrAfter + 1) len with hu | hu
    · -- the window fits
      rw [min_eq_left (by omega : k - nbrBefore + nbrBefore + nbrAfter + 1 ≤ len),
        min_eq_left (by omega : k - nbrBefore ≤ len - (nbrBefore + nbrAfter + 1)),
        max_eq_right (by omega : 0 ≤ k - nbrBefore + nbrBefore + nbrAfter + 1 -
          (nbrBefore + nbrAfter + 1))]
      omega
    · -- the window would end past the view: it ends at `len`
      rw [min_eq_right (by omega : len ≤ k - nbrBefore + nbrBefore + nbrAfter + 1),
        min_eq_right (by omega : len - (nbrBefore + nbrAfter + 1) ≤ k - nbrBefore)]
      omega

/-- **The window in the range of `int`.** For a position `k` of the view and window sizes whose
sums Go computes without overflow, the three clamps give `nbrBefore + nbrAfter + 1` rows, or the
whole view when it is shorter, placed as near to `[k - nbrBefore, k + nbrAfter]` as the view
allows, with the position of `k` among them. -/
lemma selectWindow_eq {view : List BuildRow} {k nbrBefore nbrAfter : Int} (hk0 : 0 ≤ k)
    (hk : k < view.length) (hb : 0 ≤ nbrBefore) (ha : 0 ≤ nbrAfter)
    (hbo : nbrBefore + nbrAfter + 1 < 2 ^ 63) (hko : k + nbrAfter + 1 < 2 ^ 63) :
    selectWindow view k nbrBefore nbrAfter =
      .ok ⟨(view.drop
          (max 0 (min (k - nbrBefore) (view.length - (nbrBefore + nbrAfter + 1)))).toNat).take
          (min (nbrBefore + nbrAfter + 1) view.length).toNat,
        k - max 0 (min (k - nbrBefore) (view.length - (nbrBefore + nbrAfter + 1))), none⟩ := by
  -- the start asked for, clamped to the view
  have e1 : bounded (wrapInt (k - nbrBefore)) 0 view.length = max 0 (k - nbrBefore) := by
    rw [wrapInt_of_mem (by omega) (by omega), bounded_of_le_upper (by omega)]
  -- the end, `nbrBefore + nbrAfter + 1` rows on, clamped to the view
  have e2 : bounded (wrapInt (wrapInt (wrapInt (max 0 (k - nbrBefore) + nbrBefore) + nbrAfter) + 1))
      0 view.length = min (max 0 (k - nbrBefore) + nbrBefore + nbrAfter + 1) view.length := by
    rw [wrapInt_of_mem (x := max 0 (k - nbrBefore) + nbrBefore) (by omega) (by omega),
      wrapInt_of_mem (x := max 0 (k - nbrBefore) + nbrBefore + nbrAfter) (by omega) (by omega),
      wrapInt_of_mem (by omega) (by omega), bounded_of_ge_lower (by omega) (by omega)]
  -- the start moved back from the end
  have e3 : bounded (wrapInt (min (max 0 (k - nbrBefore) + nbrBefore + nbrAfter + 1) view.length -
      wrapInt (wrapInt (nbrBefore + nbrAfter) + 1))) 0 view.length =
      max 0 (min (max 0 (k - nbrBefore) + nbrBefore + nbrAfter + 1) view.length -
        (nbrBefore + nbrAfter + 1)) := by
    rw [wrapInt_of_mem (x := nbrBefore + nbrAfter) (by omega) (by omega),
      wrapInt_of_mem (x := nbrBefore + nbrAfter + 1) (by omega) (by omega),
      wrapInt_of_mem (by omega) (by omega), bounded_of_le_upper (by omega)]
  obtain ⟨hstart, hsize, hlok, hkup⟩ := selectClamps hk0 hk hb ha
  simp only [selectWindow, e1, e2, e3]
  generalize min (max 0 (k - nbrBefore) + nbrBefore + nbrAfter + 1) (view.length : Int) = up
    at hstart hsize hlok hkup ⊢
  generalize max 0 (up - (nbrBefore + nbrAfter + 1)) = lo at hstart hsize hlok hkup ⊢
  rw [if_neg (not_lt.mpr (hlok.trans hkup.le)), if_neg fun h => h.2 ⟨hk0, hk⟩,
    if_pos ⟨hlok, hkup⟩, hsize, hstart]

/-- A window wider than `int` holds, asked for before the key: `nbrBefore + nbrAfter + 1` wraps
around to a negative size, the window ends before it starts, and `make` panics. -/
lemma selectWindow_maxInt_before {view : List BuildRow} {k : Int} (hk0 : 0 ≤ k)
    (hk : k < view.length) (hL : (view.length : Int) < 2 ^ 63) :
    selectWindow view k (2 ^ 63 - 1) 1 = .error .makesliceLenOutOfRange := by
  have e1 : bounded (wrapInt (k - (2 ^ 63 - 1))) 0 view.length = 0 := by
    rw [wrapInt_of_mem (by omega) (by omega)]
    simp only [bounded, maxInt_eq, minInt_eq]; omega
  have e2 : bounded (wrapInt (wrapInt (wrapInt (0 + (2 ^ 63 - 1)) + 1) + 1)) 0 view.length = 0 := by
    simp only [wrapInt, bounded, maxInt_eq, minInt_eq]; omega
  have e3 : bounded (wrapInt (0 - wrapInt (wrapInt (2 ^ 63 - 1 + 1) + 1))) 0 view.length =
      view.length := by
    simp only [wrapInt, bounded, maxInt_eq, minInt_eq]; omega
  simp only [selectWindow, e1, e2, e3]
  rw [if_pos (by omega)]

/-- The same width asked for after the key: the end of the window wraps around to a negative
position and is clamped to `0`, and so is its start, and the window is empty. -/
lemma selectWindow_maxInt_after {view : List BuildRow} {k : Int} (hk0 : 0 ≤ k)
    (hk : k < view.length) (hL : (view.length : Int) < 2 ^ 63) :
    selectWindow view k 0 (2 ^ 63 - 1) = .ok ⟨[], 0, none⟩ := by
  have e1 : bounded (wrapInt (k - 0)) 0 view.length = k := by
    rw [wrapInt_of_mem (by omega) (by omega)]
    simp only [bounded, maxInt_eq, minInt_eq]; omega
  have e2 : bounded (wrapInt (wrapInt (wrapInt (k + 0) + (2 ^ 63 - 1)) + 1)) 0 view.length = 0 := by
    simp only [wrapInt, bounded, maxInt_eq, minInt_eq]; omega
  have e3 : bounded (wrapInt (0 - wrapInt (wrapInt (0 + (2 ^ 63 - 1)) + 1))) 0 view.length = 0 := by
    simp only [wrapInt, bounded, maxInt_eq, minInt_eq]; omega
  simp only [selectWindow, e1, e2, e3]
  rw [if_neg (by omega), if_neg (by omega), if_neg (by omega)]
  rfl

end Citop.Rows

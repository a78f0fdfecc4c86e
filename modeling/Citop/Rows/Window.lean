import Citop.Rows.Session

/-!
What the windowed queries return, over the whole range of their arguments.

* `select_window`: when `Select` resolves its key to a position `k` of the view, and Go computes
  the window's sums without overflow, it returns `nbrBefore + nbrAfter + 1` rows, or the whole
  view when it is shorter, placed as near to `[k - nbrBefore, k + nbrAfter]` as the view allows,
  with the position of `k` among them.
* `select_window_overflows`: past that range the sums wrap around. Asked for the largest `int`
  of rows before the key and one after it, `Select` panics in `make`; asked for that many rows
  after the key, it returns none.
* `selectFirst_selectLast`: in a consistent state whose view has distinct keys,
  `SelectFirst(limit)` and `SelectLast(limit)` return the first and the last `limit` rows of the
  view, all of it when it is shorter, for every `int` limit from `1` on.
-/

namespace Citop.Rows

namespace RepositoryBuilds

/-- **The window of `Select`.** When `Select` resolves its key to a position `k` of the view,
and `k + nbrAfter + 1` and `nbrBefore + nbrAfter + 1` are in the range of `int`, it returns the
`m` rows of the view from `lo` on, with `k - lo` the position of `k` among them: `m` rows as
asked for, or the whole view when it is shorter, starting where the window asked for starts
unless that is before the view, or unless the window would then end past the view. -/
theorem select_window {s : RepositoryBuilds} {key : BuildRowKey} {k nbrBefore nbrAfter : Int}
    (hk : resolveKey s.refresh.dfsIndex key = some k) (hk0 : 0 ≤ k)
    (hkL : k < s.refresh.dfsTraversal.length) (hb : 0 ≤ nbrBefore) (ha : 0 ≤ nbrAfter)
    (hbo : nbrBefore + nbrAfter + 1 < 2 ^ 63) (hko : k + nbrAfter + 1 < 2 ^ 63) :
    let L : Int := s.refresh.dfsTraversal.length
    let lo := max 0 (min (k - nbrBefore) (L - (nbrBefore + nbrAfter + 1)))
    let m := min (nbrBefore + nbrAfter + 1) L
    s.select key nbrBefore nbrAfter =
      .ok (s.refresh, ⟨(s.refresh.dfsTraversal.drop lo.toNat).take m.toNat, k - lo, none⟩) ∧
    lo ≤ k ∧ k < lo + m := by
  dsimp only
  obtain ⟨hstart, hsize, hlok, hkup⟩ := selectClamps hk0 hkL hb ha
  refine ⟨?_, hstart ▸ hlok, by omega⟩
  rw [select_eq_selectWindow (List.ne_nil_of_length_pos (by omega)) hk,
    selectWindow_eq hk0 hkL hb ha hbo hko]
  rfl

theorem select_window_sampleState :
    resolveKey sampleState.refresh.dfsIndex sampleBuild.rowKey = some 0 ∧
    (0 : Int) < sampleState.refresh.dfsTraversal.length ∧
    let L : Int := sampleState.refresh.dfsTraversal.length
    let lo := max 0 (min (0 - 1) (L - (1 + 1 + 1)))
    let m := min (1 + 1 + 1) L
    sampleState.select sampleBuild.rowKey 1 1 =
      .ok (sampleState.refresh, ⟨(sampleState.refresh.dfsTraversal.drop lo.toNat).take m.toNat,
        0 - lo, none⟩) ∧
    lo ≤ 0 ∧ 0 < lo + m := by
  have hk : resolveKey sampleState.refresh.dfsIndex sampleBuild.rowKey = some 0 := by decide
  have hL : (0 : Int) < sampleState.refresh.dfsTraversal.length := by decide
  exact ⟨hk, hL, select_window hk le_rfl hL zero_le_one zero_le_one (by norm_num) (by norm_num)⟩

/-- **`Select` past the range of `int`.** At any position `k` of a view, asked for the largest
`int`, `2 ^ 63 - 1`, of rows before the key and one row after it, `Select` computes a window
size of `2 ^ 63 + 1`, which wraps around to a negative one: the window ends before it starts
and `make` panics. Asked for that many rows after the key, the end of the window wraps around
to a negative position: the window is empty and `Select` returns no rows. The length of a Go
slice is an `int`, below `2 ^ 63`. -/
theorem select_window_overflows {s : RepositoryBuilds} {key : BuildRowKey} {k : Int}
    (hk : resolveKey s.refresh.dfsIndex key = some k) (hk0 : 0 ≤ k)
    (hkL : k < s.refresh.dfsTraversal.length)
    (hL : (s.refresh.dfsTraversal.length : Int) < 2 ^ 63) :
    s.select key (2 ^ 63 - 1) 1 = .error .makesliceLenOutOfRange ∧
    s.select key 0 (2 ^ 63 - 1) = .ok (s.refresh, ⟨[], 0, none⟩) := by
  have hne : s.refresh.dfsTraversal ≠ [] := List.ne_nil_of_length_pos (by omega)
  rw [select_eq_selectWindow hne hk, select_eq_selectWindow hne hk,
    selectWindow_maxInt_before hk0 hkL hL, selectWindow_maxInt_after hk0 hkL hL]
  exact ⟨rfl, rfl⟩

theorem select_window_overflows_sampleState :
    resolveKey sampleState.refresh.dfsIndex sampleBuild.rowKey = some 0 ∧
    (0 : Int) < sampleState.refresh.dfsTraversal.length ∧
    (sampleState.refresh.dfsTraversal.length : Int) < 2 ^ 63 ∧
    sampleState.select sampleBuild.rowKey (2 ^ 63 - 1) 1 = .error .makesliceLenOutOfRange ∧
    sampleState.select sampleBuild.rowKey 0 (2 ^ 63 - 1) = .ok (sampleState.refresh, ⟨[], 0, none⟩) := by
  have hk : resolveKey sampleState.refresh.dfsIndex sampleBuild.rowKey = some 0 := by decide
  have hkL : (0 : Int) < sampleState.refresh.dfsTraversal.length := by decide
  have hL : (sampleState.refresh.dfsTraversal.length : Int) < 2 ^ 63 := by decide
  exact ⟨hk, hkL, hL, select_window_overflows hk le_rfl hkL hL⟩

/-! ### The first and the last rows -/

/-- A window of `min n len` rows from the start is the first `n` rows. -/
lemma take_toNat_min {α : Type} (l : List α) (n : Int) :
    l.take (min n l.length).toNat = l.take n.toNat := by
  rcases le_total n l.length with h | h
  · rw [min_eq_left h]
  · rw [min_eq_right h, Int.toNat_natCast, List.take_length,
      List.take_of_length_le (by omega)]

/-- In a consistent state whose view has distinct keys, the first key resolves to `0` and the
last one to the last position. -/
lemma resolveKey_first_last {s : RepositoryBuilds} (hc : s.Consistent)
    (hnd : (s.refresh.dfsTraversal.map BuildRow.key).Nodup) {n : Nat}
    (hn : n < s.refresh.dfsTraversal.length) :
    resolveKey s.refresh.refresh.dfsIndex s.refresh.dfsTraversal[n].key = some (n : Int) := by
  rw [refresh_refresh, hc.refresh.index]
  exact resolveKey_of_index (viewIndex_spec hnd hn)

/-- **The first and the last rows.** In a consistent state, every reachable one included, whose
view has distinct keys, `SelectFirst(limit)` returns the first `limit` rows of the view and
`SelectLast(limit)` the last `limit` rows, the whole view when it is shorter, for every `int`
limit from `1` on. The length of a Go slice is an `int`, below `2 ^ 63`. -/
theorem selectFirst_selectLast {s : RepositoryBuilds} (hc : s.Consistent)
    (hnd : (s.refresh.dfsTraversal.map BuildRow.key).Nodup)
    (hL : (s.refresh.dfsTraversal.length : Int) < 2 ^ 63) {limit : Int} (h1 : 1 ≤ limit)
    (h2 : limit < 2 ^ 63) :
    s.selectFirst limit = .ok (s.refresh, s.refresh.dfsTraversal.take limit.toNat, none) ∧
    s.selectLast limit = .ok (s.refresh,
      s.refresh.dfsTraversal.drop (s.refresh.dfsTraversal.length - limit.toNat), none) := by
  have hwrap : wrapInt (limit - 1) = limit - 1 := wrapInt_of_mem (by omega) (by omega)
  by_cases hne : s.refresh.dfsTraversal = []
  · simp [selectFirst, selectLast, hne]
  have hpos : 0 < s.refresh.dfsTraversal.length := List.length_pos.mpr hne
  have hne' : s.refresh.refresh.dfsTraversal ≠ [] := by rwa [refresh_refresh]
  constructor
  · -- `Select` at position `0`, `limit - 1` rows after it
    obtain ⟨r, rest, hV⟩ := List.exists_cons_of_ne_nil hne
    have hk : resolveKey s.refresh.refresh.dfsIndex r.key = some 0 := by
      simpa [hV] using resolveKey_first_last hc hnd hpos
    simp only [selectFirst, hV, hwrap]
    rw [select_eq_selectWindow hne' hk, refresh_refresh, ← hV,
      selectWindow_eq le_rfl (by omega) le_rfl (by omega) (by omega) (by omega)]
    have h0 : (max 0 (min 0 ((s.refresh.dfsTraversal.length : Int) - limit))).toNat = 0 := by
      omega
    simp only [Except.map, Nat.cast_zero, sub_zero, zero_add, sub_add_cancel, h0, List.drop_zero,
      take_toNat_min]
  · -- `Select` at the last position, `limit - 1` rows before it
    have hlt : s.refresh.dfsTraversal.length - 1 < s.refresh.dfsTraversal.length :=
      Nat.sub_lt hpos Nat.one_pos
    have hlast : s.refresh.dfsTraversal.getLast? =
        some s.refresh.dfsTraversal[s.refresh.dfsTraversal.length - 1] := by
      rw [List.getLast?_eq_getElem?, List.getElem?_eq_getElem hlt]
    have hk := resolveKey_first_last hc hnd hlt
    simp only [selectLast, hlast, hwrap]
    rw [select_eq_selectWindow hne' hk, refresh_refresh,
      selectWindow_eq (by omega) (by omega) (by omega) le_rfl (by omega) (by omega)]
    have hlo : (max 0 (min (((s.refresh.dfsTraversal.length - 1 : Nat) : Int) - (limit - 1))
        (s.refresh.dfsTraversal.length - (limit - 1 + 0 + 1)))).toNat =
        s.refresh.dfsTraversal.length - limit.toNat := by omega
    simp only [Except.map, hlo]
    rw [List.take_of_length_le (by simp; omega)]

theorem selectFirst_selectLast_sampleState :
    sampleState.Consistent ∧ (sampleState.refresh.dfsTraversal.map BuildRow.key).Nodup ∧
    (sampleState.refresh.dfsTraversal.length : Int) < 2 ^ 63 ∧ (1 : Int) ≤ 2 ∧ (2 : Int) < 2 ^ 63 ∧
    sampleState.selectFirst 2 =
      .ok (sampleState.refresh, sampleState.refresh.dfsTraversal.take (2 : Int).toNat, none) ∧
    sampleState.selectLast 2 = .ok (sampleState.refresh,
      sampleState.refresh.dfsTraversal.drop
        (sampleState.refresh.dfsTraversal.length - (2 : Int).toNat), none) := by
  have hnd : (sampleState.refresh.dfsTraversal.map BuildRow.key).Nodup := by decide
  have hL : (sampleState.refresh.dfsTraversal.length : Int) < 2 ^ 63 := by decide
  exact ⟨reachable_sampleState.consistent, hnd, hL, by norm_num, by norm_num,
    selectFirst_selectLast reachable_sampleState.consistent hnd hL (by norm_num) (by norm_num)⟩

end RepositoryBuilds

end Citop.Rows

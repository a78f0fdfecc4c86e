import Citop.Rows.Search
import Citop.Rows.Mirror

/-!
Sessions of `RepositoryBuilds`: the calls a UI makes, one after the other, from the zero value.

* `Op` is a call of `FetchRows`, `SetTraversable`, `Select`, `SelectFirst`, `SelectLast` or
  `NextMatch`; `RepositoryBuilds.apply` is the state it leaves, or the panic it ends in, and
  `Reachable` holds of the states a sequence of calls reaches from `zero`.
* `Consistent`: in a reachable state `dfsIndex` is the index of `dfsTraversal`, and a view marked
  up to date is its own rebuild (`Reachable.consistent`).
* `queries_eq_prefixAndIndex`: so `Select`, `SelectFirst` and `SelectLast` answer as on a rebuilt
  view. `NextMatch` does not refresh, and reads the view `SetTraversable` left stale
  (`nextMatch_reads_stale_view`).
* `nextMatch_zero_panics`: on the zero value `NextMatch` divides by the length of an empty view.
* `nextMatch_visits_in_order`: `NextMatch` visits every other position once, in order, and stops
  at the first match.
* `nextMatch_selects_first_match`: on an up-to-date view with distinct keys and the active row
  within the viewport, the rows `NextMatch` returns hold the first match at the index it returns.
  With the active row outside the viewport they need not, and with the top below the bottom the
  call panics (`nextMatch_misses_match`).
* `nextMatch_window`: on an up-to-date view with distinct keys, the rows `NextMatch` returns are
  the viewport moved just enough to show the match.
-/

namespace Citop.Rows

/-- A call on a `RepositoryBuilds`. `NextMatch` reads the clock through `ElapsedSince`, so each
call carries the formatting it sees. -/
inductive Op where
  | fetchRows (builds : List Build)
  | setTraversable (key : BuildRowKey) (traversable recursive : Bool)
  | select (key : BuildRowKey) (nbrBefore nbrAfter : Int)
  | selectFirst (limit : Int)
  | selectLast (limit : Int)
  | nextMatch (elapsedSince : Int → String) (top bottom active : BuildRowKey) (search : String)
      (ascending : Bool)

namespace RepositoryBuilds

/-- The state a call leaves, or the panic it ends in. -/
def apply : Op → RepositoryBuilds → Except Fault RepositoryBuilds
  | .fetchRows builds, s => .ok (s.fetchRows builds)
  | .setTraversable key traversable recursive, s => .ok (s.setTraversable key traversable recursive)
  | .select key nbrBefore nbrAfter, s => (s.select key nbrBefore nbrAfter).map (·.1)
  | .selectFirst limit, s => (s.selectFirst limit).map (·.1)
  | .selectLast limit, s => (s.selectLast limit).map (·.1)
  | .nextMatch elapsedSince top bottom active search ascending, s =>
      (s.nextMatch elapsedSince top bottom active search ascending).map (·.1)

/-- A sequence of calls, stopped by the first panic. -/
def run : List Op → RepositoryBuilds → Except Fault RepositoryBuilds
  | [], s => .ok s
  | op :: ops, s => s.apply op >>= run ops

/-- The states a sequence of calls reaches from the zero value. -/
inductive Reachable : RepositoryBuilds → Prop
  | zero : Reachable zero
  | step {s s' : RepositoryBuilds} (op : Op) : Reachable s → s.apply op = .ok s' → Reachable s'

lemma Reachable.run {s s' : RepositoryBuilds} {ops : List Op} (hs : s.Reachable)
    (h : s.run ops = .ok s') : s'.Reachable := by
  induction ops generalizing s with
  | nil => cases h; exact hs
  | cons op ops ih =>
      simp only [RepositoryBuilds.run, bind, Except.bind] at h
      split at h
      · cases h
      · exact ih (hs.step op ‹_›) h

/-! ### What each call leaves -/

/-- `Select` leaves the refreshed state. -/
lemma select_state {s s' : RepositoryBuilds} {key : BuildRowKey} {nbrBefore nbrAfter : Int}
    {q : Selection} (h : s.select key nbrBefore nbrAfter = .ok (s', q)) : s' = s.refresh := by
  simp only [select] at h
  split_ifs at h
  · cases h; rfl
  · split at h
    · cases h; rfl
    · obtain ⟨q', -, hq⟩ := except_map_eq_ok.mp h
      cases hq; rfl

lemma selectFirst_state {s s' : RepositoryBuilds} {limit : Int} {rows : List BuildRow}
    {err : Option GoError} (h : s.selectFirst limit = .ok (s', rows, err)) : s' = s.refresh := by
  simp only [selectFirst] at h
  split at h
  · cases h; rfl
  · obtain ⟨⟨s'', q⟩, hq, he⟩ := except_map_eq_ok.mp h
    cases he
    rw [select_state hq, refresh_refresh]

lemma selectLast_state {s s' : RepositoryBuilds} {limit : Int} {rows : List BuildRow}
    {err : Option GoError} (h : s.selectLast limit = .ok (s', rows, err)) : s' = s.refresh := by
  simp only [selectLast] at h
  split at h
  · cases h; rfl
  · obtain ⟨⟨s'', q⟩, hq, he⟩ := except_map_eq_ok.mp h
    cases he
    rw [select_state hq, refresh_refresh]

/-- `NextMatch` leaves the state as it is, or refreshed by the `Select` it makes. -/
lemma nextMatch_state {s s' : RepositoryBuilds} {elapsedSince : Int → String}
    {top bottom active : BuildRowKey} {search : String} {ascending : Bool} {q : Selection}
    (h : s.nextMatch elapsedSince top bottom active search ascending = .ok (s', q)) :
    s' = s ∨ s' = s.refresh := by
  simp only [nextMatch, bind, Except.bind] at h
  split at h
  · cases h
  · split at h
    · cases h
    · split at h
      · cases h; exact .inl rfl
      · split at h
        · cases h
        · exact .inr (select_state h)

/-! ### The invariant -/

/-- What every reachable state keeps: `dfsIndex` is the index of `dfsTraversal`, and a view
marked up to date is its own rebuild. -/
structure Consistent (s : RepositoryBuilds) : Prop where
  index : s.dfsIndex = viewIndex s.dfsTraversal
  fresh : s.dfsUpToDate = true → s.prefixAndIndex = s

lemma consistent_zero : zero.Consistent := ⟨rfl, fun h => by cases h⟩

lemma consistent_prefixAndIndex (s : RepositoryBuilds) : s.prefixAndIndex.Consistent :=
  ⟨rfl, fun _ => prefixAndIndex_prefixAndIndex s⟩

lemma Consistent.refresh {s : RepositoryBuilds} (h : s.Consistent) : s.refresh.Consistent := by
  unfold RepositoryBuilds.refresh
  split_ifs
  · exact h
  · exact consistent_prefixAndIndex s

/-- In a consistent state the view a query reads is the rebuilt one. -/
lemma Consistent.refresh_eq {s : RepositoryBuilds} (h : s.Consistent) :
    s.refresh = s.prefixAndIndex := by
  unfold RepositoryBuilds.refresh
  split_ifs with hup
  · exact (h.fresh hup).symm
  · rfl

lemma Consistent.apply {s s' : RepositoryBuilds} (h : s.Consistent) :
    ∀ {op : Op}, s.apply op = .ok s' → s'.Consistent
  | .fetchRows builds, hs => by
      cases hs; exact ⟨h.index, fun h => by cases h⟩
  | .setTraversable key traversable recursive, hs => by
      cases hs
      unfold setTraversable
      split
      · exact h
      · exact ⟨h.index, fun h => by cases h⟩
  | .select key nbrBefore nbrAfter, hs => by
      obtain ⟨⟨s'', q⟩, hq, rfl⟩ := except_map_eq_ok.mp hs
      rw [select_state hq]; exact h.refresh
  | .selectFirst limit, hs => by
      obtain ⟨⟨s'', rows, err⟩, hq, rfl⟩ := except_map_eq_ok.mp hs
      rw [selectFirst_state hq]; exact h.refresh
  | .selectLast limit, hs => by
      obtain ⟨⟨s'', rows, err⟩, hq, rfl⟩ := except_map_eq_ok.mp hs
      rw [selectLast_state hq]; exact h.refresh
  | .nextMatch elapsedSince top bottom active search ascending, hs => by
      obtain ⟨⟨s'', q⟩, hq, rfl⟩ := except_map_eq_ok.mp hs
      rcases nextMatch_state hq with h' | h' <;> rw [h']
      · exact h
      · exact h.refresh

/-- **The invariant** holds in every reachable state. -/
lemma Reachable.consistent {s : RepositoryBuilds} (h : s.Reachable) : s.Consistent := by
  induction h with
  | zero => exact consistent_zero
  | step op _ hs ih => exact ih.apply hs

/-- In a consistent state every key `dfsIndex` maps is at a position of the view. -/
lemma Consistent.position_mem {s : RepositoryBuilds} (h : s.Consistent) {k : BuildRowKey} {i : Int}
    (hk : s.dfsIndex k = some i) : 0 ≤ i ∧ i < s.dfsTraversal.length := by
  rw [h.index] at hk
  obtain ⟨n, rfl, r, hr, -⟩ := getElem?_of_viewIndex hk
  exact ⟨Int.natCast_nonneg n, by exact_mod_cast (List.getElem?_eq_some_iff.mp hr).1⟩

/-- The session of `sampleBuild` with every row expanded: its view lists the build, its job, its
stage and the stage's job. -/
def sampleState : RepositoryBuilds :=
  ((zero.fetchRows [sampleBuild]).setTraversable sampleBuild.rowKey true true).prefixAndIndex

set_option maxRecDepth 2000 in
lemma reachable_sampleState : sampleState.Reachable :=
  .step (.selectFirst 10) (.step (.setTraversable sampleBuild.rowKey true true)
    (.step (.fetchRows [sampleBuild]) .zero rfl) rfl) rfl

/-! ### Queries and the rebuilt view -/

lemma selectFirst_refresh (s : RepositoryBuilds) (limit : Int) :
    s.refresh.selectFirst limit = s.selectFirst limit := by
  simp only [selectFirst, refresh_refresh]

lemma selectLast_refresh (s : RepositoryBuilds) (limit : Int) :
    s.refresh.selectLast limit = s.selectLast limit := by
  simp only [selectLast, refresh_refresh]

/-- **The windowed queries read a fresh view.** In every reachable state `Select`, `SelectFirst`
and `SelectLast` return what they return once the view is rebuilt. -/
theorem queries_eq_prefixAndIndex {s : RepositoryBuilds} (hr : s.Reachable) :
    (∀ key nbrBefore nbrAfter,
      s.select key nbrBefore nbrAfter = s.prefixAndIndex.select key nbrBefore nbrAfter) ∧
    (∀ limit, s.selectFirst limit = s.prefixAndIndex.selectFirst limit) ∧
    (∀ limit, s.selectLast limit = s.prefixAndIndex.selectLast limit) := by
  have h := hr.consistent.refresh_eq
  exact ⟨fun key nbrBefore nbrAfter => by rw [← select_refresh, h],
    fun limit => by rw [← selectFirst_refresh, h], fun limit => by rw [← selectLast_refresh, h]⟩

/-- The build of `sampleBuild` without its stage: one job of its own. -/
def jobBuild : Build := { sampleBuild with stages := ∅ }

set_option maxRecDepth 1000 in
/-- `NextMatch` does not refresh: after `FetchRows`, `SelectFirst` and `SetTraversable` on a
build with one job, the stale view holds the build row alone, which is the active row, and the
search finds nothing; on the rebuilt view the build is expanded and the search finds its job. -/
theorem nextMatch_reads_stale_view :
    ((zero.run [.fetchRows [jobBuild], .selectFirst 10,
        .setTraversable jobBuild.rowKey true false]).bind fun s =>
      (s.nextMatch (fun _ => "1m") jobBuild.rowKey jobBuild.rowKey jobBuild.rowKey "J" true).map
        fun q => (q.2.rows.map (·.key), q.2.index, q.2.err)).toOption =
      some ([], 0, some .noMatchFound) ∧
    ((zero.run [.fetchRows [jobBuild], .selectFirst 10,
        .setTraversable jobBuild.rowKey true false]).bind fun s =>
      (s.prefixAndIndex.nextMatch (fun _ => "1m") jobBuild.rowKey jobBuild.rowKey
        jobBuild.rowKey "J" true).map
        fun q => (q.2.rows.map (·.key), q.2.index, q.2.err)).toOption =
      some ([⟨"acc", 5, 0, 7⟩], 0, none) := by
  decide

theorem queries_eq_prefixAndIndex_sampleState :
    sampleState.Reachable ∧
    (∀ key nbrBefore nbrAfter,
      sampleState.select key nbrBefore nbrAfter = sampleState.prefixAndIndex.select key nbrBefore nbrAfter) ∧
    (∀ limit, sampleState.selectFirst limit = sampleState.prefixAndIndex.selectFirst limit) ∧
    (∀ limit, sampleState.selectLast limit = sampleState.prefixAndIndex.selectLast limit) :=
  ⟨reachable_sampleState, queries_eq_prefixAndIndex reachable_sampleState⟩

/-! ### `NextMatch` on an empty view -/

/-- On an empty view the first `utils.Modulo` divides by zero. -/
lemma nextMatch_of_empty {s : RepositoryBuilds} (h : s.dfsTraversal = [])
    (elapsedSince : Int → String) (top bottom active : BuildRowKey) (search : String)
    (ascending : Bool) :
    s.nextMatch elapsedSince top bottom active search ascending = .error .integerDivideByZero := by
  simp [nextMatch, h, modulo, bind, Except.bind]

/-- **`NextMatch` on the zero value** panics, whatever its arguments: the view was never built. -/
theorem nextMatch_zero_panics (elapsedSince : Int → String) (top bottom active : BuildRowKey)
    (search : String) (ascending : Bool) :
    zero.nextMatch elapsedSince top bottom active search ascending = .error .integerDivideByZero :=
  nextMatch_of_empty rfl elapsedSince top bottom active search ascending

/-! ### The search -/

/-- At a match `i`, on an up-to-date view with distinct keys and with the top, active and bottom
keys at positions `t ≤ a ≤ b`, `NextMatch` returns the rows of `searchWindow t b i`, from `lo`
to `hi`, and the match's position among them. -/
lemma nextMatch_of_firstMatch (elapsedSince : Int → String) (top bottom active : BuildRowKey)
    (search : String) (ascending : Bool) {s : RepositoryBuilds} (hr : s.Reachable)
    (hup : s.dfsUpToDate = true) (hnd : (s.dfsTraversal.map BuildRow.key).Nodup)
    (hL : (s.dfsTraversal.length : Int) < 2 ^ 63) {t a b i : Int} (ht : s.dfsIndex top = some t)
    (ha : s.dfsIndex active = some a) (hb : s.dfsIndex bottom = some b) (hta : t ≤ a) (hab : a ≤ b)
    (hi : firstMatch elapsedSince search s.dfsTraversal a ascending = some i) :
    s.nextMatch elapsedSince top bottom active search ascending =
      .ok (s, ⟨(s.dfsTraversal.drop (searchWindow t b i).1.toNat).take
        ((searchWindow t b i).2 + 1 - (searchWindow t b i).1).toNat, i - (searchWindow t b i).1,
        none⟩) := by
  have hc := hr.consistent
  obtain ⟨ht0, -⟩ := hc.position_mem ht
  obtain ⟨ha0, ha'⟩ := hc.position_mem ha
  obtain ⟨-, hbL⟩ := hc.position_mem hb
  obtain ⟨hi0, hiL, -⟩ := (mem_visitOrder ha0 ha' i).mp (List.mem_of_find?_eq_some hi)
  have hn : i.toNat < s.dfsTraversal.length := by omega
  have hwin := nextWindow_eq_searchWindow (a := a) ht0 hta hab hbL hi0 hiL hL
  obtain ⟨hlo0, hloi, hihi, hhiL, -⟩ := searchWindow_fits ht0 (hta.trans hab) hbL hi0 hiL
  have hkey : resolveKey s.dfsIndex s.dfsTraversal[i.toNat].key = some i := by
    rw [resolveKey_of_index (k := (i.toNat : Int)), Int.toNat_of_nonneg hi0]
    rw [hc.index]; exact viewIndex_spec hnd hn
  rw [nextMatch_eq hL (by simp [ha, ha0]) (by simp [ha, ha']), ha, Option.getD_some, hi,
    ht, hb, Option.getD_some, Option.getD_some]
  simp only [goIndex_of_mem hi0 hn, bind, Except.bind, hwin]
  rw [wrapInt_of_mem (by omega) (by omega),
    wrapInt_of_mem (by omega) (by omega),
    select_of_resolveKey hup (List.ne_nil_of_length_pos (by omega)) hkey,
    selectWindow_of_fits hlo0 hloi hihi hhiL hL]
  rfl

/-- **The window of a match.** In every reachable state whose view is up to date and has
distinct keys, with the top, active and bottom keys at positions `t ≤ a ≤ b`, when the search
finds a match at position `i`, `NextMatch` returns the rows of `searchWindow t b i`, from `lo`
to `hi`, and the match's position among them: the viewport keeps its size and shows the
match. -/
theorem nextMatch_window (elapsedSince : Int → String) (top bottom active : BuildRowKey)
    (search : String) (ascending : Bool) {s : RepositoryBuilds} (hr : s.Reachable)
    (hup : s.dfsUpToDate = true) (hnd : (s.dfsTraversal.map BuildRow.key).Nodup)
    (hL : (s.dfsTraversal.length : Int) < 2 ^ 63) {t a b i : Int} (ht : s.dfsIndex top = some t)
    (ha : s.dfsIndex active = some a) (hb : s.dfsIndex bottom = some b) (hta : t ≤ a) (hab : a ≤ b)
    (hi : firstMatch elapsedSince search s.dfsTraversal a ascending = some i) :
    s.nextMatch elapsedSince top bottom active search ascending =
      .ok (s, ⟨(s.dfsTraversal.drop (searchWindow t b i).1.toNat).take
        ((searchWindow t b i).2 + 1 - (searchWindow t b i).1).toNat, i - (searchWindow t b i).1, none⟩) ∧
    (searchWindow t b i).2 - (searchWindow t b i).1 = b - t ∧
    (searchWindow t b i).1 ≤ i ∧ i ≤ (searchWindow t b i).2 := by
  have hc := hr.consistent
  obtain ⟨ht0, -⟩ := hc.position_mem ht
  obtain ⟨ha0, ha'⟩ := hc.position_mem ha
  obtain ⟨-, hbL⟩ := hc.position_mem hb
  obtain ⟨hi0, hiL, -⟩ := (mem_visitOrder ha0 ha' i).mp (List.mem_of_find?_eq_some hi)
  obtain ⟨-, hloi, hihi, -, hsize⟩ := searchWindow_fits ht0 (hta.trans hab) hbL hi0 hiL
  exact ⟨nextMatch_of_firstMatch elapsedSince top bottom active search ascending hr hup hnd hL
    ht ha hb hta hab hi, hsize, hloi, hihi⟩

theorem nextMatch_window_sampleState :
    sampleState.Reachable ∧ sampleState.dfsUpToDate = true ∧
    (sampleState.dfsTraversal.map BuildRow.key).Nodup ∧
    (sampleState.dfsTraversal.length : Int) < 2 ^ 63 ∧
    sampleState.dfsIndex sampleBuild.rowKey = some 0 ∧
    firstMatch (fun _ => "1m") "J" sampleState.dfsTraversal 0 true = some 1 ∧
    sampleState.nextMatch (fun _ => "1m") sampleBuild.rowKey sampleBuild.rowKey sampleBuild.rowKey
      "J" true =
      .ok (sampleState, ⟨(sampleState.dfsTraversal.drop (searchWindow 0 0 1).1.toNat).take
        ((searchWindow 0 0 1).2 + 1 - (searchWindow 0 0 1).1).toNat, 1 - (searchWindow 0 0 1).1,
        none⟩) ∧
    (searchWindow 0 0 1).2 - (searchWindow 0 0 1).1 = 0 - 0 ∧
    (searchWindow 0 0 1).1 ≤ 1 ∧ 1 ≤ (searchWindow 0 0 1).2 := by
  have hk : sampleState.dfsIndex sampleBuild.rowKey = some 0 := by decide
  have hm : firstMatch (fun _ => "1m") "J" sampleState.dfsTraversal 0 true = some 1 := by decide
  have hnd : (sampleState.dfsTraversal.map BuildRow.key).Nodup := by decide
  have hL : (sampleState.dfsTraversal.length : Int) < 2 ^ 63 := by decide
  exact ⟨reachable_sampleState, rfl, hnd, hL, hk, hm,
    nextMatch_window (fun _ => "1m") sampleBuild.rowKey sampleBuild.rowKey sampleBuild.rowKey "J"
      true reachable_sampleState rfl hnd hL hk hk hk le_rfl le_rfl hm⟩

end RepositoryBuilds

end Citop.Rows

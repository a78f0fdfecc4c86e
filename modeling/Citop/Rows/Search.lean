import Citop.Rows.Select

/-!
The circular search `NextMatch`.

`NextMatch` reads the view as it is, without the refresh the other queries make. From the
position `a` of the active key it steps through the view one row at a time, wrapping around,
until it is back at `a` or finds a row one of whose column values contains the search text
(`scan`). At a match at position `i` it computes a window from the positions of the top and
bottom keys (`nextWindow`) and hands it to `Select`.

* `visitOrder`: the positions `a + 1, a + 2, …` or `a - 1, a - 2, …` modulo the length of the
  view, each position other than `a` once (`mem_visitOrder`, `nodup_visitOrder`).
* `scan_eq_firstMatch`: on a view whose index holds its own positions, the loop visits the
  positions in that order and stops at the first match, or at `a` (`firstMatch`).
* `nextWindow_eq_searchWindow`: for a top at or before the active row and a bottom at or after
  it, the window the code computes is the viewport of the same size moved just enough to show
  the match (`searchWindow`).
-/

namespace Citop.Rows

/-- A row matches when one of its column values contains the search text. Go ranges over the
map of `Tabular()` in no fixed order; the test does not depend on it. -/
def rowMatches (elapsedSince : Int → String) (search : String) (r : BuildRow) : Bool :=
  (r.tabular elapsedSince).any fun c => contains c.2 search

/-- The loop of `NextMatch`, from position `i`: `none` when it is back at `a`, the position of
the first match otherwise. The positions it visits repeat with the period of the length of the
view, so a loop that has run that many times without exiting never exits; the model stops it
there, with `loopNeverExits`. -/
def scan (elapsedSince : Int → String) (search : String) (view : List BuildRow) (a : Int)
    (ascending : Bool) : Nat → Int → Except Fault (Option Int)
  | 0, _ => .error .loopNeverExits
  | fuel + 1, i =>
      if i = a then .ok none
      else do
        let row ← goIndex view i
        if rowMatches elapsedSince search row then .ok (some i)
        else do
          let next ← modulo (wrapInt (if ascending then i + 1 else i - 1)) view.length
          scan elapsedSince search view a ascending fuel next

/-- The window of `NextMatch` at a match at position `i`, `(minIndex, maxIndex)`, from the
positions `t`, `b` and `a` of the top, bottom and active keys. -/
def nextWindow (t b a i : Int) : Int × Int :=
  let nbrRows := wrapInt (wrapInt (b - t) + 1)
  if i > a then
    let maxIndex := maxInt b i
    (maxInt t (wrapInt (wrapInt (maxIndex - nbrRows) + 1)), maxIndex)
  else
    let minIndex := minInt t i
    (minIndex, minInt b (wrapInt (wrapInt (minIndex + nbrRows) - 1)))

/-- `NextMatch(top, bottom, active, search, ascending)`. A key missing from `dfsIndex` reads
as position `0`. -/
def RepositoryBuilds.nextMatch (elapsedSince : Int → String) (top bottom active : BuildRowKey)
    (search : String) (ascending : Bool) (s : RepositoryBuilds) :
    Except Fault (RepositoryBuilds × Selection) := do
  let position (k : BuildRowKey) : Int := (s.dfsIndex k).getD 0
  let a := position active
  let start ← modulo (wrapInt (if ascending then a + 1 else a - 1)) s.dfsTraversal.length
  match ← scan elapsedSince search s.dfsTraversal a ascending s.dfsTraversal.length start with
  | none => .ok (s, ⟨[], 0, some .noMatchFound⟩)
  | some i =>
      let row ← goIndex s.dfsTraversal i
      let w := nextWindow (position top) (position bottom) a i
      s.select row.key (wrapInt (i - w.1)) (wrapInt (w.2 - i))

/-! ### The order of the visits -/

/-- One step of the loop: `+1` ascending, `-1` descending. -/
def visitStep (ascending : Bool) : Int := if ascending then 1 else -1

@[simp] lemma visitStep_true : visitStep true = 1 := rfl

@[simp] lemma visitStep_false : visitStep false = -1 := rfl

lemma visitStep_cases (ascending : Bool) : visitStep ascending = 1 ∨ visitStep ascending = -1 := by
  cases ascending <;> simp

/-- The position of the `j`-th visit from `a`. -/
def visitPos (len a : Int) (ascending : Bool) (j : Nat) : Int :=
  (a + visitStep ascending * (j + 1)) % len

/-- The positions the loop visits, in order: `len - 1` steps from `a`. -/
def visitOrder (len : Nat) (a : Int) (ascending : Bool) : List Int :=
  (List.range (len - 1)).map (visitPos len a ascending)

/-- The row `NextMatch` should find: the first visited row that matches. -/
def firstMatch (elapsedSince : Int → String) (search : String) (view : List BuildRow) (a : Int)
    (ascending : Bool) : Option Int :=
  (visitOrder view.length a ascending).find? fun i => (view[i.toNat]?).any (rowMatches elapsedSince search)

/-- A number within a length of `[0, len)` is brought into it by adding or taking away at
most one `len`. -/
lemma emod_mem_cases {x len : Int} (h1 : -len ≤ x) (h2 : x < 2 * len) :
    x % len = x ∨ x % len = x + len ∨ x % len = x - len := by
  rcases lt_or_le x 0 with h | h
  · right; left
    rw [← Int.add_emod_self]
    exact Int.emod_eq_of_lt (by omega) (by omega)
  rcases lt_or_le x len with h' | h'
  · exact .inl (Int.emod_eq_of_lt h h')
  · right; right
    conv_lhs => rw [show x = x - len + len by ring]
    rw [Int.add_emod_self]
    exact Int.emod_eq_of_lt (by omega) (by omega)

section Visits

variable {len a : Int} {ascending : Bool}

lemma visitStep_mul_self : visitStep ascending * visitStep ascending = 1 := by
  cases ascending <;> rfl

lemma visitPos_mem (hlen : 0 < len) (j : Nat) :
    0 ≤ visitPos len a ascending j ∧ visitPos len a ascending j < len :=
  ⟨Int.emod_nonneg _ hlen.ne', Int.emod_lt_of_pos _ hlen⟩

/-- The positions strictly between the start and the return to `a` are not `a`. -/
lemma visitPos_ne (ha : 0 ≤ a) (ha' : a < len) {j : Nat} (hj : (j : Int) + 1 < len) :
    visitPos len a ascending j ≠ a := by
  rcases visitStep_cases ascending with hs | hs <;>
  rcases @emod_mem_cases (a + visitStep ascending * (j + 1)) len
    (by rw [hs]; omega) (by rw [hs]; omega) with h | h | h <;>
  rw [visitPos, h, hs] <;> omega

/-- After `len - 1` visits the loop is back at `a`. -/
lemma visitPos_last (ha : 0 ≤ a) (ha' : a < len) {j : Nat} (hj : (j : Int) + 1 = len) :
    visitPos len a ascending j = a := by
  rw [visitPos, hj, Int.add_mul_emod_self, Int.emod_eq_of_lt ha ha']

/-- The loop's `next` takes one visit to the following one. -/
lemma visitPos_succ (j : Nat) :
    (visitPos len a ascending j + visitStep ascending) % len = visitPos len a ascending (j + 1) := by
  rw [visitPos, visitPos, Int.emod_add_emod]
  congr 1
  push_cast
  ring

/-- Every position other than `a` is visited. -/
lemma exists_visitPos (ha : 0 ≤ a) (ha' : a < len) {i : Int} (hi : 0 ≤ i) (hi' : i < len)
    (hia : i ≠ a) : ∃ j : Nat, (j : Int) + 1 < len ∧ visitPos len a ascending j = i := by
  set d := (visitStep ascending * (i - a)) % len
  have hd : 0 ≤ d ∧ d < len := ⟨Int.emod_nonneg _ (by omega), Int.emod_lt_of_pos _ (by omega)⟩
  have hd0 : d ≠ 0 := by
    intro h0
    have := Int.eq_zero_of_abs_lt_dvd (Int.dvd_of_emod_eq_zero h0) (by
      rcases visitStep_cases ascending with hs | hs <;> rw [hs, abs_lt] <;> constructor <;> omega)
    rcases visitStep_cases ascending with hs | hs <;> rw [hs] at this <;> omega
  refine ⟨(d - 1).toNat, by omega, ?_⟩
  have hj : (((d - 1).toNat : Nat) : Int) + 1 = d := by omega
  rw [visitPos, hj, Int.add_emod, Int.mul_emod, Int.emod_emod_of_dvd _ (dvd_refl len), ← Int.mul_emod,
    ← Int.add_emod, ← mul_assoc, visitStep_mul_self, one_mul, add_sub_cancel,
    Int.emod_eq_of_lt hi hi']

end Visits

lemma length_visitOrder (len : Nat) (a : Int) (ascending : Bool) :
    (visitOrder len a ascending).length = len - 1 := by
  simp [visitOrder]

/-- **The visits.** The loop visits exactly the positions other than `a`. -/
lemma mem_visitOrder {len : Nat} {a : Int} {ascending : Bool} (ha : 0 ≤ a) (ha' : a < len)
    (i : Int) : i ∈ visitOrder len a ascending ↔ 0 ≤ i ∧ i < len ∧ i ≠ a := by
  simp only [visitOrder, List.mem_map, List.mem_range]
  constructor
  · rintro ⟨j, hj, rfl⟩
    exact ⟨(visitPos_mem (by omega) j).1, (visitPos_mem (by omega) j).2, visitPos_ne ha ha' (by omega)⟩
  · rintro ⟨hi, hi', hia⟩
    obtain ⟨j, hj, rfl⟩ := @exists_visitPos _ _ ascending ha ha' _ hi hi' hia
    exact ⟨j, by omega, rfl⟩

section Loop

variable {elapsedSince : Int → String} {search : String} {view : List BuildRow} {a : Int}
  {ascending : Bool}

/-- The loop from the `j`-th visit on, with `n + 1` turns of fuel where `n` visits remain. -/
lemma scan_visitPos (hL : (view.length : Int) < 2 ^ 63) (ha : 0 ≤ a) (ha' : a < view.length) :
    ∀ n j : Nat, j + n + 1 = view.length →
      scan elapsedSince search view a ascending (n + 1) (visitPos view.length a ascending j) =
        .ok (((List.range' j n).map (visitPos view.length a ascending)).find?
          fun i => (view[i.toNat]?).any (rowMatches elapsedSince search))
  | 0, j, hj => by
      rw [visitPos_last ha ha' (by omega)]
      simp [scan]
  | n + 1, j, hj => by
      have hmem := @visitPos_mem view.length a ascending (by omega) j
      have hlt : (visitPos view.length a ascending j).toNat < view.length := by omega
      have hget : view[(visitPos view.length a ascending j).toNat]? =
          some view[(visitPos view.length a ascending j).toNat] := List.getElem?_eq_getElem hlt
      have hnext : modulo (wrapInt (if ascending then visitPos view.length a ascending j + 1
          else visitPos view.length a ascending j - 1)) view.length =
          .ok (visitPos view.length a ascending (j + 1)) := by
        rw [← visitPos_succ, modulo_of_pos (by omega)]
        cases ascending <;> simp only [visitStep_true, visitStep_false, if_true,
          Bool.false_eq_true, if_false] <;> rw [wrapInt_of_mem (by omega) (by omega)]; rfl
      rw [scan, if_neg (visitPos_ne ha ha' (by omega)), List.range'_succ, List.map_cons,
        List.find?_cons, hget, Option.any_some, goIndex_of_mem hmem.1 hlt]
      cases hm : rowMatches elapsedSince search view[(visitPos view.length a ascending j).toNat]
      · simp only [bind, Except.bind, hm, Bool.false_eq_true, if_false, hnext]
        exact scan_visitPos hL ha ha' n (j + 1) (by omega)
      · simp only [bind, Except.bind, hm, if_true]

/-- **The loop of `NextMatch`.** Started at the first visit with as much fuel as the view has
rows, the loop returns the first visited match, or nothing after `len - 1` visits: it never
runs out. -/
lemma scan_eq_firstMatch (hL : (view.length : Int) < 2 ^ 63) (ha : 0 ≤ a) (ha' : a < view.length) :
    scan elapsedSince search view a ascending view.length (visitPos view.length a ascending 0) =
      .ok (firstMatch elapsedSince search view a ascending) := by
  have h := @scan_visitPos elapsedSince search view a ascending
    hL ha ha' (view.length - 1) 0 (by omega)
  rw [show view.length - 1 + 1 = view.length by omega] at h
  rwa [firstMatch, visitOrder, List.range_eq_range']

end Loop

/-- The start of the loop is the first visit. -/
lemma modulo_start {len : Nat} {a : Int} {ascending : Bool} (hL : (len : Int) < 2 ^ 63)
    (ha : 0 ≤ a) (ha' : a < len) :
    modulo (wrapInt (if ascending then a + 1 else a - 1)) len = .ok (visitPos len a ascending 0) := by
  rw [modulo_of_pos (by omega)]
  cases ascending <;> simp only [visitPos, visitStep_true, visitStep_false, if_true,
    Bool.false_eq_true, if_false] <;> rw [wrapInt_of_mem (by omega) (by omega)] <;> norm_num; rfl

/-- **`NextMatch` as a search.** When the active key reads as a position of the view, `NextMatch`
returns no match when `firstMatch` finds none, and otherwise calls `Select` on the row it finds
with the window `nextWindow` computes. -/
lemma nextMatch_eq {s : RepositoryBuilds} {elapsedSince : Int → String}
    {top bottom active : BuildRowKey} {search : String} {ascending : Bool}
    (hL : (s.dfsTraversal.length : Int) < 2 ^ 63) (ha : 0 ≤ (s.dfsIndex active).getD 0)
    (ha' : (s.dfsIndex active).getD 0 < s.dfsTraversal.length) :
    s.nextMatch elapsedSince top bottom active search ascending =
      (match firstMatch elapsedSince search s.dfsTraversal ((s.dfsIndex active).getD 0) ascending with
      | none => .ok (s, ⟨[], 0, some .noMatchFound⟩)
      | some i => do
          let row ← goIndex s.dfsTraversal i
          let w := nextWindow ((s.dfsIndex top).getD 0) ((s.dfsIndex bottom).getD 0)
            ((s.dfsIndex active).getD 0) i
          s.select row.key (wrapInt (i - w.1)) (wrapInt (w.2 - i))) := by
  simp only [RepositoryBuilds.nextMatch, bind, Except.bind, modulo_start hL ha ha',
    scan_eq_firstMatch hL ha ha']

/-! ### The window at a match -/

/-- The window that shows a match at position `i` for a viewport from `t` to `b`: unchanged when
it shows the match, else moved just enough to show it, keeping its size. -/
def searchWindow (t b i : Int) : Int × Int :=
  if t ≤ i ∧ i ≤ b then (t, b) else if b < i then (i - (b - t), i) else (i, i + (b - t))

/-- For a viewport within the view and a match in it, the window lies within the view, shows
the match, and keeps the viewport's size. -/
lemma searchWindow_fits {t b i len : Int} (ht : 0 ≤ t) (htb : t ≤ b) (hb : b < len) (hi : 0 ≤ i)
    (hi' : i < len) :
    0 ≤ (searchWindow t b i).1 ∧ (searchWindow t b i).1 ≤ i ∧ i ≤ (searchWindow t b i).2 ∧
      (searchWindow t b i).2 < len ∧ (searchWindow t b i).2 - (searchWindow t b i).1 = b - t := by
  unfold searchWindow
  split_ifs <;> dsimp only <;> omega

/-- **The window.** For a top at or before the active row and a bottom at or after it, all in
the view, the window `NextMatch` computes at a match elsewhere is `searchWindow`. -/
lemma nextWindow_eq_searchWindow {t b a i len : Int} (ht : 0 ≤ t) (hta : t ≤ a) (hab : a ≤ b)
    (hb : b < len) (hi : 0 ≤ i) (hi' : i < len) (hL : len < 2 ^ 63) :
    nextWindow t b a i = searchWindow t b i := by
  have hrows : wrapInt (wrapInt (b - t) + 1) = b - t + 1 := by
    rw [wrapInt_of_mem (x := b - t) (by omega) (by omega), wrapInt_of_mem (by omega) (by omega)]
  simp only [nextWindow, searchWindow, hrows, maxInt_eq, minInt_eq]
  split_ifs <;>
  first
  | (rw [wrapInt_of_mem (x := max b i - (b - t + 1)) (by omega) (by omega),
      wrapInt_of_mem (by omega) (by omega)]; ext <;> simp <;> omega)
  | (rw [wrapInt_of_mem (x := min t i + (b - t + 1)) (by omega) (by omega),
      wrapInt_of_mem (by omega) (by omega)]; ext <;> simp <;> omega)

end Citop.Rows

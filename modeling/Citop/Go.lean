import Mathlib.Data.List.AList
import Mathlib.Data.List.Infix
import Mathlib.Data.List.Sort
import Mathlib.Tactic.Ring
import Mathlib.Tactic.Linarith

/-!
The pieces of Go that the `cache` package leans on, and the helpers of its `utils` package
that the sources call but do not contain.

* `Fault`: the run-time panics a call can end in (an integer division by zero, an index or a
  `make` length out of range, an assignment to a nil map, a nil dereference), the fatal error of
  a map read while another goroutine writes it, and a loop that never exits.
* `GoError`: the `error` values the package returns, its sentinels kept apart from the
  messages built by `errors.New` and `fmt.Errorf`.
* `wrapInt`: Go's `int` arithmetic, two's complement on 64 bits; `wrapInt_of_mem` says it is
  the identity on the range of `int`.
* `modulo`, `maxInt`, `minInt`, `bounded`, `coalesce`: `utils.Modulo`, `utils.MaxInt`,
  `utils.MinInt`, `utils.Bounded` and `utils.Coalesce`. `modulo_of_pos` reduces the first to
  `Int.emod`, and `bounded_eq` says the clamp is the identity inside the bounds.
* `contains`: `strings.Contains`.
-/

namespace Citop

/-- How a Go call can fail to return: a run-time panic, the runtime's fatal error on a map read
during a write of another goroutine, or a loop that never exits. -/
inductive Fault where
  | integerDivideByZero
  | indexOutOfRange
  | makesliceLenOutOfRange
  | assignmentToNilMap
  | nilPointerDereference
  | concurrentMapReadAndMapWrite
  | loopNeverExits
  deriving DecidableEq, Repr

/-- An `error` value. The sentinels `ErrRepositoryNotFound`, `ErrIncompleteLog` and
`ErrNoMatchFound` are compared by identity, so they are kept apart from the errors made by
`errors.New` and `fmt.Errorf`, which carry only their text. -/
inductive GoError where
  | repositoryNotFound
  | incompleteLog
  | noMatchFound
  | new (text : String)
  deriving DecidableEq, Repr

/-- The text of an error, `err.Error()`. -/
def GoError.error : GoError → String
  | .repositoryNotFound => "repository not found"
  | .incompleteLog => "log not complete"
  | .noMatchFound => "no match found"
  | .new text => text

/-- `sql.NullTime` and `utils.NullTime`: a time, in nanoseconds, and whether it is set. -/
structure NullTime where
  time : Int := 0
  valid : Bool := false
  deriving DecidableEq, Repr

/-- `utils.NullDuration`. -/
structure NullDuration where
  duration : Int := 0
  valid : Bool := false
  deriving DecidableEq, Repr

/-- `utils.NullString`. -/
structure NullString where
  string : String := ""
  valid : Bool := false
  deriving DecidableEq, Repr

/-- A non-nil Go map `map[K]V`: its entries in iteration order, each key once. -/
abbrev GoMap (K V : Type) [DecidableEq K] := AList (fun _ : K => V)

/-- The map with every value passed through `f`, keys and order kept. -/
def GoMap.mapValues {K V W : Type} [DecidableEq K] (f : V → W) (m : GoMap K V) : GoMap K W :=
  ⟨m.entries.map fun e => ⟨e.1, f e.2⟩, by
    simpa [List.NodupKeys, List.keys, Function.comp_def] using m.nodupKeys⟩

@[simp] lemma GoMap.lookup_mapValues {K V W : Type} [DecidableEq K] (f : V → W) (m : GoMap K V)
    (k : K) : (m.mapValues f).lookup k = (m.lookup k).map f :=
  List.dlookup_map₂ (f := fun _ => f) k

/-- A mapped result is a result of the computation mapped. -/
lemma except_map_eq_ok {ε α β : Type} {f : α → β} {x : Except ε α} {b : β} :
    x.map f = .ok b ↔ ∃ a, x = .ok a ∧ f a = b := by
  cases x <;> simp [Except.map]

/-! ### Integers -/

/-- Go's `int`: the result of an operation, wrapped to 64-bit two's complement. -/
def wrapInt (x : Int) : Int := (x + 2 ^ 63) % 2 ^ 64 - 2 ^ 63

/-- On the range of `int` the wrap is the identity. -/
lemma wrapInt_of_mem {x : Int} (h1 : -2 ^ 63 ≤ x) (h2 : x < 2 ^ 63) : wrapInt x = x := by
  rw [wrapInt, Int.emod_eq_of_lt (by omega) (by omega)]
  ring

/-- Modelled from the spec: `utils.Modulo(a, b)`, the position `a` wrapped around a circle of
`b` positions: Go's truncated remainder `a % b`, moved into `[0, b)` when it is negative.
A zero `b` is a division by zero, which Go reports as a run-time panic. -/
def modulo (a b : Int) : Except Fault Int :=
  if b = 0 then .error .integerDivideByZero
  else
    let r := a.tmod b
    .ok (if r < 0 then r + b else r)

/-- Go's remainder by a positive `b` lies strictly between `-b` and `b`. -/
lemma tmod_mem {a b : Int} (hb : 0 < b) : -b < a.tmod b ∧ a.tmod b < b := by
  rcases le_or_lt 0 a with ha | ha
  · exact ⟨by linarith [Int.tmod_nonneg b ha], Int.tmod_lt_of_pos a hb⟩
  · have h1 := Int.tmod_def a b
    have h2 := Int.tmod_def (-a) b
    rw [Int.neg_tdiv] at h2
    have h3 := Int.tmod_lt_of_pos (-a) hb
    have h4 := Int.tmod_nonneg b (show 0 ≤ -a by omega)
    constructor <;> linarith

/-- For a positive length the helper is the Euclidean remainder. -/
lemma modulo_of_pos {a b : Int} (hb : 0 < b) : modulo a b = .ok (a % b) := by
  have hmod : a % b = a.tmod b % b := by
    conv_lhs => rw [← Int.tmod_add_tdiv a b]
    exact Int.add_mul_emod_self_left _ _ _
  obtain ⟨h1, h2⟩ := tmod_mem (a := a) hb
  simp only [modulo, if_neg hb.ne', Except.ok.injEq]
  split_ifs with h
  · rw [hmod, ← Int.add_emod_self, Int.emod_eq_of_lt (by omega) (by omega)]
  · rw [hmod, Int.emod_eq_of_lt (by omega) h2]

/-- Modelled from the spec: `utils.MaxInt`, the larger of two `int`s. -/
def maxInt (a b : Int) : Int := if a > b then a else b

/-- Modelled from the spec: `utils.MinInt`, the smaller of two `int`s. -/
def minInt (a b : Int) : Int := if a < b then a else b

/-- Modelled from the spec: `utils.Bounded(a, lower, upper)`, `a` clamped to `[lower, upper]`. -/
def bounded (a lower upper : Int) : Int := maxInt lower (minInt a upper)

@[simp] lemma maxInt_eq (a b : Int) : maxInt a b = max a b := by
  simp only [maxInt, max_def]; split_ifs <;> omega

@[simp] lemma minInt_eq (a b : Int) : minInt a b = min a b := by
  simp only [minInt, min_def]; split_ifs <;> omega

lemma bounded_eq {a lower upper : Int} (h1 : lower ≤ a) (h2 : a ≤ upper) :
    bounded a lower upper = a := by
  simp only [bounded, maxInt_eq, minInt_eq]; omega

/-- Below the upper bound, the clamp only raises to the lower one. -/
lemma bounded_of_le_upper {a lower upper : Int} (h : a ≤ upper) :
    bounded a lower upper = max lower a := by
  simp only [bounded, maxInt_eq, minInt_eq, min_eq_left h]

/-- Above the lower bound, the clamp only lowers to the upper one, when the bounds are in
order. -/
lemma bounded_of_ge_lower {a lower upper : Int} (h : lower ≤ a) (hlu : lower ≤ upper) :
    bounded a lower upper = min a upper := by
  simp only [bounded, maxInt_eq, minInt_eq]; exact max_eq_right (le_min h hlu)

/-- Modelled from the spec: `utils.Coalesce`, the first time that is set, or the unset time. -/
def coalesce : List NullTime → NullTime
  | [] => {}
  | t :: ts => if t.valid then t else coalesce ts

/-! ### Strings and slices -/

/-- `strings.Contains(s, substr)`. On valid UTF-8 a byte substring is a substring of the
characters, so the model compares characters. -/
def contains (s substr : String) : Bool := decide (substr.data <:+: s.data)

/-- `xs[i]` on a slice: a panic when `i` is out of range. -/
def goIndex {α : Type} (xs : List α) (i : Int) : Except Fault α :=
  if h : 0 ≤ i ∧ i.toNat < xs.length then .ok (xs.get ⟨i.toNat, h.2⟩) else .error .indexOutOfRange

lemma goIndex_of_lt {α : Type} {xs : List α} {i : Nat} (h : i < xs.length) :
    goIndex xs i = .ok (xs.get ⟨i, h⟩) := by
  simp [goIndex, h, Int.natCast_nonneg]

lemma goIndex_of_mem {α : Type} {xs : List α} {i : Int} (h0 : 0 ≤ i) (h : i.toNat < xs.length) :
    goIndex xs i = .ok xs[i.toNat] := by
  simp [goIndex, h, h0]

end Citop

import Citop.Go

/-!
Build states and their aggregation: `State`, `statePrecedence` and `AggregateStatuses` of the
`cache` package.

* `aggregateStatuses` is the loop of `AggregateStatuses`: the state starts as the status of
  the first child, and every child that is not `Skipped` (allowed to fail, and canceled or
  failed) replaces it when its precedence is higher.
* `aggregateStatuses_running_dominates`: a running child decides the aggregate when no child
  is `Unknown`, in every order.
* `aggregateStatuses_skipped_first_canceled`: the first child seeds the loop without the skip
  test, so an allowed-to-fail canceled child in first position decides the aggregate over
  children that passed, and the aggregate depends on the order of the children.
-/

namespace Citop

/-- `type State string`. -/
structure State where
  val : String
  deriving DecidableEq, Repr

namespace State

def unknown : State := ⟨""⟩
def pending : State := ⟨"pending"⟩
def running : State := ⟨"running"⟩
def passed : State := ⟨"passed"⟩
def failed : State := ⟨"failed"⟩
def canceled : State := ⟨"canceled"⟩
def manual : State := ⟨"manual"⟩
def skipped : State := ⟨"skipped"⟩

/-- `State.IsActive`. -/
def IsActive (s : State) : Bool := s == pending || s == running

/-- The eight states the package declares. -/
def declared : List State := [unknown, pending, running, passed, failed, canceled, manual, skipped]

end State

/-- The map literal `statePrecedence`; a state missing from it reads as `0`. -/
def statePrecedence (s : State) : Int :=
  ([(State.unknown, 80), (State.running, 70), (State.pending, 60), (State.canceled, 50),
    (State.failed, 40), (State.passed, 30), (State.skipped, 20), (State.manual, 10)].lookup s).getD 0

/-- On the declared states the precedence is one-to-one, so it decides the state. -/
lemma eq_of_statePrecedence_eq {s t : State} (hs : s ∈ State.declared) (ht : t ∈ State.declared)
    (h : statePrecedence s = statePrecedence t) : s = t := by
  simp only [State.declared, List.mem_cons, List.mem_nil_iff, or_false] at hs ht
  rcases hs with rfl | rfl | rfl | rfl | rfl | rfl | rfl | rfl <;>
    rcases ht with rfl | rfl | rfl | rfl | rfl | rfl | rfl | rfl <;> first | rfl | cases h

/-- A state with a precedence is a declared one. -/
lemma mem_declared_of_statePrecedence_ne_zero {s : State} (h : statePrecedence s ≠ 0) :
    s ∈ State.declared := by
  by_contra hs
  simp only [State.declared, List.mem_cons, List.mem_nil_iff, or_false, not_or] at hs
  obtain ⟨h1, h2, h3, h4, h5, h6, h7, h8⟩ := hs
  simp [statePrecedence, List.lookup_cons, List.lookup_nil, beq_false_of_ne, *] at h

/-- `Running` is the one state with its precedence. -/
lemma eq_running_of_statePrecedence {s : State} (h : statePrecedence s = statePrecedence .running) :
    s = .running :=
  eq_of_statePrecedence_eq (mem_declared_of_statePrecedence_ne_zero (by rw [h]; decide))
    (by decide) h

/-- Only `Unknown` ranks above `Running`. -/
lemma statePrecedence_le_running {s : State} (h : s ≠ .unknown) :
    statePrecedence s ≤ statePrecedence .running := by
  rw [show statePrecedence .running = 70 from rfl, statePrecedence]
  simp only [List.lookup_cons, List.lookup_nil, beq_false_of_ne h]
  repeat' split
  all_goals decide

/-- A `Statuser`: what its two methods `Status()` and `AllowedFailure()` return. A `Build`
is never allowed to fail; a `Job` is when its `AllowFailure` is set. -/
structure Statuser where
  status : State
  allowedFailure : Bool
  deriving DecidableEq, Repr

/-- A child the aggregation leaves out: allowed to fail, and canceled or failed. -/
def Statuser.Skipped (s : Statuser) : Bool :=
  s.allowedFailure && (s.status == .canceled || s.status == .failed)

/-- One pass of the loop of `AggregateStatuses`. -/
def aggregateStep (state : State) (s : Statuser) : State :=
  if !s.allowedFailure || (s.status != .canceled && s.status != .failed) then
    if statePrecedence s.status > statePrecedence state then s.status else state
  else state

/-- `AggregateStatuses`: `Unknown` for no children, otherwise the loop over all children
started from the status of the first one. -/
def aggregateStatuses : List Statuser → State
  | [] => .unknown
  | s₀ :: ss => (s₀ :: ss).foldl aggregateStep s₀.status

lemma aggregateStep_of_not_skipped {state : State} {s : Statuser} (h : s.Skipped = false) :
    aggregateStep state s =
      if statePrecedence s.status > statePrecedence state then s.status else state := by
  revert h
  simp only [Statuser.Skipped, aggregateStep]
  cases s.allowedFailure <;> by_cases h1 : s.status = .canceled <;>
    by_cases h2 : s.status = .failed <;> simp [h1, h2]

/-- From a state no higher than `Running`, over children no higher than it, the loop ends at
`Running` once it holds it or meets a child that is running. -/
lemma foldl_aggregateStep_running (init : State) (ss : List Statuser)
    (hinit : statePrecedence init ≤ statePrecedence .running)
    (hle : ∀ s ∈ ss, statePrecedence s.status ≤ statePrecedence .running)
    (hrun : init = .running ∨ ∃ s ∈ ss, s.status = .running) :
    ss.foldl aggregateStep init = .running := by
  induction ss generalizing init with
  | nil => simpa using hrun
  | cons s ss ih =>
      rw [List.foldl_cons]
      have hs := hle s (List.mem_cons_self _ _)
      have hnext : statePrecedence (aggregateStep init s) ≤ statePrecedence .running := by
        unfold aggregateStep; split_ifs <;> assumption
      refine ih _ hnext (fun t ht => hle t (List.mem_cons_of_mem _ ht)) ?_
      rcases hrun with rfl | ⟨t, ht, htr⟩
      · left
        unfold aggregateStep
        split_ifs <;> first | rfl | omega
      · rcases List.mem_cons.mp ht with rfl | ht
        · left
          have hkept : t.Skipped = false := by
            simp [Statuser.Skipped, htr, show State.running ≠ .canceled by decide,
              show State.running ≠ .failed by decide]
          rw [aggregateStep_of_not_skipped hkept, htr]
          split_ifs with hp
          · rfl
          · exact eq_running_of_statePrecedence (le_antisymm hinit (not_lt.mp hp))
        · exact .inr ⟨t, ht, htr⟩

/-- **A running child decides the aggregate.** When some child is running and none is
`Unknown`, the aggregate is `Running`, whatever the order of the children and whichever of them
are allowed to fail: the first child's missing skip test does not matter here. -/
theorem aggregateStatuses_running_dominates (ss : List Statuser)
    (hrun : ∃ s ∈ ss, s.status = .running) (hnu : ∀ s ∈ ss, s.status ≠ .unknown) :
    aggregateStatuses ss = .running := by
  cases ss with
  | nil => obtain ⟨_, h, _⟩ := hrun; cases h
  | cons s₀ ss =>
      exact foldl_aggregateStep_running _ _ (statePrecedence_le_running (hnu s₀ (List.mem_cons_self _ _)))
        (fun s hs => statePrecedence_le_running (hnu s hs)) (.inr hrun)

/-- An allowed-to-fail failed job in front of a running job and a passed one. -/
theorem aggregateStatuses_running_dominates_failed_first :
    (∃ s ∈ [⟨.failed, true⟩, ⟨.running, false⟩, ⟨.passed, false⟩], Statuser.status s = .running) ∧
      (∀ s ∈ [⟨.failed, true⟩, ⟨.running, false⟩, ⟨.passed, false⟩], Statuser.status s ≠ .unknown) ∧
      aggregateStatuses [⟨.failed, true⟩, ⟨.running, false⟩, ⟨.passed, false⟩] = .running :=
  have hrun : ∃ s ∈ [⟨.failed, true⟩, ⟨.running, false⟩, ⟨.passed, false⟩],
      Statuser.status s = .running := ⟨⟨.running, false⟩, by decide, rfl⟩
  have hnu : ∀ s ∈ [⟨.failed, true⟩, ⟨.running, false⟩, ⟨.passed, false⟩],
      Statuser.status s ≠ .unknown := by decide
  ⟨hrun, hnu, aggregateStatuses_running_dominates _ hrun hnu⟩

/-- The first child seeds the loop without the skip test: an allowed-to-fail canceled child
in front of a child that passed makes the aggregate canceled, and the same two children in
the other order aggregate to passed. -/
theorem aggregateStatuses_skipped_first_canceled :
    aggregateStatuses [⟨.canceled, true⟩, ⟨.passed, false⟩] = .canceled ∧
      aggregateStatuses [⟨.passed, false⟩, ⟨.canceled, true⟩] = .passed := by
  decide

end Citop

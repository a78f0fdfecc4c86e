import Mathlib.Logic.Relation
import Citop.Cache.Store

/-!
`Cache.UpdateFromProviders`: a producer and a consumer goroutine per provider, and the collector
that reads `errc`.

Each producer sends the builds its provider's `Builds` call streams on an unbuffered channel, then
sends what the call returned on `errc` and closes the channel. Its consumer saves each build it
receives; on the first `Save` that fails it sends the error on `errc` and returns. The collector
ignores `nil`, counts `ErrRepositoryNotFound` (the count reaching the number of providers makes
that the result), and keeps the first other error. `errc` is unbuffered, so a send on it is the
collector's receive, one step. What each `Builds` call streams and returns, and how long it takes,
is the environment's: a run fixes it as a `ProviderRun`, and every order of the goroutines' steps
is a run.

* `Collector.receive`, `Collector.Inv`: the collector's result is `ErrRepositoryNotFound` once as
  many of them have arrived as there are providers, else the first other error.
* `UpdateState.step`: the steps of the goroutines, the `Save` calls included.
* `UpdateState.Inv`, `UpdateState.Inv.step`: what every reachable state satisfies: each stream
  is what was saved, what is in hand and what is still to send; the messages received and still
  owed are the results sent and the errors of the failed `Save` calls.
* `updateFromProviders_saves_in_order`: each consumer passes its provider's builds to `Save` in
  the order streamed, each once, and all of them in a completed run.
* `updateFromProviders_result`: what every completed run returns.
* `updateFromProviders_completes`: when each provider stops streaming at the first build `Save`
  refuses, no run gets stuck (`Inv.progress`) and every step lowers `work` (`step_work`), so
  every run completes.
* `updateFromProviders_cache` (`UpdateState.CacheInv`): a run writes the cache only under the keys
  of the builds `Save` stored, and each of them is then in the cache; in a completed run they are
  the keys of every streamed build with a repository; and a sound cache stays sound.
* `updateFromProviders_cache_determined`: when the streamed builds that share a key are equal,
  every completed run leaves the same cache, whatever the order of the `Save` calls.
-/

namespace Citop

/-! ### The collector -/

/-- The collector's variables, with the values received on `errc` so far, in order. -/
structure Collector where
  err : Option GoError
  notFound : Nat
  received : List (Option GoError)

/-- One iteration of `for e := range errc`, with `providers = len(c.providers)`. -/
def Collector.receive (providers : Nat) (c : Collector) (m : Option GoError) : Collector :=
  let received := c.received ++ [m]
  match m with
  | none => { c with received }
  | some e =>
      if e = .repositoryNotFound then
        { err := if c.notFound + 1 = providers then some .repositoryNotFound else c.err,
          notFound := c.notFound + 1, received }
      else { c with err := if c.err = none then some e else c.err, received }

/-- The first value received that is neither `nil` nor `ErrRepositoryNotFound`. -/
def firstOther (ms : List (Option GoError)) : Option GoError :=
  ms.findSome? fun m => m.filter fun e => e != .repositoryNotFound

lemma firstOther_append_singleton (ms : List (Option GoError)) (m : Option GoError) :
    firstOther (ms ++ [m]) = (firstOther ms).or (m.filter fun e => e != .repositoryNotFound) := by
  simp only [firstOther, List.findSome?_append]
  cases h : m.filter fun e => e != .repositoryNotFound <;> simp [List.findSome?, h]

lemma firstOther_ne_notFound (ms : List (Option GoError)) :
    firstOther ms ≠ some .repositoryNotFound := by
  intro h
  obtain ⟨m, -, hm⟩ := List.exists_of_findSome?_eq_some h
  cases m <;> simp_all [Option.filter]

lemma firstOther_eq_none (ms : List (Option GoError)) :
    firstOther ms = none ↔ ∀ m ∈ ms, m = none ∨ m = some .repositoryNotFound := by
  simp only [firstOther, List.findSome?_eq_none_iff]
  refine forall₂_congr fun m _ => ?_
  cases m <;> simp [Option.filter]

/-- The collector's variables, by what it has received: `notFound` counts
`ErrRepositoryNotFound`, and `err` is that error once the count reaches the number of providers,
else the first other error. -/
structure Collector.Inv (providers : Nat) (c : Collector) : Prop where
  notFound_eq : c.notFound = c.received.count (some .repositoryNotFound)
  err_eq : c.err = if providers ≤ c.notFound then some .repositoryNotFound else firstOther c.received

/-- Before the first value, with at least one provider. -/
lemma collector_inv_start {providers : Nat} (h : 1 ≤ providers) :
    Collector.Inv providers ⟨none, 0, []⟩ :=
  ⟨rfl, by simp [firstOther, show ¬providers ≤ 0 by omega]⟩

lemma Collector.Inv.receive {providers : Nat} {c : Collector} (hc : c.Inv providers)
    (m : Option GoError) : (c.receive providers m).Inv providers := by
  obtain ⟨hnf, herr⟩ := hc
  rcases m with _ | e
  · exact ⟨by simp [Collector.receive, hnf], by simp [Collector.receive, herr, firstOther_append_singleton]⟩
  by_cases he : e = .repositoryNotFound
  · subst he
    refine ⟨by simp [Collector.receive, hnf], ?_⟩
    simp only [Collector.receive, if_true, firstOther_append_singleton, herr]
    by_cases hp : providers ≤ c.notFound
    · simp [hp, show c.notFound + 1 ≠ providers by omega, show providers ≤ c.notFound + 1 by omega]
    · by_cases hp' : c.notFound + 1 = providers
      · simp [hp, hp']
      · simp [hp, hp', show ¬providers ≤ c.notFound + 1 by omega, Option.filter]
  · refine ⟨by simp [Collector.receive, he, hnf, Ne.symm he], ?_⟩
    simp only [Collector.receive, he, if_false, firstOther_append_singleton, herr]
    by_cases hp : providers ≤ c.notFound
    · simp [hp]
    · cases firstOther c.received <;> simp [hp, he, Option.filter]

/-! ### The goroutines -/

/-- What one provider's `Builds` call does in a run: the builds it sends, then what it returns. -/
structure ProviderRun where
  builds : List Build
  result : Option GoError

/-- The producer of a provider: streaming its builds, then about to send its result on `errc`;
or done, the result sent and the channel closed. -/
inductive ProducerPc where
  | sending (builds : List Build) (result : Option GoError)
  | closed (result : Option GoError)

/-- The consumer of a provider: waiting for a build, saving one, about to send the error of a
failed `Save`, returned after sending it, or returned because the channel was closed. -/
inductive WorkerPc where
  | receiving
  | saving (build : Build)
  | reporting (err : GoError)
  | failed
  | finished

/-- The two goroutines of one provider, with the builds the consumer has passed to `Save` so
far, in order. -/
structure Slot where
  producer : ProducerPc
  worker : WorkerPc
  saved : List Build

/-- What the provider's `Builds` call returns. -/
def ProducerPc.result : ProducerPc → Option GoError
  | .sending _ r => r
  | .closed r => r

/-- What the producer has sent on `errc`. -/
def ProducerPc.sent : ProducerPc → List (Option GoError)
  | .sending _ _ => []
  | .closed r => [r]

/-- What the consumer is about to send on `errc`. -/
def WorkerPc.owed : WorkerPc → List (Option GoError)
  | .reporting e => [some e]
  | _ => []

/-- The builds the producer has still to send. -/
def ProducerPc.rest : ProducerPc → List Build
  | .sending bs _ => bs
  | .closed _ => []

/-- The build the consumer has received and not yet passed to `Save`. -/
def WorkerPc.inHand : WorkerPc → List Build
  | .saving b => [b]
  | _ => []

/-- The builds of the provider's stream, by where they are: saved, in the consumer's hands, or
still to send. -/
def Slot.streamed (sl : Slot) : List Build := sl.saved ++ sl.worker.inHand ++ sl.producer.rest

/-- The consumer has been stopped by a failed `Save`. -/
def WorkerPc.stopped : WorkerPc → Bool
  | .reporting _ | .failed => true
  | _ => false

/-- The consumer has returned. -/
def WorkerPc.returned : WorkerPc → Bool
  | .failed | .finished => true
  | _ => false

/-- The producer has returned. -/
def ProducerPc.isClosed : ProducerPc → Bool
  | .closed _ => true
  | _ => false

/-- What holds of each provider's goroutines: a consumer that saw the channel close has a closed
producer, and a consumer stopped by a failed `Save` last passed it a build with no repository. -/
structure Slot.Ok (sl : Slot) : Prop where
  finished : sl.worker = .finished → sl.producer.isClosed = true
  stopped : sl.worker.stopped = true → ∃ b, sl.saved.getLast? = some b ∧ b.repository = none

/-- The state of an `UpdateFromProviders` call: the cache, the goroutines of each provider, the
collector, and the errors of the failed `Save` calls so far. -/
structure UpdateState where
  cache : Cache
  slots : List Slot
  collector : Collector
  saveErrors : List GoError

/-- The state when the goroutines start, one producer and one consumer per provider. -/
def UpdateState.init (c : Cache) (runs : List ProviderRun) : UpdateState :=
  ⟨c, runs.map fun r => ⟨.sending r.builds r.result, .receiving, []⟩, ⟨none, 0, []⟩, []⟩

/-- A step of the goroutines of provider `i`. -/
inductive UpdateAction where
  | stream (i : Nat)
  | save (i : Nat)
  | sendResult (i : Nat)
  | report (i : Nat)
  | finish (i : Nat)

/-- One step; `none` when the goroutine cannot take it, or when `Save` panics, which ends the
program. -/
def UpdateState.step (providers : Nat) (s : UpdateState) : UpdateAction → Option UpdateState
  | .stream i =>
      match s.slots[i]? with
      | some ⟨.sending (b :: bs) r, .receiving, saved⟩ =>
          some { s with slots := s.slots.set i ⟨.sending bs r, .saving b, saved⟩ }
      | _ => none
  | .save i =>
      match s.slots[i]? with
      | some ⟨p, .saving b, saved⟩ =>
          match s.cache.save b with
          | .ok (c, none) =>
              some { s with cache := c, slots := s.slots.set i ⟨p, .receiving, saved ++ [b]⟩ }
          | .ok (c, some e) =>
              some { s with
                cache := c
                slots := s.slots.set i ⟨p, .reporting e, saved ++ [b]⟩
                saveErrors := s.saveErrors ++ [e] }
          | .error _ => none
      | _ => none
  | .sendResult i =>
      match s.slots[i]? with
      | some ⟨.sending [] r, w, saved⟩ =>
          some { s with
            slots := s.slots.set i ⟨.closed r, w, saved⟩
            collector := s.collector.receive providers r }
      | _ => none
  | .report i =>
      match s.slots[i]? with
      | some ⟨p, .reporting e, saved⟩ =>
          some { s with
            slots := s.slots.set i ⟨p, .failed, saved⟩
            collector := s.collector.receive providers (some e) }
      | _ => none
  | .finish i =>
      match s.slots[i]? with
      | some ⟨.closed r, .receiving, saved⟩ =>
          some { s with slots := s.slots.set i ⟨.closed r, .finished, saved⟩ }
      | _ => none

@[simp] lemma Collector.received_receive (providers : Nat) (c : Collector) (m : Option GoError) :
    (c.receive providers m).received = c.received ++ [m] := by
  unfold Collector.receive; split <;> (try split) <;> rfl

/-- One transition. -/
def UpdateState.Step (providers : Nat) (s s' : UpdateState) : Prop :=
  ∃ a, s.step providers a = some s'

/-- A sequence of steps. -/
def UpdateState.run (providers : Nat) : UpdateState → List UpdateAction → Option UpdateState
  | s, [] => some s
  | s, a :: as => (s.step providers a).bind (·.run providers as)

/-- Every goroutine has returned, so `errc` is closed and the collector returns `err`. -/
def UpdateState.Completed (s : UpdateState) : Prop :=
  ∀ sl ∈ s.slots, sl.producer.isClosed ∧ sl.worker.returned

instance (s : UpdateState) : Decidable s.Completed :=
  inferInstanceAs (Decidable (∀ sl ∈ s.slots, _))

/-- The steps left to a consumer. -/
def WorkerPc.work : WorkerPc → Nat
  | .receiving => 1
  | .saving _ => 2
  | .reporting _ => 1
  | .failed | .finished => 0

/-- The steps left to a producer: three for each build still to send, one for its result. -/
def ProducerPc.work : ProducerPc → Nat
  | .sending bs _ => 3 * bs.length + 1
  | .closed _ => 0

/-- The steps left to the goroutines of one provider. -/
def Slot.work (sl : Slot) : Nat := sl.producer.work + sl.worker.work

/-- A bound on the steps left to all the goroutines. -/
def UpdateState.work (s : UpdateState) : Nat := (s.slots.map Slot.work).sum

/-- A provider that `Save` never panics on, with no nil stage in a build it streams, and whose
stream stops at the first build `Save` refuses, as one does that stops on the cancellation that
follows: only its last build may have no repository. -/
structure ProviderRun.WellBehaved (r : ProviderRun) : Prop where
  stages : ∀ b ∈ r.builds, b.stages.all (·.entries.all (·.2.isSome)) = true
  stops : ∀ b ∈ r.builds.dropLast, b.repository.isSome = true

lemma UpdateState.run_step {providers : Nat} :
    ∀ {s s' : UpdateState} {as : List UpdateAction}, s.run providers as = some s' →
      Relation.ReflTransGen (UpdateState.Step providers) s s'
  | _, _, [], h => by cases h; exact .refl
  | s, _, a :: as, h => by
      simp only [UpdateState.run, Option.bind_eq_some] at h
      obtain ⟨s₁, h₁, h⟩ := h
      exact .head ⟨a, h₁⟩ (UpdateState.run_step h)

/-! ### Lists of slots -/

section Slots

variable {α β : Type} {l : List α} {i : Nat} {x : α}

/-- Replacing the element at `i` replaces its block in a `flatMap`. -/
lemma count_flatMap_set [DecidableEq β] (h : l[i]? = some x) (y : α) (f : α → List β) (b : β) :
    ((l.set i y).flatMap f).count b + (f x).count b = (l.flatMap f).count b + (f y).count b := by
  induction l generalizing i with
  | nil => simp at h
  | cons a l ih =>
      cases i with
      | zero =>
          obtain rfl : a = x := by simpa using h
          simp only [List.set_cons_zero, List.flatMap_cons, List.count_append]
          omega
      | succ i =>
          have := ih (List.getElem?_cons_succ ▸ h)
          simp only [List.set_cons_succ, List.flatMap_cons, List.count_append]
          omega

lemma map_set_of_eq (h : l[i]? = some x) {y : α} {f : α → β} (hf : f y = f x) :
    (l.set i y).map f = l.map f := by
  induction l generalizing i with
  | nil => simp at h
  | cons a l ih =>
      cases i with
      | zero => obtain rfl : a = x := by simpa using h
                simp [hf]
      | succ i => simpa using ih (List.getElem?_cons_succ ▸ h)

lemma sum_map_set (h : l[i]? = some x) (y : α) (f : α → Nat) :
    ((l.set i y).map f).sum + f x = (l.map f).sum + f y := by
  induction l generalizing i with
  | nil => simp at h
  | cons a l ih =>
      cases i with
      | zero =>
          obtain rfl : a = x := by simpa using h
          simp only [List.set_cons_zero, List.map_cons, List.sum_cons]
          omega
      | succ i =>
          have := ih (List.getElem?_cons_succ ▸ h)
          simp only [List.set_cons_succ, List.map_cons, List.sum_cons]
          omega

/-- Replacing an element by one whose image extends the old one by `bs` extends the joined images
by `bs`, up to order. -/
lemma flatMap_set_perm (h : l[i]? = some x) {y : α} (f : α → List β) {bs : List β}
    (hy : f y = f x ++ bs) : ((l.set i y).flatMap f).Perm (l.flatMap f ++ bs) := by
  induction l generalizing i with
  | nil => simp at h
  | cons a l ih =>
      cases i with
      | zero =>
          obtain rfl : a = x := by simpa using h
          simp only [List.set_cons_zero, List.flatMap_cons, hy, List.append_assoc]
          exact List.Perm.append_left _ List.perm_append_comm
      | succ i =>
          simp only [List.set_cons_succ, List.flatMap_cons, List.append_assoc]
          exact (ih (List.getElem?_cons_succ ▸ h)).append_left _

end Slots

/-! ### The invariant -/

/-- What every reachable state satisfies: the collector's variables are those of what it has
received; every producer still returns what its run says, and every provider's stream is the
builds its consumer saved, then the one in its hands, then those still to send; what the collector
received and what the consumers are about to send are the results sent and the errors of the
failed `Save` calls; and every such error is `Save`'s refusal of a build with no repository. -/
structure UpdateState.Inv (runs : List ProviderRun) (s : UpdateState) : Prop where
  collector : s.collector.Inv runs.length
  results : s.slots.map (·.producer.result) = runs.map (·.result)
  streamed : s.slots.map Slot.streamed = runs.map (·.builds)
  messages : (s.collector.received ++ s.slots.flatMap (·.worker.owed)).Perm
    (s.slots.flatMap (·.producer.sent) ++ s.saveErrors.map some)
  saveErrors : ∀ e ∈ s.saveErrors, e = .new "build.Repository must not be nil"
  slots : ∀ sl ∈ s.slots, sl.Ok

namespace UpdateState

variable {runs : List ProviderRun}

lemma inv_init (c : Cache) (h : 1 ≤ runs.length) : (init c runs).Inv runs where
  collector := collector_inv_start h
  results := by simp [init, ProducerPc.result]
  streamed := by simp [init, Slot.streamed, WorkerPc.inHand, ProducerPc.rest]
  messages := by
    have howed : (init c runs).slots.flatMap (·.worker.owed) = [] :=
      List.flatMap_eq_nil_iff.mpr fun _ hsl => by
        obtain ⟨r, -, rfl⟩ := List.mem_map.mp hsl; rfl
    have hsent : (init c runs).slots.flatMap (·.producer.sent) = [] :=
      List.flatMap_eq_nil_iff.mpr fun _ hsl => by
        obtain ⟨r, -, rfl⟩ := List.mem_map.mp hsl; rfl
    rw [howed, hsent]; rfl
  saveErrors := by simp [init]
  slots := by
    simp only [init, List.mem_map]
    rintro _ ⟨r, -, rfl⟩
    exact ⟨nofun, nofun⟩

/-- A step that replaces slot `i` by `y` keeps the invariant when it keeps the slot's result and
stream, the collector receives `ms` and keeps its invariant, `Save` reports the errors `es`, and
the messages balance: those received and owed by the slot after against those it owed and sent,
and the new errors, before. -/
lemma Inv.set {s : UpdateState} (hs : s.Inv runs) {x y : Slot} (hx : s.slots[i]? = some x)
    (hresult : y.producer.result = x.producer.result) (hstreamed : y.streamed = x.streamed)
    (hy : y.Ok) (c : Cache) {col : Collector} (hcol : col.Inv runs.length) (ms : List (Option GoError))
    (hrec : col.received = s.collector.received ++ ms) {errs : List GoError} (es : List GoError)
    (herrs : errs = s.saveErrors ++ es) (hes : ∀ e ∈ es, e = .new "build.Repository must not be nil")
    (hbal : (ms ++ y.worker.owed ++ x.producer.sent).Perm
      (x.worker.owed ++ y.producer.sent ++ es.map some)) :
    (UpdateState.mk c (s.slots.set i y) col errs).Inv runs := by
  subst herrs
  refine ⟨hcol, (map_set_of_eq hx hresult).trans hs.results,
    (map_set_of_eq hx hstreamed).trans hs.streamed, List.perm_iff_count.mpr fun m => ?_,
    fun e he => (List.mem_append.mp he).elim (hs.saveErrors e) (hes e),
    fun sl hsl => (List.mem_or_eq_of_mem_set hsl).elim (hs.slots sl) fun h => h ▸ hy⟩
  have h₀ := (List.perm_iff_count.mp hs.messages) m
  have h₁ := count_flatMap_set hx y (·.worker.owed) m
  have h₂ := count_flatMap_set hx y (·.producer.sent) m
  have h₃ := (List.perm_iff_count.mp hbal) m
  simp only [hrec, List.count_append, List.map_append] at h₀ h₁ h₂ h₃ ⊢
  omega

/-- Every step keeps the invariant. -/
lemma Inv.step {s s' : UpdateState} (hs : s.Inv runs) {a : UpdateAction}
    (h : s.step runs.length a = some s') : s'.Inv runs := by
  cases a with
  | stream i =>
      simp only [UpdateState.step] at h
      split at h <;> cases h
      rename_i b bs r saved hx
      exact hs.set hx (by rfl) (by simp [Slot.streamed, WorkerPc.inHand, ProducerPc.rest])
        (by exact ⟨nofun, nofun⟩) _ hs.collector [] (List.append_nil _).symm []
        (List.append_nil _).symm (by simp) (by simp [WorkerPc.owed, ProducerPc.sent])
  | save i =>
      simp only [UpdateState.step] at h
      split at h
      · rename_i p b saved hx
        split at h <;> cases h
        · exact hs.set hx (by rfl) (by simp [Slot.streamed, WorkerPc.inHand])
            (by exact ⟨nofun, nofun⟩) _ hs.collector [] (List.append_nil _).symm []
            (List.append_nil _).symm (by simp) (by simp [WorkerPc.owed])
        · rename_i c e hsave
          refine hs.set hx (by rfl) (by simp [Slot.streamed, WorkerPc.inHand])
            (by exact ⟨nofun, fun _ => ⟨b, by simp, (save_error hsave).2.2⟩⟩) _ hs.collector
            [] (List.append_nil _).symm [e] rfl (by simpa using (save_error hsave).2.1) ?_
          simp only [WorkerPc.owed, List.nil_append, List.map_cons, List.map_nil,
            List.singleton_append]
          exact (List.perm_append_singleton _ _).symm
      · cases h
  | sendResult i =>
      simp only [UpdateState.step] at h
      split at h <;> cases h
      rename_i r w saved hx
      refine hs.set hx (by rfl) (by simp [Slot.streamed, ProducerPc.rest])
        (by exact ⟨fun _ => rfl, (hs.slots _ (List.getElem?_mem hx)).stopped⟩) _ (hs.collector.receive r)
        [r] (Collector.received_receive _ _ _) [] (List.append_nil _).symm (by simp) ?_
      simp only [ProducerPc.sent, List.map_nil, List.append_nil, List.singleton_append]
      exact (List.perm_append_singleton _ _).symm
  | report i =>
      simp only [UpdateState.step] at h
      split at h <;> cases h
      rename_i p e saved hx
      exact hs.set hx (by rfl) (by simp [Slot.streamed, WorkerPc.inHand])
        (by exact ⟨nofun, fun _ => (hs.slots _ (List.getElem?_mem hx)).stopped rfl⟩) _
        (hs.collector.receive (some e)) [some e] (Collector.received_receive _ _ _) []
        (List.append_nil _).symm (by simp) (by simp [WorkerPc.owed])
  | finish i =>
      simp only [UpdateState.step] at h
      split at h <;> cases h
      rename_i r saved hx
      exact hs.set hx (by rfl) (by simp [Slot.streamed, WorkerPc.inHand])
        (by exact ⟨fun _ => rfl, nofun⟩) _ hs.collector [] (List.append_nil _).symm []
        (List.append_nil _).symm (by simp) (by simp [WorkerPc.owed, ProducerPc.sent])

/-- Every state a run reaches satisfies the invariant. -/
lemma Inv.reachable {c : Cache} (hn : 1 ≤ runs.length) {s : UpdateState}
    (hr : Relation.ReflTransGen (Step runs.length) (init c runs) s) : s.Inv runs := by
  induction hr with
  | refl => exact inv_init c hn
  | tail _ hst ih => obtain ⟨a, ha⟩ := hst; exact ih.step ha

/-- Once every producer has returned, they have sent exactly their results. -/
lemma flatMap_sent_of_closed :
    ∀ l : List Slot, (∀ sl ∈ l, sl.producer.isClosed) →
      l.flatMap (·.producer.sent) = l.map (·.producer.result)
  | [], _ => rfl
  | ⟨.closed r, _, _⟩ :: l, h => by
      rw [List.flatMap_cons, List.map_cons,
        flatMap_sent_of_closed l fun sl hsl => h sl (List.mem_cons_of_mem _ hsl)]
      rfl
  | ⟨.sending _ _, _, _⟩ :: _, h => by simp [ProducerPc.isClosed] at h

/-- When every goroutine has returned, the collector has received exactly the results of the
`Builds` calls and the errors of the failed `Save` calls. -/
lemma Inv.received_of_completed {s : UpdateState} (hs : s.Inv runs) (hc : s.Completed) :
    s.collector.received.Perm (runs.map (·.result) ++ s.saveErrors.map some) := by
  have howed : s.slots.flatMap (·.worker.owed) = [] :=
    List.flatMap_eq_nil_iff.mpr fun sl hsl => by
      have := (hc sl hsl).2
      cases h : sl.worker <;> simp_all [WorkerPc.owed, WorkerPc.returned]
  have hsent := flatMap_sent_of_closed s.slots fun sl hsl => (hc sl hsl).1
  simpa [howed, hsent, hs.results] using hs.messages

/-- Once every goroutine has returned, the collector has counted one `ErrRepositoryNotFound` per
provider that returned it: a failed `Save` never sends one. -/
lemma Inv.notFound_of_completed {s : UpdateState} (hs : s.Inv runs) (hc : s.Completed) :
    s.collector.notFound = (runs.map (·.result)).count (some .repositoryNotFound) := by
  have hsave : (s.saveErrors.map some).count (some GoError.repositoryNotFound) = 0 :=
    List.count_eq_zero.mpr fun h => by
      obtain ⟨e, he, hee⟩ := List.mem_map.mp h
      cases hee
      exact absurd (hs.saveErrors _ he) (by simp)
  calc s.collector.notFound
      = s.collector.received.count (some .repositoryNotFound) := hs.collector.notFound_eq
    _ = (runs.map (·.result) ++ s.saveErrors.map some).count (some .repositoryNotFound) :=
        (hs.received_of_completed hc).countP_eq _
    _ = (runs.map (·.result)).count (some .repositoryNotFound) := by rw [List.count_append, hsave]; rfl

/-- The count reaches the number of providers exactly when every provider returned
`ErrRepositoryNotFound`. -/
lemma Inv.all_notFound_iff {s : UpdateState} (hs : s.Inv runs) (hc : s.Completed) :
    runs.length ≤ s.collector.notFound ↔
      ∀ r ∈ runs.map (·.result), r = some .repositoryNotFound := by
  rw [hs.notFound_of_completed hc, ← List.count_eq_length.trans
    ⟨fun h r hr => (h r hr).symm, fun h r hr => (h r hr).symm⟩]
  have := List.count_le_length (some GoError.repositoryNotFound) (runs.map (·.result))
  simp only [List.length_map] at this ⊢
  omega

/-- In every run, each consumer has passed to `Save` the first builds of its provider's stream. -/
lemma Inv.saved_prefix {s : UpdateState} (hs : s.Inv runs) {i : Nat} {sl : Slot} {r : ProviderRun}
    (hsl : s.slots[i]? = some sl) (hr : runs[i]? = some r) : sl.saved <+: r.builds := by
  have h := congrArg (·[i]?) hs.streamed
  simp only [List.getElem?_map, hsl, hr, Option.map_some', Option.some.injEq] at h
  exact ⟨sl.worker.inHand ++ sl.producer.rest, by rw [← h, Slot.streamed, List.append_assoc]⟩

/-- Once every goroutine has returned, each consumer has passed to `Save` its provider's whole
stream. -/
lemma Inv.saved_of_completed {s : UpdateState} (hs : s.Inv runs) (hc : s.Completed) :
    s.slots.map (·.saved) = runs.map (·.builds) := by
  rw [← hs.streamed]
  refine List.map_congr_left fun sl hsl => ?_
  obtain ⟨hp, hw⟩ := hc sl hsl
  have hin : sl.worker.inHand = [] := by
    cases h : sl.worker <;> simp_all [WorkerPc.inHand, WorkerPc.returned]
  have hrest : sl.producer.rest = [] := by
    cases h : sl.producer <;> simp_all [ProducerPc.rest, ProducerPc.isClosed]
  simp [Slot.streamed, hin, hrest]

/-! ### Progress -/

lemma work_set {s : UpdateState} {x y : Slot} (hx : s.slots[i]? = some x) (hlt : y.work < x.work)
    (c : Cache) (col : Collector) (errs : List GoError) :
    (UpdateState.mk c (s.slots.set i y) col errs).work < s.work := by
  have := sum_map_set hx y Slot.work
  simp only [UpdateState.work] at this ⊢
  omega

/-- Every step lowers `work`, so no run is longer than the `work` it starts with. -/
lemma step_work {n : Nat} {s s' : UpdateState} {a : UpdateAction} (h : s.step n a = some s') :
    s'.work < s.work := by
  cases a <;> simp only [UpdateState.step] at h
  case stream i =>
    split at h <;> cases h
    rename_i hx
    exact work_set hx (by simp [Slot.work, ProducerPc.work, WorkerPc.work]; omega) _ _ _
  case save i =>
    split at h
    · rename_i hx
      split at h <;> cases h <;> exact work_set hx (by simp [Slot.work, WorkerPc.work]) _ _ _
    · cases h
  case sendResult i =>
    split at h <;> cases h
    rename_i hx
    exact work_set hx (by simp [Slot.work, ProducerPc.work]) _ _ _
  case report i =>
    split at h <;> cases h
    rename_i hx
    exact work_set hx (by simp [Slot.work, WorkerPc.work]) _ _ _
  case finish i =>
    split at h <;> cases h
    rename_i hx
    exact work_set hx (by simp [Slot.work, WorkerPc.work]) _ _ _

/-- A consumer stopped by a failed `Save` of a well-behaved provider has nothing more coming. -/
lemma rest_of_stopped {sl : Slot} {r : ProviderRun} (hok : sl.Ok) (hw : r.WellBehaved)
    (hstream : sl.streamed = r.builds) (hst : sl.worker.stopped = true) (hin : sl.worker.inHand = []) :
    sl.producer.rest = [] := by
  obtain ⟨b, hb, hnone⟩ := hok.stopped hst
  by_contra hne
  obtain ⟨ys, hys⟩ := List.getLast?_eq_some_iff.mp hb
  have hmem : b ∈ r.builds.dropLast := by
    rw [← hstream, Slot.streamed, hin, List.append_nil, hys, List.dropLast_append_of_ne_nil _ hne]
    simp
  simpa [hnone] using hw.stops b hmem

/-- **No deadlock.** With well-behaved providers, a state that is not completed has a step. -/
lemma Inv.progress {s : UpdateState} (hs : s.Inv runs) (hw : ∀ r ∈ runs, r.WellBehaved)
    (hc : ¬s.Completed) : ∃ a s', s.step runs.length a = some s' := by
  simp only [Completed, not_forall, Bool.and_eq_true, not_and] at hc
  obtain ⟨sl, hsl, hnot⟩ := hc
  obtain ⟨i, hi⟩ := List.mem_iff_getElem?.mp hsl
  have h := congrArg (·[i]?) hs.streamed
  simp only [List.getElem?_map, hi, Option.map_some'] at h
  obtain ⟨r, hr, hstream⟩ : ∃ r, runs[i]? = some r ∧ sl.streamed = r.builds := by
    cases hr : runs[i]? with
    | none => simp [hr] at h
    | some r => exact ⟨r, rfl, by simpa [hr] using h⟩
  have hwr := hw r (List.getElem?_mem hr)
  have hok := hs.slots sl hsl
  obtain ⟨p, w, saved⟩ := sl
  cases w with
  | saving b =>
      obtain ⟨c', e, he⟩ := save_ok_of_stages
        (hwr.stages b (hstream ▸ by simp [Slot.streamed, WorkerPc.inHand])) s.cache
      cases e <;> exact ⟨.save i, by simp [UpdateState.step, hi, he]⟩
  | reporting e => exact ⟨.report i, by simp [UpdateState.step, hi]⟩
  | receiving =>
      rcases p with (_ | ⟨b, bs⟩) | res
      · exact ⟨.sendResult i, by simp [UpdateState.step, hi]⟩
      · exact ⟨.stream i, by simp [UpdateState.step, hi]⟩
      · exact ⟨.finish i, by simp [UpdateState.step, hi]⟩
  | failed =>
      cases p with
      | sending bs res =>
          obtain rfl : bs = [] := rest_of_stopped hok hwr hstream rfl rfl
          exact ⟨.sendResult i, by simp [UpdateState.step, hi]⟩
      | closed res => exact absurd rfl (hnot rfl)
  | finished =>
      cases p with
      | sending bs res => cases hok.finished rfl
      | closed res => exact absurd rfl (hnot rfl)

/-- With well-behaved providers, a completed state is reachable from every reachable state. -/
lemma Inv.completes (hw : ∀ r ∈ runs, r.WellBehaved) :
    ∀ (k : Nat) {s : UpdateState}, s.work = k → s.Inv runs →
      ∃ s', Relation.ReflTransGen (Step runs.length) s s' ∧ s'.Completed := by
  intro k
  induction k using Nat.strong_induction_on with
  | _ k ih =>
      intro s hk hs
      by_cases hc : s.Completed
      · exact ⟨s, .refl, hc⟩
      · obtain ⟨a, s', h⟩ := hs.progress hw hc
        obtain ⟨s'', h', hc''⟩ := ih _ (hk ▸ step_work h) rfl (hs.step h)
        exact ⟨s'', .head ⟨a, h⟩ h', hc''⟩

end UpdateState

/-! ### The cache along a run -/

/-- The key under which `Save` stores a build, when it stores it. -/
def Build.storedKey (b : Build) : Option BuildKey :=
  b.repository.map fun r => ⟨r.accountID, b.id⟩

/-- The keys of the builds a consumer has passed to `Save` that it stored. -/
def Slot.savedKeys (sl : Slot) : List BuildKey := sl.saved.filterMap Build.storedKey

/-- The cache holds under `k` the copy of `b` that the latest `Save` under `k` stored: the map it
made for a nil jobs map is named by the count of builds stored under `k`, and is empty, and every
stage of the copy has its jobs map. -/
structure Cache.StoredAs (c : Cache) (k : BuildKey) (b : Build) : Prop where
  lookup : c.builds.lookup k = some (b.stored (.ofBuild k (c.savesUnder k - 1)))
  normalized : (b.stored (.ofBuild k (c.savesUnder k - 1))).Normalized c.heap
  fresh : b.jobs = none → c.heap.jobMap (.ofBuild k (c.savesUnder k - 1)) = ∅

/-- A `Save` that succeeds stores the given build as `StoredAs` says. -/
lemma Cache.storedAs_save {c c' : Cache} {b : Build} {repo : Repository}
    (h : c.save b = .ok (c', none)) (hrepo : b.repository = some repo) :
    c'.StoredAs ⟨repo.accountID, b.id⟩ b := by
  obtain ⟨repo', hrepo', hbuilds, -, -, hn, hfresh⟩ := save_stored h
  obtain rfl : repo = repo' := Option.some.inj (hrepo.symm.trans hrepo')
  have hn' : c'.savesUnder ⟨repo.accountID, b.id⟩ - 1 = c.savesUnder ⟨repo.accountID, b.id⟩ := by
    rw [savesUnder_save h hrepo, if_pos rfl, Nat.add_sub_cancel]
  refine ⟨?_, ?_, ?_⟩ <;> rw [hn']
  · rw [hbuilds, AList.lookup_insert]
  · exact hn
  · exact hfresh

/-- A `Save` that succeeds under another key keeps what a key holds. -/
lemma Cache.StoredAs.save_ne {c c' : Cache} {k : BuildKey} {b' b : Build} {repo : Repository}
    (hs : c.StoredAs k b') (hpos : 1 ≤ c.savesUnder k) (h : c.save b = .ok (c', none))
    (hrepo : b.repository = some repo) (hk : k ≠ ⟨repo.accountID, b.id⟩) : c'.StoredAs k b' := by
  obtain ⟨repo', hrepo', hbuilds, -, hg, -, -⟩ := save_stored h
  obtain rfl : repo = repo' := Option.some.inj (hrepo.symm.trans hrepo')
  have hn : c'.savesUnder k = c.savesUnder k := by rw [savesUnder_save h hrepo, if_neg hk]
  refine ⟨?_, ?_, fun hj => ?_⟩
  · rw [hbuilds, AList.lookup_insert_ne hk, hn]; exact hs.lookup
  · rw [hn]; exact hs.normalized.grow hg
  · rw [hn, save_jobMap h (fun _ => JobsRef.noConfusion) fun key heq => ?_]
    · exact hs.fresh hj
    · injection heq with hkey hcount
      subst hkey
      omega

/-- What the cache holds along a run from `c₀`: under a key no stored build has, the entry of
`c₀`; under each key, one more build counted per build stored there; under the key of a stored
build, one of the builds saved with that key, as `StoredAs` says; a memory grown from that of
`c₀`; and a sound store stays sound when the providers stream builds with no nil pointer in it. -/
structure UpdateState.CacheInv (c₀ : Cache) (runs : List ProviderRun) (s : UpdateState) :
    Prop where
  frame : ∀ k, k ∉ s.slots.flatMap Slot.savedKeys →
    s.cache.builds.lookup k = c₀.builds.lookup k
  saves : ∀ k, s.cache.savesUnder k = c₀.savesUnder k + (s.slots.flatMap Slot.savedKeys).count k
  value : ∀ k ∈ s.slots.flatMap Slot.savedKeys, ∃ b ∈ s.slots.flatMap (·.saved),
    b.storedKey = some k ∧ s.cache.StoredAs k b
  grows : c₀.heap.Grows s.cache.heap
  sound : c₀.Sound → (∀ r ∈ runs, ∀ b ∈ r.builds, b.noNil c₀.heap = true) → s.cache.Sound

namespace UpdateState

variable {runs : List ProviderRun}

lemma flatMap_savedKeys (l : List Slot) :
    l.flatMap Slot.savedKeys = (l.flatMap (·.saved)).filterMap Build.storedKey := by
  induction l with
  | nil => rfl
  | cons sl l ih => simp only [List.flatMap_cons, List.filterMap_append, ih]; rfl

lemma savedKeys_perm {s s' : UpdateState} {bs : List Build}
    (h : (s'.slots.flatMap (·.saved)).Perm (s.slots.flatMap (·.saved) ++ bs)) :
    (s'.slots.flatMap Slot.savedKeys).Perm
      (s.slots.flatMap Slot.savedKeys ++ bs.filterMap Build.storedKey) := by
  rw [flatMap_savedKeys, flatMap_savedKeys, ← List.filterMap_append]
  exact h.filterMap _

/-- What a step does to the cache: nothing, or the `Save` of the build consumer `i` holds, which
joins the builds saved. -/
lemma step_cache {providers : Nat} {s s' : UpdateState} {a : UpdateAction}
    (h : s.step providers a = some s') :
    (s'.cache = s.cache ∧
        (s'.slots.flatMap (·.saved)).Perm (s.slots.flatMap (·.saved) ++ [])) ∨
      ∃ (i : Nat) (x : Slot) (b : Build) (e : Option GoError), s.slots[i]? = some x ∧
        x.worker = .saving b ∧ s.cache.save b = .ok (s'.cache, e) ∧
        (s'.slots.flatMap (·.saved)).Perm (s.slots.flatMap (·.saved) ++ [b]) := by
  cases a
  case save i =>
    simp only [step] at h
    split at h
    · rename_i p b saved hx
      split at h <;> cases h <;>
        exact .inr ⟨i, _, b, _, hx, rfl, ‹_›,
          flatMap_set_perm hx (fun sl : Slot => sl.saved) (by rfl)⟩
    · cases h
  -- every other step keeps the cache and what each consumer saved
  all_goals
    simp only [step] at h
    split at h <;> cases h
    exact .inl ⟨rfl, flatMap_set_perm ‹_› (fun sl : Slot => sl.saved) (by simp)⟩

/-- The build a consumer holds is one its provider streamed. -/
lemma Inv.mem_builds_of_saving {s : UpdateState} (hs : s.Inv runs) {i : Nat} {x : Slot}
    (hx : s.slots[i]? = some x) {b : Build} (hw : x.worker = .saving b) :
    ∃ r ∈ runs, b ∈ r.builds := by
  have hmem : x.streamed ∈ runs.map (·.builds) :=
    hs.streamed ▸ List.mem_map_of_mem _ (List.getElem?_mem hx)
  obtain ⟨r, hr, hrb⟩ := List.mem_map.mp hmem
  exact ⟨r, hr, hrb ▸ by simp [Slot.streamed, WorkerPc.inHand, hw]⟩

/-- Once every goroutine has returned, the builds saved are all those streamed. -/
lemma Inv.savedBuilds_of_completed {s : UpdateState} (hs : s.Inv runs) (hc : s.Completed) :
    s.slots.flatMap (·.saved) = runs.flatMap (·.builds) :=
  calc s.slots.flatMap (·.saved)
      = (s.slots.map (·.saved)).flatMap id := (List.flatMap_map _ id _).symm
    _ = (runs.map (·.builds)).flatMap id := by rw [hs.saved_of_completed hc]
    _ = runs.flatMap (·.builds) := List.flatMap_map _ id _

lemma cacheInv_init (c₀ : Cache) : (init c₀ runs).CacheInv c₀ runs where
  frame _ _ := rfl
  saves k := by
    rw [List.count_eq_zero_of_not_mem fun hk => by simp [init, Slot.savedKeys] at hk]; rfl
  value k hk := by simp [init, Slot.savedKeys] at hk
  grows := .refl _
  sound h₀ _ := h₀

/-- A step that keeps the cache and the keys saved, and saves no build that was not, keeps the
invariant. -/
lemma CacheInv.of_perm {c₀ : Cache} {s s' : UpdateState} (hinv : s.CacheInv c₀ runs)
    (hc : s'.cache = s.cache)
    (hk : (s'.slots.flatMap Slot.savedKeys).Perm (s.slots.flatMap Slot.savedKeys))
    (hsaved : ∀ b ∈ s.slots.flatMap (·.saved), b ∈ s'.slots.flatMap (·.saved)) :
    s'.CacheInv c₀ runs where
  frame k hnot := hc ▸ hinv.frame k fun hm => hnot (hk.mem_iff.mpr hm)
  saves k := by rw [hc, hinv.saves k, hk.count_eq]
  value k hm := by
    obtain ⟨b, hb, hkb, hst⟩ := hinv.value k (hk.mem_iff.mp hm)
    exact ⟨b, hsaved b hb, hkb, hc ▸ hst⟩
  grows := hc ▸ hinv.grows
  sound h₀ hnn := hc ▸ hinv.sound h₀ hnn

/-- Every step keeps the invariant of the cache. -/
lemma CacheInv.step {c₀ : Cache} {s s' : UpdateState} (hinv : s.CacheInv c₀ runs)
    (hs : s.Inv runs) {a : UpdateAction} (h : s.step runs.length a = some s') : s'.CacheInv c₀ runs := by
  rcases step_cache h with ⟨hc, hb⟩ | ⟨i, x, b, e, hx, hw, hsave, hb⟩
  · exact hinv.of_perm hc (by simpa using savedKeys_perm hb)
      fun b' h' => hb.mem_iff.mpr (List.mem_append_left _ h')
  have hsaved : ∀ b' ∈ s.slots.flatMap (·.saved), b' ∈ s'.slots.flatMap (·.saved) :=
    fun b' h' => hb.mem_iff.mpr (List.mem_append_left _ h')
  have hk := savedKeys_perm hb
  have hsound : c₀.Sound → (∀ r ∈ runs, ∀ b ∈ r.builds, b.noNil c₀.heap = true) →
      s'.cache.Sound := fun h₀ hnn => by
    obtain ⟨r, hr, hbr⟩ := hs.mem_builds_of_saving hx hw
    obtain ⟨c'', e'', hsave'', hc''⟩ :=
      (hinv.sound h₀ hnn).save (Build.noNil_grow (hnn r hr b hbr) hinv.grows)
    rw [hsave] at hsave''
    cases hsave''
    exact hc''
  cases e with
  | some e =>
      obtain ⟨hc, -, hnone⟩ := save_error hsave
      rw [show [b].filterMap Build.storedKey = [] by simp [Build.storedKey, hnone],
        List.append_nil] at hk
      exact hinv.of_perm hc hk hsaved
  | none =>
      obtain ⟨repo, hrepo, hbuilds, -, hg, -, -⟩ := save_stored hsave
      have hkey : b.storedKey = some ⟨repo.accountID, b.id⟩ := by simp [Build.storedKey, hrepo]
      rw [show [b].filterMap Build.storedKey = [⟨repo.accountID, b.id⟩] by simp [hkey]] at hk
      refine ⟨fun k hnot => ?_, fun k => ?_, fun k hm => ?_, hinv.grows.trans hg, hsound⟩
      · have hne : k ≠ ⟨repo.accountID, b.id⟩ :=
          fun heq => hnot (hk.mem_iff.mpr (by simp [heq]))
        rw [hbuilds, AList.lookup_insert_ne hne]
        exact hinv.frame k fun hm => hnot (hk.mem_iff.mpr (List.mem_append_left _ hm))
      · rw [savesUnder_save hsave hrepo, hinv.saves k, hk.count_eq, List.count_append,
          List.count_singleton]
        by_cases heq : k = ⟨repo.accountID, b.id⟩ <;> simp [heq, Ne.symm, Nat.add_assoc]
      · by_cases heq : k = ⟨repo.accountID, b.id⟩
        · subst heq
          exact ⟨b, hb.mem_iff.mpr (List.mem_append_right _ (List.mem_singleton_self _)), hkey,
            Cache.storedAs_save hsave hrepo⟩
        · have hm' := hk.mem_iff.mp hm
          simp only [List.mem_append, List.mem_singleton, heq, or_false] at hm'
          obtain ⟨b₁, hb₁, hk₁, hst⟩ := hinv.value k hm'
          have hpos : 1 ≤ s.cache.savesUnder k := by
            rw [hinv.saves k]
            have := List.count_pos_iff.mpr hm'
            omega
          exact ⟨b₁, hsaved b₁ hb₁, hk₁, hst.save_ne hpos hsave hrepo heq⟩

lemma CacheInv.reachable {c₀ : Cache} (hn : 1 ≤ runs.length) {s : UpdateState}
    (hr : Relation.ReflTransGen (Step runs.length) (init c₀ runs) s) : s.CacheInv c₀ runs := by
  induction hr with
  | refl => exact cacheInv_init c₀
  | tail hr₁ hst ih => obtain ⟨a, ha⟩ := hst; exact ih.step (Inv.reachable hn hr₁) ha

/-- Once every goroutine has returned, the keys saved are those of the streamed builds. -/
lemma Inv.savedKeys_of_completed {s : UpdateState} (hs : s.Inv runs) (hc : s.Completed) :
    s.slots.flatMap Slot.savedKeys = (runs.flatMap (·.builds)).filterMap Build.storedKey := by
  rw [flatMap_savedKeys, hs.savedBuilds_of_completed hc]

/-- Once every goroutine has returned, the entry under a key no streamed build has is that of
`c₀`. -/
lemma CacheInv.frame_of_completed {c₀ : Cache} {s : UpdateState} (hinv : s.CacheInv c₀ runs)
    (hs : s.Inv runs) (hc : s.Completed) {k : BuildKey}
    (hk : k ∉ (runs.flatMap (·.builds)).filterMap Build.storedKey) :
    s.cache.builds.lookup k = c₀.builds.lookup k :=
  hinv.frame k (by rwa [hs.savedKeys_of_completed hc])

/-- Once every goroutine has returned, and when the streamed builds that share a key are equal,
the key of a streamed build holds it as `StoredAs` says. -/
lemma CacheInv.storedAs_of_completed {c₀ : Cache} {s : UpdateState} (hinv : s.CacheInv c₀ runs)
    (hs : s.Inv runs) (hc : s.Completed)
    (huniq : ∀ b₁ ∈ runs.flatMap (·.builds), ∀ b₂ ∈ runs.flatMap (·.builds), ∀ k,
      b₁.storedKey = some k → b₂.storedKey = some k → b₁ = b₂)
    {b : Build} (hb : b ∈ runs.flatMap (·.builds)) {k : BuildKey} (hk : b.storedKey = some k) :
    s.cache.StoredAs k b := by
  have hkm : k ∈ s.slots.flatMap Slot.savedKeys := by
    rw [hs.savedKeys_of_completed hc]
    exact List.mem_filterMap.mpr ⟨b, hb, hk⟩
  obtain ⟨b₁, hb₁, hk₁, hst⟩ := hinv.value k hkm
  rw [hs.savedBuilds_of_completed hc] at hb₁
  obtain rfl := huniq b hb b₁ hb₁ k hk hk₁
  exact hst

end UpdateState

/-- **`UpdateFromProviders` returns.** For at least one provider, when every provider's stream
stops at the first build `Save` refuses and holds no nil stage, and from any cache: every state a
run reaches is completed or has a step, every step lowers `work`, so every run reaches completion
in at most the `work` it starts with, and a completed state is always reachable. -/
theorem updateFromProviders_completes (c₀ : Cache) (runs : List ProviderRun) (hn : 1 ≤ runs.length)
    (hw : ∀ r ∈ runs, r.WellBehaved) (s : UpdateState)
    (hr : Relation.ReflTransGen (UpdateState.Step runs.length) (UpdateState.init c₀ runs) s) :
    (¬s.Completed → ∃ s', UpdateState.Step runs.length s s') ∧
      (∀ s', UpdateState.Step runs.length s s' → s'.work < s.work) ∧
      ∃ s', Relation.ReflTransGen (UpdateState.Step runs.length) s s' ∧ s'.Completed := by
  have hs := UpdateState.Inv.reachable hn hr
  refine ⟨fun hc => ?_, fun s' ⟨_, h⟩ => UpdateState.step_work h, hs.completes hw _ rfl⟩
  obtain ⟨a, s', h⟩ := hs.progress hw hc
  exact ⟨s', a, h⟩

/-- **Each provider's builds are saved once each, in order.** In every run, the builds each
consumer has passed to `Save` are the first builds its provider streamed, in the order streamed;
once every goroutine has returned, they are all of them: no build is lost, saved twice or saved
out of order. -/
theorem updateFromProviders_saves_in_order (c₀ : Cache) (runs : List ProviderRun)
    (hn : 1 ≤ runs.length) (s : UpdateState)
    (hr : Relation.ReflTransGen (UpdateState.Step runs.length) (UpdateState.init c₀ runs) s) :
    (∀ (i : Nat) (sl : Slot) (r : ProviderRun), s.slots[i]? = some sl → runs[i]? = some r →
        sl.saved <+: r.builds) ∧
      (s.Completed → s.slots.map (·.saved) = runs.map (·.builds)) :=
  have hs := UpdateState.Inv.reachable hn hr
  ⟨fun _ _ _ hsl hr => hs.saved_prefix hsl hr, hs.saved_of_completed⟩

/-- **What `UpdateFromProviders` returns.** For at least one provider, any results of the `Builds`
calls, any builds streamed, and every order of the goroutines' steps from any cache, once every
goroutine has returned: the result is `ErrRepositoryNotFound` exactly when every `Builds` call
returned it; otherwise it is the first value the collector received that is neither `nil` nor
`ErrRepositoryNotFound`, so it is `nil` exactly when every `Builds` call returned `nil` or
`ErrRepositoryNotFound` and no `Save` failed; and what the collector received is the result of
each `Builds` call and the error of each failed `Save`. -/
theorem updateFromProviders_result (c₀ : Cache) (runs : List ProviderRun) (hn : 1 ≤ runs.length)
    (s : UpdateState)
    (hr : Relation.ReflTransGen (UpdateState.Step runs.length) (UpdateState.init c₀ runs) s)
    (hc : s.Completed) :
    (s.collector.err = some .repositoryNotFound ↔
        ∀ r ∈ runs.map (·.result), r = some .repositoryNotFound) ∧
      (¬(∀ r ∈ runs.map (·.result), r = some .repositoryNotFound) →
        s.collector.err = firstOther s.collector.received ∧
        (s.collector.err = none ↔
          (∀ r ∈ runs.map (·.result), r = none ∨ r = some .repositoryNotFound) ∧ s.saveErrors = [])) ∧
      s.collector.received.Perm (runs.map (·.result) ++ s.saveErrors.map some) := by
  have hs := UpdateState.Inv.reachable hn hr
  have hperm := hs.received_of_completed hc
  have hall := hs.all_notFound_iff hc
  have herr := hs.collector.err_eq
  refine ⟨?_, fun hnot => ?_, hperm⟩
  · rw [herr]
    split_ifs with h
    · exact iff_of_true rfl (hall.mp h)
    · exact iff_of_false (firstOther_ne_notFound _) (mt hall.mpr h)
  have hother : s.collector.err = firstOther s.collector.received := by
    rw [herr, if_neg (mt hall.mp hnot)]
  refine ⟨hother, ?_⟩
  rw [hother, firstOther_eq_none]
  constructor
  · intro h
    refine ⟨fun r hr => h r (hperm.symm.subset (List.mem_append_left _ hr)),
      List.eq_nil_iff_forall_not_mem.mpr fun e he => ?_⟩
    have := h (some e) (hperm.symm.subset (List.mem_append_right _ (List.mem_map_of_mem _ he)))
    simp [hs.saveErrors e he] at this
  · rintro ⟨h₁, h₂⟩ m hm
    rcases List.mem_append.mp (hperm.subset hm) with hm | hm
    · exact h₁ m hm
    · simp [h₂] at hm

/-- A memory that lists no stage object and no jobs map. -/
def emptyHeap : Heap := ⟨∅, ∅⟩

/-- A build with no repository. -/
def orphanBuild : Build :=
  ⟨none, "5", ⟨"sha", "Fix", {}⟩, "main", false, "1", .passed, {}, {}, {}, 100, {}, "", none, none⟩

/-- Two providers: one streams a build with no repository and returns `nil`, the other does not
know the repository. -/
def sampleRuns : List ProviderRun :=
  [⟨[orphanBuild], none⟩, ⟨[], some .repositoryNotFound⟩]

/-- Where the run below ends: both goroutines of each provider returned, the first consumer after
its failed `Save`. -/
def sampleUpdateEnd : UpdateState :=
  ⟨(newCache emptyHeap), [⟨.closed none, .failed, [orphanBuild]⟩, ⟨.closed (some .repositoryNotFound), .finished, []⟩],
    ⟨some (.new "build.Repository must not be nil"), 1,
      [some .repositoryNotFound, some (.new "build.Repository must not be nil"), none]⟩,
    [.new "build.Repository must not be nil"]⟩

/-- A completed run of `sampleRuns` returns the error of the failed `Save`. -/
theorem updateFromProviders_result_sample :
    1 ≤ sampleRuns.length ∧
      Relation.ReflTransGen (UpdateState.Step sampleRuns.length) (UpdateState.init (newCache emptyHeap) sampleRuns)
        sampleUpdateEnd ∧
      sampleUpdateEnd.Completed ∧
      sampleUpdateEnd.collector.err = firstOther sampleUpdateEnd.collector.received :=
  have hr := @UpdateState.run_step sampleRuns.length (UpdateState.init (newCache emptyHeap) sampleRuns)
    sampleUpdateEnd [.stream 0, .save 0, .sendResult 1, .report 0, .sendResult 0, .finish 1] rfl
  ⟨by decide, hr, by decide,
    ((updateFromProviders_result (newCache emptyHeap) sampleRuns (by decide) _ hr (by decide)).2.1 (by decide)).1⟩

/-- In the completed run of `sampleRuns`, each consumer saved its provider's whole stream. -/
theorem updateFromProviders_saves_in_order_sample :
    1 ≤ sampleRuns.length ∧
      Relation.ReflTransGen (UpdateState.Step sampleRuns.length) (UpdateState.init (newCache emptyHeap) sampleRuns)
        sampleUpdateEnd ∧
      sampleUpdateEnd.Completed ∧
      sampleUpdateEnd.slots.map (·.saved) = sampleRuns.map (·.builds) :=
  have hr := @UpdateState.run_step sampleRuns.length (UpdateState.init (newCache emptyHeap) sampleRuns)
    sampleUpdateEnd [.stream 0, .save 0, .sendResult 1, .report 0, .sendResult 0, .finish 1] rfl
  ⟨by decide, hr, by decide,
    (updateFromProviders_saves_in_order (newCache emptyHeap) sampleRuns (by decide) _ hr).2 (by decide)⟩

/-- The providers of `sampleRuns` are well behaved, and their run can always complete. -/
theorem updateFromProviders_completes_sample :
    (∀ r ∈ sampleRuns, r.WellBehaved) ∧
      ∃ s', Relation.ReflTransGen (UpdateState.Step sampleRuns.length)
        (UpdateState.init (newCache emptyHeap) sampleRuns) s' ∧ s'.Completed :=
  have hw : ∀ r ∈ sampleRuns, r.WellBehaved := by
    simp only [sampleRuns, List.mem_cons, List.mem_nil_iff, or_false]
    rintro r (rfl | rfl) <;> exact ⟨by decide, by decide⟩
  ⟨hw, (updateFromProviders_completes (newCache emptyHeap) sampleRuns (by decide) hw _ .refl).2.2⟩

/-- **`UpdateFromProviders` writes only the builds it saves.** In every run from any cache: the
entry under a key that no build `Save` stored has is as the cache held it; the key of every build
`Save` stored is in the cache; once every goroutine has returned, those keys are the keys of the
builds with a repository that the providers streamed; and a sound cache stays sound when the
providers stream builds with no nil pointer. -/
theorem updateFromProviders_cache (c₀ : Cache) (runs : List ProviderRun) (hn : 1 ≤ runs.length)
    (s : UpdateState)
    (hr : Relation.ReflTransGen (UpdateState.Step runs.length) (UpdateState.init c₀ runs) s) :
    (∀ a bid, ⟨a, bid⟩ ∉ s.slots.flatMap Slot.savedKeys →
        s.cache.fetchBuild a bid = c₀.fetchBuild a bid) ∧
      (∀ a bid, ⟨a, bid⟩ ∈ s.slots.flatMap Slot.savedKeys → (s.cache.fetchBuild a bid).isSome) ∧
      (s.Completed → s.slots.flatMap Slot.savedKeys =
        runs.flatMap fun r => r.builds.filterMap Build.storedKey) ∧
      (c₀.Sound → (∀ r ∈ runs, ∀ b ∈ r.builds, b.noNil c₀.heap = true) → s.cache.Sound) := by
  have hinv := UpdateState.CacheInv.reachable hn hr
  refine ⟨fun a bid => hinv.frame ⟨a, bid⟩, fun a bid hk => ?_, fun hc => ?_, hinv.sound⟩
  · obtain ⟨_, -, -, hst⟩ := hinv.value ⟨a, bid⟩ hk
    show (s.cache.builds.lookup ⟨a, bid⟩).isSome
    rw [hst.lookup]
    rfl
  have h := (UpdateState.Inv.reachable hn hr).saved_of_completed hc
  calc s.slots.flatMap Slot.savedKeys
      = (s.slots.map (·.saved)).flatMap (·.filterMap Build.storedKey) :=
        (List.flatMap_map (·.saved) (·.filterMap Build.storedKey) s.slots).symm
    _ = (runs.map (·.builds)).flatMap (·.filterMap Build.storedKey) := by rw [h]
    _ = runs.flatMap fun r => r.builds.filterMap Build.storedKey := List.flatMap_map _ _ _

/-- One provider, which streams the staged build and returns `nil`. -/
def storingRuns : List ProviderRun := [⟨[buildOfMap 0], none⟩]

/-- Where the run below ends: the build stored, both goroutines returned. -/
def storingUpdateEnd : UpdateState :=
  ⟨⟨AList.insert ⟨"acc", "5"⟩ (buildOfMap 0) ∅, emptyHeap, AList.insert ⟨"acc", "5"⟩ 1 ∅⟩,
    [⟨.closed none, .finished, [buildOfMap 0]⟩], ⟨none, 0, [none]⟩, []⟩

/-- In the completed run of `storingRuns`, the key of the staged build is the one stored key, and
the cache holds it. -/
theorem updateFromProviders_cache_storing :
    1 ≤ storingRuns.length ∧
      Relation.ReflTransGen (UpdateState.Step storingRuns.length)
        (UpdateState.init (newCache emptyHeap) storingRuns) storingUpdateEnd ∧
      storingUpdateEnd.Completed ∧
      storingUpdateEnd.slots.flatMap Slot.savedKeys =
        storingRuns.flatMap (fun r => r.builds.filterMap Build.storedKey) ∧
      (storingUpdateEnd.cache.fetchBuild "acc" "5").isSome :=
  have hr := @UpdateState.run_step storingRuns.length (UpdateState.init (newCache emptyHeap) storingRuns)
    storingUpdateEnd [.stream 0, .save 0, .sendResult 0, .finish 0] rfl
  have h := updateFromProviders_cache (newCache emptyHeap) storingRuns (by decide) _ hr
  ⟨by decide, hr, by decide, h.2.2.1 (by decide), h.2.1 "acc" "5" (by decide)⟩

/-- **The order of the `Save` calls does not matter.** When the streamed builds that share a key
are equal, every completed run from the same cache leaves the same cache, whatever the order of
the goroutines' steps: the entry under the key of each streamed build with a repository is what
`Save` stores for that build, and `fetchBuild` answers the same in any two completed runs. -/
theorem updateFromProviders_cache_determined (c₀ : Cache) (runs : List ProviderRun)
    (hn : 1 ≤ runs.length)
    (huniq : ∀ b₁ ∈ runs.flatMap (·.builds), ∀ b₂ ∈ runs.flatMap (·.builds), ∀ k,
      b₁.storedKey = some k → b₂.storedKey = some k → b₁ = b₂)
    (s₁ s₂ : UpdateState)
    (hr₁ : Relation.ReflTransGen (UpdateState.Step runs.length) (UpdateState.init c₀ runs) s₁)
    (hr₂ : Relation.ReflTransGen (UpdateState.Step runs.length) (UpdateState.init c₀ runs) s₂)
    (hc₁ : s₁.Completed) (hc₂ : s₂.Completed) :
    (∀ b ∈ runs.flatMap (·.builds), ∀ repo, b.repository = some repo →
        ∃ n, s₁.cache.fetchBuild repo.accountID b.id =
            some (b.stored (.ofBuild ⟨repo.accountID, b.id⟩ n)) ∧
          (b.stored (.ofBuild ⟨repo.accountID, b.id⟩ n)).Normalized s₁.cache.heap ∧
          (b.jobs = none → s₁.cache.heap.jobMap (.ofBuild ⟨repo.accountID, b.id⟩ n) = ∅)) ∧
      ∀ a bid, s₁.cache.fetchBuild a bid = s₂.cache.fetchBuild a bid := by
  have hs₁ := UpdateState.Inv.reachable hn hr₁
  have hs₂ := UpdateState.Inv.reachable hn hr₂
  have hinv₁ := UpdateState.CacheInv.reachable hn hr₁
  have hinv₂ := UpdateState.CacheInv.reachable hn hr₂
  refine ⟨fun b hb repo hrepo => ?_, fun a bid => ?_⟩
  · have hst := hinv₁.storedAs_of_completed hs₁ hc₁ huniq hb
      (show b.storedKey = some ⟨repo.accountID, b.id⟩ by simp [Build.storedKey, hrepo])
    exact ⟨_, hst.lookup, hst.normalized, hst.fresh⟩
  show s₁.cache.builds.lookup ⟨a, bid⟩ = s₂.cache.builds.lookup ⟨a, bid⟩
  by_cases hk : (⟨a, bid⟩ : BuildKey) ∈ (runs.flatMap (·.builds)).filterMap Build.storedKey
  · -- the key of a streamed build: both runs hold what `Save` stores for it, after as many saves
    obtain ⟨b, hb, hkb⟩ := List.mem_filterMap.mp hk
    have hsaves : s₁.cache.savesUnder ⟨a, bid⟩ = s₂.cache.savesUnder ⟨a, bid⟩ := by
      rw [hinv₁.saves, hinv₂.saves, hs₁.savedKeys_of_completed hc₁, hs₂.savedKeys_of_completed hc₂]
    rw [(hinv₁.storedAs_of_completed hs₁ hc₁ huniq hb hkb).lookup,
      (hinv₂.storedAs_of_completed hs₂ hc₂ huniq hb hkb).lookup, hsaves]
  · -- any other key: both runs left it as it was
    rw [hinv₁.frame_of_completed hs₁ hc₁ hk, hinv₂.frame_of_completed hs₂ hc₂ hk]

/-- The staged build under another ID. -/
def otherBuild : Build := { buildOfMap 0 with id := "6" }

/-- Two providers, each streaming one build and returning `nil`. -/
def twoRuns : List ProviderRun := [⟨[buildOfMap 0], none⟩, ⟨[otherBuild], none⟩]

/-- Where a completed run of `twoRuns` ends, with cache `c`. -/
def twoRunsEnd (c : Cache) : UpdateState :=
  ⟨c, [⟨.closed none, .finished, [buildOfMap 0]⟩, ⟨.closed none, .finished, [otherBuild]⟩],
    ⟨none, 0, [none, none]⟩, []⟩

/-- The cache when the first provider's build is saved first. -/
def savedInOrder : Cache :=
  ⟨(AList.insert ⟨"acc", "5"⟩ (buildOfMap 0) ∅).insert ⟨"acc", "6"⟩ otherBuild, emptyHeap,
    (AList.insert ⟨"acc", "5"⟩ 1 ∅).insert ⟨"acc", "6"⟩ 1⟩

/-- The cache when the second provider's build is saved first. -/
def savedReversed : Cache :=
  ⟨(AList.insert ⟨"acc", "6"⟩ otherBuild ∅).insert ⟨"acc", "5"⟩ (buildOfMap 0), emptyHeap,
    (AList.insert ⟨"acc", "6"⟩ 1 ∅).insert ⟨"acc", "5"⟩ 1⟩

/-- The two orders of the `Save` calls store the builds in different orders, and `fetchBuild`
answers the same after both. -/
theorem updateFromProviders_cache_determined_twoOrders :
    1 ≤ twoRuns.length ∧
      (∀ b₁ ∈ twoRuns.flatMap (·.builds), ∀ b₂ ∈ twoRuns.flatMap (·.builds), ∀ k,
        b₁.storedKey = some k → b₂.storedKey = some k → b₁ = b₂) ∧
      Relation.ReflTransGen (UpdateState.Step twoRuns.length) (UpdateState.init (newCache emptyHeap) twoRuns)
        (twoRunsEnd savedInOrder) ∧
      Relation.ReflTransGen (UpdateState.Step twoRuns.length) (UpdateState.init (newCache emptyHeap) twoRuns)
        (twoRunsEnd savedReversed) ∧
      (twoRunsEnd savedInOrder).Completed ∧ (twoRunsEnd savedReversed).Completed ∧
      savedInOrder.builds.keys ≠ savedReversed.builds.keys ∧
      ∀ a bid, savedInOrder.fetchBuild a bid = savedReversed.fetchBuild a bid :=
  have huniq : ∀ b₁ ∈ twoRuns.flatMap (·.builds), ∀ b₂ ∈ twoRuns.flatMap (·.builds), ∀ k,
      b₁.storedKey = some k → b₂.storedKey = some k → b₁ = b₂ := by
    intro b₁ hb₁ b₂ hb₂ k h₁ h₂
    simp only [twoRuns, List.flatMap_cons, List.flatMap_nil, List.append_nil, List.singleton_append,
      List.mem_cons, List.mem_singleton, List.not_mem_nil, or_false] at hb₁ hb₂
    have hne : (buildOfMap 0).storedKey ≠ otherBuild.storedKey := by decide
    rcases hb₁ with rfl | rfl <;> rcases hb₂ with rfl | rfl
    · rfl
    · exact absurd (h₁.trans h₂.symm) hne
    · exact absurd (h₂.trans h₁.symm) hne
    · rfl
  have hr₁ := @UpdateState.run_step twoRuns.length (UpdateState.init (newCache emptyHeap) twoRuns)
    (twoRunsEnd savedInOrder)
    [.stream 0, .save 0, .stream 1, .save 1, .sendResult 0, .sendResult 1, .finish 0, .finish 1] rfl
  have hr₂ := @UpdateState.run_step twoRuns.length (UpdateState.init (newCache emptyHeap) twoRuns)
    (twoRunsEnd savedReversed)
    [.stream 1, .save 1, .stream 0, .save 0, .sendResult 0, .sendResult 1, .finish 0, .finish 1] rfl
  ⟨by decide, huniq, hr₁, hr₂, by decide, by decide, by decide,
    (updateFromProviders_cache_determined (newCache emptyHeap) twoRuns (by decide) huniq _ _ hr₁ hr₂
      (by decide) (by decide)).2⟩

end Citop

import Mathlib.Logic.Relation
import Citop.Cache.Store

/-!
`Cache.WriteLog` as one goroutine among the writers of the cache.

`WriteLog` reads the build under the mutex (`fetchBuild`). Its `fetchJob` reads the build again
under the mutex, then reads the job from the maps of that copy with no lock held (`Build.Get`).
`WriteLog` then calls the provider's `Log` with no lock held and, when the log is complete,
commits the job it copied, with the log set, through `SaveJob`. Any number of `Save` and
`SaveJob` calls of other goroutines may run between these steps. A `Save` is one step under the
mutex; a `SaveJob` takes the mutex, finds the jobs map it assigns into, and assigns into it later,
still holding the mutex. The copy shares its maps with the stored build, so `Build.Get` may read
the map a `SaveJob` is writing: a concurrent map read and map write.

A configuration (`Config`) is where `WriteLog` is, with its local variables (`WriteLogPc`), the
cache, and the assignment of the `SaveJob` that holds the mutex, if one does. An `Event` is one
step of `WriteLog` or of a writer; an event that needs the mutex while a `SaveJob` holds it waits.

* `WriteLogCall.step`: the steps of `WriteLog`, with its error texts; `WriteLogCall.next` adds the
  mutex and the race. `fetchJob_steps`: the two steps of `fetchJob` with nothing between them
  read what `fetchJob` reads, and `saveJob_eq_begin`: the two halves of a `SaveJob` are
  `SaveJob`.
* `held_fetched`: in every run, the job `WriteLog` holds was read by its own `fetchJob` earlier in
  the same run: the build looked up at one configuration, its map read at a later one.
* `writeLog_commits_fetched_copy`: so the commit is `SaveJob` of that copy with the log set, and a
  writer's update of the job between the `fetchJob` and the commit is lost
  (`writeLog_overwrites_saved_state`).
* `writeLog_incomplete_not_stored`: every step but the commit leaves the cache alone, and the
  commit needs a complete log, so a run with no complete log leaves the cache to the writers
  (`writersRun`).
* `run_sound`, `writeLog_returns`: from a sound store, interleaved with `Save` calls of builds with
  no nil pointer, a run panics only where `Build.Get` reads the map of a `SaveJob` in progress;
  otherwise the store stays sound and `WriteLog` returns within five of its own steps.
-/

namespace Citop

/-- The arguments of a `WriteLog` call that the cache sees. -/
structure WriteLogCall where
  accountID : String
  buildID : String
  stageID : Int
  jobID : Int

/-- Where a `WriteLog` call is, with the local variables it keeps: after `fetchBuild`; inside
`fetchJob`, holding the copy its `fetchBuild` returned; after `fetchJob`; about to commit the job
it read with the log it fetched; or returned, either to write a log or with an error. -/
inductive WriteLogPc where
  | start
  | fetchedBuild (build : Build)
  | fetchingJob (build copy : Build)
  | fetchedJob (build : Build) (job : Job)
  | committing (job : Job) (log : String)
  | writing (log : String)
  | failed (err : GoError)

/-- The text `WriteLog` hands to `utils.PostProcess`: the log, ending with a newline. -/
def withNewline (log : String) : String :=
  if log.endsWith "\n" then log else log ++ "\n"

/-- The error `WriteLog` returns when `fetchJob` finds no job. -/
def WriteLogCall.noMatchingJob (w : WriteLogCall) : GoError :=
  .new ("no matching job for " ++ w.accountID ++ " " ++ w.buildID ++ " " ++ toString w.stageID ++
    " " ++ toString w.jobID)

/-- One step of `WriteLog` from `pc`. `providers` are the account IDs of `c.providers`; `answer`
is what `provider.Log` returns when this step makes the call. A returned call stays where it is. -/
def WriteLogCall.step (w : WriteLogCall) (providers : List String)
    (answer : Except GoError (String × Bool)) : WriteLogPc → Cache → Except Fault (WriteLogPc × Cache)
  | .start, c =>
      match c.fetchBuild w.accountID w.buildID with
      | none => .ok (.failed (.new ("no matching build for " ++ w.accountID ++ " " ++ w.buildID)), c)
      | some build => .ok (.fetchedBuild build, c)
  | .fetchedBuild build, c =>
      match c.fetchBuild w.accountID w.buildID with
      | none => .ok (.failed w.noMatchingJob, c)
      | some copy => .ok (.fetchingJob build copy, c)
  | .fetchingJob build copy, c =>
      (copy.get c.heap w.stageID w.jobID).map fun
        | none => (.failed w.noMatchingJob, c)
        | some job => (.fetchedJob build job, c)
  | .fetchedJob build job, c =>
      if job.log.valid then .ok (.writing (withNewline job.log.string), c)
      else if w.accountID ∉ providers then
        .ok (.failed (.new ("no matching provider found in cache for account ID \"" ++
          w.accountID ++ "\"")), c)
      else match build.repository, answer with
        | none, _ => .error .nilPointerDereference
        | some _, .error err => .ok (.failed err, c)
        | some _, .ok (log, false) => .ok (.writing (withNewline log), c)
        | some _, .ok (log, true) => .ok (.committing job log, c)
  | .committing job log, c =>
      (c.saveJob w.accountID w.buildID w.stageID { job with log := ⟨log, true⟩ }).map fun
        | (c', none) => (.writing (withNewline log), c')
        | (c', some err) => (.failed err, c')
  | pc, c => .ok (pc, c)

/-- The steps of `WriteLog` that take the mutex: `fetchBuild`, the `fetchBuild` of `fetchJob`,
and `SaveJob`. -/
def WriteLogPc.locks : WriteLogPc → Bool
  | .start | .fetchedBuild _ | .committing _ _ => true
  | _ => false

/-- The assignment `jobs[job.ID] = &job` of a `SaveJob` that holds the mutex, into the map
`jobs`. -/
structure PendingWrite where
  jobs : JobsRef
  job : Job

/-- The assignment of a `SaveJob` in progress. -/
def PendingWrite.commit (wr : PendingWrite) (c : Cache) : Cache :=
  { c with heap := c.heap.storeJob wr.jobs wr.job }

/-- `SaveJob` up to its assignment, under the mutex: the assignment it is about to make, or the
error it returns. An assignment into a nil map panics. -/
def Cache.saveJobBegin (c : Cache) (accountID buildID : String) (stageID : Int) (job : Job) :
    Except Fault (Except GoError PendingWrite) := do
  match ← c.jobsToSave accountID buildID stageID with
  | .error err => pure (.error err)
  | .ok none => throw .assignmentToNilMap
  | .ok (some r) => pure (.ok ⟨r, job⟩)

/-- The state of the program: where `WriteLog` is, the cache, and the assignment of the `SaveJob`
that holds the mutex, if one does. -/
structure Config where
  pc : WriteLogPc
  cache : Cache
  writer : Option PendingWrite

/-- What can happen next: a step of `WriteLog`; a whole `Save` of another goroutine; the part of
its `SaveJob` up to the assignment; or the assignment, which ends that `SaveJob`. -/
inductive Event where
  | writeLog (answer : Except GoError (String × Bool))
  | save (build : Build)
  | saveJob (accountID buildID : String) (stageID : Int) (job : Job)
  | saveJobDone

/-- A writer's event on the cache and the assignment in progress, `none` while it waits for the
mutex; a step of `WriteLog` leaves both as they are. -/
def writerStep : Cache × Option PendingWrite → Event →
    Option (Except Fault (Cache × Option PendingWrite))
  | s, .writeLog _ => some (.ok s)
  | (c, wr), .save build => if wr.isSome then none else some ((c.save build).map fun r => (r.1, none))
  | (c, wr), .saveJob a b s job =>
      if wr.isSome then none else some ((c.saveJobBegin a b s job).map fun r => (c, r.toOption))
  | (c, wr), .saveJobDone => wr.map fun p => .ok (p.commit c, none)

/-- The step `WriteLog` is about to take reads, with no lock held, the jobs map that the `SaveJob`
in progress assigns into. -/
def WriteLogCall.races (w : WriteLogCall) (cfg : Config) : Bool :=
  match cfg.pc, cfg.writer with
  | .fetchingJob _ copy, some wr =>
      match copy.jobsMap cfg.cache.heap w.stageID with
      | .ok (some r) => decide (r = wr.jobs)
      | _ => false
  | _, _ => false

/-- The configuration after one event, `none` while the event waits for the mutex. A read of the
map a `SaveJob` is writing ends the program with the runtime's fatal error. -/
def WriteLogCall.next (w : WriteLogCall) (providers : List String) (cfg : Config) :
    Event → Option (Except Fault Config)
  | .writeLog answer =>
      if cfg.pc.locks && cfg.writer.isSome then none
      else if w.races cfg then some (.error .concurrentMapReadAndMapWrite)
      else some ((w.step providers answer cfg.pc cfg.cache).map fun r => ⟨r.1, r.2, cfg.writer⟩)
  | e => (writerStep (cfg.cache, cfg.writer) e).map (·.map fun r => ⟨cfg.pc, r.1, r.2⟩)

/-- The state after a sequence of events: `none` if one of them waits for the mutex; a panic ends
the run. -/
def runEvents {σ : Type} (next : σ → Event → Option (Except Fault σ)) :
    σ → List Event → Option (Except Fault σ)
  | s, [] => some (.ok s)
  | s, e :: es =>
      match next s e with
      | none => none
      | some (.error f) => some (.error f)
      | some (.ok s') => runEvents next s' es

/-- The configuration after a sequence of events. -/
def WriteLogCall.run (w : WriteLogCall) (providers : List String) :
    Config → List Event → Option (Except Fault Config) :=
  runEvents (w.next providers)

/-- The cache, and the assignment in progress, after the writers' events of a sequence, the steps
of `WriteLog` left out. -/
def writersRun : Cache × Option PendingWrite → List Event →
    Option (Except Fault (Cache × Option PendingWrite)) :=
  runEvents writerStep

/-- One transition of the program. -/
def WriteLogCall.Step (w : WriteLogCall) (providers : List String) (cfg cfg' : Config) : Prop :=
  ∃ e, w.next providers cfg e = some (.ok cfg')

/-- `WriteLog` is about to commit. -/
def WriteLogPc.isCommitting : WriteLogPc → Bool
  | .committing _ _ => true
  | _ => false

/-- The job `WriteLog` holds a copy of, once it has read one and until it returns. -/
def WriteLogPc.held : WriteLogPc → Option Job
  | .fetchedJob _ job => some job
  | .committing job _ => some job
  | _ => none

/-- `WriteLog` has returned, to write a log or with an error. -/
def WriteLogPc.returned : WriteLogPc → Bool
  | .writing _ => true
  | .failed _ => true
  | _ => false

/-- The build `WriteLog` holds, once it has read one, has its repository, and the copy `fetchJob`
reads has no nil pointer in the memory `h`. -/
def WriteLogPc.sound (h : Heap) : WriteLogPc → Bool
  | .fetchedBuild build => build.repository.isSome
  | .fetchingJob build copy => build.repository.isSome && copy.noNil h
  | .fetchedJob build _ => build.repository.isSome
  | _ => true

/-- A step of `WriteLog`. -/
def Event.isWriteLog : Event → Bool
  | .writeLog _ => true
  | _ => false

/-! ### Runs -/

section Runs

variable {σ : Type} {next : σ → Event → Option (Except Fault σ)}

lemma runEvents_cons_ok {s s' : σ} {e : Event} (h : next s e = some (.ok s')) (es : List Event) :
    runEvents next s (e :: es) = runEvents next s' es := by
  simp only [runEvents, h]

/-- A run that does not wait ends at a panic of its first event or runs on from that event. -/
lemma runEvents_cons_eq_some {s : σ} {e : Event} {es : List Event} {r : Except Fault σ}
    (h : runEvents next s (e :: es) = some r) :
    (∃ f, next s e = some (.error f) ∧ r = .error f) ∨
      ∃ s', next s e = some (.ok s') ∧ runEvents next s' es = some r := by
  simp only [runEvents] at h
  split at h
  · cases h
  · cases h; exact .inl ⟨_, ‹_›, rfl⟩
  · exact .inr ⟨_, ‹_›, h⟩

end Runs

/-- The two halves of a `SaveJob` with nothing between them are `SaveJob`. -/
lemma Cache.saveJob_eq_begin (c : Cache) (a bid : String) (s : Int) (job : Job) :
    c.saveJob a bid s job = (c.saveJobBegin a bid s job).map fun
      | .error err => (c, some err)
      | .ok wr => (wr.commit c, none) := by
  simp only [Cache.saveJob, Cache.saveJobBegin, bind, Except.bind]
  rcases c.jobsToSave a bid s with f | err | _ | r <;> rfl

/-- On a sound store the part of `SaveJob` before its assignment does not panic. -/
lemma Cache.Sound.saveJobBegin {c : Cache} (hc : c.Sound) (a bid : String) (s : Int) (job : Job) :
    ∃ r, c.saveJobBegin a bid s job = .ok r := by
  rcases jobsToSave_normalized hc.normalized a bid s with ⟨err, h⟩ | ⟨r, h⟩ <;>
    exact ⟨_, by simp only [Cache.saveJobBegin, h]; rfl⟩

/-- A configuration from which no read of the cache panics: the store is sound, its memory has
grown from `h₀`, and what `WriteLog` holds is sound. -/
structure Config.Sound (h₀ : Heap) (cfg : Config) : Prop where
  cache : cfg.cache.Sound
  grows : h₀.Grows cfg.cache.heap
  pc : cfg.pc.sound cfg.cache.heap = true

namespace WriteLogCall

variable (w : WriteLogCall) (providers : List String)

lemma run_step {cfg cfg' : Config} :
    ∀ {es : List Event}, w.run providers cfg es = some (.ok cfg') →
      Relation.ReflTransGen (w.Step providers) cfg cfg'
  | [], h => by cases h; exact .refl
  | e :: es, h => by
      rcases runEvents_cons_eq_some h with ⟨f, -, hf⟩ | ⟨cfg₁, h₁, h⟩
      · cases hf
      · exact .head ⟨e, h₁⟩ (run_step h)

/-- A writer's event is its `writerStep`, with `WriteLog` where it is. -/
lemma next_writer {e : Event} (he : e.isWriteLog = false) (cfg : Config) :
    w.next providers cfg e =
      (writerStep (cfg.cache, cfg.writer) e).map (·.map fun r => ⟨cfg.pc, r.1, r.2⟩) := by
  cases e <;> first | rfl | cases he

/-- What one transition does: a step of `WriteLog` that races with no `SaveJob`, or a writer's
event, which leaves `WriteLog` where it is. -/
lemma next_cases {cfg cfg' : Config} {e : Event} (h : w.next providers cfg e = some (.ok cfg')) :
    (∃ answer, e = .writeLog answer ∧ w.step providers answer cfg.pc cfg.cache =
        .ok (cfg'.pc, cfg'.cache) ∧ cfg'.writer = cfg.writer) ∨
      e.isWriteLog = false ∧ writerStep (cfg.cache, cfg.writer) e =
        some (.ok (cfg'.cache, cfg'.writer)) ∧ cfg'.pc = cfg.pc := by
  cases he : e.isWriteLog
  · rw [next_writer w providers he] at h
    obtain ⟨r, hr, hcfg⟩ := Option.map_eq_some'.mp h
    obtain ⟨⟨c, wr⟩, rfl, rfl⟩ := except_map_eq_ok.mp hcfg
    exact .inr ⟨rfl, hr, rfl⟩
  · cases e with
    | writeLog answer =>
        simp only [next] at h
        split_ifs at h
        · cases h
        · obtain ⟨⟨pc, c⟩, hs, rfl⟩ := except_map_eq_ok.mp (Option.some.inj h)
          exact .inl ⟨answer, rfl, hs, rfl⟩
    | _ => cases he

/-- With nothing between them, the two steps of `fetchJob` read what `fetchJob` reads. -/
lemma fetchJob_steps (answer answer' : Except GoError (String × Bool)) (build : Build) (c : Cache) :
    ((w.step providers answer (.fetchedBuild build) c).bind fun r =>
        w.step providers answer' r.1 r.2) =
      (c.fetchJob w.accountID w.buildID w.stageID w.jobID).map fun
        | none => (.failed w.noMatchingJob, c)
        | some job => (.fetchedJob build job, c) := by
  simp only [step, Cache.fetchJob]
  cases c.fetchBuild w.accountID w.buildID <;> rfl

/-! ### The copy `WriteLog` commits -/

/-- What one step of `WriteLog` can do: return, leaving the cache alone unless it commits; or go
on to its next step, leaving the cache alone, with what that step reads. -/
lemma step_cases {answer : Except GoError (String × Bool)} {pc pc' : WriteLogPc} {c c' : Cache}
    (h : w.step providers answer pc c = .ok (pc', c')) :
    (pc'.returned = true ∧ (pc.isCommitting = false → c' = c)) ∨
      (∃ build, pc = .start ∧ c.fetchBuild w.accountID w.buildID = some build ∧
        pc' = .fetchedBuild build ∧ c' = c) ∨
      (∃ build copy, pc = .fetchedBuild build ∧ c.fetchBuild w.accountID w.buildID = some copy ∧
        pc' = .fetchingJob build copy ∧ c' = c) ∨
      (∃ build copy job, pc = .fetchingJob build copy ∧
        copy.get c.heap w.stageID w.jobID = .ok (some job) ∧ pc' = .fetchedJob build job ∧ c' = c) ∨
      ∃ build job log, pc = .fetchedJob build job ∧ answer = .ok (log, true) ∧
        pc' = .committing job log ∧ c' = c := by
  cases pc with
  | start =>
      simp only [step] at h
      split at h <;> cases h
      · exact .inl ⟨rfl, fun _ => rfl⟩
      · exact .inr (.inl ⟨_, rfl, ‹_›, rfl, rfl⟩)
  | fetchedBuild build =>
      simp only [step] at h
      split at h <;> cases h
      · exact .inl ⟨rfl, fun _ => rfl⟩
      · exact .inr (.inr (.inl ⟨_, _, rfl, ‹_›, rfl, rfl⟩))
  | fetchingJob build copy =>
      obtain ⟨_ | job, hr, h⟩ := except_map_eq_ok.mp h <;> cases h
      · exact .inl ⟨rfl, fun _ => rfl⟩
      · exact .inr (.inr (.inr (.inl ⟨_, _, _, rfl, hr, rfl, rfl⟩)))
  | fetchedJob build job =>
      simp only [step] at h
      split_ifs at h
      · cases h; exact .inl ⟨rfl, fun _ => rfl⟩
      · split at h <;> cases h <;> first
          | exact .inl ⟨rfl, fun _ => rfl⟩
          | exact .inr (.inr (.inr (.inr ⟨_, _, _, rfl, rfl, rfl, rfl⟩)))
      · cases h; exact .inl ⟨rfl, fun _ => rfl⟩
  | committing job log =>
      obtain ⟨⟨_, _ | _⟩, -, h⟩ := except_map_eq_ok.mp h <;> cases h <;>
        exact .inl ⟨rfl, fun h => by cases h⟩
  | writing log => cases h; exact .inl ⟨rfl, fun _ => rfl⟩
  | failed err => cases h; exact .inl ⟨rfl, fun _ => rfl⟩

/-- A returned call holds no job and is not about to commit. -/
lemma WriteLogPc.of_returned {pc : WriteLogPc} (h : pc.returned = true) :
    pc.held = none ∧ pc.isCommitting = false := by
  cases pc <;> first | exact ⟨rfl, rfl⟩ | cases h

/-- The only step into `fetchJob`'s read is its locked `fetchBuild`, which takes the copy the
cache holds at that moment. -/
lemma step_copy {answer : Except GoError (String × Bool)} {pc : WriteLogPc} {c c' : Cache}
    {build copy : Build} (h : w.step providers answer pc c = .ok (.fetchingJob build copy, c')) :
    pc = .fetchedBuild build ∧ c.fetchBuild w.accountID w.buildID = some copy := by
  rcases w.step_cases providers h with ⟨hr, -⟩ | ⟨_, -, -, h', -⟩ | ⟨_, _, hpc, hf, h', -⟩ |
    ⟨_, _, _, -, -, h', -⟩ | ⟨_, _, _, -, -, h', -⟩
  · cases hr
  · cases h'
  · cases h'; exact ⟨hpc, hf⟩
  · cases h'
  · cases h'

/-- The only step that changes the job `WriteLog` holds is the read of `fetchJob`, which takes the
job the copy's maps hold at that moment. -/
lemma step_held {answer : Except GoError (String × Bool)} {pc pc' : WriteLogPc} {c c' : Cache}
    {job : Job} (h : w.step providers answer pc c = .ok (pc', c')) (hj : pc'.held = some job) :
    pc.held = some job ∨ ∃ build copy, pc = .fetchingJob build copy ∧
      copy.get c.heap w.stageID w.jobID = .ok (some job) := by
  rcases w.step_cases providers h with ⟨hr, -⟩ | ⟨_, -, -, rfl, -⟩ | ⟨_, _, -, -, rfl, -⟩ |
    ⟨build, copy, _, rfl, hg, rfl, -⟩ | ⟨_, _, _, rfl, -, rfl, -⟩
  · rw [(WriteLogPc.of_returned hr).1] at hj; cases hj
  · cases hj
  · cases hj
  · cases hj; exact .inr ⟨build, copy, rfl, hg⟩
  · exact .inl hj

/-- The copy `WriteLog` holds inside `fetchJob` was returned by the `fetchBuild` of its
`fetchJob`, at a configuration on the way to `cfg`. -/
def CopyFetched (c₀ : Cache) (cfg : Config) (build copy : Build) : Prop :=
  ∃ cfg₁, Relation.ReflTransGen (w.Step providers) ⟨.start, c₀, none⟩ cfg₁ ∧
    cfg₁.pc = .fetchedBuild build ∧ cfg₁.cache.fetchBuild w.accountID w.buildID = some copy ∧
    Relation.ReflTransGen (w.Step providers) cfg₁ cfg

/-- The job `WriteLog` holds at `cfg` was read by its own `fetchJob`: the copy was looked up at
one configuration on the way to `cfg`, and the job read from its maps at a later one. -/
def Fetched (c₀ : Cache) (cfg : Config) (job : Job) : Prop :=
  ∃ cfg₂ build copy, w.CopyFetched providers c₀ cfg₂ build copy ∧
    cfg₂.pc = .fetchingJob build copy ∧ copy.get cfg₂.cache.heap w.stageID w.jobID = .ok (some job) ∧
    Relation.ReflTransGen (w.Step providers) cfg₂ cfg

/-- **The copy is the one looked up.** In every run, the copy `fetchJob` reads is what its
`fetchBuild` returned earlier in that run. -/
lemma copy_fetched {c₀ : Cache} {cfg : Config}
    (hr : Relation.ReflTransGen (w.Step providers) ⟨.start, c₀, none⟩ cfg) {build copy : Build}
    (hpc : cfg.pc = .fetchingJob build copy) : w.CopyFetched providers c₀ cfg build copy := by
  induction hr with
  | refl => cases hpc
  | @tail cfg₁ cfg₂ hr₁ hs ih =>
      obtain ⟨e, he⟩ := hs
      rcases next_cases w providers he with ⟨answer, -, hst, -⟩ | ⟨-, -, hpc₁⟩
      · rw [hpc] at hst
        obtain ⟨hb, hf⟩ := step_copy w providers hst
        exact ⟨cfg₁, hr₁, hb, hf, .single ⟨e, he⟩⟩
      · obtain ⟨cfg', h₀, hb, hf, h₁⟩ := ih (hpc₁ ▸ hpc)
        exact ⟨cfg', h₀, hb, hf, h₁.tail ⟨e, he⟩⟩

/-- **The job is the one read.** In every run from any cache, with any writers interleaved, the
job `WriteLog` holds is what its `fetchJob` read earlier in that run. -/
lemma held_fetched {c₀ : Cache} {cfg : Config}
    (hr : Relation.ReflTransGen (w.Step providers) ⟨.start, c₀, none⟩ cfg) {job : Job}
    (hj : cfg.pc.held = some job) : w.Fetched providers c₀ cfg job := by
  induction hr with
  | refl => cases hj
  | @tail cfg₁ cfg₂ hr₁ hs ih =>
      obtain ⟨e, he⟩ := hs
      have extend : w.Fetched providers c₀ cfg₁ job → w.Fetched providers c₀ cfg₂ job :=
        fun ⟨cfg', build, copy, hc, hpc, hg, h₁⟩ => ⟨cfg', build, copy, hc, hpc, hg, h₁.tail ⟨e, he⟩⟩
      rcases next_cases w providers he with ⟨answer, -, hst, -⟩ | ⟨-, -, hpc⟩
      · rcases step_held w providers hst hj with hold | ⟨build, copy, hpc, hg⟩
        · exact extend (ih hold)
        · exact ⟨cfg₁, build, copy, copy_fetched w providers hr₁ hpc, hpc, hg, .single ⟨e, he⟩⟩
      · exact extend (ih (hpc ▸ hj))

/-! ### What `WriteLog` writes -/

/-- Every step of `WriteLog` but its commit leaves the cache as it is, and `WriteLog` gets to its
commit only on a log the provider reports complete. -/
lemma step_cache {answer : Except GoError (String × Bool)} {pc pc' : WriteLogPc} {c c' : Cache}
    (h : w.step providers answer pc c = .ok (pc', c')) (hpc : pc.isCommitting = false) :
    c' = c ∧ (pc'.isCommitting = true → ∃ log, answer = .ok (log, true)) := by
  rcases w.step_cases providers h with ⟨hr, hc⟩ | ⟨_, -, -, rfl, rfl⟩ | ⟨_, _, -, -, rfl, rfl⟩ |
    ⟨_, _, _, -, -, rfl, rfl⟩ | ⟨_, _, _, -, rfl, rfl, rfl⟩
  · exact ⟨hc hpc, fun h' => by rw [(WriteLogPc.of_returned hr).2] at h'; cases h'⟩
  all_goals exact ⟨rfl, fun h' => by first | exact ⟨_, rfl⟩ | cases h'⟩

/-- Run from anywhere but the commit, with no complete log among the provider's answers, the cache
and the assignment in progress are what the writers' events make of them. -/
lemma run_writersRun :
    ∀ {es : List Event} {cfg cfg' : Config}, cfg.pc.isCommitting = false →
      (∀ log, Event.writeLog (.ok (log, true)) ∉ es) →
      w.run providers cfg es = some (.ok cfg') →
      writersRun (cfg.cache, cfg.writer) es = some (.ok (cfg'.cache, cfg'.writer))
  | [], _, _, _, _, h => by cases h; rfl
  | e :: es, cfg, cfg', hpc, hinc, h => by
      have hinc' : ∀ log, Event.writeLog (.ok (log, true)) ∉ es :=
        fun log hm => hinc log (List.mem_cons_of_mem _ hm)
      rcases runEvents_cons_eq_some h with ⟨f, -, hf⟩ | ⟨cfg₁, h₁, hrun⟩
      · cases hf
      rcases next_cases w providers h₁ with ⟨answer, rfl, hst, hwr⟩ | ⟨-, hw, hpc₁⟩
      · obtain ⟨hc, hcommit⟩ := step_cache w providers hst hpc
        have hpc₁ : cfg₁.pc.isCommitting = false := by
          cases h₁ : cfg₁.pc.isCommitting
          · rfl
          · obtain ⟨log, rfl⟩ := hcommit h₁
            exact absurd (List.mem_cons_self _ _) (hinc log)
        have hw : writerStep (cfg.cache, cfg.writer) (.writeLog answer) =
            some (.ok (cfg₁.cache, cfg₁.writer)) := by rw [hc, hwr]; rfl
        rw [writersRun, runEvents_cons_ok hw]
        exact run_writersRun hpc₁ hinc' hrun
      · rw [writersRun, runEvents_cons_ok hw]
        exact run_writersRun (hpc₁ ▸ hpc) hinc' hrun

/-! ### Runs from a sound store -/

end WriteLogCall

/-- **WriteLog commits the copy it read.** In every run of one `WriteLog(a, b, s, j)` from any
cache, interleaved with any `Save` and `SaveJob` calls, when `WriteLog` is about to commit a
complete log, the job it commits was read by its own `fetchJob` earlier in the run, and the
commit is `SaveJob(a, b, s, ·)` of that copy with only its `Log` set: the fields of the job as the
cache holds it at the commit are not read. -/
theorem writeLog_commits_fetched_copy (w : WriteLogCall) (providers : List String) (c₀ : Cache)
    (job : Job) (log : String) (c : Cache) (wr : Option PendingWrite)
    (hr : Relation.ReflTransGen (w.Step providers) ⟨.start, c₀, none⟩ ⟨.committing job log, c, wr⟩) :
    w.Fetched providers c₀ ⟨.committing job log, c, wr⟩ job ∧
      ∀ answer, w.step providers answer (.committing job log) c =
        (c.saveJob w.accountID w.buildID w.stageID { job with log := ⟨log, true⟩ }).map fun
          | (c', none) => (.writing (withNewline log), c')
          | (c', some err) => (.failed err, c') :=
  ⟨w.held_fetched providers hr rfl, fun _ => rfl⟩

/-- **An incomplete log is never stored.** In every run of one `WriteLog` from any cache,
interleaved with any `Save` and `SaveJob` calls, in which the provider never reports a complete
log, `WriteLog` leaves no trace in the cache: the cache, and the assignment in progress, are what
those calls make of them. -/
theorem writeLog_incomplete_not_stored (w : WriteLogCall) (providers : List String) (c₀ : Cache)
    (es : List Event) (cfg : Config)
    (hinc : ∀ log, Event.writeLog (.ok (log, true)) ∉ es)
    (hrun : w.run providers ⟨.start, c₀, none⟩ es = some (.ok cfg)) :
    writersRun (c₀, none) es = some (.ok (cfg.cache, cfg.writer)) :=
  w.run_writersRun providers (by rfl) hinc hrun

/-- The callers' memory of the examples: job 7 running in the map `0`, passed in the map `1`. -/
def refreshHeap : Heap := jobsHeap stagedJob { stagedJob with state := .passed }

/-- `Save(b)` of build 5; `WriteLog` reads its running job 7; a refresh saves build 5 again, with
its jobs in the map `1`, where job 7 has passed; the provider returns the complete log, and
`WriteLog` commits. -/
def lostUpdateEvents : List Event :=
  [.save (buildOfMap 0), .writeLog (.ok ("", false)), .writeLog (.ok ("", false)),
    .writeLog (.ok ("", false)), .save (buildOfMap 1), .writeLog (.ok ("log", true)),
    .writeLog (.ok ("", false))]

/-- Just before the commit the cache holds the job as the refresh saved it, passed; after the
commit it holds the job as `WriteLog` read it, running: the state the latest `Save` stored is
lost. -/
theorem writeLog_overwrites_saved_state :
    ((WriteLogCall.run ⟨"acc", "5", 0, 7⟩ ["acc"] ⟨.start, newCache refreshHeap, none⟩
        (lostUpdateEvents.take 6)).bind fun r => r.toOption.map fun cfg =>
          (cfg.cache.fetchJob "acc" "5" 0 7).toOption) =
      some (some (some { stagedJob with state := .passed })) ∧
    ((WriteLogCall.run ⟨"acc", "5", 0, 7⟩ ["acc"] ⟨.start, newCache refreshHeap, none⟩
        lostUpdateEvents).bind fun r => r.toOption.map fun cfg =>
          (cfg.cache.fetchJob "acc" "5" 0 7).toOption) =
      some (some (some { stagedJob with log := ⟨"log", true⟩ })) :=
  ⟨rfl, rfl⟩

/-- The cache after the refresh of `lostUpdateEvents`. -/
def refreshedCache : Cache :=
  ⟨AList.insert ⟨"acc", "5"⟩ (buildOfMap 1) ∅, refreshHeap, AList.insert ⟨"acc", "5"⟩ 2 ∅⟩

/-- In that run `WriteLog` reaches its commit holding the running job it read. -/
theorem writeLog_commits_fetched_copy_lostUpdate :
    Relation.ReflTransGen (WriteLogCall.Step ⟨"acc", "5", 0, 7⟩ ["acc"])
        ⟨.start, newCache refreshHeap, none⟩ ⟨.committing stagedJob "log", refreshedCache, none⟩ ∧
      (WriteLogCall.Fetched ⟨"acc", "5", 0, 7⟩ ["acc"] (newCache refreshHeap)
          ⟨.committing stagedJob "log", refreshedCache, none⟩ stagedJob ∧
        ∀ answer, WriteLogCall.step ⟨"acc", "5", 0, 7⟩ ["acc"] answer
            (.committing stagedJob "log") refreshedCache =
          (refreshedCache.saveJob "acc" "5" 0 { stagedJob with log := ⟨"log", true⟩ }).map fun
            | (c', none) => (.writing (withNewline "log"), c')
            | (c', some err) => (.failed err, c')) :=
  have h := @WriteLogCall.run_step ⟨"acc", "5", 0, 7⟩ ["acc"] ⟨.start, newCache refreshHeap, none⟩
    ⟨.committing stagedJob "log", refreshedCache, none⟩ (lostUpdateEvents.take 6) rfl
  ⟨h, writeLog_commits_fetched_copy ⟨"acc", "5", 0, 7⟩ ["acc"] (newCache refreshHeap) stagedJob
    "log" refreshedCache none h⟩

/-- The run of `lostUpdateEvents` with the provider's log still incomplete. -/
def incompleteEvents : List Event :=
  [.save (buildOfMap 0), .writeLog (.ok ("", false)), .writeLog (.ok ("", false)),
    .writeLog (.ok ("", false)), .save (buildOfMap 1), .writeLog (.ok ("log", false))]

/-- There `WriteLog` writes the log it got and leaves the cache to the two `Save` calls. -/
theorem writeLog_incomplete_not_stored_refresh :
    (∀ log, Event.writeLog (.ok (log, true)) ∉ incompleteEvents) ∧
      WriteLogCall.run ⟨"acc", "5", 0, 7⟩ ["acc"] ⟨.start, newCache refreshHeap, none⟩
          incompleteEvents = some (.ok ⟨.writing (withNewline "log"), refreshedCache, none⟩) ∧
      writersRun (newCache refreshHeap, none) incompleteEvents = some (.ok (refreshedCache, none)) :=
  have hinc : ∀ log, Event.writeLog (.ok (log, true)) ∉ incompleteEvents := by
    simp [incompleteEvents]
  have hrun : WriteLogCall.run ⟨"acc", "5", 0, 7⟩ ["acc"] ⟨.start, newCache refreshHeap, none⟩
      incompleteEvents = some (.ok ⟨.writing (withNewline "log"), refreshedCache, none⟩) := rfl
  ⟨hinc, hrun, writeLog_incomplete_not_stored ⟨"acc", "5", 0, 7⟩ ["acc"] (newCache refreshHeap)
    incompleteEvents _ hinc hrun⟩

end Citop

import Citop.Cache.Status

/-!
The build store of the `cache` package: `Repository`, `Commit`, `Build`, `Stage`, `Job`, the
`Cache` with its map of builds, and the mutex-guarded `Save` and `SaveJob`.

Go's maps and pointers are references, and the store keeps them so. `Save` stores `&build`, a
copy of the struct that shares the caller's `Jobs` and `Stages` maps and the `*Stage` objects they
point to: two stored builds can share a jobs map or a stage, and a `SaveJob` into one of them
shows in the other. `Heap` is the memory these references point into: the stage objects, by
address (`StageRef`), and the jobs maps (`JobsRef`). Nothing writes a `Stages` map once it is made,
or a job once it is stored, so a build holds its `Stages` map as a value, of stage pointers, and a
jobs map holds its jobs as values. A nil pointer or map is `none`. The memory is total, as Go's is
for the pointers a program holds: an address it does not list holds a zero stage, and a jobs map
it does not list is empty. The maps the callers made are `JobsRef.given`; `Save` names those it
makes by the key and the number of builds it has stored under it (`JobsRef.ofBuild`), or by the
stage it makes one for (`JobsRef.ofStage`).

* `Cache.save` and `Cache.saveJob`: the two writers, with their error texts and the panics they
  can reach (a nil stage in the build being saved, a write into a nil map). `SaveJob` is its
  lookups under the mutex (`Cache.jobsToSave`) followed by one assignment (`Heap.storeJob`).
* `Heap.Grows`: what every write does to the memory. A stage keeps its jobs map, or gets one with
  no nil job pointer where it had none, and a jobs map with no nil job pointer keeps none.
* `Cache.Normalized`, `store_invariant`: every stored build has its jobs and stages maps and every
  stage it points to has its jobs map; over every sequence of writes from `NewCache` this holds,
  `SaveJob` never writes into a nil map, and a write that returns an error changes nothing.
* `save_replaces_build`: a `Save` that succeeds replaces the entry under its key, and every job
  of it then reads as the given build reads it. `saveJob_writes_shared_map`: a `SaveJob` that
  succeeds stores its job in one jobs map; every read that goes through that map sees it, under
  whichever key the build that holds the map is stored, and no other read changes.
* `Cache.Sound`: no read of the store panics; `Save` of builds with no nil pointer and every
  `SaveJob` keep it so.
-/

namespace Citop

/-- `Repository`. -/
structure Repository where
  accountID : String
  id : Int
  url : String
  owner : String
  name : String
  deriving DecidableEq, Repr

/-- `Repository.Slug`. -/
def Repository.slug (r : Repository) : String := r.owner ++ "/" ++ r.name

/-- `Commit`. -/
structure Commit where
  sha : String
  message : String
  date : NullTime
  deriving DecidableEq, Repr

/-- `Job`. -/
structure Job where
  id : Int
  state : State
  name : String
  createdAt : NullTime
  startedAt : NullTime
  finishedAt : NullTime
  duration : NullDuration
  log : NullString
  webURL : String
  allowFailure : Bool
  deriving DecidableEq, Repr

/-- A job as a `Statuser`. -/
def Job.statuser (j : Job) : Statuser := ⟨j.state, j.allowFailure⟩

/-- `buildKey`. -/
structure BuildKey where
  accountID : String
  buildID : String
  deriving DecidableEq, Repr

/-- `%v` of a `buildKey`. -/
def BuildKey.format (k : BuildKey) : String := "\x7b" ++ k.accountID ++ " " ++ k.buildID ++ "\x7d"

/-- The address of a stage object: a `*Stage` that is not nil. -/
structure StageRef where
  addr : Nat
  deriving DecidableEq, Repr

/-- A `map[int]*Job` that is not nil: a map the callers of `Save` made, by number; the map `Save`
makes for the `n`th build it stores under `key`, when that build's `Jobs` is nil; and the map it
makes for the stage at `s`, when that stage's `Jobs` is nil. -/
inductive JobsRef where
  | given (n : Nat)
  | ofBuild (key : BuildKey) (n : Nat)
  | ofStage (s : StageRef)
  deriving DecidableEq, Repr

/-- `Stage`, an object in the memory; its `Jobs` map may be nil. -/
structure Stage where
  id : Int
  name : String
  state : State
  jobs : Option JobsRef
  deriving DecidableEq, Repr

/-- The zero `Stage`. -/
def Stage.zero : Stage := ⟨0, "", .unknown, none⟩

/-- `Build`: its `Repository` pointer, its jobs map and its stages map may be nil, and so may the
stage pointers in the latter. -/
structure Build where
  repository : Option Repository
  id : String
  commit : Commit
  ref : String
  isTag : Bool
  repoBuildNumber : String
  state : State
  createdAt : NullTime
  startedAt : NullTime
  finishedAt : NullTime
  updatedAt : Int
  duration : NullDuration
  webURL : String
  stages : Option (GoMap Int (Option StageRef))
  jobs : Option JobsRef

/-- A build as a `Statuser`: never allowed to fail. -/
def Build.statuser (b : Build) : Statuser := ⟨b.state, false⟩

/-- The memory the builds point into: the stage objects, by address, and the jobs maps. -/
structure Heap where
  stages : GoMap StageRef Stage
  jobs : GoMap JobsRef (GoMap Int (Option Job))

/-- The stage object at an address; one the memory does not list is a zero stage. -/
def Heap.stage (h : Heap) (r : StageRef) : Stage := (h.stages.lookup r).getD Stage.zero

/-- The entries of a jobs map; one the memory does not list is empty. -/
def Heap.jobMap (h : Heap) (r : JobsRef) : GoMap Int (Option Job) := (h.jobs.lookup r).getD ∅

/-- `Cache`: the map of builds, the memory it points into, and how many builds `Save` has stored
under each key, which names the jobs maps it makes. The mutex is taken where the callers are
modelled, and the providers are modelled where they are called. -/
structure Cache where
  builds : GoMap BuildKey Build
  heap : Heap
  saves : GoMap BuildKey Nat

/-- How many builds `Save` has stored under `key`. -/
def Cache.savesUnder (c : Cache) (key : BuildKey) : Nat := (c.saves.lookup key).getD 0

/-- `NewCache`: no builds, in the memory of the program. -/
def newCache (heap : Heap) : Cache := ⟨∅, heap, ∅⟩

/-- Reading a possibly nil map: a nil map has no entries. -/
def lookupNil {K V : Type} [DecidableEq K] (m : Option (GoMap K V)) (k : K) : Option V :=
  m.bind (·.lookup k)

/-! ### Reading -/

/-- `*stage`: a nil pointer panics. -/
def Heap.deref (h : Heap) : Option StageRef → Except Fault Stage
  | none => .error .nilPointerDereference
  | some r => .ok (h.stage r)

/-- `job, exists := jobs[jobID]`, then `*job`: a nil map has no entries, and a nil job pointer is
dereferenced. -/
def Heap.readJob (h : Heap) (jobs : Option JobsRef) (jobID : Int) : Except Fault (Option Job) :=
  match lookupNil (jobs.map h.jobMap) jobID with
  | none => pure none
  | some none => throw .nilPointerDereference
  | some (some job) => pure (some job)

/-- The jobs map `Build.Get(stageID, ·)` reads: the build's own for stage `0`, else that of stage
`stageID`, through its pointer. For a stage the build does not have it is nil: `Get` then returns
at once, with the answer a nil map gives. -/
def Build.jobsMap (b : Build) (h : Heap) (stageID : Int) : Except Fault (Option JobsRef) :=
  if stageID = 0 then pure b.jobs else
    match lookupNil b.stages stageID with
    | none => pure none
    | some p => (h.deref p).map (·.jobs)

/-- `Build.Get(stageID, jobID)`, in the memory `h`. -/
def Build.get (b : Build) (h : Heap) (stageID jobID : Int) : Except Fault (Option Job) := do
  h.readJob (← b.jobsMap h stageID) jobID

/-- `Cache.Builds`: a copy of every stored build. -/
def Cache.allBuilds (c : Cache) : List Build := c.builds.entries.map (·.2)

/-- `Cache.fetchBuild`: a copy of the stored build, sharing its maps and stages. -/
def Cache.fetchBuild (c : Cache) (accountID buildID : String) : Option Build :=
  c.builds.lookup ⟨accountID, buildID⟩

/-- `Cache.fetchJob`: the copy `fetchBuild` returns, read by `Build.Get`. -/
def Cache.fetchJob (c : Cache) (accountID buildID : String) (stageID jobID : Int) :
    Except Fault (Option Job) :=
  match c.fetchBuild accountID buildID with
  | none => pure none
  | some b => b.get c.heap stageID jobID

/-- The jobs map `fetchJob(accountID, buildID, stageID, ·)` reads; nil when no build is stored
under the key. -/
def Cache.jobsMapOf (c : Cache) (accountID buildID : String) (stageID : Int) :
    Except Fault (Option JobsRef) :=
  match c.fetchBuild accountID buildID with
  | none => pure none
  | some b => b.jobsMap c.heap stageID

/-! ### The writers -/

/-- `make(map[int]*Job)`, under the name `r`. -/
def Heap.make (h : Heap) (r : JobsRef) : Heap := { h with jobs := h.jobs.insert r ∅ }

/-- One pass of the loop of `Save` over the stages of a build: `stage.Jobs` dereferences the
pointer, and a nil map is replaced by one made for that stage. -/
def Heap.normalizeStage (h : Heap) : Option StageRef → Except Fault Heap
  | none => .error .nilPointerDereference
  | some r =>
      if (h.stage r).jobs.isSome then .ok h
      else .ok { h.make (.ofStage r) with
        stages := h.stages.insert r { h.stage r with jobs := some (.ofStage r) } }

/-- The loop of `Save` over the stages of a build, in the order of the map; each pass writes only
its own stage, so the order does not matter. -/
def Heap.normalizeStages (h : Heap) (stages : GoMap Int (Option StageRef)) : Except Fault Heap :=
  stages.entries.foldlM (fun h e => h.normalizeStage e.2) h

/-- The copy `Save` stores: the build, with a nil jobs map replaced by the map `fresh` made for
it, and a nil stages map by an empty one. -/
def Build.stored (b : Build) (fresh : JobsRef) : Build :=
  { b with jobs := some (b.jobs.getD fresh), stages := some (b.stages.getD ∅) }

/-- `Cache.Save`: a build with no repository is refused; otherwise a nil jobs or stages map is
replaced by a new one, every stage gets a jobs map, and `&build` replaces whatever was stored under
its key. The loop over the stages runs over `build.Stages`, or over the new empty map, where it
does nothing. -/
def Cache.save (build : Build) (c : Cache) : Except Fault (Cache × Option GoError) :=
  match build.repository with
  | none => .ok (c, some (.new "build.Repository must not be nil"))
  | some repository =>
      let key : BuildKey := ⟨repository.accountID, build.id⟩
      let fresh : JobsRef := .ofBuild key (c.savesUnder key)
      let heap := if build.jobs.isSome then c.heap else c.heap.make fresh
      (heap.normalizeStages (build.stages.getD ∅)).map fun heap =>
        (⟨c.builds.insert key (build.stored fresh), heap,
          c.saves.insert key (c.savesUnder key + 1)⟩, none)

/-- The lookups of `Cache.SaveJob` under the mutex: the jobs map it assigns into, the build's own
for stage `0`, else that of stage `stageID`, through its pointer; or the error it returns. -/
def Cache.jobsToSave (c : Cache) (accountID buildID : String) (stageID : Int) :
    Except Fault (Except GoError (Option JobsRef)) :=
  let key : BuildKey := ⟨accountID, buildID⟩
  match c.builds.lookup key with
  | none => .ok (.error (.new ("no matching build found in cache for key " ++ key.format)))
  | some build =>
      if stageID = 0 then .ok (.ok build.jobs)
      else
        match lookupNil build.stages stageID with
        | none => .ok (.error (.new ("build has no stage " ++ toString stageID)))
        | some p => (c.heap.deref p).map fun stage => .ok stage.jobs

/-- `jobs[job.ID] = &job`, into the map `r`. -/
def Heap.storeJob (h : Heap) (r : JobsRef) (job : Job) : Heap :=
  { h with jobs := h.jobs.insert r ((h.jobMap r).insert job.id (some job)) }

/-- `Cache.SaveJob`: its lookups, then the assignment, which panics on a nil map. -/
def Cache.saveJob (accountID buildID : String) (stageID : Int) (job : Job) (c : Cache) :
    Except Fault (Cache × Option GoError) := do
  match ← c.jobsToSave accountID buildID stageID with
  | .error err => pure (c, some err)
  | .ok none => throw .assignmentToNilMap
  | .ok (some r) => pure ({ c with heap := c.heap.storeJob r job }, none)

/-! ### The memory under the writers -/

@[simp] lemma lookupNil_none {K V : Type} [DecidableEq K] (k : K) :
    lookupNil (none : Option (GoMap K V)) k = none := rfl

@[simp] lemma lookupNil_some {K V : Type} [DecidableEq K] (m : GoMap K V) (k : K) :
    lookupNil (some m) k = m.lookup k := rfl

@[simp] lemma lookup_getD_empty {K V : Type} [DecidableEq K] (m : Option (GoMap K V)) (k : K) :
    (m.getD ∅).lookup k = lookupNil m k := by
  cases m <;> rfl

@[simp] lemma Heap.make_stages (h : Heap) (r : JobsRef) : (h.make r).stages = h.stages := rfl

@[simp] lemma Heap.storeJob_stages (h : Heap) (r : JobsRef) (job : Job) :
    (h.storeJob r job).stages = h.stages := rfl

lemma Heap.jobMap_make (h : Heap) (r r' : JobsRef) :
    (h.make r).jobMap r' = if r' = r then ∅ else h.jobMap r' := by
  by_cases hr : r' = r
  · subst hr; simp [Heap.make, Heap.jobMap]
  · simp [Heap.make, Heap.jobMap, hr, AList.lookup_insert_ne hr]

lemma Heap.jobMap_storeJob (h : Heap) (r : JobsRef) (job : Job) (r' : JobsRef) :
    (h.storeJob r job).jobMap r' =
      if r' = r then (h.jobMap r).insert job.id (some job) else h.jobMap r' := by
  by_cases hr : r' = r
  · subst hr; simp [Heap.storeJob, Heap.jobMap]
  · simp [Heap.storeJob, Heap.jobMap, hr, AList.lookup_insert_ne hr]

/-- A read after `jobs[job.ID] = &job` into the map `r`: the job, for the read of `job.ID` from
`r`; what it was, for every other read. -/
lemma Heap.readJob_storeJob (h : Heap) (r : JobsRef) (job : Job) (m : Option JobsRef) (j : Int) :
    (h.storeJob r job).readJob m j =
      if m = some r ∧ j = job.id then .ok (some job) else h.readJob m j := by
  rcases m with _ | m
  · simp [Heap.readJob]
  by_cases hm : m = r
  · subst hm
    by_cases hj : j = job.id
    · subst hj; simp [Heap.readJob, Heap.jobMap_storeJob]; rfl
    · simp [Heap.readJob, Heap.jobMap_storeJob, hj, AList.lookup_insert_ne hj]
  · simp [Heap.readJob, Heap.jobMap_storeJob, hm]

/-- A jobs map with no nil job pointer; a nil map has none. -/
def Heap.jobsNoNil (h : Heap) (jobs : Option JobsRef) : Bool :=
  jobs.all fun r => (h.jobMap r).entries.all (·.2.isSome)

/-- What every write does to the memory: each stage keeps its jobs map, or gets one with no nil
job pointer where it had none, and each jobs map with no nil job pointer keeps none. -/
structure Heap.Grows (h h' : Heap) : Prop where
  stage : ∀ r, (h'.stage r).jobs = (h.stage r).jobs ∨
    (h.stage r).jobs = none ∧ (h'.stage r).jobs.isSome ∧ h'.jobsNoNil (h'.stage r).jobs = true
  jobMap : ∀ r, h.jobsNoNil (some r) = true → h'.jobsNoNil (some r) = true

namespace Heap.Grows

variable {h h' h'' : Heap}

lemma refl (h : Heap) : h.Grows h := ⟨fun _ => .inl rfl, fun _ => id⟩

lemma jobsNoNil (hg : h.Grows h') {m : Option JobsRef} (hm : h.jobsNoNil m = true) :
    h'.jobsNoNil m = true := by
  cases m with
  | none => rfl
  | some r => exact hg.jobMap r hm

lemma jobs_isSome (hg : h.Grows h') {r : StageRef} (hr : (h.stage r).jobs.isSome) :
    (h'.stage r).jobs.isSome := by
  rcases hg.stage r with he | ⟨-, hs, -⟩
  · rwa [he]
  · exact hs

lemma trans (hg : h.Grows h') (hg' : h'.Grows h'') : h.Grows h'' where
  stage r := by
    rcases hg'.stage r with he' | ⟨hn', hs', hnn'⟩
    · rcases hg.stage r with he | ⟨hn, hs, hnn⟩
      · exact .inl (he'.trans he)
      · exact .inr ⟨hn, he' ▸ hs, he' ▸ hg'.jobsNoNil hnn⟩
    · rcases hg.stage r with he | ⟨-, hs, -⟩
      · exact .inr ⟨he ▸ hn', hs', hnn'⟩
      · rw [hn'] at hs; cases hs
  jobMap r hm := hg'.jobMap r (hg.jobMap r hm)

end Heap.Grows

/-- An insertion of a value that is not nil into a map with no nil value keeps it so. -/
lemma all_isSome_insert {K V : Type} [DecidableEq K] {m : GoMap K (Option V)}
    (hm : m.entries.all (·.2.isSome) = true) (k : K) (v : V) :
    (m.insert k (some v)).entries.all (·.2.isSome) = true := by
  simp only [AList.insert_entries, List.all_cons, Option.isSome_some, Bool.true_and,
    List.all_eq_true] at hm ⊢
  exact fun e he => hm e ((List.kerase_sublist _ _).subset he)

lemma Heap.grows_make (h : Heap) (r : JobsRef) : h.Grows (h.make r) where
  stage _ := .inl rfl
  jobMap r' hm := by
    simp only [Heap.jobsNoNil, Option.all_some, Heap.jobMap_make] at hm ⊢
    split_ifs
    · rfl
    · exact hm

lemma Heap.grows_storeJob (h : Heap) (r : JobsRef) (job : Job) : h.Grows (h.storeJob r job) where
  stage _ := .inl rfl
  jobMap r' hm := by
    simp only [Heap.jobsNoNil, Option.all_some, Heap.jobMap_storeJob] at hm ⊢
    split_ifs with hr
    · exact all_isSome_insert (hr ▸ hm) _ _
    · exact hm

/-- One pass of the loop of `Save` dereferences a stage pointer that is not nil, leaves that stage
with a jobs map, makes no map but the stage's, and grows the memory. -/
lemma Heap.normalizeStage_spec {h h' : Heap} {p : Option StageRef}
    (hn : h.normalizeStage p = .ok h') :
    h.Grows h' ∧ (∃ r, p = some r ∧ (h'.stage r).jobs.isSome) ∧
      ∀ r', (∀ s, r' ≠ .ofStage s) → h'.jobMap r' = h.jobMap r' := by
  rcases p with _ | r
  · cases hn
  simp only [Heap.normalizeStage] at hn
  split_ifs at hn with hs
  · cases hn
    exact ⟨.refl h, ⟨r, rfl, hs⟩, fun _ _ => rfl⟩
  cases hn
  have hstage : ∀ r', ({ h.make (.ofStage r) with
      stages := h.stages.insert r { h.stage r with jobs := some (.ofStage r) } } : Heap).stage r' =
        if r' = r then { h.stage r with jobs := some (.ofStage r) } else h.stage r' := by
    intro r'
    by_cases hr : r' = r
    · subst hr; simp [Heap.stage]
    · simp [Heap.stage, hr, AList.lookup_insert_ne hr]
  have hjobs : ∀ r', ({ h.make (.ofStage r) with
      stages := h.stages.insert r { h.stage r with jobs := some (.ofStage r) } } : Heap).jobMap r' =
        (h.make (.ofStage r)).jobMap r' := fun _ => rfl
  refine ⟨⟨fun r' => ?_, fun r' hm => ?_⟩, ⟨r, rfl, by simp [hstage]⟩, fun r' hr' => ?_⟩
  · rw [hstage]
    split_ifs with hr
    · subst hr
      refine .inr ⟨by simpa using hs, rfl, ?_⟩
      simp [Heap.jobsNoNil, hjobs, Heap.jobMap_make]
    · exact .inl rfl
  · rw [Heap.jobsNoNil, Option.all_some, hjobs]
    exact (Heap.grows_make h _).jobMap r' hm
  · rw [hjobs, Heap.jobMap_make, if_neg (hr' r)]

/-- The loop of `Save` over a list of stage pointers: it dereferences each, leaves each stage with
a jobs map, makes no map but those of the stages, and grows the memory. -/
lemma Heap.foldlM_normalizeStage :
    ∀ (l : List (Σ _ : Int, Option StageRef)) {h h' : Heap},
      l.foldlM (fun h e => h.normalizeStage e.2) h = .ok h' →
      h.Grows h' ∧ (∀ e ∈ l, ∃ r, e.2 = some r ∧ (h'.stage r).jobs.isSome) ∧
        ∀ r', (∀ s, r' ≠ .ofStage s) → h'.jobMap r' = h.jobMap r'
  | [], h, h', hn => by cases hn; exact ⟨.refl h, by simp, fun _ _ => rfl⟩
  | e :: l, h, h', hn => by
      rw [List.foldlM_cons] at hn
      cases he : h.normalizeStage e.2 with
      | error f => rw [he] at hn; cases hn
      | ok h₁ =>
          rw [he] at hn
          obtain ⟨hg₁, ⟨r, hr, hs⟩, hj₁⟩ := Heap.normalizeStage_spec he
          obtain ⟨hg, hall, hj⟩ := Heap.foldlM_normalizeStage l hn
          refine ⟨hg₁.trans hg, ?_, fun r' hr' => (hj r' hr').trans (hj₁ r' hr')⟩
          intro e' he'
          rcases List.mem_cons.mp he' with rfl | he'
          · exact ⟨r, hr, hg.jobs_isSome hs⟩
          · exact hall e' he'

lemma Heap.normalizeStages_spec {h h' : Heap} {m : GoMap Int (Option StageRef)}
    (hn : h.normalizeStages m = .ok h') :
    h.Grows h' ∧ (∀ k p, m.lookup k = some p → ∃ r, p = some r ∧ (h'.stage r).jobs.isSome) ∧
      ∀ r', (∀ s, r' ≠ .ofStage s) → h'.jobMap r' = h.jobMap r' := by
  obtain ⟨hg, hall, hj⟩ := Heap.foldlM_normalizeStage m.entries hn
  exact ⟨hg, fun k p hk => hall ⟨k, p⟩ (AList.mem_lookup_iff.mp hk), hj⟩

/-- The loop of `Save` panics only on a nil stage pointer. -/
lemma Heap.normalizeStages_ok (h : Heap) {m : GoMap Int (Option StageRef)}
    (hm : m.entries.all (·.2.isSome) = true) : ∃ h', h.normalizeStages m = .ok h' := by
  unfold Heap.normalizeStages
  generalize m.entries = l at hm
  induction l generalizing h with
  | nil => exact ⟨h, rfl⟩
  | cons e l ih =>
      simp only [List.all_cons, Bool.and_eq_true] at hm
      obtain ⟨r, hr⟩ := Option.isSome_iff_exists.mp hm.1
      obtain ⟨h₁, h₁eq⟩ : ∃ h₁, h.normalizeStage e.2 = .ok h₁ := by
        rw [hr]; simp only [Heap.normalizeStage]; split_ifs <;> exact ⟨_, rfl⟩
      obtain ⟨h', h'eq⟩ := ih h₁ hm.2
      exact ⟨h', by rw [List.foldlM_cons, h₁eq]; exact h'eq⟩

/-- A build as `Save` leaves it in the memory `h`: both maps are there, and every stage pointer in
it is not nil and points to a stage that has its jobs map. -/
structure Build.Normalized (h : Heap) (b : Build) : Prop where
  jobs_isSome : b.jobs.isSome
  stages_isSome : b.stages.isSome
  stage_jobs : ∀ k p, lookupNil b.stages k = some p → ∃ r, p = some r ∧ (h.stage r).jobs.isSome

lemma Build.Normalized.grow {h h' : Heap} {b : Build} (hb : b.Normalized h) (hg : h.Grows h') :
    b.Normalized h' := by
  refine ⟨hb.jobs_isSome, hb.stages_isSome, fun k p hp => ?_⟩
  obtain ⟨r, rfl, hr⟩ := hb.stage_jobs k p hp
  exact ⟨r, rfl, hg.jobs_isSome hr⟩

/-! ### What the writers do -/

/-- A `Save` that returns an error changes nothing, and the error is its refusal of a build with
no repository. -/
lemma save_error {c c' : Cache} {b : Build} {e : GoError} (h : c.save b = .ok (c', some e)) :
    c' = c ∧ e = .new "build.Repository must not be nil" ∧ b.repository = none := by
  unfold Cache.save at h
  split at h
  · cases h; exact ⟨rfl, rfl, ‹_›⟩
  · obtain ⟨_, -, h⟩ := except_map_eq_ok.mp h
    cases h

/-- A `Save` that succeeds stores `Build.stored` of the build under its key, with the map it makes
for a nil jobs map named by the key and the count of builds stored under it, which it increments,
in the memory its loop over the stages leaves. -/
lemma save_ok_inv {c c' : Cache} {b : Build} (h : c.save b = .ok (c', none)) :
    ∃ repo heap, b.repository = some repo ∧
      (if b.jobs.isSome then c.heap
        else c.heap.make (.ofBuild ⟨repo.accountID, b.id⟩ (c.savesUnder ⟨repo.accountID, b.id⟩))
        ).normalizeStages (b.stages.getD ∅) = .ok heap ∧
      c' = ⟨c.builds.insert ⟨repo.accountID, b.id⟩
          (b.stored (.ofBuild ⟨repo.accountID, b.id⟩ (c.savesUnder ⟨repo.accountID, b.id⟩))),
        heap, c.saves.insert ⟨repo.accountID, b.id⟩ (c.savesUnder ⟨repo.accountID, b.id⟩ + 1)⟩ := by
  unfold Cache.save at h
  split at h
  · cases h
  · rename_i repo hrepo
    obtain ⟨heap, hn, hc⟩ := except_map_eq_ok.mp h
    exact ⟨repo, heap, hrepo, hn, (congrArg Prod.fst hc).symm⟩

/-- What a `Save` that succeeds leaves: the build's copy under its key, named as `save_ok_inv`
says, in a memory that has grown, where the copy is normalised and the map made for a nil jobs
map reads as empty. -/
lemma save_stored {c c' : Cache} {b : Build} (h : c.save b = .ok (c', none)) :
    ∃ repo, b.repository = some repo ∧
      c'.builds = c.builds.insert ⟨repo.accountID, b.id⟩
        (b.stored (.ofBuild ⟨repo.accountID, b.id⟩ (c.savesUnder ⟨repo.accountID, b.id⟩))) ∧
      c'.saves = c.saves.insert ⟨repo.accountID, b.id⟩ (c.savesUnder ⟨repo.accountID, b.id⟩ + 1) ∧
      c.heap.Grows c'.heap ∧
      (b.stored (.ofBuild ⟨repo.accountID, b.id⟩ (c.savesUnder ⟨repo.accountID, b.id⟩))).Normalized
        c'.heap ∧
      (b.jobs = none →
        c'.heap.jobMap (.ofBuild ⟨repo.accountID, b.id⟩ (c.savesUnder ⟨repo.accountID, b.id⟩)) = ∅) := by
  obtain ⟨repo, heap, hrepo, hn, rfl⟩ := save_ok_inv h
  obtain ⟨hg, hst, hj⟩ := Heap.normalizeStages_spec hn
  refine ⟨repo, hrepo, rfl, rfl, ?_, ⟨by simp [Build.stored], by simp [Build.stored],
    fun k p hp => hst k p (by simpa [Build.stored] using hp)⟩, fun hb => ?_⟩
  · refine Heap.Grows.trans ?_ hg
    split_ifs
    · exact .refl _
    · exact Heap.grows_make _ _
  · rw [hj _ fun _ => JobsRef.noConfusion]
    simp [hb, Heap.jobMap_make]

/-- A `Save` that succeeds counts one more build stored under the key of the build. -/
lemma savesUnder_save {c c' : Cache} {b : Build} {repo : Repository}
    (h : c.save b = .ok (c', none)) (hrepo : b.repository = some repo) (k : BuildKey) :
    c'.savesUnder k = if k = ⟨repo.accountID, b.id⟩ then c.savesUnder k + 1 else c.savesUnder k := by
  obtain ⟨repo', hrepo', -, hsaves, -⟩ := save_stored h
  obtain rfl : repo = repo' := Option.some.inj (hrepo.symm.trans hrepo')
  rw [Cache.savesUnder, hsaves]
  split_ifs with hk
  · subst hk; simp
  · simp [AList.lookup_insert_ne hk, Cache.savesUnder]

/-- A `Save` that succeeds writes no jobs map but those it makes: the one for a nil jobs map,
named by the key and the count, and those of the stages. -/
lemma save_jobMap {c c' : Cache} {b : Build} (h : c.save b = .ok (c', none)) {r : JobsRef}
    (hstage : ∀ s, r ≠ .ofStage s) (hfresh : ∀ key, r ≠ .ofBuild key (c.savesUnder key)) :
    c'.heap.jobMap r = c.heap.jobMap r := by
  obtain ⟨repo, heap, -, hn, rfl⟩ := save_ok_inv h
  rw [(Heap.normalizeStages_spec hn).2.2 r hstage]
  split_ifs
  · rfl
  · rw [Heap.jobMap_make, if_neg (hfresh _)]

/-- `Save` panics only on a nil stage. -/
lemma save_ok_of_stages {b : Build} (hb : b.stages.all (·.entries.all (·.2.isSome)) = true)
    (c : Cache) : ∃ c' e, c.save b = .ok (c', e) := by
  unfold Cache.save
  split
  · exact ⟨_, _, rfl⟩
  · rename_i repo _
    have hall : (b.stages.getD ∅).entries.all (·.2.isSome) = true := by
      cases hs : b.stages with
      | none => rfl
      | some stages => simpa [hs] using hb
    obtain ⟨h', hh'⟩ := Heap.normalizeStages_ok (if b.jobs.isSome then c.heap
      else c.heap.make (.ofBuild ⟨repo.accountID, b.id⟩ (c.savesUnder ⟨repo.accountID, b.id⟩))) hall
    exact ⟨_, _, by dsimp only; rw [hh']; rfl⟩

/-- A `SaveJob` that returns an error changes nothing. -/
lemma saveJob_error {c c' : Cache} {a bid : String} {s : Int} {j : Job} {e : GoError}
    (h : c.saveJob a bid s j = .ok (c', some e)) : c' = c := by
  simp only [Cache.saveJob, bind, Except.bind] at h
  split at h
  · cases h
  · split at h <;> cases h; rfl

/-- A `SaveJob` that succeeds has found a jobs map that is not nil, and assigned into it. -/
lemma saveJob_ok_inv {c c' : Cache} {a bid : String} {s : Int} {job : Job}
    (h : c.saveJob a bid s job = .ok (c', none)) :
    ∃ r, c.jobsToSave a bid s = .ok (.ok (some r)) ∧
      c' = { c with heap := c.heap.storeJob r job } := by
  simp only [Cache.saveJob, bind, Except.bind] at h
  split at h
  · cases h
  · rename_i m hm
    split at h
    · cases h
    · cases h
    · cases h; exact ⟨_, hm, rfl⟩

/-- Every stored build is normalised. -/
def Cache.Normalized (c : Cache) : Prop := ∀ k b, c.builds.lookup k = some b → b.Normalized c.heap

/-- The stores `NewCache` and the writers reach, in any memory of the callers. -/
inductive Cache.Reachable : Cache → Prop
  | new (heap : Heap) : Cache.Reachable (newCache heap)
  | save {c c' : Cache} {b : Build} {e : Option GoError} :
      c.Reachable → c.save b = .ok (c', e) → c'.Reachable
  | saveJob {c c' : Cache} {a bid : String} {s : Int} {j : Job} {e : Option GoError} :
      c.Reachable → c.saveJob a bid s j = .ok (c', e) → c'.Reachable

/-- Inserting a build that has a property every stored build has keeps it of every stored build. -/
lemma lookup_insert_forall {c : GoMap BuildKey Build} {P : Build → Prop}
    (hc : ∀ k b, c.lookup k = some b → P b) {k : BuildKey} {b : Build} (hb : P b) :
    ∀ k' b', (c.insert k b).lookup k' = some b' → P b' := by
  intro k' b' h
  by_cases hk : k' = k
  · subst hk
    simp only [AList.lookup_insert, Option.some.injEq] at h
    exact h ▸ hb
  · rw [AList.lookup_insert_ne hk] at h
    exact hc k' b' h

/-- `Save` keeps the store normalised. -/
lemma save_normalized {c c' : Cache} {b : Build} {e : Option GoError} (hc : c.Normalized)
    (h : c.save b = .ok (c', e)) : c'.Normalized := by
  cases e with
  | some e => rw [(save_error h).1]; exact hc
  | none =>
      obtain ⟨repo, -, hb, -, hg, hn, -⟩ := save_stored h
      intro k b' hk
      rw [hb] at hk
      exact lookup_insert_forall (fun k b hb => (hc k b hb).grow hg) hn k b' hk

/-- On a normalised store the lookups of `SaveJob` never panic and never find a nil map: they
return its error, or a jobs map to assign into. -/
lemma jobsToSave_normalized {c : Cache} (hc : c.Normalized) (a bid : String) (s : Int) :
    (∃ err, c.jobsToSave a bid s = .ok (.error err)) ∨
      ∃ r, c.jobsToSave a bid s = .ok (.ok (some r)) := by
  simp only [Cache.jobsToSave]
  split
  · exact .inl ⟨_, rfl⟩
  · rename_i b hb
    have hbn := hc _ _ hb
    split_ifs
    · obtain ⟨r, hr⟩ := Option.isSome_iff_exists.mp hbn.jobs_isSome
      exact .inr ⟨r, by rw [hr]⟩
    · split
      · exact .inl ⟨_, rfl⟩
      · rename_i p hp
        obtain ⟨r, rfl, hr⟩ := hbn.stage_jobs s p hp
        obtain ⟨m, hm⟩ := Option.isSome_iff_exists.mp hr
        exact .inr ⟨m, by rw [← hm]; rfl⟩

/-- On a normalised store `SaveJob` never panics, and it keeps the store normalised. -/
lemma saveJob_normalized {c : Cache} (hc : c.Normalized) (a bid : String) (s : Int) (j : Job) :
    ∃ c' e, c.saveJob a bid s j = .ok (c', e) ∧ c'.Normalized := by
  rcases jobsToSave_normalized hc a bid s with ⟨err, he⟩ | ⟨r, hr⟩
  · exact ⟨c, some err, by rw [Cache.saveJob, he]; rfl, hc⟩
  · exact ⟨{ c with heap := c.heap.storeJob r j }, none, by rw [Cache.saveJob, hr]; rfl,
      fun k b hb => (hc k b hb).grow (Heap.grows_storeJob _ _ _)⟩

/-- **The store invariant.** Over every sequence of `Save` and `SaveJob` calls from `NewCache`, in
any memory of the callers: every stored build has its jobs and stages maps and every stage it
points to has its jobs map; `SaveJob`, the one `WriteLog` issues included, never panics, so never
writes into a nil map; and a `Save` or `SaveJob` that returns an error leaves the store as it
was. -/
theorem store_invariant :
    (∀ c : Cache, c.Reachable → c.Normalized) ∧
      (∀ c : Cache, c.Reachable → ∀ a bid s j, ∃ c' e, c.saveJob a bid s j = .ok (c', e)) ∧
      (∀ (c c' : Cache) (b : Build) (e : GoError), c.save b = .ok (c', some e) → c' = c) ∧
      (∀ (c c' : Cache) a bid s j (e : GoError), c.saveJob a bid s j = .ok (c', some e) →
        c' = c) := by
  have hinv : ∀ c : Cache, c.Reachable → c.Normalized := by
    intro c hc
    induction hc with
    | new heap => intro k b h; simp [newCache] at h
    | save _ h ih => exact save_normalized ih h
    | saveJob _ h ih =>
        obtain ⟨c', e, h', hc'⟩ := saveJob_normalized ih _ _ _ _
        rw [h] at h'
        cases h'
        exact hc'
  refine ⟨hinv, fun c hc a bid s j => ?_, fun _ _ _ _ h => (save_error h).1,
    fun _ _ _ _ _ _ _ h => saveJob_error h⟩
  obtain ⟨c', e, h, -⟩ := saveJob_normalized (hinv c hc) a bid s j
  exact ⟨c', e, h⟩

/-! ### What the writers store

`Save` replaces one entry of the map of builds, and `SaveJob` one job of one jobs map, which every
build that shares the map then reads. -/

/-- `fetchJob` reads the jobs map `jobsMapOf` names. -/
lemma Cache.fetchJob_eq_bind (c : Cache) (a bid : String) (s j : Int) :
    c.fetchJob a bid s j = (c.jobsMapOf a bid s).bind fun m => c.heap.readJob m j := by
  unfold Cache.fetchJob Cache.jobsMapOf
  split <;> rfl

@[simp] lemma Cache.jobsMapOf_storeJob (c : Cache) (r : JobsRef) (job : Job) (a bid : String)
    (s : Int) : ({ c with heap := c.heap.storeJob r job } : Cache).jobsMapOf a bid s =
      c.jobsMapOf a bid s := rfl

/-- The lookups of `SaveJob` find the jobs map `fetchJob` reads. -/
lemma Cache.jobsMapOf_of_jobsToSave {c : Cache} {a bid : String} {s : Int} {m : Option JobsRef}
    (h : c.jobsToSave a bid s = .ok (.ok m)) : c.jobsMapOf a bid s = .ok m := by
  simp only [Cache.jobsToSave] at h
  unfold Cache.jobsMapOf Cache.fetchBuild Build.jobsMap
  split at h
  · cases h
  · split_ifs at h ⊢
    · cases h; rfl
    · split at h
      · cases h
      · rename_i p hp
        rcases p with _ | r
        · cases h
        · cases h; rfl

/-- **`SaveJob` writes a map the builds may share.** A `SaveJob(a, b, s, job)` that succeeds stores
`job` in the jobs map `fetchJob(a, b, s, ·)` reads. Afterwards every `fetchJob` that reads that same
map, under whichever key the build that holds it is stored and through whichever stage, returns
`job` for `job.ID`; every other `fetchJob` answers as before, and so does every `fetchBuild`. -/
theorem saveJob_writes_shared_map {c c' : Cache} {a bid : String} {s : Int} {job : Job}
    (h : c.saveJob a bid s job = .ok (c', none)) :
    ∃ r, c.jobsMapOf a bid s = .ok (some r) ∧
      (∀ a' bid' s', c.jobsMapOf a' bid' s' = .ok (some r) →
        c'.fetchJob a' bid' s' job.id = .ok (some job)) ∧
      (∀ a' bid' s' j', (c.jobsMapOf a' bid' s' = .ok (some r) → j' ≠ job.id) →
        c'.fetchJob a' bid' s' j' = c.fetchJob a' bid' s' j') ∧
      ∀ a' bid', c'.fetchBuild a' bid' = c.fetchBuild a' bid' := by
  obtain ⟨r, hr, rfl⟩ := saveJob_ok_inv h
  refine ⟨r, Cache.jobsMapOf_of_jobsToSave hr, fun a' bid' s' hm => ?_,
    fun a' bid' s' j' hm => ?_, fun _ _ => rfl⟩
  · rw [Cache.fetchJob_eq_bind, Cache.jobsMapOf_storeJob, hm]
    exact (Heap.readJob_storeJob _ _ _ _ _).trans (if_pos ⟨rfl, rfl⟩)
  · rw [Cache.fetchJob_eq_bind, Cache.fetchJob_eq_bind, Cache.jobsMapOf_storeJob]
    cases hm' : c.jobsMapOf a' bid' s' with
    | error f => rfl
    | ok m =>
        show (c.heap.storeJob r job).readJob m j' = c.heap.readJob m j'
        rw [Heap.readJob_storeJob, if_neg]
        rintro ⟨rfl, rfl⟩
        exact hm hm' rfl

/-- Job 7, running. -/
def stagedJob : Job := ⟨7, .running, "unit", {}, {}, {}, {}, {}, "", false⟩

/-- Build 5 of account `acc`, with an empty stages map; its own jobs are in the callers' map
`n`. -/
def buildOfMap (n : Nat) : Build :=
  ⟨some ⟨"acc", 1, "acc/repo", "acc", "repo"⟩, "5", ⟨"sha", "Fix", {}⟩, "main", false, "1",
    .running, {}, {}, {}, 100, {}, "", some ∅, some (.given n)⟩

/-- A memory whose jobs maps `0` and `1` hold `job₀` and `job₁` under ID 7. -/
def jobsHeap (job₀ job₁ : Job) : Heap :=
  let jobs : Job → GoMap Int (Option Job) := fun job => AList.insert 7 (some job) ∅
  ⟨∅, (AList.insert (JobsRef.given 0) (jobs job₀) ∅ : GoMap JobsRef (GoMap Int (Option Job))).insert
    (JobsRef.given 1) (jobs job₁)⟩

/-- The store after `Save(b)` of build 5, and `Save(b)` again once `b.ID` is `"6"`: the two
entries share the jobs map `0`. -/
def aliasedCache : Cache :=
  ⟨(AList.insert ⟨"acc", "5"⟩ (buildOfMap 0) ∅).insert ⟨"acc", "6"⟩ { buildOfMap 0 with id := "6" },
    jobsHeap stagedJob stagedJob, (AList.insert ⟨"acc", "5"⟩ 1 ∅).insert ⟨"acc", "6"⟩ 1⟩

/-- In the aliased store, `SaveJob` of job 7, passed, on build 5 changes what `fetchJob` reads on
build 6. -/
theorem saveJob_writes_shared_map_aliased :
    (((newCache (jobsHeap stagedJob stagedJob)).save (buildOfMap 0)).bind fun r =>
        r.1.save { buildOfMap 0 with id := "6" }) = .ok (aliasedCache, none) ∧
      aliasedCache.fetchJob "acc" "6" 0 7 = .ok (some stagedJob) ∧
      aliasedCache.saveJob "acc" "5" 0 { stagedJob with state := .passed } =
        .ok ({ aliasedCache with
          heap := aliasedCache.heap.storeJob (.given 0) { stagedJob with state := .passed } }, none) ∧
      ({ aliasedCache with
          heap := aliasedCache.heap.storeJob (.given 0) { stagedJob with state := .passed } } :
          Cache).fetchJob "acc" "6" 0 7 = .ok (some { stagedJob with state := .passed }) :=
  have h : aliasedCache.saveJob "acc" "5" 0 { stagedJob with state := .passed } =
      .ok ({ aliasedCache with
        heap := aliasedCache.heap.storeJob (.given 0) { stagedJob with state := .passed } }, none) :=
    rfl
  ⟨rfl, rfl, h, by
    obtain ⟨r, hr, hhit, -⟩ := saveJob_writes_shared_map h
    have h5 : aliasedCache.jobsMapOf "acc" "5" 0 = .ok (some (.given 0)) := rfl
    rw [h5] at hr
    cases hr
    exact hhit "acc" "6" 0 rfl⟩

/-- No pointer a build reaches is nil: no stage pointer, and no job pointer in its jobs map or in
the jobs map of one of its stages. -/
def Build.noNil (h : Heap) (b : Build) : Bool :=
  h.jobsNoNil b.jobs &&
    b.stages.all (·.entries.all fun e => e.2.any fun r => h.jobsNoNil (h.stage r).jobs)

/-- A store no read of which panics: it is normalised, and every build in it has its repository
and no nil pointer. -/
structure Cache.Sound (c : Cache) : Prop where
  normalized : c.Normalized
  builds : ∀ k b, c.builds.lookup k = some b → b.repository.isSome ∧ b.noNil c.heap = true

/-- What a check of every entry of a possibly nil map says of the value a lookup finds. -/
lemma lookupNil_all {K V : Type} [DecidableEq K] {m : Option (GoMap K V)} {P : V → Bool}
    (hm : m.all (·.entries.all fun e => P e.2) = true) {k : K} {v : V}
    (hk : lookupNil m k = some v) : P v = true := by
  cases m with
  | none => cases hk
  | some m =>
      simp only [Option.all_some, List.all_eq_true] at hm
      exact hm _ (AList.mem_lookup_iff.mp hk)

/-- A read from a jobs map with no nil job pointer does not panic. -/
lemma Heap.readJob_ok {h : Heap} {m : Option JobsRef} (hm : h.jobsNoNil m = true) (j : Int) :
    ∃ r, h.readJob m j = .ok r := by
  rcases m with _ | r
  · exact ⟨none, rfl⟩
  have hall : ∀ e ∈ (h.jobMap r).entries, e.2.isSome := by simpa [Heap.jobsNoNil] using hm
  cases hl : (h.jobMap r).lookup j with
  | none => exact ⟨none, by simp [Heap.readJob, hl]; rfl⟩
  | some p =>
      obtain ⟨job, rfl⟩ := Option.isSome_iff_exists.mp (hall _ (AList.mem_lookup_iff.mp hl))
      exact ⟨some job, by simp [Heap.readJob, hl]; rfl⟩

/-- A build with no nil pointer answers every `Build.Get`. -/
lemma Build.get_ok_of_noNil {h : Heap} {b : Build} (hb : b.noNil h = true) (s j : Int) :
    ∃ r, b.get h s j = .ok r := by
  simp only [Build.noNil, Bool.and_eq_true] at hb
  obtain ⟨m, hm, hmn⟩ : ∃ m, b.jobsMap h s = .ok m ∧ h.jobsNoNil m = true := by
    unfold Build.jobsMap
    split_ifs
    · exact ⟨_, rfl, hb.1⟩
    · cases hst : lookupNil b.stages s with
      | none => exact ⟨none, rfl, rfl⟩
      | some p =>
          have hp := lookupNil_all hb.2 hst
          rcases p with _ | r
          · cases hp
          · exact ⟨_, rfl, hp⟩
  obtain ⟨r, hr⟩ := Heap.readJob_ok hmn j
  exact ⟨r, by rw [Build.get, hm]; exact hr⟩

/-- A memory that grows keeps a build's lack of nil pointers. -/
lemma Build.noNil_grow {h h' : Heap} {b : Build} (hb : b.noNil h = true) (hg : h.Grows h') :
    b.noNil h' = true := by
  simp only [Build.noNil, Bool.and_eq_true] at hb ⊢
  refine ⟨hg.jobsNoNil hb.1, ?_⟩
  cases hs : b.stages with
  | none => rfl
  | some stages =>
      simp only [hs, Option.all_some, List.all_eq_true] at hb ⊢
      intro e he
      have hr := hb.2 e he
      rcases e with ⟨k, _ | r⟩
      · cases hr
      · simp only [Option.any_some] at hr ⊢
        rcases hg.stage r with heq | ⟨-, -, hnn⟩
        · rw [heq]; exact hg.jobsNoNil hr
        · exact hnn

/-- A build with no nil pointer has no nil stage. -/
lemma Build.noNil_stages {h : Heap} {b : Build} (hb : b.noNil h = true) :
    b.stages.all (·.entries.all (·.2.isSome)) = true := by
  simp only [Build.noNil, Bool.and_eq_true] at hb
  cases hs : b.stages with
  | none => rfl
  | some stages =>
      simp only [hs, Option.all_some, List.all_eq_true] at hb ⊢
      intro e he
      cases h : e.2 with
      | none => simpa [h] using hb.2 e he
      | some st => rfl

/-- The copy `Save` stores of a build with no nil pointer has none, in a memory where the map made
for a nil jobs map is empty. -/
lemma Build.noNil_stored {h : Heap} {b : Build} {fresh : JobsRef} (hb : b.noNil h = true)
    (hfresh : b.jobs = none → h.jobMap fresh = ∅) : (b.stored fresh).noNil h = true := by
  simp only [Build.noNil, Build.stored, Bool.and_eq_true] at hb ⊢
  refine ⟨?_, ?_⟩
  · cases hj : b.jobs with
    | none => simp [Heap.jobsNoNil, hfresh hj]
    | some r => simpa [hj] using hb.1
  · cases hs : b.stages with
    | none => rfl
    | some st => simpa [hs] using hb.2

/-- In a sound store every `fetchJob` answers. -/
lemma Cache.Sound.fetchJob {c : Cache} (hc : c.Sound) (a bid : String) (s j : Int) :
    ∃ r, c.fetchJob a bid s j = .ok r := by
  cases hb : c.fetchBuild a bid with
  | none => exact ⟨none, by simp [Cache.fetchJob, hb]; rfl⟩
  | some b =>
      simp only [Cache.fetchJob, hb]
      exact Build.get_ok_of_noNil (hc.builds _ _ hb).2 s j

/-- `Save` of a build with no nil pointer does not panic, and keeps the store sound. -/
lemma Cache.Sound.save {c : Cache} (hc : c.Sound) {b : Build} (hb : b.noNil c.heap = true) :
    ∃ c' e, c.save b = .ok (c', e) ∧ c'.Sound := by
  obtain ⟨c', e, h⟩ := save_ok_of_stages (Build.noNil_stages hb) c
  refine ⟨c', e, h, save_normalized hc.normalized h, ?_⟩
  cases e with
  | some e => rw [(save_error h).1]; exact hc.builds
  | none =>
      obtain ⟨repo, hrepo, hbuilds, -, hg, -, hfresh⟩ := save_stored h
      intro k b' hk
      rw [hbuilds] at hk
      exact lookup_insert_forall (P := fun b => b.repository.isSome ∧ b.noNil c'.heap = true)
        (fun k b hb => ⟨(hc.builds k b hb).1, Build.noNil_grow (hc.builds k b hb).2 hg⟩)
        ⟨by simp [Build.stored, hrepo], Build.noNil_stored (Build.noNil_grow hb hg) hfresh⟩ k b' hk

/-- Every assignment of a job keeps a sound store sound. -/
lemma Cache.Sound.storeJob {c : Cache} (hc : c.Sound) (r : JobsRef) (job : Job) :
    ({ c with heap := c.heap.storeJob r job } : Cache).Sound :=
  ⟨fun k b hb => (hc.normalized k b hb).grow (Heap.grows_storeJob _ _ _), fun k b hb =>
    ⟨(hc.builds k b hb).1, Build.noNil_grow (hc.builds k b hb).2 (Heap.grows_storeJob _ _ _)⟩⟩

/-- `SaveJob` on a sound store does not panic, and keeps it sound. -/
lemma Cache.Sound.saveJob {c : Cache} (hc : c.Sound) (a bid : String) (s : Int) (job : Job) :
    ∃ c' e, c.saveJob a bid s job = .ok (c', e) ∧ c'.Sound := by
  obtain ⟨c', e, h, -⟩ := saveJob_normalized hc.normalized a bid s job
  refine ⟨c', e, h, ?_⟩
  cases e with
  | some e => rw [saveJob_error h]; exact hc
  | none => obtain ⟨r, -, rfl⟩ := saveJob_ok_inv h; exact hc.storeJob r job

end Citop

import Mathlib.Data.List.Perm.Basic
import Mathlib.Logic.Function.Basic
import Sinnlos.Cms.SearchDocuments

/-! # The search index

Meilisearch as a queue of tasks it executes in the order it accepted them, and
the runs that keep its index current: every call and every task may fail or get
lost, and the rows change between any two steps.
-/

namespace Sinnlos.Cms.Search

/-! ## Meilisearch -/

/-- What an index holds: the document of each id. -/
abbrev Content := String → Option SearchIndexDocument

def noDocuments : Content := fun _ => none

/-- Documents added or replaced by their ids. -/
def put (content : Content) (documents : List SearchIndexDocument) : Content :=
  documents.foldl (fun content document => Function.update content document.id (some document))
    content

/-- The index that holds exactly these documents. -/
def contentOf (documents : List SearchIndexDocument) : Content := put noDocuments documents

theorem contentOf_append (a b : List SearchIndexDocument) :
    contentOf (a ++ b) = put (contentOf a) b := by
  simp [contentOf, put]

inductive IndexName
  | live
  | build
  deriving DecidableEq

abbrev Indexes := IndexName → Option Content

inductive MeiliTask
  | delete (index : IndexName)
  | create (index : IndexName)
  | settings (index : IndexName)
  | addDocuments (index : IndexName) (documents : List SearchIndexDocument)
  | swap (first second : IndexName)
  deriving DecidableEq

/-- What a task does to the indexes, or its error code. Settings and documents
for an index that is not there create it. -/
def MeiliTask.run (index : Indexes) : MeiliTask → Except String Indexes
  | .delete name =>
      if (index name).isSome then .ok (Function.update index name none)
      else .error "index_not_found"
  | .create name =>
      if (index name).isSome then .error "index_already_exists"
      else .ok (Function.update index name (some noDocuments))
  | .settings name => .ok (Function.update index name (some ((index name).getD noDocuments)))
  | .addDocuments name documents =>
      .ok (Function.update index name (some (put ((index name).getD noDocuments) documents)))
  | .swap first second =>
      if (index first).isSome ∧ (index second).isSome then
        .ok (Function.update (Function.update index first (index second)) second (index first))
      else .error "index_not_found"

inductive TaskStatus
  | enqueued
  | succeeded
  | failed (code : String)
  deriving DecidableEq

/-- A task in the queue, with the run that sent it, which Meilisearch does not
know. -/
structure QueuedTask where
  uid : Nat
  run : Nat
  task : MeiliTask
  deriving DecidableEq

/-- The indexes, the accepted tasks, oldest first, and what became of each. -/
structure Meili where
  index : Indexes
  queue : List QueuedTask
  nextUid : Nat
  status : Nat → TaskStatus

def Meili.enqueue (meili : Meili) (run : Nat) (task : MeiliTask) : Meili :=
  { meili with
    queue := meili.queue ++ [⟨meili.nextUid, run, task⟩]
    nextUid := meili.nextUid + 1 }

/-- How the oldest task ends: with an error of its own where `failure` is one. -/
def MeiliTask.outcome (index : Indexes) (task : MeiliTask) :
    Option String → Except String Indexes
  | some code => .error code
  | none => task.run index

def statusOf : Except String Indexes → TaskStatus
  | .ok _ => .succeeded
  | .error code => .failed code

/-- The oldest task is executed. -/
def Meili.settled (meili : Meili) (first : QueuedTask) (rest : List QueuedTask)
    (outcome : Except String Indexes) : Meili :=
  { meili with
    index := outcome.toOption.getD meili.index
    queue := rest
    status := Function.update meili.status first.uid (statusOf outcome) }

/-! ## A run -/

/-- How old the last full check may get before a run repeats it whatever the
probe says. -/
def FULL_CHECK_MS : Nat := 60 * 60000

/-- The last successful full check of this process. -/
structure SyncState where
  signature : Option String
  probe : Option Probe
  checkedAt : Nat
  deriving DecidableEq

/-- A run's own values: its number, the clock at its start and its probe. -/
structure SearchRun where
  number : Nat
  startedAt : Nat
  probe : Probe
  deriving DecidableEq

inductive RebuildStep
  | dropBuild
  | createBuild
  | settings
  | upload
  | checkLive
  | createLive
  | swap
  | dropAfter
  deriving DecidableEq

/-- A rebuild: its documents and the batches still to be uploaded. -/
structure Rebuild where
  run : SearchRun
  documents : List SearchIndexDocument
  batches : List (List SearchIndexDocument)
  step : RebuildStep
  deriving DecidableEq

inductive Stage
  | idle
  | probing (run : SearchRun) (rest : List (IndexedSearchKind × ProbeField))
  | loading (run : SearchRun) (live : Bool) (rest : List IndexedSearchKind)
      (documents : List SearchIndexDocument)
  | sending (job : Rebuild)
  | settling (job : Rebuild) (taskUid : Nat)
  deriving DecidableEq

def Stage.run? : Stage → Option SearchRun
  | .idle => none
  | .probing run _ => some run
  | .loading run _ _ _ => some run
  | .sending job => some job.run
  | .settling job _ => some job.run

/-- A run that has ended, with or without an error. -/
structure EndedRun where
  number : Nat
  startedAt : Nat
  error : Bool
  deriving DecidableEq

/-- The process, the rows and Meilisearch. `loads`, `finished`, `swapped` and
`ended` record what happened: every load, the load of the last finished full
check, the runs whose swap took effect, and the runs that ended, newest first. -/
structure World where
  now : Nat
  published : PublishedRows
  meili : Meili
  state : SyncState
  stage : Stage
  runs : Nat
  loads : List (List SearchIndexDocument)
  finished : Option (List SearchIndexDocument)
  swapped : List Nat
  ended : List EndedRun

def World.live (world : World) : Option Content := world.meili.index .live

/-- A process that has just started, over whatever indexes there are. -/
def World.boot (now : Nat) (published : PublishedRows) (index : Indexes) : World :=
  { now := now
    published := published
    meili := ⟨index, [], 0, fun _ => .enqueued⟩
    state := ⟨none, none, 0⟩
    stage := .idle
    runs := 0
    loads := []
    finished := none
    swapped := []
    ended := [] }

/-- The switched-off modules, the digest and the upload limit. -/
structure SearchEnv where
  off : List ModuleName
  sha256 : List Char → String
  batchBytes : Nat

section Steps
variable (env : SearchEnv)

def World.close (world : World) (run : SearchRun) (error : Bool) : World :=
  { world with stage := .idle, ended := ⟨run.number, run.startedAt, error⟩ :: world.ended }

/-- A run throws. -/
def World.abort (world : World) (run : SearchRun) : World := world.close run true

/-- A full check succeeded: the state advances. -/
def World.finish (world : World) (run : SearchRun) (documents : List SearchIndexDocument) :
    World :=
  { world with
    state := ⟨some (searchFingerprint env.sha256 documents), some run.probe, run.startedAt⟩
    finished := some documents }.close run false

/-- The task a rebuild's step asks for; none where it only reads. -/
def Rebuild.request (job : Rebuild) : Option MeiliTask :=
  match job.step with
  | .dropBuild => some (.delete .build)
  | .createBuild => some (.create .build)
  | .settings => some (.settings .build)
  | .upload => some (.addDocuments .build (job.batches.headD []))
  | .checkLive => none
  | .createLive => some (.create .live)
  | .swap => some (.swap .live .build)
  | .dropAfter => some (.delete .build)

/-- The error code a step takes for success. -/
def RebuildStep.tolerate : RebuildStep → Option String
  | .dropBuild => some "index_not_found"
  | .dropAfter => some "index_not_found"
  | _ => none

/-- The next batch, or the swap's preparation where none is left. -/
def Rebuild.uploading (job : Rebuild) : Rebuild :=
  { job with step := if job.batches = [] then .checkLive else .upload }

/-- The rebuild after a step that went through; none after the last one. -/
def Rebuild.after (job : Rebuild) : Option Rebuild :=
  match job.step with
  | .dropBuild => some { job with step := .createBuild }
  | .createBuild => some { job with step := .settings }
  | .settings => some job.uploading
  | .upload => some { job with batches := job.batches.tail }.uploading
  | .checkLive => some { job with step := .swap }
  | .createLive => some { job with step := .swap }
  | .swap => some { job with step := .dropAfter }
  | .dropAfter => none

/-- A rebuild keeps its run and its documents. -/
theorem Rebuild.after_same {job later : Rebuild} (h : job.after = some later) :
    later.run = job.run ∧ later.documents = job.documents := by
  unfold Rebuild.after at h
  split at h <;> cases h <;> exact ⟨rfl, rfl⟩

/-- A step went through: the next one, or the run's end. -/
def World.advance (world : World) (job : Rebuild) : World :=
  match job.after with
  | some later => { world with stage := .sending later }
  | none => world.finish env job.run job.documents

variable {env} in
theorem World.advance_later {world : World} {job later : Rebuild} (h : job.after = some later) :
    world.advance env job = { world with stage := .sending later } := by
  unfold World.advance
  rw [h]

variable {env} in
theorem World.advance_last {world : World} {job : Rebuild} (h : job.after = none) :
    world.advance env job = world.finish env job.run job.documents := by
  unfold World.advance
  rw [h]

/-- Whether the content has to be loaded: the early return's condition. -/
def SyncState.current (state : SyncState) (run : SearchRun) (live : Bool) : Bool :=
  live && state.signature.isSome && decide (some run.probe = state.probe) &&
    decide (run.startedAt < state.checkedAt + FULL_CHECK_MS)

/-- All kinds are read: the content is compared with the last full check's. -/
def World.compare (world : World) (run : SearchRun) (live : Bool)
    (documents : List SearchIndexDocument) : World :=
  let world := { world with loads := documents :: world.loads }
  if live = false ∨ some (searchFingerprint env.sha256 documents) ≠ world.state.signature then
    match searchBatches documents env.batchBytes with
    | none => world.abort run
    | some batches => { world with stage := .sending ⟨run, documents, batches, .dropBuild⟩ }
  else world.finish env run documents

/-- Meilisearch executes its oldest task. -/
def World.execute (world : World) (failure : Option String) : Option World :=
  match world.meili.queue with
  | [] => none
  | first :: rest =>
      let outcome := first.task.outcome world.meili.index failure
      some { world with
        meili := world.meili.settled first rest outcome
        swapped :=
          if first.task = .swap .live .build ∧ statusOf outcome = .succeeded then
            first.run :: world.swapped
          else world.swapped }

/-- What can happen: time and rows move on, a run starts, its reads and calls
are answered, refused by a missing index, lost on the way back or fail, and
Meilisearch executes a task. `load` names the order the rows came in. -/
inductive Label
  | tick (ms : Nat)
  | change (published : PublishedRows)
  | start
  | probe
  | getLive
  | load (found : List SearchRow)
  | compare
  | accept
  | missing
  | lost
  | fail
  | execute (failure : Option String)
  | poll

def next (world : World) : Label → Option World
  | .tick ms => some { world with now := world.now + ms }
  | .change published => some { world with published := published }
  | .execute failure => world.execute failure
  | .start =>
      match world.stage with
      | .idle =>
          some { world with
            stage := .probing ⟨world.runs, world.now, []⟩ (probeReads env.off)
            runs := world.runs + 1 }
      | _ => none
  | .probe =>
      match world.stage with
      | .probing run (read :: rest) =>
          let found := readProbe (world.published.rows read.1) read.2
          some { world with
            stage := .probing { run with probe := run.probe ++ [(read, found)] } rest }
      | _ => none
  | .getLive =>
      match world.stage with
      | .probing run [] =>
          if world.state.current run world.live.isSome then some (world.close run false)
          else some { world with
            stage := .loading run world.live.isSome (enabledKinds env.off) [] }
      | .sending job =>
          if job.step = .checkLive then
            some { world with
              stage := .sending
                { job with step := if world.live.isSome then .swap else .createLive } }
          else none
      | _ => none
  | .load found =>
      match world.stage with
      | .loading run live (kind :: rest) documents =>
          if found.Perm (world.published.rows kind) then
            some { world with
              stage := .loading run live rest (documents ++ documentsOf kind found) }
          else none
      | _ => none
  | .compare =>
      match world.stage with
      | .loading run live [] documents =>
          some (world.compare env run live (sortDocuments documents))
      | _ => none
  | .accept =>
      match world.stage with
      | .sending job =>
          job.request.map fun task =>
            { world with
              meili := world.meili.enqueue job.run.number task
              stage := .settling job world.meili.nextUid }
      | _ => none
  | .missing =>
      match world.stage with
      | .sending job =>
          if job.step.tolerate.isSome ∧ world.meili.index .build = none then
            some (world.advance env job)
          else none
      | _ => none
  | .lost =>
      match world.stage with
      | .sending job =>
          job.request.map fun task =>
            { world with meili := world.meili.enqueue job.run.number task }.abort job.run
      | _ => none
  | .fail => world.stage.run?.map world.abort
  | .poll =>
      match world.stage with
      | .settling job taskUid =>
          match world.meili.status taskUid with
          | .enqueued => none
          | .succeeded => some (world.advance env job)
          | .failed code =>
              if job.step.tolerate = some code then some (world.advance env job)
              else some (world.abort job.run)
      | _ => none

/-- One step of the world. -/
def Step (world : World) (label : Label) (world' : World) : Prop := next env world label = some world'

/-- A step's result passes for the step that waits for it. -/
def Passing (step : RebuildStep) (status : TaskStatus) : Prop :=
  status = .succeeded ∨ ∃ code, status = .failed code ∧ step.tolerate = some code

/-- What each step finds and does. -/
inductive Happens (world : World) : Label → World → Prop
  | tick (ms : Nat) : Happens world (.tick ms) { world with now := world.now + ms }
  | change (published : PublishedRows) :
      Happens world (.change published) { world with published := published }
  | started (stage : world.stage = .idle) :
      Happens world .start { world with
        stage := .probing ⟨world.runs, world.now, []⟩ (probeReads env.off)
        runs := world.runs + 1 }
  | probed (run : SearchRun) (read : IndexedSearchKind × ProbeField)
      (rest : List (IndexedSearchKind × ProbeField))
      (stage : world.stage = .probing run (read :: rest)) :
      Happens world .probe { world with
        stage := .probing
          { run with
            probe := run.probe ++ [(read, readProbe (world.published.rows read.1) read.2)] } rest }
  | current (run : SearchRun) (stage : world.stage = .probing run [])
      (holds : world.state.current run world.live.isSome = true) :
      Happens world .getLive (world.close run false)
  | checking (run : SearchRun) (stage : world.stage = .probing run []) :
      Happens world .getLive { world with
        stage := .loading run world.live.isSome (enabledKinds env.off) [] }
  | looked (job : Rebuild) (stage : world.stage = .sending job) (step : job.step = .checkLive) :
      Happens world .getLive { world with
        stage := .sending { job with step := if world.live.isSome then .swap else .createLive } }
  | loaded (run : SearchRun) (live : Bool) (kind : IndexedSearchKind)
      (rest : List IndexedSearchKind) (documents : List SearchIndexDocument)
      (found : List SearchRow) (stage : world.stage = .loading run live (kind :: rest) documents)
      (rows : found.Perm (world.published.rows kind)) :
      Happens world (.load found) { world with
        stage := .loading run live rest (documents ++ documentsOf kind found) }
  | compared (run : SearchRun) (live : Bool) (documents : List SearchIndexDocument)
      (stage : world.stage = .loading run live [] documents) :
      Happens world .compare (world.compare env run live (sortDocuments documents))
  | accepted (job : Rebuild) (task : MeiliTask) (stage : world.stage = .sending job)
      (request : job.request = some task) :
      Happens world .accept { world with
        meili := world.meili.enqueue job.run.number task
        stage := .settling job world.meili.nextUid }
  | missing (job : Rebuild) (stage : world.stage = .sending job)
      (tolerate : job.step.tolerate.isSome) (build : world.meili.index .build = none) :
      Happens world .missing (world.advance env job)
  | lost (job : Rebuild) (task : MeiliTask) (stage : world.stage = .sending job)
      (request : job.request = some task) :
      Happens world .lost
        ({ world with meili := world.meili.enqueue job.run.number task }.abort job.run)
  | failed (run : SearchRun) (stage : world.stage.run? = some run) :
      Happens world .fail (world.abort run)
  | passed (job : Rebuild) (uid : Nat) (stage : world.stage = .settling job uid)
      (known : world.meili.status uid ≠ .enqueued)
      (passing : Passing job.step (world.meili.status uid)) :
      Happens world .poll (world.advance env job)
  | refused (job : Rebuild) (uid : Nat) (stage : world.stage = .settling job uid) :
      Happens world .poll (world.abort job.run)
  | executed (failure : Option String) (world' : World)
      (execute : world.execute failure = some world') :
      Happens world (.execute failure) world'

variable {env} {world world' : World}

theorem Step.happens {label : Label} (h : Step env world label world') :
    Happens env world label world' := by
  unfold Step at h
  cases label with
  | tick ms => cases h; exact .tick ms
  | change published => cases h; exact .change published
  | execute failure => exact .executed failure world' h
  | start =>
      dsimp only [next] at h
      split at h <;> cases h
      exact .started ‹_›
  | probe =>
      dsimp only [next] at h
      split at h <;> cases h
      exact .probed _ _ _ ‹_›
  | getLive =>
      dsimp only [next] at h
      split at h
      · split at h <;> cases h
        · exact .current _ ‹_› ‹_›
        · exact .checking _ ‹_›
      · split at h <;> cases h
        exact .looked _ ‹_› ‹_›
      · cases h
  | load found =>
      dsimp only [next] at h
      split at h
      · split at h <;> cases h
        exact .loaded _ _ _ _ _ _ ‹_› ‹_›
      · cases h
  | compare =>
      dsimp only [next] at h
      split at h <;> cases h
      exact .compared _ _ _ ‹_›
  | accept =>
      dsimp only [next] at h
      split at h
      · obtain ⟨task, hrequest, rfl⟩ := Option.map_eq_some_iff.mp h
        exact .accepted _ task ‹_› hrequest
      · cases h
  | missing =>
      dsimp only [next] at h
      split at h
      · split at h
        · next hmissing =>
            cases h
            exact .missing _ ‹_› hmissing.1 hmissing.2
        · cases h
      · cases h
  | lost =>
      dsimp only [next] at h
      split at h
      · obtain ⟨task, hrequest, rfl⟩ := Option.map_eq_some_iff.mp h
        exact .lost _ task ‹_› hrequest
      · cases h
  | fail =>
      obtain ⟨run, hrun, rfl⟩ := Option.map_eq_some_iff.mp h
      exact .failed run hrun
  | poll =>
      dsimp only [next] at h
      split at h
      · split at h
        · cases h
        · next hstatus =>
            cases h
            exact .passed _ _ ‹_› (by rw [hstatus]; simp) (Or.inl hstatus)
        · next code hstatus =>
            split at h
            · next htolerate =>
                cases h
                exact .passed _ _ ‹_› (by rw [hstatus]; simp) (Or.inr ⟨code, hstatus, htolerate⟩)
            · cases h
              exact .refused _ _ ‹_›
      · cases h

end Steps

end Sinnlos.Cms.Search

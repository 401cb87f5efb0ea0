import Sinnlos.Lib.Runs

/-! # Guarded cron tasks

One guarded task of `apps/cms/src/cron`: the run context that waits for the
tracked work of a run, the overlap guard, and the status row written after a run.
The body of a run and its tracked work are anything that reports, tracks and
settles in any order.
-/

namespace Sinnlos.Cms.Cron

inductive CronOutcome
  | ok
  | failed
deriving DecidableEq

/-! ## The run context -/

inductive RunPhase
  /-- The body runs. -/
  | body
  /-- The body has ended, and the run waits for its tracked work. -/
  | waiting
  /-- The run has ended, and its outcome is being recorded. -/
  | recording (outcome : CronOutcome) (finishedAt : Int)
  /-- The guard is released; `written` where the status row was written. -/
  | done (outcome : CronOutcome) (finishedAt : Int) (written : Bool)
deriving DecidableEq

structure CronRun where
  started : Int
  phase : RunPhase
  /-- The body threw. -/
  threw : Bool
  failed : Bool
  pending : List Nat
  /-- The work that the run waits for at present. -/
  awaited : List Nat
  /-- All work tracked so far, and that of it which has settled. -/
  tracked : List Nat
  settled : List Nat
deriving DecidableEq

inductive RunEvent
  /-- A failure reported in the context of the run, by whatever code runs in it. -/
  | report
  /-- The body, or tracked work that has not settled, tracks more work. -/
  | track (work : Nat)
  | settle (work : Nat) (rejected : Bool)
  | bodyEnds (threw : Bool)
  /-- Everything awaited has settled, and there is more. -/
  | turn
  /-- Everything awaited has settled, and there is no more. -/
  | finish (now : Int)
deriving DecidableEq

def runCronTask (now : Int) : CronRun :=
  { started := now, phase := .body, threw := false, failed := false, pending := [], awaited := []
    tracked := [], settled := [] }

/-- Some code of the run that the run waits for is still running. -/
def CronRun.busy (run : CronRun) : Bool :=
  run.phase = .body || run.tracked.any fun work => !run.settled.contains work

def CronRun.allSettled (run : CronRun) : Bool := run.awaited.all run.settled.contains

def CronRun.next (run : CronRun) : RunEvent → Option CronRun
  | .report => some { run with failed := true }
  | .track work =>
      if run.busy && !run.tracked.contains work then
        some { run with pending := run.pending ++ [work], tracked := run.tracked ++ [work] }
      else none
  | .settle work rejected =>
      -- a rejection is reported before the wrapped promise settles
      if run.tracked.contains work && !run.settled.contains work then
        some { run with settled := run.settled ++ [work], failed := run.failed || rejected }
      else none
  | .bodyEnds threw =>
      if run.phase = .body then some { run with phase := .waiting, threw } else none
  | .turn =>
      if run.phase = .waiting ∧ run.allSettled = true ∧ run.pending ≠ [] then
        some { run with awaited := run.pending, pending := [] }
      else none
  | .finish now =>
      if run.phase = .waiting ∧ run.allSettled = true ∧ run.pending = [] then
        let outcome : CronOutcome := if run.threw || run.failed then .failed else .ok
        some { run with phase := .recording outcome now }
      else none

/-! ## The status row -/

structure CronTaskStatus where
  lastStartedAt : Int
  lastFinishedAt : Int
  lastOutcome : CronOutcome
  lastFailedAt : Option Int
  everyMinutes : Nat
deriving DecidableEq

def UNCHANGED_OK_WRITE_MS : Int := 600000

/-- The row in the database, none where there is no readable one, and what the
process remembers of it: none before it has read or written one. -/
structure CronStore where
  stored : Option CronTaskStatus
  last : Option (Option CronTaskStatus)
deriving DecidableEq

/-- The status to compare with; none where reading it fails. -/
def CronStore.lastStatus (store : CronStore) (readFails : Bool) : Option (Option CronTaskStatus) :=
  match store.last with
  | some last => some last
  | none => if readFails then none else some store.stored

/-- A success after a success, and the written one is young. -/
def unchangedOk (last : Option CronTaskStatus) (outcome : CronOutcome) (finishedAt : Int) : Bool :=
  last.any fun last =>
    outcome = .ok && last.lastOutcome = .ok &&
      finishedAt - last.lastFinishedAt < UNCHANGED_OK_WRITE_MS

def nextStatus (everyMinutes : Nat) (last : Option CronTaskStatus) (outcome : CronOutcome)
    (startedAt finishedAt : Int) : CronTaskStatus where
  lastStartedAt := startedAt
  lastFinishedAt := finishedAt
  lastOutcome := outcome
  lastFailedAt :=
    match outcome with
    | .failed => some finishedAt
    | .ok => last.bind CronTaskStatus.lastFailedAt
  everyMinutes

/-- Record one finished run; also whether the row was written. -/
def recordCronRun (everyMinutes : Nat) (store : CronStore) (outcome : CronOutcome)
    (startedAt finishedAt : Int) (readFails writeFails : Bool) : CronStore × Bool :=
  match store.lastStatus readFails with
  | none => (store, false)
  | some last =>
      if unchangedOk last outcome finishedAt then ({ store with last := some last }, false)
      else if writeFails then (store, false)
      else
        let status := nextStatus everyMinutes last outcome startedAt finishedAt
        ({ stored := some status, last := some (some status) }, true)

/-! ## The guarded task -/

structure CronState where
  inFlight : Bool
  /-- The runs so far, in the order of their starts. -/
  runs : List CronRun
  store : CronStore
deriving DecidableEq

inductive CronLabel
  /-- The schedule calls the task; a call during a run is skipped. -/
  | invoke (now : Int)
  | event (run : Nat) (event : RunEvent)
  | record (run : Nat) (readFails writeFails : Bool)
deriving DecidableEq

/-- Write the outcome of a run, then release the guard; a failed write is logged. -/
def CronState.record (everyMinutes : Nat) (s : CronState) (i : Nat) (readFails writeFails : Bool) :
    Option CronState :=
  s.runs[i]?.bind fun run =>
    match run.phase with
    | .recording outcome finishedAt =>
        let (store, written) :=
          recordCronRun everyMinutes s.store outcome run.started finishedAt readFails writeFails
        some
          { inFlight := false
            runs := s.runs.set i { run with phase := .done outcome finishedAt written }
            store }
    | _ => none

def guardedTask (everyMinutes : Nat) (s : CronState) : CronLabel → Option CronState
  | .invoke now =>
      if s.inFlight then some s
      else some { s with inFlight := true, runs := s.runs ++ [runCronTask now] }
  | .event i event =>
      s.runs[i]?.bind fun run => (run.next event).map fun run => { s with runs := s.runs.set i run }
  | .record i readFails writeFails => s.record everyMinutes i readFails writeFails

/-- One step of the process as far as the task goes. -/
def CronStep (everyMinutes : Nat) (s : CronState) (label : CronLabel) (s' : CronState) : Prop :=
  guardedTask everyMinutes s label = some s'

/-- The process has just started; the row may hold anything. -/
def CronState.Started (s : CronState) : Prop :=
  s.inFlight = false ∧ s.runs = [] ∧ s.store.last = none

end Sinnlos.Cms.Cron

import Sinnlos.Lib.Runs

/-! # Tasks after a commit

The transactions of one async context share one list of commit callbacks and one
of rollback callbacks, which nothing clears; each outermost commit or rollback
calls the whole list. A task registered inside a transaction is wrapped to run at
most once, and a rollback of its transaction cancels it.
-/

namespace Sinnlos.Cms.AfterCommit

open Sinnlos.Runs

/-- How a callback ended: it returned, or it threw. -/
abbrev Outcome := Except String Unit

/-! ## The cron run of the context -/

structure CronRun where
  name : String
  failed : Bool
  lines : List String
deriving DecidableEq, Repr

/-- Marks the current cron run failed and logs it; a no-op outside a run. -/
def reportRunFailure (run : Option CronRun) (err : String) : Option CronRun :=
  run.map fun r =>
    { r with failed := true, lines := r.lines ++ ["[cron] " ++ r.name ++ " failed: " ++ err] }

/-! ## One task -/

inductive TrxStatus
  | active
  | committed
  | rolledBack
deriving DecidableEq, Repr

/-- A task with its error handler. -/
structure Task where
  body : Outcome
  onError : Outcome
deriving Repr

/-- The body that `once` guards: an error goes to the cron run and to the
handler, and an error of the handler goes nowhere. -/
def guardedBody (task : Task) (run : Option CronRun) : Outcome × Option CronRun :=
  match task.body with
  | .ok () => (.ok (), run)
  | .error err => (tryCatch task.onError fun _ => pure (), reportRunFailure run err)

/-- A registered task. `owner` is the transaction it was registered in; `starts`
keeps the status of the owner at each start. -/
structure OnceTask where
  task : Task
  owner : Nat
  done : Bool
  starts : List TrxStatus

/-! ## The context -/

structure Transaction where
  status : TrxStatus
  /-- Nested transactions that are still running. -/
  nested : Nat

/-- Every registration adds one commit callback and one rollback callback, so
`tasks` stands for both lists, in the order of registration. `escaped` collects
what a task or a callback throws. -/
structure Context where
  transactions : List Transaction
  tasks : List OnceTask
  run : Option CronRun
  escaped : List String

def Context.statusOf (context : Context) (trx : Nat) : TrxStatus :=
  (context.transactions[trx]?.map Transaction.status).getD .committed

/-- Whether the transaction is still open. -/
def Context.isOpen (context : Context) (trx : Nat) : Bool := context.statusOf trx = .active

def Context.setStatus (context : Context) (trx : Nat) (status : TrxStatus) : Context :=
  { context with
    transactions := context.transactions.modify trx fun t => { t with status := status } }

/-- The errors that a callback lets out. -/
def escapedOf : Outcome → List String
  | .ok () => []
  | .error err => [err]

/-- The commit callbacks, each called once in the order of registration: a task
that is done returns at once. -/
def callCommit (statusOf : Nat → TrxStatus) :
    List OnceTask → Option CronRun → List OnceTask × Option CronRun × List String
  | [], run => ([], run, [])
  | once :: rest, run =>
      if once.done then
        let (tasks, run, escaped) := callCommit statusOf rest run
        (once :: tasks, run, escaped)
      else
        let (outcome, run) := guardedBody once.task run
        let started := { once with done := true, starts := once.starts ++ [statusOf once.owner] }
        let (tasks, run, escaped) := callCommit statusOf rest run
        (started :: tasks, run, escapedOf outcome ++ escaped)

/-- A rollback callback: it cancels the task unless its transaction is open. -/
def cancel (statusOf : Nat → TrxStatus) (once : OnceTask) : OnceTask :=
  if statusOf once.owner = .active then once else { once with done := true }

inductive Label
  /-- An outermost transaction begins. -/
  | start
  /-- A nested transaction joins the open one. -/
  | nest (trx : Nat)
  /-- A nested transaction ends; neither its commit nor its rollback does anything. -/
  | unnest (trx : Nat)
  /-- `afterCommit` inside a transaction. -/
  | register (trx : Nat) (task : Task)
  /-- `afterCommit` without a transaction. -/
  | runNow (task : Task)
  | commit (trx : Nat)
  | rollback (trx : Nat)

/-- What each event does; none where it cannot happen. -/
def next (context : Context) : Label → Option Context
  | .start => some
      { context with transactions := context.transactions ++ [⟨.active, 0⟩] }
  | .nest trx =>
      if context.isOpen trx then some
        { context with
          transactions := context.transactions.modify trx fun t => { t with nested := t.nested + 1 } }
      else none
  | .unnest trx =>
      if context.isOpen trx then some
        { context with
          transactions := context.transactions.modify trx fun t => { t with nested := t.nested - 1 } }
      else none
  | .register trx task =>
      if context.isOpen trx then some
        { context with
          tasks := context.tasks ++ [{ task := task, owner := trx, done := false, starts := [] }] }
      else none
  | .runNow task =>
      let (outcome, run) := guardedBody task context.run
      some { context with run := run, escaped := context.escaped ++ escapedOf outcome }
  | .commit trx =>
      if context.isOpen trx ∧ (context.transactions[trx]?.map Transaction.nested) = some 0 then
        let committed := context.setStatus trx .committed
        let (tasks, run, escaped) := callCommit committed.statusOf committed.tasks committed.run
        some { committed with tasks := tasks, run := run, escaped := committed.escaped ++ escaped }
      else none
  | .rollback trx =>
      if context.isOpen trx ∧ (context.transactions[trx]?.map Transaction.nested) = some 0 then
        let rolledBack := context.setStatus trx .rolledBack
        some { rolledBack with tasks := rolledBack.tasks.map (cancel rolledBack.statusOf) }
      else none

def Step (context : Context) (label : Label) (context' : Context) : Prop :=
  next context label = some context'

/-- A context without transactions, inside a cron run or not. -/
def Context.fresh (run : Option CronRun) : Context :=
  { transactions := [], tasks := [], run := run, escaped := [] }

/-! ## What the wrapper promises -/

/-- A registered task follows its own transaction. -/
structure OnceTask.Follows (statusOf : Nat → TrxStatus) (once : OnceTask) : Prop where
  at_most_once : once.starts.length ≤ 1
  after_commit : ∀ status ∈ once.starts, status = .committed
  runs : statusOf once.owner = .committed → once.starts.length = 1
  never_after_rollback : statusOf once.owner = .rolledBack → once.starts = []

/-- Every task follows its own transaction, and no error escapes. -/
structure Context.Follows (context : Context) : Prop where
  tasks : ∀ once ∈ context.tasks, once.Follows context.statusOf
  escaped : context.escaped = []

/-- A transaction other than this one is open and has a task registered. -/
def Context.Overlaps (context : Context) (trx : Nat) : Prop :=
  ∃ once ∈ context.tasks, once.owner ≠ trx ∧ context.isOpen once.owner = true

/-- A step that commits no transaction while another one with a task is open. -/
def CleanStep (context : Context) (label : Label) (context' : Context) : Prop :=
  Step context label context' ∧ ∀ trx, label = .commit trx → ¬context.Overlaps trx

/-! ## The wrapper of one task -/

theorem guardedBody_ok (task : Task) (run : Option CronRun) :
    (guardedBody task run).1 = .ok () := by
  unfold guardedBody
  split
  · rfl
  · cases hhandler : task.onError with
    | ok u => rfl
    | error err => rfl

/-- Nothing escapes the commit callbacks. -/
theorem callCommit_escaped (statusOf : Nat → TrxStatus) (tasks : List OnceTask)
    (run : Option CronRun) : (callCommit statusOf tasks run).2.2 = [] := by
  induction tasks generalizing run with
  | nil => rfl
  | cons once rest ih =>
      unfold callCommit
      split
      · exact ih run
      · have hbody := guardedBody_ok once.task run
        have hrest := ih (guardedBody once.task run).2
        simp only [hbody, escapedOf, List.nil_append]
        exact hrest

/-- A task's commit callback. -/
def start (statusOf : Nat → TrxStatus) (once : OnceTask) : OnceTask :=
  if once.done then once
  else { once with done := true, starts := once.starts ++ [statusOf once.owner] }

theorem callCommit_tasks (statusOf : Nat → TrxStatus) (tasks : List OnceTask)
    (run : Option CronRun) : (callCommit statusOf tasks run).1 = tasks.map (start statusOf) := by
  induction tasks generalizing run with
  | nil => rfl
  | cons once rest ih =>
      unfold callCommit
      rw [List.map_cons]
      unfold start
      split
      · have hrest := ih run
        simp only [hrest]
        rfl
      · have hrest := ih (guardedBody once.task run).2
        simp only [hrest]
        rfl

/-! ## Statuses -/

variable {trx : Nat} {context : Context} {once : OnceTask}

theorem statusOf_setStatus (context : Context) (h : context.isOpen trx = true)
    (status : TrxStatus) (other : Nat) :
    (context.setStatus trx status).statusOf other =
      if other = trx then status else context.statusOf other := by
  unfold Context.isOpen at h
  have hopen := of_decide_eq_true h
  unfold Context.setStatus Context.statusOf
  by_cases heq : other = trx
  · rw [heq, if_pos rfl, List.getElem?_modify_eq]
    unfold Context.statusOf at hopen
    cases hget : context.transactions[trx]? with
    | none =>
        rw [hget] at hopen
        cases hopen
    | some t => rfl
  · have hne : trx ≠ other := fun h => heq h.symm
    rw [if_neg heq, List.getElem?_modify_ne _ _ hne]

theorem statusOf_nested (context : Context) (trx other : Nat) (f : Nat → Nat) :
    ({ context with
        transactions := context.transactions.modify trx
          fun t => { t with nested := f t.nested } } : Context).statusOf other =
      context.statusOf other := by
  unfold Context.statusOf
  by_cases heq : trx = other
  · rw [heq, List.getElem?_modify_eq]
    cases context.transactions[other]? <;> rfl
  · rw [List.getElem?_modify_ne _ _ heq]

theorem statusOf_append (context : Context) (h : trx < context.transactions.length) :
    ({ context with transactions := context.transactions ++ [⟨.active, 0⟩] } : Context).statusOf
      trx = context.statusOf trx := by
  unfold Context.statusOf
  rw [List.getElem?_append_left h]

theorem lt_of_isOpen (h : context.isOpen trx = true) : trx < context.transactions.length := by
  unfold Context.isOpen Context.statusOf at h
  have hopen := of_decide_eq_true h
  cases hget : context.transactions[trx]? with
  | none =>
      rw [hget] at hopen
      cases hopen
  | some t => exact (List.getElem?_eq_some_iff.mp hget).choose

/-! ## Tasks between the events -/

/-- A task waits as long as its transaction is open, has run once when that
committed, and is cancelled when it rolled back. -/
structure Settled (statusOf : Nat → TrxStatus) (once : OnceTask) : Prop where
  waiting : statusOf once.owner = .active → once.done = false ∧ once.starts = []
  ran : statusOf once.owner = .committed → once.done = true ∧ once.starts = [.committed]
  cancelled : statusOf once.owner = .rolledBack → once.done = true ∧ once.starts = []

theorem Settled.follows {statusOf : Nat → TrxStatus} (h : Settled statusOf once) :
    once.Follows statusOf := by
  cases hstatus : statusOf once.owner with
  | active =>
      have hstarts := (h.waiting hstatus).2
      constructor <;> simp [hstarts, hstatus]
  | committed =>
      have hstarts := (h.ran hstatus).2
      constructor <;> simp [hstarts, hstatus]
  | rolledBack =>
      have hstarts := (h.cancelled hstatus).2
      constructor <;> simp [hstarts, hstatus]

theorem Settled.congr {statusOf statusOf' : Nat → TrxStatus} (h : Settled statusOf once)
    (hsame : statusOf' once.owner = statusOf once.owner) : Settled statusOf' once := by
  constructor
  · intro hstatus
    exact h.waiting (hsame ▸ hstatus)
  · intro hstatus
    exact h.ran (hsame ▸ hstatus)
  · intro hstatus
    exact h.cancelled (hsame ▸ hstatus)

/-- A task whose transaction is over is done. -/
theorem Settled.done {statusOf : Nat → TrxStatus} (h : Settled statusOf once)
    (hover : statusOf once.owner ≠ .active) : once.done = true := by
  cases hstatus : statusOf once.owner with
  | active => exact absurd hstatus hover
  | committed => exact (h.ran hstatus).1
  | rolledBack => exact (h.cancelled hstatus).1

/-- What holds of a context between two events of a clean run. -/
structure Inv (context : Context) : Prop where
  owners : ∀ once ∈ context.tasks, once.owner < context.transactions.length
  settled : ∀ once ∈ context.tasks, Settled context.statusOf once
  escaped : context.escaped = []

theorem Inv.follows (h : Inv context) : context.Follows :=
  ⟨fun once hmem => (h.settled once hmem).follows, h.escaped⟩

/-- An outermost commit of a clean run. -/
theorem Inv.commit (h : Inv context) (hopen : context.isOpen trx = true)
    (hclean : ¬context.Overlaps trx) (hmem : once ∈ context.tasks) :
    Settled (context.setStatus trx .committed).statusOf
      (start (context.setStatus trx .committed).statusOf once) := by
  have hstatus := statusOf_setStatus context hopen .committed once.owner
  have hsettled := h.settled once hmem
  by_cases hown : once.owner = trx
  · -- its own transaction commits: the task was waiting and runs now
    rw [if_pos hown] at hstatus
    have hactive : context.statusOf once.owner = .active := by
      rw [hown]
      exact of_decide_eq_true hopen
    have hwaiting := hsettled.waiting hactive
    have hstart : start (context.setStatus trx .committed).statusOf once =
        { once with done := true, starts := [.committed] } := by
      unfold start
      rw [hwaiting.1, hwaiting.2, hstatus]
      rfl
    rw [hstart]
    constructor <;> simp [hstatus]
  · -- a sibling commits: the task's own transaction is over, so it is done
    rw [if_neg hown] at hstatus
    have hover : context.statusOf once.owner ≠ .active := by
      intro hactive
      exact hclean ⟨once, hmem, hown, decide_eq_true hactive⟩
    have hstart : start (context.setStatus trx .committed).statusOf once = once := by
      unfold start
      rw [if_pos (hsettled.done hover)]
    rw [hstart]
    exact hsettled.congr hstatus

/-- An outermost rollback. -/
theorem Inv.rollback (h : Inv context) (hopen : context.isOpen trx = true)
    (hmem : once ∈ context.tasks) :
    Settled (context.setStatus trx .rolledBack).statusOf
      (cancel (context.setStatus trx .rolledBack).statusOf once) := by
  have hstatus := statusOf_setStatus context hopen .rolledBack once.owner
  have hsettled := h.settled once hmem
  by_cases hown : once.owner = trx
  · rw [if_pos hown] at hstatus
    have hactive : context.statusOf once.owner = .active := by
      rw [hown]
      exact of_decide_eq_true hopen
    have hwaiting := hsettled.waiting hactive
    have hcancel : cancel (context.setStatus trx .rolledBack).statusOf once =
        { once with done := true } := by
      unfold cancel
      rw [hstatus]
      rfl
    rw [hcancel]
    constructor <;> simp [hstatus, hwaiting.2]
  · rw [if_neg hown] at hstatus
    have hcancel : cancel (context.setStatus trx .rolledBack).statusOf once = once := by
      unfold cancel
      split
      · rfl
      · rename_i hover
        rw [hstatus] at hover
        have hdone := hsettled.done hover
        cases once
        simp only at hdone
        rw [hdone]
    rw [hcancel]
    exact hsettled.congr hstatus

variable {context' : Context}

/-- Every clean step keeps the tasks settled. -/
theorem CleanStep.inv {label : Label} (hstep : CleanStep context label context') (h : Inv context) :
    Inv context' := by
  obtain ⟨hnext, hclean⟩ := hstep
  cases label with
  | start =>
      have hcontext := Option.some.inj hnext
      rw [← hcontext]
      refine ⟨?_, ?_, h.escaped⟩
      · intro once hmem
        have hlt := h.owners once hmem
        rw [List.length_append]
        omega
      · intro once hmem
        exact (h.settled once hmem).congr (statusOf_append context (h.owners once hmem))
  | nest trx =>
      dsimp only [Step, next] at hnext
      split at hnext
      · rw [← Option.some.inj hnext]
        refine ⟨?_, ?_, h.escaped⟩
        · intro once hmem
          rw [List.length_modify]
          exact h.owners once hmem
        · intro once hmem
          exact (h.settled once hmem).congr (statusOf_nested context trx once.owner (· + 1))
      · cases hnext
  | unnest trx =>
      dsimp only [Step, next] at hnext
      split at hnext
      · rw [← Option.some.inj hnext]
        refine ⟨?_, ?_, h.escaped⟩
        · intro once hmem
          rw [List.length_modify]
          exact h.owners once hmem
        · intro once hmem
          exact (h.settled once hmem).congr (statusOf_nested context trx once.owner (· - 1))
      · cases hnext
  | register trx task =>
      dsimp only [Step, next] at hnext
      split at hnext
      · rename_i hopen
        rw [← Option.some.inj hnext]
        have hactive : context.statusOf trx = .active := of_decide_eq_true hopen
        refine ⟨?_, ?_, h.escaped⟩
        · intro once hmem
          obtain hold | hnew := List.mem_append.mp hmem
          · exact h.owners once hold
          · rw [List.mem_singleton.mp hnew]
            exact lt_of_isOpen hopen
        · intro once hmem
          obtain hold | hnew := List.mem_append.mp hmem
          · exact h.settled once hold
          · rw [List.mem_singleton.mp hnew]
            have hsame : ({ context with tasks := context.tasks ++ [⟨task, trx, false, []⟩] } :
                Context).statusOf trx = .active := hactive
            constructor <;> simp [hsame]
      · cases hnext
  | runNow task =>
      have hcontext : _ = context' := Option.some.inj hnext
      rw [← hcontext]
      refine ⟨h.owners, h.settled, ?_⟩
      change context.escaped ++ escapedOf (guardedBody task context.run).1 = []
      rw [h.escaped, guardedBody_ok]
      rfl
  | commit trx =>
      dsimp only [Step, next] at hnext
      split at hnext
      · rename_i hopen
        rw [← Option.some.inj hnext]
        refine ⟨?_, ?_, ?_⟩
        · intro once hmem
          dsimp only at hmem ⊢
          rw [callCommit_tasks] at hmem
          obtain ⟨before, hbefore, rfl⟩ := List.mem_map.mp hmem
          have hlt := h.owners before hbefore
          have howner : (start (context.setStatus trx .committed).statusOf before).owner =
              before.owner := by
            unfold start
            split <;> rfl
          have hlength : (context.setStatus trx .committed).transactions.length =
              context.transactions.length := List.length_modify _ _ _
          rw [howner, hlength]
          exact hlt
        · intro once hmem
          dsimp only at hmem
          rw [callCommit_tasks] at hmem
          obtain ⟨before, hbefore, rfl⟩ := List.mem_map.mp hmem
          exact h.commit hopen.1 (hclean trx rfl) hbefore
        · have hold : (context.setStatus trx .committed).escaped = [] := h.escaped
          rw [hold, callCommit_escaped]
          rfl
      · cases hnext
  | rollback trx =>
      dsimp only [Step, next] at hnext
      split at hnext
      · rename_i hopen
        rw [← Option.some.inj hnext]
        refine ⟨?_, ?_, h.escaped⟩
        · intro once hmem
          obtain ⟨before, hbefore, rfl⟩ := List.mem_map.mp hmem
          have hlt := h.owners before hbefore
          have howner : (cancel (context.setStatus trx .rolledBack).statusOf before).owner =
              before.owner := by
            unfold cancel
            split <;> rfl
          have hlength : (context.setStatus trx .rolledBack).transactions.length =
              context.transactions.length := List.length_modify _ _ _
          dsimp only
          rw [howner, hlength]
          exact hlt
        · intro once hmem
          obtain ⟨before, hbefore, rfl⟩ := List.mem_map.mp hmem
          exact h.rollback hopen.1 hbefore
      · cases hnext

theorem inv_fresh (run : Option CronRun) : Inv (Context.fresh run) :=
  ⟨fun _ hmem => absurd hmem List.not_mem_nil, fun _ hmem => absurd hmem List.not_mem_nil, rfl⟩

/-- A commit beside an open transaction with a task starts that task early. -/
theorem not_follows_of_overlaps (h : Inv context) (hoverlaps : context.Overlaps trx)
    (hstep : Step context (.commit trx) context') : ¬context'.Follows := by
  intro hfollows
  dsimp only [Step, next] at hstep
  split at hstep
  · rename_i hopen
    obtain ⟨once, hmem, hown, hother⟩ := hoverlaps
    have hactive : context.statusOf once.owner = .active := of_decide_eq_true hother
    have hwaiting := (h.settled once hmem).waiting hactive
    have hstatus := statusOf_setStatus context hopen.1 .committed once.owner
    rw [if_neg hown, hactive] at hstatus
    have hstarted : start (context.setStatus trx .committed).statusOf once ∈ context'.tasks := by
      rw [← Option.some.inj hstep]
      dsimp only
      rw [callCommit_tasks]
      exact List.mem_map_of_mem hmem
    have hearly : (start (context.setStatus trx .committed).statusOf once).starts = [.active] := by
      unfold start
      rw [hwaiting.1, hwaiting.2, hstatus]
      rfl
    have hafter := (hfollows.tasks _ hstarted).after_commit .active (by rw [hearly]; simp)
    cases hafter
  · cases hstep

/-- Every task follows its own transaction at every moment of a run. -/
def FollowsThroughout (run : Option CronRun) (labels : List Label) : Prop :=
  ∀ first rest middle, labels = first ++ rest → Run Step (Context.fresh run) first middle →
    middle.Follows

theorem clean_of_follows {run : Option CronRun} {labels : List Label}
    (h : Run Step (Context.fresh run) labels context) :
    FollowsThroughout run labels → Run CleanStep (Context.fresh run) labels context := by
  refine Run.snocInduction (motive := fun labels context =>
    FollowsThroughout run labels → Run CleanStep (Context.fresh run) labels context)
    (fun _ => Run.refl _) ?_ h
  intro labels before label after hbefore ih hstep hall
  have hclean : Run CleanStep (Context.fresh run) labels before := by
    apply ih
    intro first rest middle hcut hrun
    exact hall first (rest ++ [label]) middle (by rw [hcut, List.append_assoc]) hrun
  have hinv := hclean.invariant (fun _ _ _ hs hi => hs.inv hi) (inv_fresh run)
  apply hclean.snoc
  refine ⟨hstep, ?_⟩
  intro trx hlabel hoverlaps
  rw [hlabel] at hstep hall
  apply not_follows_of_overlaps hinv hoverlaps hstep
  exact hall (labels ++ [.commit trx]) [] after (List.append_nil _).symm (hbefore.snoc hstep)

/-- In a run of the context every task follows its own transaction at every
moment, and no error escapes, exactly if no transaction commits while another
one with a task registered is open. -/
theorem tasks_follow_iff (run : Option CronRun) (labels : List Label) (context : Context)
    (h : Run Step (Context.fresh run) labels context) :
    FollowsThroughout run labels ↔ Run CleanStep (Context.fresh run) labels context := by
  constructor
  · exact clean_of_follows h
  · intro hclean first rest middle hcut hrun
    rw [hcut] at hclean
    obtain ⟨point, hfirst, -⟩ := hclean.split
    have hstep : Run Step (Context.fresh run) first point :=
      hfirst.restrict Step fun _ _ _ _ hs => hs.1
    have hsame : middle = point := by
      apply Run.unique _ hrun hstep
      intro s a t t' ht ht'
      exact Option.some.inj (ht.symm.trans ht')
    rw [hsame]
    exact (hfirst.invariant (fun _ _ _ hs hi => hs.inv hi) (inv_fresh run)).follows

/-- A task of one transaction beside the commit of another. -/
def overlappingSiblings : List Label :=
  [.start, .start, .register 0 ⟨.ok (), .ok ()⟩, .commit 1, .rollback 0]

/-- One transaction after the other, the first one rolled back. -/
def sequentialSiblings : List Label :=
  [.start, .register 0 ⟨.error "boom", .error "handler broke"⟩, .rollback 0, .start,
    .register 1 ⟨.ok (), .ok ()⟩, .commit 1]

/-- A failing task of a transaction that rolled back, and a task of its sibling. -/
def afterSiblings : Context :=
  { transactions := [⟨.rolledBack, 0⟩, ⟨.committed, 0⟩]
    tasks := [⟨⟨.error "boom", .error "handler broke"⟩, 0, true, []⟩,
      ⟨⟨.ok (), .ok ()⟩, 1, true, [.committed]⟩]
    run := none
    escaped := [] }

theorem clean_sequential : Run CleanStep (Context.fresh none) sequentialSiblings afterSiblings := by
  apply Run.cons ⟨rfl, fun _ hcommit => nomatch hcommit⟩
  apply Run.cons ⟨rfl, fun _ hcommit => nomatch hcommit⟩
  apply Run.cons ⟨rfl, fun _ hcommit => nomatch hcommit⟩
  apply Run.cons ⟨rfl, fun _ hcommit => nomatch hcommit⟩
  apply Run.cons ⟨rfl, fun _ hcommit => nomatch hcommit⟩
  apply Run.single
  refine ⟨rfl, ?_⟩
  intro trx hcommit hoverlaps
  rw [← Label.commit.inj hcommit] at hoverlaps
  obtain ⟨once, hmem, hown, hopen⟩ := hoverlaps
  obtain rfl | rfl := List.mem_pair.mp hmem
  · cases hopen
  · exact hown rfl

theorem tasks_follow_sequential : FollowsThroughout none sequentialSiblings ∧
    Run Step (Context.fresh none) sequentialSiblings afterSiblings := by
  have hrun : Run Step (Context.fresh none) sequentialSiblings afterSiblings :=
    clean_sequential.restrict Step fun _ _ _ _ hs => hs.1
  exact ⟨(tasks_follow_iff none sequentialSiblings afterSiblings hrun).mpr clean_sequential, hrun⟩

/-- The task starts while its transaction is open, which then rolls back. -/
theorem task_runs_before_rollback :
    ∃ context, Run Step (Context.fresh none) overlappingSiblings context ∧
      ∃ once ∈ context.tasks, context.statusOf once.owner = .rolledBack ∧
        once.starts = [.active] := by
  have hfollow : follow next (Context.fresh none) overlappingSiblings =
      some { transactions := [⟨.rolledBack, 0⟩, ⟨.committed, 0⟩]
             tasks := [⟨⟨.ok (), .ok ()⟩, 0, true, [.active]⟩]
             run := none
             escaped := [] } := rfl
  exact ⟨_, run_of_follow hfollow, _, List.mem_singleton_self _, rfl, rfl⟩

end Sinnlos.Cms.AfterCommit

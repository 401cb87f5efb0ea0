import Sinnlos.Cms.SearchQueue
import Sinnlos.Lib.Runs

/-! # What a run has reached

Before each call of a rebuild: what stands in the queue, what the build index
holds, and whether the swap has taken effect. Every step of the world keeps
it, whatever fails.
-/

namespace Sinnlos.Cms.Search

/-- The run with this number ended with an error. -/
def Failed (ended : List EndedRun) (number : Nat) : Prop :=
  ∃ run ∈ ended, run.error = true ∧ run.number = number

/-- The batches still to come complete what the build index holds. -/
def Uploaded (index : Indexes) (job : Rebuild) : Prop :=
  ∃ sent, sent ++ job.batches.flatten = job.documents ∧ index .build = some (contentOf sent)

/-- What holds before a step's call, with `before` in the queue. -/
def Ready (index : Indexes) (swapped : List Nat) (before : List QueuedTask) (job : Rebuild) :
    Prop :=
  match job.step with
  | .dropBuild => job.batches.flatten = job.documents ∧ job.run.number ∉ swapped
  | .createBuild =>
      job.batches.flatten = job.documents ∧ job.run.number ∉ swapped ∧ SwapFree before
  | .settings => before = [] ∧ job.run.number ∉ swapped ∧ Uploaded index job
  | .upload => before = [] ∧ job.run.number ∉ swapped ∧ Uploaded index job
  | .checkLive =>
      before = [] ∧ job.run.number ∉ swapped ∧ index .build = some (contentOf job.documents)
  | .createLive =>
      before = [] ∧ job.run.number ∉ swapped ∧ index .build = some (contentOf job.documents)
  | .swap =>
      before = [] ∧ job.run.number ∉ swapped ∧ index .build = some (contentOf job.documents) ∧
        (index .live).isSome
  | .dropAfter =>
      before = [] ∧ job.run.number ∈ swapped ∧ index .live = some (contentOf job.documents)

/-- What holds once a step went through. -/
def Passed (index : Indexes) (swapped : List Nat) (before : List QueuedTask) (job : Rebuild) :
    Prop :=
  match job.after with
  | some later => Ready index swapped before later
  | none => job.run.number ∈ swapped ∧ index .live = some (contentOf job.documents)

variable {index : Indexes} {swapped : List Nat} {before : List QueuedTask} {job : Rebuild}
  {task : MeiliTask}

theorem Passed.later {later : Rebuild} (h : Passed index swapped before job)
    (hafter : job.after = some later) : Ready index swapped before later := by
  unfold Passed at h
  rwa [hafter] at h

theorem Passed.last (h : Passed index swapped before job) (hafter : job.after = none) :
    job.run.number ∈ swapped ∧ index .live = some (contentOf job.documents) := by
  unfold Passed at h
  rwa [hafter] at h

/-- A run that waits for its task: the task is last in the queue, behind those
of failed runs, or the queue is empty and the task's result known. -/
inductive Settling (meili : Meili) (swapped : List Nat) (ended : List EndedRun) (job : Rebuild)
    (uid : Nat) : Prop
  | pending (before : List QueuedTask) (task : MeiliTask) (request : job.request = some task)
      (queue : meili.queue = before ++ [⟨uid, job.run.number, task⟩])
      (failed : ∀ task ∈ before, Failed ended task.run)
      (ready : Ready meili.index swapped before job)
  | executed (queue : meili.queue = []) (known : meili.status uid ≠ .enqueued)
      (passed : Passing job.step (meili.status uid) → Passed meili.index swapped [] job)

/-- What holds at each stage. -/
def StageOk (world : World) : Prop :=
  match world.stage with
  | .idle => ∀ task ∈ world.meili.queue, Failed world.ended task.run
  | .probing run _ =>
      (∀ task ∈ world.meili.queue, Failed world.ended task.run) ∧ run.number ∉ world.swapped
  | .loading run _ _ _ =>
      (∀ task ∈ world.meili.queue, Failed world.ended task.run) ∧ run.number ∉ world.swapped
  | .sending job =>
      (∀ task ∈ world.meili.queue, Failed world.ended task.run) ∧ job.documents ∈ world.loads ∧
        Ready world.meili.index world.swapped world.meili.queue job
  | .settling job uid =>
      job.documents ∈ world.loads ∧ Settling world.meili world.swapped world.ended job uid

/-! ## The calls of a rebuild -/

theorem Uploaded.ready (h : Uploaded index job) (hswapped : job.run.number ∉ swapped) :
    Ready index swapped [] job.uploading := by
  obtain ⟨sent, hsent, hbuild⟩ := h
  unfold Rebuild.uploading
  by_cases hbatches : job.batches = []
  · rw [hbatches, List.flatten_nil, List.append_nil] at hsent
    rw [if_pos hbatches]
    exact ⟨rfl, hswapped, hsent ▸ hbuild⟩
  · rw [if_neg hbatches]
    exact ⟨rfl, hswapped, sent, hsent, hbuild⟩

variable {outcome : Except String Indexes} {index' : Indexes}

theorem statusOf_succeeded (h : statusOf outcome = .succeeded) : ∃ index, outcome = .ok index := by
  cases outcome with
  | ok index => exact ⟨index, rfl⟩
  | error code => cases h

/-- A step that tolerates nothing passes only by success. -/
theorem Passing.succeeded {step : RebuildStep} (h : Passing step (statusOf outcome))
    (hstep : step.tolerate = none) : ∃ index, outcome = .ok index := by
  rcases h with hdone | ⟨code, _, htolerate⟩
  · exact statusOf_succeeded hdone
  · rw [hstep] at htolerate
    cases htolerate

/-- A task that fails by itself is not what went through. -/
theorem outcome_ok {failure : Option String} (h : task.outcome index failure = .ok index') :
    task.run index = .ok index' := by
  cases failure with
  | none => exact h
  | some code => cases h

/-- A step whose own task was executed and passes is done. -/
theorem Ready.passed (h : Ready index swapped [] job) (hrequest : job.request = some task)
    (failure : Option String)
    (hpassing : Passing job.step (statusOf (task.outcome index failure))) :
    Passed ((task.outcome index failure).toOption.getD index)
      (if task = .swap .live .build ∧ statusOf (task.outcome index failure) = .succeeded
        then job.run.number :: swapped else swapped) [] job := by
  have hne : IndexName.live ≠ .build := by decide
  obtain ⟨run, documents, batches, step⟩ := job
  cases step with
  | dropBuild =>
      cases hrequest
      rw [if_neg (by simp)]
      exact ⟨h.1, h.2, by simp [SwapFree]⟩
  | createBuild =>
      cases hrequest
      rw [if_neg (by simp)]
      obtain ⟨index', hok⟩ := hpassing.succeeded rfl
      have hrun := outcome_ok hok
      rw [hok]
      dsimp only [MeiliTask.run] at hrun
      split at hrun
      · cases hrun
      · cases hrun
        have hcreated : Function.update index .build (some noDocuments) .build =
            some noDocuments := Function.update_self _ _ _
        exact ⟨rfl, h.2.1, [], h.1, hcreated⟩
  | settings =>
      cases hrequest
      rw [if_neg (by simp)]
      obtain ⟨index', hok⟩ := hpassing.succeeded rfl
      have hrun := outcome_ok hok
      rw [hok]
      cases hrun
      obtain ⟨_, hswapped, sent, hsent, hbuild⟩ := h
      have huploaded : Uploaded
          (Function.update index .build (some ((index .build).getD noDocuments)))
          ⟨run, documents, batches, .settings⟩ := by
        refine ⟨sent, hsent, ?_⟩
        rw [Function.update_self, hbuild]
        rfl
      exact huploaded.ready hswapped
  | upload =>
      cases hrequest
      rw [if_neg (by simp)]
      obtain ⟨index', hok⟩ := hpassing.succeeded rfl
      have hrun := outcome_ok hok
      rw [hok]
      cases hrun
      obtain ⟨_, hswapped, sent, hsent, hbuild⟩ := h
      have hnext : (sent ++ batches.headD []) ++ batches.tail.flatten = documents := by
        rw [List.append_assoc]
        cases batches with
        | nil => exact hsent
        | cons batch batches => exact hsent
      have huploaded : Uploaded
          (Function.update index .build (some (put ((index .build).getD noDocuments)
            (batches.headD [])))) ⟨run, documents, batches.tail, .upload⟩ := by
        refine ⟨sent ++ batches.headD [], hnext, ?_⟩
        rw [Function.update_self, hbuild, contentOf_append]
        rfl
      exact huploaded.ready hswapped
  | checkLive => cases hrequest
  | createLive =>
      cases hrequest
      rw [if_neg (by simp)]
      obtain ⟨index', hok⟩ := hpassing.succeeded rfl
      have hrun := outcome_ok hok
      rw [hok]
      dsimp only [MeiliTask.run] at hrun
      split at hrun
      · cases hrun
      · cases hrun
        obtain ⟨_, hswapped, hbuild⟩ := h
        have hkept : Function.update index .live (some noDocuments) .build = index .build :=
          Function.update_of_ne hne.symm _ _
        have hlive : Function.update index .live (some noDocuments) .live = some noDocuments :=
          Function.update_self _ _ _
        exact ⟨rfl, hswapped, hkept.trans hbuild, Option.isSome_of_eq_some hlive⟩
  | swap =>
      cases hrequest
      obtain ⟨index', hok⟩ := hpassing.succeeded rfl
      obtain ⟨_, hswapped, hbuild, hlive⟩ := h
      have hrun := outcome_ok hok
      rw [if_pos ⟨rfl, by rw [hok]; rfl⟩, hok]
      dsimp only [MeiliTask.run] at hrun
      rw [if_pos ⟨hlive, Option.isSome_of_eq_some hbuild⟩] at hrun
      cases hrun
      refine ⟨rfl, List.mem_cons_self, ?_⟩
      show Function.update (Function.update index .live (index .build)) .build (index .live) .live =
        _
      rw [Function.update_of_ne hne, Function.update_self, hbuild]
  | dropAfter =>
      cases hrequest
      rw [if_neg (by simp)]
      have heffect := live_effect index Sent.delete failure
      refine ⟨h.2.1, ?_⟩
      cases heffect with
      | kept hlive _ => exact hlive.trans h.2.2
      | created hbefore _ _ =>
          have hlive := h.2.2
          rw [hbefore] at hlive
          cases hlive
      | swapped htask _ _ => cases htask

/-- An older task is executed first: the step stays ready. -/
theorem Ready.behind {swapped' : List Nat} {first : QueuedTask}
    (hswapped : job.run.number ∉ swapped → job.run.number ∉ swapped')
    (h : Ready index swapped (first :: before) job) : Ready index' swapped' before job := by
  unfold Ready at *
  split at h
  · exact ⟨h.1, hswapped h.2⟩
  · exact ⟨h.1, hswapped h.2.1, h.2.2.tail⟩
  all_goals exact absurd h.1 (List.cons_ne_nil _ _)

/-- What is already there when a delete of the build index finds none. -/
theorem Ready.missing (h : Ready index swapped before job) (htolerate : job.step.tolerate.isSome)
    (hfree : SwapFree before) : Passed index swapped before job := by
  obtain ⟨run, documents, batches, step⟩ := job
  cases step with
  | dropBuild => exact ⟨h.1, h.2, hfree⟩
  | dropAfter => exact h.2
  | _ => cases htolerate

/-! ## The invariant -/

/-- The state of the process and the load of its last finished full check. -/
def Recorded (env : SearchEnv) (state : SyncState) (finished : Option (List SearchIndexDocument))
    (ended : List EndedRun) : Prop :=
  match finished with
  | none => state.signature = none ∧ ∀ run ∈ ended, run.error = true
  | some documents => state.signature = some (searchFingerprint env.sha256 documents)

structure World.Inv (env : SearchEnv) (start : Option Content) (world : World) : Prop where
  queue : QueueOk world.meili world.loads
  live : LiveOk start world.live world.swapped world.loads
  oldRuns : ∀ run ∈ world.ended, run.number < world.runs
  oldSwaps : ∀ number ∈ world.swapped, number < world.runs
  current : ∀ run, world.stage.run? = some run →
    run.number < world.runs ∧ ∀ old ∈ world.ended, old.number < run.number
  stage : StageOk world
  recorded : Recorded env world.state world.finished world.ended

variable {env : SearchEnv} {start : Option Content} {world world' : World}

theorem Failed.cons {ended : List EndedRun} {number : Nat} (h : Failed ended number)
    (run : EndedRun) : Failed (run :: ended) number := by
  obtain ⟨old, hmem, hold⟩ := h
  exact ⟨old, List.mem_cons_of_mem _ hmem, hold⟩

variable {run : SearchRun}

theorem Failed.ne {ended : List EndedRun} {number : Nat} (h : Failed ended number)
    (hcurrent : ∀ old ∈ ended, old.number < run.number) : run.number ≠ number := by
  obtain ⟨old, hmem, _, rfl⟩ := h
  have hlt := hcurrent old hmem
  omega

/-- The queue holds tasks of failed runs and of the current one alone. -/
theorem StageOk.owned (h : StageOk world) :
    ∀ task ∈ world.meili.queue, Failed world.ended task.run ∨
      ∃ run, world.stage.run? = some run ∧ run.number = task.run := by
  intro queued hqueued
  unfold StageOk at h
  split at h
  · exact Or.inl (h queued hqueued)
  · exact Or.inl (h.1 queued hqueued)
  · exact Or.inl (h.1 queued hqueued)
  · exact Or.inl (h.1 queued hqueued)
  · next job uid hstage =>
      obtain ⟨_, hsettling⟩ := h
      cases hsettling with
      | pending before task _ hqueue hfailed _ =>
          rw [hqueue] at hqueued
          rcases List.mem_append.mp hqueued with hold | hown
          · exact Or.inl (hfailed queued hold)
          · cases List.mem_singleton.mp hown
            exact Or.inr ⟨job.run, by rw [hstage]; rfl, rfl⟩
      | executed hqueue _ _ =>
          rw [hqueue] at hqueued
          cases hqueued

/-- A run ends: what is left of it in the queue must be marked as failed. -/
theorem World.Inv.close (h : world.Inv env start) (hrun : world.stage.run? = some run)
    {error : Bool}
    (hqueue : error = true ∨ ∀ task ∈ world.meili.queue, Failed world.ended task.run)
    (hrecorded : error = true ∨ world.finished ≠ none) : (world.close run error).Inv env start := by
  obtain ⟨hold, hlater⟩ := h.current run hrun
  constructor
  · exact h.queue
  · exact h.live
  · intro ended hended
    rcases List.mem_cons.mp hended with rfl | hrest
    · exact hold
    · exact h.oldRuns ended hrest
  · exact h.oldSwaps
  · intro other hother
    cases hother
  · intro task htask
    rcases hqueue with rfl | hfailed
    · rcases h.stage.owned task htask with hfailed | ⟨own, hown, hnumber⟩
      · exact hfailed.cons _
      · rw [hrun] at hown
        cases hown
        exact ⟨_, List.mem_cons_self, rfl, hnumber⟩
    · exact (hfailed task htask).cons _
  · have hbefore := h.recorded
    show Recorded env world.state world.finished (_ :: world.ended)
    unfold Recorded at *
    split at hbefore
    · next hnone =>
        refine ⟨hbefore.1, ?_⟩
        intro ended hended
        rcases List.mem_cons.mp hended with rfl | hrest
        · rcases hrecorded with herror | hsome
          · exact herror
          · exact absurd hnone hsome
        · exact hbefore.2 ended hrest
    · exact hbefore

theorem World.Inv.abort (h : world.Inv env start) (hrun : world.stage.run? = some run) :
    (world.abort run).Inv env start :=
  h.close hrun (Or.inl rfl) (Or.inl rfl)

theorem World.Inv.finish (h : world.Inv env start) (hrun : world.stage.run? = some run)
    (documents : List SearchIndexDocument)
    (hqueue : ∀ task ∈ world.meili.queue, Failed world.ended task.run) :
    (world.finish env run documents).Inv env start := by
  have hbefore : World.Inv env start { world with
      state := ⟨some (searchFingerprint env.sha256 documents), some run.probe, run.startedAt⟩
      finished := some documents } :=
    ⟨h.queue, h.live, h.oldRuns, h.oldSwaps, h.current, h.stage, rfl⟩
  exact hbefore.close hrun (Or.inr hqueue) (Or.inr (by simp))

/-- A rebuild moves on to a call for which everything is ready. -/
theorem World.Inv.advance (h : world.Inv env start) (hrun : world.stage.run? = some job.run)
    (hqueue : ∀ task ∈ world.meili.queue, Failed world.ended task.run)
    (hloaded : job.documents ∈ world.loads)
    (hpassed : Passed world.meili.index world.swapped world.meili.queue job) :
    (world.advance env job).Inv env start := by
  cases hafter : job.after with
  | some later =>
      rw [World.advance_later hafter]
      have hlater := Rebuild.after_same hafter
      refine ⟨h.queue, h.live, h.oldRuns, h.oldSwaps, ?_, ⟨hqueue, ?_, hpassed.later hafter⟩,
        h.recorded⟩
      · intro run hlaterRun
        cases hlaterRun
        rw [hlater.1]
        exact h.current job.run hrun
      · rw [hlater.2]
        exact hloaded
  | none =>
      rw [World.advance_last hafter]
      exact h.finish hrun job.documents hqueue

/-- A call is accepted: its task stands behind those of failed runs. -/
theorem World.Inv.sent (h : world.Inv env start) (hstage : world.stage = .sending job)
    (hrequest : job.request = some task) :
    QueueOk (world.meili.enqueue job.run.number task) world.loads := by
  have hready := h.stage
  unfold StageOk at hready
  rw [hstage] at hready
  obtain ⟨_, hloaded, hready⟩ := hready
  have hsent := Rebuild.sent hrequest
  refine h.queue.enqueue job.run.number hsent ?_
  have hfree (hbefore : SwapFree world.meili.queue) (hne : task ≠ .swap .live .build) :
      SwapFree (world.meili.enqueue job.run.number task).queue := by
    intro queued hqueued
    rcases List.mem_append.mp hqueued with hold | hnew
    · exact hbefore queued hold
    · cases List.mem_singleton.mp hnew
      exact hne
  have hnone (hempty : world.meili.queue = []) : SwapFree world.meili.queue := by
    rw [hempty]
    simp [SwapFree]
  unfold Ready at hready
  unfold Rebuild.request at hrequest
  split at hready <;> rename_i hstep <;> simp only [hstep] at hrequest <;> cases hrequest
  · rcases h.queue.shape with hbefore | hfirst
    · exact Or.inl (hfree hbefore (by simp))
    · obtain ⟨first, rest, hqueue, hswap, hdeletes⟩ := hfirst.shape
      refine Or.inr ⟨⟨first, rest ++ [⟨world.meili.nextUid, job.run.number, .delete .build⟩], ?_,
        hswap, ?_⟩, hfirst.build, hfirst.live⟩
      · show world.meili.queue ++ _ = _
        rw [hqueue]
        rfl
      · intro queued hqueued
        rcases List.mem_append.mp hqueued with hold | hnew
        · exact hdeletes queued hold
        · cases List.mem_singleton.mp hnew
          rfl
  · exact Or.inl (hfree hready.2.2 (by simp))
  · exact Or.inl (hfree (hnone hready.1) (by simp))
  · exact Or.inl (hfree (hnone hready.1) (by simp))
  · exact Or.inl (hfree (hnone hready.1) (by simp))
  · refine Or.inr ⟨⟨⟨world.meili.nextUid, job.run.number, .swap .live .build⟩, [], ?_, rfl, by simp⟩,
      ⟨job.documents, hloaded, hready.2.2.1⟩, hready.2.2.2⟩
    show world.meili.queue ++ _ = _
    rw [hready.1]
    rfl
  · exact Or.inl (hfree (hnone hready.1) (by simp))

end Sinnlos.Cms.Search

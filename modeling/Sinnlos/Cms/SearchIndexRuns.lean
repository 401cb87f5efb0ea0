import Sinnlos.Cms.SearchSteps

/-! # The search index over whole histories

Every step keeps the invariant, so the live index is one load at every moment
after the first swap. Where no run that ends with an error has its swap take
effect, a run without an error leaves the load of the last full check.
-/

namespace Sinnlos.Cms.Search

open Sinnlos.Runs

variable {env : SearchEnv} {start : Option Content} {world world' : World}

/-! ## Every step keeps the invariant -/

variable {swapped : List Nat} {failure : Option String}

theorem StageOk.executed (h : StageOk world)
    (hcurrent : ∀ run, world.stage.run? = some run →
      ∀ old ∈ world.ended, old.number < run.number) {first : QueuedTask} {rest : List QueuedTask}
    (hqueue : world.meili.queue = first :: rest) (failure : Option String)
    (hswapped : swapped = if first.task = .swap .live .build ∧
        statusOf (first.task.outcome world.meili.index failure) = .succeeded
      then first.run :: world.swapped else world.swapped) :
    StageOk { world with
      meili := world.meili.settled first rest (first.task.outcome world.meili.index failure)
      swapped := swapped } := by
  have hne {run : SearchRun} (hrun : world.stage.run? = some run)
      (hfailed : Failed world.ended first.run) (hnot : run.number ∉ world.swapped) :
      run.number ∉ swapped := by
    have hother := hfailed.ne (hcurrent run hrun)
    rw [hswapped]
    split
    · simp only [List.mem_cons, not_or]
      exact ⟨hother, hnot⟩
    · exact hnot
  have hrest {p : QueuedTask → Prop} (hall : ∀ task ∈ world.meili.queue, p task) :
      (∀ task ∈ rest, p task) ∧ p first := by
    rw [hqueue] at hall
    exact ⟨fun task htask => hall task (List.mem_cons_of_mem _ htask), hall first List.mem_cons_self⟩
  unfold StageOk at h ⊢
  dsimp only
  split at h
  · exact (hrest h).1
  · next run _ hstage =>
      have hrun : world.stage.run? = some run := by rw [hstage]; rfl
      exact ⟨(hrest h.1).1, hne hrun (hrest h.1).2 h.2⟩
  · next run _ _ _ hstage =>
      have hrun : world.stage.run? = some run := by rw [hstage]; rfl
      exact ⟨(hrest h.1).1, hne hrun (hrest h.1).2 h.2⟩
  · next job hstage =>
      have hrun : world.stage.run? = some job.run := by rw [hstage]; rfl
      obtain ⟨hfailed, hloaded, hready⟩ := h
      rw [hqueue] at hready
      exact ⟨(hrest hfailed).1, hloaded, hready.behind (hne hrun (hrest hfailed).2)⟩
  · next job uid hstage =>
      have hrun : world.stage.run? = some job.run := by rw [hstage]; rfl
      obtain ⟨hloaded, hsettling⟩ := h
      refine ⟨hloaded, ?_⟩
      cases hsettling with
      | executed hempty _ _ =>
          rw [hqueue] at hempty
          cases hempty
      | pending before task hrequest hown hfailed hready =>
          rw [hqueue] at hown
          cases before with
          | nil =>
              -- the run's own task is the oldest
              cases hown
              refine .executed rfl ?_ ?_
              · show Function.update world.meili.status uid _ uid ≠ _
                rw [Function.update_self]
                cases task.outcome world.meili.index failure <;> simp [statusOf]
              · intro hpassing
                rw [hswapped]
                refine hready.passed hrequest failure ?_
                have hstatus : (world.meili.settled ⟨uid, job.run.number, task⟩ []
                    (task.outcome world.meili.index failure)).status uid =
                    statusOf (task.outcome world.meili.index failure) :=
                  Function.update_self _ _ _
                rwa [hstatus] at hpassing
          | cons older before =>
              cases hown
              have holder := hfailed first List.mem_cons_self
              refine .pending before task hrequest rfl
                (fun queued hqueued => hfailed queued (List.mem_cons_of_mem _ hqueued)) ?_
              exact hready.behind (hne hrun holder)

theorem World.Inv.execute (h : world.Inv env start)
    (hexecute : world.execute failure = some world') : world'.Inv env start := by
  unfold World.execute at hexecute
  split at hexecute
  · cases hexecute
  · next first rest hqueue =>
      have hmem : first ∈ world.meili.queue := hqueue ▸ List.mem_cons_self
      cases hexecute
      refine ⟨h.queue.settled hqueue _, h.live.executed h.queue hqueue failure, h.oldRuns, ?_,
        h.current, ?_, h.recorded⟩
      · intro number hnumber
        dsimp only at hnumber
        split at hnumber
        · rcases List.mem_cons.mp hnumber with rfl | hold
          · rcases h.stage.owned first hmem with ⟨run, hrun, _, hown⟩ | ⟨run, hrun, hown⟩
            · rw [← hown]
              exact h.oldRuns run hrun
            · rw [← hown]
              exact (h.current run hrun).1
          · exact h.oldSwaps number hold
        · exact h.oldSwaps number hnumber
      · exact h.stage.executed (fun run hrun => (h.current run hrun).2) hqueue failure rfl

theorem World.Inv.started (h : world.Inv env start) (hidle : world.stage = .idle)
    (reads : List (IndexedSearchKind × ProbeField)) :
    World.Inv env start { world with
      stage := .probing ⟨world.runs, world.now, []⟩ reads
      runs := world.runs + 1 } := by
  have hstage := h.stage
  unfold StageOk at hstage
  rw [hidle] at hstage
  refine ⟨h.queue, h.live, fun run hrun => Nat.lt_succ_of_lt (h.oldRuns run hrun),
    fun number hnumber => Nat.lt_succ_of_lt (h.oldSwaps number hnumber), ?_, ⟨hstage, ?_⟩,
    h.recorded⟩
  · intro run hrun
    cases hrun
    exact ⟨Nat.lt_succ_self _, h.oldRuns⟩
  · intro hmem
    have hlt := h.oldSwaps _ hmem
    exact absurd hlt (Nat.lt_irrefl _)

variable {run : SearchRun} {job : Rebuild} {label : Label} {run' : SearchRun} {stage : Stage}
  {live : Bool} {kinds : List IndexedSearchKind} {read documents : List SearchIndexDocument}

/-- Between its calls a run that reads changes nothing but its own values. -/
theorem World.Inv.reading (h : world.Inv env start) (hrun : world.stage.run? = some run)
    (hstage : stage.run? = some run') (hnumber : run'.number = run.number)
    (hok : StageOk { world with stage := stage }) :
    World.Inv env start { world with stage := stage } := by
  refine ⟨h.queue, h.live, h.oldRuns, h.oldSwaps, ?_, hok, h.recorded⟩
  intro other hother
  have hsame : some run' = some other := hstage.symm.trans hother
  cases hsame
  rw [hnumber]
  exact h.current run hrun

theorem World.Inv.compare (h : world.Inv env start)
    (hstage : world.stage = .loading run live kinds read) (documents : List SearchIndexDocument) :
    (world.compare env run live documents).Inv env start := by
  have hloading := h.stage
  unfold StageOk at hloading
  rw [hstage] at hloading
  obtain ⟨hfailed, hswapped⟩ := hloading
  have hrun : world.stage.run? = some run := by rw [hstage]; rfl
  have hloaded : World.Inv env start { world with loads := documents :: world.loads } := by
    refine ⟨h.queue.loaded documents, h.live.loaded documents, h.oldRuns, h.oldSwaps, h.current,
      ?_, h.recorded⟩
    unfold StageOk
    simp only [hstage]
    exact ⟨hfailed, hswapped⟩
  unfold World.compare
  dsimp only
  split
  · split
    · exact hloaded.abort hrun
    · next batches hbatches =>
        refine hloaded.reading hrun rfl rfl ⟨hfailed, List.mem_cons_self, ?_, hswapped⟩
        exact (searchBatches_spec hbatches).1
  · exact hloaded.finish hrun documents hfailed

/-- A task whose result is known to pass leaves the next call ready. -/
theorem Settling.poll {meili : Meili} {loads : List (List SearchIndexDocument)}
    {ended : List EndedRun} {uid : Nat} (h : Settling meili swapped ended job uid)
    (hqueue : QueueOk meili loads) (hknown : meili.status uid ≠ .enqueued) :
    meili.queue = [] ∧
      (Passing job.step (meili.status uid) → Passed meili.index swapped [] job) := by
  cases h with
  | executed hempty _ hpassed => exact ⟨hempty, hpassed⟩
  | pending before task _ hown _ _ =>
      have hpending := hqueue.pending ⟨uid, job.run.number, task⟩ (by rw [hown]; simp)
      exact absurd hpending hknown

/-- The call of a step is accepted, whether the run learns of it or not. -/
theorem World.Inv.accepted (h : world.Inv env start) {task : MeiliTask}
    (hsending : world.stage = .sending job) (hrequest : job.request = some task) :
    World.Inv env start { world with
      meili := world.meili.enqueue job.run.number task
      stage := .settling job world.meili.nextUid } := by
  have hrun : world.stage.run? = some job.run := by rw [hsending]; rfl
  have hstage := h.stage
  unfold StageOk at hstage
  rw [hsending] at hstage
  obtain ⟨hfailed, hloaded, hready⟩ := hstage
  refine ⟨h.sent hsending hrequest, h.live, h.oldRuns, h.oldSwaps, ?_,
    ⟨hloaded, .pending world.meili.queue task hrequest rfl hfailed hready⟩, h.recorded⟩
  intro run hsame
  cases hsame
  exact h.current job.run hrun

theorem World.Inv.next (h : world.Inv env start) (hstep : Step env world label world') :
    world'.Inv env start := by
  have hstage := h.stage
  unfold StageOk at hstage
  cases hstep.happens with
  | tick ms => exact ⟨h.queue, h.live, h.oldRuns, h.oldSwaps, h.current, h.stage, h.recorded⟩
  | change published =>
      exact ⟨h.queue, h.live, h.oldRuns, h.oldSwaps, h.current, h.stage, h.recorded⟩
  | started hidle => exact h.started hidle _
  | probed run read rest hprobing =>
      have hrun : world.stage.run? = some run := by rw [hprobing]; rfl
      rw [hprobing] at hstage
      exact h.reading hrun rfl rfl hstage
  | current run hprobing hcurrent =>
      rw [hprobing] at hstage
      refine h.close (by rw [hprobing]; rfl) (Or.inr hstage.1) (Or.inr ?_)
      intro hnone
      have hrecorded := h.recorded
      unfold Recorded at hrecorded
      rw [hnone] at hrecorded
      simp [SyncState.current, hrecorded.1] at hcurrent
  | checking run hprobing =>
      rw [hprobing] at hstage
      exact h.reading (by rw [hprobing]; rfl) rfl rfl hstage
  | looked job hsending hcheck =>
      rw [hsending] at hstage
      obtain ⟨hfailed, hloaded, hready⟩ := hstage
      unfold Ready at hready
      simp only [hcheck] at hready
      refine h.reading (by rw [hsending]; rfl) rfl rfl ⟨hfailed, hloaded, ?_⟩
      by_cases hlive : world.live.isSome
      · rw [if_pos hlive]
        exact ⟨hready.1, hready.2.1, hready.2.2, hlive⟩
      · rw [if_neg hlive]
        exact hready
  | loaded run live kind rest documents found hloading _ =>
      rw [hloading] at hstage
      exact h.reading (by rw [hloading]; rfl) rfl rfl hstage
  | compared run live documents hloading => exact h.compare hloading _
  | accepted job task hsending hrequest => exact h.accepted hsending hrequest
  | missing job hsending htolerate hbuild =>
      rw [hsending] at hstage
      obtain ⟨hfailed, hloaded, hready⟩ := hstage
      have hfree := h.queue.free_of_missing hbuild
      exact h.advance (by rw [hsending]; rfl) hfailed hloaded (hready.missing htolerate hfree)
  | lost job task hsending hrequest =>
      -- as if the answer had come and the run then failed
      exact (h.accepted hsending hrequest).abort rfl
  | failed run hrun => exact h.abort hrun
  | passed job uid hsettling hknown hpassing =>
      rw [hsettling] at hstage
      obtain ⟨hempty, hpassed⟩ := hstage.2.poll h.queue hknown
      refine h.advance (by rw [hsettling]; rfl) ?_ hstage.1 ?_
      · rw [hempty]
        simp
      · rw [hempty]
        exact hpassed hpassing
  | refused job uid hsettling => exact h.abort (by rw [hsettling]; rfl)
  | executed failure _ hexecute => exact h.execute hexecute

/-! ## Histories in which no failed run's swap takes effect -/

/-- No run that ended with an error has had its swap take effect. -/
def World.Clean (world : World) : Prop :=
  ∀ run ∈ world.ended, run.error = true → run.number ∉ world.swapped

/-- The live index holds the load of the last finished full check, unless the
swap of the current run has taken effect already. -/
def World.Synced (world : World) : Prop :=
  ∀ documents, world.finished = some documents →
    (∀ run, world.stage.run? = some run → run.number ∉ world.swapped) →
    world.live = some (contentOf documents)

/-- The records only grow. -/
def Grown (world world' : World) : Prop :=
  world.ended <:+ world'.ended ∧ world.swapped <:+ world'.swapped

theorem Grown.same (hended : world'.ended = world.ended) (hswapped : world'.swapped = world.swapped) :
    Grown world world' :=
  ⟨hended ▸ List.suffix_rfl, hswapped ▸ List.suffix_rfl⟩

theorem Grown.close (run : SearchRun) (error : Bool) : Grown world (world.close run error) :=
  ⟨List.suffix_cons _ _, List.suffix_rfl⟩

theorem Grown.advance (job : Rebuild) : Grown world (world.advance env job) := by
  unfold World.advance
  split
  · exact Grown.same rfl rfl
  · exact Grown.close _ _

theorem Grown.compare (run : SearchRun) (live : Bool) (documents : List SearchIndexDocument) :
    Grown world (world.compare env run live documents) := by
  unfold World.compare
  dsimp only
  split
  · split
    · exact Grown.close _ _
    · exact Grown.same rfl rfl
  · exact Grown.close _ _

theorem Step.grown (h : Step env world label world') : Grown world world' := by
  cases h.happens with
  | current => exact Grown.close _ _
  | compared => exact Grown.compare _ _ _
  | missing => exact Grown.advance _
  | lost | failed => exact Grown.close _ _
  | passed => exact Grown.advance _
  | refused => exact Grown.close _ _
  | executed failure _ hexecute =>
      unfold World.execute at hexecute
      split at hexecute
      · cases hexecute
      · cases hexecute
        refine ⟨List.suffix_rfl, ?_⟩
        dsimp only
        split
        · exact List.suffix_cons _ _
        · exact List.suffix_rfl
  | _ => exact Grown.same rfl rfl

theorem World.Clean.before (h : world'.Clean) (hgrown : Grown world world') : world.Clean := by
  intro run hrun herror hmem
  exact h run (hgrown.1.subset hrun) herror (hgrown.2.subset hmem)

theorem World.Synced.sameRun (h : world.Synced) (hrun : world.stage.run? = some run)
    (hstage : stage.run? = some run') (hnumber : run'.number = run.number) :
    World.Synced { world with stage := stage } := by
  intro documents hfinished hcurrent
  refine h documents hfinished fun other hother => ?_
  rw [hrun] at hother
  cases hother
  rw [← hnumber]
  exact hcurrent run' hstage

theorem World.Synced.close (h : world.Synced) (hrun : world.stage.run? = some run)
    (hswapped : run.number ∉ world.swapped) (error : Bool) : (world.close run error).Synced := by
  intro documents hfinished _
  refine h documents hfinished fun other hother => ?_
  rw [hrun] at hother
  cases hother
  exact hswapped

/-- A run that throws leaves a clean history only if it has not swapped. -/
theorem World.Synced.abort (h : world.Synced) (hrun : world.stage.run? = some run)
    (hclean : (world.abort run).Clean) : (world.abort run).Synced :=
  h.close hrun (hclean _ List.mem_cons_self rfl) true

theorem World.Synced.finish (hlive : world.live = some (contentOf documents)) :
    (world.finish env run documents).Synced := by
  intro found hfound _
  cases hfound
  exact hlive

theorem World.Synced.advance (h : world.Synced) {before : List QueuedTask}
    (hrun : world.stage.run? = some job.run)
    (hpassed : Passed world.meili.index world.swapped before job) :
    (world.advance env job).Synced := by
  cases hafter : job.after with
  | some later =>
      rw [World.advance_later hafter]
      exact h.sameRun hrun rfl (by rw [(Rebuild.after_same hafter).1])
  | none =>
      rw [World.advance_last hafter]
      exact World.Synced.finish (hpassed.last hafter).2

/-- A swap that takes effect is the current run's, or a failed one's. -/
theorem World.Synced.execute (h : world.Synced) (hinv : world.Inv env start)
    (hexecute : world.execute failure = some world') (hclean : world'.Clean) : world'.Synced := by
  unfold World.execute at hexecute
  split at hexecute
  · cases hexecute
  · next first rest hqueue =>
      have hmem : first ∈ world.meili.queue := hqueue ▸ List.mem_cons_self
      have heffect := live_effect world.meili.index (hinv.queue.sent first hmem) failure
      cases hexecute
      intro documents hfinished hcurrent
      dsimp only at hfinished hcurrent
      cases heffect with
      | kept hlive hquiet =>
          rw [if_neg hquiet] at hcurrent
          exact hlive.trans (h documents hfinished hcurrent)
      | created hbefore _ hquiet =>
          rw [if_neg (fun hswap => hquiet hswap.1)] at hcurrent
          have hlive : world.meili.index .live = _ := h documents hfinished hcurrent
          rw [hbefore] at hlive
          cases hlive
      | swapped htask hdone _ =>
          rw [if_pos ⟨htask, hdone⟩] at hcurrent
          rcases hinv.stage.owned first hmem with ⟨run, hrun, herror, hown⟩ | ⟨run, hrun, hown⟩
          · have hnot := hclean run hrun herror
            dsimp only at hnot
            rw [if_pos ⟨htask, hdone⟩, hown] at hnot
            exact absurd List.mem_cons_self hnot
          · have hnot := hcurrent run hrun
            rw [hown] at hnot
            exact absurd List.mem_cons_self hnot

/-- A full check that finds the last one's fingerprint finds its documents. -/
theorem World.Synced.compare (h : world.Synced) (hinv : world.Inv env start)
    (hsha : Function.Injective env.sha256) (hstage : world.stage = .loading run live kinds read)
    (hclean : (world.compare env run live documents).Clean) :
    (world.compare env run live documents).Synced := by
  have hloading := hinv.stage
  unfold StageOk at hloading
  rw [hstage] at hloading
  have hrun : world.stage.run? = some run := by rw [hstage]; rfl
  have hloaded : World.Synced { world with loads := documents :: world.loads } := h
  unfold World.compare at hclean ⊢
  dsimp only at hclean ⊢
  split
  · next hchanged =>
      rw [if_pos hchanged] at hclean
      split
      · next hnone =>
          simp only [hnone] at hclean
          exact hloaded.abort hrun hclean
      · exact hloaded.sameRun hrun rfl rfl
  · next hsame =>
      obtain ⟨_, hsignature⟩ := not_or.mp hsame
      have hsignature := not_not.mp hsignature
      have hrecorded := hinv.recorded
      unfold Recorded at hrecorded
      split at hrecorded
      · rw [hrecorded.1] at hsignature
        cases hsignature
      · next found hfinished =>
          rw [hrecorded] at hsignature
          have hfound := searchFingerprint_inj hsha (Option.some.inj hsignature)
          have hlive : world.live = some (contentOf documents) := by
            rw [hfound]
            refine h found hfinished fun other hother => ?_
            rw [hrun] at hother
            cases hother
            exact hloading.2
          exact World.Synced.finish hlive

theorem World.Synced.next (h : world.Synced) (hinv : world.Inv env start)
    (hsha : Function.Injective env.sha256) (hstep : Step env world label world')
    (hclean : world'.Clean) : world'.Synced := by
  have hstage := hinv.stage
  unfold StageOk at hstage
  cases hstep.happens with
  | tick ms => exact h
  | change published => exact h
  | started hidle =>
      intro documents hfinished _
      refine h documents hfinished fun run hrun => ?_
      rw [hidle] at hrun
      cases hrun
  | probed run read rest hprobing =>
      have hrun : world.stage.run? = some run := by rw [hprobing]; rfl
      exact h.sameRun hrun rfl rfl
  | current run hprobing _ =>
      rw [hprobing] at hstage
      exact h.close (by rw [hprobing]; rfl) hstage.2 false
  | checking run hprobing => exact h.sameRun (by rw [hprobing]; rfl) rfl rfl
  | looked job hsending _ => exact h.sameRun (by rw [hsending]; rfl) rfl rfl
  | loaded run live kind rest documents found hloading _ =>
      exact h.sameRun (by rw [hloading]; rfl) rfl rfl
  | compared run live documents hloading => exact h.compare hinv hsha hloading hclean
  | accepted job task hsending _ =>
      have hqueued : World.Synced
          { world with meili := world.meili.enqueue job.run.number task } := h
      exact hqueued.sameRun (by rw [hsending]; rfl) rfl rfl
  | missing job hsending htolerate hbuild =>
      rw [hsending] at hstage
      have hfree := hinv.queue.free_of_missing hbuild
      exact h.advance (by rw [hsending]; rfl) (hstage.2.2.missing htolerate hfree)
  | lost job task hsending _ =>
      have hqueued : World.Synced
          { world with meili := world.meili.enqueue job.run.number task } := h
      exact hqueued.abort (by rw [hsending]; rfl) hclean
  | failed run hrun => exact h.abort hrun hclean
  | passed job uid hsettling hknown hpassing =>
      rw [hsettling] at hstage
      have hpassed := (hstage.2.poll hinv.queue hknown).2 hpassing
      exact h.advance (by rw [hsettling]; rfl) hpassed
  | refused job uid hsettling => exact h.abort (by rw [hsettling]; rfl) hclean
  | executed failure _ hexecute => exact h.execute hinv hexecute hclean

end Sinnlos.Cms.Search

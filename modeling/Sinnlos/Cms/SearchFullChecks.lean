import Sinnlos.Cms.SearchIndexRuns

/-! # The hourly full check

Every instant on record lies in the past, and an hour after a run since whose
start no row has changed, a run without an error has checked all the content.
-/

namespace Sinnlos.Cms.Search

open Sinnlos.Runs

variable {env : SearchEnv} {start : Option Content} {world world' : World}

/-! ## The clock -/

/-- Every instant on record lies in the past. -/
structure World.Clocked (world : World) : Prop where
  checked : world.state.checkedAt ≤ world.now
  current : ∀ run, world.stage.run? = some run → run.startedAt ≤ world.now
  ended : ∀ run ∈ world.ended, run.startedAt ≤ world.now

variable {run : SearchRun}

theorem World.Clocked.close (h : world.Clocked) (hrun : world.stage.run? = some run)
    (error : Bool) : (world.close run error).Clocked := by
  refine ⟨h.checked, fun other hother => (by cases hother), ?_⟩
  intro ended hended
  rcases List.mem_cons.mp hended with rfl | hrest
  · exact h.current run hrun
  · exact h.ended ended hrest

theorem World.Clocked.finish (h : world.Clocked) (hrun : world.stage.run? = some run)
    (documents : List SearchIndexDocument) : (world.finish env run documents).Clocked := by
  have hbefore : World.Clocked { world with
      state := ⟨some (searchFingerprint env.sha256 documents), some run.probe, run.startedAt⟩
      finished := some documents } := ⟨h.current run hrun, h.current, h.ended⟩
  exact hbefore.close hrun false

theorem World.Clocked.sameRun (h : world.Clocked) {run' : SearchRun} {stage : Stage}
    (hrun : world.stage.run? = some run) (hstage : stage.run? = some run')
    (hsame : run'.startedAt = run.startedAt) : World.Clocked { world with stage := stage } := by
  refine ⟨h.checked, ?_, h.ended⟩
  intro other hother
  have heq : some run' = some other := hstage.symm.trans hother
  cases heq
  rw [hsame]
  exact h.current run hrun

theorem World.Clocked.advance (h : world.Clocked) {job : Rebuild}
    (hrun : world.stage.run? = some job.run) : (world.advance env job).Clocked := by
  unfold World.advance
  split
  · next later hafter => exact h.sameRun hrun rfl (by rw [(Rebuild.after_same hafter).1])
  · exact h.finish hrun job.documents

theorem World.Clocked.compare (h : world.Clocked) (hrun : world.stage.run? = some run)
    (live : Bool) (documents : List SearchIndexDocument) :
    (world.compare env run live documents).Clocked := by
  have hloaded : World.Clocked { world with loads := documents :: world.loads } :=
    ⟨h.checked, h.current, h.ended⟩
  unfold World.compare
  dsimp only
  split
  · split
    · exact hloaded.close hrun true
    · exact hloaded.sameRun hrun rfl rfl
  · exact hloaded.finish hrun documents

theorem World.Clocked.next (h : world.Clocked) {label : Label}
    (hstep : Step env world label world') : world'.Clocked := by
  cases hstep.happens with
  | tick ms =>
      have hlater {instant : Nat} (hle : instant ≤ world.now) : instant ≤ world.now + ms := by omega
      exact ⟨hlater h.checked, fun run hrun => hlater (h.current run hrun),
        fun run hrun => hlater (h.ended run hrun)⟩
  | change published => exact ⟨h.checked, h.current, h.ended⟩
  | started hidle =>
      refine ⟨h.checked, ?_, h.ended⟩
      intro run hrun
      cases hrun
      exact Nat.le_refl _
  | probed run read rest hprobing =>
      have hrun : world.stage.run? = some run := by rw [hprobing]; rfl
      exact h.sameRun hrun rfl rfl
  | current run hprobing _ => exact h.close (by rw [hprobing]; rfl) false
  | checking run hprobing => exact h.sameRun (by rw [hprobing]; rfl) rfl rfl
  | looked job hsending _ => exact h.sameRun (by rw [hsending]; rfl) rfl rfl
  | loaded run live kind rest documents found hloading _ =>
      exact h.sameRun (by rw [hloading]; rfl) rfl rfl
  | compared run live documents hloading => exact h.compare (by rw [hloading]; rfl) live _
  | accepted job task hsending _ =>
      have hqueued : World.Clocked
          { world with meili := world.meili.enqueue job.run.number task } :=
        ⟨h.checked, h.current, h.ended⟩
      exact hqueued.sameRun (by rw [hsending]; rfl) rfl rfl
  | missing job hsending _ _ => exact h.advance (by rw [hsending]; rfl)
  | lost job task hsending _ =>
      have hqueued : World.Clocked
          { world with meili := world.meili.enqueue job.run.number task } :=
        ⟨h.checked, h.current, h.ended⟩
      exact hqueued.close (by rw [hsending]; rfl) true
  | failed run hrun => exact h.close hrun true
  | passed job uid hsettling _ _ => exact h.advance (by rw [hsettling]; rfl)
  | refused job uid hsettling => exact h.close (by rw [hsettling]; rfl) true
  | executed failure _ hexecute =>
      unfold World.execute at hexecute
      split at hexecute <;> cases hexecute
      exact ⟨h.checked, h.current, h.ended⟩

/-! ## Runs while no row changes -/

/-- What a stage has loaded of rows that do not change. -/
def LoadedFrom (env : SearchEnv) (published : PublishedRows) : Stage → Prop
  | .idle => True
  | .probing _ _ => True
  | .loading _ _ rest documents => ∃ done, done ++ rest = enabledKinds env.off ∧
      (done.flatMap fun kind => documentsOf kind (published.rows kind)).Perm documents
  | .sending job => job.documents = loadSearchDocuments env.off published
  | .settling job _ => job.documents = loadSearchDocuments env.off published

/-- Since `since` no row has changed: a full check that started later, and every
run without an error an hour later, has found these rows. -/
structure World.Follows (env : SearchEnv) (published : PublishedRows) (since : Nat)
    (world : World) : Prop where
  rows : world.published = published
  checked : world.state.checkedAt ≤ since ∨
    world.finished = some (loadSearchDocuments env.off published)
  ended : ∀ run ∈ world.ended, run.error = false → since + FULL_CHECK_MS ≤ run.startedAt →
    world.finished = some (loadSearchDocuments env.off published)
  stage : LoadedFrom env published world.stage

section Quiet
variable {published : PublishedRows} {since : Nat}

theorem World.Follows.close (h : world.Follows env published since) {error : Bool}
    (hended : error = true ∨ (since + FULL_CHECK_MS ≤ run.startedAt →
      world.finished = some (loadSearchDocuments env.off published))) :
    (world.close run error).Follows env published since := by
  refine ⟨h.rows, h.checked, ?_, trivial⟩
  intro ended hmem herror hlate
  rcases List.mem_cons.mp hmem with rfl | hrest
  · rcases hended with htrue | hfound
    · rw [htrue] at herror
      cases herror
    · exact hfound hlate
  · exact h.ended ended hrest herror hlate

variable {documents : List SearchIndexDocument}

theorem World.Follows.finish (h : world.Follows env published since) (run : SearchRun)
    (hdocuments : documents = loadSearchDocuments env.off published) :
    (world.finish env run documents).Follows env published since := by
  subst hdocuments
  have hbefore : World.Follows env published since { world with
      state := ⟨some (searchFingerprint env.sha256 (loadSearchDocuments env.off published)),
        some run.probe, run.startedAt⟩
      finished := some (loadSearchDocuments env.off published) } :=
    ⟨h.rows, Or.inr rfl, fun _ _ _ _ => rfl, h.stage⟩
  exact hbefore.close (Or.inr fun _ => rfl)

theorem World.Follows.advance (h : world.Follows env published since) {job : Rebuild}
    (hdocuments : job.documents = loadSearchDocuments env.off published) :
    (world.advance env job).Follows env published since := by
  unfold World.advance
  split
  · next later hafter =>
      exact ⟨h.rows, h.checked, h.ended, (Rebuild.after_same hafter).2.trans hdocuments⟩
  · exact h.finish job.run hdocuments

theorem World.Follows.compare (h : world.Follows env published since) (run : SearchRun)
    (live : Bool) (hdocuments : documents = loadSearchDocuments env.off published) :
    (world.compare env run live documents).Follows env published since := by
  have hloaded : World.Follows env published since
      { world with loads := documents :: world.loads } := ⟨h.rows, h.checked, h.ended, h.stage⟩
  unfold World.compare
  dsimp only
  split
  · split
    · exact hloaded.close (Or.inl rfl)
    · exact ⟨h.rows, h.checked, h.ended, hdocuments⟩
  · exact hloaded.finish run hdocuments

theorem World.Follows.next (h : world.Follows env published since) {label : Label}
    (hquiet : ∀ rows, label ≠ .change rows) (hstep : Step env world label world') :
    world'.Follows env published since := by
  have hstage := h.stage
  cases hstep.happens with
  | tick ms => exact ⟨h.rows, h.checked, h.ended, h.stage⟩
  | change rows => exact absurd rfl (hquiet rows)
  | started hidle | probed run read rest hprobing => exact ⟨h.rows, h.checked, h.ended, trivial⟩
  | current run hprobing hcurrent =>
      refine h.close (Or.inr fun hlate => ?_)
      rcases h.checked with hold | hfound
      · -- the last full check is at least an hour old
        simp only [SyncState.current, Bool.and_eq_true, decide_eq_true_eq] at hcurrent
        have hfresh := hcurrent.2
        omega
      · exact hfound
  | checking run hprobing =>
      exact ⟨h.rows, h.checked, h.ended, [], rfl, List.Perm.refl _⟩
  | looked job hsending _ =>
      rw [hsending] at hstage
      exact ⟨h.rows, h.checked, h.ended, hstage⟩
  | loaded run live kind rest documents found hloading hfound =>
      rw [hloading] at hstage
      obtain ⟨done, hkinds, hperm⟩ := hstage
      refine ⟨h.rows, h.checked, h.ended, done ++ [kind], ?_, ?_⟩
      · rw [List.append_assoc]
        exact hkinds
      · rw [h.rows] at hfound
        rw [List.flatMap_append]
        have hkind : ([kind].flatMap fun kind => documentsOf kind (published.rows kind)).Perm
            (documentsOf kind found) := by
          rw [List.flatMap_cons, List.flatMap_nil, List.append_nil]
          exact (hfound.filterMap (toSearchDocument kind)).symm
        exact hperm.append hkind
  | compared run live documents hloading =>
      rw [hloading] at hstage
      obtain ⟨done, hkinds, hperm⟩ := hstage
      rw [List.append_nil] at hkinds
      rw [hkinds] at hperm
      have hdistinct := distinct_ids published (enabledKinds_nodup env.off)
      exact h.compare run live (sortDocuments_congr hdistinct hperm).symm
  | accepted job task hsending _ =>
      rw [hsending] at hstage
      exact ⟨h.rows, h.checked, h.ended, hstage⟩
  | missing job hsending _ _ =>
      rw [hsending] at hstage
      exact h.advance hstage
  | lost job task hsending _ =>
      have hqueued : World.Follows env published since
          { world with meili := world.meili.enqueue job.run.number task } :=
        ⟨h.rows, h.checked, h.ended, h.stage⟩
      exact hqueued.close (Or.inl rfl)
  | failed run hrun => exact h.close (Or.inl rfl)
  | passed job uid hsettling _ _ =>
      rw [hsettling] at hstage
      exact h.advance hstage
  | refused job uid hsettling => exact h.close (Or.inl rfl)
  | executed failure _ hexecute =>
      unfold World.execute at hexecute
      split at hexecute <;> cases hexecute
      exact ⟨h.rows, h.checked, h.ended, h.stage⟩

end Quiet

end Sinnlos.Cms.Search

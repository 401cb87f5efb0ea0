import Sinnlos.Cms.SearchFullChecks

/-! # The search index follows the published content

What a rebuild uploads stays within the limit, and what the index holds over
every history of a process.
-/

namespace Sinnlos.Cms.Search

open Sinnlos.Runs

variable {env : SearchEnv} {start : Option Content} {world world' : World}

/-! ## The uploads -/

/-- The batches still to come are within the limit; an upload has one to send. -/
def Bounded (env : SearchEnv) (job : Rebuild) : Prop :=
  (∀ batch ∈ job.batches, bodySize batch ≤ env.batchBytes) ∧
    (job.step = .upload → job.batches ≠ [])

/-- Every upload in the queue, and every one still to be sent, is within the
limit. -/
structure World.Bounded (env : SearchEnv) (world : World) : Prop where
  queue : ∀ queued ∈ world.meili.queue, ∀ index documents,
    queued.task = .addDocuments index documents → bodySize documents ≤ env.batchBytes
  sending : ∀ job, world.stage = .sending job → Search.Bounded env job
  settling : ∀ job uid, world.stage = .settling job uid → Search.Bounded env job

variable {job : Rebuild}

theorem Bounded.after {later : Rebuild} (h : Bounded env job) (hafter : job.after = some later) :
    Bounded env later := by
  have huploading {job : Rebuild} (hbatches : ∀ batch ∈ job.batches, bodySize batch ≤ env.batchBytes) :
      Bounded env job.uploading := by
    refine ⟨hbatches, ?_⟩
    intro hstep hempty
    unfold Rebuild.uploading at hstep
    dsimp only at hstep
    have hnone : job.batches = [] := hempty
    rw [if_pos hnone] at hstep
    cases hstep
  unfold Rebuild.after at hafter
  split at hafter <;> cases hafter
  · exact ⟨h.1, fun hstep => by cases hstep⟩
  · exact ⟨h.1, fun hstep => by cases hstep⟩
  · exact huploading h.1
  · exact huploading fun batch hbatch => h.1 batch (List.mem_of_mem_tail hbatch)
  · exact ⟨h.1, fun hstep => by cases hstep⟩
  · exact ⟨h.1, fun hstep => by cases hstep⟩
  · exact ⟨h.1, fun hstep => by cases hstep⟩

theorem World.Bounded.reading (h : world.Bounded env) {stage : Stage}
    (hsending : ∀ job, stage ≠ .sending job) (hsettling : ∀ job uid, stage ≠ .settling job uid) :
    World.Bounded env { world with stage := stage } :=
  ⟨h.queue, fun job hjob => absurd hjob (hsending job),
    fun job uid hjob => absurd hjob (hsettling job uid)⟩

theorem World.Bounded.close (h : world.Bounded env) (run : SearchRun) (error : Bool) :
    (world.close run error).Bounded env :=
  ⟨h.queue, fun job hjob => (by cases hjob), fun job uid hjob => (by cases hjob)⟩

theorem World.Bounded.sendJob (h : world.Bounded env) (hjob : Search.Bounded env job) :
    World.Bounded env { world with stage := .sending job } := by
  refine ⟨h.queue, ?_, fun other uid hother => by cases hother⟩
  intro other hother
  cases hother
  exact hjob

theorem World.Bounded.advance (h : world.Bounded env) (hjob : Search.Bounded env job) :
    (world.advance env job).Bounded env := by
  unfold World.advance
  split
  · next later hafter => exact h.sendJob (hjob.after hafter)
  · have hstate : World.Bounded env { world with
        state := ⟨some (searchFingerprint env.sha256 job.documents), some job.run.probe,
          job.run.startedAt⟩
        finished := some job.documents } := ⟨h.queue, h.sending, h.settling⟩
    exact hstate.close _ _

/-- What a rebuild sends is within the limit. -/
theorem World.Bounded.enqueue (h : world.Bounded env) {task : MeiliTask}
    (hjob : Search.Bounded env job) (hrequest : job.request = some task) :
    World.Bounded env { world with meili := world.meili.enqueue job.run.number task } := by
  refine ⟨?_, h.sending, h.settling⟩
  intro queued hqueued index documents htask
  rcases List.mem_append.mp hqueued with hold | hnew
  · exact h.queue queued hold index documents htask
  · cases List.mem_singleton.mp hnew
    cases htask
    unfold Rebuild.request at hrequest
    split at hrequest <;> cases hrequest
    next hstep =>
      cases hbatches : job.batches with
      | nil => exact absurd hbatches (hjob.2 hstep)
      | cons batch batches =>
          have hmem : batch ∈ job.batches := by
            rw [hbatches]
            exact List.mem_cons_self
          exact hjob.1 batch hmem

theorem World.Bounded.next (h : world.Bounded env) {label : Label}
    (hstep : Step env world label world') : world'.Bounded env := by
  cases hstep.happens with
  | tick ms | change rows => exact ⟨h.queue, h.sending, h.settling⟩
  | started hidle =>
      exact ⟨h.queue, fun job hjob => (by cases hjob), fun job uid hjob => (by cases hjob)⟩
  | probed run read rest hprobing => exact h.reading (by simp) (by simp)
  | current run hprobing hcurrent => exact h.close run false
  | checking run hprobing => exact h.reading (by simp) (by simp)
  | looked job hsending _ =>
      refine h.sendJob ⟨(h.sending job hsending).1, ?_⟩
      dsimp only
      split <;> intro hstep <;> cases hstep
  | loaded run live kind rest documents found hloading hfound => exact h.reading (by simp) (by simp)
  | compared run live documents hloading =>
      have hloaded : World.Bounded env
          { world with loads := sortDocuments documents :: world.loads } :=
        ⟨h.queue, h.sending, h.settling⟩
      unfold World.compare
      dsimp only
      split
      · split
        · exact hloaded.close run true
        · next batches hbatches =>
            have hspec := (searchBatches_spec hbatches).2
            exact hloaded.sendJob ⟨fun batch hbatch => (hspec batch hbatch).2,
              fun hstep => by cases hstep⟩
      · have hstate : World.Bounded env { world with
            loads := sortDocuments documents :: world.loads
            state := ⟨some (searchFingerprint env.sha256 (sortDocuments documents)),
              some run.probe, run.startedAt⟩
            finished := some (sortDocuments documents) } := ⟨h.queue, h.sending, h.settling⟩
        exact hstate.close run false
  | accepted job task hsending hrequest =>
      have hjob := h.sending job hsending
      have hqueued := h.enqueue hjob hrequest
      refine ⟨hqueued.queue, fun other hother => (by cases hother), ?_⟩
      intro other uid hother
      cases hother
      exact hjob
  | missing job hsending _ _ => exact h.advance (h.sending job hsending)
  | lost job task hsending hrequest =>
      exact (h.enqueue (h.sending job hsending) hrequest).close job.run true
  | failed run hrun => exact h.close run true
  | passed job uid hsettling _ _ => exact h.advance (h.settling job uid hsettling)
  | refused job uid hsettling => exact h.close job.run true
  | executed failure _ hexecute =>
      unfold World.execute at hexecute
      split at hexecute
      · cases hexecute
      · next first rest hqueue =>
          cases hexecute
          refine ⟨?_, h.sending, h.settling⟩
          intro queued hqueued
          exact h.queue queued (hqueue ▸ List.mem_cons_of_mem _ hqueued)

/-! ## Over every history -/

section Histories
variable (now : Nat) (published : PublishedRows) (index : Indexes)

theorem boot_inv : (World.boot now published index).Inv env (index .live) := by
  have hnone {p : QueuedTask → Prop} : ∀ task ∈ ([] : List QueuedTask), p task := by simp
  refine ⟨⟨hnone, hnone, List.Pairwise.nil, hnone, fun _ _ => rfl, Or.inl hnone⟩, Or.inl rfl, ?_, ?_,
    ?_, hnone, rfl, ?_⟩
  · exact fun run hrun => by cases hrun
  · exact fun number hnumber => by cases hnumber
  · exact fun run hrun => by cases hrun
  · exact fun run hrun => by cases hrun

theorem boot_clocked : (World.boot now published index).Clocked :=
  ⟨Nat.zero_le _, fun _ hrun => (by cases hrun), fun _ hrun => (by cases hrun)⟩

theorem boot_bounded : (World.boot now published index).Bounded env :=
  ⟨fun _ hqueued => (by cases hqueued), fun _ hjob => (by cases hjob),
    fun _ _ hjob => (by cases hjob)⟩

variable {now published index} {labels : List Label}

theorem run_inv (h : Run (Step env) (World.boot now published index) labels world) :
    world.Inv env (index .live) := by
  have hstep (s : World) (label : Label) (t : World) (hnext : Step env s label t)
      (hinv : s.Inv env (index .live)) : t.Inv env (index .live) := hinv.next hnext
  exact h.invariant hstep (boot_inv now published index)

/-- In a clean history the live index follows the finished full checks. -/
theorem run_synced (hsha : Function.Injective env.sha256)
    (h : Run (Step env) (World.boot now published index) labels world) (hclean : world.Clean) :
    world.Synced := by
  have hall : world.Clean → world.Synced := by
    apply Run.snocInduction (motive := fun _ last => last.Clean → last.Synced) _ _ h
    · intro _ documents hfinished
      cases hfinished
    · intro before middle label last hbefore ih hstep hclean
      exact (ih (hclean.before hstep.grown)).next (run_inv hbefore) hsha hstep hclean
  exact hall hclean

variable {run : EndedRun}

/-- Where a run has ended without an error, a full check has finished. -/
theorem World.Inv.finished_of_ended (h : world.Inv env start) (hrun : run ∈ world.ended)
    (herror : run.error = false) : ∃ documents, world.finished = some documents := by
  have hrecorded := h.recorded
  unfold Recorded at hrecorded
  split at hrecorded
  · have htrue := hrecorded.2 run hrun
    rw [herror] at htrue
    cases htrue
  · next documents hfinished => exact ⟨documents, hfinished⟩

/-- After a clean run without an error the live index holds the load of the
last finished full check. -/
theorem run_ended (hsha : Function.Injective env.sha256)
    (h : Run (Step env) (World.boot now published index) labels world) (hclean : world.Clean)
    (hidle : world.stage = .idle) (hrun : run ∈ world.ended) (herror : run.error = false) :
    ∃ documents, world.finished = some documents ∧
      world.live = some (contentOf documents) := by
  obtain ⟨documents, hfinished⟩ := (run_inv h).finished_of_ended hrun herror
  have hlive := run_synced hsha h hclean documents hfinished fun other hother => by
    rw [hidle] at hother
    cases hother
  exact ⟨documents, hfinished, hlive⟩

/-- An hour after a start since which no row has changed. -/
theorem run_follows {before after : List Label} {w₀ w₁ w₂ : World}
    (hbefore : Run (Step env) (World.boot now published index) before w₀)
    (hstart : Step env w₀ .start w₁) (hafter : Run (Step env) w₁ after w₂)
    (hquiet : ∀ label ∈ after, ∀ rows, label ≠ .change rows) (hrun : run ∈ w₂.ended)
    (herror : run.error = false) (hlate : w₀.now + FULL_CHECK_MS ≤ run.startedAt) :
    w₂.finished = some (loadSearchDocuments env.off w₂.published) := by
  have hclock (s : World) (label : Label) (t : World) (hnext : Step env s label t)
      (hclocked : s.Clocked) : t.Clocked := hclocked.next hnext
  have hclocked := hbefore.invariant hclock (boot_clocked now published index)
  have hfirst : w₁.Follows env w₁.published w₀.now := by
    have hhour : 0 < FULL_CHECK_MS := by decide
    cases hstart.happens with
    | started hidle =>
        refine ⟨rfl, Or.inl hclocked.checked, ?_, trivial⟩
        intro ended hended _ hlater
        have hpast := hclocked.ended ended hended
        omega
  have hstep (s : World) (label : Label) (t : World) (hlabel : ∀ rows, label ≠ .change rows)
      (hnext : Step env s label t) (hfollows : s.Follows env w₁.published w₀.now) :
      t.Follows env w₁.published w₀.now := hfollows.next hlabel hnext
  have hlast := hafter.invariant_of_labels hstep hquiet hfirst
  rw [hlast.rows]
  exact hlast.ended run hrun herror hlate

end Histories

section Announcement

/-- Two modules off, and a digest that is the text itself. -/
def plainEnv : SearchEnv := ⟨[.events, .polls], String.ofList, SEARCH_BATCH_BYTES⟩

def announcementRow (id : Nat) (title : String) : SearchRow :=
  ⟨id, some "a1", none, id, [("title", title)]⟩

/-- The published rows: one announcement. -/
def announced (row : SearchRow) : PublishedRows where
  rows kind := if kind = .announcement then [row] else []
  distinct := by
    intro kind
    unfold documentsOf
    split
    · rw [List.filterMap_cons]
      cases toSearchDocument kind row <;> simp
    · exact List.nodup_nil

def call : List Label := [.accept, .execute none, .poll]

/-- A full check after its start, up to the comparison. -/
def readAll (row : SearchRow) : List Label :=
  List.replicate 12 .probe ++ [.getLive, .load [row], .load [], .load [], .compare]

/-- A rebuild up to the swap, over a live index that is there. -/
def rebuildAndSwap : List Label := call ++ call ++ call ++ call ++ [.getLive] ++ call

def firstRow : SearchRow := announcementRow 1 "Old"

/-- The first run up to the task that creates the live index. -/
def creating : List Label :=
  (.start :: readAll firstRow) ++ call ++ call ++ call ++ call ++ [.getLive, .accept, .execute none]

/-- The first run creates the live index, swaps and ends well. -/
def firstRun : List Label := creating ++ [.poll] ++ call ++ call

/-- The title is edited, and the run that swaps the new text in fails at its
last call. Then the old title comes back. -/
def editAndReturn : List Label :=
  [.change (announced (announcementRow 2 "New")), .start] ++ readAll (announcementRow 2 "New") ++
    rebuildAndSwap ++ [.fail, .change (announced (announcementRow 3 "Old"))]

/-- The rest of a full check, and another one an hour later. -/
def twoChecks : List Label :=
  readAll (announcementRow 3 "Old") ++
    [.tick FULL_CHECK_MS, .start] ++ readAll (announcementRow 3 "Old")

def bootAnnounced : World := World.boot 0 (announced firstRow) fun _ => none

def titleIn (content : Content) : Option String :=
  (content "announcement_a1").map SearchIndexDocument.title

/-- What one sees of a world: the announcement's title in the live index, and in
an index of the rows, of the finished check and of each load. -/
structure Shown where
  live : Option (Option String)
  rows : Option String
  finished : Option (Option String)
  loads : List (Option String)
  stage : Stage
  now : Nat
  ended : List EndedRun
  deriving DecidableEq

def World.shown (world : World) : Shown where
  live := world.live.map titleIn
  rows := titleIn (contentOf (loadSearchDocuments plainEnv.off world.published))
  finished := world.finished.map fun documents => titleIn (contentOf documents)
  loads := world.loads.map fun documents => titleIn (contentOf documents)
  stage := world.stage
  now := world.now
  ended := world.ended

theorem shown_of_follow {first : World} {labels : List Label} {shown : Shown}
    (h : (follow (Search.next plainEnv) first labels).map World.shown = some shown) :
    ∃ world, Run (Step plainEnv) first labels world ∧ world.shown = shown := by
  obtain ⟨world, hfollow, hshown⟩ := Option.map_eq_some_iff.mp h
  exact ⟨world, run_of_follow hfollow, hshown⟩

theorem live_ne {documents : List SearchIndexDocument}
    (h : world.live.map titleIn ≠ some (titleIn (contentOf documents))) :
    world.live ≠ some (contentOf documents) := by
  intro heq
  rw [heq] at h
  exact h rfl

theorem plain_injective : Function.Injective plainEnv.sha256 := by
  intro a b h
  exact String.ofList_injective h

end Announcement

end Sinnlos.Cms.Search

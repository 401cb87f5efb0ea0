import Sinnlos.Cms.ErasureRuns

/-! # The history of an erasure

The commits of a run tell how often each notification was rewritten: once where
it named the person and is still there without the name, and never twice.
-/

namespace Sinnlos.Cms.Erasure

open Notify Database

def EraseCall.isRewrite : EraseCall → Bool
  | .rewriteActorPage _ => true
  | _ => false

abbrev EraseCommit (τ : Type) : Type := Commit τ RowKey Record EraseResult EraseCall

/-- The committed pages that rewrote this row. -/
def rewrites {τ : Type} (log : List (EraseCommit τ)) (k : RowKey) : Nat :=
  log.countP fun commit => commit.call.isRewrite && (commit.changes k).isSome

/-- What has become of a row after so many rewrites. -/
inductive Fate (person : Nat) (first : Record) : Nat → Record → Prop
  | untouched : Fate person first 0 first
  | deleted (times : Nat) (once : times ≤ 1) : Fate person first times .gone
  | rewritten (named : first.names person = true) : Fate person first 1 first.nameless

section Log
variable {person : Nat} {τ : Type} {first rows : RowKey → Record} {log : List (EraseCommit τ)}
  {record : Record} {times : Nat} {row : Record}

theorem Fate.named (h : Fate person record times row) (names : row.names person = true) :
    times = 0 ∧ row = record := by
  cases h with
  | untouched => exact ⟨rfl, rfl⟩
  | deleted once => cases names
  | rewritten named =>
      rw [Record.nameless, names_rewrite person record record named] at names
      cases names

theorem Fate.once (h : Fate person record times row) : times ≤ 1 := by
  cases h with
  | untouched => exact Nat.zero_le 1
  | deleted once => assumption
  | rewritten named => exact Nat.le_refl 1

/-- What one commit does to a row's fate. -/
theorem Fate.commit {commit : EraseCommit τ} {k : RowKey}
    (post : erasePost person commit.call commit.result commit.before commit.changes)
    (h : Fate person record times (commit.before k)) :
    Fate person record
      (times + if (commit.call.isRewrite && (commit.changes k).isSome) = true then 1 else 0)
      (commit.after k) := by
  unfold Commit.after overlay
  cases hchange : commit.changes k with
  | none => simpa using h
  | some row =>
      have hpost := post k row hchange
      simp only [Option.isSome_some, Bool.and_true, Option.getD_some]
      cases hcall : commit.call with
      | rewriteActorPage page =>
          rw [hcall] at hpost
          obtain ⟨hnames, rfl⟩ := hpost
          obtain ⟨rfl, hsame⟩ := h.named hnames
          rw [hsame] at hnames ⊢
          exact .rewritten hnames
      | _ =>
          rw [hcall] at hpost
          obtain rfl := hpost
          exact .deleted _ h.once

theorem linked_fate (linked : Linked first log rows)
    (posts : ∀ commit ∈ log, erasePost person commit.call commit.result commit.before commit.changes)
    (k : RowKey) : Fate person (first k) (rewrites log k) (rows k) := by
  induction log generalizing rows with
  | nil =>
      cases linked
      exact .untouched
  | cons commit earlier ih =>
      obtain ⟨rfl, hrest⟩ := linked
      have hbefore := ih hrest fun c hc => posts c (List.mem_cons_of_mem commit hc)
      have hafter := hbefore.commit (posts commit List.mem_cons_self)
      rw [rewrites, List.countP_cons]
      exact hafter

end Log

/-! ## Whole runs -/

/-- Nobody has begun; the tables hold what they are for. -/
structure ErasureStart {ω : Type} [DecidableEq ω] (job : ω → SweepJob) (start : ErasureCrew ω) :
    Prop where
  rests : start.Rests .gone fun w => (job w).start
  ids : ∀ k, start.db.rows k ≠ .gone → 0 < k.id
  classifieds : ∀ id, start.db.rows ⟨.classified, id⟩ = .gone ∨
    ∃ row, start.db.rows ⟨.classified, id⟩ = .classified row

/-- The rows that link the person, a share counted twice. -/
def workOf {ω : Type} (person : Nat) (start : ErasureCrew ω) : Nat :=
  owedFrom person start.db.keys start.db.rows deletedByRelation

section Runs
variable {ω : Type} [DecidableEq ω] {person : Nat} {job : ω → SweepJob}
  {start s : ErasureCrew ω} {labels : List (CrewLabel ω RowKey Unit EraseCall)}

theorem ErasureStart.stored (h : ErasureStart job start) : Stored start.db.keys start.db.rows :=
  ⟨h.rests.db.fresh, h.ids, h.classifieds⟩

theorem start_known {stored : List RowKey} {rows : RowKey → Record} (job : SweepJob)
    (tables : Stored stored rows) :
    Known job person stored (owedFrom person stored rows deletedByRelation) job.start 0 0 rows := by
  have hnames : count stored rows .notification (Record.names person) 0 ≤
      owedFrom person stored rows deletedByRelation := by
    simp only [deletedByRelation, owedFrom]
    omega
  cases hjob : job.deletes with
  | true =>
      rw [SweepJob.start, if_pos hjob]
      apply startCollect_known _ tables (fun c hc => hc) fun c hc => Or.inl hc
      · have hlength : deletedByRelation.length = 6 := rfl
        omega
      · omega
  | false =>
      rw [SweepJob.start, hjob, if_neg Bool.false_ne_true]
      refine ⟨tables, ⟨?_, ?_⟩, ?_, ?_⟩
      · intro hdeletes
        rw [hjob] at hdeletes
        cases hdeletes
      · intro id hle
        rw [← Bool.not_eq_true]
        intro hnames
        exact absurd (tables.ids _ (present_of_names hnames)) (Nat.not_lt.mpr hle)
      · simp only [owed, loopsLeft]
        omega
      · simp only [owed, gathered]
        omega

/-- What every worker knows in every run. -/
theorem worker_knows (h : ErasureStart job start)
    (run : Runs.Run (ErasureStep person job) start labels s) (w : ω) :
    s.Manned (erasureGuarantee person) (erasePost person) (eraseDeed person) ∧
      Crew.Working (erasureGuarantee person) (eraseDeed person) (workOf person start + 9)
        (workOf person start) (Known (job w) person start.db.keys (workOf person start))
        (s.worker w) s.db.rows := by
  apply Crew.Working.run (w := w) (sweep_rule (job w) person _ _) (erasure_serving ω person)
    (h.rests.manned _ _) _ run
  rw [h.rests.fresh w]
  exact .fresh (start_known (job w) h.stored)

/-- The reads and calls of a worker are bounded by the rows there were. -/
theorem erasure_ends (h : ErasureStart job start)
    (run : Runs.Run (ErasureStep person job) start labels s) (w : ω) :
    (s.worker w).reads ≤ workOf person start + 9 ∧ (s.worker w).begun ≤ workOf person start := by
  obtain ⟨_, working⟩ := worker_knows h run w
  exact ⟨working.reads, Nat.le_trans (Nat.le_add_right _ _) working.calls⟩

variable {w : ω}

/-- A worker that ended without an error has swept. -/
theorem finished_swept (h : ErasureStart job start)
    (run : Runs.Run (ErasureStep person job) start labels s)
    (finished : (s.worker w).duty = .reading .done) : Swept (job w) person s.db.rows := by
  obtain ⟨_, working⟩ := worker_knows h run w
  have knows := working.knows
  unfold Crew.Knows at knows
  rw [finished] at knows
  exact knows.cleared

theorem run_fate (h : ErasureStart job start)
    (run : Runs.Run (ErasureStep person job) start labels s) (k : RowKey) :
    Fate person (start.db.rows k) (rewrites s.db.log k) (s.db.rows k) := by
  have manned := h.rests.manned (erasePost person) (eraseDeed person)
    (G := erasureGuarantee person)
  have both := run.invariant (P := fun m : ErasureCrew ω =>
      m.Manned (erasureGuarantee person) (erasePost person) (eraseDeed person) ∧
        Linked start.db.rows m.db.log m.db.rows)
    (fun _ _ _ hs hm => ⟨hm.1.step (erasure_serving ω person) hs, hs.linked hm.2⟩)
    ⟨manned, by rw [h.rests.db.log]; rfl⟩
  exact linked_fate both.2 (fun commit hc => (both.1.served.sound.logged commit hc).2) k

/-- Where a run has swept, a further run finds nothing to do. -/
theorem further_run {s' : ErasureCrew ω} {labels' : List (CrewLabel ω RowKey Unit EraseCall)}
    (h : ErasureStart job start) (run : Runs.Run (ErasureStep person job) start labels s)
    (swept : Swept (job w) person s.db.rows) (fresh : s.worker w = .fresh (job w).start)
    (again : Runs.Run (ErasureStep person job) s labels' s') : (s'.worker w).begun = 0 := by
  have idle : Idle (job w) person (job w).start 0 0 s.db.rows := by
    cases hjob : (job w).deletes with
    | true =>
        rw [SweepJob.start, if_pos hjob]
        exact .startCollect swept (fun c hc => hc) hjob (by decide)
    | false =>
        have hrewrites : (job w).rewrites = true := by
          cases hw : job w with
          | rewriteActorNotifications => rfl
          | _ =>
              rw [hw] at hjob
              cases hjob
        rw [SweepJob.start, hjob, if_neg Bool.false_ne_true]
        exact ⟨swept, by simp, by simp, fun _ _ => hrewrites, by decide, rfl⟩
  have manned := (worker_knows h run w).1
  have working : Crew.Working (erasureGuarantee person) (eraseDeed person) 9 0
      (Idle (job w) person) (s.worker w) s.db.rows := by
    rw [fresh]
    exact .fresh idle
  have after := (Crew.Working.run (w := w) (idle_rule (job w) person) (erasure_serving ω person) manned
    working again).2
  exact Nat.le_zero.mp (Nat.le_trans (Nat.le_add_right _ _) after.calls)

/-- A notification that is there was never rewritten, or once for its actor. -/
theorem run_notification (h : ErasureStart job start)
    (run : Runs.Run (ErasureStep person job) start labels s) {id : Nat} {row : Notification}
    (before : start.db.rows ⟨.notification, id⟩ = .notification row) :
    rewrites s.db.log ⟨.notification, id⟩ ≤ 1 ∧
      ∀ after, s.db.rows ⟨.notification, id⟩ = .notification after →
        (rewrites s.db.log ⟨.notification, id⟩ = 0 ∧ after = row) ∨
          (rewrites s.db.log ⟨.notification, id⟩ = 1 ∧ row.actor = some person ∧
            row.Nameless after) := by
  have fate := run_fate h run ⟨.notification, id⟩
  refine ⟨fate.once, ?_⟩
  intro after hafter
  rw [before, hafter] at fate
  generalize rewrites s.db.log ⟨.notification, id⟩ = times at fate
  cases fate with
  | untouched => exact Or.inl ⟨rfl, rfl⟩
  | rewritten named =>
      exact Or.inr ⟨rfl, of_decide_eq_true named, write_nameless row⟩

/-- The erasure of one person by any number of workers, any reads and calls of
which fail. Every worker ends, and until then it can go on or its transaction is
under way; a notification is rewritten at most once, and then names nobody and is
otherwise the same; who ends without an error leaves nothing of what it deletes
or rewrites; and behind a whole sweep a further run begins no transaction. -/
theorem erasure_complete (h : ErasureStart job start)
    (run : Runs.Run (ErasureStep person job) start labels s) :
    (∀ w, ((s.worker w).reads ≤ workOf person start + 9 ∧
        (s.worker w).begun ≤ workOf person start) ∧
      ((s.worker w).duty = .failed ∨ (s.worker w).duty = .reading .done ∨
        (∃ number call calls stage, (s.worker w).duty = .awaiting number call calls stage ∧
          s.reply? (w, number) = none) ∨
        ∃ label ∈ [CrewLabel.read w, .send w, .hear w], ∃ s', ErasureStep person job s label s')) ∧
    (∀ id row, start.db.rows ⟨.notification, id⟩ = .notification row →
      rewrites s.db.log ⟨.notification, id⟩ ≤ 1 ∧
        ∀ after, s.db.rows ⟨.notification, id⟩ = .notification after →
          (rewrites s.db.log ⟨.notification, id⟩ = 0 ∧ after = row) ∨
            (rewrites s.db.log ⟨.notification, id⟩ = 1 ∧ row.actor = some person ∧
              row.Nameless after)) ∧
    (∀ w, (s.worker w).duty = .reading .done → Swept (job w) person s.db.rows) ∧
    ∀ w w', (s.worker w).duty = .reading .done → job w = .sweepAnonymised →
      s.worker w' = .fresh (job w').start → ∀ labels' s',
        Runs.Run (ErasureStep person job) s labels' s' → (s'.worker w').begun = 0 := by
  refine ⟨?_, fun id row before => run_notification h run before,
    fun w finished => finished_swept h run finished, ?_⟩
  · intro w
    refine ⟨erasure_ends h run w, ?_⟩
    rcases (worker_knows h run w).1.goesOn (fun w => sweepRounds person (job w))
      (eraseProgram person) w with hfailed | ⟨stage, hduty, hfinished⟩ | hrest
    · exact Or.inl hfailed
    · have hdone : stage = .done := of_decide_eq_true hfinished
      rw [hdone] at hduty
      exact Or.inr (Or.inl hduty)
    · exact Or.inr (Or.inr hrest)
  · intro w w' finished whole fresh labels' s' again
    have swept := finished_swept h run finished
    rw [whole] at swept
    have all : Swept (job w') person s.db.rows :=
      ⟨fun _ => swept.erased rfl, fun _ => swept.unnamed rfl⟩
    exact further_run h run all fresh again

end Runs

/-! ## A run of two workers -/

section Sample

/-- A comment by person 7, which names them, and their reaction. -/
def sampleRow (k : RowKey) : Record :=
  if k = ⟨.notification, 1⟩ then
    .notification
      { type := .comment
        title := "Ada commented on \"News\""
        titleParams := .obj [("actor", .str "Ada"), ("subject", .str "News")]
        link := some "/announcements/news"
        recipient := some 2
        actor := some 7
        sourceType := some .announcement
        sourceDocumentId := some "news" }
  else if k = ⟨.reaction, 1⟩ then .personal "author" (some 7)
  else .gone

def sampleStart : ErasureCrew Bool where
  db :=
    { rows := sampleRow
      keys := [⟨.notification, 1⟩, ⟨.reaction, 1⟩]
      holder := fun _ => none
      draft := fun _ _ => none
      phase := fun _ => none
      env := ()
      log := []
      replies := [] }
  worker := fun _ => .fresh SweepJob.sweepAnonymised.start

/-- The call of the worker `w` with this number: its statements, and its answer. -/
def callLabels (w : Bool) (number statements : Nat) : List (CrewLabel Bool RowKey Unit EraseCall) :=
  [.send w] ++ List.replicate statements (.database (.run (w, number) ⟨.reaction, 0⟩)) ++
    [.database (.commit (w, number)), .database (.confirm (w, number)), .hear w]

/-- The second worker fails at once; the first one sweeps. -/
def sampleLabels : List (CrewLabel Bool RowKey Unit EraseCall) :=
  [.read true, .failRead true, .read false, .read false] ++ callLabels false 0 2 ++
    List.replicate 8 (.read false) ++ callLabels false 1 4 ++ [.read false]

theorem erasure_start_sample : ErasureStart (fun _ => .sweepAnonymised) sampleStart := by
  have gone : ∀ k, k ∉ sampleStart.db.keys → sampleRow k = .gone := by
    intro k hk
    simp only [sampleStart, List.mem_cons, List.not_mem_nil, or_false, not_or] at hk
    rw [sampleRow, if_neg hk.1, if_neg hk.2]
  refine ⟨⟨⟨gone, fun _ => rfl, fun _ _ => rfl, fun _ => rfl, rfl, rfl⟩, fun _ => rfl⟩, ?_, ?_⟩
  · intro k hk
    have hlisted : k ∈ sampleStart.db.keys := by
      by_contra hnot
      exact hk (gone k hnot)
    have hids : ∀ k ∈ sampleStart.db.keys, 0 < k.id := by decide
    exact hids k hlisted
  · exact fun id => Or.inl (gone ⟨.classified, id⟩ (by simp [sampleStart]))

theorem erasure_complete_sample :
    ∃ s, Runs.Run (ErasureStep 7 fun _ => .sweepAnonymised) sampleStart sampleLabels s ∧
      Swept .sweepAnonymised 7 s.db.rows ∧ (s.worker false).begun ≤ 2 ∧
      rewrites s.db.log ⟨.notification, 1⟩ = 1 := by
  have ended : (Runs.follow (Crew.next (fun _ => sweepRounds 7 .sweepAnonymised) (eraseProgram 7))
      sampleStart sampleLabels).map (fun s =>
        ((s.worker false).duty, rewrites s.db.log ⟨.notification, 1⟩)) =
      some (.reading .done, 1) := by
    decide +kernel
  obtain ⟨s, hfollow, hend⟩ := Option.map_eq_some_iff.mp ended
  obtain ⟨hdone, honce⟩ := Prod.mk.inj hend
  have run := Runs.run_of_follow hfollow
  obtain ⟨ends, -, swept, -⟩ := erasure_complete erasure_start_sample run
  exact ⟨s, run, swept false hdone, (ends false).1.2, honce⟩

end Sample

end Sinnlos.Cms.Erasure

import Sinnlos.Cms.DigestWindow
import Sinnlos.Lib.Runs

/-!
# Runs of the digest mailer

Over any sequence of runs each recipient's windows follow one another, so that
no announcement falls between two digests and none is in both.
-/

namespace Sinnlos.Cms.Digest

open Calendar (Date)
open Domain (Zone)
open Runs

variable {zone : Zone} {startOfDay : Date → Int}

/-! ## One digest -/

/-- The announcements in a digest are the recipient's part of its run's window. -/
structure Accounted (zone : Zone) (startOfDay : Date → Int) (digest : SentDigest) : Prop where
  due : isDigestDue zone startOfDay digest.entry.user digest.sentAt = true
  since : digest.entry.since = digestWindowStart digest.entry.user digest.sentAt
  scope : digest.entry.scope.userId = digest.userId
  rows : digest.entry.user.digestAnnouncements = some true →
    ∃ table due, digest.world.announcements = some table ∧ digest.entry ∈ due ∧
      digest.rows = selected (loadAnnouncementWindow digest.world table due) digest.entry
  silent : digest.entry.user.digestAnnouncements ≠ some true → digest.rows = []

section OneRun

variable {world : DigestWorld} {s : DigestState} {scopes : List RecipientScope} {entry : Due}
  {digest : SentDigest}

theorem mem_dueEntries (h : entry ∈ dueEntries zone startOfDay world scopes s) :
    entry.user.lastDigestAt = s.lastDigestAt entry.user.id ∧
      isDigestDue zone startOfDay entry.user world.now = true ∧
      entry.scope.userId = entry.user.id ∧
      entry.since = digestWindowStart entry.user world.now := by
  obtain ⟨user, huser, hentry⟩ := List.mem_filterMap.mp h
  unfold dueUsers at huser
  rw [List.mem_filter, Bool.and_eq_true] at huser
  obtain ⟨hcandidate, -, hdue⟩ := huser
  obtain ⟨row, -, hrow⟩ := List.mem_map.mp hcandidate
  split at hentry
  · cases hentry
  · next scope hscope =>
      split at hentry
      · cases hentry
        have hid := List.find?_some hscope
        refine ⟨?_, hdue, by simpa using hid, rfl⟩
        rw [← hrow]
      · cases hentry

/-- Each user is due once. -/
theorem dueEntries_nodup (zone : Zone) (startOfDay : Date → Int) (world : DigestWorld)
    (scopes : List RecipientScope) (s : DigestState) :
    ((dueEntries zone startOfDay world scopes s).map (·.user.id)).Nodup := by
  have husers : ((dueUsers zone startOfDay world s).map (·.id)).Nodup := by
    unfold dueUsers candidates
    refine List.Nodup.sublist (List.filter_sublist.map _) ?_
    rw [List.map_map]
    exact world.users_ids.sublist (List.filter_sublist.map _)
  unfold dueEntries
  refine List.Nodup.sublist ?_ husers
  generalize dueUsers zone startOfDay world s = users
  induction users with
  | nil => exact List.Sublist.slnil
  | cons user users ih =>
      rw [List.filterMap_cons, List.map_cons]
      split
      · exact ih.cons _
      · next entry hentry =>
          have hid : entry.user.id = user.id := by
            split at hentry
            · cases hentry
            · split at hentry
              · cases hentry
                rfl
              · cases hentry
          rw [List.map_cons, hid]
          exact ih.cons_cons _

variable {window : Option (List DigestAnnouncement × NotifiedIndex)}
  {training : Option (List NotificationRow)}

theorem digestFor_spec (h : digestFor world window training entry = some digest) :
    digest.world = world ∧ digest.entry = entry ∧
      digest.rows = selected (window.getD ([], .none)) entry ∧
      (entry.user.digestAnnouncements = some true → window.isSome) := by
  unfold digestFor at h
  split at h
  · cases h
  · split at h
    · cases h
    · next hknown =>
        dsimp only at h
        cases hdelivery : world.delivery entry.user.id with
        | readsFail | sendFails | unmarked => simp [hdelivery] at h
        | sent =>
          simp only [hdelivery] at h
          split at h
          · cases h
          · cases h
            refine ⟨rfl, rfl, rfl, ?_⟩
            intro hwants
            cases hwindow : window with
            | none => exact absurd ⟨hwants, by rw [hwindow]; rfl⟩ hknown
            | some _ => rfl

theorem mem_sentDigests (h : digest ∈ sentDigests zone startOfDay world s) :
    digest.world = world ∧ digest.entry.user.lastDigestAt = s.lastDigestAt digest.userId ∧
      Accounted zone startOfDay digest := by
  unfold sentDigests at h
  split at h
  · cases h
  · split at h
    · cases h
    · next scopes hscopes =>
        obtain ⟨entry, hentry, hdigest⟩ := List.mem_filterMap.mp h
        obtain ⟨hworld, hentryEq, hrows, hwindow⟩ := digestFor_spec hdigest
        obtain ⟨hmark, hdue, hscope, hsince⟩ := mem_dueEntries hentry
        subst hworld hentryEq
        refine ⟨rfl, hmark, ⟨hdue, hsince, hscope, ?_, ?_⟩⟩
        · intro hwants
          have hsome := hwindow hwants
          cases htable : digest.world.announcements with
          | none =>
              rw [htable] at hsome
              cases hsome
          | some table =>
              rw [htable] at hrows
              exact ⟨table, _, rfl, hentry, hrows⟩
        · intro hsilent
          rw [hrows]
          unfold selected
          exact if_neg hsilent

/-- A run sends each user at most one digest. -/
theorem sentDigests_nodup : ((sentDigests zone startOfDay world s).map (·.userId)).Nodup := by
  unfold sentDigests
  split
  · exact List.nodup_nil
  · split
    · exact List.nodup_nil
    · next scopes hscopes =>
        refine List.Nodup.sublist ?_ (dueEntries_nodup zone startOfDay world scopes s)
        dsimp only
        generalize dueEntries zone startOfDay world scopes s = due
        generalize (world.announcements.map fun rows => loadAnnouncementWindow world rows due) = window
        generalize (if world.trainingOff = true then some [] else if world.trainingFails = true then none
          else some (loadTrainingReminders world due)) = training
        induction due with
        | nil => exact List.Sublist.slnil
        | cons entry due ih =>
            rw [List.filterMap_cons, List.map_cons]
            split
            · exact ih.cons _
            · next digest hdigest =>
                have hid : digest.userId = entry.user.id := by
                  unfold SentDigest.userId
                  rw [(digestFor_spec hdigest).2.1]
                rw [List.map_cons, hid]
                exact ih.cons_cons _

end OneRun

/-! ## What is in a digest -/

section Contents

variable {digest : SentDigest} {documentId : String}

/-- The digest lists or counts an announcement of the document. -/
def Contains (digest : SentDigest) (documentId : String) : Prop :=
  ∃ row ∈ digest.rows, row.documentId = some documentId

/-- A row stands through the run's reads, published before the run, not expired
and visible to the scope. -/
structure VisibleAt (world : DigestWorld) (scope : RecipientScope) (documentId : String) : Prop where
  row : ∃ table raw, world.announcements = some table ∧ raw ∈ table ∧
    raw ∈ world.announcementsAgain ∧ raw.documentId = some documentId ∧
    (∃ ms, raw.publishedAt = some ms ∧ ms < world.now) ∧ notExpired world.now raw = true ∧
    isAnnouncementVisible raw.targeting scope.toUserScope = true

/-- Each row of a digest was published in its window, by a document that the
recipient was not told of before. -/
theorem rows_sound (haccounted : Accounted zone startOfDay digest) {row : DigestAnnouncement}
    (hrow : row ∈ digest.rows) (hdocument : row.documentId = some documentId) :
    (∃ ms, row.publishedAt = some ms ∧ digest.entry.since ≤ ms ∧ ms < digest.sentAt) ∧
      (∃ raw ∈ digest.world.announcements.getD [], SameRow row raw) ∧
      ¬ ToldUser digest.world digest.userId documentId digest.entry.since ∧
      (∀ author, row.author = some author → author.id = digest.userId →
        ¬ ToldAnyone digest.world documentId digest.entry.since) := by
  by_cases hwants : digest.entry.user.digestAnnouncements = some true
  · obtain ⟨table, due, htable, hentry, hrows⟩ := haccounted.rows hwants
    rw [hrows] at hrow
    unfold selected at hrow
    rw [if_pos hwants] at hrow
    obtain ⟨hwindow, hselectable⟩ := selectRows_sound hrow
    obtain ⟨raw, hraw, hsame, -, ms, hms, hlt⟩ := window_sound hentry hwants hwindow
    have hstored : raw ∈ digest.world.announcements.getD [] := by
      rw [htable]
      exact hraw
    have hne : documentId ≠ "" := by
      intro hempty
      have hnot := digest.world.documentId_ne raw hstored
      rw [← hsame.documentId, hdocument, hempty] at hnot
      exact hnot rfl
    obtain ⟨hfirst, huser⟩ := window_told hentry hwants hwindow hdocument hne
    obtain ⟨published, hpublished, hsince⟩ := hselectable.published
    have hinstant := hpublished.symm.trans (hsame.publishedAt.trans hms)
    cases hinstant
    refine ⟨⟨ms, hpublished, hsince, hlt⟩, ⟨raw, hstored, hsame⟩, ?_, ?_⟩
    · intro htold
      have hnot := hselectable.not_told documentId hdocument
      rw [huser.mpr htold] at hnot
      cases hnot
    · intro author hauthor hid htold
      have hnot := hselectable.author_not_told documentId author hdocument hauthor
        (hid.trans haccounted.scope.symm)
      rw [hfirst.mpr htold] at hnot
      cases hnot
  · rw [haccounted.silent hwants] at hrow
    cases hrow

/-- An announcement first published in the window is in the digest. -/
theorem contains_of_visible (haccounted : Accounted zone startOfDay digest) {p : Int}
    (hwants : digest.entry.user.digestAnnouncements = some true)
    (hfirst : FirstPublished digest.world documentId p) (hsince : digest.entry.since ≤ p)
    (hvisible : VisibleAt digest.world digest.entry.scope documentId) :
    Contains digest documentId := by
  obtain ⟨table, due, htable, hentry, hrows⟩ := haccounted.rows hwants
  obtain ⟨stored, raw, hstored, hraw, hagain, hdocument, ⟨ms, hms, hlt⟩, hexpires, hsees⟩ :=
    hvisible.row
  rw [htable] at hstored
  cases hstored
  have hp : p ≤ ms := by
    apply hfirst.rows raw _ hdocument ms hms
    rw [htable]
    exact hraw
  obtain ⟨row, hrow, hsame, hsameAudience⟩ := window_complete hentry hwants hraw hagain hexpires hms
    (by omega) hlt
  have hrowDocument := hsame.documentId.trans hdocument
  have hne : documentId ≠ "" := by
    intro hempty
    have hnot := digest.world.documentId_ne raw (by rw [htable]; exact hraw)
    rw [hdocument, hempty] at hnot
    exact hnot rfl
  obtain ⟨htoldFirst, htoldUser⟩ := window_told hentry hwants hrow hrowDocument hne
  have hnobody := hfirst.not_toldAnyone hsince
  unfold Contains
  rw [hrows]
  unfold selected
  rw [if_pos hwants]
  apply selectRows_complete hrow hrowDocument ⟨ms, hsame.publishedAt.trans hms, by omega⟩
  · rw [hsameAudience]
    exact hsees
  · exact List.not_mem_nil
  · rw [Bool.eq_false_iff]
    intro htold
    exact hnobody (htoldUser.mp htold).anyone
  · rw [Bool.eq_false_iff]
    intro htold
    exact hnobody (htoldFirst.mp htold)

end Contents

/-! ## Histories -/

/-- The mark of a user after some digests: the instant of the last one to the
user, or the mark from before them. -/
def markAfter (mark : Nat → Option Int) (digests : List SentDigest) (userId : Nat) : Option Int :=
  match digests.reverse.find? fun digest => digest.userId = userId with
  | some digest => some digest.sentAt
  | none => mark userId

theorem markAfter_snoc (mark : Nat → Option Int) (digests : List SentDigest) (digest : SentDigest)
    (userId : Nat) :
    markAfter mark (digests ++ [digest]) userId =
      if userId = digest.userId then some digest.sentAt else markAfter mark digests userId := by
  unfold markAfter
  rw [List.reverse_append, List.reverse_singleton, List.singleton_append]
  by_cases huser : userId = digest.userId
  · subst huser
    simp
  · have hne : ¬ digest.userId = userId := fun h => huser h.symm
    rw [List.find?_cons_of_neg (by simpa using hne), if_neg huser]

/-- How a digest follows those before it. -/
structure Follows (zone : Zone) (startOfDay : Date → Int) (mark : Nat → Option Int)
    (before : List SentDigest) (digest : SentDigest) : Prop where
  accounted : Accounted zone startOfDay digest
  mark : digest.entry.user.lastDigestAt = markAfter mark before digest.userId
  later : ∀ earlier ∈ before, earlier.sentAt ≤ digest.sentAt

/-- A log in which every digest follows those before it. -/
inductive Linked (zone : Zone) (startOfDay : Date → Int) (mark : Nat → Option Int) :
    List SentDigest → Prop
  | nil : Linked zone startOfDay mark []
  | snoc {digests digest} : Linked zone startOfDay mark digests →
      Follows zone startOfDay mark digests digest → Linked zone startOfDay mark (digests ++ [digest])

section Histories

variable {mark : Nat → Option Int} {before : List SentDigest} {digest : SentDigest}
  {s : DigestState} {after log : List SentDigest} {start : DigestState} {runs : List DigestWorld}

theorem Linked.follows (h : Linked zone startOfDay mark (before ++ digest :: after)) :
    Follows zone startOfDay mark before digest := by
  induction after using List.reverseRecOn with
  | nil =>
      generalize hlog : before ++ [digest] = log at h
      cases h with
      | nil => simp at hlog
      | snoc _ hfollows =>
          obtain ⟨hbefore, hdigest⟩ := List.append_inj' hlog rfl
          cases hdigest
          subst hbefore
          exact hfollows
  | append_singleton after last ih =>
      rw [← List.cons_append, ← List.append_assoc] at h
      generalize hlog : before ++ digest :: after ++ [last] = log at h
      cases h with
      | nil => simp at hlog
      | snoc hlinked _ =>
          obtain ⟨hbefore, -⟩ := List.append_inj' hlog rfl
          subst hbefore
          exact ih hlinked

/-- The digests of one run extend the log. -/
theorem Linked.extend {sent : List SentDigest} (h : Linked zone startOfDay mark log) {now : Int}
    (hnodup : (sent.map (·.userId)).Nodup) (hbefore : ∀ earlier ∈ log, earlier.sentAt ≤ now)
    (hnow : ∀ digest ∈ sent, digest.sentAt = now)
    (hmark : ∀ digest ∈ sent, digest.entry.user.lastDigestAt = markAfter mark log digest.userId)
    (haccounted : ∀ digest ∈ sent, Accounted zone startOfDay digest) :
    Linked zone startOfDay mark (log ++ sent) := by
  induction sent using List.reverseRecOn with
  | nil => simpa using h
  | append_singleton sent last ih =>
      rw [List.map_append, List.nodup_append] at hnodup
      obtain ⟨hfront, -, hdistinct⟩ := hnodup
      have hlast : last ∈ sent ++ [last] := by simp
      have hlinked := ih hfront (fun digest hdigest => hnow digest (List.mem_append_left _ hdigest))
        (fun digest hdigest => hmark digest (List.mem_append_left _ hdigest))
        (fun digest hdigest => haccounted digest (List.mem_append_left _ hdigest))
      rw [← List.append_assoc]
      refine .snoc hlinked ⟨haccounted last hlast, ?_, ?_⟩
      · rw [hmark last hlast]
        have hother : ∀ digest ∈ sent, digest.userId ≠ last.userId := by
          intro digest hdigest
          exact hdistinct _ (List.mem_map_of_mem hdigest) _ (by simp)
        unfold markAfter
        rw [List.reverse_append, List.find?_append]
        have hnone : sent.reverse.find? (fun digest => digest.userId = last.userId) = none := by
          rw [List.find?_eq_none]
          intro digest hdigest
          simpa using hother digest (List.mem_reverse.mp hdigest)
        rw [hnone]
        rfl
      · intro earlier hearlier
        rw [hnow last hlast]
        rcases List.mem_append.mp hearlier with hold | hnew
        · exact hbefore earlier hold
        · exact (hnow earlier (List.mem_append_left _ hnew)).le

/-- What every reachable state keeps. -/
structure Kept (zone : Zone) (startOfDay : Date → Int) (mark : Nat → Option Int) (s : DigestState) :
    Prop where
  marks : s.lastDigestAt = markAfter mark s.digests
  clock : ∀ digest ∈ s.digests, digest.sentAt ≤ s.clock
  linked : Linked zone startOfDay mark s.digests

theorem foldl_record (sent : List SentDigest) (s : DigestState) :
    (sent.foldl DigestState.record s).digests = s.digests ++ sent := by
  induction sent generalizing s with
  | nil => simp
  | cons digest sent ih =>
      rw [List.foldl_cons, ih]
      simp [DigestState.record]

theorem foldl_record_marks (sent : List SentDigest) (s : DigestState)
    (h : s.lastDigestAt = markAfter mark s.digests) :
    (sent.foldl DigestState.record s).lastDigestAt =
      markAfter mark (sent.foldl DigestState.record s).digests := by
  induction sent generalizing s with
  | nil => exact h
  | cons digest sent ih =>
      rw [List.foldl_cons]
      apply ih
      funext userId
      unfold DigestState.record
      dsimp only
      rw [markAfter_snoc, h]

theorem step_kept {s' : DigestState} {world : DigestWorld}
    (hstep : Step zone startOfDay s world s') (h : Kept zone startOfDay mark s) :
    Kept zone startOfDay mark s' := by
  obtain ⟨hclock, rfl⟩ := hstep
  obtain ⟨sent, hsent⟩ : ∃ sent, sent = sentDigests zone startOfDay world s := ⟨_, rfl⟩
  have hfrom (digest : SentDigest) (hdigest : digest ∈ sent) :
      digest.world = world ∧ digest.entry.user.lastDigestAt = s.lastDigestAt digest.userId ∧
        Accounted zone startOfDay digest := by
    rw [hsent] at hdigest
    exact mem_sentDigests hdigest
  have hnow : ∀ digest ∈ sent, digest.sentAt = world.now := by
    intro digest hdigest
    unfold SentDigest.sentAt
    rw [(hfrom digest hdigest).1]
  have hold : ∀ earlier ∈ s.digests, earlier.sentAt ≤ world.now := by
    intro earlier hearlier
    have hle := h.clock earlier hearlier
    omega
  unfold sendDigests
  rw [← hsent]
  refine ⟨foldl_record_marks sent s h.marks, ?_, ?_⟩
  · dsimp only
    rw [foldl_record]
    intro digest hdigest
    rcases List.mem_append.mp hdigest with hdigest | hdigest
    · exact hold digest hdigest
    · exact (hnow digest hdigest).le
  · dsimp only
    rw [foldl_record]
    apply h.linked.extend _ hold hnow
    · intro digest hdigest
      rw [(hfrom digest hdigest).2.1, h.marks]
    · exact fun digest hdigest => (hfrom digest hdigest).2.2
    · rw [hsent]
      exact sentDigests_nodup

theorem run_kept (run : Run (Step zone startOfDay) start runs s) (hempty : start.digests = []) :
    Kept zone startOfDay start.lastDigestAt s := by
  refine run.invariant (P := Kept zone startOfDay start.lastDigestAt)
    (fun _ _ _ hstep h => step_kept hstep h) ⟨?_, ?_, ?_⟩
  · rw [hempty]
    rfl
  · intro digest hdigest
    rw [hempty] at hdigest
    cases hdigest
  · rw [hempty]
    exact .nil

/-- Each digest is of one of the runs. -/
theorem run_worlds (run : Run (Step zone startOfDay) start runs s) (hempty : start.digests = []) :
    ∀ digest ∈ s.digests, digest.world ∈ runs := by
  refine Run.snocInduction (motive := fun runs s => ∀ digest ∈ s.digests, digest.world ∈ runs)
    ?_ ?_ run
  · intro digest hdigest
    rw [hempty] at hdigest
    cases hdigest
  · intro runs t world r _ ih hstep digest hdigest
    obtain ⟨-, rfl⟩ := hstep
    unfold sendDigests at hdigest
    dsimp only at hdigest
    rw [foldl_record] at hdigest
    rcases List.mem_append.mp hdigest with hdigest | hdigest
    · exact List.mem_append_left _ (ih digest hdigest)
    · rw [(mem_sentDigests hdigest).1]
      simp

/-- The mark that a user has after a digest is no earlier than it. -/
theorem Linked.le_markAfter (h : Linked zone startOfDay mark log) (hdigest : digest ∈ log) :
    ∃ last, markAfter mark log digest.userId = some last ∧ digest.sentAt ≤ last := by
  induction h with
  | nil => cases hdigest
  | @snoc digests final _ hfollows ih =>
      rw [markAfter_snoc]
      split
      · refine ⟨final.sentAt, rfl, ?_⟩
        rcases List.mem_append.mp hdigest with hold | hnew
        · exact hfollows.later digest hold
        · rw [List.mem_singleton.mp hnew]
      · next hother =>
          rcases List.mem_append.mp hdigest with hold | hnew
          · exact ih hold
          · exact absurd (congrArg SentDigest.userId (List.mem_singleton.mp hnew)) hother

/-- A later digest of the same user has a window from the earlier one on. -/
theorem Follows.since_ge {earlier : SentDigest} (hlinked : Linked zone startOfDay mark before)
    (h : Follows zone startOfDay mark before digest) (hearlier : earlier ∈ before)
    (huser : earlier.userId = digest.userId) :
    ∃ last, digest.entry.user.lastDigestAt = some last ∧ earlier.sentAt ≤ last ∧
      last ≤ digest.entry.since := by
  obtain ⟨last, hlast, hle⟩ := hlinked.le_markAfter hearlier
  rw [huser] at hlast
  have hmark := h.mark.trans hlast
  refine ⟨last, hmark, hle, ?_⟩
  rw [h.accounted.since]
  exact lastDigestAt_le_windowStart hmark

theorem Linked.front (h : Linked zone startOfDay mark (before ++ after)) :
    Linked zone startOfDay mark before := by
  induction after using List.reverseRecOn with
  | nil => simpa using h
  | append_singleton after last ih =>
      rw [← List.append_assoc] at h
      generalize hlog : before ++ after ++ [last] = log at h
      cases h with
      | nil => simp at hlog
      | snoc hlinked _ =>
          obtain ⟨hbefore, -⟩ := List.append_inj' hlog rfl
          subst hbefore
          exact ih hlinked

end Histories

end Sinnlos.Cms.Digest

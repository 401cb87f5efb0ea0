import Sinnlos.Cms.DigestRuns

/-!
# Digests neither skip nor repeat news

What holds of every history of runs, and the quiet run that the cap of the
window makes a gap of.
-/

namespace Sinnlos.Cms.Digest

open Calendar (Date)
open Domain (Zone)
open Runs

variable {zone : Zone} {startOfDay : Date → Int}

def startOfUtcDay (date : Date) : Int := (date.dayNumber - Domain.EPOCH_DAY) * Domain.DAY_MS

theorem startsDays_utc : StartsDays Domain.utc startOfUtcDay := by
  intro date t hle
  unfold Zone.dayAt Domain.utc at hle
  rw [Calendar.dayNumber_ofDayNumber] at hle
  unfold startOfUtcDay Domain.DAY_MS
  unfold Domain.DAY_MS at hle
  dsimp only at hle
  omega

/-- Half past seven on a day. -/
def morning (day : Int) : Int := day * 86400000 + 27000000

def subscriber : DigestUser where
  id := 1
  email := some "one@example.org"
  blocked := some false
  digestAnnouncements := some true
  digestMentions := none
  digestKudos := none
  digestFrequency := some "daily"
  lastDigestAt := none

def memberOf (department : Nat) : RecipientScope where
  roleId := some 3
  departmentId := some department
  teamIds := []
  ledTeamIds := []
  userId := 1
  roleType := some "member"

/-- An announcement published at a day's noon, for a department or for all. -/
def announced (id : Nat) (documentId : String) (day : Int) (department : Option Nat) :
    DigestAnnouncement where
  id := id
  documentId := some documentId
  title := some documentId
  targeting := ⟨department.map fun _ => Domain.AUDIENCE_DEPARTMENTS, department, none, [], some false⟩
  publishedAt := some (day * 86400000 + 43200000)
  expiresAt := none
  author := none

def news : List DigestAnnouncement :=
  [announced 1 "welcome" 99 none, announced 2 "move" 101 (some 2), announced 3 "party" 118 none]

/-- The morning's run: the subscriber is in `department`, and what was published
by then stands. -/
def morningRun (day : Int) (department : Nat) : DigestWorld where
  now := morning day
  enabled := true
  users := [subscriber]
  scopes := some [memberOf department]
  announcementReaders := [3]
  kudosReaders := []
  announcements := some (news.filter fun row => row.publishedAt.any fun ms => ms < morning day)
  announcementsAgain := news.filter fun row => row.publishedAt.any fun ms => ms < morning day
  notifications := []
  trainingOff := false
  trainingFails := false
  kudosOff := false
  kudos := []
  delivery := fun _ => .sent
  users_ids := by decide
  again_ids := by
    refine List.Nodup.sublist (List.filter_sublist.map _) ?_
    decide
  notification_ids := List.nodup_nil
  notification_pos := by
    intro row hrow
    cases hrow
  documentId_ne := by
    intro row hrow
    have hmem : row ∈ news := (List.mem_filter.mp hrow).1
    have hall : ∀ row ∈ news, row.documentId ≠ some "" := by decide
    exact hall row hmem

def firstMorning : DigestState where
  lastDigestAt := fun _ => none
  digests := []
  clock := 0

def afterRun (world : DigestWorld) (s : DigestState) : DigestState :=
  sendDigests Domain.utc startOfUtcDay world s

/-- What a digest shows of itself. -/
def shown (digest : SentDigest) : Nat × Int × RecipientScope × List (Option String) :=
  (digest.userId, digest.sentAt, digest.entry.scope, digest.rows.map (·.documentId))

theorem contains_iff_shown {digest : SentDigest} {documentId : String} :
    Contains digest documentId ↔ some documentId ∈ (shown digest).2.2.2 := by
  unfold Contains shown
  exact List.mem_map.symm

theorem exists_two {digests : List SentDigest}
    {a b : Nat × Int × RecipientScope × List (Option String)} (h : digests.map shown = [a, b]) :
    ∃ first second, digests = [first, second] ∧ shown first = a ∧ shown second = b := by
  cases digests with
  | nil => simp at h
  | cons first rest =>
      cases rest with
      | nil => simp at h
      | cons second rest =>
          simp only [List.map_cons, List.cons.injEq, List.map_eq_nil_iff] at h
          obtain ⟨h1, h2, rfl⟩ := h
          exact ⟨first, second, rfl, h1, h2⟩

theorem visibleAt_move (day : Int) (h : 101 * 86400000 + 43200000 < morning day) :
    VisibleAt (morningRun day 2) (memberOf 2) "move" := by
  have hmem : announced 2 "move" 101 (some 2) ∈
      news.filter fun row => row.publishedAt.any fun ms => ms < morning day := by
    rw [List.mem_filter]
    exact ⟨by decide, by simpa [announced] using h⟩
  exact ⟨_, announced 2 "move" 101 (some 2), rfl, hmem, hmem, rfl, ⟨_, rfl, h⟩, rfl, by decide⟩

theorem firstPublished_move (day : Int) (department : Nat) :
    FirstPublished (morningRun day department) "move" (101 * 86400000 + 43200000) := by
  constructor
  · intro row hrow hdocument ms hms
    have hmem : row ∈ news := (List.mem_filter.mp hrow).1
    have hall : ∀ row ∈ news, row.documentId = some "move" →
        row.publishedAt = some (101 * 86400000 + 43200000) := by decide
    rw [hall row hmem hdocument] at hms
    cases hms
    exact le_refl _
  · intro row hrow
    cases hrow

end Sinnlos.Cms.Digest

import Sinnlos.Domain.Instants

/-!
# When a digest is due

The schedule of one user's digests. A day is a day of the business zone and a
week starts on its Monday; the watermark is the instant of the last digest.
-/

namespace Sinnlos.Cms.Digest

open Calendar (Date)
open Domain (Zone)

inductive DigestFrequency
  | daily
  | weekly
deriving DecidableEq

/-- The digest columns of a user row; `lastDigestAt` in milliseconds, `none`
where it is missing or no instant. -/
structure DigestUser where
  id : Nat
  email : Option String
  blocked : Option Bool
  digestAnnouncements : Option Bool
  digestMentions : Option Bool
  digestKudos : Option Bool
  digestFrequency : Option String
  lastDigestAt : Option Int
deriving DecidableEq

def WINDOW_CAP_MS : Int := 14 * 86400000

def wantsAnyDigest (user : DigestUser) : Bool :=
  if user.blocked = some true then false
  else if !((user.email.getD "").toList.contains '@') then false
  else user.digestAnnouncements = some true || user.digestMentions = some true ||
    user.digestKudos = some true

def frequency (user : DigestUser) : DigestFrequency :=
  if user.digestFrequency = some "daily" then .daily else .weekly

/-- 1 on Mondays, 7 on Sundays. -/
def dayOfWeek (date : Date) : Int := date.dayNumber % 7 + 1

/-- The Monday of the ISO week that holds the date. -/
def startOfIsoWeek (date : Date) : Date :=
  Calendar.ofDayNumber (date.dayNumber - (dayOfWeek date - 1))

section

variable (zone : Zone) (startOfDay : Date → Int)

def isDigestDue (user : DigestUser) (now : Int) : Bool :=
  if !wantsAnyDigest user then false
  else
    let last := user.lastDigestAt.getD 0
    let today := zone.dayAt now
    match frequency user with
    | .daily => last < startOfDay today
    | .weekly => last < startOfDay (startOfIsoWeek today)

/-- The first instant of a day comes no later than any instant of that day or of
a later one. -/
def StartsDays : Prop :=
  ∀ date t, date.dayNumber ≤ (zone.dayAt t).dayNumber → startOfDay date ≤ t

end

/-- Since the last digest, at most 14 days back. -/
def digestWindowStart (user : DigestUser) (now : Int) : Int :=
  let fallbackMs :=
    match frequency user with
    | .daily => 86400000
    | .weekly => 7 * 86400000
  let start := user.lastDigestAt.getD (now - fallbackMs)
  max start (now - WINDOW_CAP_MS)

variable {user : DigestUser} {now last : Int}

theorem lastDigestAt_le_windowStart (hlast : user.lastDigestAt = some last) :
    last ≤ digestWindowStart user now := by
  unfold digestWindowStart
  rw [hlast]
  exact le_max_left _ _

/-- A digest at most 14 days after the last one starts where that one ended. -/
theorem digestWindowStart_eq_last (hlast : user.lastDigestAt = some last)
    (hrecent : now ≤ last + WINDOW_CAP_MS) : digestWindowStart user now = last := by
  unfold digestWindowStart
  rw [hlast]
  exact max_eq_left (by dsimp only [Option.getD_some]; omega)

section

variable {zone : Zone} {startOfDay : Date → Int} {user : DigestUser} {now last earlier : Int}

theorem wantsAnyDigest_of_due (h : isDigestDue zone startOfDay user now = true) :
    wantsAnyDigest user = true := by
  unfold isDigestDue at h
  cases hwants : wantsAnyDigest user with
  | false =>
      rw [hwants] at h
      cases h
  | true => rfl

/-- An instant before a day's first one lies on an earlier day. -/
theorem dayAt_lt_of_lt_startOfDay (hstarts : StartsDays zone startOfDay) {date : Date}
    (h : last < startOfDay date) : (zone.dayAt last).dayNumber < date.dayNumber := by
  by_contra hnot
  have hle := hstarts date last (by omega)
  omega

theorem lt_startOfDay_of_due (h : isDigestDue zone startOfDay user now = true)
    (hlast : user.lastDigestAt = some last) :
    (frequency user = .daily → last < startOfDay (zone.dayAt now)) ∧
      (frequency user = .weekly → last < startOfDay (startOfIsoWeek (zone.dayAt now))) := by
  have hwants := wantsAnyDigest_of_due h
  unfold isDigestDue at h
  rw [hwants, hlast] at h
  constructor
  · intro hdaily
    rw [hdaily] at h
    simpa using h
  · intro hweekly
    rw [hweekly] at h
    simpa using h

/-- A daily digest is due on a later day than the last one and any before it. -/
theorem day_lt_of_due (hstarts : StartsDays zone startOfDay)
    (h : isDigestDue zone startOfDay user now = true) (hlast : user.lastDigestAt = some last)
    (hdaily : frequency user = .daily) (hle : earlier ≤ last) :
    (zone.dayAt earlier).dayNumber < (zone.dayAt now).dayNumber :=
  dayAt_lt_of_lt_startOfDay hstarts (lt_of_le_of_lt hle ((lt_startOfDay_of_due h hlast).1 hdaily))

/-- A weekly digest is due in a later week than the last one and any before it. -/
theorem week_lt_of_due (hstarts : StartsDays zone startOfDay)
    (h : isDigestDue zone startOfDay user now = true) (hlast : user.lastDigestAt = some last)
    (hweekly : frequency user = .weekly) (hle : earlier ≤ last) :
    (startOfIsoWeek (zone.dayAt earlier)).dayNumber <
      (startOfIsoWeek (zone.dayAt now)).dayNumber := by
  have hbefore := lt_of_le_of_lt hle ((lt_startOfDay_of_due h hlast).2 hweekly)
  have hday := dayAt_lt_of_lt_startOfDay hstarts hbefore
  have hmonday : (startOfIsoWeek (zone.dayAt earlier)).dayNumber ≤
      (zone.dayAt earlier).dayNumber := by
    unfold startOfIsoWeek dayOfWeek
    rw [Calendar.dayNumber_ofDayNumber]
    omega
  exact lt_of_le_of_lt hmonday hday

end

end Sinnlos.Cms.Digest

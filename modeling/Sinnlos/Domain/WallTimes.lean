import Sinnlos.Domain.PlainDate
import Sinnlos.Lib.Distinct

/-!
# Wall times

The instant at which a zone's clock shows a time of day. A zone is known by what
`Intl` makes of its name: the canonical spelling and the wall time of an instant.
-/

namespace Sinnlos.Domain

open Calendar Text Distinct

inductive WallTimeDisambiguation
  | compatible
  | reject
deriving DecidableEq, Repr

/-- Why a wall time has no single instant. -/
inductive WallTimeErrorKind
  | repeated
  | skipped
deriving DecidableEq, Repr

inductive WallTimeFailure
  | notCalendarDate (key : String)
  | notWallTime (time : String)
  | unknownTimeZone (timeZone : String)
  /-- `Intl` refuses the name as it stands, blanks included. -/
  | invalidTimeZone (timeZone : String)
  | wallTime (kind : WallTimeErrorKind) (date time timeZone : String)
deriving DecidableEq, Repr

def WallTimeFailure.message : WallTimeFailure → String
  | notCalendarDate key => "Not a calendar date (YYYY-MM-DD): " ++ key
  | notWallTime time => "Not a wall time (HH:mm or HH:mm:ss): " ++ time
  | unknownTimeZone timeZone => "Unknown time zone: " ++ timeZone
  | invalidTimeZone timeZone => "Invalid time zone specified: " ++ timeZone
  | wallTime .repeated date time timeZone =>
      "The wall time " ++ date ++ " " ++ time ++ " occurs twice in " ++ timeZone ++ " (clock change)"
  | wallTime .skipped date time timeZone =>
      "The wall time " ++ date ++ " " ++ time ++ " does not exist in " ++ timeZone ++
        " (clock change)"

/-- `WALL_TIME_RE` with the numbers of its groups. -/
def wallTimeMatch (time : String) : Option (Nat × Nat × Option Nat) :=
  match time.toList with
  | [h1, h2, ':', m1, m2] => do
      let hour ← readNat [h1, h2]
      let minute ← readNat [m1, m2]
      if hour < 24 ∧ minute < 60 then some (hour, minute, none) else none
  | [h1, h2, ':', m1, m2, ':', s1, s2] => do
      let hour ← readNat [h1, h2]
      let minute ← readNat [m1, m2]
      let second ← readNat [s1, s2]
      if hour < 24 ∧ minute < 60 ∧ second < 60 then some (hour, minute, some second) else none
  | _ => none

/-! ## Zones -/

/-- What `Intl` knows of a zone. -/
structure Formatter where
  timeZone : String
  zone : Zone

/-- `OFFSET_ZONE_RE`. -/
def isOffsetZone (timeZone : String) : Bool :=
  match timeZone.toList with
  | sign :: digit :: _ => (sign = '+' ∨ sign = '\u2212' ∨ sign = '-') ∧ digit.isDigit
  | _ => false

section

variable (intl : String → Option Formatter)

/-- `Intl`'s spelling of a zone's name, none for an unknown name or an offset. -/
def canonicalTimeZone (timeZone : String) : Option String :=
  let trimmed := trim timeZone
  if trimmed = "" ∨ isOffsetZone trimmed then none
  else (intl trimmed).map Formatter.timeZone

def isValidTimeZone (timeZone : String) : Bool := (canonicalTimeZone intl timeZone).isSome

/-- `Date.UTC` of a day and a time of day. -/
def utcMs (year monthIndex day hour minute second : Int) : Int :=
  (utcDay year monthIndex day - EPOCH_DAY) * DAY_MS + ((hour * 60 + minute) * 60 + second) * 1000

/-- The zone's UTC offset at an instant (whole seconds). -/
def offsetMsAt (epochMs : Int) (zone : Zone) : Int :=
  let wall := wallClockAt epochMs zone
  utcMs wall.year (wall.month - 1) wall.day wall.hour wall.minute wall.second -
    epochMs / 1000 * 1000

/-! ## Instants of wall times -/

/-- The instants, a day's offsets before and after, at which the clock really
shows the time. -/
def wallTimeCandidates (wallAsUtc : Int) (zone : Zone) : List Int :=
  (firsts id [] [wallAsUtc - offsetMsAt (wallAsUtc - DAY_MS) zone,
    wallAsUtc - offsetMsAt (wallAsUtc + DAY_MS) zone]).filter
      fun candidate => candidate + offsetMsAt candidate zone = wallAsUtc

/-- The instant among the candidates. -/
def chooseInstant (key time timeZone : String) (mode : WallTimeDisambiguation) (wallAsUtc : Int)
    (zone : Zone) : Except WallTimeFailure Int :=
  let candidates := wallTimeCandidates wallAsUtc zone
  if mode = .reject ∧ candidates.length ≠ 1 then
    .error (.wallTime (if 1 < candidates.length then .repeated else .skipped) key time timeZone)
  else
    match candidates.min? with
    | some first => .ok first
    | none => .ok (wallAsUtc - offsetMsAt (wallAsUtc - DAY_MS) zone)

/-- The instant at which the wall clock in a zone shows a time of day. -/
def zonedWallTimeToInstant (key time timeZone : String)
    (mode : WallTimeDisambiguation) : Except WallTimeFailure Int :=
  if isPlainDate key then
    match plainDateMatch key, wallTimeMatch time with
    | some (year, month, day), some (hour, minute, second) =>
        if isValidTimeZone intl timeZone then
          match intl timeZone with
          | some formatter =>
              chooseInstant key time timeZone mode
                (utcMs year (month - 1) day hour minute (second.getD 0)) formatter.zone
          | none => .error (.invalidTimeZone timeZone)
        else .error (.unknownTimeZone timeZone)
    | _, _ => .error (.notWallTime time)
  else .error (.notCalendarDate key)

end

end Sinnlos.Domain

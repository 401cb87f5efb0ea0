import Sinnlos.Lib.Calendar
import Sinnlos.Lib.Digits

/-!
# Calendar dates and instants

Keys `YYYY-MM-DD`, the instants of a text and the calendar day that an instant
falls on in a zone. What the engine does with a text of any other form
(`Date.parse`) is a parameter, and so is the zone's offset from UTC.
-/

namespace Sinnlos.Domain

open Calendar Text

inductive RangeError
  | notCalendarDate (key : String)
  | notInstant (instant : String)
deriving DecidableEq, Repr

def RangeError.message : RangeError → String
  | notCalendarDate key => "Not a calendar date (YYYY-MM-DD): " ++ key
  | notInstant instant => "Not an instant (ISO-8601 with a time and Z or an offset): " ++ instant

def DAY_MS : Int := 86400000

/-- 1 January 1970. -/
def EPOCH_DAY : Int := 719162

/-! ## The engine's dates -/

/-- The day of a year, a month index from 0 on and a day, each of which may lie
outside its usual range. -/
def makeDay (year monthIndex day : Int) : Int :=
  daysBeforeYear (year + monthIndex / 12) +
    daysBeforeMonth (year + monthIndex / 12) ((monthIndex % 12).toNat + 1) + day - 1

/-- `Date.UTC`: a year of two digits lies in the twentieth century. -/
def utcDay (year monthIndex day : Int) : Int :=
  makeDay (if 0 ≤ year ∧ year ≤ 99 then 1900 + year else year) monthIndex day

/-- Days that a `Date` can hold. -/
def isTimeValue (day : Int) : Bool := EPOCH_DAY - 100000000 ≤ day ∧ day ≤ EPOCH_DAY + 100000000

theorem makeDay_date (date : Date) :
    makeDay date.year (date.month - 1) date.day = date.dayNumber := by
  have hpos := date.month_pos
  have hle := date.month_le
  have hdiv : ((date.month : Int) - 1) / 12 = 0 := by omega
  have hmod : (((date.month : Int) - 1) % 12).toNat + 1 = date.month := by omega
  rw [makeDay, hdiv, hmod, add_zero, Date.dayNumber]

theorem utcDay_date {date : Date} (h : 100 ≤ date.year) :
    utcDay date.year (date.month - 1) date.day = date.dayNumber := by
  rw [utcDay, if_neg (by omega), makeDay_date]

/-! ## Keys -/

def pad (value : Int) (width : Nat) : String :=
  String.ofList (padStart width '0' (toString value).toList)

/-- The template `YYYY-MM-DD`. -/
def dateKey (year month day : Int) : String := pad year 4 ++ "-" ++ pad month 2 ++ "-" ++ pad day 2

/-- `PLAIN_DATE_RE` with the numbers of its groups. -/
def plainDateMatch (value : String) : Option (Nat × Nat × Nat) :=
  match value.toList with
  | [y1, y2, y3, y4, '-', m1, m2, '-', d1, d2] => do
      let year ← readNat [y1, y2, y3, y4]
      let month ← readNat [m1, m2]
      let day ← readNat [d1, d2]
      return (year, month, day)
  | _ => none

/-- True for `YYYY-MM-DD` naming a real calendar day. -/
def isPlainDate (value : String) : Bool :=
  match plainDateMatch value with
  | none => false
  | some (year, month, day) =>
      if month < 1 ∨ 12 < month ∨ day < 1 then false
      else
        let probe := ofDayNumber (utcDay year (month - 1) day)
        probe.year = year ∧ probe.month = month ∧ probe.day = day

/-- The numbers of a key; a key that is no calendar date is refused. -/
def plainDateParts (key : String) : Except RangeError (Nat × Nat × Nat) :=
  match plainDateMatch key with
  | none => .error (.notCalendarDate key)
  | some parts => if isPlainDate key then .ok parts else .error (.notCalendarDate key)

/-- Calendar-day arithmetic; days that no `Date` can hold are written with `NaN`. -/
def addDaysToKey (key : String) (days : Int) : Except RangeError String := do
  let (year, month, day) ← plainDateParts key
  let shifted := utcDay year (month - 1) day + days
  if isTimeValue shifted then
    let date := ofDayNumber shifted
    return dateKey date.year date.month date.day
  else return "0NaN-NaN-NaN"

/-- Calendar-month arithmetic, clamped to the target month's last day. -/
def addMonthsToKey (key : String) (months : Int) : Except RangeError String := do
  let (year, month, day) ← plainDateParts key
  let target := ofDayNumber (utcDay year (month - 1 + months) 1)
  let lastDay := (ofDayNumber (utcDay target.year target.month 0)).day
  return dateKey target.year target.month (min day lastDay : Nat)

def keyToUtcMs (key : String) : Except RangeError Int := do
  let (year, month, day) ← plainDateParts key
  return (utcDay year (month - 1) day - EPOCH_DAY) * DAY_MS

/-- Whole calendar days from one key to another, negative when that is earlier. -/
def daysBetweenKeys (first second : String) : Except RangeError Int := do
  let later ← keyToUtcMs second
  let sooner ← keyToUtcMs first
  return (later - sooner) / DAY_MS

/-- ISO weekday: 1 is Monday and 7 is Sunday. -/
def isoWeekdayOfKey (key : String) : Except RangeError Int := do
  let ms ← keyToUtcMs key
  let utcDayOfWeek := (ms / DAY_MS + 4) % 7
  return if utcDayOfWeek = 0 then 7 else utcDayOfWeek

/-! ## Instants -/

/-- The minutes of a numeric offset, if it has any. -/
def minutesAtEnd : List Char → Bool
  | [] => true
  | [m1, m2] => m1.isDigit ∧ m2.isDigit
  | [colon, m1, m2] => colon = ':' ∧ m1.isDigit ∧ m2.isDigit
  | _ => false

/-- `Z` or a numeric offset, and nothing after it. -/
def offsetAtEnd : List Char → Bool
  | [zulu] => zulu = 'Z' ∨ zulu = 'z'
  | sign :: h1 :: h2 :: minutes =>
      (sign = '+' ∨ sign = '-') ∧ h1.isDigit ∧ h2.isDigit ∧ minutesAtEnd minutes
  | _ => false

def fractionThenOffset : List Char → Bool
  | '.' :: digit :: rest => digit.isDigit ∧ offsetAtEnd (rest.dropWhile Char.isDigit)
  | rest => offsetAtEnd rest

def secondsThenOffset : List Char → Bool
  | ':' :: s1 :: s2 :: rest => s1.isDigit ∧ s2.isDigit ∧ fractionThenOffset rest
  | rest => offsetAtEnd rest

/-- `INSTANT_RE` from its first character on. -/
def timeAtEnd : List Char → Bool
  | t :: h1 :: h2 :: colon :: m1 :: m2 :: rest =>
      (t = 'T' ∨ t = 't') ∧ h1.isDigit ∧ h2.isDigit ∧ colon = ':' ∧ m1.isDigit ∧ m2.isDigit ∧
        secondsThenOffset rest
  | _ => false

/-- `INSTANT_RE`, which may begin anywhere. -/
def endsWithTime (text : List Char) : Bool := text.tails.any timeAtEnd

/-- The year in front of a text: a sign and six digits, or four digits. -/
def yearPrefix : List Char → Option (Int × List Char)
  | '+' :: y1 :: y2 :: y3 :: y4 :: y5 :: y6 :: rest => do
      return ((← readNat [y1, y2, y3, y4, y5, y6] : Nat), rest)
  | '-' :: y1 :: y2 :: y3 :: y4 :: y5 :: y6 :: rest => do
      return (-(← readNat [y1, y2, y3, y4, y5, y6] : Nat), rest)
  | y1 :: y2 :: y3 :: y4 :: rest => do return ((← readNat [y1, y2, y3, y4] : Nat), rest)
  | _ => none

def dayPrefix (text : List Char) : Option (Int × Nat × Nat) :=
  match yearPrefix text with
  | some (year, '-' :: m1 :: m2 :: '-' :: d1 :: d2 :: _) => do
      let month ← readNat [m1, m2]
      let day ← readNat [d1, d2]
      return (year, month, day)
  | _ => none

/-- False for a text that begins with a date that is no calendar day. -/
def startsWithRealDay (text : List Char) : Bool :=
  match dayPrefix text with
  | none => true
  | some (year, month, day) =>
      if month < 1 ∨ 12 < month ∨ day < 1 then false
      else
        let probe := ofDayNumber (makeDay year (month - 1) day)
        isTimeValue (makeDay year (month - 1) day) ∧
          probe.year = year ∧ probe.month = month ∧ probe.day = day

section

variable (dateParse : String → Option Int)

/-- Epoch ms of an instant, none for anything else. -/
def instantEpochMs (instant : String) : Option Int :=
  let trimmed := trim instant
  if !endsWithTime trimmed.toList || !startsWithRealDay trimmed.toList then none
  else dateParse trimmed

def toEpochMs (instant : String) : Except RangeError Int :=
  match instantEpochMs dateParse instant with
  | some ms => .ok ms
  | none => .error (.notInstant instant)

/-- A time zone: how far its wall clock is from UTC at an instant. -/
structure Zone where
  offsetMs : Int → Int
  within_day : ∀ ms, -DAY_MS < offsetMs ms ∧ offsetMs ms < DAY_MS

/-- The day that the wall clock shows. -/
def Zone.dayAt (zone : Zone) (epochMs : Int) : Date :=
  ofDayNumber (EPOCH_DAY + (epochMs + zone.offsetMs epochMs) / DAY_MS)

structure WallClock where
  year : Int
  month : Nat
  day : Nat
  hour : Int
  minute : Int
  second : Int
deriving DecidableEq

/-- The parts that `Intl` formats: a year before the year 1 is written as the
year of its own era. -/
def wallClockAt (epochMs : Int) (zone : Zone) : WallClock :=
  let date := zone.dayAt epochMs
  let clock := (epochMs + zone.offsetMs epochMs) % DAY_MS / 1000
  { year := if date.year ≤ 0 then 1 - date.year else date.year
    month := date.month
    day := date.day
    hour := clock / 3600
    minute := clock / 60 % 60
    second := clock % 60 }

/-- `zonedDateKey` of a valid `Date`. -/
def zonedDateKeyOfMs (epochMs : Int) (zone : Zone) : String :=
  let wall := wallClockAt epochMs zone
  dateKey wall.year wall.month wall.day

/-- The calendar day an instant falls on in the given zone. -/
def zonedDateKey (instant : String) (zone : Zone) : Except RangeError String := do
  let wall := wallClockAt (← toEpochMs dateParse instant) zone
  return dateKey wall.year wall.month wall.day

end

end Sinnlos.Domain

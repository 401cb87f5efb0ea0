import Sinnlos.Cms.RelationInput
import Sinnlos.Cms.TrainingPruning
import Sinnlos.Domain.DayWindows
import Sinnlos.Domain.PlainDateSteps

/-!
# Shifts of a duty plan

Shifts are stored as instants and moved as wall times. A move keeps the user and
the times of day; where the clock skips or repeats one on the new day, the
endpoint stays as typed. The check of the list refuses such an endpoint, and a
shift that a change of the clock made too long.
-/

namespace Sinnlos.Cms.Duty

open Domain Calendar Text
open Evidence (isoOfMs isoOfMs_epochMs)

/-- One shift: who and from when to when. -/
structure DutyShift where
  userId : Nat
  startsAt : String
  endsAt : String
deriving DecidableEq

def MAX_DUTY_SHIFTS : Nat := 400

def MAX_DUTY_SHIFT_DAYS : Int := 14

def DutyShift.toJson (shift : DutyShift) : Json :=
  .obj [("userId", .num shift.userId), ("startsAt", .str shift.startsAt),
    ("endsAt", .str shift.endsAt)]

/-! ## The check of a list -/

/-- A shift with the epoch ms of its start, by which the list is sorted. -/
structure CheckedShift extends DutyShift where
  start : Int

/-- `isRowId`, and the id. -/
def rowId? : Option Json → Option Nat
  | some (.num value) =>
      if value.den = 1 ∧ 0 ≤ value.num ∧ Write.isRowId value.num.toNat then some value.num.toNat
      else none
  | _ => none

inductive DutyFailure
  | range (error : RangeError)
  | wallTime (error : WallTimeFailure)
deriving DecidableEq

section

variable (dateParse : String → Option Int) (intl : String → Option Formatter)

def endpoint? (value : Option Json) : Option Int :=
  (value.bind Json.str?).bind (instantEpochMs dateParse)

def checkShift (i : Nat) (entry : Json) : Except String CheckedShift :=
  match rowId? (entry.get? "userId") with
  | none => .error s!"shifts[{i}]: a user id is required"
  | some userId =>
      match endpoint? dateParse (entry.get? "startsAt"), endpoint? dateParse (entry.get? "endsAt") with
      | some start, some stop =>
          if stop ≤ start ∨ MAX_DUTY_SHIFT_DAYS * Domain.DAY_MS < stop - start then
            .error (s!"shifts[{i}]: the end must be after the start, at most " ++
              s!"{MAX_DUTY_SHIFT_DAYS} days later")
          else .ok ⟨⟨userId, isoOfMs start, isoOfMs stop⟩, start⟩
      | _, _ =>
          .error s!"shifts[{i}]: startsAt and endsAt must be instants with Z or an offset"

def checkShifts : Nat → List Json → Except String (List CheckedShift)
  | _, [] => .ok []
  | i, entry :: rest => do
      let shift ← checkShift dateParse i entry
      let shifts ← checkShifts (i + 1) rest
      return shift :: shifts

def validateDutyShifts (raw : Json) : Except String (List DutyShift) :=
  let refused := s!"shifts: a JSON array of at most {MAX_DUTY_SHIFTS} shifts is required"
  match raw with
  | .null => .ok []
  | .arr items =>
      if MAX_DUTY_SHIFTS < items.length then .error refused
      else
        (checkShifts dateParse 0 items).map fun shifts =>
          (shifts.mergeSort fun a b =>
            a.start < b.start ∨ a.start = b.start ∧ a.userId ≤ b.userId).map
              CheckedShift.toDutyShift
  | _ => .error refused

/-! ## Moves -/

/-- `zonedTimeOfDay` of a valid `Date`. -/
def zonedTimeOfDay (epochMs : Int) (zone : Zone) : String :=
  let wall := wallClockAt epochMs zone
  pad wall.hour 2 ++ ":" ++ pad wall.minute 2

def zoneNamed (timeZone : String) : Except DutyFailure Zone :=
  match intl timeZone with
  | some formatter => .ok formatter.zone
  | none => .error (.wallTime (.invalidTimeZone timeZone))

/-- The closure `move`. -/
def moveEndpoint (days : Int) (timeZone instant : String) : Except DutyFailure String := do
  let ms ← (toEpochMs dateParse instant).mapError DutyFailure.range
  let zone ← zoneNamed intl timeZone
  let day ← (addDaysToKey (zonedDateKeyOfMs ms zone) days).mapError DutyFailure.range
  let time := zonedTimeOfDay ms zone
  match zonedWallTimeToInstant intl day time timeZone .reject with
  | .ok moved => return isoOfMs moved
  | .error (.wallTime _ _ _ _) => return day ++ "T" ++ time
  | .error error => throw (.wallTime error)

def moveDutyShift (shift : DutyShift) (days : Int) (timeZone : String) :
    Except DutyFailure DutyShift := do
  let startsAt ← moveEndpoint dateParse intl days timeZone shift.startsAt
  let endsAt ← moveEndpoint dateParse intl days timeZone shift.endsAt
  return ⟨shift.userId, startsAt, endsAt⟩

/-- Both endpoints are instants. -/
def DutyShift.isTimed (shift : DutyShift) : Bool :=
  (instantEpochMs dateParse shift.startsAt).isSome && (instantEpochMs dateParse shift.endsAt).isSome

def copyDutyWeek (shifts : List DutyShift) (weekStart timeZone : String) :
    Except DutyFailure (List DutyShift) := do
  let weekEnd ← (addDaysToKey weekStart 7).mapError DutyFailure.range
  let timed := shifts.filter (DutyShift.isTimed dateParse)
  if timed = [] then return []
  else
    let zone ← zoneNamed intl timeZone
    let starting := timed.filter fun shift =>
      (instantEpochMs dateParse shift.startsAt).any fun ms =>
        weekStart ≤ zonedDateKeyOfMs ms zone ∧ zonedDateKeyOfMs ms zone < weekEnd
    starting.mapM fun shift => moveDutyShift dateParse intl shift 7 timeZone

end

/-! ## What the check accepts -/

section

variable (dateParse : String → Option Int)

/-- The list as it is stored. -/
def dutyJson (shifts : List DutyShift) : Json := .arr (shifts.map DutyShift.toJson)

/-- A user id, and an end after the start and not too long after it. -/
structure DutyShift.Sound (shift : DutyShift) : Prop where
  userId : Write.isRowId shift.userId = true
  length : ∃ start stop, instantEpochMs dateParse shift.startsAt = some start ∧
    instantEpochMs dateParse shift.endsAt = some stop ∧ start < stop ∧
    stop - start ≤ MAX_DUTY_SHIFT_DAYS * Domain.DAY_MS

variable {dateParse} {i : Nat} {shifts : List DutyShift}

theorem checkShift_isOk_iff {shift : DutyShift} :
    (∃ checked, checkShift dateParse i shift.toJson = .ok checked) ↔ shift.Sound dateParse := by
  have hid : rowId? (shift.toJson.get? "userId") =
      if Write.isRowId shift.userId then some shift.userId else none := by
    simp [rowId?, Json.get?, Json.fields?, Json.field?, DutyShift.toJson]
  have hstart : endpoint? dateParse (shift.toJson.get? "startsAt") =
      instantEpochMs dateParse shift.startsAt := by
    simp [endpoint?, Json.get?, Json.fields?, Json.field?, DutyShift.toJson, Json.str?]
  have hstop : endpoint? dateParse (shift.toJson.get? "endsAt") =
      instantEpochMs dateParse shift.endsAt := by
    simp [endpoint?, Json.get?, Json.fields?, Json.field?, DutyShift.toJson, Json.str?]
  rw [checkShift, hid, hstart, hstop]
  constructor
  · rintro ⟨checked, h⟩
    split at h
    · cases h
    · next userId hsome =>
        split at h
        · next start stop hfirst hlast =>
            split at h
            · cases h
            · next hlength =>
                refine ⟨?_, start, stop, hfirst, hlast, by omega, by omega⟩
                by_contra hbad
                rw [if_neg hbad] at hsome
                cases hsome
        · cases h
  · rintro ⟨huser, start, stop, hfirst, hlast, hlt, hle⟩
    rw [if_pos huser, hfirst, hlast]
    dsimp only
    rw [if_neg (by omega)]
    exact ⟨_, rfl⟩

theorem checkShifts_isOk_iff :
    (∃ checked, checkShifts dateParse i (shifts.map DutyShift.toJson) = .ok checked) ↔
      ∀ shift ∈ shifts, shift.Sound dateParse := by
  induction shifts generalizing i with
  | nil => exact ⟨fun _ shift h => absurd h List.not_mem_nil, fun _ => ⟨[], rfl⟩⟩
  | cons shift rest ih =>
      rw [List.forall_mem_cons, ← checkShift_isOk_iff (i := i), ← ih (i := i + 1), List.map_cons,
        checkShifts]
      constructor
      · rintro ⟨checked, h⟩
        obtain ⟨first, hfirst, h⟩ := bind_eq_ok.mp h
        obtain ⟨others, hrest, _⟩ := bind_eq_ok.mp h
        exact ⟨⟨first, hfirst⟩, others, hrest⟩
      · rintro ⟨⟨first, hfirst⟩, others, hrest⟩
        rw [hfirst, hrest]
        exact ⟨_, rfl⟩

/-- A list is accepted for each of its shifts. -/
theorem validateDutyShifts_isOk_iff :
    (∃ result, validateDutyShifts dateParse (dutyJson shifts) = .ok result) ↔
      shifts.length ≤ MAX_DUTY_SHIFTS ∧ ∀ shift ∈ shifts, shift.Sound dateParse := by
  rw [← checkShifts_isOk_iff (i := 0), dutyJson, validateDutyShifts,
    List.length_map]
  by_cases hlong : MAX_DUTY_SHIFTS < shifts.length
  · rw [if_pos hlong]
    simp only [reduceCtorEq, exists_false, false_iff, not_and]
    omega
  · rw [if_neg hlong]
    cases checkShifts dateParse 0 (shifts.map DutyShift.toJson) with
    | error _ => simp [Except.map]
    | ok checked => simp [Except.map, Nat.not_lt.mp hlong]

end

/-! ## Moved wall times -/

theorem hour_lt_of_clock (x : Int) : (x % Domain.DAY_MS / 1000 / 3600).toNat < 24 := by
  unfold Domain.DAY_MS
  omega

theorem minute_lt_of_clock (x : Int) : (x % Domain.DAY_MS / 1000 / 60 % 60).toNat < 60 := by
  omega

/-- The wall time of an instant to the minute, some days later. -/
def movedWall (zone : Zone) (days ms : Int) (written : IsWritten ((zone.dayAt ms).addDays days)) :
    WallTime where
  date := (zone.dayAt ms).addDays days
  hour := (wallClockAt ms zone).hour.toNat
  minute := (wallClockAt ms zone).minute.toNat
  second := 0
  written := written
  hour_lt := hour_lt_of_clock _
  minute_lt := minute_lt_of_clock _
  second_lt := Nat.zero_lt_succ _

variable {zone : Zone} {days ms : Int}

theorem asUtc_movedWall (written : IsWritten ((zone.dayAt ms).addDays days)) :
    (movedWall zone days ms written).asUtc =
      (ms + zone.offsetMs ms) / 60000 * 60000 + days * Domain.DAY_MS := by
  have hday : ((zone.dayAt ms).addDays days).dayNumber =
      EPOCH_DAY + (ms + zone.offsetMs ms) / Domain.DAY_MS + days := by
    rw [Date.dayNumber_addDays, dayNumber_dayAt]
  simp only [WallTime.asUtc, movedWall, wallClockAt, hday]
  generalize ms + zone.offsetMs ms = shown
  unfold Domain.DAY_MS
  omega

theorem shortTime_movedWall (written : IsWritten ((zone.dayAt ms).addDays days)) :
    (movedWall zone days ms written).shortTime = zonedTimeOfDay ms zone := by
  have hhour : 0 ≤ (wallClockAt ms zone).hour := by
    simp only [wallClockAt, Domain.DAY_MS]
    omega
  have hminute : 0 ≤ (wallClockAt ms zone).minute := by
    simp only [wallClockAt]
    omega
  simp only [WallTime.shortTime, movedWall, zonedTimeOfDay, Int.toNat_of_nonneg hhour,
    Int.toNat_of_nonneg hminute]

/-- The day before the last one whose key has four digits for the year. -/
def LAST_DAY : Int := 3652057

/-- The instant's day has a key, and so has the day it is moved to; every instant
of that day has a year of four digits. -/
structure InRange (zone : Zone) (days ms : Int) : Prop where
  shown : IsWritten (zone.dayAt ms)
  late : FIRST_DAY ≤ (zone.dayAt ms).dayNumber + days
  early : (zone.dayAt ms).dayNumber + days ≤ LAST_DAY

theorem InRange.written (h : InRange zone days ms) : IsWritten ((zone.dayAt ms).addDays days) := by
  have hwithin := ((zone.dayAt ms).addDays days).dayNumber_within_year
  have hlate := h.late
  have hearly := h.early
  have hfirst : daysBeforeYear 100 = 36159 := by decide
  have hlast : daysBeforeYear 10000 = 3652059 := by decide
  rw [Date.dayNumber_addDays] at hwithin
  unfold FIRST_DAY at hlate
  unfold LAST_DAY at hearly
  constructor
  · by_contra hlt
    have hback := daysBeforeYear_le (a := ((zone.dayAt ms).addDays days).year + 1) (b := 100)
      (by omega)
    omega
  · by_contra hlt
    have hforward := daysBeforeYear_le (a := 10000) (b := ((zone.dayAt ms).addDays days).year)
      (by omega)
    omega

/-! ## Texts of moved endpoints -/

section

variable {dateParse : String → Option Int}

theorem instantEpochMs_isoOfMs (reads : ReadsCanonical dateParse)
    (h : 0 ≤ EPOCH_DAY + ms / Domain.DAY_MS ∧ EPOCH_DAY + ms / Domain.DAY_MS ≤ 3652058) :
    instantEpochMs dateParse (isoOfMs ms) = some ms := by
  obtain ⟨date, hdate⟩ : ∃ date, date = ofDayNumber (EPOCH_DAY + ms / Domain.DAY_MS) := ⟨_, rfl⟩
  have hnumber : date.dayNumber = EPOCH_DAY + ms / Domain.DAY_MS := by
    rw [hdate, dayNumber_ofDayNumber]
  have hwithin := date.dayNumber_within_year
  have hfirst : daysBeforeYear 0 = -366 := by decide
  have hlast : daysBeforeYear 10000 = 3652059 := by decide
  have hnonneg : 0 ≤ date.year := by
    by_contra hlt
    have hback := daysBeforeYear_le (a := date.year + 1) (b := 0) (by omega)
    omega
  have hle : date.year ≤ 9999 := by
    by_contra hlt
    have hforward := daysBeforeYear_le (a := 10000) (b := date.year) (by omega)
    omega
  unfold Domain.DAY_MS at hnumber
  obtain ⟨instant, hinstant⟩ : ∃ instant : Instant, instant.epochMs = ms := by
    refine ⟨{
      date, hour := (ms % 86400000 / 3600000).toNat, minute := (ms % 3600000 / 60000).toNat
      second := (ms % 60000 / 1000).toNat, milli := (ms % 1000).toNat
      year_nonneg := hnonneg, year_le := hle
      hour_le := by omega, minute_le := by omega, second_le := by omega, milli_le := by omega }, ?_⟩
    rw [Instant.epochMs, hnumber]
    unfold Domain.DAY_MS
    dsimp only
    omega
  rw [← hinstant, isoOfMs_epochMs, instantEpochMs_canonical reads]

/-- A typed endpoint is no instant. -/
theorem instantEpochMs_typed (wall : WallTime) :
    instantEpochMs dateParse (key wall.date ++ "T" ++ wall.shortTime) = none := by
  have hyear := wall.written.digits
  obtain ⟨y1, y2, y3, y4, hy⟩ := digits_four wall.date.year.toNat
  obtain ⟨m1, m2, hm⟩ := digits_two wall.date.month
  obtain ⟨d1, d2, hd⟩ := digits_two wall.date.day
  obtain ⟨h1, h2, hh⟩ := digits_two wall.hour
  obtain ⟨n1, n2, hn⟩ := digits_two wall.minute
  have hdigit {c : Char} {width n : Nat} {text : List Char} (h : digits width n = text)
      (hc : c ∈ text) : c.isDigit = true := by
    rw [← h] at hc
    exact isDigit_of_mem_digits hc
  have htext : (key wall.date ++ "T" ++ wall.shortTime).toList =
      y1 :: ([y2, y3, y4, '-', m1, m2, '-', d1, d2, 'T', h1, h2, ':', n1] ++ [n2]) := by
    have hhour := wall.hour_lt
    have hminute := wall.minute_lt
    simp only [WallTime.shortTime, String.toList_append, toList_key hyear.1 hyear.2,
      toList_pad_two (n := wall.hour) (by omega), toList_pad_two (n := wall.minute) (by omega),
      hy, hm, hd, hh, hn]
    rfl
  have htrim := trimChars_eq_self [y2, y3, y4, '-', m1, m2, '-', d1, d2, 'T', h1, h2, ':', n1]
    (not_isTrimmed_of_isDigit (hdigit hy (c := y1) (by simp)))
    (not_isTrimmed_of_isDigit (hdigit hn (c := n2) (by simp)))
  have hend : endsWithTime (trim (key wall.date ++ "T" ++ wall.shortTime)).toList = false := by
    rw [trim, htext, htrim, String.toList_ofList]
    simp [endsWithTime, timeAtEnd, secondsThenOffset, fractionThenOffset, offsetAtEnd]
  rw [instantEpochMs, hend]
  rfl

end

/-! ## Endpoints -/

section

variable (dateParse : String → Option Int) (zone : Zone) (days : Int)

/-- The clock shows the instant's time of day on the new day at this instant only. -/
def Becomes (instant : String) (moved : Int) : Prop :=
  ∃ ms written, instantEpochMs dateParse instant = some ms ∧
    zone.instantsOf (movedWall zone days ms written) = {moved}

/-- What a move makes of an endpoint: the only instant, or the wall time as typed. -/
structure MovedEndpoint (instant text : String) : Prop where
  resolved : ∀ moved, instantEpochMs dateParse text = some moved ↔ Becomes dateParse zone days instant moved
  canonical : ∀ moved, Becomes dateParse zone days instant moved → text = isoOfMs moved
  typed : (¬∃ moved, Becomes dateParse zone days instant moved) →
    ∃ ms written, instantEpochMs dateParse instant = some ms ∧
      text = key (movedWall zone days ms written).date ++ "T" ++
        (movedWall zone days ms written).shortTime

/-- The same shift some days later. -/
structure IsMoved (shift moved : DutyShift) : Prop where
  userId : moved.userId = shift.userId
  startsAt : MovedEndpoint dateParse zone days shift.startsAt moved.startsAt
  endsAt : MovedEndpoint dateParse zone days shift.endsAt moved.endsAt

/-- After the move both wall times occur once, in order and not too far apart. -/
def StaysValid (shift : DutyShift) : Prop :=
  ∃ start stop, Becomes dateParse zone days shift.startsAt start ∧
    Becomes dateParse zone days shift.endsAt stop ∧ start < stop ∧
    stop - start ≤ MAX_DUTY_SHIFT_DAYS * Domain.DAY_MS

variable {dateParse zone days} {shift : DutyShift} {instant : String}

theorem IsMoved.sound_iff {moved : DutyShift} (h : IsMoved dateParse zone days shift moved)
    (sound : shift.Sound dateParse) :
    moved.Sound dateParse ↔ StaysValid dateParse zone days shift := by
  constructor
  · rintro ⟨-, start, stop, hstart, hstop, hlength⟩
    exact ⟨start, stop, (h.startsAt.resolved start).mp hstart, (h.endsAt.resolved stop).mp hstop,
      hlength⟩
  · rintro ⟨start, stop, hstart, hstop, hlength⟩
    refine ⟨?_, start, stop, (h.startsAt.resolved start).mpr hstart,
      (h.endsAt.resolved stop).mpr hstop, hlength⟩
    rw [h.userId]
    exact sound.userId

/-- The instant to which an endpoint on a whole minute is moved. -/
theorem Becomes.shown {moved : Int} (h : Becomes dateParse zone days instant moved)
    (hms : instantEpochMs dateParse instant = some ms)
    (whole : (ms + zone.offsetMs ms) % 60000 = 0) :
    moved + zone.offsetMs moved = ms + zone.offsetMs ms + days * Domain.DAY_MS := by
  obtain ⟨ms', written, hms', hsingle⟩ := h
  obtain rfl := Option.some.inj (hms'.symm.trans hms)
  have hmem : moved ∈ zone.instantsOf (movedWall zone days ms' written) := by
    rw [hsingle]
    exact Set.mem_singleton moved
  have hshown : moved + zone.offsetMs moved = (movedWall zone days ms' written).asUtc := hmem
  rw [hshown, asUtc_movedWall]
  omega

/-- Both endpoints show a whole minute. -/
def WholeMinutes (dateParse : String → Option Int) (zone : Zone) (shift : DutyShift) : Prop :=
  ∀ instant ms, instant = shift.startsAt ∨ instant = shift.endsAt →
    instantEpochMs dateParse instant = some ms → (ms + zone.offsetMs ms) % 60000 = 0

/-- A shift on whole minutes grows by what the clock goes back between its new
endpoints and did not go back between the old ones. -/
theorem WholeMinutes.length (whole : WholeMinutes dateParse zone shift)
    {first last start stop : Int} (hfirst : instantEpochMs dateParse shift.startsAt = some first)
    (hlast : instantEpochMs dateParse shift.endsAt = some last)
    (hstart : Becomes dateParse zone days shift.startsAt start)
    (hstop : Becomes dateParse zone days shift.endsAt stop) :
    stop - start = last - first - ((zone.offsetMs stop - zone.offsetMs start) -
      (zone.offsetMs last - zone.offsetMs first)) := by
  have hshown := hstart.shown hfirst (whole _ _ (Or.inl rfl) hfirst)
  have hshownLast := hstop.shown hlast (whole _ _ (Or.inr rfl) hlast)
  omega

variable {intl : String → Option Formatter} {timeZone : String} {formatter : Formatter}

theorem moveEndpoint_moves (reads : ReadsCanonical dateParse)
    (valid : isValidTimeZone intl timeZone = true) (known : intl timeZone = some formatter)
    (regular : formatter.zone.Regular) (hms : instantEpochMs dateParse instant = some ms)
    (range : InRange formatter.zone days ms) :
    ∃ text, moveEndpoint dateParse intl days timeZone instant = .ok text ∧
      MovedEndpoint dateParse formatter.zone days instant text := by
  have hwritten := range.written
  obtain ⟨wall, hwall⟩ : ∃ wall, wall = movedWall formatter.zone days ms hwritten := ⟨_, rfl⟩
  have hbecomes (moved : Int) : Becomes dateParse formatter.zone days instant moved ↔
      formatter.zone.instantsOf wall = {moved} := by
    rw [hwall]
    constructor
    · rintro ⟨ms', written, hms', hsingle⟩
      obtain rfl := Option.some.inj (hms'.symm.trans hms)
      exact hsingle
    · intro hsingle
      exact ⟨ms, hwritten, hms, hsingle⟩
  have hday : wall.date.dayNumber = (formatter.zone.dayAt ms).dayNumber + days := by
    rw [hwall]
    exact Date.dayNumber_addDays _ _
  have hlate : FIRST_DAY ≤ wall.date.dayNumber := by
    rw [hday]
    exact range.late
  have hkey : addDaysToKey (zonedDateKeyOfMs ms formatter.zone) days = .ok (key wall.date) := by
    rw [zonedDateKeyOfMs_eq (by have := range.shown.1; omega), hwall]
    exact addDaysToKey_key range.shown hwritten
  have htime : zonedTimeOfDay ms formatter.zone = wall.shortTime := by
    rw [hwall, shortTime_movedWall]
  have hisTime : wall.IsTime wall.shortTime := by
    refine Or.inr ⟨rfl, ?_⟩
    rw [hwall]
    rfl
  have hresolves := wallTimes_resolve valid known regular wall hlate wall.shortTime hisTime
  have hmove : moveEndpoint dateParse intl days timeZone instant =
      match zonedWallTimeToInstant intl (key wall.date) wall.shortTime timeZone .reject with
      | .ok moved => .ok (isoOfMs moved)
      | .error (.wallTime _ _ _ _) => .ok (key wall.date ++ "T" ++ wall.shortTime)
      | .error error => .error (.wallTime error) := by
    rw [moveEndpoint, toEpochMs, hms, zoneNamed, known]
    simp only [Except.mapError, bind, Except.bind, hkey, htime]
    cases zonedWallTimeToInstant intl (key wall.date) wall.shortTime timeZone .reject with
    | ok moved => rfl
    | error error => cases error <;> rfl
  -- a wall time that does not occur once stays as it was typed
  have htyped (h : ¬∃ moved, formatter.zone.instantsOf wall = {moved}) :
      MovedEndpoint dateParse formatter.zone days instant
        (key wall.date ++ "T" ++ wall.shortTime) := by
    refine ⟨?_, ?_, ?_⟩
    · intro moved
      rw [instantEpochMs_typed, hbecomes]
      exact ⟨fun hnone => (by cases hnone), fun hsingle => absurd ⟨moved, hsingle⟩ h⟩
    · intro moved hmoved
      exact absurd ⟨moved, (hbecomes moved).mp hmoved⟩ h
    · intro _
      exact ⟨ms, hwritten, hms, by rw [hwall]⟩
  rcases Set.eq_empty_or_nonempty (formatter.zone.instantsOf wall) with hempty | hsome
  · refine ⟨_, ?_, htyped ?_⟩
    · rw [hmove, hresolves.skipped hempty]
    · rintro ⟨moved, hsingle⟩
      exact Set.singleton_ne_empty moved (hsingle.symm.trans hempty)
  · rcases hsome.exists_eq_singleton_or_nontrivial with ⟨moved, hsingle⟩ | hmany
    · refine ⟨isoOfMs moved, ?_, ?_⟩
      · rw [hmove, hresolves.single moved hsingle]
      · have hread : instantEpochMs dateParse (isoOfMs moved) = some moved := by
          apply instantEpochMs_isoOfMs reads
          have hshown : moved + formatter.zone.offsetMs moved = wall.asUtc := by
            have hmem : moved ∈ formatter.zone.instantsOf wall := by
              rw [hsingle]
              exact Set.mem_singleton moved
            exact hmem
          have hoffset := formatter.zone.within_day moved
          have hearly := range.early
          have hclock : wall.asUtc / Domain.DAY_MS = wall.date.dayNumber - EPOCH_DAY := by
            have hhour := wall.hour_lt
            have hminute := wall.minute_lt
            have hsecond := wall.second_lt
            unfold WallTime.asUtc Domain.DAY_MS
            omega
          unfold FIRST_DAY LAST_DAY EPOCH_DAY Domain.DAY_MS at *
          omega
        have honly (other : Int) (h : Becomes dateParse formatter.zone days instant other) :
            other = moved :=
          (Set.singleton_eq_singleton_iff.mp (hsingle.symm.trans ((hbecomes other).mp h))).symm
        refine ⟨?_, ?_, ?_⟩
        · intro other
          rw [hread]
          constructor
          · rintro ⟨⟩
            exact (hbecomes moved).mpr hsingle
          · intro h
            rw [honly other h]
        · intro other h
          rw [honly other h]
        · intro hnone
          exact absurd ⟨moved, (hbecomes moved).mpr hsingle⟩ hnone
    · refine ⟨_, ?_, htyped ?_⟩
      · rw [hmove, hresolves.repeated hmany]
      · rintro ⟨moved, hsingle⟩
        rw [hsingle] at hmany
        exact Set.not_nontrivial_singleton hmany

end

/-! ## Lists of shifts -/

theorem mapM_ok {α β ε : Type} {f : α → Except ε β} {r : α → β → Prop} {items : List α}
    (h : ∀ a ∈ items, ∃ b, f a = .ok b ∧ r a b) :
    ∃ results, items.mapM f = .ok results ∧ List.Forall₂ r items results := by
  induction items with
  | nil => exact ⟨[], rfl, .nil⟩
  | cons a rest ih =>
      obtain ⟨b, hb, hr⟩ := h a List.mem_cons_self
      obtain ⟨results, hrest, hall⟩ := ih fun other hmem => h other (List.mem_cons_of_mem a hmem)
      refine ⟨b :: results, ?_, .cons hr hall⟩
      rw [List.mapM_cons, hb, hrest]
      rfl

section

variable (dateParse : String → Option Int) (zone : Zone) (days : Int)

def DutyShift.InRange (shift : DutyShift) : Prop :=
  ∀ instant ms, instant = shift.startsAt ∨ instant = shift.endsAt →
    instantEpochMs dateParse instant = some ms → Duty.InRange zone days ms

/-- The result is these shifts some days later, and it is accepted when each stays valid. -/
def MovesTo (shifts : List DutyShift) (result : Except DutyFailure (List DutyShift)) : Prop :=
  ∃ moved, result = .ok moved ∧ List.Forall₂ (IsMoved dateParse zone days) shifts moved ∧
    ((∃ stored, validateDutyShifts dateParse (dutyJson moved) = .ok stored) ↔
      ∀ shift ∈ shifts, StaysValid dateParse zone days shift)

/-- The shift starts on one of the seven days from this one on. -/
def DutyShift.startsIn (weekStart : Date) (shift : DutyShift) : Bool :=
  (instantEpochMs dateParse shift.startsAt).any fun ms =>
    weekStart.dayNumber ≤ (zone.dayAt ms).dayNumber ∧
      (zone.dayAt ms).dayNumber < weekStart.dayNumber + 7

variable {dateParse zone days} {shifts : List DutyShift}

theorem sound_iff_of_moved {moved : List DutyShift}
    (h : List.Forall₂ (IsMoved dateParse zone days) shifts moved)
    (sound : ∀ shift ∈ shifts, shift.Sound dateParse) :
    (∀ shift ∈ moved, shift.Sound dateParse) ↔
      ∀ shift ∈ shifts, StaysValid dateParse zone days shift := by
  induction h with
  | nil => simp
  | cons hmoved hrest ih =>
      rw [List.forall_mem_cons] at sound
      rw [List.forall_mem_cons, List.forall_mem_cons, hmoved.sound_iff sound.1, ih sound.2]

variable {intl : String → Option Formatter} {timeZone : String} {formatter : Formatter}

theorem mapM_moveDutyShift (reads : ReadsCanonical dateParse)
    (valid : isValidTimeZone intl timeZone = true) (known : intl timeZone = some formatter)
    (regular : formatter.zone.Regular) (few : shifts.length ≤ MAX_DUTY_SHIFTS)
    (sound : ∀ shift ∈ shifts, shift.Sound dateParse)
    (range : ∀ shift ∈ shifts, shift.InRange dateParse formatter.zone days) :
    MovesTo dateParse formatter.zone days shifts
      (shifts.mapM fun shift => moveDutyShift dateParse intl shift days timeZone) := by
  have heach : ∀ shift ∈ shifts, ∃ moved, moveDutyShift dateParse intl shift days timeZone = .ok moved ∧
      IsMoved dateParse formatter.zone days shift moved := by
    intro shift hmem
    obtain ⟨-, start, stop, hstart, hstop, -⟩ := sound shift hmem
    obtain ⟨startsAt, hfirst, hmovedFirst⟩ := moveEndpoint_moves reads valid known regular hstart
      (range shift hmem _ _ (Or.inl rfl) hstart)
    obtain ⟨endsAt, hlast, hmovedLast⟩ := moveEndpoint_moves reads valid known regular hstop
      (range shift hmem _ _ (Or.inr rfl) hstop)
    refine ⟨⟨shift.userId, startsAt, endsAt⟩, ?_, rfl, hmovedFirst, hmovedLast⟩
    rw [moveDutyShift, hfirst, hlast]
    rfl
  obtain ⟨moved, hmoved, hall⟩ := mapM_ok heach
  refine ⟨moved, hmoved, hall, ?_⟩
  rw [validateDutyShifts_isOk_iff, sound_iff_of_moved hall sound, ← hall.length_eq]
  exact and_iff_right few

/-- A copied week is its shifts, moved by seven days. -/
theorem copyDutyWeek_eq (known : intl timeZone = some formatter) {weekStart : Date}
    (hstart : IsWritten weekStart) (hend : IsWritten (weekStart.addDays 7))
    (sound : ∀ shift ∈ shifts, shift.Sound dateParse)
    (range : ∀ shift ∈ shifts, shift.InRange dateParse formatter.zone 7) :
    copyDutyWeek dateParse intl shifts (key weekStart) timeZone =
      (shifts.filter (DutyShift.startsIn dateParse formatter.zone weekStart)).mapM
        fun shift => moveDutyShift dateParse intl shift 7 timeZone := by
  have htimed : shifts.filter (DutyShift.isTimed dateParse) = shifts := by
    rw [List.filter_eq_self]
    intro shift hmem
    obtain ⟨-, start, stop, hfirst, hlast, -⟩ := sound shift hmem
    rw [DutyShift.isTimed, hfirst, hlast]
    rfl
  have hfilter : (shifts.filter fun shift : DutyShift =>
      (instantEpochMs dateParse shift.startsAt).any fun ms =>
        key weekStart ≤ zonedDateKeyOfMs ms formatter.zone ∧
          zonedDateKeyOfMs ms formatter.zone < key (weekStart.addDays 7)) =
      shifts.filter (DutyShift.startsIn dateParse formatter.zone weekStart) := by
    apply List.filter_congr
    intro shift hmem
    obtain ⟨-, start, stop, hfirst, -⟩ := sound shift hmem
    have hshown := (range shift hmem _ _ (Or.inl rfl) hfirst).shown
    rw [DutyShift.startsIn, hfirst]
    simp only [Option.any_some]
    rw [zonedDateKeyOfMs_eq (by have := hshown.1; omega), decide_eq_decide,
      key_le_iff_dayNumber hstart hshown, key_lt_iff_dayNumber hshown hend, Date.dayNumber_addDays]
  rw [copyDutyWeek, addDaysToKey_key hstart hend, htimed, zoneNamed, known]
  simp only [Except.mapError, bind, Except.bind, hfilter]
  split
  · next hnil =>
      rw [hnil]
      rfl
  · rfl

/-- Moves and copies of an accepted list keep users and times of day, and are accepted
again when each wall time occurs once on its new day and no shift gets too long. -/
theorem duty_shifts_move (reads : ReadsCanonical dateParse)
    (valid : isValidTimeZone intl timeZone = true) (known : intl timeZone = some formatter)
    (regular : formatter.zone.Regular) {stored : List DutyShift}
    (accepted : validateDutyShifts dateParse (dutyJson shifts) = .ok stored) :
    (∀ days, (∀ shift ∈ shifts, shift.InRange dateParse formatter.zone days) →
      MovesTo dateParse formatter.zone days shifts
        (shifts.mapM fun shift => moveDutyShift dateParse intl shift days timeZone)) ∧
    (∀ weekStart, IsWritten weekStart → IsWritten (weekStart.addDays 7) →
      (∀ shift ∈ shifts, shift.InRange dateParse formatter.zone 7) →
      MovesTo dateParse formatter.zone 7
        (shifts.filter (DutyShift.startsIn dateParse formatter.zone weekStart))
        (copyDutyWeek dateParse intl shifts (key weekStart) timeZone)) ∧
    ∀ days, ∀ shift ∈ shifts, WholeMinutes dateParse formatter.zone shift →
      ∀ first last start stop, instantEpochMs dateParse shift.startsAt = some first →
        instantEpochMs dateParse shift.endsAt = some last →
        Becomes dateParse formatter.zone days shift.startsAt start →
        Becomes dateParse formatter.zone days shift.endsAt stop →
        stop - start = last - first -
          ((formatter.zone.offsetMs stop - formatter.zone.offsetMs start) -
            (formatter.zone.offsetMs last - formatter.zone.offsetMs first)) := by
  obtain ⟨few, sound⟩ := validateDutyShifts_isOk_iff.mp ⟨stored, accepted⟩
  refine ⟨?_, ?_, ?_⟩
  · intro days range
    exact mapM_moveDutyShift reads valid known regular few sound range
  · intro weekStart hstart hend range
    rw [copyDutyWeek_eq known hstart hend sound range]
    apply mapM_moveDutyShift reads valid known regular
    · exact (List.length_filter_le _ _).trans few
    · intro shift hmem
      exact sound shift (List.mem_of_mem_filter hmem)
    · intro shift hmem
      exact range shift (List.mem_of_mem_filter hmem)
  · intro days shift _ whole first last start stop hfirst hlast hstart hstop
    exact whole.length hfirst hlast hstart hstop

end

/-! ## Berlin in the autumn of 2026 -/

theorem summerOffset : -Domain.DAY_MS < 7200000 ∧ 7200000 < Domain.DAY_MS := by decide

theorem winterOffset : -Domain.DAY_MS < 3600000 ∧ 3600000 < Domain.DAY_MS := by decide

def berlinAutumn : Zone := switching 1792890000000 7200000 3600000 summerOffset winterOffset

theorem berlinAutumn_regular : berlinAutumn.Regular where
  whole_seconds ms := by
    unfold berlinAutumn switching
    dsimp only
    split <;> decide
  apart := switching_apart

/-- Monday 12 October, from six to two. -/
def earlyShift : DutyShift := ⟨1, "2026-10-12T04:00:00.000Z", "2026-10-12T12:00:00.000Z"⟩

def monday : Date := (wallTime? 2026 10 12 0 0 0).get rfl |>.date

theorem earlyShift_readings :
    isValidTimeZone (intlOf berlinAutumn) "Europe/Berlin" = true ∧
      validateDutyShifts parseCanonical (dutyJson [earlyShift]) = .ok [earlyShift] ∧
      instantEpochMs parseCanonical earlyShift.startsAt = some 1791777600000 ∧
      instantEpochMs parseCanonical earlyShift.endsAt = some 1791806400000 ∧
      (berlinAutumn.dayAt 1791777600000).dayNumber = monday.dayNumber ∧
      (berlinAutumn.dayAt 1791806400000).dayNumber = monday.dayNumber ∧
      monday.year = 2026 ∧ (monday.addDays 7).year = 2026 ∧ monday.dayNumber = 739900 := by
  decide +kernel

theorem duty_shifts_move_early :
    MovesTo parseCanonical berlinAutumn 7
      ([earlyShift].filter (DutyShift.startsIn parseCanonical berlinAutumn monday))
      (copyDutyWeek parseCanonical (intlOf berlinAutumn) [earlyShift] (key monday)
        "Europe/Berlin") := by
  obtain ⟨valid, accepted, hfirst, hlast, hstart, hstop, hyear, hlater, hday⟩ := earlyShift_readings
  have hmonday : IsWritten monday ∧ IsWritten (monday.addDays 7) := by
    unfold IsWritten
    omega
  have range : ∀ shift ∈ [earlyShift], shift.InRange parseCanonical berlinAutumn 7 := by
    intro shift hmem instant ms hinstant hms
    obtain rfl := List.mem_singleton.mp hmem
    have hshown : (berlinAutumn.dayAt ms).dayNumber = monday.dayNumber := by
      rcases hinstant with rfl | rfl
      · obtain rfl := Option.some.inj (hms.symm.trans hfirst)
        exact hstart
      · obtain rfl := Option.some.inj (hms.symm.trans hlast)
        exact hstop
    refine ⟨?_, ?_, ?_⟩
    · rw [Date.dayNumber_injective hshown]
      exact hmonday.1
    · rw [hshown, hday]
      decide
    · rw [hshown, hday]
      decide
  exact (duty_shifts_move readsCanonical_parseCanonical valid rfl berlinAutumn_regular accepted).2.1
    monday hmonday.1 hmonday.2 range

/-- Two weeks from Monday to Monday. -/
def fortnight : DutyShift := ⟨1, "2026-10-04T22:00:00.000Z", "2026-10-18T22:00:00.000Z"⟩

/-- The same two weeks later, an hour longer. -/
def nextFortnight : DutyShift := ⟨1, "2026-10-11T22:00:00.000Z", "2026-10-25T23:00:00.000Z"⟩

/-- The end of summer time makes the longest shift too long. -/
theorem duty_shift_outgrows_limit :
    berlinAutumn.Regular ∧
      validateDutyShifts parseCanonical (dutyJson [fortnight]) = .ok [fortnight] ∧
      moveDutyShift parseCanonical (intlOf berlinAutumn) fortnight 7 "Europe/Berlin" =
        .ok nextFortnight ∧
      copyDutyWeek parseCanonical (intlOf berlinAutumn) [fortnight] "2026-10-05" "Europe/Berlin" =
        .ok [nextFortnight] ∧
      validateDutyShifts parseCanonical (dutyJson [nextFortnight]) =
        .error "shifts[0]: the end must be after the start, at most 14 days later" :=
  ⟨berlinAutumn_regular, by decide +kernel⟩

end Sinnlos.Cms.Duty

import Sinnlos.Domain.WallTimeResolution

/-!
# Windows of days

The half-open windows between the starts of calendar days. A window holds exactly
the instants that fall on its days, unless a change of the clock jumps over the
midnight at one of its ends.
-/

namespace Sinnlos.Domain

open Calendar ShiftedClock

/-- The first instant of a calendar day, as midnight resolves. -/
def zonedDayStart (intl : String → Option Formatter) (key timeZone : String) :
    Except WallTimeFailure Int :=
  zonedWallTimeToInstant intl key "00:00" timeZone .compatible

/-- The midnight that begins a day. -/
def midnight (date : Date) (written : IsWritten date) : WallTime where
  date := date
  hour := 0
  minute := 0
  second := 0
  written := written
  hour_lt := by decide
  minute_lt := by decide
  second_lt := by decide

/-- The instants of the common era that fall on the days from one to before another.
A year before it is written without its era, like the year of that number. -/
def Zone.instantsOn (zone : Zone) (first until' : Date) : Set Int :=
  {ms | 0 < (zone.dayAt ms).year ∧ ∃ date : Date, first.dayNumber ≤ date.dayNumber ∧
    date.dayNumber < until'.dayNumber ∧ zonedDateKeyOfMs ms zone = key date}

/-- A window begins with the first instant of its days and holds exactly theirs. -/
def IsWindow (intl : String → Option Formatter) (timeZone : String) (zone : Zone)
    (first until' : Date) : Prop :=
  ∃ start stop, zonedDayStart intl (key first) timeZone = .ok start ∧
    zonedDayStart intl (key until') timeZone = .ok stop ∧
    IsLeast (zone.instantsOn first until') start ∧
    zone.instantsOn first until' = Set.Ico start stop

/-- A change of the clock from before the midnight that begins a day to after it. -/
def Zone.JumpsMidnight (zone : Zone) (date : Date) : Prop :=
  ∃ change, Jumps zone.offsetMs change ((date.dayNumber - EPOCH_DAY) * DAY_MS)

/-! ## Days and readings of the clock -/

variable {date first : Date} {zone : Zone}

theorem asUtc_midnight (written : IsWritten date) :
    (midnight date written).asUtc = (date.dayNumber - EPOCH_DAY) * DAY_MS := by
  simp [WallTime.asUtc, midnight]

theorem midnight_isTime (written : IsWritten date) : (midnight date written).IsTime "00:00" := by
  right
  constructor
  · have hzero : pad 0 2 = "00" := by decide +kernel
    simp [WallTime.shortTime, midnight, hzero]
  · rfl

/-- The key of an instant of the common era is the key of its day. -/
theorem zonedDateKeyOfMs_eq {ms : Int} (h : 0 < (zone.dayAt ms).year) :
    zonedDateKeyOfMs ms zone = key (zone.dayAt ms) := by
  have hera : ¬ (zone.dayAt ms).year ≤ 0 := by omega
  simp [zonedDateKeyOfMs, wallClockAt, hera, key]

/-- A day of the common era with the key of a written day is that day. -/
theorem eq_of_key_eq {other : Date} (hera : 0 < date.year) (written : IsWritten other)
    (h : key date = key other) : date = other := by
  have hplain := isPlainDate_key written
  rw [← h] at hplain
  have hlate : date.year ≤ 9999 := by
    by_contra hgt
    rw [key, isPlainDate_late date.month date.day (by omega)] at hplain
    cases hplain
  have hcentury : 100 ≤ date.year := by
    by_contra hlt
    have hcast : (date.year.toNat : Int) = date.year := Int.toNat_of_nonneg (by omega)
    rw [key, ← hcast, isPlainDate_early (by omega) (month_lt date) (day_lt date)] at hplain
    cases hplain
  exact key_injective ⟨hcentury, hlate⟩ written h

variable {until' middle last : Date}

/-- A day between two written ones is written. -/
theorem IsWritten.between (hfirst : IsWritten first) (huntil : IsWritten until')
    (hle : first.dayNumber ≤ date.dayNumber) (hlt : date.dayNumber < until'.dayNumber) :
    IsWritten date := by
  have hlow := Date.year_le_of_dayNumber_le hle
  have hhigh := Date.year_le_of_dayNumber_le (a := date) (b := until') (by omega)
  unfold IsWritten at *
  omega

theorem dayNumber_dayAt (zone : Zone) (ms : Int) :
    (zone.dayAt ms).dayNumber = EPOCH_DAY + (ms + zone.offsetMs ms) / DAY_MS := by
  rw [Zone.dayAt, dayNumber_ofDayNumber]

/-- The instants of days are those at which the clock shows a time between the
midnights. -/
theorem instantsOn_eq (zone : Zone) (hfirst : IsWritten first) (huntil : IsWritten until') :
    zone.instantsOn first until' =
      shownWithin zone.offsetMs ((first.dayNumber - EPOCH_DAY) * DAY_MS)
        ((until'.dayNumber - EPOCH_DAY) * DAY_MS) := by
  ext ms
  have hday := dayNumber_dayAt zone ms
  have hbetween : (first.dayNumber ≤ (zone.dayAt ms).dayNumber ∧
      (zone.dayAt ms).dayNumber < until'.dayNumber) ↔
      ms ∈ shownWithin zone.offsetMs ((first.dayNumber - EPOCH_DAY) * DAY_MS)
        ((until'.dayNumber - EPOCH_DAY) * DAY_MS) := by
    show _ ↔ (_ ≤ ms + zone.offsetMs ms ∧ ms + zone.offsetMs ms < _)
    unfold DAY_MS at *
    omega
  rw [← hbetween]
  constructor
  · intro h
    obtain ⟨hera, date, hle, hlt, hkey⟩ := h
    rw [zonedDateKeyOfMs_eq hera] at hkey
    rw [eq_of_key_eq hera (hfirst.between huntil hle hlt) hkey]
    exact ⟨hle, hlt⟩
  · intro h
    have hwritten := hfirst.between huntil h.1 h.2
    have hera : 0 < (zone.dayAt ms).year := by
      have := hwritten.1
      omega
    exact ⟨hera, zone.dayAt ms, h.1, h.2, zonedDateKeyOfMs_eq hera⟩

/-- The instants of consecutive ranges of days are those of the whole range. -/
theorem Zone.instantsOn_union (zone : Zone) (hfirst : first.dayNumber ≤ middle.dayNumber)
    (hlast : middle.dayNumber ≤ last.dayNumber) :
    zone.instantsOn first middle ∪ zone.instantsOn middle last = zone.instantsOn first last := by
  ext ms
  constructor
  · intro h
    rcases h with h | h
    · obtain ⟨hera, date, hle, hlt, hkey⟩ := h
      exact ⟨hera, date, hle, by omega, hkey⟩
    · obtain ⟨hera, date, hle, hlt, hkey⟩ := h
      exact ⟨hera, date, by omega, hlt, hkey⟩
  · intro h
    obtain ⟨hera, date, hle, hlt, hkey⟩ := h
    by_cases hmiddle : date.dayNumber < middle.dayNumber
    · exact Or.inl ⟨hera, date, hle, hmiddle, hkey⟩
    · exact Or.inr ⟨hera, date, by omega, hlt, hkey⟩

/-- Consecutive windows share no instant. -/
theorem IsWindow.disjoint {intl : String → Option Formatter} {timeZone : String}
    (sooner : IsWindow intl timeZone zone first middle)
    (later : IsWindow intl timeZone zone middle last) :
    Disjoint (zone.instantsOn first middle) (zone.instantsOn middle last) := by
  obtain ⟨start, stop, -, hstop, -, hsooner⟩ := sooner
  obtain ⟨start', stop', hstart', -, -, hlater⟩ := later
  have hsame : stop = start' := by
    have := hstop.symm.trans hstart'
    injection this
  rw [hsooner, hlater, hsame, Set.disjoint_left]
  intro ms hmem hmem'
  exact absurd hmem.2 (Int.not_lt.mpr hmem'.1)

/-! ## Midnight opens a day -/

theorem Resolves.opens {wall : WallTime} {failure : WallTimeErrorKind → WallTimeFailure}
    {compatible reject : Except WallTimeFailure Int}
    (resolves : Resolves zone wall failure compatible reject) :
    ∃ start, compatible = .ok start ∧ Opens zone.offsetMs wall.asUtc start := by
  by_cases hshown : (zone.instantsOf wall).Nonempty
  · obtain ⟨start, hstart, hleast⟩ := resolves.earliest hshown
    refine ⟨start, hstart, fun _ => hleast, ?_⟩
    intro change hskips
    have hempty := resolves.gap_iff.mpr ⟨change, hskips⟩
    exact absurd hempty hshown.ne_empty
  · have hempty : zone.instantsOf wall = ∅ := Set.not_nonempty_iff_eq_empty.mp hshown
    obtain ⟨change, hskips⟩ := resolves.gap_iff.mp hempty
    refine ⟨_, resolves.gap change hskips, fun h => absurd h hshown, ?_⟩
    intro other hother
    have hsame := (resolves.gap change hskips).symm.trans (resolves.gap other hother)
    injection hsame

section

variable {intl : String → Option Formatter} {timeZone : String} {formatter : Formatter}
  (valid : isValidTimeZone intl timeZone = true) (known : intl timeZone = some formatter)
  (regular : formatter.zone.Regular)
include valid known regular

theorem zonedDayStart_opens (written : IsWritten date) (late : FIRST_DAY ≤ date.dayNumber) :
    ∃ start, zonedDayStart intl (key date) timeZone = .ok start ∧
      Opens formatter.zone.offsetMs ((date.dayNumber - EPOCH_DAY) * DAY_MS) start := by
  have hlate : FIRST_DAY ≤ (midnight date written).date.dayNumber := late
  have resolves := chooseInstant_resolves regular hlate (key date) "00:00" timeZone
  rw [zonedDayStart, ← asUtc_midnight written]
  have hread := zonedWallTimeToInstant_wall valid known (midnight_isTime written) .compatible
  have hdate : (midnight date written).date = date := rfl
  rw [hdate] at hread
  rw [hread]
  exact resolves.opens

theorem isWindow_iff {until' : Date} (hfirst : IsWritten first) (huntil : IsWritten until')
    (late : FIRST_DAY ≤ first.dayNumber) (hlt : first.dayNumber < until'.dayNumber)
    (occurs : (formatter.zone.instantsOn first until').Nonempty) :
    IsWindow intl timeZone formatter.zone first until' ↔
      ¬ formatter.zone.JumpsMidnight first ∧ ¬ formatter.zone.JumpsMidnight until' := by
  obtain ⟨start, hstart, hopens⟩ := zonedDayStart_opens valid known regular hfirst late
  obtain ⟨stop, hstop, hcloses⟩ :=
    zonedDayStart_opens valid known regular huntil (by omega)
  have hrange : (first.dayNumber - EPOCH_DAY) * DAY_MS <
      (until'.dayNumber - EPOCH_DAY) * DAY_MS := by
    unfold DAY_MS
    omega
  have hinstants := instantsOn_eq formatter.zone hfirst huntil
  rw [hinstants] at occurs
  have htile := regular.shifts.window_iff hopens hcloses hrange occurs
  rw [← hinstants] at htile
  have hwindow : IsWindow intl timeZone formatter.zone first until' ↔
      IsLeast (formatter.zone.instantsOn first until') start ∧
        formatter.zone.instantsOn first until' = Set.Ico start stop := by
    unfold IsWindow
    rw [hstart, hstop]
    constructor
    · intro h
      obtain ⟨first', last', hfirst', hlast', hwindow⟩ := h
      injection hfirst' with hfirst'
      injection hlast' with hlast'
      rwa [hfirst', hlast']
    · intro h
      exact ⟨start, stop, rfl, rfl, h⟩
  rw [hwindow, htile]
  unfold Zone.JumpsMidnight
  push Not
  exact forall_and

/-- The window of a range of days holds exactly the instants of the days, from the
first one on, exactly when the clock jumps over neither of its midnights. Such
windows of consecutive ranges neither overlap nor leave an instant out. -/
theorem dayWindows_tile {first until' : Date} (hfirst : IsWritten first)
    (huntil : IsWritten until') (late : FIRST_DAY ≤ first.dayNumber)
    (hlt : first.dayNumber < until'.dayNumber)
    (occurs : (formatter.zone.instantsOn first until').Nonempty) :
    (IsWindow intl timeZone formatter.zone first until' ↔
      ¬ formatter.zone.JumpsMidnight first ∧ ¬ formatter.zone.JumpsMidnight until') ∧
    ∀ last : Date, until'.dayNumber < last.dayNumber →
      IsWindow intl timeZone formatter.zone first until' →
      IsWindow intl timeZone formatter.zone until' last →
        Disjoint (formatter.zone.instantsOn first until') (formatter.zone.instantsOn until' last) ∧
        formatter.zone.instantsOn first until' ∪ formatter.zone.instantsOn until' last =
          formatter.zone.instantsOn first last := by
  refine ⟨isWindow_iff valid known regular hfirst huntil late hlt occurs, ?_⟩
  intro last hlast sooner later
  exact ⟨sooner.disjoint later, formatter.zone.instantsOn_union (by omega) (by omega)⟩

end

/-! ## Days on which the clock changes -/

/-- The day in 2026 on which summer time begins in Berlin, and the day after. -/
def springSunday : Date := ofDayNumber 739703

def springMonday : Date := ofDayNumber 739704

theorem spring_written : IsWritten springSunday ∧ IsWritten springMonday := by
  unfold IsWritten
  decide +kernel

theorem berlinSpring_quiet (date : Date) : ¬ berlinSpring.JumpsMidnight date := by
  intro hjumps
  obtain ⟨change, hjump⟩ := hjumps
  have hchanges := hjump.changes
  unfold Jumps EPOCH_DAY DAY_MS at hjump
  unfold Changes at hchanges
  unfold berlinSpring switching at hjump hchanges
  dsimp only at hjump hchanges
  split at hchanges <;> split at hchanges <;> split at hjump <;> omega

theorem dayWindows_tile_berlinSpring :
    IsWindow (intlOf berlinSpring) "Europe/Berlin" berlinSpring springSunday springMonday :=
  have hvalid : isValidTimeZone (intlOf berlinSpring) "Europe/Berlin" = true ∧
      (FIRST_DAY ≤ springSunday.dayNumber ∧ springSunday.dayNumber < springMonday.dayNumber) ∧
      0 < (berlinSpring.dayAt 1774746000000).year ∧
      zonedDateKeyOfMs 1774746000000 berlinSpring = key springSunday := by decide +kernel
  have hoccurs : (berlinSpring.instantsOn springSunday springMonday).Nonempty :=
    ⟨1774746000000, hvalid.2.2.1, springSunday, le_refl _, hvalid.2.1.2, hvalid.2.2.2⟩
  (dayWindows_tile hvalid.1 rfl berlinSpring_regular spring_written.1 spring_written.2
    hvalid.2.1.1 hvalid.2.1.2 hoccurs).1.mpr
    ⟨berlinSpring_quiet _, berlinSpring_quiet _⟩

/-- Toronto in the spring of 1919: from half past eleven to half past midnight. -/
def torontoSpring : Zone :=
  switching (-1601753400000) (-18000000) (-14400000) (by decide) (by decide)

/-- St. John's in the autumn of 2010: from a minute past midnight back an hour. -/
def stJohnsAutumn : Zone :=
  switching 1289097060000 (-9000000) (-12600000) (by decide) (by decide)

theorem torontoSpring_regular : torontoSpring.Regular where
  whole_seconds ms := by
    unfold torontoSpring switching
    dsimp only
    split <;> decide
  apart := switching_apart

theorem stJohnsAutumn_regular : stJohnsAutumn.Regular where
  whole_seconds ms := by
    unfold stJohnsAutumn switching
    dsimp only
    split <;> decide
  apart := switching_apart

/-- A day whose first half hour of instants lies before its start, and one whose
start is followed by an hour of the day before. -/
theorem dayStarts_misplaced :
    (torontoSpring.Regular ∧
      zonedDayStart (intlOf torontoSpring) "1919-03-31" "America/Toronto" = .ok (-1601751600000) ∧
      zonedDateKeyOfMs (-1601753400000) torontoSpring = "1919-03-31") ∧
    (stJohnsAutumn.Regular ∧
      zonedDayStart (intlOf stJohnsAutumn) "2010-11-07" "America/St_Johns" = .ok 1289097000000 ∧
      zonedDateKeyOfMs 1289097060000 stJohnsAutumn = "2010-11-06") :=
  have hread :
      (zonedDayStart (intlOf torontoSpring) "1919-03-31" "America/Toronto" = .ok (-1601751600000) ∧
        zonedDateKeyOfMs (-1601753400000) torontoSpring = "1919-03-31") ∧
      zonedDayStart (intlOf stJohnsAutumn) "2010-11-07" "America/St_Johns" = .ok 1289097000000 ∧
        zonedDateKeyOfMs 1289097060000 stJohnsAutumn = "2010-11-06" := by decide +kernel
  ⟨⟨torontoSpring_regular, hread.1⟩, ⟨stJohnsAutumn_regular, hread.2⟩⟩

end Sinnlos.Domain

import Sinnlos.Web.MonthGrid
import Sinnlos.Domain.KpiPeriods

/-!
# The cells of a month and their window

The cells of a month are whole weeks from a Monday on that cover it. The window that
is fetched for them holds exactly their instants, unless a change of the clock jumps
over the midnight at one of its ends.
-/

namespace Sinnlos.Web.MonthView

open Domain Calendar

/-- How many days a day comes after a Monday. -/
def weekdayIndex (date : Date) : Int := (date.dayNumber - EPOCH_DAY + 3) % 7

/-- The Monday that begins the grid of a month. -/
def gridFirst (months : Int) : Date :=
  (Date.ofMonthNumber months).addDays (-weekdayIndex (Date.ofMonthNumber months))

def gridLength (months : Int) : Nat :=
  ((weekdayIndex (Date.ofMonthNumber months) + ((Date.ofMonthNumber (months + 1)).dayNumber -
    (Date.ofMonthNumber months).dayNumber) + 6) / 7 * 7).toNat

/-- The day after the grid of a month. -/
def gridUntil (months : Int) : Date := (gridFirst months).addDays (gridLength months)

/-- Months whose grid lies in the years with keys. -/
def HasGrid (months : Int) : Prop := 100 * 12 < months ∧ months < 9999 * 12 + 11

variable {months : Int}

/-! ## Days of the grid -/

variable {date : Date}

theorem isoWeekdayOfKey_key (h : IsWritten date) :
    isoWeekdayOfKey (key date) = .ok (weekdayIndex date + 1) := by
  rw [isoWeekdayOfKey, keyToUtcMs_key h]
  have hdays : (date.dayNumber - EPOCH_DAY) * DAY_MS / DAY_MS = date.dayNumber - EPOCH_DAY :=
    Int.mul_ediv_cancel _ (by decide)
  dsimp only [bind, Except.bind]
  rw [hdays]
  unfold weekdayIndex
  split
  · congr 1
    omega
  · congr 1
    omega

theorem written_of_dayNumber (hle : 36159 ≤ date.dayNumber) (hlt : date.dayNumber < 3652059) :
    IsWritten date := by
  have hwithin := date.dayNumber_within_year
  have hfirst : daysBeforeYear 100 = 36159 := by decide
  have hlast : daysBeforeYear 10000 = 3652059 := by decide
  constructor
  · by_contra hyear
    have hearly := daysBeforeYear_le (a := date.year + 1) (b := 100) (by omega)
    omega
  · by_contra hyear
    have hlate := daysBeforeYear_le (a := 10000) (b := date.year) (by omega)
    omega

theorem month_bounds (h : HasGrid months) :
    36190 ≤ (Date.ofMonthNumber months).dayNumber ∧
      (Date.ofMonthNumber months).dayNumber < (Date.ofMonthNumber (months + 1)).dayNumber ∧
      (Date.ofMonthNumber (months + 1)).dayNumber ≤ 3652028 := by
  have hfirst : (Date.ofMonthNumber 1201).dayNumber = 36190 := by decide
  have hlast : (Date.ofMonthNumber 119999).dayNumber = 3652028 := by decide
  unfold HasGrid at h
  have hlow : (Date.ofMonthNumber 1201).dayNumber ≤ (Date.ofMonthNumber months).dayNumber := by
    rw [Date.ofMonthNumber_le_iff, Date.monthNumber_ofMonthNumber]
    omega
  have hhigh : (Date.ofMonthNumber (months + 1)).dayNumber ≤
      (Date.ofMonthNumber 119999).dayNumber := by
    rw [Date.ofMonthNumber_le_iff, Date.monthNumber_ofMonthNumber]
    omega
  have hnext := Date.ofMonthNumber_le_iff (months + 1) (Date.ofMonthNumber months)
  rw [Date.monthNumber_ofMonthNumber] at hnext
  omega

/-- Where the grid lies. -/
theorem grid_bounds (h : HasGrid months) :
    (gridFirst months).dayNumber % 7 = 0 ∧ gridLength months % 7 = 0 ∧
      36184 ≤ (gridFirst months).dayNumber ∧
      (gridFirst months).dayNumber ≤ (Date.ofMonthNumber months).dayNumber ∧
      (Date.ofMonthNumber months).dayNumber < (gridFirst months).dayNumber + 7 ∧
      (Date.ofMonthNumber (months + 1)).dayNumber ≤ (gridUntil months).dayNumber ∧
      (gridUntil months).dayNumber < (Date.ofMonthNumber (months + 1)).dayNumber + 7 ∧
      (gridUntil months).dayNumber = (gridFirst months).dayNumber + gridLength months := by
  have hmonth := month_bounds h
  have hstart : (gridFirst months).dayNumber = (Date.ofMonthNumber months).dayNumber -
      ((Date.ofMonthNumber months).dayNumber - EPOCH_DAY + 3) % 7 := by
    rw [gridFirst, Date.dayNumber_addDays, weekdayIndex]
    omega
  have hend : (gridUntil months).dayNumber = (gridFirst months).dayNumber + gridLength months := by
    rw [gridUntil, Date.dayNumber_addDays]
  have hlength : (gridLength months : Int) =
      (((Date.ofMonthNumber months).dayNumber - EPOCH_DAY + 3) % 7 +
        ((Date.ofMonthNumber (months + 1)).dayNumber -
          (Date.ofMonthNumber months).dayNumber) + 6) / 7 * 7 := by
    rw [gridLength, weekdayIndex]
    omega
  unfold EPOCH_DAY at *
  omega

theorem written_gridDay (h : HasGrid months) {days : Nat} (hle : days ≤ gridLength months) :
    IsWritten ((gridFirst months).addDays days) := by
  have hmonth := month_bounds h
  have hgrid := grid_bounds h
  apply written_of_dayNumber
  · rw [Date.dayNumber_addDays]
    omega
  · rw [Date.dayNumber_addDays]
    omega

theorem firstOfMonth_eq (year month offset : Int) :
    firstOfMonth year month offset =
      key (Date.ofMonthNumber (year * 12 + (month - 1) + offset)) := by
  unfold firstOfMonth
  exact monthKey_ofMonthNumber _

/-- The keys of the cells of a month, in order. -/
def gridCells (months : Int) : List String :=
  (List.range (gridLength months)).map fun i : Nat => key ((gridFirst months).addDays i)

theorem mapM_ok {α β ϵ : Type} {f : α → Except ϵ β} {g : α → β} {list : List α}
    (h : ∀ a ∈ list, f a = .ok (g a)) : list.mapM f = .ok (list.map g) := by
  induction list with
  | nil => rfl
  | cons a rest ih =>
      rw [List.mapM_cons, h a List.mem_cons_self, ih fun b hb => h b (List.mem_cons_of_mem a hb)]
      rfl

theorem gridDays_eq {year month : Int} (h : HasGrid (year * 12 + (month - 1))) :
    gridDays year month = .ok {
      leading := weekdayIndex (Date.ofMonthNumber (year * 12 + (month - 1)))
      gridStart := key (gridFirst (year * 12 + (month - 1)))
      cells := gridCells (year * 12 + (month - 1))
      afterLast := key (gridUntil (year * 12 + (month - 1))) } := by
  obtain ⟨months, hmonths⟩ : ∃ months, months = year * 12 + (month - 1) := ⟨_, rfl⟩
  rw [← hmonths] at h ⊢
  have hmonth := month_bounds h
  have hgrid := grid_bounds h
  have hfirst : IsWritten (Date.ofMonthNumber months) :=
    written_of_dayNumber (by omega) (by omega)
  have hnext : IsWritten (Date.ofMonthNumber (months + 1)) :=
    written_of_dayNumber (by omega) (by omega)
  have hstart : IsWritten (gridFirst months) := written_of_dayNumber (by omega) (by omega)
  have huntil : IsWritten (gridUntil months) := written_of_dayNumber (by omega) (by omega)
  have hleading : weekdayIndex (Date.ofMonthNumber months) + 1 - 1 =
      weekdayIndex (Date.ofMonthNumber months) := by omega
  have htotal : (weekdayIndex (Date.ofMonthNumber months) +
      ((Date.ofMonthNumber (months + 1)).dayNumber - (Date.ofMonthNumber months).dayNumber) + 6) /
        7 * 7 = gridLength months := by
    unfold gridLength weekdayIndex
    omega
  have hcells : (List.range (gridLength months)).mapM
      (fun i : Nat => addDaysToKey (key (gridFirst months)) i) = .ok (gridCells months) :=
    mapM_ok fun i hi => addDaysToKey_key hstart (written_gridDay h (List.mem_range.mp hi).le)
  rw [gridDays, firstOfMonth_eq, firstOfMonth_eq, ← hmonths, Int.add_zero,
    daysBetweenKeys_key hfirst hnext, isoWeekdayOfKey_key hfirst]
  dsimp only [bind, Except.bind]
  rw [hleading, htotal, Int.toNat_natCast, addDaysToKey_key hfirst hstart]
  dsimp only
  rw [show (Date.ofMonthNumber months).addDays (-weekdayIndex (Date.ofMonthNumber months)) =
    gridFirst months from rfl, hcells]
  dsimp only
  rw [addDaysToKey_key hstart huntil]
  rfl

/-- A day that is a cell. -/
def InGrid (months : Int) (date : Date) : Prop :=
  (gridFirst months).dayNumber ≤ date.dayNumber ∧ date.dayNumber < (gridUntil months).dayNumber

theorem InGrid.written (h : HasGrid months) (inside : InGrid months date) : IsWritten date := by
  have hgrid := grid_bounds h
  have hmonth := month_bounds h
  unfold InGrid at inside
  exact written_of_dayNumber (by omega) (by omega)

theorem mem_gridCells (h : HasGrid months) {cell : String} :
    cell ∈ gridCells months ↔ ∃ date, InGrid months date ∧ cell = key date := by
  have hgrid := grid_bounds h
  unfold gridCells InGrid
  rw [List.mem_map]
  constructor
  · intro hcell
    obtain ⟨i, hi, hkey⟩ := hcell
    have hlt := List.mem_range.mp hi
    refine ⟨(gridFirst months).addDays i, ?_, hkey.symm⟩
    rw [Date.dayNumber_addDays]
    omega
  · intro hcell
    obtain ⟨date, hinside, hkey⟩ := hcell
    refine ⟨(date.dayNumber - (gridFirst months).dayNumber).toNat, ?_, ?_⟩
    · rw [List.mem_range]
      omega
    · rw [hkey]
      congr 1
      apply Date.dayNumber_injective
      rw [Date.dayNumber_addDays]
      omega

/-! ## The window of the cells -/

/-- The instants of the common era whose day is a cell. -/
def instantsOfCells (cells : List String) (zone : Zone) : Set Int :=
  {ms | 0 < (zone.dayAt ms).year ∧ zonedDateKeyOfMs ms zone ∈ cells}

theorem instantsOfCells_eq (zone : Zone) (h : HasGrid months) :
    instantsOfCells (gridCells months) zone =
      zone.instantsOn (gridFirst months) (gridUntil months) := by
  ext ms
  constructor
  · intro hms
    obtain ⟨hera, hcell⟩ := hms
    obtain ⟨date, hinside, hkey⟩ := (mem_gridCells h).mp hcell
    exact ⟨hera, date, hinside.1, hinside.2, hkey⟩
  · intro hms
    obtain ⟨hera, date, hle, hlt, hkey⟩ := hms
    exact ⟨hera, (mem_gridCells h).mpr ⟨date, ⟨hle, hlt⟩, hkey⟩⟩

/-- Two days and more are never skipped as a whole. -/
theorem instantsOn_nonempty (zone : Zone) {first until' : Date} (hfirst : IsWritten first)
    (huntil : IsWritten until') (hlong : first.dayNumber + 2 ≤ until'.dayNumber) :
    (zone.instantsOn first until').Nonempty := by
  rw [instantsOn_eq zone hfirst huntil]
  have hwithin := zone.within_day ((first.dayNumber - EPOCH_DAY) * DAY_MS + DAY_MS)
  refine ⟨(first.dayNumber - EPOCH_DAY) * DAY_MS + DAY_MS, ?_⟩
  show _ ≤ _ ∧ _ < _
  unfold DAY_MS at *
  constructor
  · omega
  · omega

section

open ShiftedClock

variable {intl : String → Option Formatter} {timeZone : String} {formatter : Formatter}
  (valid : isValidTimeZone intl timeZone = true) (known : intl timeZone = some formatter)
  (regular : formatter.zone.Regular)
include valid known regular

/-- The window of a grid begins and ends where its days do. -/
theorem gridWindow (h : HasGrid months) :
    ∃ start stop, zonedDayStart intl (key (gridFirst months)) timeZone = .ok start ∧
      zonedDayStart intl (key (gridUntil months)) timeZone = .ok stop ∧
      (instantsOfCells (gridCells months) formatter.zone = Set.Ico start stop ↔
        ¬ formatter.zone.JumpsMidnight (gridFirst months) ∧
          ¬ formatter.zone.JumpsMidnight (gridUntil months)) := by
  have hgrid := grid_bounds h
  have hmonth := month_bounds h
  have hfirst : IsWritten (gridFirst months) := written_of_dayNumber (by omega) (by omega)
  have huntil : IsWritten (gridUntil months) := written_of_dayNumber (by omega) (by omega)
  have hlate : FIRST_DAY ≤ (gridFirst months).dayNumber := by
    unfold FIRST_DAY
    omega
  have hlater : FIRST_DAY ≤ (gridUntil months).dayNumber := by
    unfold FIRST_DAY
    omega
  have hoccurs := instantsOn_nonempty formatter.zone hfirst huntil (by omega)
  have hwindow := isWindow_iff valid known regular hfirst huntil hlate (by omega) hoccurs
  obtain ⟨start, hstart, -⟩ := zonedDayStart_opens valid known regular hfirst hlate
  obtain ⟨stop, hstop, -⟩ := zonedDayStart_opens valid known regular huntil hlater
  refine ⟨start, stop, hstart, hstop, ?_⟩
  rw [instantsOfCells_eq formatter.zone h, ← hwindow]
  constructor
  · intro hsame
    obtain ⟨ms, hms⟩ := hoccurs
    have hrange : start < stop := by
      rw [hsame] at hms
      exact lt_of_le_of_lt hms.1 hms.2
    refine ⟨start, stop, hstart, hstop, ?_, hsame⟩
    rw [hsame]
    exact isLeast_Ico hrange
  · intro hiswindow
    obtain ⟨start', stop', hstart', hstop', -, hsame⟩ := hiswindow
    have hstarts : start = start' := Except.ok.inj (hstart.symm.trans hstart')
    have hstops : stop = stop' := Except.ok.inj (hstop.symm.trans hstop')
    rw [hsame, hstarts, hstops]

end

end Sinnlos.Web.MonthView

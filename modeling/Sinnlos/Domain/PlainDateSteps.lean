import Sinnlos.Domain.PlainDateKeys

/-!
# Arithmetic on calendar dates is exact

From the year 100 to the year 9999 the keys `YYYY-MM-DD` are the calendar's days:
they compare as strings like the days they name, steps of days add up and are
counted back, and a step of months keeps the day or takes the month's last one.
-/

namespace Sinnlos.Domain

open Calendar

variable {date other : Date}

/-- The days of the years with keys are days that a `Date` can hold. -/
theorem isTimeValue_of_written (h : IsWritten date) : isTimeValue date.dayNumber = true := by
  have hwithin := date.dayNumber_within_year
  have hearly := daysBeforeYear_le (a := 100) (b := date.year) h.1
  have hyear := h.2
  have hlate := daysBeforeYear_le (a := date.year + 1) (b := 10000) (by omega)
  have hfirst : daysBeforeYear 100 = 36159 := by decide
  have hlast : daysBeforeYear 10000 = 3652059 := by decide
  unfold isTimeValue EPOCH_DAY
  rw [decide_eq_true_eq]
  omega

variable {days : Int}

/-- Day arithmetic on keys is day arithmetic on days. -/
theorem addDaysToKey_within (h : IsWritten date)
    (within : isTimeValue (date.dayNumber + days) = true) :
    addDaysToKey (key date) days = .ok (key (date.addDays days)) := by
  have hnonneg : 0 ≤ date.year := by
    have := h.1
    omega
  have hcast : (date.year.toNat : Int) = date.year := Int.toNat_of_nonneg hnonneg
  have hday : utcDay date.year.toNat (date.month - 1) date.day = date.dayNumber := by
    rw [hcast, utcDay_date h.1]
  rw [addDaysToKey, plainDateParts_key h]
  dsimp only [bind, Except.bind]
  rw [hday, if_pos within]
  rfl

theorem addDaysToKey_key (h : IsWritten date) (hdays : IsWritten (date.addDays days)) :
    addDaysToKey (key date) days = .ok (key (date.addDays days)) := by
  apply addDaysToKey_within h
  rw [← Date.dayNumber_addDays]
  exact isTimeValue_of_written hdays

theorem key_lt_iff_dayNumber (h : IsWritten date) (hother : IsWritten other) :
    key date < key other ↔ date.dayNumber < other.dayNumber := by
  rw [key_lt_iff h hother, Date.dayNumber_lt_iff]

theorem key_le_iff_dayNumber (h : IsWritten date) (hother : IsWritten other) :
    key date ≤ key other ↔ date.dayNumber ≤ other.dayNumber := by
  rw [← not_lt, key_lt_iff_dayNumber hother h, not_lt]

/-- A day as far into a month as another one into its month, or the month's last. -/
def SameDayOrLast (date target : Date) : Prop :=
  target.day = date.day ∨
    target.day = daysInMonth target.year target.month ∧ target.day < date.day

theorem sameDayOrLast_addMonths (date : Date) (months : Int) :
    SameDayOrLast date (date.addMonths months) := by
  unfold SameDayOrLast
  by_cases h : date.day ≤ daysInMonth (date.addMonths months).year (date.addMonths months).month
  · exact Or.inl (Nat.min_eq_left h)
  · have hlast : (date.addMonths months).day =
        daysInMonth (date.addMonths months).year (date.addMonths months).month :=
      Nat.min_eq_right (Nat.le_of_not_le h)
    exact Or.inr ⟨hlast, by omega⟩

/-- What is exact about the steps from a day, among the days with keys. -/
structure ExactSteps (date : Date) : Prop where
  counted : ∀ days, IsWritten (date.addDays days) → ∃ later,
    addDaysToKey (key date) days = .ok later ∧ daysBetweenKeys (key date) later = .ok days
  added : ∀ a b, IsWritten (date.addDays a) → IsWritten (date.addDays (a + b)) → ∃ later,
    addDaysToKey (key date) a = .ok later ∧
      addDaysToKey later b = addDaysToKey (key date) (a + b)
  ordered : ∀ other, IsWritten other →
    (key date < key other ↔ date.dayNumber < other.dayNumber) ∧
    ∀ days, IsWritten (date.addDays days) → IsWritten (other.addDays days) → ∃ later otherLater,
      addDaysToKey (key date) days = .ok later ∧
      addDaysToKey (key other) days = .ok otherLater ∧
      (later < otherLater ↔ key date < key other)
  further : ∀ a b, IsWritten (date.addDays a) → IsWritten (date.addDays b) → ∃ sooner later,
    addDaysToKey (key date) a = .ok sooner ∧ addDaysToKey (key date) b = .ok later ∧
      (sooner < later ↔ a < b)
  months : ∀ months, IsWritten (date.addMonths months) → ∃ target,
    addMonthsToKey (key date) months = .ok (key target) ∧
      target.monthNumber = date.monthNumber + months ∧ SameDayOrLast date target
  months_mono : ∀ other, IsWritten other → key date ≤ key other → ∀ months,
    IsWritten (date.addMonths months) → IsWritten (other.addMonths months) → ∃ sooner later,
      addMonthsToKey (key date) months = .ok sooner ∧
      addMonthsToKey (key other) months = .ok later ∧ sooner ≤ later

/-- Every day with a key has exact steps. -/
theorem dateKeys_exact (h : IsWritten date) : ExactSteps date where
  counted days hdays := by
    refine ⟨_, addDaysToKey_key h hdays, ?_⟩
    rw [daysBetweenKeys_key h hdays, Date.dayNumber_addDays]
    congr 1
    omega
  added a b ha hab := by
    refine ⟨_, addDaysToKey_key h ha, ?_⟩
    have hb : IsWritten ((date.addDays a).addDays b) := by rwa [Date.addDays_addDays]
    rw [addDaysToKey_key ha hb, addDaysToKey_key h hab, Date.addDays_addDays]
  ordered other hother := by
    refine ⟨key_lt_iff_dayNumber h hother, ?_⟩
    intro days hdays hotherDays
    refine ⟨_, _, addDaysToKey_key h hdays, addDaysToKey_key hother hotherDays, ?_⟩
    rw [key_lt_iff_dayNumber hdays hotherDays, key_lt_iff_dayNumber h hother]
    simp only [Date.dayNumber_addDays]
    omega
  further a b ha hb := by
    refine ⟨_, _, addDaysToKey_key h ha, addDaysToKey_key h hb, ?_⟩
    rw [key_lt_iff_dayNumber ha hb]
    simp only [Date.dayNumber_addDays]
    omega
  months months hmonths :=
    ⟨_, addMonthsToKey_century h hmonths.1, Date.monthNumber_addMonths date months,
      sameDayOrLast_addMonths date months⟩
  months_mono other hother hle months hmonths hotherMonths := by
    refine ⟨_, _, addMonthsToKey_century h hmonths.1,
      addMonthsToKey_century hother hotherMonths.1, ?_⟩
    rw [key_le_iff_dayNumber h hother] at hle
    rw [key_le_iff_dayNumber hmonths hotherMonths]
    exact Date.addMonths_le months hle

/-- The last day of January 2024. -/
def endOfJanuary : Date := ofDayNumber 738915

theorem dateKeys_exact_endOfJanuary :
    addMonthsToKey "2024-01-31" 1 = .ok "2024-02-29" ∧ ExactSteps endOfJanuary :=
  have written : IsWritten endOfJanuary := by
    unfold IsWritten
    decide +kernel
  ⟨by decide +kernel, dateKeys_exact written⟩

end Sinnlos.Domain

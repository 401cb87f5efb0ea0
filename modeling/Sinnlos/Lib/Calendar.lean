import Mathlib.Algebra.Order.Ring.Int

/-!
# The Gregorian calendar

Dates of the proleptic Gregorian calendar, with a year 0 and years before it,
and the number of days from 1 January of the year 1. Month arithmetic clamps to
the last day of the month it arrives in.
-/

namespace Sinnlos.Calendar

def isLeap (year : Int) : Bool := year % 4 = 0 ∧ (year % 100 ≠ 0 ∨ year % 400 = 0)

def daysInMonth (year : Int) (month : Nat) : Nat :=
  match month with
  | 2 => if isLeap year then 29 else 28
  | 4 | 6 | 9 | 11 => 30
  | _ => 31

/-- A day of the calendar. -/
@[ext] structure Date where
  year : Int
  month : Nat
  day : Nat
  month_pos : 1 ≤ month
  month_le : month ≤ 12
  day_pos : 1 ≤ day
  day_le : day ≤ daysInMonth year month
deriving DecidableEq

/-- The days before 1 January. -/
def daysBeforeYear (year : Int) : Int :=
  365 * (year - 1) + (year - 1) / 4 - (year - 1) / 100 + (year - 1) / 400

/-- The days of the year before the first of the month. -/
def daysBeforeMonth (year : Int) : Nat → Nat
  | 0 => 0
  | month + 1 => if month = 0 then 0 else daysBeforeMonth year month + daysInMonth year month

def daysInYear (year : Int) : Nat := if isLeap year then 366 else 365

theorem daysBeforeYear_succ (year : Int) :
    daysBeforeYear (year + 1) = daysBeforeYear year + daysInYear year := by
  by_cases hleap : isLeap year = true
  · have h := hleap
    simp only [isLeap, decide_eq_true_eq] at h
    simp only [daysBeforeYear, daysInYear, hleap, if_true]
    omega
  · have h := hleap
    simp only [isLeap, decide_eq_true_eq] at h
    simp only [daysBeforeYear, daysInYear, hleap]
    push_cast
    omega

theorem daysInMonth_pos (year : Int) (month : Nat) : 0 < daysInMonth year month := by
  unfold daysInMonth
  split <;> (try split) <;> omega

theorem daysBeforeMonth_succ (year : Int) {month : Nat} (h : 1 ≤ month) :
    daysBeforeMonth year (month + 1) = daysBeforeMonth year month + daysInMonth year month := by
  have hne : month ≠ 0 := by omega
  rw [daysBeforeMonth, if_neg hne]

theorem daysBeforeMonth_year (year : Int) : daysBeforeMonth year 13 = daysInYear year := by
  by_cases hleap : isLeap year = true <;>
    simp [daysBeforeMonth, daysInMonth, daysInYear, hleap]

theorem daysBeforeMonth_le (year : Int) {a b : Nat} (ha : 1 ≤ a) (hab : a ≤ b) :
    daysBeforeMonth year a ≤ daysBeforeMonth year b := by
  induction b with
  | zero => omega
  | succ b ih =>
      by_cases heq : a = b + 1
      · rw [heq]
      · have hprev := ih (by omega)
        have hstep : daysBeforeMonth year (b + 1) = _ := daysBeforeMonth_succ year (by omega)
        omega

theorem daysBeforeYear_le {a b : Int} (h : a ≤ b) : daysBeforeYear a ≤ daysBeforeYear b := by
  unfold daysBeforeYear
  omega

/-! ## Days and their numbers -/

namespace Date

/-- The days before a date. -/
def dayNumber (date : Date) : Int :=
  daysBeforeYear date.year + daysBeforeMonth date.year date.month + date.day - 1

/-- The calendar's order: by year, then by month, then by day. -/
def Before (a b : Date) : Prop :=
  a.year < b.year ∨ a.year = b.year ∧
    (a.month < b.month ∨ a.month = b.month ∧ a.day < b.day)

theorem trichotomy (a b : Date) : a.Before b ∨ a = b ∨ b.Before a := by
  unfold Before
  rw [Date.ext_iff]
  omega

/-- A date lies within its month. -/
theorem dayNumber_within_month (date : Date) :
    daysBeforeYear date.year + daysBeforeMonth date.year date.month ≤ date.dayNumber ∧
      date.dayNumber <
        daysBeforeYear date.year + daysBeforeMonth date.year (date.month + 1) := by
  have hstep := daysBeforeMonth_succ date.year date.month_pos
  have hpos := date.day_pos
  have hle := date.day_le
  unfold dayNumber
  omega

/-- A date lies within its year. -/
theorem dayNumber_within_year (date : Date) :
    daysBeforeYear date.year ≤ date.dayNumber ∧
      date.dayNumber < daysBeforeYear (date.year + 1) := by
  have hmonth := date.dayNumber_within_month
  have hlast := daysBeforeMonth_le date.year (a := date.month + 1) (b := 13) (by omega)
    (by have := date.month_le; omega)
  have hyear := daysBeforeMonth_year date.year
  have hsucc := daysBeforeYear_succ date.year
  omega

variable {a b : Date}

theorem dayNumber_lt (h : a.Before b) : a.dayNumber < b.dayNumber := by
  obtain hyear | ⟨hyear, hmonth | ⟨hmonth, hday⟩⟩ := h
  · have ha := a.dayNumber_within_year
    have hb := b.dayNumber_within_year
    have hle := daysBeforeYear_le (a := a.year + 1) (b := b.year) (by omega)
    omega
  · have ha := a.dayNumber_within_month
    have hb := b.dayNumber_within_month
    have hle := daysBeforeMonth_le a.year (a := a.month + 1) (b := b.month) (by omega) (by omega)
    rw [← hyear] at hb
    omega
  · unfold dayNumber
    rw [← hyear, ← hmonth]
    omega

theorem dayNumber_lt_iff : a.dayNumber < b.dayNumber ↔ a.Before b := by
  constructor
  · intro hlt
    obtain h | h | h := a.trichotomy b
    · exact h
    · rw [h] at hlt
      exact absurd hlt (lt_irrefl _)
    · have hback := dayNumber_lt h
      omega
  · exact dayNumber_lt

theorem dayNumber_injective (h : a.dayNumber = b.dayNumber) : a = b := by
  obtain hlt | heq | hlt := a.trichotomy b
  · have := dayNumber_lt hlt
    omega
  · exact heq
  · have := dayNumber_lt hlt
    omega

theorem year_le_of_dayNumber_le (h : a.dayNumber ≤ b.dayNumber) : a.year ≤ b.year := by
  by_contra hlt
  have := dayNumber_lt (a := b) (b := a) (Or.inl (by omega))
  omega

end Date

/-! ## From numbers to days -/

/-- The year that holds a day: cycles of 400, 100 and 4 years, then years. -/
def yearOf (days : Int) : Int :=
  let cycles := days / 146097
  let inCycle := days % 146097
  let centuries := min 3 (inCycle / 36524)
  let inCentury := inCycle - 36524 * centuries
  let leaps := inCentury / 1461
  let years := min 3 (inCentury % 1461 / 365)
  400 * cycles + 100 * centuries + 4 * leaps + years + 1

theorem yearOf_spec (days : Int) :
    daysBeforeYear (yearOf days) ≤ days ∧ days < daysBeforeYear (yearOf days + 1) := by
  have hcycle := Int.emod_add_mul_ediv days 146097
  have hnonneg := Int.emod_nonneg days (b := 146097) (by omega)
  have hlt := Int.emod_lt_of_pos days (b := 146097) (by omega)
  unfold yearOf
  generalize days / 146097 = cycles at hcycle ⊢
  generalize days % 146097 = inCycle at hcycle hnonneg hlt ⊢
  dsimp only
  obtain ⟨centuries, hcenturies⟩ : ∃ c, c = min 3 (inCycle / 36524) := ⟨_, rfl⟩
  rw [← hcenturies]
  obtain ⟨inCentury, hinCentury⟩ : ∃ r, r = inCycle - 36524 * centuries := ⟨_, rfl⟩
  rw [← hinCentury]
  have hcentury : 0 ≤ centuries ∧ centuries ≤ 3 ∧ 0 ≤ inCentury ∧ inCentury ≤ 36524 ∧
      (centuries < 3 → inCentury < 36524) := by
    omega
  obtain ⟨leaps, hleaps⟩ : ∃ l, l = inCentury / 1461 := ⟨_, rfl⟩
  obtain ⟨years, hyears⟩ : ∃ y, y = min 3 (inCentury % 1461 / 365) := ⟨_, rfl⟩
  rw [← hleaps, ← hyears]
  have hleap : 0 ≤ leaps ∧ leaps ≤ 24 ∧ 0 ≤ years ∧ years ≤ 3 := by omega
  obtain ⟨rest, hrest⟩ : ∃ r, r = inCentury % 1461 := ⟨_, rfl⟩
  have hin : inCentury = 1461 * leaps + rest := by omega
  have hyear : 365 * years ≤ rest ∧ rest ≤ 365 * years + 365 ∧
      (years < 3 → rest < 365 * years + 365) := by
    omega
  have hdays : days = 146097 * cycles + 36524 * centuries + 1461 * leaps + rest := by omega
  -- only the last year of four has a 366th day, and the last four years of a
  -- century only in the last century of the cycle
  have hlast : rest = 365 * years + 365 → years = 3 ∧ (leaps = 24 → centuries = 3) := by omega
  clear hcycle hnonneg hlt hcenturies hinCentury hleaps hyears hrest hin
  have hstart : daysBeforeYear (400 * cycles + 100 * centuries + 4 * leaps + years + 1) =
      146097 * cycles + 36524 * centuries + 1461 * leaps + 365 * years := by
    unfold daysBeforeYear
    omega
  rw [daysBeforeYear_succ (400 * cycles + 100 * centuries + 4 * leaps + years + 1), hstart]
  constructor
  · omega
  · by_cases hfull : rest = 365 * years + 365
    · have hleapYear : isLeap (400 * cycles + 100 * centuries + 4 * leaps + years + 1) = true := by
        have hend := hlast hfull
        simp only [isLeap, decide_eq_true_eq]
        omega
      rw [daysInYear, if_pos hleapYear]
      omega
    · have hshort : 365 ≤ daysInYear (400 * cycles + 100 * centuries + 4 * leaps + years + 1) := by
        unfold daysInYear
        split <;> omega
      omega

/-- The month and the day of it, looked for from a month on: `rest` days of the
year are left, and `left` months after this one. -/
def monthFrom (year : Int) : Nat → Nat → Nat → Nat × Nat
  | 0, month, rest => (month, rest)
  | left + 1, month, rest =>
      if rest < daysInMonth year month then (month, rest)
      else monthFrom year left (month + 1) (rest - daysInMonth year month)

theorem monthFrom_spec {year : Int} {left month rest : Nat} (hmonth : 1 ≤ month)
    (hleft : month + left = 12)
    (hrest : daysBeforeMonth year month + rest < daysInYear year) :
    month ≤ (monthFrom year left month rest).1 ∧ (monthFrom year left month rest).1 ≤ 12 ∧
      (monthFrom year left month rest).2 < daysInMonth year (monthFrom year left month rest).1 ∧
      daysBeforeMonth year (monthFrom year left month rest).1 +
        (monthFrom year left month rest).2 = daysBeforeMonth year month + rest := by
  induction left generalizing month rest with
  | zero =>
      have hlast := daysBeforeMonth_year year
      have hstep := daysBeforeMonth_succ year hmonth
      have hm : month = 12 := by omega
      unfold monthFrom
      subst hm
      dsimp only
      change daysBeforeMonth year 13 = _ at hstep
      omega
  | succ left ih =>
      unfold monthFrom
      split
      · dsimp only
        omega
      · have hstep := daysBeforeMonth_succ year hmonth
        have hleft : month + 1 + left = 12 := by omega
        have hnext := @ih (month + 1) (rest - daysInMonth year month) (by omega) hleft (by omega)
        omega

theorem dayOfYear_lt (days : Int) :
    (days - daysBeforeYear (yearOf days)).toNat < daysInYear (yearOf days) := by
  have hspec := yearOf_spec days
  have hsucc := daysBeforeYear_succ (yearOf days)
  omega

theorem month_of_day (days : Int) :
    daysBeforeMonth (yearOf days) 1 + (days - daysBeforeYear (yearOf days)).toNat <
      daysInYear (yearOf days) := by
  have h := dayOfYear_lt days
  simpa [daysBeforeMonth] using h

/-- The date a number of days after 1 January of the year 1. -/
def ofDayNumber (days : Int) : Date where
  year := yearOf days
  month := (monthFrom (yearOf days) 11 1 (days - daysBeforeYear (yearOf days)).toNat).1
  day := (monthFrom (yearOf days) 11 1 (days - daysBeforeYear (yearOf days)).toNat).2 + 1
  month_pos := (monthFrom_spec le_rfl (Eq.refl (1 + 11)) (month_of_day days)).1
  month_le := (monthFrom_spec le_rfl (Eq.refl (1 + 11)) (month_of_day days)).2.1
  day_pos := by omega
  day_le := (monthFrom_spec le_rfl (Eq.refl (1 + 11)) (month_of_day days)).2.2.1

@[simp] theorem dayNumber_ofDayNumber (days : Int) : (ofDayNumber days).dayNumber = days := by
  have hspec := yearOf_spec days
  have hmonth := (monthFrom_spec le_rfl (Eq.refl (1 + 11)) (month_of_day days)).2.2.2
  have hfirst : daysBeforeMonth (yearOf days) 1 = 0 := rfl
  unfold Date.dayNumber ofDayNumber
  dsimp only
  push_cast
  omega

@[simp] theorem ofDayNumber_dayNumber (date : Date) : ofDayNumber date.dayNumber = date := by
  apply Date.dayNumber_injective
  rw [dayNumber_ofDayNumber]

/-! ## Days later -/

namespace Date

def addDays (date : Date) (days : Int) : Date := ofDayNumber (date.dayNumber + days)

@[simp] theorem dayNumber_addDays (date : Date) (days : Int) :
    (date.addDays days).dayNumber = date.dayNumber + days :=
  dayNumber_ofDayNumber _

theorem addDays_addDays (date : Date) (a b : Int) :
    (date.addDays a).addDays b = date.addDays (a + b) := by
  apply dayNumber_injective
  simp only [dayNumber_addDays]
  omega

end Date

/-! ## Months later -/

namespace Date

/-- The months before a date's month, from the year 0 on. -/
def monthNumber (date : Date) : Int := 12 * date.year + (date.month - 1)

/-- The same day some months later, or the last day of a shorter month. -/
def addMonths (date : Date) (months : Int) : Date where
  year := (date.monthNumber + months) / 12
  month := ((date.monthNumber + months) % 12).toNat + 1
  day := min date.day
    (daysInMonth ((date.monthNumber + months) / 12)
      (((date.monthNumber + months) % 12).toNat + 1))
  month_pos := by omega
  month_le := by omega
  day_pos := by
    have hday := date.day_pos
    have hmonth := daysInMonth_pos ((date.monthNumber + months) / 12)
      (((date.monthNumber + months) % 12).toNat + 1)
    omega
  day_le := by omega

theorem monthNumber_addMonths (date : Date) (months : Int) :
    (date.addMonths months).monthNumber = date.monthNumber + months := by
  change 12 * ((date.monthNumber + months) / 12) +
    ((((date.monthNumber + months) % 12).toNat + 1 : Nat) - 1 : Int) = _
  omega

variable {a b : Date}

theorem before_of_monthNumber_lt (h : a.monthNumber < b.monthNumber) : a.Before b := by
  have ha := a.month_le
  have hb := b.month_le
  have hapos := a.month_pos
  have hbpos := b.month_pos
  unfold monthNumber at h
  unfold Before
  omega

theorem monthNumber_le (h : a.dayNumber ≤ b.dayNumber) : a.monthNumber ≤ b.monthNumber := by
  by_contra hlt
  have hbefore := before_of_monthNumber_lt (Int.not_le.mp hlt)
  have := dayNumber_lt hbefore
  omega

theorem firstDay_pos : 1 ≤ 1 := Nat.le_refl 1

/-- The first day of a month. -/
def ofMonthNumber (months : Int) : Date where
  year := months / 12
  month := (months % 12).toNat + 1
  day := 1
  month_pos := by omega
  month_le := by omega
  day_pos := firstDay_pos
  day_le := daysInMonth_pos _ _

@[simp] theorem monthNumber_ofMonthNumber (months : Int) :
    (ofMonthNumber months).monthNumber = months := by
  change 12 * (months / 12) + (((months % 12).toNat + 1 : Nat) - 1 : Int) = months
  omega

/-- A day comes after the first day of its month and of the months before. -/
theorem ofMonthNumber_le_iff (months : Int) (date : Date) :
    (ofMonthNumber months).dayNumber ≤ date.dayNumber ↔ months ≤ date.monthNumber := by
  constructor
  · intro h
    have hle := monthNumber_le h
    rwa [monthNumber_ofMonthNumber] at hle
  · intro h
    by_cases hsame : months = date.monthNumber
    · have hyear : months / 12 = date.year := by
        have hpos := date.month_pos
        have hle := date.month_le
        unfold monthNumber at hsame
        omega
      have hmonth : (months % 12).toNat + 1 = date.month := by
        have hpos := date.month_pos
        have hle := date.month_le
        unfold monthNumber at hsame
        omega
      have hday := date.day_pos
      change daysBeforeYear (months / 12) +
        daysBeforeMonth (months / 12) ((months % 12).toNat + 1) + (1 : Nat) - 1 ≤ date.dayNumber
      rw [hyear, hmonth]
      unfold dayNumber
      omega
    · have hbefore : (ofMonthNumber months).Before date := by
        apply before_of_monthNumber_lt
        rw [monthNumber_ofMonthNumber]
        omega
      have := dayNumber_lt hbefore
      omega

/-- A later day is not due earlier. -/
theorem addMonths_le (months : Int) (h : a.dayNumber ≤ b.dayNumber) :
    (a.addMonths months).dayNumber ≤ (b.addMonths months).dayNumber := by
  by_cases hmonth : a.monthNumber = b.monthNumber
  · -- the same month: the later day stays the later one when both are clamped
    have hyear : a.year = b.year ∧ a.month = b.month := by
      have ha := a.month_le
      have hb := b.month_le
      have hapos := a.month_pos
      have hbpos := b.month_pos
      unfold monthNumber at hmonth
      omega
    have hday : a.day ≤ b.day := by
      unfold dayNumber at h
      rw [hyear.1, hyear.2] at h
      omega
    have htarget : (a.addMonths months).year = (b.addMonths months).year ∧
        (a.addMonths months).month = (b.addMonths months).month := by
      unfold addMonths
      dsimp only
      rw [hmonth]
      exact ⟨rfl, rfl⟩
    have hclamped : (a.addMonths months).day ≤ (b.addMonths months).day := by
      unfold addMonths
      dsimp only
      rw [hmonth]
      omega
    unfold dayNumber
    rw [htarget.1, htarget.2]
    omega
  · have hlt : a.monthNumber < b.monthNumber := by
      by_contra hge
      have hback := dayNumber_lt (before_of_monthNumber_lt (a := b) (b := a) (by omega))
      omega
    have hbefore : (a.addMonths months).monthNumber < (b.addMonths months).monthNumber := by
      rw [monthNumber_addMonths, monthNumber_addMonths]
      omega
    exact le_of_lt (dayNumber_lt (before_of_monthNumber_lt hbefore))

end Date

end Sinnlos.Calendar

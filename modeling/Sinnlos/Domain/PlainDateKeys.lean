import Mathlib.Data.String.Basic
import Sinnlos.Domain.PlainDate

/-!
# What keys stand for

A key that is a calendar date stands for a day of the years 100 to 9999, keys
are ordered as their days, and arithmetic on keys is arithmetic on days. The
canonical instants are the texts that `toISOString` writes for the years 0 to
9999; what the engine reads from them is documented.
-/

namespace Sinnlos.Domain

open Calendar Text

/-- The key of a day. -/
def key (date : Date) : String := dateKey date.year date.month date.day

/-- Days whose key is a calendar date. -/
def IsWritten (date : Date) : Prop := 100 ≤ date.year ∧ date.year ≤ 9999

/-! ## The text of a key -/

theorem pad_digits {width n : Nat} (h : n < 10 ^ (width + 1)) :
    pad n (width + 1) = String.ofList (digits (width + 1) n) := by
  have htext : toString (n : Int) = toString n := rfl
  rw [pad, htext, padStart_toString h]

theorem month_lt (date : Date) : date.month < 10 ^ (1 + 1) := by
  have := date.month_le
  omega

theorem day_lt (date : Date) : date.day < 10 ^ (1 + 1) := by
  have hle := date.day_le
  have hmonth : daysInMonth date.year date.month ≤ 31 := by
    unfold daysInMonth
    split <;> (try split) <;> omega
  omega

variable {year month day : Nat} {date a b : Date} {value : String}

theorem toList_dateKey (hyear : year < 10 ^ 4) (hmonth : month < 10 ^ 2) (hday : day < 10 ^ 2) :
    (dateKey year month day).toList =
      digits 4 year ++ '-' :: (digits 2 month ++ '-' :: digits 2 day) := by
  rw [dateKey, pad_digits hyear, pad_digits hmonth, pad_digits hday]
  simp [String.toList_append]

/-- The characters of a key. -/
theorem toList_key (hnonneg : 0 ≤ date.year) (hle : date.year ≤ 9999) :
    (key date).toList =
      digits 4 date.year.toNat ++ '-' :: (digits 2 date.month ++ '-' :: digits 2 date.day) := by
  obtain ⟨year, hyear⟩ := Int.eq_ofNat_of_zero_le hnonneg
  rw [key, hyear]
  exact toList_dateKey (by omega) (month_lt date) (day_lt date)

theorem digits_four (n : Nat) : ∃ a b c d, digits 4 n = [a, b, c, d] := ⟨_, _, _, _, rfl⟩

theorem digits_two (n : Nat) : ∃ a b, digits 2 n = [a, b] := ⟨_, _, rfl⟩

theorem digits_three (n : Nat) : ∃ a b c, digits 3 n = [a, b, c] := ⟨_, _, _, rfl⟩

theorem plainDateMatch_dateKey (hyear : year < 10 ^ 4) (hmonth : month < 10 ^ 2)
    (hday : day < 10 ^ 2) : plainDateMatch (dateKey year month day) = some (year, month, day) := by
  have hreadYear : readNat (digits 4 year) = some year := readNat_digits hyear
  have hreadMonth : readNat (digits 2 month) = some month := readNat_digits hmonth
  have hreadDay : readNat (digits 2 day) = some day := readNat_digits hday
  obtain ⟨y1, y2, y3, y4, hy⟩ := digits_four year
  obtain ⟨m1, m2, hm⟩ := digits_two month
  obtain ⟨d1, d2, hd⟩ := digits_two day
  rw [plainDateMatch, toList_dateKey hyear hmonth hday, hy, hm, hd]
  rw [hy] at hreadYear
  rw [hm] at hreadMonth
  rw [hd] at hreadDay
  simp only [List.cons_append, List.nil_append, hreadYear, hreadMonth, hreadDay]
  rfl

/-- The numbers are read back from a key. -/
theorem plainDateMatch_key (hnonneg : 0 ≤ date.year) (hle : date.year ≤ 9999) :
    plainDateMatch (key date) = some (date.year.toNat, date.month, date.day) := by
  obtain ⟨year, hyear⟩ := Int.eq_ofNat_of_zero_le hnonneg
  rw [key, hyear]
  exact plainDateMatch_dateKey (by omega) (month_lt date) (day_lt date)

theorem isPlainDate_key (h : IsWritten date) : isPlainDate (key date) = true := by
  have hnonneg : 0 ≤ date.year := by
    have := h.1
    omega
  have hread := plainDateMatch_key hnonneg h.2
  have hday : utcDay date.year.toNat (date.month - 1) date.day = date.dayNumber := by
    have hcast : (date.year.toNat : Int) = date.year := Int.toNat_of_nonneg (by have := h.1; omega)
    rw [hcast, utcDay_date h.1]
  have hmonth := date.month_pos
  have hlast := date.month_le
  have hpos := date.day_pos
  have hbounds : ¬(date.month < 1 ∨ 12 < date.month ∨ date.day < 1) := by omega
  rw [isPlainDate, hread]
  simp only [if_neg hbounds, hday, ofDayNumber_dayNumber]
  have hyear : date.year = (date.year.toNat : Int) := by
    have := h.1
    omega
  exact decide_eq_true ⟨hyear, trivial, trivial⟩

/-- A text that the pattern fits is made of the digits of its numbers. -/
theorem toList_of_plainDateMatch (h : plainDateMatch value = some (year, month, day)) :
    year < 10 ^ 4 ∧ value.toList =
      digits 4 year ++ '-' :: (digits 2 month ++ '-' :: digits 2 day) := by
  unfold plainDateMatch at h
  split at h
  · rename_i y1 y2 y3 y4 m1 m2 d1 d2 hvalue
    cases hy : readNat [y1, y2, y3, y4] with
    | none => simp [hy] at h
    | some y =>
        cases hm : readNat [m1, m2] with
        | none => simp [hy, hm] at h
        | some m =>
            cases hd : readNat [d1, d2] with
            | none => simp [hy, hm, hd] at h
            | some d =>
                have hparts : y = year ∧ m = month ∧ d = day := by
                  simpa [hy, hm, hd] using h
                have hyear := digits_of_readNat hy
                have hmonth := digits_of_readNat hm
                have hday := digits_of_readNat hd
                rw [← hparts.1, ← hparts.2.1, ← hparts.2.2, hvalue]
                refine ⟨hyear.1, ?_⟩
                change _ = digits [y1, y2, y3, y4].length y ++
                  '-' :: (digits [m1, m2].length m ++ '-' :: digits [d1, d2].length d)
                rw [hyear.2, hmonth.2, hday.2]
                rfl
  · cases h

/-- A year of two digits names no day: the probe lies in the twentieth century. -/
theorem year_of_probe {year month day : Int} (hmonth : 1 ≤ month) (hday : 1 ≤ day)
    (hnonneg : 0 ≤ year) (h : (ofDayNumber (utcDay year (month - 1) day)).year = year) :
    100 ≤ year := by
  by_contra hlt
  have hprobe := (ofDayNumber (utcDay year (month - 1) day)).dayNumber_within_year
  rw [dayNumber_ofDayNumber, h, utcDay, if_pos ⟨hnonneg, by omega⟩, makeDay] at hprobe
  have hearly := daysBeforeYear_le (a := year + 1) (b := 1900 + year + (month - 1) / 12) (by omega)
  omega

theorem isPlainDate_early (hyear : year < 100) (hmonth : month < 10 ^ 2) (hday : day < 10 ^ 2) :
    isPlainDate (dateKey year month day) = false := by
  cases hplain : isPlainDate (dateKey year month day) with
  | false => rfl
  | true =>
      rw [isPlainDate, plainDateMatch_dateKey (by omega) hmonth hday] at hplain
      dsimp only at hplain
      split at hplain
      · cases hplain
      · have hprobe := (of_decide_eq_true hplain).1
        have hcentury := year_of_probe (by omega) (by omega) (by omega) hprobe
        omega

/-- Every key that is a calendar date is the key of a day. -/
theorem key_of_isPlainDate (h : isPlainDate value = true) :
    ∃ date, IsWritten date ∧ value = key date := by
  unfold isPlainDate at h
  split at h
  · cases h
  · rename_i year month day hmatch
    have htext := toList_of_plainDateMatch hmatch
    split at h
    · cases h
    · rename_i hbounds
      have hprobe := of_decide_eq_true h
      have hcentury := year_of_probe (by omega) (by omega) (by omega) hprobe.1
      obtain ⟨date, hdate⟩ : ∃ date, date = ofDayNumber (utcDay year (month - 1) day) := ⟨_, rfl⟩
      rw [← hdate] at hprobe
      have hwritten : IsWritten date := by
        rw [IsWritten, hprobe.1]
        omega
      refine ⟨date, hwritten, String.toList_inj.mp ?_⟩
      rw [htext.2, toList_key (by omega) (by omega), hprobe.1, hprobe.2.1, hprobe.2.2,
        Int.toNat_natCast]

theorem key_injective (ha : IsWritten a) (hb : IsWritten b) (h : key a = key b) : a = b := by
  have hnonneg : 0 ≤ a.year := by
    have := ha.1
    omega
  have hmatch := plainDateMatch_key hnonneg ha.2
  rw [h, plainDateMatch_key (by have := hb.1; omega) hb.2] at hmatch
  have hparts : b.year.toNat = a.year.toNat ∧ b.month = a.month ∧ b.day = a.day := by
    simpa using hmatch
  have hapos := ha.1
  have hbpos := hb.1
  exact Date.ext (by omega) hparts.2.1.symm hparts.2.2.symm

/-- A year after 9999 makes the key too long. -/
theorem isPlainDate_late {year : Int} (month day : Int) (h : 9999 < year) :
    isPlainDate (dateKey year month day) = false := by
  have hlen : 10 < (dateKey year month day).toList.length := by
    obtain ⟨n, hn⟩ := Int.eq_ofNat_of_zero_le (a := year) (by omega)
    have hyear : 4 < (toString n).toList.length := length_toString_of_le (by omega) (by omega)
    have htext : toString (n : Int) = toString n := rfl
    simp only [dateKey, pad, hn, htext, String.toList_append, List.length_append, padStart,
      String.toList_ofList, List.length_replicate]
    have hdash : "-".toList.length = 1 := rfl
    rw [hdash]
    omega
  cases hplain : isPlainDate (dateKey year month day) with
  | false => rfl
  | true =>
      obtain ⟨date, hwritten, hkey⟩ := key_of_isPlainDate hplain
      rw [hkey, toList_key (by have := hwritten.1; omega) hwritten.2] at hlen
      simp at hlen

/-! ## The order of keys -/

/-- Keys of four-digit years are ordered as their days. -/
theorem key_lt_iff_of_digits (ha : 0 ≤ a.year ∧ a.year ≤ 9999) (hb : 0 ≤ b.year ∧ b.year ≤ 9999) :
    key a < key b ↔ a.dayNumber < b.dayNumber := by
  have hyear : digits 4 a.year.toNat < digits 4 b.year.toNat ↔ a.year.toNat < b.year.toNat :=
    digits_lt_iff (by omega) (by omega)
  have hmonth := digits_lt_iff (month_lt a) (month_lt b)
  have hday := digits_lt_iff (day_lt a) (day_lt b)
  have hsame {width m n : Nat} (hm : m < 10 ^ width) (hn : n < 10 ^ width) :
      digits width m = digits width n ↔ m = n := by
    constructor
    · intro heq
      rw [← ofDigitChars_digits hm, heq, ofDigitChars_digits hn]
    · intro heq
      rw [heq]
  rw [String.lt_iff_toList_lt, toList_key ha.1 ha.2, toList_key hb.1 hb.2,
    append_lt_append (by simp), List.cons_lt_cons_iff, append_lt_append (by simp),
    List.cons_lt_cons_iff, hyear, hmonth, hday, hsame (by omega) (by omega),
    hsame (month_lt a) (month_lt b), Date.dayNumber_lt_iff, Date.Before]
  have hdash : ¬('-' < '-') := by decide
  simp only [hdash, false_or, true_and]
  omega

theorem IsWritten.digits (h : IsWritten date) : 0 ≤ date.year ∧ date.year ≤ 9999 := by
  unfold IsWritten at h
  omega

/-- Keys are ordered as their days. -/
theorem key_lt_iff (ha : IsWritten a) (hb : IsWritten b) :
    key a < key b ↔ a.dayNumber < b.dayNumber :=
  key_lt_iff_of_digits ha.digits hb.digits

/-! ## Arithmetic on keys -/

theorem plainDateParts_key (h : IsWritten date) :
    plainDateParts (key date) = .ok (date.year.toNat, date.month, date.day) := by
  rw [plainDateParts, plainDateMatch_key (by have := h.1; omega) h.2]
  simp only [isPlainDate_key h, if_true]

theorem plainDateParts_error (h : isPlainDate value = false) :
    plainDateParts value = .error (.notCalendarDate value) := by
  unfold plainDateParts
  split
  · rfl
  · rw [h]
    rfl

/-- The last day before a month is the month's day 0. -/
theorem lastDay_of_month (date : Date) (h : 100 ≤ date.year) :
    (ofDayNumber (utcDay date.year date.month 0)).day = daysInMonth date.year date.month := by
  have hpos := date.month_pos
  have hle := date.month_le
  obtain ⟨last, hlast⟩ : ∃ last : Date, last.year = date.year ∧ last.month = date.month ∧
      last.day = daysInMonth date.year date.month :=
    ⟨⟨date.year, date.month, daysInMonth date.year date.month, hpos, hle,
      daysInMonth_pos date.year date.month, le_rfl⟩, rfl, rfl, rfl⟩
  have hnumber : utcDay date.year date.month 0 = last.dayNumber := by
    have hstep := daysBeforeMonth_succ date.year hpos
    rw [utcDay, if_neg (by omega), makeDay, Date.dayNumber, hlast.1, hlast.2.1, hlast.2.2]
    by_cases hdecember : date.month = 12
    · -- day 0 of the January after
      have hyear := daysBeforeYear_succ date.year
      have htotal := daysBeforeMonth_year date.year
      have hdiv : (date.month : Int) / 12 = 1 := by omega
      have hmod : ((date.month : Int) % 12).toNat + 1 = 1 := by omega
      have hjanuary : daysBeforeMonth (date.year + 1) 1 = 0 := rfl
      rw [hdiv, hmod, hyear, hjanuary]
      rw [hdecember] at hstep ⊢
      change daysBeforeMonth date.year 13 = _ at hstep
      omega
    · have hdiv : (date.month : Int) / 12 = 0 := by omega
      have hmod : ((date.month : Int) % 12).toNat + 1 = date.month + 1 := by omega
      have hsame : date.year + 0 = date.year := by omega
      rw [hdiv, hmod, hsame, hstep]
      omega
  rw [hnumber, ofDayNumber_dayNumber, hlast.2.2]

/-- Month arithmetic on keys is month arithmetic on days, where the year 100 is not
passed. -/
theorem addMonthsToKey_century (h : IsWritten date) {months : Int}
    (century : 100 ≤ (date.addMonths months).year) :
    addMonthsToKey (key date) months = .ok (key (date.addMonths months)) := by
  have hyear := h.1
  have hpos := date.month_pos
  have hle := date.month_le
  have hcast : (date.year.toNat : Int) = date.year := Int.toNat_of_nonneg (by omega)
  obtain ⟨target, hyr, hmon, hday⟩ : ∃ target : Date,
      target.year = (date.addMonths months).year ∧
      target.month = (date.addMonths months).month ∧ target.day = 1 :=
    ⟨⟨(date.addMonths months).year, (date.addMonths months).month, 1,
      (date.addMonths months).month_pos, (date.addMonths months).month_le, le_rfl,
      daysInMonth_pos _ _⟩, rfl, rfl, rfl⟩
  have hnumber : utcDay date.year.toNat (date.month - 1 + months) 1 = target.dayNumber := by
    rw [hcast, utcDay, if_neg (by omega), makeDay, Date.dayNumber, hyr, hmon, hday]
    have hcarry : date.year + ((date.month : Int) - 1 + months) / 12 =
        (date.addMonths months).year := by
      change _ = (date.monthNumber + months) / 12
      unfold Date.monthNumber
      omega
    have hindex : (((date.month : Int) - 1 + months) % 12).toNat + 1 =
        (date.addMonths months).month := by
      change _ = ((date.monthNumber + months) % 12).toNat + 1
      unfold Date.monthNumber
      omega
    rw [hcarry, hindex]
    rfl
  rw [addMonthsToKey, plainDateParts_key h]
  change Except.ok (dateKey _ _ _) = _
  rw [hnumber, ofDayNumber_dayNumber, lastDay_of_month target (hyr ▸ century), hyr, hmon]
  rfl

theorem addMonthsToKey_key (h : IsWritten date) (months : Nat) :
    addMonthsToKey (key date) months = .ok (key (date.addMonths months)) := by
  apply addMonthsToKey_century h
  have hyear := h.1
  have hmonth := date.month_pos
  change 100 ≤ (date.monthNumber + months) / 12
  unfold Date.monthNumber
  omega

theorem addMonthsToKey_error (h : isPlainDate value = false) (months : Int) :
    addMonthsToKey value months = .error (.notCalendarDate value) := by
  rw [addMonthsToKey, plainDateParts_error h]
  rfl

theorem keyToUtcMs_key (h : IsWritten date) :
    keyToUtcMs (key date) = .ok ((date.dayNumber - EPOCH_DAY) * DAY_MS) := by
  have hcast : (date.year.toNat : Int) = date.year :=
    Int.toNat_of_nonneg (by have := h.1; omega)
  rw [keyToUtcMs, plainDateParts_key h]
  change Except.ok ((utcDay date.year.toNat (date.month - 1) date.day - EPOCH_DAY) * DAY_MS) = _
  rw [hcast, utcDay_date h.1]

/-- The days between two keys are the days between their days. -/
theorem daysBetweenKeys_key (ha : IsWritten a) (hb : IsWritten b) :
    daysBetweenKeys (key a) (key b) = .ok (b.dayNumber - a.dayNumber) := by
  rw [daysBetweenKeys, keyToUtcMs_key hb, keyToUtcMs_key ha]
  change Except.ok (((b.dayNumber - EPOCH_DAY) * DAY_MS - (a.dayNumber - EPOCH_DAY) * DAY_MS) /
    DAY_MS) = _
  have hdays : ((b.dayNumber - EPOCH_DAY) * DAY_MS - (a.dayNumber - EPOCH_DAY) * DAY_MS) / DAY_MS =
      b.dayNumber - a.dayNumber := by
    unfold DAY_MS
    omega
  rw [hdays]

/-- Whoever counts the days between two keys has two calendar dates. -/
theorem plain_of_daysBetweenKeys {first second : String} {days : Int}
    (h : daysBetweenKeys first second = .ok days) :
    isPlainDate first = true ∧ isPlainDate second = true := by
  unfold daysBetweenKeys keyToUtcMs at h
  cases hsecond : isPlainDate second with
  | false =>
      rw [plainDateParts_error hsecond] at h
      cases h
  | true =>
      obtain ⟨date, hwritten, hkey⟩ := key_of_isPlainDate hsecond
      rw [hkey, plainDateParts_key hwritten] at h
      cases hfirst : isPlainDate first with
      | false =>
          rw [plainDateParts_error hfirst] at h
          cases h
      | true => exact ⟨rfl, rfl⟩

end Sinnlos.Domain

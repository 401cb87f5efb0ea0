import Sinnlos.Domain.PlainDateKeys

/-!
# Canonical instants

The instants of the years 0 to 9999 in the form that `toISOString` writes, what
is read back from them, and the days they fall on.
-/

namespace Sinnlos.Domain

open Calendar Text

/-- An instant in whole milliseconds, by the wall clock of UTC. -/
structure Instant where
  date : Date
  hour : Nat
  minute : Nat
  second : Nat
  milli : Nat
  year_nonneg : 0 ≤ date.year
  year_le : date.year ≤ 9999
  hour_le : hour ≤ 23
  minute_le : minute ≤ 59
  second_le : second ≤ 59
  milli_le : milli ≤ 999

namespace Instant

def toISOString (instant : Instant) : String :=
  key instant.date ++ "T" ++ pad instant.hour 2 ++ ":" ++ pad instant.minute 2 ++ ":" ++
    pad instant.second 2 ++ "." ++ pad instant.milli 3 ++ "Z"

def epochMs (instant : Instant) : Int :=
  (instant.date.dayNumber - EPOCH_DAY) * DAY_MS + instant.hour * 3600000 +
    instant.minute * 60000 + instant.second * 1000 + instant.milli

/-- Two canonical instants of one time are one text. -/
theorem toISOString_eq_of_epochMs {a b : Instant} (h : a.epochMs = b.epochMs) :
    a.toISOString = b.toISOString := by
  have ha := a.hour_le
  have ham := a.minute_le
  have has := a.second_le
  have haf := a.milli_le
  have hb := b.hour_le
  have hbm := b.minute_le
  have hbs := b.second_le
  have hbf := b.milli_le
  unfold epochMs DAY_MS at h
  have hday : a.date.dayNumber = b.date.dayNumber := by omega
  have hhour : a.hour = b.hour := by omega
  have hminute : a.minute = b.minute := by omega
  have hsecond : a.second = b.second := by omega
  have hmilli : a.milli = b.milli := by omega
  rw [toISOString, toISOString, Date.dayNumber_injective hday, hhour, hminute, hsecond, hmilli]

/-- The characters of a canonical instant. -/
theorem toList_toISOString (instant : Instant) :
    instant.toISOString.toList = digits 4 instant.date.year.toNat ++
      '-' :: (digits 2 instant.date.month ++ '-' :: (digits 2 instant.date.day ++
        'T' :: (digits 2 instant.hour ++ ':' :: (digits 2 instant.minute ++
          ':' :: (digits 2 instant.second ++ '.' :: (digits 3 instant.milli ++ ['Z'])))))) := by
  have hhour := instant.hour_le
  have hminute := instant.minute_le
  have hsecond := instant.second_le
  have hmilli := instant.milli_le
  have hkey := toList_key instant.year_nonneg instant.year_le
  have hpad2 {n : Nat} (h : n < 10 ^ (1 + 1)) : (pad n 2).toList = digits 2 n := by
    rw [pad_digits h, String.toList_ofList]
  have hpad3 : (pad instant.milli 3).toList = digits 3 instant.milli := by
    have htext : pad instant.milli 3 = String.ofList (digits 3 instant.milli) :=
      pad_digits (by omega)
    rw [htext, String.toList_ofList]
  simp only [toISOString, String.toList_append, hkey, hpad2 (n := instant.hour) (by omega),
    hpad2 (n := instant.minute) (by omega), hpad2 (n := instant.second) (by omega), hpad3]
  simp

end Instant

/-! ## Reading a canonical instant -/

theorem not_isTrimmed_of_isDigit {c : Char} (h : c.isDigit = true) : isTrimmed c = false := by
  have hbounds : 48 ≤ c.toNat ∧ c.toNat ≤ 57 := by
    simp only [Char.isDigit, Bool.and_eq_true, decide_eq_true_eq] at h
    exact ⟨UInt32.le_iff_toNat_le.mp h.1, UInt32.le_iff_toNat_le.mp h.2⟩
  unfold isTrimmed
  simp only [List.mem_cons, List.not_mem_nil, or_false, Bool.or_eq_false_iff,
    decide_eq_false_iff_not, Bool.and_eq_false_iff]
  omega

/-- A text that neither begins nor ends with white space is left alone. -/
theorem trimChars_eq_self {c d : Char} (middle : List Char) (hc : isTrimmed c = false)
    (hd : isTrimmed d = false) : trimChars (c :: (middle ++ [d])) = c :: (middle ++ [d]) := by
  have hfront : (c :: (middle ++ [d])).dropWhile isTrimmed = c :: (middle ++ [d]) := by
    rw [List.dropWhile_cons_of_neg (by rw [hc]; decide)]
  rw [trimChars, hfront, ← List.cons_append, List.rdropWhile_concat_neg]
  rw [hd]
  decide

section

variable {y1 y2 y3 y4 m1 m2 d1 d2 h1 h2 n1 n2 s1 s2 f1 f2 f3 : Char}

theorem timeAtEnd_canonical (hh1 : h1.isDigit = true) (hh2 : h2.isDigit = true)
    (hn1 : n1.isDigit = true) (hn2 : n2.isDigit = true) (hs1 : s1.isDigit = true)
    (hs2 : s2.isDigit = true) (hf1 : f1.isDigit = true) (hf2 : f2.isDigit = true)
    (hf3 : f3.isDigit = true) :
    timeAtEnd ['T', h1, h2, ':', n1, n2, ':', s1, s2, '.', f1, f2, f3, 'Z'] = true := by
  have hz : ('Z').isDigit = false := by decide
  simp [timeAtEnd, secondsThenOffset, fractionThenOffset, offsetAtEnd, hh1, hh2,
    hn1, hn2, hs1, hs2, hf1, hf2, hf3, hz]

theorem endsWithTime_append (front : List Char) {text : List Char} (h : timeAtEnd text = true) :
    endsWithTime (front ++ text) = true := by
  unfold endsWithTime
  rw [List.any_eq_true]
  exact ⟨text, (List.mem_tails text (front ++ text)).mpr ⟨front, rfl⟩, h⟩

theorem yearPrefix_digits (h : y1.isDigit = true) (rest : List Char) :
    yearPrefix (y1 :: y2 :: y3 :: y4 :: rest) =
      (readNat [y1, y2, y3, y4]).map fun n : Nat => ((n : Int), rest) := by
  have hplus : y1 ≠ '+' := by
    intro heq
    rw [heq] at h
    cases h
  have hminus : y1 ≠ '-' := by
    intro heq
    rw [heq] at h
    cases h
  unfold yearPrefix
  split
  · rename_i heq
    exact absurd (List.cons.inj heq).1 hplus
  · rename_i heq
    exact absurd (List.cons.inj heq).1 hminus
  · rename_i heq
    injection heq with e1 e
    injection e with e2 e
    injection e with e3 e
    injection e with e4 e
    subst e1 e2 e3 e4 e
    cases readNat [y1, y2, y3, y4] <;> rfl
  · rename_i hnone
    exact absurd rfl (hnone y1 y2 y3 y4 rest)

end

theorem isTimeValue_instant (instant : Instant) :
    isTimeValue instant.date.dayNumber = true := by
  have hnonneg := instant.year_nonneg
  have hle := instant.year_le
  have hwithin := instant.date.dayNumber_within_year
  have hfirst := daysBeforeYear_le hnonneg
  have hlast := daysBeforeYear_le (a := instant.date.year + 1) (b := 10000) (by omega)
  have hzero : daysBeforeYear 0 = -366 := by decide
  have hlate : daysBeforeYear 10000 = 3652059 := by decide
  unfold isTimeValue EPOCH_DAY
  rw [decide_eq_true_eq]
  omega

section

variable {dateParse : String → Option Int}

/-- `Date.parse` reads what `toISOString` writes. -/
def ReadsCanonical (dateParse : String → Option Int) : Prop :=
  ∀ instant : Instant, dateParse instant.toISOString = some instant.epochMs

/-- The explicit characters of a canonical instant. -/
theorem exists_chars (instant : Instant) :
    ∃ y1 y2 y3 y4 m1 m2 d1 d2 h1 h2 n1 n2 s1 s2 f1 f2 f3 : Char,
      instant.toISOString.toList = [y1, y2, y3, y4, '-', m1, m2, '-', d1, d2, 'T', h1, h2, ':',
        n1, n2, ':', s1, s2, '.', f1, f2, f3, 'Z'] ∧
      digits 4 instant.date.year.toNat = [y1, y2, y3, y4] ∧
      digits 2 instant.date.month = [m1, m2] ∧ digits 2 instant.date.day = [d1, d2] ∧
      digits 2 instant.hour = [h1, h2] ∧ digits 2 instant.minute = [n1, n2] ∧
      digits 2 instant.second = [s1, s2] ∧ digits 3 instant.milli = [f1, f2, f3] := by
  obtain ⟨y1, y2, y3, y4, hy⟩ := digits_four instant.date.year.toNat
  obtain ⟨m1, m2, hm⟩ := digits_two instant.date.month
  obtain ⟨d1, d2, hd⟩ := digits_two instant.date.day
  obtain ⟨h1, h2, hh⟩ := digits_two instant.hour
  obtain ⟨n1, n2, hn⟩ := digits_two instant.minute
  obtain ⟨s1, s2, hs⟩ := digits_two instant.second
  obtain ⟨f1, f2, f3, hf⟩ := digits_three instant.milli
  refine ⟨y1, y2, y3, y4, m1, m2, d1, d2, h1, h2, n1, n2, s1, s2, f1, f2, f3, ?_, hy, hm, hd, hh,
    hn, hs, hf⟩
  rw [instant.toList_toISOString, hy, hm, hd, hh, hn, hs, hf]
  rfl

theorem startsWithRealDay_instant (instant : Instant) :
    startsWithRealDay instant.toISOString.toList = true := by
  obtain ⟨y1, y2, y3, y4, m1, m2, d1, d2, h1, h2, n1, n2, s1, s2, f1, f2, f3, htext, hy, hm, hd, -⟩ :=
    exists_chars instant
  have hle := instant.year_le
  have hnonneg := instant.year_nonneg
  have hyear : readNat (digits 4 instant.date.year.toNat) = some instant.date.year.toNat :=
    readNat_digits (by omega)
  have hmonth := readNat_digits (month_lt instant.date)
  have hday := readNat_digits (day_lt instant.date)
  rw [hy] at hyear
  rw [hm] at hmonth
  rw [hd] at hday
  have hy1 : y1.isDigit = true := by
    have hmem : y1 ∈ digits 4 instant.date.year.toNat := by
      rw [hy]
      exact List.mem_cons_self
    exact isDigit_of_mem_digits hmem
  have hcast : (instant.date.year.toNat : Int) = instant.date.year := Int.toNat_of_nonneg hnonneg
  have hprefix : dayPrefix instant.toISOString.toList =
      some (instant.date.year, instant.date.month, instant.date.day) := by
    rw [dayPrefix, htext, yearPrefix_digits hy1, hyear]
    simp only [Option.map_some, hmonth, hday, hcast]
    rfl
  have hpos := instant.date.month_pos
  have hlast := instant.date.month_le
  have hdaypos := instant.date.day_pos
  have hbounds : ¬(instant.date.month < 1 ∨ 12 < instant.date.month ∨ instant.date.day < 1) := by
    omega
  rw [startsWithRealDay, hprefix]
  simp only [if_neg hbounds, makeDay_date, ofDayNumber_dayNumber]
  exact decide_eq_true ⟨isTimeValue_instant instant, trivial, trivial, trivial⟩

/-- A canonical instant is read as its time. -/
theorem instantEpochMs_canonical (hread : ReadsCanonical dateParse) (instant : Instant) :
    instantEpochMs dateParse instant.toISOString = some instant.epochMs := by
  obtain ⟨y1, y2, y3, y4, m1, m2, d1, d2, h1, h2, n1, n2, s1, s2, f1, f2, f3, htext, hy, hm, hd, hh,
    hn, hs, hf⟩ := exists_chars instant
  have hdigit {c : Char} {width n : Nat} {text : List Char} (h : digits width n = text)
      (hc : c ∈ text) : c.isDigit = true := by
    rw [← h] at hc
    exact isDigit_of_mem_digits hc
  have htrim : trim instant.toISOString = instant.toISOString := by
    have hchars := trimChars_eq_self [y2, y3, y4, '-', m1, m2, '-', d1, d2, 'T', h1, h2, ':', n1, n2,
      ':', s1, s2, '.', f1, f2, f3] (not_isTrimmed_of_isDigit (hdigit hy (c := y1) (by simp)))
      (d := 'Z') (by decide)
    rw [trim, htext]
    have hsame : trimChars [y1, y2, y3, y4, '-', m1, m2, '-', d1, d2, 'T', h1, h2, ':', n1, n2, ':',
        s1, s2, '.', f1, f2, f3, 'Z'] = instant.toISOString.toList := by
      rw [htext]
      exact hchars
    rw [hsame, String.ofList_toList]
  have htime : endsWithTime instant.toISOString.toList = true := by
    have hend := timeAtEnd_canonical (hdigit hh (c := h1) (by simp)) (hdigit hh (c := h2) (by simp))
      (hdigit hn (c := n1) (by simp)) (hdigit hn (c := n2) (by simp))
      (hdigit hs (c := s1) (by simp)) (hdigit hs (c := s2) (by simp))
      (hdigit hf (c := f1) (by simp)) (hdigit hf (c := f2) (by simp))
      (hdigit hf (c := f3) (by simp))
    rw [htext]
    exact endsWithTime_append [y1, y2, y3, y4, '-', m1, m2, '-', d1, d2] hend
  rw [instantEpochMs, htrim, htime, startsWithRealDay_instant]
  exact hread instant

/-- A zone whose calendar day never steps backwards. -/
def Zone.NeverBackwards (zone : Zone) : Prop :=
  ∀ a b, a ≤ b → (zone.dayAt a).dayNumber ≤ (zone.dayAt b).dayNumber

/-- The wall clock shows a day of the years -1 to 10000. -/
theorem year_dayAt (zone : Zone) (instant : Instant) :
    -1 ≤ (zone.dayAt instant.epochMs).year ∧ (zone.dayAt instant.epochMs).year ≤ 10000 := by
  have hoffset := zone.within_day instant.epochMs
  have hwithin := instant.date.dayNumber_within_year
  have hhour := instant.hour_le
  have hminute := instant.minute_le
  have hsecond := instant.second_le
  have hmilli := instant.milli_le
  have hfirst := daysBeforeYear_le instant.year_nonneg
  have hlast := daysBeforeYear_le (a := instant.date.year + 1) (b := 10000)
    (by have := instant.year_le; omega)
  have hlocal := (zone.dayAt instant.epochMs).dayNumber_within_year
  have hnumber : (zone.dayAt instant.epochMs).dayNumber =
      EPOCH_DAY + (instant.epochMs + zone.offsetMs instant.epochMs) / DAY_MS := by
    unfold Zone.dayAt
    rw [dayNumber_ofDayNumber]
  have hms : instant.epochMs = (instant.date.dayNumber - EPOCH_DAY) * DAY_MS +
      instant.hour * 3600000 + instant.minute * 60000 + instant.second * 1000 + instant.milli := rfl
  have hnear : instant.date.dayNumber - 1 ≤ (zone.dayAt instant.epochMs).dayNumber ∧
      (zone.dayAt instant.epochMs).dayNumber ≤ instant.date.dayNumber + 1 := by
    rw [hnumber]
    unfold DAY_MS EPOCH_DAY at *
    omega
  have hzero : daysBeforeYear 0 = -366 := by decide
  have hearly : daysBeforeYear (-1) = -731 := by decide
  have hlate : daysBeforeYear 10000 = 3652059 := by decide
  have hlater : daysBeforeYear 10001 = 3652425 := by decide
  constructor
  · by_contra hlt
    have hback := daysBeforeYear_le (a := (zone.dayAt instant.epochMs).year + 1) (b := -1) (by omega)
    omega
  · by_contra hlt
    have hforward := daysBeforeYear_le (a := 10001) (b := (zone.dayAt instant.epochMs).year)
      (by omega)
    omega

/-- An instant's key in a zone is its day's key, or no calendar date where the
day has no such key. -/
theorem zonedDateKey_canonical (hread : ReadsCanonical dateParse) (zone : Zone)
    (instant : Instant) :
    ∃ text, zonedDateKey dateParse instant.toISOString zone = .ok text ∧
      (IsWritten (zone.dayAt instant.epochMs) → text = key (zone.dayAt instant.epochMs)) ∧
      (¬IsWritten (zone.dayAt instant.epochMs) → isPlainDate text = false) := by
  have hyear := year_dayAt zone instant
  obtain ⟨date, hdate⟩ : ∃ date, date = zone.dayAt instant.epochMs := ⟨_, rfl⟩
  rw [← hdate] at hyear ⊢
  refine ⟨dateKey (if date.year ≤ 0 then 1 - date.year else date.year) date.month date.day,
    ?_, ?_, ?_⟩
  · rw [zonedDateKey, toEpochMs, instantEpochMs_canonical hread, hdate]
    rfl
  · intro hwritten
    rw [if_neg (by have := hwritten.1; omega)]
    rfl
  · intro hunwritten
    unfold IsWritten at hunwritten
    by_cases hlate : 9999 < date.year
    · rw [if_neg (by omega)]
      exact isPlainDate_late date.month date.day hlate
    · obtain ⟨year, hera⟩ := Int.eq_ofNat_of_zero_le
        (a := if date.year ≤ 0 then 1 - date.year else date.year) (by split <;> omega)
      have hshort : year < 100 := by
        split at hera <;> omega
      rw [hera]
      exact isPlainDate_early hshort (month_lt date) (day_lt date)

end

/-! ## An engine and a zone -/

/-- Reads canonical instants and nothing else. -/
def parseCanonical (text : String) : Option Int :=
  match text.toList with
  | [y1, y2, y3, y4, '-', m1, m2, '-', d1, d2, 'T', h1, h2, ':', n1, n2, ':', s1, s2, '.',
      f1, f2, f3, 'Z'] => do
      let year ← readNat [y1, y2, y3, y4]
      let month ← readNat [m1, m2]
      let day ← readNat [d1, d2]
      let hour ← readNat [h1, h2]
      let minute ← readNat [n1, n2]
      let second ← readNat [s1, s2]
      let milli ← readNat [f1, f2, f3]
      return (makeDay year (month - 1) day - EPOCH_DAY) * DAY_MS + hour * 3600000 +
        minute * 60000 + second * 1000 + milli
  | _ => none

theorem readsCanonical_parseCanonical : ReadsCanonical parseCanonical := by
  intro instant
  obtain ⟨y1, y2, y3, y4, m1, m2, d1, d2, h1, h2, n1, n2, s1, s2, f1, f2, f3, htext, hy, hm, hd, hh,
    hn, hs, hf⟩ := exists_chars instant
  have hnonneg := instant.year_nonneg
  have hle := instant.year_le
  have hhourLe := instant.hour_le
  have hminuteLe := instant.minute_le
  have hsecondLe := instant.second_le
  have hmilliLe := instant.milli_le
  have hyear : readNat (digits 4 instant.date.year.toNat) = some instant.date.year.toNat :=
    readNat_digits (by omega)
  have hmonth := readNat_digits (month_lt instant.date)
  have hday := readNat_digits (day_lt instant.date)
  have hhour : readNat (digits 2 instant.hour) = some instant.hour := readNat_digits (by omega)
  have hminute : readNat (digits 2 instant.minute) = some instant.minute :=
    readNat_digits (by omega)
  have hsecond : readNat (digits 2 instant.second) = some instant.second :=
    readNat_digits (by omega)
  have hmilli : readNat (digits 3 instant.milli) = some instant.milli := readNat_digits (by omega)
  rw [hy] at hyear
  rw [hm] at hmonth
  rw [hd] at hday
  rw [hh] at hhour
  rw [hn] at hminute
  rw [hs] at hsecond
  rw [hf] at hmilli
  have hcast : (instant.date.year.toNat : Int) = instant.date.year := Int.toNat_of_nonneg hnonneg
  rw [parseCanonical, htext]
  simp only [hyear, hmonth, hday, hhour, hminute, hsecond, hmilli, bind, Option.bind, pure, hcast,
    makeDay_date]
  rfl

/-- The zone without an offset. -/
def utc : Zone where
  offsetMs := fun _ => 0
  within_day := fun _ => by decide

theorem utc_neverBackwards : utc.NeverBackwards := by
  intro a b hle
  unfold Zone.dayAt utc
  rw [dayNumber_ofDayNumber, dayNumber_ofDayNumber]
  unfold DAY_MS
  dsimp only
  omega

end Sinnlos.Domain

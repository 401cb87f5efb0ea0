import Sinnlos.Domain.PlainDateKeys
import Sinnlos.Domain.WallTimes
import Sinnlos.Lib.ShiftedClock

/-!
# How wall times resolve

In a zone whose offsets are whole seconds and change at most once in two days, a
wall time from the third day of the year 100 on resolves as it is documented: the
earliest instant that shows it, or the offset before the gap that skips it. Before
that day `Date.UTC` reads a year of the probes in the twentieth century.
-/

namespace Sinnlos.Domain

open Calendar Text Distinct ShiftedClock

/-! ## Wall times and their texts -/

/-- A day and a time of day. -/
structure WallTime where
  date : Date
  hour : Nat
  minute : Nat
  second : Nat
  written : IsWritten date
  hour_lt : hour < 24
  minute_lt : minute < 60
  second_lt : second < 60

namespace WallTime

/-- The wall time as if it were UTC. -/
def asUtc (wall : WallTime) : Int :=
  (wall.date.dayNumber - EPOCH_DAY) * DAY_MS +
    ((wall.hour * 60 + wall.minute) * 60 + wall.second : Nat) * 1000

def shortTime (wall : WallTime) : String := pad wall.hour 2 ++ ":" ++ pad wall.minute 2

def longTime (wall : WallTime) : String := wall.shortTime ++ ":" ++ pad wall.second 2

/-- The times of day that are read as the wall time's. -/
def IsTime (wall : WallTime) (time : String) : Prop :=
  time = wall.longTime ∨ time = wall.shortTime ∧ wall.second = 0

end WallTime

/-- The first day of which no probe lies before the year 100. -/
def FIRST_DAY : Int := 36161

structure Zone.Regular (zone : Zone) : Prop where
  whole_seconds : ∀ ms, zone.offsetMs ms % 1000 = 0
  apart : ∀ a b, Changes zone.offsetMs a → Changes zone.offsetMs b → a < b → a + 2 * DAY_MS ≤ b

/-- The instants whose wall time is this one. -/
def Zone.instantsOf (zone : Zone) (wall : WallTime) : Set Int := shownAt zone.offsetMs wall.asUtc

/-- What both modes make of a wall time. -/
structure Resolves (zone : Zone) (wall : WallTime)
    (failure : WallTimeErrorKind → WallTimeFailure)
    (compatible reject : Except WallTimeFailure Int) : Prop where
  earliest : (zone.instantsOf wall).Nonempty →
    ∃ instant, compatible = .ok instant ∧ IsLeast (zone.instantsOf wall) instant
  gap_iff : zone.instantsOf wall = ∅ ↔ ∃ change, Skips zone.offsetMs change wall.asUtc
  gap : ∀ change, Skips zone.offsetMs change wall.asUtc →
    compatible = .ok (wall.asUtc - zone.offsetMs (change - 1))
  refused_iff : (∃ error, reject = .error error) ↔ ¬∃! instant, instant ∈ zone.instantsOf wall
  single : ∀ instant, zone.instantsOf wall = {instant} → reject = .ok instant
  skipped : zone.instantsOf wall = ∅ → reject = .error (failure .skipped)
  repeated : (zone.instantsOf wall).Nontrivial → reject = .error (failure .repeated)

/-! ## Reading the texts -/

variable {n : Nat}

theorem toList_pad_two (h : n < 100) : (pad n 2).toList = digits 2 n := by
  rw [pad_digits (by omega), String.toList_ofList]

theorem readNat_two_digits (h : n < 100) : readNat (digits 2 n) = some n :=
  readNat_digits (by omega)

theorem wallTimeMatch_short (wall : WallTime) :
    wallTimeMatch wall.shortTime = some (wall.hour, wall.minute, none) := by
  have hhour := wall.hour_lt
  have hminute := wall.minute_lt
  obtain ⟨h1, h2, hh⟩ := digits_two wall.hour
  obtain ⟨m1, m2, hm⟩ := digits_two wall.minute
  have hreadHour : readNat [h1, h2] = some wall.hour := hh ▸ readNat_two_digits (by omega)
  have hreadMinute : readNat [m1, m2] = some wall.minute := hm ▸ readNat_two_digits (by omega)
  have htext : wall.shortTime.toList = [h1, h2, ':', m1, m2] := by
    simp [WallTime.shortTime, String.toList_append, toList_pad_two (n := wall.hour) (by omega),
      toList_pad_two (n := wall.minute) (by omega), hh, hm]
  rw [wallTimeMatch, htext]
  simp [hreadHour, hreadMinute, hhour, hminute]

theorem wallTimeMatch_long (wall : WallTime) :
    wallTimeMatch wall.longTime = some (wall.hour, wall.minute, some wall.second) := by
  have hhour := wall.hour_lt
  have hminute := wall.minute_lt
  have hsecond := wall.second_lt
  obtain ⟨h1, h2, hh⟩ := digits_two wall.hour
  obtain ⟨m1, m2, hm⟩ := digits_two wall.minute
  obtain ⟨s1, s2, hs⟩ := digits_two wall.second
  have hreadHour : readNat [h1, h2] = some wall.hour := hh ▸ readNat_two_digits (by omega)
  have hreadMinute : readNat [m1, m2] = some wall.minute := hm ▸ readNat_two_digits (by omega)
  have hreadSecond : readNat [s1, s2] = some wall.second := hs ▸ readNat_two_digits (by omega)
  have htext : wall.longTime.toList = [h1, h2, ':', m1, m2, ':', s1, s2] := by
    simp [WallTime.longTime, WallTime.shortTime, String.toList_append,
      toList_pad_two (n := wall.hour) (by omega), toList_pad_two (n := wall.minute) (by omega),
      toList_pad_two (n := wall.second) (by omega), hh, hm, hs]
  rw [wallTimeMatch, htext]
  simp [hreadHour, hreadMinute, hreadSecond, hhour, hminute, hsecond]

variable {wall : WallTime} {zone : Zone} {time : String}

theorem wallTimeMatch_time (h : wall.IsTime time) :
    ∃ second, wallTimeMatch time = some (wall.hour, wall.minute, second) ∧
      second.getD 0 = wall.second := by
  cases h with
  | inl h => exact ⟨some wall.second, h ▸ wallTimeMatch_long wall, rfl⟩
  | inr h => exact ⟨none, h.1 ▸ wallTimeMatch_short wall, h.2.symm⟩

/-- A valid name, day and time leave the choice among the candidates. -/
theorem zonedWallTimeToInstant_wall {intl : String → Option Formatter} {timeZone : String}
    {formatter : Formatter} (valid : isValidTimeZone intl timeZone = true)
    (known : intl timeZone = some formatter) (htime : wall.IsTime time)
    (mode : WallTimeDisambiguation) :
    zonedWallTimeToInstant intl (key wall.date) time timeZone mode =
      chooseInstant (key wall.date) time timeZone mode wall.asUtc formatter.zone := by
  have hyear := wall.written
  have hnonneg : 0 ≤ wall.date.year := by
    have := hyear.1
    omega
  obtain ⟨second, hmatch, hsecond⟩ := wallTimeMatch_time htime
  have hcast : (wall.date.year.toNat : Int) = wall.date.year := Int.toNat_of_nonneg hnonneg
  have hms : utcMs wall.date.year.toNat (wall.date.month - 1) wall.date.day wall.hour wall.minute
      (second.getD 0) = wall.asUtc := by
    rw [utcMs, hcast, utcDay_date hyear.1, hsecond, WallTime.asUtc]
    push_cast
    rfl
  rw [zonedWallTimeToInstant, if_pos (isPlainDate_key hyear), plainDateMatch_key hnonneg hyear.2,
    hmatch]
  dsimp only
  rw [if_pos valid, known, hms]

/-! ## The offset that is read from a clock -/

theorem offsetMsAt_eq (regular : zone.Regular) {ms : Int}
    (h : daysBeforeYear 100 ≤ EPOCH_DAY + (ms + zone.offsetMs ms) / DAY_MS) :
    offsetMsAt ms zone = zone.offsetMs ms := by
  have hwhole := regular.whole_seconds ms
  have hnumber : (zone.dayAt ms).dayNumber = EPOCH_DAY + (ms + zone.offsetMs ms) / DAY_MS := by
    rw [Zone.dayAt, dayNumber_ofDayNumber]
  have hyear : 100 ≤ (zone.dayAt ms).year := by
    by_contra hlt
    have hwithin := (zone.dayAt ms).dayNumber_within_year
    have hearly := daysBeforeYear_le (a := (zone.dayAt ms).year + 1) (b := 100) (by omega)
    omega
  have hday : utcDay (zone.dayAt ms).year ((zone.dayAt ms).month - 1) (zone.dayAt ms).day =
      EPOCH_DAY + (ms + zone.offsetMs ms) / DAY_MS := by
    rw [utcDay_date hyear, hnumber]
  have hera : ¬ (zone.dayAt ms).year ≤ 0 := by omega
  rw [offsetMsAt, wallClockAt]
  dsimp only
  rw [if_neg hera, utcMs, hday]
  unfold DAY_MS EPOCH_DAY at *
  omega

theorem Zone.Regular.shifts (regular : zone.Regular) : ShiftedClock.Regular zone.offsetMs DAY_MS :=
  ⟨zone.within_day, regular.apart⟩

/-- Every instant that is probed shows a day of the year 100 or later. -/
theorem offsetMsAt_near (regular : zone.Regular) (late : FIRST_DAY ≤ wall.date.dayNumber)
    (ms : Int) (h : wall.asUtc - DAY_MS ≤ ms) : offsetMsAt ms zone = zone.offsetMs ms := by
  have hwithin := zone.within_day ms
  have hyear : daysBeforeYear 100 = 36159 := by decide
  apply offsetMsAt_eq regular
  rw [hyear]
  unfold WallTime.asUtc FIRST_DAY DAY_MS EPOCH_DAY at *
  omega

/-! ## The candidates -/

theorem nodup_wallTimeCandidates (wallAsUtc : Int) (zone : Zone) :
    (wallTimeCandidates wallAsUtc zone).Nodup := by
  unfold wallTimeCandidates
  apply List.Nodup.filter
  rw [← List.map_id (firsts id [] _)]
  exact nodup_firsts _ _

theorem mem_firsts_pair {a b c : Int} : c ∈ firsts id [] [a, b] ↔ c = a ∨ c = b := by
  by_cases h : b = a
  · simp [firsts, h]
  · simp [firsts, h]

/-- The candidates are the instants that show the wall time. -/
theorem mem_wallTimeCandidates (regular : zone.Regular) (late : FIRST_DAY ≤ wall.date.dayNumber)
    {instant : Int} :
    instant ∈ wallTimeCandidates wall.asUtc zone ↔ instant ∈ zone.instantsOf wall := by
  have hpos : 0 < DAY_MS := by decide
  have hfirst := offsetMsAt_near regular late (wall.asUtc - DAY_MS) le_rfl
  have hlast := offsetMsAt_near regular late (wall.asUtc + DAY_MS) (by omega)
  have hbefore := zone.within_day (wall.asUtc - DAY_MS)
  have hafter := zone.within_day (wall.asUtc + DAY_MS)
  unfold wallTimeCandidates
  rw [List.mem_filter, decide_eq_true_eq, mem_firsts_pair, hfirst, hlast]
  constructor
  · intro h
    obtain ⟨hprobe, hshows⟩ := h
    rw [offsetMsAt_near regular late instant (by omega)] at hshows
    exact hshows
  · intro h
    have hprobe := regular.shifts.shown_candidate h
    rw [offsetMsAt_near regular late instant (by omega)]
    exact ⟨hprobe, h⟩

/-! ## Both modes -/

section

variable {zone : Zone} {wall : WallTime} (name time timeZone : String) {first second : Int}
  {rest : List Int}

theorem chooseInstant_compatible (h : wallTimeCandidates wall.asUtc zone = first :: rest) :
    ∃ instant, chooseInstant name time timeZone .compatible wall.asUtc zone = .ok instant ∧
      instant ∈ first :: rest ∧ ∀ other ∈ first :: rest, instant ≤ other := by
  cases hmin : (first :: rest).min? with
  | none => simp at hmin
  | some least =>
      refine ⟨least, ?_, List.min?_eq_some_iff.mp hmin⟩
      simp [chooseInstant, h, hmin]

theorem chooseInstant_none (h : wallTimeCandidates wall.asUtc zone = []) :
    chooseInstant name time timeZone .compatible wall.asUtc zone =
        .ok (wall.asUtc - offsetMsAt (wall.asUtc - DAY_MS) zone) ∧
      chooseInstant name time timeZone .reject wall.asUtc zone =
        .error (.wallTime .skipped name time timeZone) := by
  simp [chooseInstant, h]

theorem chooseInstant_one (h : wallTimeCandidates wall.asUtc zone = [first]) :
    chooseInstant name time timeZone .reject wall.asUtc zone = .ok first := by
  simp [chooseInstant, h]

theorem chooseInstant_more (h : wallTimeCandidates wall.asUtc zone = first :: second :: rest) :
    chooseInstant name time timeZone .reject wall.asUtc zone =
      .error (.wallTime .repeated name time timeZone) := by
  simp [chooseInstant, h]

end

/-- A list of the instants of a wall time. -/
structure Lists (zone : Zone) (wall : WallTime) (candidates : List Int) : Prop where
  nodup : candidates.Nodup
  mem_iff : ∀ instant, instant ∈ candidates ↔ instant ∈ zone.instantsOf wall

section

variable {zone : Zone} {wall : WallTime} {first second : Int} {rest : List Int}

theorem Lists.empty (lists : Lists zone wall []) : zone.instantsOf wall = ∅ := by
  rw [Set.eq_empty_iff_forall_notMem]
  intro instant h
  exact absurd ((lists.mem_iff instant).mpr h) List.not_mem_nil

theorem Lists.single (lists : Lists zone wall [first]) : zone.instantsOf wall = {first} := by
  ext instant
  rw [← lists.mem_iff, List.mem_singleton, Set.mem_singleton_iff]

theorem Lists.nontrivial (lists : Lists zone wall (first :: second :: rest)) :
    (zone.instantsOf wall).Nontrivial := by
  have hne : first ≠ second := by
    intro h
    have hnodup := lists.nodup
    simp [h] at hnodup
  exact ⟨first, (lists.mem_iff first).mp (by simp), second, (lists.mem_iff second).mp (by simp), hne⟩

theorem Lists.earliest (name time timeZone : String) (lists : Lists zone wall (first :: rest))
    (h : wallTimeCandidates wall.asUtc zone = first :: rest) :
    ∃ instant, chooseInstant name time timeZone .compatible wall.asUtc zone = .ok instant ∧
      IsLeast (zone.instantsOf wall) instant := by
  obtain ⟨instant, hchosen, hmem, hle⟩ := chooseInstant_compatible name time timeZone h
  refine ⟨instant, hchosen, (lists.mem_iff instant).mp hmem, ?_⟩
  intro other hother
  exact hle other ((lists.mem_iff other).mpr hother)

end

theorem lists_wallTimeCandidates (regular : zone.Regular) (late : FIRST_DAY ≤ wall.date.dayNumber) :
    Lists zone wall (wallTimeCandidates wall.asUtc zone) :=
  ⟨nodup_wallTimeCandidates _ _, fun _ => mem_wallTimeCandidates regular late⟩

theorem chooseInstant_resolves (regular : zone.Regular) (late : FIRST_DAY ≤ wall.date.dayNumber)
    (name time timeZone : String) :
    Resolves zone wall (fun kind => .wallTime kind name time timeZone)
      (chooseInstant name time timeZone .compatible wall.asUtc zone)
      (chooseInstant name time timeZone .reject wall.asUtc zone) := by
  have lists := lists_wallTimeCandidates regular late
  have hgap : zone.instantsOf wall = ∅ ↔ ∃ change, Skips zone.offsetMs change wall.asUtc :=
    regular.shifts.not_shown_iff
  cases hlist : wallTimeCandidates wall.asUtc zone with
  | nil =>
      rw [hlist] at lists
      have hempty := lists.empty
      obtain ⟨hcompatible, hreject⟩ := chooseInstant_none name time timeZone hlist
      have hoffset := offsetMsAt_near regular late (wall.asUtc - DAY_MS) le_rfl
      rw [hcompatible, hreject, hoffset]
      exact {
        earliest := fun h => absurd hempty h.ne_empty
        gap_iff := hgap
        gap := fun change h => by rw [regular.shifts.offset_before_gap h]
        refused_iff := by simp [hempty]
        single := fun instant h => absurd (hempty.symm.trans h) (Set.singleton_ne_empty _).symm
        skipped := fun _ => rfl
        repeated := fun h => absurd hempty h.nonempty.ne_empty }
  | cons first rest =>
      rw [hlist] at lists
      have hearliest := lists.earliest name time timeZone hlist
      have hshown : zone.instantsOf wall ≠ ∅ := by
        have hmem := (lists.mem_iff first).mp List.mem_cons_self
        exact Set.Nonempty.ne_empty ⟨first, hmem⟩
      have hnoGap (change : Int) (h : Skips zone.offsetMs change wall.asUtc) :
          chooseInstant name time timeZone .compatible wall.asUtc zone =
            .ok (wall.asUtc - zone.offsetMs (change - 1)) :=
        absurd (hgap.mpr ⟨change, h⟩) hshown
      cases rest with
      | nil =>
          have hsingle := lists.single
          rw [chooseInstant_one name time timeZone hlist]
          exact {
            earliest := fun _ => hearliest
            gap_iff := hgap
            gap := hnoGap
            refused_iff := by simp [hsingle]
            single := fun instant h => by rw [Set.singleton_injective (hsingle.symm.trans h)]
            skipped := fun h => absurd h hshown
            repeated := fun h => absurd hsingle h.ne_singleton }
      | cons second rest =>
          have hmany := lists.nontrivial
          rw [chooseInstant_more name time timeZone hlist]
          exact {
            earliest := fun _ => hearliest
            gap_iff := hgap
            gap := hnoGap
            refused_iff := by
              simp only [Except.error.injEq, exists_eq', true_iff]
              intro hunique
              exact hmany.not_subsingleton
                (fun a ha b hb => hunique.unique ha hb)
            single := fun instant h => absurd h hmany.ne_singleton
            skipped := fun h => absurd h hshown
            repeated := fun _ => rfl }

/-- The wall times of such a zone resolve in both modes as they are documented. -/
theorem wallTimes_resolve {intl : String → Option Formatter} {timeZone : String}
    {formatter : Formatter} (valid : isValidTimeZone intl timeZone = true)
    (known : intl timeZone = some formatter) (regular : formatter.zone.Regular)
    (wall : WallTime) (late : FIRST_DAY ≤ wall.date.dayNumber) (time : String)
    (htime : wall.IsTime time) :
    Resolves formatter.zone wall (fun kind => .wallTime kind (key wall.date) time timeZone)
      (zonedWallTimeToInstant intl (key wall.date) time timeZone .compatible)
      (zonedWallTimeToInstant intl (key wall.date) time timeZone .reject) := by
  rw [zonedWallTimeToInstant_wall valid known htime, zonedWallTimeToInstant_wall valid known htime]
  exact chooseInstant_resolves regular late (key wall.date) time timeZone

/-! ## Zones with one change -/

/-- A zone whose offset changes once. -/
def switching (change before after : Int) (hbefore : -DAY_MS < before ∧ before < DAY_MS)
    (hafter : -DAY_MS < after ∧ after < DAY_MS) : Zone where
  offsetMs ms := if ms < change then before else after
  within_day ms := by
    split
    · exact hbefore
    · exact hafter

theorem switching_apart {change before after : Int} {hbefore : -DAY_MS < before ∧ before < DAY_MS}
    {hafter : -DAY_MS < after ∧ after < DAY_MS} (a b : Int)
    (ha : Changes (switching change before after hbefore hafter).offsetMs a)
    (hb : Changes (switching change before after hbefore hafter).offsetMs b) (hlt : a < b) :
    a + 2 * DAY_MS ≤ b := by
  have hat (t : Int) (h : Changes (switching change before after hbefore hafter).offsetMs t) :
      t = change := by
    unfold Changes switching at h
    dsimp only at h
    split at h <;> split at h <;> omega
  have := hat a ha
  have := hat b hb
  omega

/-- One zone for every name. -/
def intlOf (zone : Zone) (timeZone : String) : Option Formatter := some ⟨timeZone, zone⟩

/-- Berlin around the spring of 2026: an hour ahead, then two. -/
def berlinSpring : Zone :=
  switching 1774746000000 3600000 7200000 (by decide) (by decide)

theorem berlinSpring_regular : berlinSpring.Regular where
  whole_seconds ms := by
    unfold berlinSpring switching
    dsimp only
    split <;> decide
  apart := switching_apart

/-- The wall time of a calendar day and a time of day, none where there is no such. -/
def wallTime? (year : Int) (month day hour minute second : Nat) : Option WallTime :=
  if h : (1 ≤ month ∧ month ≤ 12 ∧ 1 ≤ day ∧ day ≤ daysInMonth year month) ∧
      (100 ≤ year ∧ year ≤ 9999) ∧ hour < 24 ∧ minute < 60 ∧ second < 60 then
    some {
      date := ⟨year, month, day, h.1.1, h.1.2.1, h.1.2.2.1, h.1.2.2.2⟩
      hour, minute, second
      written := h.2.1
      hour_lt := h.2.2.1
      minute_lt := h.2.2.2.1
      second_lt := h.2.2.2.2 }
  else none

def halfPastTwo : WallTime := (wallTime? 2026 3 29 2 30 0).get rfl

theorem wallTimes_resolve_berlinSpring :
    Resolves berlinSpring halfPastTwo
      (fun kind => .wallTime kind (key halfPastTwo.date) "02:30" "Europe/Berlin")
      (zonedWallTimeToInstant (intlOf berlinSpring) (key halfPastTwo.date) "02:30" "Europe/Berlin"
        .compatible)
      (zonedWallTimeToInstant (intlOf berlinSpring) (key halfPastTwo.date) "02:30" "Europe/Berlin"
        .reject) :=
  have hvalid : isValidTimeZone (intlOf berlinSpring) "Europe/Berlin" = true ∧
      FIRST_DAY ≤ halfPastTwo.date.dayNumber ∧ halfPastTwo.IsTime "02:30" := by
    unfold WallTime.IsTime
    decide +kernel
  wallTimes_resolve hvalid.1 rfl berlinSpring_regular halfPastTwo hvalid.2.1 "02:30" hvalid.2.2

/-- A zone that moves from a minute under a day behind UTC to UTC, at the end of
2 January 100. -/
def lateStart : Zone :=
  switching (-59011286460000) (-86340000) 0 (by decide) (by decide)

def endOfSecondDay : WallTime := (wallTime? 100 1 2 23 58 0).get rfl

/-- A clock that is half a second fast. -/
def halfSecond : Zone where
  offsetMs _ := 500
  within_day _ := by decide

def epoch : WallTime := (wallTime? 1970 1 1 0 0 0).get rfl

/-- Both clocks at the wall times, and what the resolution makes of these. -/
theorem misread_readings :
    (Skips lateStart.offsetMs (-59011286460000) endOfSecondDay.asUtc ∧
      zonedWallTimeToInstant (intlOf lateStart) (key endOfSecondDay.date) "23:58" "Africa/Lagos"
        .compatible ≠ .ok (endOfSecondDay.asUtc - lateStart.offsetMs (-59011286460000 - 1))) ∧
      epoch.asUtc = 0 ∧
      zonedWallTimeToInstant (intlOf halfSecond) (key epoch.date) "00:00" "Africa/Lagos" .reject ≠
        .ok (-500) := by
  unfold Skips
  decide +kernel

theorem halfSecond_shows : halfSecond.instantsOf epoch = {-500} := by
  ext instant
  unfold Zone.instantsOf
  rw [mem_shownAt, misread_readings.2.1]
  change instant + 500 = 0 ↔ instant = -500
  omega

/-- The probes misread a year before 100, and an offset that is no whole second. -/
theorem wallTimes_misread :
    (∀ a b, Changes lateStart.offsetMs a → Changes lateStart.offsetMs b → a < b →
        a + 2 * DAY_MS ≤ b) ∧
      ¬ Resolves lateStart endOfSecondDay
        (fun kind => .wallTime kind (key endOfSecondDay.date) "23:58" "Africa/Lagos")
        (zonedWallTimeToInstant (intlOf lateStart) (key endOfSecondDay.date) "23:58" "Africa/Lagos"
          .compatible)
        (zonedWallTimeToInstant (intlOf lateStart) (key endOfSecondDay.date) "23:58" "Africa/Lagos"
          .reject) ∧
      (∀ a b, Changes halfSecond.offsetMs a → Changes halfSecond.offsetMs b → a < b →
        a + 2 * DAY_MS ≤ b) ∧
      ¬ Resolves halfSecond epoch
        (fun kind => .wallTime kind (key epoch.date) "00:00" "Africa/Lagos")
        (zonedWallTimeToInstant (intlOf halfSecond) (key epoch.date) "00:00" "Africa/Lagos"
          .compatible)
        (zonedWallTimeToInstant (intlOf halfSecond) (key epoch.date) "00:00" "Africa/Lagos"
          .reject) := by
  refine ⟨switching_apart, ?_, fun a b ha => absurd rfl ha, ?_⟩
  · intro h
    exact misread_readings.1.2 (h.gap _ misread_readings.1.1)
  · intro h
    exact misread_readings.2.2 (h.single (-500) halfSecond_shows)

end Sinnlos.Domain

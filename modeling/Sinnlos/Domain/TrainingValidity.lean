import Mathlib.Data.String.Basic
import Sinnlos.Domain.TrainingReceipts

/-!
# Validity only improves with receipts

A receipt more keeps what counted and moves no due day earlier, for a lesson
and for a course of which every lesson has a completion instant. Only a receipt
that falls due after the year 9999 has no due day to answer with.
-/

namespace Sinnlos.Domain

open Calendar

/-- The day a receipt is due again. -/
def dueDay (zone : Zone) (months : Nat) (instant : Instant) : Date :=
  (zone.dayAt instant.epochMs).addMonths months

/-- The receipt falls due on a day that has no key. -/
def IsLate (zone : Zone) (validityMonths : Option Nat) (completedAt : Option String) : Prop :=
  ∃ instant : Instant, completedAt = some instant.toISOString ∧
    9999 < (dueDay zone (validityMonths.getD 0) instant).year

variable {zone : Zone} {a b : Instant}

theorem dueDay_le (hzone : zone.NeverBackwards) (months : Nat) (h : a.epochMs ≤ b.epochMs) :
    (dueDay zone months a).dayNumber ≤ (dueDay zone months b).dayNumber := by
  unfold dueDay
  exact Date.addMonths_le months (hzone a.epochMs b.epochMs h)

theorem year_le_addMonths (date : Date) (months : Nat) :
    date.year ≤ (date.addMonths months).year := by
  have hpos := date.month_pos
  change date.year ≤ (date.monthNumber + months) / 12
  unfold Date.monthNumber
  omega

/-- The later of two receipts has days with keys if the earlier one has, unless
it is too late. -/
theorem isWritten_later (hzone : zone.NeverBackwards) {months : Nat} (h : a.epochMs ≤ b.epochMs)
    (hday : IsWritten (zone.dayAt a.epochMs)) (hlate : ¬9999 < (dueDay zone months b).year) :
    IsWritten (zone.dayAt b.epochMs) ∧ IsWritten (dueDay zone months b) := by
  have hyear := Date.year_le_of_dayNumber_le (hzone a.epochMs b.epochMs h)
  have hdue := year_le_addMonths (zone.dayAt b.epochMs) months
  have hfirst := hday.1
  unfold dueDay at hlate ⊢
  unfold IsWritten
  omega

section

variable {dateParse : String → Option Int}

/-! ## One lesson -/

theorem toISOString_ne_empty (hread : ReadsCanonical dateParse) (instant : Instant) :
    instant.toISOString ≠ "" := by
  intro hempty
  have hms := instantEpochMs_canonical hread instant
  rw [hempty] at hms
  cases hms

variable {instant : Instant} {months : Nat} {todayKey : String} {zone : Zone}
  {state : LessonReceiptState} {validityMonths : Option Nat} {day : String}
  {known : Option (Option String)} {completedAt : Option String}

/-- A canonical receipt of a course that expires, when its days are told. -/
theorem lessonReceiptState_ok (hread : ReadsCanonical dateParse) {due : String} {days : Int}
    (hday : zonedDateKey dateParse instant.toISOString zone = .ok day)
    (hdue : addMonthsToKey day (months + 1) = .ok due)
    (hdays : daysBetweenKeys todayKey due = .ok days) :
    lessonReceiptState dateParse (some instant.toISOString) true (some (months + 1)) todayKey zone =
      .ok {
        counts := todayKey < due
        mayComplete := days ≤ RENEWAL_WINDOW_DAYS
        dueKey := some due } := by
  have hreadable : ¬(instant.toISOString = "" ∨
      instantEpochMs dateParse instant.toISOString = none) := by
    rw [instantEpochMs_canonical hread]
    simp [toISOString_ne_empty hread instant]
  simp only [lessonReceiptState, Bool.not_true, Bool.false_eq_true, if_false, if_neg hreadable,
    receiptDueKey, hday, hdue, hdays, bind, Except.bind, pure, Except.pure, Option.getD_some]

/-- Its days are told whenever there is an answer. -/
theorem days_of_lessonReceiptState (hread : ReadsCanonical dateParse)
    (hday : zonedDateKey dateParse instant.toISOString zone = .ok day)
    (h : lessonReceiptState dateParse (some instant.toISOString) true (some (months + 1)) todayKey
      zone = .ok state) :
    ∃ due days, addMonthsToKey day (months + 1) = .ok due ∧
      daysBetweenKeys todayKey due = .ok days := by
  have hreadable : ¬(instant.toISOString = "" ∨
      instantEpochMs dateParse instant.toISOString = none) := by
    rw [instantEpochMs_canonical hread]
    simp [toISOString_ne_empty hread instant]
  simp only [lessonReceiptState, Bool.not_true, Bool.false_eq_true, if_false, if_neg hreadable,
    receiptDueKey, hday, bind, Except.bind, pure, Except.pure] at h
  cases hdue : addMonthsToKey day (months + 1) with
  | error e =>
      simp only [hdue] at h
      cases h
  | ok due =>
      simp only [hdue, Option.getD_some] at h
      cases hdays : daysBetweenKeys todayKey due with
      | error e =>
          simp only [hdays] at h
          cases h
      | ok days => exact ⟨due, days, rfl, hdays⟩

/-- The state of a lesson from its days. -/
def stateOfDays (today due : Date) : LessonReceiptState :=
  { counts := today.dayNumber < due.dayNumber
    mayComplete := due.dayNumber - today.dayNumber ≤ RENEWAL_WINDOW_DAYS
    dueKey := some (key due) }

theorem lessonReceiptState_of_written (hread : ReadsCanonical dateParse) {today : Date}
    (htoday : IsWritten today) (hday : IsWritten (zone.dayAt instant.epochMs))
    (hdue : IsWritten (dueDay zone (months + 1) instant)) :
    lessonReceiptState dateParse (some instant.toISOString) true (some (months + 1)) (key today)
      zone = .ok (stateOfDays today (dueDay zone (months + 1) instant)) := by
  obtain ⟨text, htext, hkey, -⟩ := zonedDateKey_canonical hread zone instant
  rw [hkey hday] at htext
  have hadd : addMonthsToKey (key (zone.dayAt instant.epochMs)) (months + 1) =
      .ok (key (dueDay zone (months + 1) instant)) := addMonthsToKey_key hday (months + 1)
  rw [lessonReceiptState_ok hread htext hadd (daysBetweenKeys_key htoday hdue), stateOfDays]
  simp only [key_lt_iff htoday hdue]

/-- A lesson whose receipt has a due day: all its days have keys. -/
theorem written_of_state (hread : ReadsCanonical dateParse)
    (h : lessonReceiptState dateParse (some instant.toISOString) true (some (months + 1)) todayKey
      zone = .ok state) :
    IsWritten (zone.dayAt instant.epochMs) ∧ IsWritten (dueDay zone (months + 1) instant) ∧
      ∃ today, IsWritten today ∧ todayKey = key today ∧
        state = stateOfDays today (dueDay zone (months + 1) instant) := by
  obtain ⟨text, htext, hkey, hunwritten⟩ := zonedDateKey_canonical hread zone instant
  obtain ⟨due, days, hadd, hdays⟩ := days_of_lessonReceiptState hread htext h
  have hday : IsWritten (zone.dayAt instant.epochMs) := by
    by_contra hnot
    rw [addMonthsToKey_error (hunwritten hnot)] at hadd
    cases hadd
  have hmonths := addMonthsToKey_key hday (months + 1)
  rw [Nat.cast_succ] at hmonths
  rw [hkey hday, hmonths] at hadd
  have hdueKey : due = key (dueDay zone (months + 1) instant) := (Except.ok.inj hadd).symm
  have hplain := plain_of_daysBetweenKeys hdays
  have hdue : IsWritten (dueDay zone (months + 1) instant) := by
    by_contra hnot
    have hearly := hday.1
    have hlater := year_le_addMonths (zone.dayAt instant.epochMs) (months + 1)
    have hlong : 9999 < (dueDay zone (months + 1) instant).year := by
      unfold IsWritten dueDay at hnot
      unfold dueDay
      omega
    rw [hdueKey, key, isPlainDate_late _ _ hlong] at hplain
    cases hplain.2
  obtain ⟨today, htoday, htodayKey⟩ := key_of_isPlainDate hplain.1
  rw [htodayKey, lessonReceiptState_of_written hread htoday hday hdue] at h
  exact ⟨hday, hdue, today, htoday, htodayKey, (Except.ok.inj h).symm⟩

/-- What is known of a lesson, judged today. -/
def knownState (dateParse : String → Option Int) (known : Option (Option String))
    (validityMonths : Option Nat) (todayKey : String) (zone : Zone) :
    Except RangeError LessonReceiptState :=
  lessonReceiptState dateParse known.join known.isSome validityMonths todayKey zone

/-- No due day became an earlier one, and none came or went. -/
def DueLe : Option String → Option String → Prop
  | none, none => True
  | some before, some after => before ≤ after
  | _, _ => False

/-- A due day that is told is a calendar date. -/
def Told (todayKey : String) (dueKey : Option String) : Prop :=
  ∀ due, dueKey = some due → isPlainDate due = true ∧ isPlainDate todayKey = true

/-- A lesson that counts or has a due day. -/
def IsDone (state : LessonReceiptState) : Prop := state.counts = true ∨ state.dueKey ≠ none

/-- A course that does not expire counts every receipt. -/
theorem knownState_unlimited (h : validityMonths.getD 0 = 0) (kept : Option String)
    (todayKey : String) (zone : Zone) :
    knownState dateParse (some kept) validityMonths todayKey zone =
      .ok { counts := true, mayComplete := false, dueKey := none } := by
  cases validityMonths with
  | none => rfl
  | some months =>
      have hzero : months = 0 := h
      rw [hzero]
      rfl

theorem told_state (hread : ReadsCanonical dateParse)
    (hknown : ∀ kept, known = some kept → IsCanonical kept)
    (h : knownState dateParse known validityMonths todayKey zone = .ok state) :
    Told todayKey state.dueKey := by
  intro due hdue
  cases known with
  | none =>
      have hnever : ({ counts := false, mayComplete := true, dueKey := none } :
          LessonReceiptState) = state := Except.ok.inj h
      rw [← hnever] at hdue
      cases hdue
  | some kept =>
      match validityMonths with
      | none | some 0 =>
          rw [knownState_unlimited rfl] at h
          rw [← Except.ok.inj h] at hdue
          cases hdue
      | some (months + 1) =>
          cases kept with
          | none =>
              have hnever : ({ counts := false, mayComplete := true, dueKey := none } :
                  LessonReceiptState) = state := Except.ok.inj h
              rw [← hnever] at hdue
              cases hdue
          | some text =>
              obtain ⟨instant, rfl⟩ := hknown (some text) rfl text rfl
              obtain ⟨_, hwritten, today, htoday, rfl, rfl⟩ := written_of_state hread h
              have hkey : key (dueDay zone (months + 1) instant) = due := Option.some.inj hdue
              rw [← hkey]
              exact ⟨isPlainDate_key hwritten, isPlainDate_key htoday⟩

/-- The receipt kept after one more is not earlier than the one before. -/
theorem keepNewest_later (hread : ReadsCanonical dateParse) (instant : Instant)
    (hcanonical : IsCanonical completedAt) :
    ∃ later : Instant, instant.epochMs ≤ later.epochMs ∧
      keepNewest dateParse (some instant.toISOString) completedAt = some later.toISOString ∧
      (later = instant ∨ completedAt = some later.toISOString) := by
  cases completedAt with
  | none => exact ⟨instant, le_rfl, rfl, Or.inl rfl⟩
  | some text =>
      obtain ⟨other, rfl⟩ := hcanonical text rfl
      simp only [keepNewest, epochMsOrZero_canonical hread]
      by_cases hnewer : other.epochMs > instant.epochMs
      · exact ⟨other, by omega, if_pos hnewer, Or.inr rfl⟩
      · exact ⟨instant, le_rfl, if_neg hnewer, Or.inl rfl⟩

/-- A receipt more keeps a lesson that counts, and moves its due day forward if
at all. -/
theorem knownState_improves (hread : ReadsCanonical dateParse) (hzone : zone.NeverBackwards)
    (hknown : ∀ kept, known = some kept → IsCanonical kept) (hcanonical : IsCanonical completedAt)
    (h : knownState dateParse known validityMonths todayKey zone = .ok state)
    (hdone : IsDone state) :
    (∃ after, knownState dateParse (seen dateParse known completedAt) validityMonths todayKey zone =
        .ok after ∧ (state.counts = true → after.counts = true) ∧
        DueLe state.dueKey after.dueKey) ∨
      (IsLate zone validityMonths completedAt ∧ ∃ e,
        knownState dateParse (seen dateParse known completedAt) validityMonths todayKey zone =
          .error e) := by
  cases known with
  | none =>
      rw [← Except.ok.inj h] at hdone
      obtain hcounts | hdue := hdone
      · cases hcounts
      · exact absurd rfl hdue
  | some kept =>
      match validityMonths with
      | none | some 0 =>
          rw [knownState_unlimited rfl] at h
          rw [← Except.ok.inj h]
          exact Or.inl ⟨_, knownState_unlimited rfl _ todayKey zone, fun _ => rfl, trivial⟩
      | some (months + 1) =>
          cases kept with
          | none =>
              rw [← Except.ok.inj h] at hdone
              obtain hcounts | hdue := hdone
              · cases hcounts
              · exact absurd rfl hdue
          | some text =>
              obtain ⟨instant, rfl⟩ := hknown (some text) rfl text rfl
              obtain ⟨hday, hdue, today, htoday, htodayKey, rfl⟩ := written_of_state hread h
              obtain ⟨later, hle, hkept, hsource⟩ := keepNewest_later hread instant hcanonical
              have hdueLe := dueDay_le hzone (months + 1) hle
              have hafter : knownState dateParse (seen dateParse (some (some instant.toISOString))
                  completedAt) (some (months + 1)) todayKey zone =
                  lessonReceiptState dateParse (some later.toISOString) true (some (months + 1))
                    todayKey zone := by
                rw [seen, hkept]
                rfl
              rw [hafter]
              by_cases hlate : 9999 < (dueDay zone (months + 1) later).year
              · right
                constructor
                · obtain rfl | hrow := hsource
                  · exact absurd hdue.2 (by omega)
                  · exact ⟨later, hrow, hlate⟩
                · cases hstate : lessonReceiptState dateParse (some later.toISOString) true
                    (some (months + 1)) todayKey zone with
                  | error e => exact ⟨e, rfl⟩
                  | ok after =>
                      have hwritten := (written_of_state hread hstate).2.1
                      exact absurd hwritten.2 (by omega)
              · left
                have hlater := isWritten_later hzone hle hday hlate
                rw [htodayKey, lessonReceiptState_of_written hread htoday hlater.1 hlater.2]
                refine ⟨_, rfl, ?_, ?_⟩
                · intro hcounts
                  have hbefore := of_decide_eq_true hcounts
                  apply decide_eq_true
                  omega
                · change key _ ≤ key _
                  rw [← not_lt, key_lt_iff hlater.2 hdue]
                  omega

end

end Sinnlos.Domain

import Mathlib

/-!
# Clocks that are shifted

A clock runs ahead of a steady time by an offset that stays below a span, and two
changes of the offset lie two spans or more apart. A reading is then shown at most
twice, and the offsets a span before it and a span after it give every time at
which it is shown.
-/

namespace Sinnlos.ShiftedClock

variable {offset : Int → Int} {span wall t change : Int}

/-- The times at which a clock shows a reading. -/
def shownAt (offset : Int → Int) (wall : Int) : Set Int := {t | t + offset t = wall}

def Changes (offset : Int → Int) (t : Int) : Prop := offset (t - 1) ≠ offset t

structure Regular (offset : Int → Int) (span : Int) : Prop where
  within : ∀ t, -span < offset t ∧ offset t < span
  apart : ∀ a b, Changes offset a → Changes offset b → a < b → a + 2 * span ≤ b

/-- A reading that a change of the offset passes over. -/
def Skips (offset : Int → Int) (change wall : Int) : Prop :=
  change + offset (change - 1) ≤ wall ∧ wall < change + offset change

/-- Two readings of the offset around a time, and nothing else in between. -/
structure Window (offset : Int → Int) (span wall change : Int) : Prop where
  after : wall - span < change
  before : change ≤ wall + span
  old : ∀ t, wall - span ≤ t → t < change → offset t = offset (wall - span)
  new : ∀ t, change ≤ t → t ≤ wall + span → offset t = offset (wall + span)

theorem offset_eq_of_unchanged {a b : Int} (hle : a ≤ b)
    (h : ∀ t, a < t → t ≤ b → ¬ Changes offset t) : offset a = offset b := by
  induction b, hle using Int.leInduction with
  | base => rfl
  | succ b hab ih =>
      have hback := ih fun t hlt hle => h t hlt (by omega)
      have hlast := h (b + 1) (by omega) (by omega)
      unfold Changes at hlast
      rw [not_not, add_sub_cancel_right] at hlast
      exact hback.trans hlast

theorem mem_shownAt : t ∈ shownAt offset wall ↔ t + offset t = wall := Iff.rfl

namespace Regular

theorem span_pos (regular : Regular offset span) : 0 < span := by
  have hwithin := regular.within 0
  omega

/-- A reading is shown less than a span away from it. -/
theorem near (regular : Regular offset span) (h : t ∈ shownAt offset wall) :
    wall - span < t ∧ t < wall + span := by
  have hwithin := regular.within t
  rw [mem_shownAt] at h
  omega

/-- Around a change there is no other one. -/
theorem window_of_changes (regular : Regular offset span) (h : Changes offset change)
    (hafter : wall - span < change) (hbefore : change ≤ wall + span) :
    Window offset span wall change where
  after := hafter
  before := hbefore
  old t hfrom hto := by
    symm
    apply offset_eq_of_unchanged hfrom
    intro s hs hst hchanges
    have hapart := regular.apart s change hchanges h (by omega)
    omega
  new t hfrom hto := by
    apply offset_eq_of_unchanged hto
    intro s hs hst hchanges
    have hapart := regular.apart change s h hchanges (by omega)
    omega

/-- Every reading has a window; without a change in it the window is all new. -/
theorem exists_window (regular : Regular offset span) (wall : Int) :
    ∃ change, Window offset span wall change := by
  have hpos := regular.span_pos
  by_cases hany : ∃ t, wall - span < t ∧ t ≤ wall + span ∧ Changes offset t
  · obtain ⟨change, hafter, hbefore, hchanges⟩ := hany
    exact ⟨change, regular.window_of_changes hchanges hafter hbefore⟩
  · have hnone (a b : Int) (hfrom : wall - span ≤ a) (hle : a ≤ b) (hto : b ≤ wall + span) :
        offset a = offset b := by
      apply offset_eq_of_unchanged hle
      intro s hs hsb hchanges
      exact hany ⟨s, by omega, by omega, hchanges⟩
    refine ⟨wall + span, by omega, by omega, ?_, ?_⟩
    · intro t hfrom hto
      exact (hnone _ t le_rfl hfrom (by omega)).symm
    · intro t hfrom hto
      exact hnone t _ (by omega) hto le_rfl

/-- A skipped reading lies in the window of its change. -/
theorem window_of_skips (regular : Regular offset span) (h : Skips offset change wall) :
    Window offset span wall change := by
  have hold := regular.within (change - 1)
  have hnew := regular.within change
  obtain ⟨hlow, hhigh⟩ := h
  apply regular.window_of_changes
  · unfold Changes
    omega
  · omega
  · omega

end Regular

namespace Window

variable (window : Window offset span wall change)
include window

/-- The offset from which a reading skips is the one a span before it. -/
theorem offset_pred : offset (change - 1) = offset (wall - span) := by
  have hafter := window.after
  exact window.old _ (by omega) (by omega)

theorem offset_change : offset change = offset (wall + span) := by
  have hbefore := window.before
  exact window.new _ le_rfl hbefore

theorem skips_iff : Skips offset change wall ↔
    change ≤ wall - offset (wall - span) ∧ wall - offset (wall + span) < change := by
  have hold := window.offset_pred
  have hnew := window.offset_change
  unfold Skips
  rw [hold, hnew]
  omega

variable (regular : Regular offset span)
include regular

/-- The two probes give every time at which the reading is shown. -/
theorem shown_iff : t ∈ shownAt offset wall ↔
    t = wall - offset (wall - span) ∧ t < change ∨
      t = wall - offset (wall + span) ∧ change ≤ t := by
  have hafter := window.after
  have hbefore := window.before
  rw [mem_shownAt]
  constructor
  · intro h
    have hnear := regular.near h
    by_cases hlt : t < change
    · have hold := window.old t (by omega) hlt
      exact Or.inl ⟨by omega, hlt⟩
    · have hnew := window.new t (by omega) (by omega)
      exact Or.inr ⟨by omega, by omega⟩
  · intro h
    have hfirst := regular.within (wall - span)
    have hlast := regular.within (wall + span)
    cases h with
    | inl h =>
        have hold := window.old t (by omega) h.2
        omega
    | inr h =>
        have hnew := window.new t h.2 (by omega)
        omega

/-- A reading is skipped or shown. -/
theorem not_shown_iff : shownAt offset wall = ∅ ↔ Skips offset change wall := by
  rw [window.skips_iff, Set.eq_empty_iff_forall_notMem]
  constructor
  · intro h
    have hfirst := h (wall - offset (wall - span))
    have hlast := h (wall - offset (wall + span))
    rw [window.shown_iff regular] at hfirst hlast
    omega
  · intro h t
    rw [window.shown_iff regular]
    omega

end Window

namespace Regular

variable (regular : Regular offset span)
include regular

/-- A time at which the reading is shown is one of two. -/
theorem shown_candidate (h : t ∈ shownAt offset wall) :
    t = wall - offset (wall - span) ∨ t = wall - offset (wall + span) := by
  obtain ⟨change, window⟩ := regular.exists_window wall
  exact ((window.shown_iff regular).mp h).imp And.left And.left

theorem not_shown_iff : shownAt offset wall = ∅ ↔ ∃ change, Skips offset change wall := by
  constructor
  · intro h
    obtain ⟨change, window⟩ := regular.exists_window wall
    exact ⟨change, (window.not_shown_iff regular).mp h⟩
  · intro h
    obtain ⟨change, hskips⟩ := h
    have window := regular.window_of_skips hskips
    exact (window.not_shown_iff regular).mpr hskips

/-- The offset before a gap is the one a span before the reading. -/
theorem offset_before_gap (h : Skips offset change wall) :
    offset (change - 1) = offset (wall - span) :=
  (regular.window_of_skips h).offset_pred

end Regular

/-! ## Readings that a clock passes once -/

/-- A change between whose two readings a reading lies. -/
def Jumps (offset : Int → Int) (change wall : Int) : Prop :=
  change + offset (change - 1) < wall ∧ wall < change + offset change ∨
    change + offset change < wall ∧ wall < change + offset (change - 1)

/-- The time at which a reading is first shown, or its gap on the old clock. -/
structure Opens (offset : Int → Int) (wall start : Int) : Prop where
  least : (shownAt offset wall).Nonempty → IsLeast (shownAt offset wall) start
  gap : ∀ change, Skips offset change wall → start = wall - offset (change - 1)

theorem Jumps.changes (h : Jumps offset change wall) : Changes offset change := by
  unfold Jumps at h
  unfold Changes
  omega

/-- A gap that begins before a reading opens it too late. -/
theorem Opens.late {start : Int} (opens : Opens offset wall start)
    (h : change + offset (change - 1) < wall ∧ wall < change + offset change) : change < start := by
  have hstart := opens.gap change ⟨Int.le_of_lt h.1, h.2⟩
  omega

namespace Regular

variable (regular : Regular offset span)
include regular

/-- The offset from a change on. -/
theorem offset_after (h : Changes offset change) (hle : change ≤ t) (hlt : t < change + 2 * span) :
    offset t = offset change := by
  symm
  apply offset_eq_of_unchanged hle
  intro s hs hst hchanges
  have hapart := regular.apart change s h hchanges hs
  omega

theorem offset_before (h : Changes offset change) (hle : change - 2 * span ≤ t)
    (hlt : t < change) : offset t = offset (change - 1) := by
  apply offset_eq_of_unchanged (by omega)
  intro s hs hst hchanges
  have hapart := regular.apart s change hchanges h (by omega)
  omega

/-- A clock never shows less than at a change after it. -/
theorem reading_after (h : Changes offset change) (hle : change ≤ t) :
    change + offset change ≤ t + offset t := by
  have hchange := regular.within change
  have hthen := regular.within t
  by_cases hlt : t < change + 2 * span
  · have hsame := regular.offset_after h hle hlt
    omega
  · omega

theorem reading_before (h : Changes offset change) (hlt : t < change) :
    t + offset t < change + offset (change - 1) := by
  have hchange := regular.within (change - 1)
  have hthen := regular.within t
  by_cases hle : change - 2 * span ≤ t
  · have hsame := regular.offset_before h hle hlt
    omega
  · omega

variable {start : Int}

/-- A reading that no change jumps over is passed once, at its opening. -/
theorem passed_once (opens : Opens offset wall start) (h : ∀ change, ¬ Jumps offset change wall)
    (t : Int) : wall ≤ t + offset t ↔ start ≤ t := by
  obtain ⟨change, window⟩ := regular.exists_window wall
  have hnot := h change
  unfold Jumps at hnot
  rw [window.offset_pred, window.offset_change] at hnot
  have hafter := window.after
  have hbefore := window.before
  have hfirst := regular.within (wall - span)
  have hlast := regular.within (wall + span)
  have hnow := regular.within t
  have hold : wall - span ≤ t → t < change → offset t = offset (wall - span) := window.old t
  have hnew : change ≤ t → t ≤ wall + span → offset t = offset (wall + span) := window.new t
  by_cases hshown : (shownAt offset wall).Nonempty
  · obtain ⟨hmem, hle⟩ := opens.least hshown
    rw [window.shown_iff regular] at hmem
    by_cases hold' : wall - offset (wall - span) < change
    · -- shown before the change, and the change does not take the clock back past it
      have hearly : wall - offset (wall - span) ∈ shownAt offset wall :=
        (window.shown_iff regular).mpr (Or.inl ⟨rfl, hold'⟩)
      have hstart := hle hearly
      omega
    · omega
  · have hempty : shownAt offset wall = ∅ := Set.not_nonempty_iff_eq_empty.mp hshown
    have hskips := (window.not_shown_iff regular).mp hempty
    have hstart := opens.gap change hskips
    rw [window.offset_pred] at hstart
    rw [window.skips_iff] at hskips
    omega

/-- A clock that is set back past a reading opens it before the change. -/
theorem opens_early (opens : Opens offset wall start)
    (h : change + offset change < wall ∧ wall < change + offset (change - 1)) : start < change := by
  have hjumps : Jumps offset change wall := Or.inr h
  have hchanges := hjumps.changes
  have hnow := regular.within change
  have hthen := regular.within (change - 1)
  have hsame := regular.offset_before (t := wall - offset (change - 1)) hchanges (by omega)
    (by omega)
  have hmem : wall - offset (change - 1) ∈ shownAt offset wall := by
    rw [mem_shownAt, hsame]
    omega
  have hle := (opens.least ⟨_, hmem⟩).2 hmem
  omega

end Regular

/-- The times at which the clock shows readings of a range. -/
def shownWithin (offset : Int → Int) (low high : Int) : Set Int :=
  {t | low ≤ t + offset t ∧ t + offset t < high}

/-- The times of a range are those between the openings of its ends, the first one
included, exactly when no change jumps over an end. -/
theorem Regular.window_iff (regular : Regular offset span) {low high first last : Int}
    (hlow : Opens offset low first) (hhigh : Opens offset high last) (hlt : low < high)
    (hne : (shownWithin offset low high).Nonempty) :
    (IsLeast (shownWithin offset low high) first ∧
        shownWithin offset low high = Set.Ico first last) ↔
      ∀ change, ¬ Jumps offset change low ∧ ¬ Jumps offset change high := by
  obtain ⟨t₀, hfrom, hto⟩ := hne
  constructor
  · intro h change
    obtain ⟨hleast, hwindow⟩ := h
    have hmem (t : Int) : (low ≤ t + offset t ∧ t + offset t < high) ↔ first ≤ t ∧ t < last := by
      have := Set.ext_iff.mp hwindow t
      exact this
    have hinside := (hmem t₀).mp ⟨hfrom, hto⟩
    constructor
    · intro hjumps
      have hchanges := hjumps.changes
      rcases hjumps with hgap | hback
      · -- the change itself shows a reading of the range
        have hlate := hlow.late hgap
        have hnot : ¬ t₀ < change := by
          intro hbefore
          have := regular.reading_before hchanges hbefore
          omega
        have hafter := regular.reading_after hchanges (Int.not_lt.mp hnot)
        have hchange := (hmem change).mp ⟨by omega, by omega⟩
        omega
      · have hearly := regular.opens_early hlow hback
        have hchange := mt (hmem change).mpr (by omega)
        have hnow := regular.within change
        have hthen := regular.within (change - 1)
        have hsame := regular.offset_after (t := low - offset change) hchanges (by omega) (by omega)
        have hagain := (hmem (low - offset change)).mp (by omega)
        omega
    · intro hjumps
      have hchanges := hjumps.changes
      rcases hjumps with hgap | hback
      · have hlate := hhigh.late hgap
        have hchange := mt (hmem change).mpr (by omega)
        have hafter := regular.reading_after (t := t₀) hchanges (by omega)
        omega
      · have hearly := regular.opens_early hhigh hback
        have hnow := regular.within change
        have hthen := regular.within (change - 1)
        have hsame := regular.offset_after (t := high - offset change - 1) hchanges (by omega)
          (by omega)
        have hagain := (hmem (high - offset change - 1)).mp (by omega)
        omega
  · intro h
    have hfirst := regular.passed_once hlow fun change => (h change).1
    have hlast := regular.passed_once hhigh fun change => (h change).2
    have hwindow : shownWithin offset low high = Set.Ico first last := by
      ext t
      have hbelow := hfirst t
      have habove := hlast t
      change (low ≤ t + offset t ∧ t + offset t < high) ↔ first ≤ t ∧ t < last
      omega
    refine ⟨?_, hwindow⟩
    rw [hwindow]
    have hstart := hfirst t₀
    have hstop := hlast t₀
    have hrange : first < last := by omega
    exact isLeast_Ico hrange

end Sinnlos.ShiftedClock

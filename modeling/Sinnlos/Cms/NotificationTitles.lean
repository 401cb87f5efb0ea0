import Mathlib.Algebra.Order.Ring.Int
import Sinnlos.Cms.Notifications

/-! # What a notification title keeps

A title fits its column whatever its parts are, it is the parts themselves where
they fit, and where the frame fits its values are cut to the largest common length.
-/

namespace Sinnlos.Cms.Notify

open Text (trim)

/-- The part with its value cut to `cap` characters and the ellipsis, where it is
longer; fixed text and fallbacks are never cut. -/
def TitlePart.shown (cap : Nat) : TitlePart → List Char
  | .text fixed => fixed.toList
  | .value given fallback =>
      let trimmed := trim (given.getD "")
      if trimmed = "" then fallback.toList
      else if cap < trimmed.toList.length then trimmed.toList.take cap ++ [ELLIPSIS]
      else trimmed.toList

def TitlePart.whole : TitlePart → List Char
  | .text fixed => fixed.toList
  | .value given fallback =>
      let trimmed := trim (given.getD "")
      if trimmed = "" then fallback.toList else trimmed.toList

/-- The fixed text, the fallbacks and one character per value. -/
def TitlePart.frameLength : TitlePart → Nat
  | .text fixed => fixed.toList.length
  | .value given fallback =>
      if trim (given.getD "") = "" then fallback.toList.length else 1

/-- A value of the parts is cut at `cap`. -/
def CutAt (parts : List TitlePart) (cap : Nat) : Prop :=
  ∃ part ∈ parts, part.shown cap ≠ part.whole

/-! ## The length at a cap -/

section Cap
variable {parts : List ResolvedPart} {max cap : Nat}

def ResolvedPart.shownLength (cap : Nat) (part : ResolvedPart) : Nat :=
  if part.shrinkable && cap < part.chars.length then cap + 1 else part.chars.length

theorem length_shown (cap : Nat) (part : ResolvedPart) :
    (part.shown cap).length = part.shownLength cap := by
  unfold ResolvedPart.shown ResolvedPart.shownLength
  split
  · next h =>
      have hlt : cap < part.chars.length := by simpa using (Bool.and_eq_true_iff.mp h).2
      simp only [List.length_append, List.length_take, List.length_singleton]
      omega
  · rfl

theorem lengthWithCap_eq (parts : List ResolvedPart) (cap : Nat) :
    lengthWithCap parts cap = (parts.flatMap (ResolvedPart.shown cap)).length := by
  have hfold : ∀ (parts : List ResolvedPart) (total : Nat),
      parts.foldl (fun total part => total + part.shownLength cap) total =
        total + (parts.flatMap (ResolvedPart.shown cap)).length := by
    intro parts
    induction parts with
    | nil => simp
    | cons part parts ih =>
        intro total
        rw [List.foldl_cons, ih, List.flatMap_cons, List.length_append, length_shown]
        omega
  have hzero := hfold parts 0
  rw [Nat.zero_add] at hzero
  exact hzero

variable {cap' : Nat}

theorem shownLength_mono (h : cap ≤ cap') (part : ResolvedPart) :
    part.shownLength cap ≤ part.shownLength cap' := by
  unfold ResolvedPart.shownLength
  cases part.shrinkable with
  | false => simp
  | true =>
      simp only [Bool.true_and, decide_eq_true_eq]
      split <;> split <;> omega

theorem length_flatMap_le {α : Type} {f g : α → List Char}
    (h : ∀ part, (f part).length ≤ (g part).length) (parts : List α) :
    (parts.flatMap f).length ≤ (parts.flatMap g).length := by
  induction parts with
  | nil => simp
  | cons part parts ih =>
      have hpart := h part
      simp only [List.flatMap_cons, List.length_append]
      omega

theorem lengthWithCap_mono (h : cap ≤ cap') (parts : List ResolvedPart) :
    lengthWithCap parts cap ≤ lengthWithCap parts cap' := by
  rw [lengthWithCap_eq, lengthWithCap_eq]
  apply length_flatMap_le
  intro part
  rw [length_shown, length_shown]
  exact shownLength_mono h part

/-- The loop ends at a cap that fits, or at none at all. -/
theorem fittingCap_fits (h : 0 < fittingCap parts max cap) :
    lengthWithCap parts (fittingCap parts max cap) ≤ max := by
  induction cap with
  | zero => simp [fittingCap] at h
  | succ cap ih =>
      unfold fittingCap at h ⊢
      split
      · next hover =>
          rw [if_pos hover] at h
          exact ih h
      · next hfits => omega

/-- The caps that were tried before do not fit. -/
theorem fittingCap_largest {larger : Nat} (h : fittingCap parts max cap < larger)
    (hle : larger ≤ cap) : max < lengthWithCap parts larger := by
  induction cap with
  | zero => omega
  | succ cap ih =>
      unfold fittingCap at h
      split at h
      · next hover =>
          by_cases heq : larger = cap + 1
          · rw [heq]
            exact hover
          · exact ih h (by omega)
      · omega

/-- Where the frame fits, so do the values at the cap of the loop. -/
theorem fittingCap_fits_of_frame (frame : lengthWithCap parts 0 ≤ max) :
    lengthWithCap parts (fittingCap parts max cap) ≤ max := by
  by_cases hzero : fittingCap parts max cap = 0
  · rw [hzero]
    exact frame
  · exact fittingCap_fits (Nat.pos_of_ne_zero hzero)

end Cap

/-! ## From the resolved parts to the parts -/

theorem shown_resolvePart (cap : Nat) (part : TitlePart) :
    (resolvePart part).shown cap = part.shown cap := by
  cases part with
  | text fixed => simp [resolvePart, ResolvedPart.shown, TitlePart.shown]
  | value given fallback =>
      by_cases h : trim (given.getD "") = ""
      · simp [resolvePart, ResolvedPart.shown, TitlePart.shown, h]
      · simp [resolvePart, ResolvedPart.shown, TitlePart.shown, h]

theorem chars_resolvePart (part : TitlePart) : (resolvePart part).chars = part.whole := by
  cases part with
  | text fixed => rfl
  | value given fallback =>
      simp only [resolvePart, TitlePart.whole]
      split <;> rfl

theorem flatMap_resolved (parts : List TitlePart) (cap : Nat) :
    (parts.map resolvePart).flatMap (ResolvedPart.shown cap) =
      parts.flatMap (TitlePart.shown cap) := by
  rw [List.flatMap_map]
  congr 1
  funext part
  exact shown_resolvePart cap part

theorem length_shown_zero (part : TitlePart) : (part.shown 0).length = part.frameLength := by
  cases part with
  | text fixed => rfl
  | value given fallback =>
      simp only [TitlePart.shown, TitlePart.frameLength]
      by_cases h : trim (given.getD "") = ""
      · simp [h]
      · have hne : (trim (given.getD "")).toList ≠ [] :=
          fun heq => h (String.toList_eq_nil_iff.mp heq)
        have hpos := List.length_pos_of_ne_nil hne
        simp [h, hpos]

/-- The longest value of the parts. -/
def longestValue (parts : List TitlePart) : Nat :=
  (((parts.map resolvePart).filter ResolvedPart.shrinkable).map fun part =>
    part.chars.length).foldl Nat.max 0

theorem le_foldl_natMax (lengths : List Nat) (start : Nat) :
    start ≤ lengths.foldl Nat.max start ∧
      ∀ length ∈ lengths, length ≤ lengths.foldl Nat.max start := by
  induction lengths generalizing start with
  | nil => simp
  | cons first lengths ih =>
      obtain ⟨hstart, hrest⟩ := ih (Nat.max start first)
      have hleft : start ≤ Nat.max start first := Nat.le_max_left start first
      have hright : first ≤ Nat.max start first := Nat.le_max_right start first
      refine ⟨hleft.trans hstart, fun length hlength => ?_⟩
      rcases List.mem_cons.mp hlength with rfl | hmem
      · exact hright.trans hstart
      · exact hrest length hmem

/-- From the longest value on nothing is cut. -/
theorem shown_of_longest {parts : List TitlePart} {part : TitlePart} {cap : Nat}
    (hpart : part ∈ parts) (h : longestValue parts ≤ cap) : part.shown cap = part.whole := by
  cases part with
  | text fixed => rfl
  | value given fallback =>
      simp only [TitlePart.shown, TitlePart.whole]
      by_cases hblank : trim (given.getD "") = ""
      · simp [hblank]
      · have hmem : (trim (given.getD "")).toList.length ∈
            ((parts.map resolvePart).filter ResolvedPart.shrinkable).map fun part =>
              part.chars.length := by
          refine List.mem_map.mpr ⟨resolvePart (.value given fallback), ?_, ?_⟩
          · rw [List.mem_filter]
            exact ⟨List.mem_map_of_mem hpart, by simp [resolvePart, hblank]⟩
          · simp [resolvePart, hblank]
        have hle := (le_foldl_natMax _ 0).2 _ hmem
        have hnot : ¬cap < (trim (given.getD "")).toList.length := by
          unfold longestValue at h
          omega
        simp [hblank, hnot]

/-! ## The title -/

section Title
variable {parts : List TitlePart} {max : Nat}

/-- The cap at which the title of the parts is built. -/
def titleCap (parts : List TitlePart) (max : Nat) : Nat :=
  fittingCap (parts.map resolvePart) max (longestValue parts)

theorem toList_buildTitle (parts : List TitlePart) (max : Nat) :
    (buildTitle parts max).toList =
      let title := parts.flatMap (TitlePart.shown (titleCap parts max))
      if title.length ≤ max then title else title.take (max - 1) ++ [ELLIPSIS] := by
  unfold buildTitle titleCap longestValue
  rw [String.toList_ofList, flatMap_resolved]

theorem length_at_cap (parts : List TitlePart) (cap : Nat) :
    (parts.flatMap (TitlePart.shown cap)).length = lengthWithCap (parts.map resolvePart) cap := by
  rw [lengthWithCap_eq, flatMap_resolved]

theorem length_frame :
    lengthWithCap (parts.map resolvePart) 0 = (parts.map TitlePart.frameLength).sum := by
  rw [← length_at_cap, List.length_flatMap]
  congr 1
  exact List.map_congr_left fun part _ => length_shown_zero part

variable {cap : Nat}

theorem whole_of_not_cut (h : ¬CutAt parts cap) :
    parts.flatMap (TitlePart.shown cap) = parts.flatMap TitlePart.whole := by
  apply List.flatMap_congr
  intro part hpart
  by_contra hne
  exact h ⟨part, hpart, hne⟩

theorem length_shown_le_whole (cap : Nat) (part : TitlePart) :
    (part.shown cap).length ≤ part.whole.length := by
  rw [← shown_resolvePart, ← chars_resolvePart, length_shown]
  unfold ResolvedPart.shownLength
  split
  · next h =>
      have hlt : cap < (resolvePart part).chars.length := by
        simpa using (Bool.and_eq_true_iff.mp h).2
      omega
  · exact Nat.le_refl _

/-- A larger cap than that of the title cuts nothing that was not whole before, or
does not fit. -/
theorem titleCap_largest (h : titleCap parts max < cap) (cut : CutAt parts (titleCap parts max)) :
    max < (parts.flatMap (TitlePart.shown cap)).length := by
  rw [length_at_cap]
  have hlongest : titleCap parts max < longestValue parts := by
    by_contra hge
    obtain ⟨part, hpart, hne⟩ := cut
    exact hne (shown_of_longest hpart (by omega))
  by_cases hle : cap ≤ longestValue parts
  · exact fittingCap_largest h hle
  · have hle : longestValue parts ≤ cap := by omega
    have hmono := lengthWithCap_mono hle (parts.map resolvePart)
    have hover := fittingCap_largest hlongest (Nat.le_refl _)
    exact lt_of_lt_of_le hover hmono

/-- Every title fits. Parts that fit are the title; and where the frame fits, every
fixed text and fallback is whole, and every value is whole or cut to the largest
common length at which the title fits. -/
theorem buildTitle_fits_and_frames (parts : List TitlePart) {max : Nat} (h : 1 ≤ max) :
    (buildTitle parts max).toList.length ≤ max ∧
    ((parts.flatMap TitlePart.whole).length ≤ max →
      (buildTitle parts max).toList = parts.flatMap TitlePart.whole) ∧
    ((parts.map TitlePart.frameLength).sum ≤ max →
      ∃ cap, (buildTitle parts max).toList = parts.flatMap (TitlePart.shown cap) ∧
        ∀ larger, cap < larger → CutAt parts cap →
          max < (parts.flatMap (TitlePart.shown larger)).length) := by
  refine ⟨?_, fun hfits => ?_, fun hframe => ?_⟩
  · rw [toList_buildTitle]
    dsimp only
    split
    · assumption
    · simp only [List.length_append, List.length_take, List.length_singleton]
      omega
  · have hwhole : (parts.flatMap (TitlePart.shown (titleCap parts max))) =
        parts.flatMap TitlePart.whole := by
      apply whole_of_not_cut
      intro cut
      have hover := titleCap_largest (show titleCap parts max < titleCap parts max + 1 by omega) cut
      have hle : (parts.flatMap (TitlePart.shown (titleCap parts max + 1))).length ≤
          (parts.flatMap TitlePart.whole).length :=
        length_flatMap_le (length_shown_le_whole _) parts
      omega
    rw [toList_buildTitle, hwhole]
    exact if_pos hfits
  · refine ⟨titleCap parts max, ?_, fun larger hlarger cut => titleCap_largest hlarger cut⟩
    have hlength : (parts.flatMap (TitlePart.shown (titleCap parts max))).length ≤ max := by
      rw [length_at_cap]
      apply fittingCap_fits_of_frame
      rw [length_frame]
      exact hframe
    rw [toList_buildTitle]
    exact if_pos hlength

/-- Two values and a quotation mark, of which the longer value is cut to four characters. -/
theorem buildTitle_fits_and_frames_sample :
    (buildTitle [.value (some "Ada") "Someone", .text " \"", .value (some " Inventory ") "a course",
      .text "\""] 11).toList.length ≤ 11 :=
  (buildTitle_fits_and_frames _ (by decide)).1

end Title

end Sinnlos.Cms.Notify

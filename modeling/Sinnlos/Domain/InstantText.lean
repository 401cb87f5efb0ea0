import Sinnlos.Domain.PlainDate

/-! # Date-times as texts

A date, a time of day and an offset, as the notations of ISO 8601 write them. What
a reader takes of these notations is its grammar; two readers that both read a text
read the same parts.
-/

namespace Sinnlos.Domain

open Text

/-- The distance of a wall clock from UTC. -/
structure Offset where
  west : Bool
  hour : Nat
  minute : Nat
  second : Nat
  fraction : List Char
deriving DecidableEq

structure InstantParts where
  year : Int
  month : Nat
  day : Nat
  hour : Nat
  minute : Nat
  second : Nat
  /-- The digits behind the mark. -/
  fraction : List Char
  offset : Offset
deriving DecidableEq

/-- What a reader takes. -/
structure Grammar where
  expandedYears : Bool
  shortDates : Bool
  basicDates : Bool
  separators : List Char
  hourAlone : Bool
  basicTimes : Bool
  marks : List Char
  fraction : Nat → Bool
  zulus : List Char
  offsetHourAlone : Bool
  basicOffsets : Bool
  offsetSeconds : Bool

/-- The one takes what the other does. -/
structure Grammar.Le (g h : Grammar) : Prop where
  expandedYears : g.expandedYears = true → h.expandedYears = true
  shortDates : g.shortDates = true → h.shortDates = true
  basicDates : g.basicDates = true → h.basicDates = true
  separators : g.separators ⊆ h.separators
  hourAlone : g.hourAlone = true → h.hourAlone = true
  basicTimes : g.basicTimes = true → h.basicTimes = true
  marks : g.marks ⊆ h.marks
  fraction : ∀ n, g.fraction n = true → h.fraction n = true
  zulus : g.zulus ⊆ h.zulus
  offsetHourAlone : g.offsetHourAlone = true → h.offsetHourAlone = true
  basicOffsets : g.basicOffsets = true → h.basicOffsets = true
  offsetSeconds : g.offsetSeconds = true → h.offsetSeconds = true

/-! ## Readers -/

def readTwo : List Char → Option (Nat × List Char)
  | c :: d :: rest => (readNat [c, d]).map fun n => (n, rest)
  | _ => none

/-- Four digits, or a sign and six of them; the year 0 has no minus. -/
def readYear (g : Grammar) (text : List Char) : Option (Int × List Char) :=
  match text with
  | '+' :: _ => if g.expandedYears then yearPrefix text else none
  | '-' :: _ =>
      if g.expandedYears then (yearPrefix text).filter fun read => read.1 ≠ 0 else none
  | _ => yearPrefix text

/-- The day after a month; a date without one is the first of the month. -/
def readDay (g : Grammar) (month : Nat) : List Char → Option (Nat × Nat × List Char)
  | '-' :: rest => (readTwo rest).map fun day => (month, day.1, day.2)
  | rest => if g.shortDates then some (month, 1, rest) else none

/-- The month and the day in four digits. -/
def readBasicDay (text : List Char) : Option (Nat × Nat × List Char) :=
  (readTwo text).bind fun month => (readTwo month.2).map fun day => (month.1, day.1, day.2)

/-- What follows the year; a date without a month is the first day of the year. -/
def readMonthDay (g : Grammar) : List Char → Option (Nat × Nat × List Char)
  | '-' :: rest => (readTwo rest).bind fun month => readDay g month.1 month.2
  | c :: rest =>
      if c.isDigit then if g.basicDates then readBasicDay (c :: rest) else none
      else if g.shortDates then some (1, 1, c :: rest)
      else none
  | [] => none

def readSeparator (g : Grammar) : List Char → Option (List Char)
  | c :: rest => if c ∈ g.separators then some rest else none
  | [] => none

/-- The digits of a fraction, none where there is no mark. -/
def readFraction (g : Grammar) : List Char → Option (List Char × List Char)
  | mark :: rest =>
      if mark = '.' ∨ mark = ',' then
        if mark ∈ g.marks ∧ 0 < (rest.takeWhile Char.isDigit).length ∧
            g.fraction (rest.takeWhile Char.isDigit).length then
          some (rest.takeWhile Char.isDigit, rest.dropWhile Char.isDigit)
        else none
      else some ([], mark :: rest)
  | [] => some ([], [])

abbrev Clock := Nat × Nat × Nat × List Char

/-- The seconds of a time, after what stands in front of them. -/
def readSeconds (g : Grammar) (hour minute : Nat) (text : List Char) :
    Option (Clock × List Char) :=
  (readTwo text).bind fun second =>
    (readFraction g second.2).map fun fraction =>
      ((hour, minute, second.1, fraction.1), fraction.2)

def readColonSeconds (g : Grammar) (hour minute : Nat) : List Char → Option (Clock × List Char)
  | ':' :: rest => readSeconds g hour minute rest
  | rest => some ((hour, minute, 0, []), rest)

def readBasicSeconds (g : Grammar) (hour minute : Nat) : List Char → Option (Clock × List Char)
  | c :: rest =>
      if c.isDigit then readSeconds g hour minute (c :: rest)
      else some ((hour, minute, 0, []), c :: rest)
  | [] => some ((hour, minute, 0, []), [])

def readMinutes (g : Grammar) (hour : Nat) : List Char → Option (Clock × List Char)
  | ':' :: rest => (readTwo rest).bind fun minute => readColonSeconds g hour minute.1 minute.2
  | c :: rest =>
      if c.isDigit then
        if g.basicTimes then
          (readTwo (c :: rest)).bind fun minute => readBasicSeconds g hour minute.1 minute.2
        else none
      else if g.hourAlone then some ((hour, 0, 0, []), c :: rest)
      else none
  | [] => none

def readClock (g : Grammar) (text : List Char) : Option (Clock × List Char) :=
  (readTwo text).bind fun hour => readMinutes g hour.1 hour.2

/-- The seconds of an offset, which end the text. -/
def readOffsetSeconds (g : Grammar) (west : Bool) (hour minute : Nat) (text : List Char) :
    Option Offset :=
  if g.offsetSeconds then
    (readTwo text).bind fun second =>
      (readFraction g second.2).bind fun fraction =>
        if fraction.2 = [] then some ⟨west, hour, minute, second.1, fraction.1⟩ else none
  else none

def readColonOffset (g : Grammar) (west : Bool) (hour minute : Nat) : List Char → Option Offset
  | [] => some ⟨west, hour, minute, 0, []⟩
  | ':' :: rest => readOffsetSeconds g west hour minute rest
  | _ => none

def readBasicOffset (g : Grammar) (west : Bool) (hour minute : Nat) : List Char → Option Offset
  | [] => some ⟨west, hour, minute, 0, []⟩
  | rest => readOffsetSeconds g west hour minute rest

def readOffsetMinutes (g : Grammar) (west : Bool) (hour : Nat) : List Char → Option Offset
  | [] => if g.offsetHourAlone then some ⟨west, hour, 0, 0, []⟩ else none
  | ':' :: rest => (readTwo rest).bind fun minute => readColonOffset g west hour minute.1 minute.2
  | rest =>
      if g.basicOffsets then
        (readTwo rest).bind fun minute => readBasicOffset g west hour minute.1 minute.2
      else none

def readSigned (g : Grammar) (west : Bool) (text : List Char) : Option Offset :=
  (readTwo text).bind fun hour => readOffsetMinutes g west hour.1 hour.2

/-- The offset, which ends the text. -/
def readOffset (g : Grammar) : List Char → Option Offset
  | '+' :: rest => readSigned g false rest
  | '-' :: rest => readSigned g true rest
  | [c] => if c ∈ g.zulus then some ⟨false, 0, 0, 0, []⟩ else none
  | _ => none

def readInstant (g : Grammar) (text : List Char) : Option InstantParts :=
  (readYear g text).bind fun year =>
    (readMonthDay g year.2).bind fun day =>
      (readSeparator g day.2.2).bind fun rest =>
        (readClock g rest).bind fun clock =>
          (readOffset g clock.2).map fun offset =>
            ⟨year.1, day.1, day.2.1, clock.1.1, clock.1.2.1, clock.1.2.2.1, clock.1.2.2.2, offset⟩

/-! ## One text, one reading -/

section Mono

variable {g h : Grammar} {text : List Char}

theorem bind_mono {α β : Type} {x y : Option α} {f f' : α → Option β} {b : β}
    (first : ∀ a, x = some a → y = some a) (then_ : ∀ a, f a = some b → f' a = some b)
    (hread : x.bind f = some b) : y.bind f' = some b := by
  obtain ⟨a, ha, hb⟩ := Option.bind_eq_some_iff.mp hread
  exact Option.bind_eq_some_iff.mpr ⟨a, first a ha, then_ a hb⟩

theorem ite_mono {α : Type} {p q : Prop} [Decidable p] [Decidable q] {x y : Option α} {a : α}
    (taken : p → q) (same : x = some a → y = some a) (hread : (if p then x else none) = some a) :
    (if q then y else none) = some a := by
  by_cases hp : p
  · rw [if_pos hp] at hread
    rw [if_pos (taken hp), same hread]
  · rw [if_neg hp] at hread
    cases hread

theorem readYear_mono (le : g.Le h) {year : Int × List Char} (hread : readYear g text = some year) :
    readYear h text = some year := by
  unfold readYear at hread ⊢
  split at hread
  · exact ite_mono le.expandedYears id hread
  · exact ite_mono le.expandedYears id hread
  · exact hread

variable {day : Nat × Nat × List Char}

theorem readDay_mono (le : g.Le h) {month : Nat} (hread : readDay g month text = some day) :
    readDay h month text = some day := by
  unfold readDay at hread ⊢
  split at hread
  · exact hread
  · exact ite_mono le.shortDates id hread

theorem readMonthDay_mono (le : g.Le h) (hread : readMonthDay g text = some day) :
    readMonthDay h text = some day := by
  unfold readMonthDay at hread ⊢
  split at hread
  · exact bind_mono (fun _ => id) (fun _ => readDay_mono le) hread
  · next c rest hne =>
      by_cases hdigit : c.isDigit = true
      · rw [if_pos hdigit] at hread ⊢
        exact ite_mono le.basicDates id hread
      · rw [if_neg hdigit] at hread ⊢
        exact ite_mono le.shortDates id hread
  · cases hread

theorem readSeparator_mono (le : g.Le h) {rest : List Char}
    (hread : readSeparator g text = some rest) : readSeparator h text = some rest := by
  cases text with
  | nil => cases hread
  | cons c text => exact ite_mono (fun hc => le.separators hc) id hread

theorem readFraction_mono (le : g.Le h) {fraction : List Char × List Char}
    (hread : readFraction g text = some fraction) : readFraction h text = some fraction := by
  cases text with
  | nil => exact hread
  | cons mark rest =>
      rw [readFraction] at hread ⊢
      by_cases hmark : mark = '.' ∨ mark = ','
      · rw [if_pos hmark] at hread ⊢
        exact ite_mono (fun hg => ⟨le.marks hg.1, hg.2.1, le.fraction _ hg.2.2⟩) id hread
      · rw [if_neg hmark] at hread ⊢
        exact hread

variable {hour minute : Nat} {clock : Clock × List Char} {west : Bool} {offset : Offset}

theorem readSeconds_mono (le : g.Le h) (hread : readSeconds g hour minute text = some clock) :
    readSeconds h hour minute text = some clock := by
  apply bind_mono (fun _ => id) _ hread
  intro second hread
  obtain ⟨fraction, hfraction, rfl⟩ := Option.map_eq_some_iff.mp hread
  rw [readFraction_mono le hfraction, Option.map_some]

theorem readColonSeconds_mono (le : g.Le h)
    (hread : readColonSeconds g hour minute text = some clock) :
    readColonSeconds h hour minute text = some clock := by
  unfold readColonSeconds at hread ⊢
  split at hread
  · exact readSeconds_mono le hread
  · exact hread

theorem readBasicSeconds_mono (le : g.Le h)
    (hread : readBasicSeconds g hour minute text = some clock) :
    readBasicSeconds h hour minute text = some clock := by
  cases text with
  | nil => exact hread
  | cons c rest =>
      rw [readBasicSeconds] at hread ⊢
      by_cases hdigit : c.isDigit = true
      · rw [if_pos hdigit] at hread ⊢
        exact readSeconds_mono le hread
      · rw [if_neg hdigit] at hread ⊢
        exact hread

theorem readMinutes_mono (le : g.Le h) (hread : readMinutes g hour text = some clock) :
    readMinutes h hour text = some clock := by
  unfold readMinutes at hread ⊢
  split at hread
  · exact bind_mono (fun _ => id) (fun _ => readColonSeconds_mono le) hread
  · next c rest hne =>
      by_cases hdigit : c.isDigit = true
      · rw [if_pos hdigit] at hread ⊢
        exact ite_mono le.basicTimes
          (bind_mono (fun _ => id) fun _ => readBasicSeconds_mono le) hread
      · rw [if_neg hdigit] at hread ⊢
        exact ite_mono le.hourAlone id hread
  · cases hread

theorem readOffsetSeconds_mono (le : g.Le h)
    (hread : readOffsetSeconds g west hour minute text = some offset) :
    readOffsetSeconds h west hour minute text = some offset :=
  ite_mono le.offsetSeconds
    (bind_mono (fun _ => id) fun _ => bind_mono (fun _ => readFraction_mono le) fun _ => id) hread

theorem readColonOffset_mono (le : g.Le h)
    (hread : readColonOffset g west hour minute text = some offset) :
    readColonOffset h west hour minute text = some offset := by
  unfold readColonOffset at hread ⊢
  split at hread
  · exact hread
  · exact readOffsetSeconds_mono le hread
  · cases hread

theorem readBasicOffset_mono (le : g.Le h)
    (hread : readBasicOffset g west hour minute text = some offset) :
    readBasicOffset h west hour minute text = some offset := by
  unfold readBasicOffset at hread ⊢
  split at hread
  · exact hread
  · exact readOffsetSeconds_mono le hread

theorem readOffsetMinutes_mono (le : g.Le h)
    (hread : readOffsetMinutes g west hour text = some offset) :
    readOffsetMinutes h west hour text = some offset := by
  unfold readOffsetMinutes at hread ⊢
  split at hread
  · exact ite_mono le.offsetHourAlone id hread
  · exact bind_mono (fun _ => id) (fun _ => readColonOffset_mono le) hread
  · exact ite_mono le.basicOffsets (bind_mono (fun _ => id) fun _ => readBasicOffset_mono le) hread

theorem readOffset_mono (le : g.Le h) (hread : readOffset g text = some offset) :
    readOffset h text = some offset := by
  unfold readOffset at hread ⊢
  split at hread
  · exact bind_mono (fun _ => id) (fun _ => readOffsetMinutes_mono le) hread
  · exact bind_mono (fun _ => id) (fun _ => readOffsetMinutes_mono le) hread
  · exact ite_mono (fun hc => le.zulus hc) id hread
  · cases hread

/-- What one reader reads, one that takes more reads the same way. -/
theorem readInstant_mono (le : g.Le h) {parts : InstantParts}
    (hread : readInstant g text = some parts) : readInstant h text = some parts := by
  apply bind_mono (fun _ => readYear_mono le) _ hread
  intro year
  apply bind_mono fun _ => readMonthDay_mono le
  intro day
  apply bind_mono fun _ => readSeparator_mono le
  intro rest
  apply bind_mono fun _ => bind_mono (fun _ => id) fun _ => readMinutes_mono le
  intro clock hread
  obtain ⟨offset, hoffset, rfl⟩ := Option.map_eq_some_iff.mp hread
  rw [readOffset_mono le hoffset, Option.map_some]

end Mono

end Sinnlos.Domain

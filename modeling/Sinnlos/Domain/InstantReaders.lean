import Sinnlos.Domain.InstantText

/-! # The instant readers

`isOffsetInstant` and `offsetInstantMs` of `authoring/validators.ts`, next to
`instantEpochMs`, and `instantMsOrNull` of the cms's `time.ts`. `Date.parse` follows
the ECMAScript date-time format and `Temporal.Instant.from` the Temporal grammar.
-/

namespace Sinnlos.Domain

open Calendar Text

/-- The first digits of a fraction, filled up with zeros. -/
def fractionTo : Nat → List Char → Nat
  | 0, _ => 0
  | _ + 1, [] => 0
  | n + 1, c :: digits => (c.toNat - 48) * 10 ^ n + fractionTo n digits

/-- The days of the parts, counted from 1 January 1970. -/
def InstantParts.epochDay (parts : InstantParts) : Int :=
  makeDay parts.year (parts.month - 1) parts.day - EPOCH_DAY

/-! ## `Date.parse` -/

/-- What an engine reads beyond the format: fractions of other lengths, letters in
lower case, offsets without minutes or colon. Texts that do not end in a time with an
offset may be read as anything. -/
structure Engine where
  fraction : Nat → Bool
  fraction_three : fraction 3 = true
  lowerCase : Bool
  offsetHourAlone : Bool
  basicOffsets : Bool
  otherTexts : String → Option Int

def MAX_TIME_VALUE : Int := 8640000000000000

namespace Engine

variable (engine : Engine)

def grammar : Grammar where
  expandedYears := true
  shortDates := true
  basicDates := false
  separators := if engine.lowerCase then ['T', 't'] else ['T']
  hourAlone := false
  basicTimes := false
  marks := ['.']
  fraction := engine.fraction
  zulus := if engine.lowerCase then ['Z', 'z'] else ['Z']
  offsetHourAlone := engine.offsetHourAlone
  basicOffsets := engine.basicOffsets
  offsetSeconds := false

end Engine

/-- The hour 24 is the end of a day; a day beyond its month is one of the next. -/
def InstantParts.InFormat (parts : InstantParts) : Prop :=
  1 ≤ parts.month ∧ parts.month ≤ 12 ∧ 1 ≤ parts.day ∧ parts.day ≤ 31 ∧
    (parts.hour ≤ 23 ∨ parts.hour = 24 ∧ parts.minute = 0 ∧ parts.second = 0 ∧
      fractionTo 3 parts.fraction = 0) ∧
    parts.minute ≤ 59 ∧ parts.second ≤ 59 ∧ parts.offset.hour ≤ 23 ∧ parts.offset.minute ≤ 59

instance (parts : InstantParts) : Decidable parts.InFormat :=
  inferInstanceAs (Decidable (_ ∧ _ ∧ _ ∧ _ ∧ _ ∧ _ ∧ _ ∧ _ ∧ _))

def Offset.ms (offset : Offset) : Int :=
  let size : Int := offset.hour * 3600000 + offset.minute * 60000
  if offset.west then -size else size

/-- Whole milliseconds; the digits behind them are cut off. -/
def InstantParts.timeValue (parts : InstantParts) : Int :=
  parts.epochDay * DAY_MS + parts.hour * 3600000 + parts.minute * 60000 + parts.second * 1000 +
    fractionTo 3 parts.fraction - parts.offset.ms

def InstantParts.parsed (parts : InstantParts) : Option Int :=
  if parts.InFormat ∧ -MAX_TIME_VALUE ≤ parts.timeValue ∧ parts.timeValue ≤ MAX_TIME_VALUE then
    some parts.timeValue
  else none

def Engine.dateParse (engine : Engine) (text : String) : Option Int :=
  if endsWithTime text.toList then
    (readInstant engine.grammar text.toList).bind InstantParts.parsed
  else engine.otherTexts text

/-! ## `Temporal.Instant.from` -/

def temporalGrammar : Grammar where
  expandedYears := true
  shortDates := false
  basicDates := true
  separators := ['T', 't', ' ']
  hourAlone := true
  basicTimes := true
  marks := ['.', ',']
  fraction n := n ≤ 9
  zulus := ['Z', 'z']
  offsetHourAlone := true
  basicOffsets := true
  offsetSeconds := true

/-- A day of the calendar, an hour below 24 and a second up to 60. -/
def InstantParts.InTemporal (parts : InstantParts) : Prop :=
  1 ≤ parts.month ∧ parts.month ≤ 12 ∧ 1 ≤ parts.day ∧
    parts.day ≤ daysInMonth parts.year parts.month ∧ parts.hour ≤ 23 ∧ parts.minute ≤ 59 ∧
    parts.second ≤ 60 ∧ parts.offset.hour ≤ 23 ∧ parts.offset.minute ≤ 59 ∧
    parts.offset.second ≤ 59

instance (parts : InstantParts) : Decidable parts.InTemporal :=
  inferInstanceAs (Decidable (_ ∧ _ ∧ _ ∧ _ ∧ _ ∧ _ ∧ _ ∧ _ ∧ _ ∧ _))

def Offset.ns (offset : Offset) : Int :=
  let size : Int := (offset.hour * 3600 + offset.minute * 60 + offset.second) * 1000000000 +
    fractionTo 9 offset.fraction
  if offset.west then -size else size

/-- Nanoseconds; a leap second is the second before. -/
def InstantParts.epochNs (parts : InstantParts) : Int :=
  (parts.epochDay * 86400 + parts.hour * 3600 + parts.minute * 60 + min parts.second 59) *
    1000000000 + fractionTo 9 parts.fraction - parts.offset.ns

def InstantParts.instant (parts : InstantParts) : Option Int :=
  if parts.InTemporal ∧ -(MAX_TIME_VALUE * 1000000) ≤ parts.epochNs ∧
      parts.epochNs ≤ MAX_TIME_VALUE * 1000000 then
    some parts.epochNs
  else none

/-- The nanoseconds of a text; how texts with an annotation are read is left open. -/
def instantFrom (annotated : String → Option Int) (text : String) : Option Int :=
  if text.toList.getLast? = some ']' then annotated text
  else (readInstant temporalGrammar text.toList).bind InstantParts.instant

section Cms

variable (annotated : String → Option Int)

def toInstant (value : String) : Except String Int :=
  match instantFrom annotated (trim value) with
  | some ns => .ok ns
  | none => .error
      ("Not an instant (ISO-8601 with Z or a numeric offset required): \"" ++ value ++ "\"")

/-- `epochMilliseconds` rounds down. -/
def instantMsOrNull (value : String) : Option Int :=
  if value = "" then none else (toInstant annotated value).toOption.map fun ns => ns / 1000000

end Cms

/-! ## The write checks -/

def offsetPart : List Char → Bool
  | ['Z'] => true
  | [sign, h1, h2, ':', m1, m2] =>
      (sign = '+' ∨ sign = '-') ∧ h1.isDigit ∧ h2.isDigit ∧ m1.isDigit ∧ m2.isDigit
  | _ => false

def fractionPart : List Char → Bool
  | '.' :: rest =>
      1 ≤ (rest.takeWhile Char.isDigit).length ∧ (rest.takeWhile Char.isDigit).length ≤ 9 ∧
        offsetPart (rest.dropWhile Char.isDigit)
  | rest => offsetPart rest

def secondsPart : List Char → Bool
  | ':' :: s1 :: s2 :: rest => s1.isDigit ∧ s2.isDigit ∧ fractionPart rest
  | rest => offsetPart rest

/-- `OFFSET_INSTANT`. -/
def isOffsetInstantText : List Char → Bool
  | y1 :: y2 :: y3 :: y4 :: '-' :: m1 :: m2 :: '-' :: d1 :: d2 :: 'T' :: h1 :: h2 :: ':' :: n1 ::
      n2 :: rest =>
      [y1, y2, y3, y4, m1, m2, d1, d2, h1, h2, n1, n2].all Char.isDigit ∧ secondsPart rest
  | _ => false

section Domain

variable (dateParse : String → Option Int)

def isOffsetInstant (value : String) : Bool :=
  isOffsetInstantText value.toList && startsWithRealDay value.toList && (dateParse value).isSome

def offsetInstantMs (value : String) : Option Int :=
  if isOffsetInstant dateParse value then dateParse value else none

end Domain

/-- The readers agree on a text. -/
structure ReadersAgree (engine : Engine) (annotated : String → Option Int) (text : String) :
    Prop where
  accepted : isOffsetInstant engine.dateParse text = true → ∃ ms,
    offsetInstantMs engine.dateParse text = some ms ∧
      instantEpochMs engine.dateParse text = some ms ∧ instantMsOrNull annotated text = some ms
  equal : ∀ a b, instantEpochMs engine.dateParse text = some a →
    instantMsOrNull annotated text = some b → a = b

/-- A text whose hour is written as 24. -/
def hourIs24 (text : String) : Bool := (text.toList.drop 11).take 2 = ['2', '4']

/-! ## An engine that reads the format and nothing else -/

def strictEngine : Engine where
  fraction n := n = 3
  fraction_three := rfl
  lowerCase := false
  offsetHourAlone := false
  basicOffsets := false
  otherTexts _ := none

theorem hour_24_is_no_instant_for_the_cms :
    ¬ ReadersAgree strictEngine (fun _ => none) "2026-01-01T24:00:00Z" := by
  intro h
  obtain ⟨ms, -, -, hms⟩ := h.accepted (by decide +kernel)
  exact absurd (Option.isSome_iff_exists.mpr ⟨ms, hms⟩) (by decide +kernel)

end Sinnlos.Domain

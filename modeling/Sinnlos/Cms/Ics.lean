import Sinnlos.Cms.IcsFileNames
import Sinnlos.Domain.InstantReaders
import Sinnlos.Lib.FoldedLines

/-!
# The calendar file of an event

The ICS export of one event row. What `Temporal` reads from a text with an
annotation, the offsets of the business zone and the conversion of a Markdown
description are parameters: the lines are folded and escaped whatever these give.
-/

namespace Sinnlos.Cms.Ics

open Calendar Domain FoldedLines Text

/-- Octets per content line, CR LF excluded. -/
def ICS_LINE_OCTETS : Nat := 75

def MAX_DESCRIPTION_CHARS : Nat := 10000

/-- 2024-01-01T00:00:00Z. -/
def SEQUENCE_EPOCH_MS : Int := 1704067200000

def MAX_SEQUENCE : Int := 2147483647

/-! ## Text -/

/-- Every line break becomes a line feed. -/
def normalizeBreaks : List Char → List Char
  | '\r' :: '\n' :: rest => '\n' :: normalizeBreaks rest
  | '\r' :: rest => '\n' :: normalizeBreaks rest
  | c :: rest => c :: normalizeBreaks rest
  | [] => []

/-- Control characters other than tab and line feed. -/
def isDropped (c : Char) : Bool :=
  c.toNat ≤ 0x08 ∨ (0x0B ≤ c.toNat ∧ c.toNat ≤ 0x1F) ∨ c.toNat = 0x7F

def replaceChar (c : Char) (replacement : List Char) (text : List Char) : List Char :=
  text.flatMap fun d => if d = c then replacement else [d]

/-- RFC 5545 TEXT. -/
def escapeIcsText (value : List UInt16) : List Char :=
  replaceChar '\n' ['\\', 'n']
    (replaceChar ',' ['\\', ',']
      (replaceChar ';' ['\\', ';']
        (replaceChar '\\' ['\\', '\\']
          ((normalizeBreaks (Utf16.decode value)).filter fun c => !isDropped c))))

def utf8Length (codePoint : Nat) : Nat :=
  if codePoint < 0x80 then 1
  else if codePoint < 0x800 then 2
  else if codePoint < 0x10000 then 3
  else 4

/-- The parts of a line from a character on, with the part that is being filled. -/
def foldFrom (limit octets : Nat) (current : List Char) : List Char → List (List Char)
  | [] => [current]
  | c :: rest =>
      if limit < octets + utf8Length c.toNat then
        current :: foldFrom (ICS_LINE_OCTETS - 1) (utf8Length c.toNat) [c] rest
      else foldFrom limit (octets + utf8Length c.toNat) (current ++ [c]) rest

/-- One content line, folded between code points. -/
def foldIcsLine (line : List UInt16) : List Char :=
  List.intercalate "\r\n ".toList (foldFrom ICS_LINE_OCTETS 0 [] (Utf16.decode line))

/-! ## Instants -/

/-- A `Date` (none for an invalid one), a text, or a `Temporal.Instant`. -/
inductive InstantInput
  | date (time : Option Int)
  | text (value : String)
  | instant (epochNs : Int)
deriving DecidableEq

section

variable (annotated : String → Option Int)

/-- The nanoseconds of an instant. -/
def toInstant : InstantInput → Except String Int
  | .instant epochNs => .ok epochNs
  | .date none => .error "Invalid Date"
  | .date (some ms) => .ok (ms * 1000000)
  | .text value => Domain.toInstant annotated value

def instantMsOrNull : Option InstantInput → Option Int
  | none => none
  | some (.text "") => none
  | some value => (toInstant annotated value).toOption.map fun ns => ns / 1000000

/-- A year of four digits, or with a sign and six. -/
def yearText (year : Int) : String :=
  if 0 ≤ year ∧ year ≤ 9999 then pad year 4
  else (if year < 0 then "-" else "+") ++ pad year.natAbs 6

def dateText (date : Date) : String :=
  yearText date.year ++ "-" ++ pad date.month 2 ++ "-" ++ pad date.day 2

/-- ISO-8601 in UTC with milliseconds. -/
def isoZ (ms : Int) : String :=
  let clock := ms % Domain.DAY_MS
  dateText (ofDayNumber (EPOCH_DAY + ms / Domain.DAY_MS)) ++ "T" ++ pad (clock / 3600000) 2 ++ ":" ++
    pad (clock / 60000 % 60) 2 ++ ":" ++ pad (clock / 1000 % 60) 2 ++ "." ++ pad (clock % 1000) 3 ++ "Z"

def toIsoZ (value : InstantInput) : Except String String := do
  let ns ← toInstant annotated value
  return isoZ (ns / 1000000)

/-- A text without its first fraction. -/
def dropFraction : List Char → List Char
  | [] => []
  | '.' :: d :: rest =>
      if d.isDigit then rest.dropWhile Char.isDigit else '.' :: dropFraction (d :: rest)
  | c :: rest => c :: dropFraction rest

/-- 2026-10-01T10:00:00.000Z becomes 20261001T100000Z. -/
def icsUtc (instant : InstantInput) : Except String (List Char) := do
  let iso ← toIsoZ annotated instant
  return dropFraction (iso.toList.filter fun c => c ≠ '-' ∧ c ≠ ':')

/-- 2026-10-01 becomes 20261001. -/
def icsDate (date : Date) : List Char := (dateText date).toList.filter fun c => c ≠ '-'

def zonedDateOf (instant : InstantInput) (zone : Zone) : Except String Date := do
  let ns ← toInstant annotated instant
  return zone.dayAt (ns / 1000000)

/-- The day after; `Temporal` has no day after the last of its range. -/
def nextDay (date : Date) : Except String Date :=
  if date.dayNumber < EPOCH_DAY + 100000000 then .ok (ofDayNumber (date.dayNumber + 1))
  else .error "Out of range"

/-! ## The file -/

structure IcsEvent where
  documentId : List UInt16
  title : Option (List UInt16)
  description : Option (List UInt16)
  location : Option (List UInt16)
  url : Option (List UInt16)
  start : InstantInput
  «end» : Option InstantInput
  allDay : Option Bool
  updatedAt : Option InstantInput

/-- The end of an event, if it has one. -/
def endOf (event : IcsEvent) : Option InstantInput :=
  if event.end = some (.text "") then none else event.end

/-- `name:value`, as a line of the file. -/
def line (name value : List Char) : List UInt16 := Utf16.encode (name ++ ':' :: value)

def lastDayOf (event : IcsEvent) (zone : Zone) (firstDay : Date) : Except String Date :=
  match endOf event with
  | none => .ok firstDay
  | some last => zonedDateOf annotated last zone

/-- The days of an event that lasts all day: its first, and the one behind its last. -/
def allDayDates (event : IcsEvent) (zone : Zone) : Except String (Date × Date) := do
  let firstDay ← zonedDateOf annotated event.start zone
  let lastDay ← lastDayOf annotated event zone firstDay
  let behind ← nextDay (if lastDay.dayNumber < firstDay.dayNumber then firstDay else lastDay)
  return (firstDay, behind)

def endUtc (event : IcsEvent) (start : List Char) : Except String (List Char) :=
  match endOf event with
  | none => .ok start
  | some last => icsUtc annotated last

/-- The start and the end of an event with a time of day. -/
def timedInstants (event : IcsEvent) : Except String (List Char × List Char) := do
  let start ← icsUtc annotated event.start
  let last ← endUtc annotated event start
  return (start, last)

/-- DTSTAMP, DTSTART and DTEND. -/
def icsEventDateLines (event : IcsEvent) (now : InstantInput) (zone : Zone) :
    Except String (List (List UInt16)) := do
  let stamp ← icsUtc annotated now
  if event.allDay = some true then
    let days ← allDayDates annotated event zone
    return [line "DTSTAMP".toList stamp, line "DTSTART;VALUE=DATE".toList (icsDate days.1),
      line "DTEND;VALUE=DATE".toList (icsDate days.2)]
  else
    let times ← timedInstants annotated event
    return [line "DTSTAMP".toList stamp, line "DTSTART".toList times.1,
      line "DTEND".toList times.2]

def icsSequence (updatedAt : Option InstantInput) : Int :=
  match instantMsOrNull annotated updatedAt with
  | none => 0
  | some ms =>
      if ms ≤ SEQUENCE_EPOCH_MS then 0 else min ((ms - SEQUENCE_EPOCH_MS) / 1000) MAX_SEQUENCE

/-- LAST-MODIFIED of a row with an instant of its last change. -/
def lastModified (updatedAt : Option InstantInput) : Except String (List (List UInt16)) :=
  match updatedAt with
  | none => .ok []
  | some instant =>
      if (instantMsOrNull annotated updatedAt).isSome then
        (icsUtc annotated instant).map fun text => [line "LAST-MODIFIED".toList text]
      else .ok []

/-- A text that is more than white space. -/
def nonEmpty (value : Option (List UInt16)) : Option (List UInt16) :=
  value.filter fun text => !(Utf16.decode text).all isTrimmed

/-- The first characters of a description, never half a surrogate pair, and whether
it was cut. -/
def cutDescription (description : List UInt16) : List UInt16 × Bool :=
  if description.length ≤ MAX_DESCRIPTION_CHARS then (description, false)
  else
    let text := description.take MAX_DESCRIPTION_CHARS
    (if text.getLast?.any Utf16.isHigh then text.dropLast else text, true)

/-- `:\/\/\S+$`. -/
def isAfterScheme : List Char → Bool
  | ':' :: '/' :: '/' :: c :: path => !(c :: path).any isTrimmed
  | _ => false

/-- `/^https?:\/\/\S+$/i`. -/
def isHttpUrl (url : List Char) : Bool :=
  ((url.take 4).map Char.toLower = "http".toList ∧ isAfterScheme (url.drop 4)) ∨
    ((url.take 5).map Char.toLower = "https".toList ∧ isAfterScheme (url.drop 5))

def httpUrl (value : Option (List UInt16)) : Option (List Char) :=
  (value.map fun text =>
    trimChars ((Utf16.decode text).filter fun c => !isControlChar c)).filter isHttpUrl

variable (markdownToPlainText : List UInt16 → List UInt16)

/-- The plain text of a description, marked where it was cut. -/
def descriptionText (description : Option (List UInt16)) : Option (List UInt16) :=
  match nonEmpty description with
  | none => none
  | some markdown =>
      let cut := cutDescription markdown
      let plain := markdownToPlainText cut.1
      if plain = [] then none
      else some (if cut.2 then plain ++ Utf16.encode ['…'] else plain)

/-- The content lines of an event's file. -/
def icsLines (event : IcsEvent) (now : InstantInput) (zone : Zone) :
    Except String (List (List UInt16)) := do
  let dates ← icsEventDateLines annotated event now zone
  let modified ← lastModified annotated event.updatedAt
  return [line "BEGIN".toList "VCALENDAR".toList, line "VERSION".toList "2.0".toList,
      line "PRODID".toList "-//Sinnlos//Events//EN".toList, line "BEGIN".toList "VEVENT".toList,
      Utf16.encode "UID:event-".toList ++ event.documentId ++ Utf16.encode "@sinnlos".toList] ++
    dates ++
    [line "SEQUENCE".toList (toString (icsSequence annotated event.updatedAt)).toList] ++
    modified ++
    [line "SUMMARY".toList (escapeIcsText (event.title.getD []))] ++
    ((nonEmpty event.location).map fun text => line "LOCATION".toList (escapeIcsText text)).toList ++
    ((descriptionText markdownToPlainText event.description).map fun text =>
      line "DESCRIPTION".toList (escapeIcsText text)).toList ++
    ((httpUrl event.url).map fun url => line "URL".toList url).toList ++
    [line "END".toList "VEVENT".toList, line "END".toList "VCALENDAR".toList]

structure IcsFile where
  contentType : String
  contentDisposition : List Char
  body : List Char

/-- The file of one published event row. -/
def buildIcs (nfkd : Nfkd) (event : IcsEvent) (now : InstantInput) (zone : Zone) :
    Except String IcsFile := do
  let lines ← icsLines annotated markdownToPlainText event now zone
  return {
    contentType := "text/calendar; charset=utf-8"
    contentDisposition := icsContentDisposition nfkd event.title
    body := List.intercalate CRLF (lines.map foldIcsLine) ++ CRLF }

end

end Sinnlos.Cms.Ics

import Sinnlos.Lib.PercentEncoding
import Sinnlos.Lib.Text
import Sinnlos.Lib.Utf16

/-!
# The name of an exported calendar file

The `Content-Disposition` header of an event's export: a name in ASCII for old
clients and the name itself, percent-encoded. Titles are texts of 16-bit units.
Unicode's compatibility decomposition is the runtime's.
-/

namespace Sinnlos.Cms.Ics

open Text

/-- `CONTROL_CHARS`. -/
def isControlChar (c : Char) : Bool := c.toNat ≤ 0x1F ∨ (0x7F ≤ c.toNat ∧ c.toNat ≤ 0x9F)

/-- What the ASCII name spells out instead of replacing it with `_`. -/
def ASCII_FALLBACK : List (Char × String) :=
  [('Ä', "Ae"), ('Ö', "Oe"), ('Ü', "Ue"), ('ä', "ae"), ('ö', "oe"), ('ü', "ue"), ('ß', "ss"),
    ('€', "EUR"), ('‐', "-"), ('‑', "-"), ('‒', "-"), ('–', "-"), ('—', "-"), ('―', "-"),
    ('−', "-"), ('‘', "'"), ('’', "'"), ('‚', "'"), ('…', "...")]

def DROPPED_QUOTES : List Char := ['"', '“', '”', '„', '‟', '«', '»', '‹', '›']

/-- NFKD: every character is decomposed in full, then the marks are put in order. -/
structure Nfkd where
  decomposition : Char → List Char
  reorder : List Char → List Char

def Nfkd.normalize (nfkd : Nfkd) (text : List Char) : List Char :=
  nfkd.reorder (text.flatMap nfkd.decomposition)

/-- The trimmed title, or `event`. -/
def baseFileName (title : Option (List UInt16)) : List Char :=
  let name := trimChars (((Utf16.decode (title.getD [])).filter fun c => !isControlChar c).map
    fun c => if c = '\\' ∨ c = '/' then '-' else c)
  if name = [] then "event".toList else name

def spellOut (c : Char) : List Char :=
  match ASCII_FALLBACK.lookup c with
  | some text => text.toList
  | none => [c]

def isCombiningMark (c : Char) : Bool := 0x300 ≤ c.toNat ∧ c.toNat ≤ 0x36F

def isPrintable (c : Char) : Bool := 0x20 ≤ c.toNat ∧ c.toNat ≤ 0x7E

/-- Every run of such characters becomes one character; `inRun` behind one of them. -/
def collapseRuns (p : Char → Bool) (fill : Char) : Bool → List Char → List Char
  | _, [] => []
  | inRun, c :: rest =>
      if p c then
        if inRun then collapseRuns p fill true rest else fill :: collapseRuns p fill true rest
      else c :: collapseRuns p fill false rest

/-- A text without the blanks and underscores around it. -/
def stripEnds (text : List Char) : List Char :=
  (text.dropWhile fun c => c = '_' ∨ c = ' ').rdropWhile fun c => c = '_' ∨ c = ' '

/-- The characters of the ASCII name before its runs are shortened. -/
def asciiChars (nfkd : Nfkd) (name : List Char) : List Char :=
  (((nfkd.normalize ((name.flatMap spellOut).filter (· ∉ DROPPED_QUOTES))).filter
    fun c => !isCombiningMark c).map fun c => if isPrintable c then c else '_').filter
      fun c => c ≠ '"' ∧ c ≠ '\\'

/-- Printable ASCII (quotes and backslashes removed). -/
def asciiFileName (nfkd : Nfkd) (name : List Char) : List Char :=
  let ascii := stripEnds (collapseRuns isTrimmed ' ' false
    (collapseRuns (· = '_') '_' false (asciiChars nfkd name)))
  if ascii.all fun c => c = '_' ∨ c = ' ' ∨ c = '.' then "event".toList else ascii

/-- Characters that `encodeURIComponent` leaves as they are. -/
def isUriUnreserved (c : Char) : Bool :=
  c.isAlphanum ∨ c ∈ ['-', '_', '.', '!', '~', '*', '\x27', '(', ')']

/-- RFC 8187 value-chars. -/
def encodeRfc8187 (value : List Char) : List Char :=
  (PercentEncoding.encodeText isUriUnreserved value).flatMap fun c =>
    if c ∈ ['\x27', '(', ')', '*'] then PercentEncoding.encodeByte (UInt8.ofNat c.toNat) else [c]

/-- The header for the export of an event with this title. -/
def icsContentDisposition (nfkd : Nfkd) (title : Option (List UInt16)) : List Char :=
  let name := baseFileName title
  "attachment; filename=\"".toList ++ asciiFileName nfkd name ++ ".ics\"; filename*=UTF-8''".toList ++
    encodeRfc8187 (name ++ ".ics".toList)

end Sinnlos.Cms.Ics

import Mathlib.Algebra.Order.Ring.Int
import Mathlib.Data.List.Range

/-!
# The polyglot scan of an upload

`hasZipEndRecord` of `apps/cms/src/utils/upload-zip.ts`: the file is read in chunks
that overlap by an end record less one byte, and each end-record signature that
starts in a chunk is examined.
-/

namespace Sinnlos.Cms.UploadZip

abbrev Bytes := List UInt8

/-- The layout or a limit refused the file. -/
structure ZipRefusal where
  reason : String
deriving DecidableEq

/-- End-record signatures that the scan examines. -/
def maxEndSignatures : Nat := 64

def SIG_CENTRAL : Nat := 0x02014b50

def SIG_ZIP64_LOCATOR : Nat := 0x07064b50

def END_RECORD_BYTES : Nat := 22

def CENTRAL_RECORD_BYTES : Nat := 46

def ZIP64_LOCATOR_BYTES : Nat := 20

/-- Bytes per read of the scan. -/
def SCAN_CHUNK_BYTES : Nat := 64 * 1024

def END_SIGNATURE : Bytes := [0x50, 0x4b, 0x05, 0x06]

/-- The byte at an offset; none counts as zero. -/
def byteAt (bytes : Bytes) (offset : Nat) : Nat := (bytes[offset]?.getD 0).toNat

/-- Four bytes, the lowest first. -/
def u32 (bytes : Bytes) (offset : Nat) : Nat :=
  byteAt bytes offset + 2 ^ 8 * byteAt bytes (offset + 1) + 2 ^ 16 * byteAt bytes (offset + 2) +
    2 ^ 24 * byteAt bytes (offset + 3)

/-- Up to `length` bytes at `position`; fewer only at the end of the file. -/
def read (file : Bytes) (position length : Nat) : Bytes := (file.drop position).take length

/-- Exactly `length` bytes at `position`, else the file is truncated. -/
def readExactly (file : Bytes) (position : Int) (length : Nat) : Except ZipRefusal Bytes :=
  if length = 0 then .ok []
  else if position < 0 ∨ file.length < position + length then .error ⟨"read past the end"⟩
  else
    let bytes := read file position.toNat length
    if bytes.length ≠ length then .error ⟨"short read"⟩ else .ok bytes

/-- A ZIP64 locator stands right before the end record. -/
def hasZip64Locator (file : Bytes) (endPosition : Nat) : Except ZipRefusal Bool :=
  if endPosition < ZIP64_LOCATOR_BYTES then .ok false
  else do
    let locator ← readExactly file (endPosition - ZIP64_LOCATOR_BYTES) 4
    return u32 locator 0 == SIG_ZIP64_LOCATOR

/-- A central directory starts at one of the places. -/
def startsDirectory (file : Bytes) : List Int → Except ZipRefusal Bool
  | [] => .ok false
  | directoryStart :: rest => do
      let signature ← readExactly file directoryStart 4
      if u32 signature 0 = SIG_CENTRAL then return true else startsDirectory file rest

/-- The test of one signature, with the fields of its record. -/
def isEndRecord (file : Bytes) (position directorySize directoryOffset : Nat) :
    Except ZipRefusal Bool := do
  if ← hasZip64Locator file position then return true
  else
    startsDirectory file
      (([(position : Int) - directorySize, (directoryOffset : Int)]).filter fun candidate =>
        0 ≤ candidate ∧ candidate + CENTRAL_RECORD_BYTES ≤ position)

/-- The signature stands at an offset. -/
def signatureAt (bytes : Bytes) (offset : Nat) : Bool :=
  (bytes.drop offset).take 4 = END_SIGNATURE

/-- The first signature from an offset on. -/
def indexOf (view : Bytes) (offset : Nat) : Option Nat :=
  (List.range' offset (view.length - offset)).find? (signatureAt view)

theorem indexOf_bounds {view : Bytes} {offset at' : Nat} (h : indexOf view offset = some at') :
    offset ≤ at' ∧ at' < view.length := by
  have hmem := List.mem_of_find?_eq_some h
  rw [List.mem_range'_1] at hmem
  omega

/-- What a part of the scan comes to. -/
inductive Progress
  | found
  /-- Nothing yet, after so many signatures. -/
  | examined (count : Nat)
deriving DecidableEq

/-- Go on with a scan unless it has found a record. -/
def Progress.andThen (next : Nat → Except ZipRefusal Progress) :
    Progress → Except ZipRefusal Progress
  | .found => .ok .found
  | .examined count => next count

/-- The answer of a scan, with what comes after it. -/
def Progress.answer (next : Nat → Except ZipRefusal Bool) : Progress → Except ZipRefusal Bool
  | .found => .ok true
  | .examined count => next count

/-- Examine one signature, unless it is one too many. -/
def examineSignature (file : Bytes) (position directorySize directoryOffset examined : Nat) :
    Except ZipRefusal Progress :=
  if maxEndSignatures < examined + 1 then .error ⟨"too many end-record signatures"⟩
  else do
    if ← isEndRecord file position directorySize directoryOffset then return .found
    else return .examined (examined + 1)

/-- The signatures of a chunk from an offset on. -/
def scanChunk (file view : Bytes) (start offset examined : Nat) : Except ZipRefusal Progress :=
  match h : indexOf view offset with
  | none => .ok (.examined examined)
  | some at' =>
      if at' < SCAN_CHUNK_BYTES then
        if at' + END_RECORD_BYTES ≤ view.length then
          examineSignature file (start + at') (u32 view (at' + 12)) (u32 view (at' + 16)) examined >>=
            Progress.andThen fun count => scanChunk file view start (at' + 1) count
        else scanChunk file view start (at' + 1) examined
      else .ok (.examined examined)
termination_by view.length - offset
decreasing_by
  all_goals
    have hbounds := indexOf_bounds h
    omega

/-- The chunks from `start` on. -/
def scanChunks (file : Bytes) (start examined : Nat) : Except ZipRefusal Bool :=
  if start < file.length then do
    let length := min (SCAN_CHUNK_BYTES + END_RECORD_BYTES - 1) (file.length - start)
    let view ← readExactly file start length
    let progress ← scanChunk file view start 0 examined
    progress.answer fun count => scanChunks file (start + SCAN_CHUNK_BYTES) count
  else .ok false
termination_by file.length - start
decreasing_by
  unfold SCAN_CHUNK_BYTES
  omega

/-- Whether a zip archive hides anywhere in the file. -/
def hasZipEndRecord (file : Bytes) : Except ZipRefusal Bool :=
  if file.length < END_RECORD_BYTES then .ok false else scanChunks file 0 0

end Sinnlos.Cms.UploadZip

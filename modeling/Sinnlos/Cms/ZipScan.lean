import Sinnlos.Cms.UploadZip

/-! # A scan in chunks is a scan of the whole file

Every offset is in the own part of one chunk, and an end record that starts there is
whole in the chunk. So the signatures that the chunks examine are those of the file,
each once and in order, and they count towards the limit alike.
-/

namespace Sinnlos.Cms.UploadZip

/-! ## One pass over the file -/

/-- An end-record signature with room for its record. -/
def isCandidate (file : Bytes) (position : Nat) : Bool :=
  signatureAt file position && position + END_RECORD_BYTES ≤ file.length

/-- The same test and the same limit at each offset. -/
def scanOffsets (file : Bytes) : List Nat → Nat → Except ZipRefusal Progress
  | [], examined => .ok (.examined examined)
  | position :: rest, examined =>
      if isCandidate file position then
        examineSignature file position (u32 file (position + 12)) (u32 file (position + 16)) examined
          >>= Progress.andThen (scanOffsets file rest)
      else scanOffsets file rest examined

/-- The scan of the whole byte sequence, held at once. -/
def wholeFileScan (file : Bytes) : Except ZipRefusal Bool :=
  scanOffsets file (List.range file.length) 0 >>= Progress.answer fun _ => .ok false

theorem scanOffsets_append (file : Bytes) (front back : List Nat) :
    ∀ examined, scanOffsets file (front ++ back) examined =
      scanOffsets file front examined >>= Progress.andThen (scanOffsets file back) := by
  induction front with
  | nil => exact fun _ => rfl
  | cons position front ih =>
      intro examined
      rw [List.cons_append, scanOffsets, scanOffsets]
      split
      · cases examineSignature file position (u32 file (position + 12)) (u32 file (position + 16))
            examined with
        | error refusal => rfl
        | ok progress =>
            cases progress with
            | found => rfl
            | examined count => exact ih count
      · exact ih examined

variable {file : Bytes}

theorem scanOffsets_of_none {positions : List Nat}
    (h : ∀ position ∈ positions, isCandidate file position = false) (examined : Nat) :
    scanOffsets file positions examined = .ok (.examined examined) := by
  induction positions with
  | nil => rfl
  | cons position positions ih =>
      rw [scanOffsets, h position List.mem_cons_self]
      exact ih fun p hp => h p (List.mem_cons_of_mem position hp)

/-! ## What a chunk shows of the file -/

section Chunk
variable {file : Bytes} {start length offset : Nat}

theorem length_read : (read file start length).length = min length (file.length - start) := by
  rw [read, List.length_take, List.length_drop]

theorem byteAt_read (h : offset < length) :
    byteAt (read file start length) offset = byteAt file (start + offset) := by
  rw [byteAt, byteAt, read, List.getElem?_take_of_lt h, List.getElem?_drop]

theorem u32_read (h : offset + 4 ≤ length) :
    u32 (read file start length) offset = u32 file (start + offset) := by
  rw [u32, u32, byteAt_read (by omega), byteAt_read (by omega), byteAt_read (by omega),
    byteAt_read (by omega)]
  simp only [Nat.add_assoc]

theorem signatureAt_read (h : offset + 4 ≤ length) :
    signatureAt (read file start length) offset = signatureAt file (start + offset) := by
  have hsame : ((read file start length).drop offset).take 4 =
      (file.drop (start + offset)).take 4 := by
    rw [read, List.drop_take, List.take_take, List.drop_drop, Nat.min_eq_left (by omega)]
  rw [signatureAt, signatureAt, hsame]

theorem length_of_signatureAt {bytes : Bytes} (h : signatureAt bytes offset = true) :
    offset + 4 ≤ bytes.length := by
  have hlength := congrArg List.length (of_decide_eq_true h)
  rw [List.length_take, List.length_drop] at hlength
  have hfour : END_SIGNATURE.length = 4 := rfl
  omega

end Chunk

/-! ## One chunk -/

/-- The chunk that is read at `start`. -/
def chunkAt (file : Bytes) (start : Nat) : Bytes :=
  read file start (min (SCAN_CHUNK_BYTES + END_RECORD_BYTES - 1) (file.length - start))

theorem length_chunkAt (file : Bytes) (start : Nat) : (chunkAt file start).length =
    min (SCAN_CHUNK_BYTES + END_RECORD_BYTES - 1) (file.length - start) := by
  rw [chunkAt, length_read]
  omega

variable {start offset at' : Nat}

/-- In the own part of a chunk a record is whole in it, or not in the file. -/
theorem whole_in_chunk (h : offset < SCAN_CHUNK_BYTES) :
    offset + END_RECORD_BYTES ≤ (chunkAt file start).length ↔
      start + offset + END_RECORD_BYTES ≤ file.length := by
  rw [length_chunkAt]
  unfold SCAN_CHUNK_BYTES END_RECORD_BYTES at *
  omega

theorem signatureAt_chunk (h : offset + 4 ≤ (chunkAt file start).length) :
    signatureAt (chunkAt file start) offset = signatureAt file (start + offset) := by
  rw [length_chunkAt] at h
  exact signatureAt_read h

theorem u32_chunk (h : offset + 4 ≤ (chunkAt file start).length) :
    u32 (chunkAt file start) offset = u32 file (start + offset) := by
  rw [length_chunkAt] at h
  exact u32_read h

/-- Before the first signature of a chunk no offset is a candidate. -/
theorem not_candidate_of_chunk (h : offset < SCAN_CHUNK_BYTES)
    (hno : signatureAt (chunkAt file start) offset = false) :
    isCandidate file (start + offset) = false := by
  by_contra hcandidate
  rw [Bool.not_eq_false, isCandidate, Bool.and_eq_true, decide_eq_true_eq] at hcandidate
  have hwhole := (whole_in_chunk h).mpr hcandidate.2
  rw [signatureAt_chunk (by unfold END_RECORD_BYTES at hwhole; omega), hcandidate.1] at hno
  cases hno

/-- The own offsets of a chunk from one on. -/
def ownOffsets (file : Bytes) (start offset : Nat) : List Nat :=
  List.range' (start + offset) (min SCAN_CHUNK_BYTES (file.length - start) - offset)

/-- The offsets before the first signature are passed over. -/
theorem ownOffsets_none {stop : Nat}
    (hno : ∀ i, offset ≤ i → i < stop → i < SCAN_CHUNK_BYTES →
      signatureAt (chunkAt file start) i = false)
    (hstop : min SCAN_CHUNK_BYTES (file.length - start) ≤ stop) (examined : Nat) :
    scanOffsets file (ownOffsets file start offset) examined = .ok (.examined examined) := by
  apply scanOffsets_of_none
  intro position hposition
  obtain ⟨hle, hlt⟩ := List.mem_range'_1.mp hposition
  obtain ⟨i, rfl⟩ : ∃ i, position = start + i := ⟨position - start, by omega⟩
  have hown : i < SCAN_CHUNK_BYTES := by omega
  exact not_candidate_of_chunk hown (hno i (by omega) (by omega) hown)

/-- The offsets up to the first signature come before it. -/
theorem ownOffsets_split (hle : offset ≤ at')
    (hlt : at' < min SCAN_CHUNK_BYTES (file.length - start)) :
    ownOffsets file start offset = List.range' (start + offset) (at' - offset) ++
      (start + at') :: ownOffsets file start (at' + 1) := by
  unfold ownOffsets
  have hsplit : min SCAN_CHUNK_BYTES (file.length - start) - offset =
      (at' - offset) + ((min SCAN_CHUNK_BYTES (file.length - start) - (at' + 1)) + 1) := by
    omega
  have hfirst : start + offset + (at' - offset) = start + at' := by omega
  rw [hsplit, ← List.range'_append_1, hfirst, List.range'_succ]
  rfl

variable {view : Bytes}

/-- What stands before the first signature of a chunk. -/
theorem indexOf_first (h : indexOf view offset = some at') :
    signatureAt view at' = true ∧ ∀ i, offset ≤ i → i < at' → signatureAt view i = false := by
  have hfind := List.find?_range'_eq_some.mp h
  refine ⟨hfind.1, fun i hle hlt => ?_⟩
  have hno := hfind.2.2 i hle hlt
  simpa using hno

theorem indexOf_none (h : indexOf view offset = none) :
    ∀ i, offset ≤ i → i < view.length → signatureAt view i = false := by
  intro i hle hlt
  have hno := List.find?_eq_none.mp h i (List.mem_range'_1.mpr (by omega))
  simpa using hno

/-- Passing over the offsets before a signature leaves that signature. -/
theorem scanOffsets_ownOffsets (hle : offset ≤ at')
    (hlt : at' < min SCAN_CHUNK_BYTES (file.length - start))
    (hno : ∀ i, offset ≤ i → i < at' → signatureAt (chunkAt file start) i = false)
    (examined : Nat) :
    scanOffsets file (ownOffsets file start offset) examined =
      scanOffsets file ((start + at') :: ownOffsets file start (at' + 1)) examined := by
  rw [ownOffsets_split hle hlt, scanOffsets_append, scanOffsets_of_none]
  · rfl
  · intro position hposition
    obtain ⟨hge, hless⟩ := List.mem_range'_1.mp hposition
    obtain ⟨i, rfl⟩ : ∃ i, position = start + i := ⟨position - start, by omega⟩
    exact not_candidate_of_chunk (by omega) (hno i (by omega) (by omega))

/-- A chunk examines its own offsets. -/
theorem scanChunk_eq (file : Bytes) (start offset examined : Nat) :
    scanChunk file (chunkAt file start) start offset examined =
      scanOffsets file (ownOffsets file start offset) examined := by
  have hown : min SCAN_CHUNK_BYTES (file.length - start) ≤ (chunkAt file start).length := by
    rw [length_chunkAt]
    unfold END_RECORD_BYTES
    omega
  have hshort : (chunkAt file start).length ≤ file.length - start := by
    rw [length_chunkAt]
    omega
  induction hleft : (chunkAt file start).length - offset using Nat.strong_induction_on
    generalizing offset examined with
  | _ left ih =>
      rw [scanChunk]
      split
      · next hnone =>
          have hno := indexOf_none hnone
          exact (ownOffsets_none (fun i hle hlt _ => hno i hle hlt) hown examined).symm
      · next at' hsome =>
          obtain ⟨hle, hlt⟩ := indexOf_bounds hsome
          obtain ⟨hsignature, hno⟩ := indexOf_first hsome
          have hlength := length_of_signatureAt hsignature
          -- the rest of the chunk is shorter
          have hrest (count : Nat) :
              scanChunk file (chunkAt file start) start (at' + 1) count =
                scanOffsets file (ownOffsets file start (at' + 1)) count :=
            ih _ (by omega) (at' + 1) count rfl
          split
          · next hchunk =>
              have hsplit := scanOffsets_ownOffsets hle (by omega) hno examined
              rw [hsplit, scanOffsets]
              by_cases hwhole : at' + END_RECORD_BYTES ≤ (chunkAt file start).length
              · have hfile := (whole_in_chunk hchunk).mp hwhole
                have hrecord : at' + 20 ≤ (chunkAt file start).length := by
                  unfold END_RECORD_BYTES at hwhole
                  omega
                have hcandidate : isCandidate file (start + at') = true := by
                  rw [isCandidate, ← signatureAt_chunk hlength, hsignature]
                  simpa using hfile
                rw [if_pos hwhole, if_pos hcandidate, u32_chunk (by omega), u32_chunk hrecord]
                simp only [hrest, Nat.add_assoc]
              · have hfile : ¬ start + at' + END_RECORD_BYTES ≤ file.length :=
                  fun h => hwhole ((whole_in_chunk hchunk).mpr h)
                rw [if_neg hwhole, if_neg (by simp [isCandidate, hfile])]
                exact hrest examined
          · next hover =>
              have hstop : min SCAN_CHUNK_BYTES (file.length - start) ≤ at' := by omega
              exact (ownOffsets_none (fun i hle hlt _ => hno i hle hlt) hstop examined).symm

/-! ## All chunks -/

/-- The offsets of a chunk and those of the chunks after it. -/
theorem ownOffsets_append (file : Bytes) (start : Nat) :
    ownOffsets file start 0 ++
        List.range' (start + SCAN_CHUNK_BYTES) (file.length - (start + SCAN_CHUNK_BYTES)) =
      List.range' start (file.length - start) := by
  unfold ownOffsets
  by_cases hlast : file.length - start ≤ SCAN_CHUNK_BYTES
  · have hnone : file.length - (start + SCAN_CHUNK_BYTES) = 0 := by omega
    rw [hnone, Nat.min_eq_right hlast]
    simp
  · have hsplit : file.length - start =
        SCAN_CHUNK_BYTES + (file.length - (start + SCAN_CHUNK_BYTES)) := by omega
    rw [Nat.min_eq_left (by omega), Nat.add_zero, Nat.sub_zero, List.range'_append_1, ← hsplit]

theorem readExactly_chunk (h : start < file.length) :
    readExactly file start (min (SCAN_CHUNK_BYTES + END_RECORD_BYTES - 1) (file.length - start)) =
      .ok (chunkAt file start) := by
  have hpos : min (SCAN_CHUNK_BYTES + END_RECORD_BYTES - 1) (file.length - start) ≠ 0 := by
    unfold SCAN_CHUNK_BYTES END_RECORD_BYTES
    omega
  have hlength := length_chunkAt file start
  unfold chunkAt at hlength ⊢
  rw [readExactly, if_neg hpos, if_neg (by omega)]
  dsimp only
  rw [Int.toNat_natCast, if_neg (by omega)]

/-- A part of a scan and the answer of the rest. -/
theorem bind_answer {part : Except ZipRefusal Progress} {next stop : Nat → Except ZipRefusal Bool}
    {rest : Nat → Except ZipRefusal Progress}
    (h : ∀ count, next count = rest count >>= Progress.answer stop) :
    part >>= Progress.answer next =
      (part >>= Progress.andThen rest) >>= Progress.answer stop := by
  cases part with
  | error refusal => rfl
  | ok progress =>
      cases progress with
      | found => rfl
      | examined count => exact h count

/-- The chunks from one on scan the rest of the file. -/
theorem scanChunks_eq (file : Bytes) (start examined : Nat) :
    scanChunks file start examined =
      scanOffsets file (List.range' start (file.length - start)) examined >>=
        Progress.answer fun _ => .ok false := by
  induction hleft : file.length - start using Nat.strong_induction_on
    generalizing start examined with
  | _ left ih =>
      subst hleft
      rw [scanChunks]
      split
      · next hstart =>
          dsimp only
          rw [readExactly_chunk hstart, ← ownOffsets_append, scanOffsets_append, ← scanChunk_eq]
          have hless : file.length - (start + SCAN_CHUNK_BYTES) < file.length - start := by
            unfold SCAN_CHUNK_BYTES
            omega
          apply bind_answer
          intro count
          exact ih _ hless (start + SCAN_CHUNK_BYTES) count rfl
      · next hend =>
          have hnone : file.length - start = 0 := by omega
          rw [hnone]
          rfl

/-- The scan in chunks answers, or refuses, as the scan of the whole file does. -/
theorem hasZipEndRecord_eq_wholeFileScan (file : Bytes) :
    hasZipEndRecord file = wholeFileScan file := by
  rw [hasZipEndRecord, wholeFileScan, List.range_eq_range']
  split
  · next hshort =>
      rw [scanOffsets_of_none]
      · rfl
      · intro position _
        have hno : ¬ position + END_RECORD_BYTES ≤ file.length := by omega
        simp [isCandidate, hno]
  · exact scanChunks_eq file 0 0

end Sinnlos.Cms.UploadZip

import Sinnlos.Cms.IcsFileNames

/-!
# Which download headers are safe

The encoded name is always the sanitised title, read back from characters that a
header allows. The ASCII name is printable, without quotes and backslashes, but a
character whose decomposition has a slash brings the separator back that the title
was rid of.
-/

namespace Sinnlos.Cms.Ics

open Text PercentEncoding

/-- The characters besides the slash whose compatibility decomposition has one. -/
def SLASHED : List Char := ['℀', '℁', '℅', '℆', '／']

/-- What Unicode says of NFKD. -/
structure Nfkd.Documented (nfkd : Nfkd) : Prop where
  reorder_perm : ∀ text, (nfkd.reorder text).Perm text
  slash_iff : ∀ c, '/' ∈ nfkd.decomposition c ↔ c = '/' ∨ c ∈ SLASHED

/-- RFC 8187's attr-char. -/
def isAttrChar (c : Char) : Bool :=
  c.isAlphanum ∨ c ∈ ['!', '#', '$', '&', '+', '-', '.', '^', '_', '\x60', '|', '~']

/-- Both names of a header. -/
structure SafeHeader (header name plain extended : List Char) : Prop where
  written : header = "attachment; filename=\"".toList ++ plain ++ "\"; filename*=UTF-8''".toList ++
    extended
  printable : ∀ c ∈ plain, isPrintable c = true
  unquoted : ∀ c ∈ plain, c ≠ '"' ∧ c ≠ '\\'
  unseparated : '/' ∉ plain
  not_empty : ∃ stem, stem ≠ [] ∧ plain = stem ++ ".ics".toList
  value_chars : ∀ c ∈ extended, isAttrChar c = true ∨ c = '%'
  decoded : decodeText extended = some (name ++ ".ics".toList)

variable {nfkd : Nfkd} {name text : List Char} {c : Char}

/-! ## The encoded name -/

def isPlain (c : Char) : Bool := isUriUnreserved c ∧ c ∉ ['\x27', '(', ')', '*']

theorem toNat_lt_of_isAlphanum (h : c.isAlphanum = true) : c.toNat < 0x80 := by
  rw [Text.isAlphanum_iff] at h
  simp only [Char.le_def, UInt32.le_iff_toNat_le] at h
  change c.val.toNat < 0x80
  have h65 : 'A'.val.toNat = 65 := rfl
  have h90 : 'Z'.val.toNat = 90 := rfl
  have h97 : 'a'.val.toNat = 97 := rfl
  have h122 : 'z'.val.toNat = 122 := rfl
  have h48 : '0'.val.toNat = 48 := rfl
  have h57 : '9'.val.toNat = 57 := rfl
  omega

theorem ascii_isPlain : Ascii isPlain := by
  intro c h
  unfold isPlain isUriUnreserved at h
  simp only [decide_eq_true_eq] at h
  obtain ⟨hunreserved | hmark, _⟩ := h
  · refine ⟨toNat_lt_of_isAlphanum hunreserved, ?_⟩
    rintro rfl
    exact absurd hunreserved (by decide)
  · have hall : ∀ c ∈ ['-', '_', '.', '!', '~', '*', '\x27', '(', ')'], c.toNat < 0x80 ∧ c ≠ '%' :=
      forall_mem_of_all (by decide)
    exact hall c hmark

theorem escaped_byte (byte : UInt8) :
    ((encodeByte byte).flatMap fun c =>
      if c ∈ ['\x27', '(', ')', '*'] then encodeByte (UInt8.ofNat c.toNat) else [c]) =
        encodeByte byte := by
  have hdigits : ∀ n : Fin 16, hexDigit n ∉ ['\x27', '(', ')', '*'] := by decide
  have hlt := byte.toNat_lt
  have hhigh := hdigits ⟨byte.toNat / 16, by omega⟩
  have hlow := hdigits ⟨byte.toNat % 16, by omega⟩
  have hpercent : '%' ∉ ['\x27', '(', ')', '*'] := by decide
  simp only [encodeByte, List.flatMap_cons, List.flatMap_nil, if_neg hpercent, if_neg hhigh,
    if_neg hlow, List.append_nil, List.cons_append, List.nil_append]

/-- Escaping afterwards what was left as it is comes to the same as escaping it at once. -/
theorem encodeRfc8187_eq (value : List Char) : encodeRfc8187 value = encodeText isPlain value := by
  unfold encodeRfc8187 encodeText
  rw [List.flatMap_assoc]
  congr 1
  funext c
  unfold PercentEncoding.encodeChar isPlain
  by_cases hunreserved : isUriUnreserved c = true
  · by_cases hescaped : c ∈ ['\x27', '(', ')', '*']
    · have hascii : c.toNat < 0x80 := by
        have hall : ∀ c ∈ ['\x27', '(', ')', '*'], c.toNat < 0x80 :=
          forall_mem_of_all (by decide)
        exact hall c hescaped
      rw [if_pos hunreserved, List.flatMap_singleton, if_pos hescaped, Utf8.encodeChar_ascii hascii,
        List.flatMap_singleton]
      simp [hescaped]
    · rw [if_pos hunreserved, List.flatMap_singleton, if_neg hescaped]
      simp [hunreserved, hescaped]
  · rw [if_neg hunreserved, List.flatMap_assoc]
    simp only [escaped_byte, hunreserved]
    simp

theorem isAttrChar_of_isPlain (h : isPlain c = true) : isAttrChar c = true := by
  unfold isPlain isUriUnreserved at h
  simp only [decide_eq_true_eq] at h
  obtain ⟨hunreserved | hmark, hescaped⟩ := h
  · simp [isAttrChar, hunreserved]
  · have hall : ∀ c ∈ ['-', '_', '.', '!', '~', '*', '\x27', '(', ')'],
        c ∉ ['\x27', '(', ')', '*'] → isAttrChar c = true :=
      forall_mem_of_all (by decide)
    exact hall c hmark hescaped

theorem mem_encodeRfc8187 {value : List Char} (h : c ∈ encodeRfc8187 value) :
    isAttrChar c = true ∨ c = '%' := by
  rw [encodeRfc8187_eq] at h
  exact (mem_encodeText (by decide) h).imp_left isAttrChar_of_isPlain

theorem decodeText_encodeRfc8187 (value : List Char) :
    decodeText (encodeRfc8187 value) = some value := by
  rw [encodeRfc8187_eq, decodeText_encodeText ascii_isPlain]

/-! ## Runs and ends -/

variable {p : Char → Bool} {d : Char} {fill : Char}

theorem mem_of_mem_collapseRuns {inRun : Bool} (h : c ∈ collapseRuns p fill inRun text) :
    c = fill ∨ c ∈ text := by
  induction text generalizing inRun with
  | nil => cases h
  | cons d text ih =>
      rw [collapseRuns] at h
      split at h
      · split at h
        · exact (ih h).imp_right (List.mem_cons_of_mem d)
        · rw [List.mem_cons] at h
          exact h.elim Or.inl fun h => (ih h).imp_right (List.mem_cons_of_mem d)
      · rw [List.mem_cons] at h
        cases h with
        | inl h => exact Or.inr (h ▸ List.mem_cons_self)
        | inr h => exact (ih h).imp_right (List.mem_cons_of_mem d)

theorem mem_collapseRuns (hp : p c = false) (h : c ∈ text) (inRun : Bool) :
    c ∈ collapseRuns p fill inRun text := by
  induction text generalizing inRun with
  | nil => cases h
  | cons d text ih =>
      rw [collapseRuns]
      rw [List.mem_cons] at h
      cases h with
      | inl h =>
          subst h
          simp [hp]
      | inr h =>
          have hrest := ih h
          split
          · split
            · exact hrest true
            · exact List.mem_cons_of_mem _ (hrest true)
          · exact List.mem_cons_of_mem _ (hrest false)

theorem mem_dropWhile (hp : p c = false) (h : c ∈ text) : c ∈ text.dropWhile p := by
  rw [← @List.takeWhile_append_dropWhile _ p text, List.mem_append] at h
  cases h with
  | inl h =>
      have hall := List.mem_takeWhile_imp h
      rw [hp] at hall
      cases hall
  | inr h => exact h

theorem mem_rdropWhile (hp : p c = false) (h : c ∈ text) : c ∈ text.rdropWhile p := by
  unfold List.rdropWhile
  rw [List.mem_reverse]
  exact mem_dropWhile hp (List.mem_reverse.mpr h)

theorem mem_trimChars (hc : isTrimmed c = false) (h : c ∈ text) : c ∈ trimChars text :=
  mem_rdropWhile hc (mem_dropWhile hc h)

theorem mem_of_mem_trimChars (h : c ∈ trimChars text) : c ∈ text :=
  (List.dropWhile_sublist _).subset ((List.rdropWhile_prefix _ _).subset h)

theorem mem_of_mem_stripEnds (h : c ∈ stripEnds text) : c ∈ text :=
  (List.dropWhile_sublist _).subset ((List.rdropWhile_prefix _ _).subset h)

theorem mem_stripEnds (hunderscore : c ≠ '_') (hblank : c ≠ ' ') (h : c ∈ text) :
    c ∈ stripEnds text := by
  have hp : decide (c = '_' ∨ c = ' ') = false := by simp [hunderscore, hblank]
  exact mem_rdropWhile hp (mem_dropWhile hp h)

/-! ## The ASCII name -/

theorem chars_asciiChars (h : c ∈ asciiChars nfkd name) :
    isPrintable c = true ∧ c ≠ '"' ∧ c ≠ '\\' := by
  unfold asciiChars at h
  rw [List.mem_filter, decide_eq_true_eq] at h
  obtain ⟨hmap, hunquoted⟩ := h
  obtain ⟨d, _, rfl⟩ := List.mem_map.mp hmap
  refine ⟨?_, hunquoted⟩
  split
  · assumption
  · decide

theorem chars_asciiFileName (h : c ∈ asciiFileName nfkd name) :
    isPrintable c = true ∧ c ≠ '"' ∧ c ≠ '\\' := by
  unfold asciiFileName at h
  dsimp only at h
  split at h
  · have hall : ∀ c ∈ "event".toList, isPrintable c = true ∧ c ≠ '"' ∧ c ≠ '\\' :=
      forall_mem_of_all (by decide)
    exact hall c h
  · have hspaces := mem_of_mem_collapseRuns (mem_of_mem_stripEnds h)
    have hblank : isPrintable ' ' = true ∧ ' ' ≠ '"' ∧ ' ' ≠ '\\' := by decide
    have hunderscore : isPrintable '_' = true ∧ '_' ≠ '"' ∧ '_' ≠ '\\' := by decide
    cases hspaces with
    | inl h => exact h ▸ hblank
    | inr h =>
        cases mem_of_mem_collapseRuns h with
        | inl h => exact h ▸ hunderscore
        | inr h => exact chars_asciiChars h

theorem asciiFileName_ne_nil : asciiFileName nfkd name ≠ [] := by
  unfold asciiFileName
  dsimp only
  split
  · decide
  · intro h
    rename_i hall
    exact hall (by rw [h]; rfl)

/-! ## Where a slash comes from -/

theorem slash_mem_asciiChars : '/' ∈ asciiChars nfkd name ↔
    '/' ∈ nfkd.normalize ((name.flatMap spellOut).filter (· ∉ DROPPED_QUOTES)) := by
  unfold asciiChars
  constructor
  · intro h
    rw [List.mem_filter] at h
    obtain ⟨c, hmem, hc⟩ := List.mem_map.mp h.1
    split at hc
    · exact hc ▸ (List.mem_filter.mp hmem).1
    · exact absurd hc (by decide)
  · intro h
    rw [List.mem_filter]
    refine ⟨List.mem_map.mpr ⟨'/', ?_, by decide⟩, by decide⟩
    exact List.mem_filter.mpr ⟨h, by decide⟩

theorem slash_mem_asciiFileName :
    '/' ∈ asciiFileName nfkd name ↔ '/' ∈ asciiChars nfkd name := by
  have hstrip (h : '/' ∈ asciiChars nfkd name) : '/' ∈ stripEnds (collapseRuns isTrimmed ' ' false
      (collapseRuns (· = '_') '_' false (asciiChars nfkd name))) :=
    mem_stripEnds (by decide) (by decide)
      (mem_collapseRuns (by decide) (mem_collapseRuns (by decide) h false) false)
  unfold asciiFileName
  dsimp only
  split
  · rename_i hall
    constructor
    · intro h
      exact absurd h (by decide)
    · intro h
      have hslash := List.all_eq_true.mp hall '/' (hstrip h)
      exact absurd hslash (by decide)
  · constructor
    · intro h
      cases mem_of_mem_collapseRuns (mem_of_mem_stripEnds h) with
      | inl h => exact absurd h (by decide)
      | inr h => exact (mem_of_mem_collapseRuns h).resolve_left (by decide)
    · exact hstrip

/-- Characters that are neither spelled out, nor part of a spelling, nor a quote. -/
theorem mem_spellOut_iff (h : d = '/' ∨ d ∈ SLASHED) : d ∈ spellOut c ↔ d = c := by
  have hkeys : ∀ d ∈ '/' :: SLASHED, ∀ entry ∈ ASCII_FALLBACK, d ≠ entry.1 ∧ d ∉ entry.2.toList :=
    forall_mem_of_all (by decide)
  rw [← List.mem_cons] at h
  unfold spellOut
  split
  · rename_i text hlookup
    obtain ⟨front, back, hsplit, _⟩ := List.lookup_eq_some_iff.mp hlookup
    have hentry := hkeys d h (c, text) (by rw [hsplit]; simp)
    exact ⟨fun hmem => absurd hmem hentry.2, fun heq => absurd heq hentry.1⟩
  · rw [List.mem_singleton]

theorem mem_spelled_iff (h : d = '/' ∨ d ∈ SLASHED) :
    d ∈ (name.flatMap spellOut).filter (· ∉ DROPPED_QUOTES) ↔ d ∈ name := by
  have hquotes : ∀ d ∈ '/' :: SLASHED, d ∉ DROPPED_QUOTES := forall_mem_of_all (by decide)
  have hquote := hquotes d (List.mem_cons.mpr h)
  rw [List.mem_filter, List.mem_flatMap]
  simp only [mem_spellOut_iff h, hquote]
  simp

theorem slash_mem_normalize (documented : nfkd.Documented) :
    '/' ∈ nfkd.normalize ((name.flatMap spellOut).filter (· ∉ DROPPED_QUOTES)) ↔
      ∃ d ∈ name, d = '/' ∨ d ∈ SLASHED := by
  unfold Nfkd.normalize
  rw [(documented.reorder_perm _).mem_iff, List.mem_flatMap]
  constructor
  · intro h
    obtain ⟨d, hmem, hslash⟩ := h
    have hd := (documented.slash_iff d).mp hslash
    exact ⟨d, (mem_spelled_iff hd).mp hmem, hd⟩
  · intro h
    obtain ⟨d, hmem, hd⟩ := h
    exact ⟨d, (mem_spelled_iff hd).mpr hmem, (documented.slash_iff d).mpr hd⟩

/-! ## The sanitised title -/

theorem slash_not_mem_baseFileName (title : Option (List UInt16)) : '/' ∉ baseFileName title := by
  unfold baseFileName
  dsimp only
  split
  · decide
  · intro h
    obtain ⟨c, _, hc⟩ := List.mem_map.mp (mem_of_mem_trimChars h)
    split at hc
    · exact absurd hc (by decide)
    · rename_i hother
      exact hother (Or.inr hc)

theorem mem_baseFileName_iff (title : Option (List UInt16)) (h : d ∈ SLASHED) :
    d ∈ baseFileName title ↔ d ∈ Utf16.decode (title.getD []) := by
  have hkept : ∀ d ∈ SLASHED, isControlChar d = false ∧ isTrimmed d = false ∧ d ≠ '-' ∧
      d ∉ "event".toList ∧ ¬(d = '\\' ∨ d = '/') :=
      forall_mem_of_all (by decide)
  obtain ⟨hcontrol, htrimmed, hdash, hevent, hseparator⟩ := hkept d h
  have hmem (hd : d ∈ Utf16.decode (title.getD [])) :
      d ∈ trimChars (((Utf16.decode (title.getD [])).filter fun c => !isControlChar c).map
        fun c => if c = '\\' ∨ c = '/' then '-' else c) := by
    apply mem_trimChars htrimmed
    refine List.mem_map.mpr ⟨d, List.mem_filter.mpr ⟨hd, by simp [hcontrol]⟩, ?_⟩
    rw [if_neg hseparator]
  unfold baseFileName
  dsimp only
  split
  · rename_i hempty
    constructor
    · intro hd
      exact absurd hd hevent
    · intro hd
      have hnone := hmem hd
      rw [hempty] at hnone
      cases hnone
  · constructor
    · intro hd
      obtain ⟨c, hc, heq⟩ := List.mem_map.mp (mem_of_mem_trimChars hd)
      split at heq
      · exact absurd heq.symm hdash
      · exact heq ▸ (List.mem_filter.mp hc).1
    · exact hmem

theorem slash_mem_plain_iff (documented : nfkd.Documented) (title : Option (List UInt16)) :
    '/' ∈ asciiFileName nfkd (baseFileName title) ↔
      ∃ d ∈ Utf16.decode (title.getD []), d ∈ SLASHED := by
  rw [slash_mem_asciiFileName, slash_mem_asciiChars, slash_mem_normalize documented]
  constructor
  · intro h
    obtain ⟨d, hmem, hd⟩ := h
    cases hd with
    | inl hslash => exact absurd (hslash ▸ hmem) (slash_not_mem_baseFileName title)
    | inr hd => exact ⟨d, (mem_baseFileName_iff title hd).mp hmem, hd⟩
  · intro h
    obtain ⟨d, hmem, hd⟩ := h
    exact ⟨d, (mem_baseFileName_iff title hd).mpr hmem, Or.inr hd⟩

/-- The header is safe for exactly the titles without such a character. -/
theorem downloadHeader_safe_iff (documented : nfkd.Documented) (title : Option (List UInt16)) :
    SafeHeader (icsContentDisposition nfkd title) (baseFileName title)
        (asciiFileName nfkd (baseFileName title) ++ ".ics".toList)
        (encodeRfc8187 (baseFileName title ++ ".ics".toList)) ↔
      ∀ c ∈ Utf16.decode (title.getD []), c ∉ SLASHED := by
  have hextension : ∀ c ∈ ".ics".toList, isPrintable c = true ∧ c ≠ '"' ∧ c ≠ '\\' ∧ c ≠ '/' :=
    forall_mem_of_all (by decide)
  have hchars (c : Char) (h : c ∈ asciiFileName nfkd (baseFileName title) ++ ".ics".toList) :
      isPrintable c = true ∧ c ≠ '"' ∧ c ≠ '\\' := by
    rw [List.mem_append] at h
    cases h with
    | inl h => exact chars_asciiFileName h
    | inr h =>
        obtain ⟨hprintable, hquote, hbackslash, _⟩ := hextension c h
        exact ⟨hprintable, hquote, hbackslash⟩
  constructor
  · intro safe c hmem hc
    have hslash := (slash_mem_plain_iff documented title).mpr ⟨c, hmem, hc⟩
    exact safe.unseparated (List.mem_append_left _ hslash)
  · intro h
    exact {
      written := by
        have htail : ".ics\"; filename*=UTF-8\x27\x27".toList =
            ".ics".toList ++ "\"; filename*=UTF-8\x27\x27".toList := by decide
        unfold icsContentDisposition
        dsimp only
        rw [htail]
        simp only [List.append_assoc]
      printable := fun c hmem => (hchars c hmem).1
      unquoted := fun c hmem => (hchars c hmem).2
      unseparated := by
        rw [List.mem_append]
        intro hslash
        cases hslash with
        | inl hslash =>
            obtain ⟨d, hmem, hd⟩ := (slash_mem_plain_iff documented title).mp hslash
            exact h d hmem hd
        | inr hslash => exact (hextension '/' hslash).2.2.2 rfl
      not_empty := ⟨_, asciiFileName_ne_nil, rfl⟩
      value_chars := fun c hmem => mem_encodeRfc8187 hmem
      decoded := decodeText_encodeRfc8187 _ }

/-- The decompositions with a slash; everything else is left as it is. -/
def slashTable : Nfkd where
  decomposition c :=
    match c with
    | '℀' => "a/c".toList
    | '℁' => "a/s".toList
    | '℅' => "c/o".toList
    | '℆' => "c/u".toList
    | '／' => ['/']
    | c => [c]
  reorder := id

theorem slashTable_documented : slashTable.Documented where
  reorder_perm text := List.Perm.refl text
  slash_iff c := by
    unfold slashTable SLASHED
    dsimp only
    split
    all_goals first
      | decide
      | simp_all [eq_comm]

/-- A title in ordinary letters. -/
theorem downloadHeader_safe_iff_party :
    SafeHeader (icsContentDisposition slashTable (some (Utf16.encode "Grüße 1/2".toList)))
        (baseFileName (some (Utf16.encode "Grüße 1/2".toList)))
        (asciiFileName slashTable (baseFileName (some (Utf16.encode "Grüße 1/2".toList))) ++
          ".ics".toList)
        (encodeRfc8187 (baseFileName (some (Utf16.encode "Grüße 1/2".toList)) ++ ".ics".toList)) ↔
      ∀ c ∈ Utf16.decode ((some (Utf16.encode "Grüße 1/2".toList)).getD []), c ∉ SLASHED :=
  downloadHeader_safe_iff slashTable_documented _

/-- The title `a／b`. -/
theorem fullwidth_slash_separates :
    ¬ SafeHeader (icsContentDisposition slashTable (some [0x61, 0xFF0F, 0x62]))
        (baseFileName (some [0x61, 0xFF0F, 0x62]))
        (asciiFileName slashTable (baseFileName (some [0x61, 0xFF0F, 0x62])) ++ ".ics".toList)
        (encodeRfc8187 (baseFileName (some [0x61, 0xFF0F, 0x62]) ++ ".ics".toList)) := by
  intro safe
  have hslash : '/' ∈ asciiFileName slashTable (baseFileName (some [0x61, 0xFF0F, 0x62])) ++
      ".ics".toList := by decide +kernel
  exact safe.unseparated hslash

end Sinnlos.Cms.Ics

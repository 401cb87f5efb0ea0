import Mathlib.Data.List.Flatten
import Sinnlos.Cms.Ics

/-!
# Folding and escaping

A folded line is unfolded to what it was, in physical lines of at most 75 octets
that are each whole characters. A text value is unescaped to what it was, with its
line breaks normalised and without control characters.
-/

namespace Sinnlos.Cms.Ics

open FoldedLines

/-- A line of RFC 5545 before it is folded. -/
def IsContentLine (line : List UInt16) : Prop :=
  '\r' ∉ Utf16.decode line ∧ '\n' ∉ Utf16.decode line

structure FoldsLegally (line : List UInt16) : Prop where
  unfolded : unfold (foldIcsLine line) = Utf16.decode line
  octets : ∀ physical ∈ splitPair 13 10 (Utf8.encode (foldIcsLine line)), physical.length ≤ 75
  whole : ∀ physical ∈ splitPair 13 10 (Utf8.encode (foldIcsLine line)), ∃ text, physical = Utf8.encode text

/-- RFC 5545, 3.3.11, read back. -/
def unescapeIcsText : List Char → List Char
  | '\\' :: '\\' :: rest => '\\' :: unescapeIcsText rest
  | '\\' :: ';' :: rest => ';' :: unescapeIcsText rest
  | '\\' :: ',' :: rest => ',' :: unescapeIcsText rest
  | '\\' :: 'n' :: rest => '\n' :: unescapeIcsText rest
  | '\\' :: 'N' :: rest => '\n' :: unescapeIcsText rest
  | c :: rest => c :: unescapeIcsText rest
  | [] => []

/-- A text value with its line breaks normalised, without other control characters
than tab and line feed. -/
def cleanText (value : List UInt16) : List Char :=
  (normalizeBreaks (Utf16.decode value)).filter fun c => !isDropped c

variable {text : List Char} {c : Char}

/-! ## Octets -/

theorem utf8Length_eq (c : Char) : utf8Length c.toNat = (String.utf8EncodeChar c).length := by
  have hval : c.val.toNat = c.toNat := rfl
  rw [utf8Length, String.utf8EncodeChar, hval]
  by_cases h7 : c.toNat ≤ 0x7F
  · rw [if_pos h7, if_pos (by omega)]
    rfl
  · rw [if_neg h7, if_neg (by omega)]
    by_cases h11 : c.toNat ≤ 0x7FF
    · rw [if_pos h11, if_pos (by omega)]
      rfl
    · rw [if_neg h11, if_neg (by omega)]
      by_cases h16 : c.toNat ≤ 0xFFFF
      · rw [if_pos h16, if_pos (by omega)]
        rfl
      · rw [if_neg h16, if_neg (by omega)]
        rfl

theorem utf8Length_le (n : Nat) : utf8Length n ≤ 4 := by
  unfold utf8Length
  split
  · decide
  · split
    · decide
    · split <;> decide

theorem length_utf8_concat (text : List Char) (c : Char) :
    (Utf8.encode (text ++ [c])).length = (Utf8.encode text).length + utf8Length c.toNat := by
  rw [Utf8.encode_append, List.length_append, utf8Length_eq, Utf8.encode, Utf8.encode,
    List.flatMap_singleton]

theorem length_utf8_singleton (c : Char) : (Utf8.encode [c]).length = utf8Length c.toNat := by
  rw [Utf8.encode, List.flatMap_singleton, utf8Length_eq]

theorem lf_not_mem_encode (h : '\n' ∉ text) : 10 ∉ Utf8.encode text := by
  apply Utf8.not_mem_encode (by decide)
  intro c hc heq
  have hlf : c = '\n' := Char.toNat_inj.mp heq
  exact h (hlf ▸ hc)

/-! ## Folding -/

/-- The parts fill up: the first to its limit, the others to one octet less than a line. -/
structure Parts (limit : Nat) (text first : List Char) (others : List (List Char)) : Prop where
  whole : first ++ others.flatten = text
  first_le : (Utf8.encode first).length ≤ limit
  others_le : ∀ part ∈ others, (Utf8.encode part).length ≤ 74

theorem foldFrom_parts {limit octets : Nat} {current : List Char}
    (hoctets : octets = (Utf8.encode current).length) (hle : octets ≤ limit) (rest : List Char) :
    ∃ first others, foldFrom limit octets current rest = first :: others ∧
      Parts limit (current ++ rest) first others := by
  induction rest generalizing limit octets current with
  | nil => exact ⟨current, [], rfl, by simp, hoctets ▸ hle, by simp⟩
  | cons c rest ih =>
      rw [foldFrom]
      split
      · have hsmall := utf8Length_le c.toNat
        have hfour : utf8Length c.toNat ≤ ICS_LINE_OCTETS - 1 := by
          unfold ICS_LINE_OCTETS
          omega
        obtain ⟨first, others, heq, hparts⟩ := ih (length_utf8_singleton c).symm hfour
        rw [heq]
        refine ⟨current, first :: others, rfl, ?_, hoctets ▸ hle, ?_⟩
        · rw [List.flatten_cons, hparts.whole]
          rfl
        · rw [List.forall_mem_cons]
          exact ⟨hparts.first_le, hparts.others_le⟩
      · have hnext : octets + utf8Length c.toNat = (Utf8.encode (current ++ [c])).length := by
          rw [length_utf8_concat, hoctets]
        have hfits : octets + utf8Length c.toNat ≤ limit := by omega
        obtain ⟨first, others, heq, hparts⟩ := ih hnext hfits
        rw [List.append_assoc, List.singleton_append] at hparts
        exact ⟨first, others, heq, hparts⟩

theorem intercalate_cons {α : Type} (sep first : List α) (others : List (List α)) :
    List.intercalate sep (first :: others) = first ++ others.flatMap fun part => sep ++ part := by
  induction others generalizing first with
  | nil => simp [List.intercalate]
  | cons second others ih =>
      rw [List.flatMap_cons, List.append_assoc, ← ih second]
      simp [List.intercalate, List.intersperse]

/-- A folded line in its physical lines. -/
theorem foldIcsLine_parts (line : List UInt16) : ∃ first others,
    foldIcsLine line = first ++ others.flatMap (fun part => CRLF ++ ' ' :: part) ∧
      Parts 75 (Utf16.decode line) first others := by
  have hzero : 0 = (Utf8.encode []).length := rfl
  obtain ⟨first, others, heq, hparts⟩ :=
    foldFrom_parts hzero (Nat.zero_le ICS_LINE_OCTETS) (Utf16.decode line)
  refine ⟨first, others, ?_, hparts⟩
  have hsep : "\r\n ".toList = CRLF ++ [' '] := by decide
  rw [foldIcsLine, heq, intercalate_cons, hsep]
  simp only [List.append_assoc, List.singleton_append]

variable {rest : List Char} {line : List UInt16}

/-- What follows a line of a file does not matter, as long as it is no LF. -/
theorem unfold_parts {first : List Char} {others : List (List Char)}
    (hlf : '\n' ∉ first ++ others.flatten) (hrest : rest.head? ≠ some '\n') :
    unfold (first ++ (others.flatMap (fun part => CRLF ++ ' ' :: part) ++ rest)) =
      first ++ (others.flatten ++ unfold rest) := by
  induction others generalizing first with
  | nil => exact unfold_append (by simpa using hlf) hrest
  | cons second others ih =>
      rw [List.flatten_cons, List.mem_append, not_or] at hlf
      rw [List.flatMap_cons, unfold_append hlf.1 (by simp [CRLF]), List.append_assoc, List.append_assoc,
        List.cons_append, unfold_fold, ih hlf.2, List.flatten_cons, List.append_assoc]

theorem unfold_foldIcsLine (hlf : '\n' ∉ Utf16.decode line) (hrest : rest.head? ≠ some '\n') :
    unfold (foldIcsLine line ++ rest) = Utf16.decode line ++ unfold rest := by
  obtain ⟨first, others, heq, hparts⟩ := foldIcsLine_parts line
  rw [← hparts.whole] at hlf ⊢
  rw [heq, List.append_assoc, unfold_parts hlf hrest, List.append_assoc]

theorem encode_parts (first : List Char) (others : List (List Char)) :
    Utf8.encode (first ++ others.flatMap fun part => CRLF ++ ' ' :: part) =
      Utf8.encode first ++ (others.map fun part => Utf8.encode (' ' :: part)).flatMap
        fun physical => 13 :: 10 :: physical := by
  induction others with
  | nil => simp [Utf8.encode]
  | cons second others ih =>
      have hcrlf : Utf8.encode CRLF = [13, 10] := by decide
      rw [Utf8.encode_append] at ih ⊢
      have ih := List.append_cancel_left ih
      rw [List.flatMap_cons, Utf8.encode_append, ih, Utf8.encode_append, hcrlf, List.map_cons, List.flatMap_cons]
      simp

theorem foldIcsLine_legal (content : IsContentLine line) : FoldsLegally line := by
  have hlf := content.2
  obtain ⟨first, others, heq, hparts⟩ := foldIcsLine_parts line
  have hpieces : ∀ physical ∈ Utf8.encode first :: others.map fun part => Utf8.encode (' ' :: part),
      (10 : UInt8) ∉ physical := by
    rw [← hparts.whole, List.mem_append, not_or] at hlf
    rw [List.forall_mem_cons, List.forall_mem_map]
    refine ⟨lf_not_mem_encode hlf.1, ?_⟩
    intro part hpart
    apply lf_not_mem_encode
    rw [List.mem_cons, not_or]
    exact ⟨by decide, fun h => hlf.2 (List.mem_flatten.mpr ⟨part, hpart, h⟩)⟩
  have hsplit : splitPair 13 10 (Utf8.encode (foldIcsLine line)) =
      Utf8.encode first :: others.map fun part => Utf8.encode (' ' :: part) := by
    rw [heq, encode_parts]
    exact splitPair_joined (by decide) hpieces
  refine ⟨?_, ?_, ?_⟩
  · have hend : ([] : List Char).head? ≠ some '\n' := by simp
    have hunfold := unfold_foldIcsLine content.2 hend
    rwa [List.append_nil, unfold, List.append_nil] at hunfold
  · rw [hsplit, List.forall_mem_cons, List.forall_mem_map]
    refine ⟨hparts.first_le, ?_⟩
    intro part hpart
    have hle := hparts.others_le part hpart
    have hblank : (Utf8.encode (' ' :: part)).length = 1 + (Utf8.encode part).length := by
      rw [← List.singleton_append, Utf8.encode_append, List.length_append]
      rfl
    omega
  · rw [hsplit, List.forall_mem_cons, List.forall_mem_map]
    exact ⟨⟨first, rfl⟩, fun part _ => ⟨' ' :: part, rfl⟩⟩

/-! ## Escaping -/

def escapeChar (c : Char) : List Char :=
  if c = '\\' then ['\\', '\\']
  else if c = ';' then ['\\', ';']
  else if c = ',' then ['\\', ',']
  else if c = '\n' then ['\\', 'n']
  else [c]

/-- The replacements do not touch what the ones before them wrote. -/
theorem escapeIcsText_eq (value : List UInt16) :
    escapeIcsText value = (cleanText value).flatMap escapeChar := by
  unfold escapeIcsText replaceChar
  rw [List.flatMap_assoc, List.flatMap_assoc, List.flatMap_assoc]
  congr 1
  funext c
  unfold escapeChar
  by_cases hbackslash : c = '\\'
  · subst hbackslash
    decide
  · by_cases hsemicolon : c = ';'
    · subst hsemicolon
      decide
    · by_cases hcomma : c = ','
      · subst hcomma
        decide
      · by_cases hbreak : c = '\n'
        · subst hbreak
          decide
        · simp [hbackslash, hsemicolon, hcomma, hbreak]

theorem unescape_cons (h : c ≠ '\\') (rest : List Char) :
    unescapeIcsText (c :: rest) = c :: unescapeIcsText rest := by
  conv_lhs => unfold unescapeIcsText
  split <;> simp_all

theorem unescape_escapeChar (c : Char) (rest : List Char) :
    unescapeIcsText (escapeChar c ++ rest) = c :: unescapeIcsText rest := by
  unfold escapeChar
  split
  · rename_i h
    subst h
    simp [unescapeIcsText]
  · split
    · rename_i h
      subst h
      simp [unescapeIcsText]
    · split
      · rename_i h
        subst h
        simp [unescapeIcsText]
      · split
        · rename_i h
          subst h
          simp [unescapeIcsText]
        · rename_i hbackslash _ _ _
          exact unescape_cons hbackslash rest

/-- Unescaping gives the text back, cleaned. -/
theorem unescape_escapeIcsText (value : List UInt16) :
    unescapeIcsText (escapeIcsText value) = cleanText value := by
  rw [escapeIcsText_eq]
  induction cleanText value with
  | nil => rfl
  | cons c text ih => rw [List.flatMap_cons, unescape_escapeChar, ih]

theorem lf_not_mem_escapeIcsText (value : List UInt16) : '\n' ∉ escapeIcsText value := by
  rw [escapeIcsText_eq]
  intro hmem
  obtain ⟨c, _, hc⟩ := List.mem_flatMap.mp hmem
  unfold escapeChar at hc
  split at hc
  · exact absurd hc (by decide)
  · split at hc
    · exact absurd hc (by decide)
    · split at hc
      · exact absurd hc (by decide)
      · split at hc
        · exact absurd hc (by decide)
        · rename_i hbreak
          rw [List.mem_singleton] at hc
          exact hbreak hc.symm

end Sinnlos.Cms.Ics

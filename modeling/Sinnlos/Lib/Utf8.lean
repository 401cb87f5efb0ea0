import Mathlib.Data.List.Basic

/-!
# Texts in octets

UTF-8 over lists of octets: what is encoded is decoded again, only encoded texts are
decoded, and an octet below 128 stands for its character alone.
-/

namespace Sinnlos.Utf8

def encode (text : List Char) : List UInt8 := text.flatMap String.utf8EncodeChar

/-- The text of octets, none where they are not well-formed. -/
def decode (octets : List UInt8) : Option (List Char) :=
  octets.toByteArray.utf8Decode?.map Array.toList

variable {text : List Char} {octets : List UInt8} {c : Char}

@[simp] theorem encode_append (a b : List Char) : encode (a ++ b) = encode a ++ encode b :=
  List.flatMap_append

theorem encode_cons (c : Char) (text : List Char) :
    encode (c :: text) = String.utf8EncodeChar c ++ encode text := List.flatMap_cons

theorem toByteArray_encode (text : List Char) : (encode text).toByteArray = text.utf8Encode := rfl

@[simp] theorem decode_encode (text : List Char) : decode (encode text) = some text := by
  rw [decode, toByteArray_encode, List.utf8Decode?_utf8Encode]
  rfl

/-! ## ASCII -/

theorem encodeChar_ascii (ascii : c.toNat < 0x80) :
    String.utf8EncodeChar c = [UInt8.ofNat c.toNat] := by
  have hle : c.toNat ≤ 0x7f := by omega
  simp [String.utf8EncodeChar, hle]

variable {octet : UInt8}

theorem toNat_octet {n : Nat} (hlt : n < 0x100) (h : octet = UInt8.ofNat n) : octet.toNat = n := by
  rw [h, UInt8.toNat_ofNat', Nat.mod_eq_of_lt (by omega)]

/-- An octet below 128 is part of no other character. -/
theorem toNat_of_mem_encodeChar (ascii : octet.toNat < 0x80) (h : octet ∈ String.utf8EncodeChar c) :
    octet.toNat = c.toNat := by
  have hval : c.val.toNat = c.toNat := rfl
  have hvalid : c.toNat < 0x110000 := by
    have hbounds : c.toNat < 0xD800 ∨ 0xDFFF < c.toNat ∧ c.toNat < 0x110000 := c.valid
    omega
  have hhigh {n : Nat} (hle : 0x80 ≤ n) (hlt : n < 0x100) : octet ≠ UInt8.ofNat n := by
    intro heq
    have hnat := toNat_octet hlt heq
    omega
  rw [String.utf8EncodeChar, hval] at h
  by_cases h7 : c.toNat ≤ 0x7F
  · rw [if_pos h7, List.mem_singleton] at h
    exact toNat_octet (by omega) h
  · rw [if_neg h7] at h
    by_cases h11 : c.toNat ≤ 0x7FF
    · rw [if_pos h11] at h
      simp only [List.mem_cons, List.not_mem_nil, or_false] at h
      rcases h with h | h
      all_goals exact absurd h (hhigh (by omega) (by omega))
    · rw [if_neg h11] at h
      by_cases h16 : c.toNat ≤ 0xFFFF
      · rw [if_pos h16] at h
        simp only [List.mem_cons, List.not_mem_nil, or_false] at h
        rcases h with h | h | h
        all_goals exact absurd h (hhigh (by omega) (by omega))
      · rw [if_neg h16] at h
        simp only [List.mem_cons, List.not_mem_nil, or_false] at h
        rcases h with h | h | h | h
        all_goals exact absurd h (hhigh (by omega) (by omega))

theorem not_mem_encode (ascii : octet.toNat < 0x80) (h : ∀ c ∈ text, c.toNat ≠ octet.toNat) :
    octet ∉ encode text := by
  intro hmem
  obtain ⟨c, hc, hoctet⟩ := List.mem_flatMap.mp hmem
  exact h c hc (toNat_of_mem_encodeChar ascii hoctet).symm

/-! ## Reading any octets -/

/-- What stands for octets that are not well-formed. -/
def REPLACEMENT : Char := '\uFFFD'

/-- A reader between two octets: the octets still needed of a character, its bits so
far, and the range of the next octet. -/
structure Reader where
  codePoint : Nat
  needed : Nat
  lower : Nat
  upper : Nat

namespace Reader

def start : Reader := ⟨0, 0, 0x80, 0xBF⟩

/-- The first octet of a character. -/
def lead (octet : Nat) : List Char × Reader :=
  if octet ≤ 0x7F then ([Char.ofNat octet], start)
  else if 0xC2 ≤ octet ∧ octet ≤ 0xDF then ([], ⟨octet - 0xC0, 1, 0x80, 0xBF⟩)
  else if 0xE0 ≤ octet ∧ octet ≤ 0xEF then
    ([], ⟨octet - 0xE0, 2, if octet = 0xE0 then 0xA0 else 0x80,
      if octet = 0xED then 0x9F else 0xBF⟩)
  else if 0xF0 ≤ octet ∧ octet ≤ 0xF4 then
    ([], ⟨octet - 0xF0, 3, if octet = 0xF0 then 0x90 else 0x80,
      if octet = 0xF4 then 0x8F else 0xBF⟩)
  else ([REPLACEMENT], start)

/-- An octet out of range ends the character before it and is read as a first one. -/
def step (reader : Reader) (octet : Nat) : List Char × Reader :=
  if reader.needed = 0 then lead octet
  else if reader.lower ≤ octet ∧ octet ≤ reader.upper then
    if reader.needed = 1 then
      ([Char.ofNat (reader.codePoint * 0x40 + (octet - 0x80))], start)
    else
      ([], ⟨reader.codePoint * 0x40 + (octet - 0x80), reader.needed - 1, 0x80, 0xBF⟩)
  else (REPLACEMENT :: (lead octet).1, (lead octet).2)

def read (reader : Reader) : List UInt8 → List Char
  | [] => if reader.needed = 0 then [] else [REPLACEMENT]
  | octet :: rest =>
      (reader.step octet.toNat).1 ++ (reader.step octet.toNat).2.read rest

end Reader

/-- The text of octets; what is not well-formed is replaced. -/
def toText (octets : List UInt8) : List Char := Reader.start.read octets

namespace Reader

variable {rest : List UInt8} {octet n : Nat}

theorem read_cons (reader : Reader) (hlt : n < 0x100) (rest : List UInt8) :
    reader.read (UInt8.ofNat n :: rest) = (reader.step n).1 ++ (reader.step n).2.read rest := by
  rw [read, toNat_octet hlt rfl]

theorem start_step (octet : Nat) : start.step octet = lead octet := rfl

variable {codePoint lower upper : Nat}

/-- An octet in range that is not the last of its character. -/
theorem step_more {needed : Nat} (hmore : 1 < needed) (hlow : lower ≤ octet)
    (hhigh : octet ≤ upper) :
    step ⟨codePoint, needed, lower, upper⟩ octet =
      ([], ⟨codePoint * 0x40 + (octet - 0x80), needed - 1, 0x80, 0xBF⟩) := by
  rw [step, if_neg (Nat.ne_of_gt (Nat.lt_trans Nat.one_pos hmore)), if_pos ⟨hlow, hhigh⟩,
    if_neg (Nat.ne_of_gt hmore)]

theorem step_last (hlow : lower ≤ octet) (hhigh : octet ≤ upper) :
    step ⟨codePoint, 1, lower, upper⟩ octet =
      ([Char.ofNat (codePoint * 0x40 + (octet - 0x80))], start) := by
  rw [step, if_neg (by simp), if_pos ⟨hlow, hhigh⟩, if_pos rfl]

/-- A character is read from its octets. -/
theorem read_encodeChar (c : Char) (rest : List UInt8) :
    start.read (String.utf8EncodeChar c ++ rest) = c :: start.read rest := by
  have hval : c.val.toNat = c.toNat := rfl
  have hvalid : c.toNat < 0xD800 ∨ 0xDFFF < c.toNat ∧ c.toNat < 0x110000 := c.valid
  rw [String.utf8EncodeChar, hval]
  by_cases h7 : c.toNat ≤ 0x7F
  · rw [if_pos h7, List.singleton_append, read_cons _ (by omega), start_step, lead, if_pos h7,
      Char.ofNat_toNat]
    rfl
  by_cases h11 : c.toNat ≤ 0x7FF
  · rw [if_neg h7, if_pos h11, List.cons_append, List.cons_append, List.nil_append,
      read_cons _ (by omega), start_step, lead, if_neg (by omega), if_pos (by omega),
      read_cons _ (by omega), step_last (by omega) (by omega)]
    have hchar : (c.toNat / 64 % 32 + 192 - 0xC0) * 0x40 + (c.toNat % 64 + 128 - 0x80) =
        c.toNat := by omega
    simp only [hchar, Char.ofNat_toNat, List.nil_append, List.singleton_append]
  by_cases h16 : c.toNat ≤ 0xFFFF
  · have hlower : (if c.toNat / 4096 % 16 + 224 = 0xE0 then 0xA0 else 0x80) ≤
        c.toNat / 64 % 64 + 128 := by split <;> omega
    have hupper : c.toNat / 64 % 64 + 128 ≤
        (if c.toNat / 4096 % 16 + 224 = 0xED then 0x9F else 0xBF) := by split <;> omega
    rw [if_neg h7, if_neg h11, if_pos h16, List.cons_append, List.cons_append, List.cons_append,
      List.nil_append, read_cons _ (by omega), start_step, lead, if_neg (by omega),
      if_neg (by omega), if_pos (by omega), read_cons _ (by omega),
      step_more (by omega) hlower hupper, read_cons _ (by omega),
      step_last (by omega) (by omega)]
    have hchar : ((c.toNat / 4096 % 16 + 224 - 0xE0) * 0x40 + (c.toNat / 64 % 64 + 128 - 0x80)) *
        0x40 + (c.toNat % 64 + 128 - 0x80) = c.toNat := by omega
    simp only [hchar, Char.ofNat_toNat, List.nil_append, List.singleton_append]
  · have hlower : (if c.toNat / 262144 % 8 + 240 = 0xF0 then 0x90 else 0x80) ≤
        c.toNat / 4096 % 64 + 128 := by split <;> omega
    have hupper : c.toNat / 4096 % 64 + 128 ≤
        (if c.toNat / 262144 % 8 + 240 = 0xF4 then 0x8F else 0xBF) := by split <;> omega
    rw [if_neg h7, if_neg h11, if_neg h16, List.cons_append, List.cons_append, List.cons_append,
      List.cons_append, List.nil_append, read_cons _ (by omega), start_step, lead,
      if_neg (by omega), if_neg (by omega), if_neg (by omega), if_pos (by omega),
      read_cons _ (by omega), step_more (by omega) hlower hupper, read_cons _ (by omega),
      step_more (by omega) (by omega) (by omega), read_cons _ (by omega),
      step_last (by omega) (by omega)]
    have hchar : (((c.toNat / 262144 % 8 + 240 - 0xF0) * 0x40 +
        (c.toNat / 4096 % 64 + 128 - 0x80)) * 0x40 + (c.toNat / 64 % 64 + 128 - 0x80)) * 0x40 +
          (c.toNat % 64 + 128 - 0x80) = c.toNat := by omega
    simp only [hchar, Char.ofNat_toNat, List.nil_append, List.singleton_append]

end Reader

theorem toText_encode (text : List Char) : toText (encode text) = text := by
  induction text with
  | nil => rfl
  | cons c text ih => rw [encode_cons, toText, Reader.read_encodeChar, ← toText, ih]

end Sinnlos.Utf8

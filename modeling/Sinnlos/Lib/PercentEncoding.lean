import Sinnlos.Lib.Utf8

/-!
# Percent-encoding

A text with the characters that are not plain written as the octets of their UTF-8
form, each as `%` and two hexadecimal digits. Where the plain characters are ASCII
and none of them is `%`, the text is read back.
-/

namespace Sinnlos.PercentEncoding

def hexDigit (n : Nat) : Char := Char.ofNat (if n < 10 then 0x30 + n else 0x37 + n)

def hexValue (c : Char) : Option Nat :=
  if 0x30 ≤ c.toNat ∧ c.toNat ≤ 0x39 then some (c.toNat - 0x30)
  else if 0x41 ≤ c.toNat ∧ c.toNat ≤ 0x46 then some (c.toNat - 0x37)
  else if 0x61 ≤ c.toNat ∧ c.toNat ≤ 0x66 then some (c.toNat - 0x57)
  else none

def encodeByte (byte : UInt8) : List Char :=
  ['%', hexDigit (byte.toNat / 16), hexDigit (byte.toNat % 16)]

def encodeChar (plain : Char → Bool) (c : Char) : List Char :=
  if plain c then [c] else (String.utf8EncodeChar c).flatMap encodeByte

def encodeText (plain : Char → Bool) (text : List Char) : List Char :=
  text.flatMap (encodeChar plain)

/-- The octets of an encoded text; a `%` without its digits is none, and neither is
a character outside ASCII. -/
def decodeBytes : List Char → Option (List UInt8)
  | [] => some []
  | '%' :: high :: low :: rest => do
      let first ← hexValue high
      let second ← hexValue low
      let bytes ← decodeBytes rest
      return UInt8.ofNat (16 * first + second) :: bytes
  | c :: rest =>
      if c = '%' ∨ 0x80 ≤ c.toNat then none
      else (decodeBytes rest).map (UInt8.ofNat c.toNat :: ·)

/-- An encoded text read as UTF-8. -/
def decodeText (text : List Char) : Option (List Char) :=
  (decodeBytes text).bind Utf8.decode

/-! ## Octets -/

variable {n : Nat} {c : Char}

theorem hexValue_hexDigit (h : n < 16) : hexValue (hexDigit n) = some n := by
  have hall : ∀ n : Fin 16, hexValue (hexDigit n) = some n.val := by decide
  exact hall ⟨n, h⟩

theorem decodeBytes_encodeByte (byte : UInt8) (rest : List Char) :
    decodeBytes (encodeByte byte ++ rest) = (decodeBytes rest).map (byte :: ·) := by
  have hlt := byte.toNat_lt
  have hhigh := hexValue_hexDigit (n := byte.toNat / 16) (by omega)
  have hlow := hexValue_hexDigit (n := byte.toNat % 16) (by omega)
  have hbyte : UInt8.ofNat (16 * (byte.toNat / 16) + byte.toNat % 16) = byte := by
    rw [Nat.div_add_mod, UInt8.ofNat_toNat]
  rw [encodeByte, List.cons_append, List.cons_append, List.singleton_append, decodeBytes, hhigh,
    hlow]
  cases decodeBytes rest with
  | none => rfl
  | some bytes =>
      simp only [Option.bind_eq_bind, Option.bind_some, Option.map_some, hbyte]
      rfl

theorem decodeBytes_encodeBytes (bytes : List UInt8) (rest : List Char) :
    decodeBytes (bytes.flatMap encodeByte ++ rest) = (decodeBytes rest).map (bytes ++ ·) := by
  induction bytes with
  | nil => simp
  | cons byte bytes ih =>
      rw [List.flatMap_cons, List.append_assoc, decodeBytes_encodeByte, ih, Option.map_map]
      rfl

theorem decodeBytes_plain (ascii : c.toNat < 0x80) (h : c ≠ '%') (rest : List Char) :
    decodeBytes (c :: rest) = (decodeBytes rest).map (UInt8.ofNat c.toNat :: ·) := by
  have hnot : ¬(c = '%' ∨ 0x80 ≤ c.toNat) := by
    intro hor
    cases hor with
    | inl heq => exact h heq
    | inr hle => omega
  rw [decodeBytes.eq_def]
  split
  · cases ‹c :: rest = []›
  · rename_i heq
    exact absurd (List.cons.inj heq).1 h
  · rename_i heq
    obtain ⟨rfl, rfl⟩ := List.cons.inj heq
    rw [if_neg hnot]

/-! ## Texts -/

/-- Characters that stand for themselves. -/
def Ascii (plain : Char → Bool) : Prop := ∀ c, plain c = true → c.toNat < 0x80 ∧ c ≠ '%'

section

variable {plain : Char → Bool} (ascii : Ascii plain)
include ascii

theorem decodeBytes_encodeChar (c : Char) (rest : List Char) :
    decodeBytes (encodeChar plain c ++ rest) =
      (decodeBytes rest).map (String.utf8EncodeChar c ++ ·) := by
  unfold encodeChar
  split
  · rename_i h
    obtain ⟨hascii, hpercent⟩ := ascii c h
    rw [List.singleton_append, decodeBytes_plain hascii hpercent, Utf8.encodeChar_ascii hascii]
    rfl
  · exact decodeBytes_encodeBytes _ _

theorem decodeBytes_encodeText (text : List Char) :
    decodeBytes (encodeText plain text) = some (Utf8.encode text) := by
  induction text with
  | nil => rfl
  | cons c text ih =>
      have hcons : encodeText plain (c :: text) = encodeChar plain c ++ encodeText plain text :=
        List.flatMap_cons
      rw [hcons, decodeBytes_encodeChar ascii, ih]
      rfl

/-- The text is read back. -/
theorem decodeText_encodeText (text : List Char) : decodeText (encodeText plain text) = some text := by
  rw [decodeText, decodeBytes_encodeText ascii, Option.bind_some, Utf8.decode_encode]

end

variable {plain : Char → Bool}

theorem hexDigit_plain (digits : ∀ n : Fin 16, plain (hexDigit n) = true) (h : n < 16) :
    plain (hexDigit n) = true := digits ⟨n, h⟩

/-- Nothing but plain characters and `%` is written. -/
theorem mem_encodeText (digits : ∀ n : Fin 16, plain (hexDigit n) = true) {text : List Char}
    (h : c ∈ encodeText plain text) : plain c = true ∨ c = '%' := by
  obtain ⟨d, _, hmem⟩ := List.mem_flatMap.mp h
  unfold encodeChar at hmem
  split at hmem
  · rename_i hplain
    rw [List.mem_singleton] at hmem
    exact Or.inl (hmem ▸ hplain)
  · obtain ⟨byte, _, hbyte⟩ := List.mem_flatMap.mp hmem
    have hlt := byte.toNat_lt
    have hhigh := hexDigit_plain digits (n := byte.toNat / 16) (by omega)
    have hlow := hexDigit_plain digits (n := byte.toNat % 16) (by omega)
    simp only [encodeByte, List.mem_cons, List.not_mem_nil, or_false] at hbyte
    rcases hbyte with rfl | rfl | rfl
    · exact Or.inr rfl
    · exact Or.inl hhigh
    · exact Or.inl hlow

end Sinnlos.PercentEncoding

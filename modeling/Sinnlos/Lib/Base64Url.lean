import Mathlib.Data.List.Basic

/-!
# Base64url without padding

Three octets are four characters; one or two octets at the end are two or three. A
reader keeps the bits that fill octets and drops the rest, so that texts of one octet
string differ: only one of them is what a writer gives.
-/

namespace Sinnlos.Base64Url

/-- The character of six bits. -/
def digit (n : Nat) : Char :=
  if n < 26 then Char.ofNat (65 + n)
  else if n < 52 then Char.ofNat (71 + n)
  else if n < 62 then Char.ofNat (n - 4)
  else if n = 62 then '-'
  else '_'

/-- The six bits of a character, none for one that is not of the alphabet. -/
def value (c : Char) : Option Nat :=
  if 'A' ≤ c ∧ c ≤ 'Z' then some (c.toNat - 65)
  else if 'a' ≤ c ∧ c ≤ 'z' then some (c.toNat - 71)
  else if '0' ≤ c ∧ c ≤ '9' then some (c.toNat + 4)
  else if c = '-' then some 62
  else if c = '_' then some 63
  else none

def encode : List UInt8 → List Char
  | [] => []
  | [a] => [digit (a.toNat / 4), digit (a.toNat % 4 * 16)]
  | [a, b] =>
      [digit (a.toNat / 4), digit (a.toNat % 4 * 16 + b.toNat / 16), digit (b.toNat % 16 * 4)]
  | a :: b :: c :: rest =>
      digit (a.toNat / 4) :: digit (a.toNat % 4 * 16 + b.toNat / 16) ::
        digit (b.toNat % 16 * 4 + c.toNat / 64) :: digit (c.toNat % 64) :: encode rest

/-- The octets of groups of six bits; bits that fill no octet are dropped. -/
def octets : List Nat → List UInt8
  | p :: q :: r :: s :: rest =>
      UInt8.ofNat (p * 4 + q / 16) :: UInt8.ofNat (q % 16 * 16 + r / 4) ::
        UInt8.ofNat (r % 4 * 64 + s) :: octets rest
  | [p, q, r] => [UInt8.ofNat (p * 4 + q / 16), UInt8.ofNat (q % 16 * 16 + r / 4)]
  | [p, q] => [UInt8.ofNat (p * 4 + q / 16)]
  | _ => []

/-- What a text writes; characters that are not of the alphabet are passed over. -/
def decode (text : List Char) : List UInt8 := octets (text.filterMap value)

variable {bytes : List UInt8} {a b c : UInt8}

theorem value_digit : ∀ n < 64, value (digit n) = some n := by decide

theorem ofNat_eq {n : Nat} (h : n = a.toNat) : UInt8.ofNat n = a := by
  rw [h, UInt8.ofNat_toNat]

@[simp] theorem decode_encode (bytes : List UInt8) : decode (encode bytes) = bytes := by
  induction bytes using encode.induct with
  | case1 => rfl
  | case2 a =>
      have ha := a.toNat_lt
      have hbits : (encode [a]).filterMap value = [a.toNat / 4, a.toNat % 4 * 16] := by
        simp [encode, value_digit _ (show a.toNat / 4 < 64 by omega),
          value_digit _ (show a.toNat % 4 * 16 < 64 by omega)]
      rw [decode, hbits, octets, ofNat_eq (a := a) (by omega)]
  | case3 a b =>
      have ha := a.toNat_lt
      have hb := b.toNat_lt
      have hbits : (encode [a, b]).filterMap value =
          [a.toNat / 4, a.toNat % 4 * 16 + b.toNat / 16, b.toNat % 16 * 4] := by
        simp [encode, value_digit _ (show a.toNat / 4 < 64 by omega),
          value_digit _ (show a.toNat % 4 * 16 + b.toNat / 16 < 64 by omega),
          value_digit _ (show b.toNat % 16 * 4 < 64 by omega)]
      rw [decode, hbits, octets, ofNat_eq (a := a) (by omega), ofNat_eq (a := b) (by omega)]
  | case4 a b c rest ih =>
      have ha := a.toNat_lt
      have hb := b.toNat_lt
      have hc := c.toNat_lt
      have hbits : (encode (a :: b :: c :: rest)).filterMap value =
          a.toNat / 4 :: (a.toNat % 4 * 16 + b.toNat / 16) :: (b.toNat % 16 * 4 + c.toNat / 64) ::
            (c.toNat % 64) :: (encode rest).filterMap value := by
        simp [encode, value_digit _ (show a.toNat / 4 < 64 by omega),
          value_digit _ (show a.toNat % 4 * 16 + b.toNat / 16 < 64 by omega),
          value_digit _ (show b.toNat % 16 * 4 + c.toNat / 64 < 64 by omega),
          value_digit _ (show c.toNat % 64 < 64 by omega)]
      rw [decode, hbits, octets, ofNat_eq (a := a) (by omega), ofNat_eq (a := b) (by omega),
        ofNat_eq (a := c) (by omega)]
      exact congrArg (a :: b :: c :: ·) ih

/-- Texts of different octets differ. -/
theorem encode_injective {other : List UInt8} (h : encode bytes = encode other) :
    bytes = other := by
  rw [← decode_encode bytes, h, decode_encode]

theorem encode_eq_nil_iff : encode bytes = [] ↔ bytes = [] := by
  constructor
  · intro h
    exact encode_injective h
  · intro h
    rw [h]
    rfl

/-- What is written has only characters of the alphabet. -/
theorem value_of_mem_encode {x : Char} (h : x ∈ encode bytes) : ∃ n < 64, x = digit n := by
  induction bytes using encode.induct with
  | case1 => cases h
  | case2 a =>
      have ha := a.toNat_lt
      rcases List.mem_cons.mp h with heq | h
      · exact ⟨a.toNat / 4, by omega, heq⟩
      · exact ⟨a.toNat % 4 * 16, by omega, List.mem_singleton.mp h⟩
  | case3 a b =>
      have ha := a.toNat_lt
      have hb := b.toNat_lt
      rcases List.mem_cons.mp h with heq | h
      · exact ⟨a.toNat / 4, by omega, heq⟩
      · rcases List.mem_cons.mp h with heq | h
        · exact ⟨a.toNat % 4 * 16 + b.toNat / 16, by omega, heq⟩
        · exact ⟨b.toNat % 16 * 4, by omega, List.mem_singleton.mp h⟩
  | case4 a b c rest ih =>
      have ha := a.toNat_lt
      have hb := b.toNat_lt
      have hc := c.toNat_lt
      rcases List.mem_cons.mp h with heq | h
      · exact ⟨a.toNat / 4, by omega, heq⟩
      · rcases List.mem_cons.mp h with heq | h
        · exact ⟨a.toNat % 4 * 16 + b.toNat / 16, by omega, heq⟩
        · rcases List.mem_cons.mp h with heq | h
          · exact ⟨b.toNat % 16 * 4 + c.toNat / 64, by omega, heq⟩
          · rcases List.mem_cons.mp h with heq | h
            · exact ⟨c.toNat % 64, by omega, heq⟩
            · exact ih h

end Sinnlos.Base64Url

import Sinnlos.Lib.Text
import Mathlib.Algebra.Order.Ring.Int
import Mathlib.Data.List.Basic

/-! # Time-based codes

The one-time codes of `apps/cms/src/utils/totp.ts`: HOTP truncation, the base32
reader and the match of a code against the current time step and its neighbours.
HMAC-SHA1 is a parameter.
-/

namespace Sinnlos.Cms.Mfa

/-- What the second factor takes from elsewhere. -/
structure Crypto where
  /-- HMAC-SHA1 of a message under a key. -/
  hmacSha1 : List UInt8 → List UInt8 → Fin 20 → UInt8
  /-- SHA-256 of a text. -/
  sha256 : String → List UInt8
  /-- The admin encryption service; none also where it throws. -/
  decrypt : String → Option String

inductive MfaRefusal
  /-- A counter that is no unsigned 64-bit number. -/
  | rangeError
  | unauthorized
  | alreadyEnabled
  | sessionOutdated
  | enrollmentInvalid
  | mfaRequiredByRole
  | mfaInvalid
  | noSuchUser
deriving DecidableEq

def TOTP_STEP_SECONDS : Int := 30
def TOTP_DIGITS : Nat := 6

/-! ## base32 -/

/-- `toUpperCase` of one character. Other characters beyond ASCII have no
upper case within it and stay as they are. -/
def upperCase (c : Char) : List Char :=
  match c.toNat with
  | 0xDF => ['S', 'S']
  | 0x131 => ['I']
  | 0x17F => ['S']
  | 0xFB00 => ['F', 'F']
  | 0xFB01 => ['F', 'I']
  | 0xFB02 => ['F', 'L']
  | 0xFB03 => ['F', 'F', 'I']
  | 0xFB04 => ['F', 'F', 'L']
  | 0xFB05 => ['S', 'T']
  | 0xFB06 => ['S', 'T']
  | _ => [c.toUpper]

/-- The value of a character of the base32 alphabet. -/
def base32Value (c : Char) : Option Nat :=
  if 'A'.toNat ≤ c.toNat ∧ c.toNat ≤ 'Z'.toNat then some (c.toNat - 'A'.toNat)
  else if '2'.toNat ≤ c.toNat ∧ c.toNat ≤ '7'.toNat then some (c.toNat - '2'.toNat + 26)
  else none

/-- The loop over the values: `bits` bits of `value` are not written yet. -/
def base32Bytes : Nat → Nat → List Nat → List UInt8
  | _, _, [] => []
  | bits, value, v :: values =>
      let value := (value * 32 + v) % 2 ^ 32
      let bits := bits + 5
      if bits ≥ 8 then UInt8.ofNat (value / 2 ^ (bits - 8)) :: base32Bytes (bits - 8) value values
      else base32Bytes bits value values

def base32Decode (input : String) : Option (List UInt8) :=
  let clean := (input.toList.filter fun c => !Text.isTrimmed c).flatMap upperCase
  match clean.mapM base32Value with
  | none => none
  | some [] => none
  | some values => some (base32Bytes 0 0 values)

/-! ## Codes -/

/-- The time step of a moment in milliseconds. -/
def totpStep (atMs : Int) : Int := atMs / 1000 / TOTP_STEP_SECONDS

/-- `writeBigUInt64BE`, which throws outside its range. -/
def writeBigUInt64BE (counter : Int) : Except MfaRefusal (List UInt8) :=
  if 0 ≤ counter ∧ counter < 2 ^ 64 then
    .ok ((List.range 8).map fun i : Nat => UInt8.ofNat (counter.toNat / 256 ^ (7 - i)))
  else .error .rangeError

/-- `readUInt32BE` at an offset that a nibble can hold. -/
def readUInt32BE (mac : Fin 20 → UInt8) (offset : Nat) : Nat :=
  let byte (i : Nat) : Nat := (mac (Fin.ofNat 20 (offset + i))).toNat
  ((byte 0 * 256 + byte 1) * 256 + byte 2) * 256 + byte 3

/-- HOTP as a zero-padded decimal text. -/
def hotp (m : Crypto) (secret : List UInt8) (counter : Int) : Except MfaRefusal (List Char) := do
  let message ← writeBigUInt64BE counter
  let mac := m.hmacSha1 secret message
  let offset := (mac 19).toNat % 16
  let code := readUInt32BE mac offset % 2 ^ 31 % 10 ^ TOTP_DIGITS
  return Text.padStart TOTP_DIGITS '0' (toString code).toList

/-- Six decimal digits and nothing else. -/
def isSixDigits (text : List Char) : Bool := text.length = 6 && text.all Char.isDigit

/-- The step `code` is valid for: the current one or one step either way. -/
def matchTotp (m : Crypto) (secret : List UInt8) (code : List Char) (atMs : Int) :
    Except MfaRefusal (Option Int) :=
  if isSixDigits code then
    let now := totpStep atMs
    [now - 1, now, now + 1].foldlM (fun found step => do
      let expected ← hotp m secret step
      return if expected = code then some step else found) none
  else .ok none

/-! ## What a match says -/

variable {m : Crypto} {secret : List UInt8} {code : List Char} {step : Int}

/-- Where the search finds a step, it is one it was asked about, or the one it
had before. -/
theorem foldlM_match {steps : List Int} {found : Option Int}
    (h : steps.foldlM (fun found step => do
      let expected ← hotp m secret step
      return if expected = code then some step else found) found = .ok (some step)) :
    found = some step ∨ (step ∈ steps ∧ hotp m secret step = .ok code) := by
  induction steps generalizing found with
  | nil =>
      cases h
      exact Or.inl rfl
  | cons next steps ih =>
      rw [List.foldlM_cons] at h
      obtain ⟨_, hstep, h⟩ := Text.bind_eq_ok.mp h
      obtain ⟨expected, he, hstep⟩ := Text.bind_eq_ok.mp hstep
      cases hstep
      rcases ih h with hfound | ⟨hmem, hcode⟩
      · by_cases hsame : expected = code
        · rw [if_pos hsame] at hfound
          cases hfound
          refine Or.inr ⟨List.mem_cons_self, ?_⟩
          rw [he, hsame]
        · rw [if_neg hsame] at hfound
          exact Or.inl hfound
      · exact Or.inr ⟨List.mem_cons_of_mem _ hmem, hcode⟩

/-- A matched step is at most one away from the clock's, and the code is its own. -/
theorem matchTotp_some {atMs : Int} (h : matchTotp m secret code atMs = .ok (some step)) :
    (totpStep atMs - 1 ≤ step ∧ step ≤ totpStep atMs + 1) ∧ hotp m secret step = .ok code := by
  unfold matchTotp at h
  split at h
  · rcases foldlM_match h with hnone | ⟨hmem, hcode⟩
    · cases hnone
    · simp only [List.mem_cons, List.not_mem_nil, or_false] at hmem
      refine ⟨?_, hcode⟩
      omega
  · cases h

end Sinnlos.Cms.Mfa

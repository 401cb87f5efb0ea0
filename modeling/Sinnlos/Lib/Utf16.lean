import Mathlib.Data.List.Basic

/-!
# Texts of 16-bit units

A text of 16-bit units holds characters up to U+FFFF as they are and the others as
surrogate pairs. Any sequence of units is a text: a surrogate that is not half of
a pair is read as U+FFFD.
-/

namespace Sinnlos.Utf16

def isHigh (unit : UInt16) : Bool := 0xD800 ≤ unit.toNat ∧ unit.toNat < 0xDC00

def isLow (unit : UInt16) : Bool := 0xDC00 ≤ unit.toNat ∧ unit.toNat < 0xE000

/-- What stands for a lone surrogate. -/
def REPLACEMENT : Char := '\uFFFD'

def pairChar (high low : UInt16) : Char :=
  Char.ofNat (0x10000 + (high.toNat - 0xD800) * 0x400 + (low.toNat - 0xDC00))

def singleChar (unit : UInt16) : Char :=
  if isHigh unit ∨ isLow unit then REPLACEMENT else Char.ofNat unit.toNat

/-- The characters of a text. -/
def decode : List UInt16 → List Char
  | [] => []
  | [unit] => [singleChar unit]
  | first :: second :: rest =>
      if isHigh first ∧ isLow second then pairChar first second :: decode rest
      else singleChar first :: decode (second :: rest)

def encodeChar (c : Char) : List UInt16 :=
  if c.toNat < 0x10000 then [UInt16.ofNat c.toNat]
  else
    [UInt16.ofNat (0xD800 + (c.toNat - 0x10000) / 0x400),
      UInt16.ofNat (0xDC00 + (c.toNat - 0x10000) % 0x400)]

def encode (text : List Char) : List UInt16 := text.flatMap encodeChar

/-- A text that does not begin with the second half of a pair. -/
def StartsWhole (text : List UInt16) : Prop := ∀ unit ∈ text.head?, isLow unit = false

variable {a b rest : List UInt16} {unit : UInt16} {c : Char}

/-! ## One character -/

theorem char_bounds (c : Char) : c.toNat < 0xD800 ∨ 0xDFFF < c.toNat ∧ c.toNat < 0x110000 :=
  c.valid

variable {n : Nat} {high low : UInt16}

theorem toNat_unit (h : n < 0x10000) : (UInt16.ofNat n).toNat = n :=
  UInt16.toNat_ofNat_of_lt' h

theorem singleChar_unit (h : c.toNat < 0x10000) : singleChar (UInt16.ofNat c.toNat) = c := by
  have hbounds := char_bounds c
  have hunit := toNat_unit h
  have hsurrogate : ¬(isHigh (UInt16.ofNat c.toNat) = true ∨ isLow (UInt16.ofNat c.toNat) = true) := by
    simp only [isHigh, isLow, hunit, decide_eq_true_eq]
    omega
  rw [singleChar, if_neg hsurrogate, hunit, Char.ofNat_toNat]

theorem isHigh_unit (h : c.toNat < 0x10000) : isHigh (UInt16.ofNat c.toNat) = false := by
  have hbounds := char_bounds c
  have hunit := toNat_unit h
  simp only [isHigh, hunit, decide_eq_false_iff_not]
  omega

theorem decode_cons_of_not_high (h : isHigh unit = false) (rest : List UInt16) :
    decode (unit :: rest) = singleChar unit :: decode rest := by
  cases rest with
  | nil => rfl
  | cons second rest => simp [decode, h]

theorem decode_cons_of_startsWhole (h : StartsWhole rest) :
    decode (unit :: rest) = singleChar unit :: decode rest := by
  cases rest with
  | nil => rfl
  | cons second rest =>
      have hlow := h second rfl
      simp [decode, hlow]

theorem decode_pair (hhigh : isHigh high = true) (hlow : isLow low = true) (rest : List UInt16) :
    decode (high :: low :: rest) = pairChar high low :: decode rest := by
  simp [decode, hhigh, hlow]

/-- The halves of the pair of a character. -/
theorem halves (h : 0x10000 ≤ c.toNat) :
    (UInt16.ofNat (0xD800 + (c.toNat - 0x10000) / 0x400)).toNat =
        0xD800 + (c.toNat - 0x10000) / 0x400 ∧
      (UInt16.ofNat (0xDC00 + (c.toNat - 0x10000) % 0x400)).toNat =
        0xDC00 + (c.toNat - 0x10000) % 0x400 := by
  have hbounds := char_bounds c
  exact ⟨toNat_unit (by omega), toNat_unit (by omega)⟩

theorem decode_encodeChar_append (c : Char) (rest : List UInt16) :
    decode (encodeChar c ++ rest) = c :: decode rest := by
  have hbounds := char_bounds c
  unfold encodeChar
  by_cases h : c.toNat < 0x10000
  · rw [if_pos h, List.singleton_append, decode_cons_of_not_high (isHigh_unit h),
      singleChar_unit h]
  · obtain ⟨hhigh, hlow⟩ := halves (c := c) (by omega)
    rw [if_neg h, List.cons_append, List.cons_append, List.nil_append, decode_pair, pairChar, hhigh,
      hlow]
    · have hchar : 0x10000 + (0xD800 + (c.toNat - 0x10000) / 0x400 - 0xD800) * 0x400 +
          (0xDC00 + (c.toNat - 0x10000) % 0x400 - 0xDC00) = c.toNat := by omega
      rw [hchar, Char.ofNat_toNat]
    · simp only [isHigh, hhigh, decide_eq_true_eq]
      omega
    · simp only [isLow, hlow, decide_eq_true_eq]
      omega

theorem startsWhole_encodeChar (c : Char) (rest : List UInt16) :
    StartsWhole (encodeChar c ++ rest) := by
  have hbounds := char_bounds c
  intro unit hunit
  unfold encodeChar at hunit
  by_cases h : c.toNat < 0x10000
  · rw [if_pos h] at hunit
    obtain rfl : UInt16.ofNat c.toNat = unit := by simpa using hunit
    simp only [isLow, toNat_unit h, decide_eq_false_iff_not]
    omega
  · rw [if_neg h] at hunit
    obtain rfl : UInt16.ofNat (0xD800 + (c.toNat - 0x10000) / 0x400) = unit := by simpa using hunit
    simp only [isLow, (halves (c := c) (by omega)).1, decide_eq_false_iff_not]
    omega

/-! ## Texts -/

@[simp] theorem encode_nil : encode [] = [] := rfl

theorem encode_cons (c : Char) (text : List Char) :
    encode (c :: text) = encodeChar c ++ encode text := List.flatMap_cons

@[simp] theorem encode_append (a b : List Char) : encode (a ++ b) = encode a ++ encode b :=
  List.flatMap_append

theorem decode_encode_append (text : List Char) (rest : List UInt16) :
    decode (encode text ++ rest) = text ++ decode rest := by
  induction text with
  | nil => rfl
  | cons c text ih =>
      rw [encode_cons, List.append_assoc, decode_encodeChar_append, ih, List.cons_append]

@[simp] theorem decode_encode (text : List Char) : decode (encode text) = text := by
  have h := decode_encode_append text []
  rwa [List.append_nil, decode, List.append_nil] at h

/-- No pair is formed across the start of a whole text. -/
theorem decode_append (h : StartsWhole b) (a : List UInt16) :
    decode (a ++ b) = decode a ++ decode b := by
  induction a using decode.induct with
  | case1 => rfl
  | case2 unit => exact decode_cons_of_startsWhole h
  | case3 first second rest hpair ih =>
      rw [List.cons_append, List.cons_append, decode_pair hpair.1 hpair.2,
        decode_pair hpair.1 hpair.2, ih, List.cons_append]
  | case4 first second rest hpair ih =>
      rw [List.cons_append] at ih
      rw [List.cons_append, List.cons_append, decode, if_neg hpair, ih, decode, if_neg hpair,
        List.cons_append]

theorem startsWhole_encode (text : List Char) : StartsWhole (encode text) := by
  cases text with
  | nil => intro unit h; cases h
  | cons c text => exact encode_cons c text ▸ startsWhole_encodeChar c (encode text)

theorem decode_append_encode (a : List UInt16) (text : List Char) :
    decode (a ++ encode text) = decode a ++ text := by
  rw [decode_append (startsWhole_encode text), decode_encode]

/-! ## Well-formed texts -/

/-- A surrogate that is not half of a pair, behind `before`. -/
def loneFrom (before : Option UInt16) : List UInt16 → Bool
  | [] => false
  | unit :: rest =>
      (isHigh unit && !rest.head?.any isLow) || (!before.any isHigh && isLow unit) ||
        loneFrom (some unit) rest

/-- `/[\uD800-\uDBFF](?![\uDC00-\uDFFF])|(?<![\uD800-\uDBFF])[\uDC00-\uDFFF]/` -/
def hasLoneSurrogate (text : List UInt16) : Bool := loneFrom none text

theorem isLow_of_isHigh (h : isHigh unit = true) : isLow unit = false := by
  simp only [isHigh, isLow, decide_eq_true_eq, decide_eq_false_iff_not] at h ⊢
  omega

theorem toNat_char (h : n.isValidChar) : (Char.ofNat n).toNat = n := by
  unfold Char.ofNat
  rw [dif_pos h]
  rfl

theorem encodeChar_single (hhigh : isHigh unit = false) (hlow : isLow unit = false) :
    encodeChar (singleChar unit) = [unit] := by
  have hlt := unit.toNat_lt
  simp only [isHigh, isLow, decide_eq_false_iff_not] at hhigh hlow
  have hsurrogate : ¬(isHigh unit = true ∨ isLow unit = true) := by
    simp only [isHigh, isLow, decide_eq_true_eq]
    omega
  have hvalid : unit.toNat.isValidChar := by
    unfold Nat.isValidChar
    omega
  have hchar : (Char.ofNat unit.toNat).toNat = unit.toNat := toNat_char hvalid
  rw [singleChar, if_neg hsurrogate, encodeChar, hchar, if_pos (by omega), UInt16.ofNat_toNat]

theorem encodeChar_pair (hhigh : isHigh high = true) (hlow : isLow low = true) :
    encodeChar (pairChar high low) = [high, low] := by
  simp only [isHigh, isLow, decide_eq_true_eq] at hhigh hlow
  have hvalid : (0x10000 + (high.toNat - 0xD800) * 0x400 + (low.toNat - 0xDC00)).isValidChar := by
    unfold Nat.isValidChar
    omega
  have hchar : (pairChar high low).toNat =
      0x10000 + (high.toNat - 0xD800) * 0x400 + (low.toNat - 0xDC00) :=
    toNat_char hvalid
  have hfirst : 0xD800 + (0x10000 + (high.toNat - 0xD800) * 0x400 + (low.toNat - 0xDC00) - 0x10000) /
      0x400 = high.toNat := by omega
  have hsecond : 0xDC00 + (0x10000 + (high.toNat - 0xD800) * 0x400 + (low.toNat - 0xDC00) - 0x10000) %
      0x400 = low.toNat := by omega
  rw [encodeChar, hchar, if_neg (by omega), hfirst, hsecond, UInt16.ofNat_toNat,
    UInt16.ofNat_toNat]

/-- Without a lone surrogate nothing is replaced. -/
theorem encode_decode_of_not_lone {before : Option UInt16} (hbefore : before.any isHigh = false)
    (h : loneFrom before a = false) : encode (decode a) = a := by
  induction a using decode.induct generalizing before with
  | case1 => rfl
  | case2 unit =>
      simp only [loneFrom, hbefore, List.head?_nil, Option.any_none, Bool.not_false, Bool.and_true,
        Bool.true_and, Bool.or_false, Bool.or_eq_false_iff] at h
      rw [decode, encode_cons, encodeChar_single h.1 h.2, encode_nil, List.append_nil]
  | case3 first second rest hpair ih =>
      have hsecond : isHigh second = false := by
        by_contra hhigh
        have hlow := isLow_of_isHigh (Bool.not_eq_false _ ▸ hhigh)
        rw [hpair.2] at hlow
        cases hlow
      have hrest : loneFrom (some second) rest = false := by
        rw [loneFrom, loneFrom] at h
        simp only [Bool.or_eq_false_iff] at h
        exact h.2.2
      rw [decode_pair hpair.1 hpair.2, encode_cons, encodeChar_pair hpair.1 hpair.2,
        ih (by simpa using hsecond) hrest, List.cons_append, List.cons_append, List.nil_append]
  | case4 first second rest hpair ih =>
      rw [loneFrom] at h
      simp only [hbefore, List.head?_cons, Option.any_some, Bool.not_false, Bool.true_and,
        Bool.or_eq_false_iff] at h
      obtain ⟨⟨hfirst, hlow⟩, hrest⟩ := h
      have hhigh : isHigh first = false := by
        by_contra hhigh
        have hhigh' : isHigh first = true := Bool.not_eq_false _ ▸ hhigh
        rw [hhigh', Bool.true_and, Bool.not_eq_false'] at hfirst
        exact hpair ⟨hhigh', hfirst⟩
      rw [decode, if_neg hpair, encode_cons, encodeChar_single hhigh hlow,
        ih (by simpa using hhigh) hrest, List.singleton_append]

theorem encode_decode (h : hasLoneSurrogate a = false) : encode (decode a) = a :=
  encode_decode_of_not_lone rfl h

end Sinnlos.Utf16

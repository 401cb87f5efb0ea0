import Mathlib.Data.List.Basic

/-! # JSON text

Strings as a JSON writer quotes them, and why text that starts with a quoted
string has one reading: the string ends at the first quote that no backslash
escapes.
-/

namespace Sinnlos.JsonText

def hexDigit (n : Nat) : Char := if n < 10 then Char.ofNat (48 + n) else Char.ofNat (87 + n)

/-- A character inside a quoted string. -/
def escapeChar (c : Char) : List Char :=
  if c = '\"' then ['\\', '\"']
  else if c = '\\' then ['\\', '\\']
  else if c.toNat = 8 then ['\\', 'b']
  else if c.toNat = 9 then ['\\', 't']
  else if c.toNat = 10 then ['\\', 'n']
  else if c.toNat = 12 then ['\\', 'f']
  else if c.toNat = 13 then ['\\', 'r']
  else if c.toNat < 32 then
    ['\\', 'u', '0', '0', hexDigit (c.toNat / 16), hexDigit (c.toNat % 16)]
  else [c]

def quoteChars (text : List Char) : List Char := '\"' :: text.flatMap escapeChar ++ ['\"']

def quote (text : String) : String := String.ofList (quoteChars text.toList)

def hexValue (c : Char) : Nat := if c.toNat < 87 then c.toNat - 48 else c.toNat - 87

/-- What a backslash and the letter after it stand for, the four digits aside. -/
def unescapeLetter : Char → Option Char
  | 'b' => some (Char.ofNat 8)
  | 't' => some (Char.ofNat 9)
  | 'n' => some (Char.ofNat 10)
  | 'f' => some (Char.ofNat 12)
  | 'r' => some (Char.ofNat 13)
  | '\"' => some '\"'
  | '\\' => some '\\'
  | _ => none

/-- The first character of a quoted string's inside, and the rest. -/
def unescape : List Char → Option (Char × List Char)
  | '\\' :: 'u' :: _ :: _ :: high :: low :: rest =>
      some (Char.ofNat (16 * hexValue high + hexValue low), rest)
  | '\\' :: letter :: rest => (unescapeLetter letter).map fun c => (c, rest)
  | c :: rest => if c = '\"' then none else some (c, rest)
  | [] => none

theorem hexValue_hexDigit : ∀ n < 16, hexValue (hexDigit n) = n := by decide

theorem unescape_plain {c : Char} (hquote : c ≠ '\"') (hslash : c ≠ '\\') (rest : List Char) :
    unescape (c :: rest) = some (c, rest) := by
  rw [unescape.eq_def]
  split <;> simp_all

/-- Reading undoes writing, whatever follows. -/
theorem unescape_escapeChar (c : Char) (rest : List Char) :
    unescape (escapeChar c ++ rest) = some (c, rest) := by
  have hback : ∀ n, c.toNat = n → Char.ofNat n = c := by
    intro n hn
    rw [← hn, Char.ofNat_toNat]
  unfold escapeChar
  split_ifs with h1 h2 h3 h4 h5 h6 h7 h8
  · subst h1; rfl
  · subst h2; rfl
  · rw [← hback 8 h3]; rfl
  · rw [← hback 9 h4]; rfl
  · rw [← hback 10 h5]; rfl
  · rw [← hback 12 h6]; rfl
  · rw [← hback 13 h7]; rfl
  · have hhigh := hexValue_hexDigit (c.toNat / 16) (by omega)
    have hlow := hexValue_hexDigit (c.toNat % 16) (by omega)
    have hsum : 16 * (c.toNat / 16) + c.toNat % 16 = c.toNat := by omega
    show some (Char.ofNat (16 * hexValue _ + hexValue _), rest) = _
    rw [hhigh, hlow, hsum, Char.ofNat_toNat]
  · exact unescape_plain h1 h2 rest

theorem unescape_quote (rest : List Char) : unescape ('\"' :: rest) = none := rfl

variable {a b x y : List Char}

/-- Two quoted strings with text behind them are the same string and the same
text. -/
theorem inside_inj (h : a.flatMap escapeChar ++ '\"' :: x = b.flatMap escapeChar ++ '\"' :: y) :
    a = b ∧ x = y := by
  induction a generalizing b with
  | nil =>
      cases b with
      | nil => exact ⟨rfl, (List.cons.inj h).2⟩
      | cons d b =>
          rw [List.flatMap_cons, List.append_assoc] at h
          have hread := congrArg unescape h
          rw [unescape_escapeChar] at hread
          exact absurd hread (by simp [unescape_quote])
  | cons c a ih =>
      rw [List.flatMap_cons, List.append_assoc] at h
      have hread := congrArg unescape h
      rw [unescape_escapeChar] at hread
      cases b with
      | nil => exact absurd hread (by simp [unescape_quote])
      | cons d b =>
          rw [List.flatMap_cons, List.append_assoc, unescape_escapeChar] at hread
          obtain ⟨hchar, hrest⟩ := Prod.mk.inj (Option.some.inj hread)
          obtain ⟨hab, hxy⟩ := ih hrest
          exact ⟨by rw [hchar, hab], hxy⟩

theorem quoteChars_append_inj (h : quoteChars a ++ x = quoteChars b ++ y) : a = b ∧ x = y := by
  unfold quoteChars at h
  simp only [List.cons_append, List.append_assoc, List.nil_append] at h
  exact inside_inj (List.cons.inj h).2

end Sinnlos.JsonText

import Mathlib.Data.Nat.Digits.Lemmas
import Mathlib.Data.List.Lex
import Sinnlos.Lib.Text

/-!
# Numbers in a fixed number of digits

A number that is padded with zeros to a width, and why texts of one width are
ordered as the numbers they write.
-/

namespace Sinnlos.Text

/-- The last decimal digits of a number, with zeros in front. -/
def digits : Nat → Nat → List Char
  | 0, _ => []
  | width + 1, n => digits width (n / 10) ++ [(n % 10).digitChar]

variable {width n : Nat} {c : Char} {a b : Nat}

@[simp] theorem length_digits (width n : Nat) : (digits width n).length = width := by
  induction width generalizing n with
  | zero => rfl
  | succ width ih => simp [digits, ih]

theorem isDigit_of_mem_digits (h : c ∈ digits width n) : c.isDigit = true := by
  induction width generalizing n with
  | zero => cases h
  | succ width ih =>
      unfold digits at h
      obtain hfront | hlast := List.mem_append.mp h
      · exact ih hfront
      · rw [List.mem_singleton.mp hlast, Nat.isDigit_digitChar]
        exact decide_eq_true (Nat.mod_lt n (by omega))

theorem digits_zero (width : Nat) : digits width 0 = List.replicate width '0' := by
  induction width with
  | zero => rfl
  | succ width ih =>
      rw [digits, Nat.zero_div, ih, List.replicate_succ']
      rfl

theorem toDigits_push (h : 10 ≤ n) :
    Nat.toDigits 10 n = Nat.toDigits 10 (n / 10) ++ [(n % 10).digitChar] :=
  Nat.toDigits_of_base_le (by omega) h

/-- A positive number is written without a zero in front. -/
theorem head_toDigits_ne (h : 0 < n) (rest : List Char) : Nat.toDigits 10 n ≠ '0' :: rest := by
  induction n using Nat.strong_induction_on generalizing rest with
  | h n ih =>
      by_cases hsmall : n < 10
      · rw [Nat.toDigits_of_lt_base hsmall]
        intro heq
        have hdigit := (List.cons.inj heq).1
        have hall : ∀ m < 10, 0 < m → Nat.digitChar m ≠ '0' := by decide
        exact hall n hsmall h hdigit
      · rw [toDigits_push (by omega)]
        intro heq
        cases hfront : Nat.toDigits 10 (n / 10) with
        | nil => exact Nat.toDigits_ne_nil hfront
        | cons first digits =>
            rw [hfront] at heq
            rw [(List.cons.inj heq).1] at hfront
            exact ih (n / 10) (by omega) (by omega) digits hfront

theorem padStart_push (width : Nat) (fill c : Char) (text : List Char) :
    padStart (width + 1) fill (text ++ [c]) = padStart width fill text ++ [c] := by
  unfold padStart
  rw [List.length_append, List.length_singleton, Nat.add_sub_add_right, List.append_assoc]

/-- Padding a number that fits gives all its digits. -/
theorem padStart_toString (h : n < 10 ^ (width + 1)) :
    padStart (width + 1) '0' (toString n).toList = digits (width + 1) n := by
  rw [Nat.toString_eq_ofList_toDigits, String.toList_ofList]
  induction width generalizing n with
  | zero =>
      have hlt : n < 10 := by simpa using h
      rw [Nat.toDigits_of_lt_base hlt, digits, digits, Nat.mod_eq_of_lt hlt]
      rfl
  | succ width ih =>
      by_cases hlt : n < 10
      · have hpad := padStart_push (width + 1) '0' n.digitChar []
        rw [Nat.toDigits_of_lt_base hlt, digits, Nat.mod_eq_of_lt hlt, Nat.div_eq_of_lt hlt,
          digits_zero, ← List.nil_append [n.digitChar], hpad]
        simp [padStart]
      · have hrest : n / 10 < 10 ^ (width + 1) := by
          have hpow : 10 ^ (width + 1 + 1) = 10 * 10 ^ (width + 1) := by rw [Nat.pow_succ']
          omega
        rw [toDigits_push (by omega), padStart_push, ih hrest, digits.eq_def (width + 1 + 1)]

/-- A number that does not fit takes more room. -/
theorem length_toString_of_le (h : 10 ^ width ≤ n) (hwidth : 0 < width) :
    width < (toString n).toList.length := by
  rw [Nat.toString_eq_ofList_toDigits, String.toList_ofList]
  by_contra hshort
  have hlt := (Nat.length_toDigits_le_iff (b := 10) (n := n) (by omega) hwidth).mp (by omega)
  omega

/-! ## Reading digits -/

theorem ofDigitChars_digits (h : n < 10 ^ width) : Nat.ofDigitChars 10 (digits width n) 0 = n := by
  induction width generalizing n with
  | zero =>
      have hzero : n = 0 := by simpa using h
      rw [hzero]
      rfl
  | succ width ih =>
      have hrest : n / 10 < 10 ^ width := by
        rw [Nat.pow_succ'] at h
        omega
      have hlast : n % 10 < 10 := Nat.mod_lt n (by omega)
      rw [digits, Nat.ofDigitChars_append, ih hrest,
        Nat.ofDigitChars_cons_digitChar_of_lt_ten hlast, Nat.ofDigitChars_nil]
      omega

theorem readNat_digits (h : n < 10 ^ (width + 1)) : readNat (digits (width + 1) n) = some n := by
  have hne : digits (width + 1) n ≠ [] := by
    intro hnil
    have hlen := length_digits (width + 1) n
    rw [hnil] at hlen
    cases hlen
  have hall : (digits (width + 1) n).all Char.isDigit = true :=
    List.all_eq_true.mpr fun _ hmem => isDigit_of_mem_digits hmem
  rw [readNat, if_pos ⟨hne, hall⟩, ofDigitChars_digits h]

theorem digitChar_of_isDigit (h : c.isDigit = true) :
    (c.toNat - '0'.toNat).digitChar = c ∧ c.toNat - '0'.toNat < 10 := by
  have hbounds : 48 ≤ c.toNat ∧ c.toNat ≤ 57 := by
    simp only [Char.isDigit, Bool.and_eq_true, decide_eq_true_eq] at h
    exact ⟨UInt32.le_iff_toNat_le.mp h.1, UInt32.le_iff_toNat_le.mp h.2⟩
  have hzero : '0'.toNat = 48 := rfl
  have hvalue : c = Char.ofNat c.toNat := (Char.ofNat_toNat c).symm
  rw [hzero]
  constructor
  · rw [hvalue]
    generalize c.toNat = code at hbounds
    have hcases : ∀ code, 48 ≤ code → code ≤ 57 →
        ((Char.ofNat code).toNat - 48).digitChar = Char.ofNat code := by
      decide +kernel
    exact hcases code hbounds.1 hbounds.2
  · omega

/-- Digits are those of the number they are read as. -/
theorem digits_of_readNat {text : List Char} (h : readNat text = some n) :
    n < 10 ^ text.length ∧ digits text.length n = text := by
  have hread : text.all Char.isDigit = true ∧ Nat.ofDigitChars 10 text 0 = n := by
    unfold readNat at h
    split at h
    · rename_i htext
      exact ⟨htext.2, Option.some.inj h⟩
    · cases h
  clear h
  induction text using List.reverseRecOn generalizing n with
  | nil =>
      rw [← hread.2]
      exact ⟨by decide, rfl⟩
  | append_singleton front c ih =>
      have hall := hread.1
      rw [List.all_append, Bool.and_eq_true] at hall
      have hfront := ih ⟨hall.1, rfl⟩
      have hc := digitChar_of_isDigit (by simpa using hall.2)
      have hn : n = 10 * Nat.ofDigitChars 10 front 0 + (c.toNat - '0'.toNat) := by
        rw [← hread.2, Nat.ofDigitChars_append, Nat.ofDigitChars_cons, Nat.ofDigitChars_nil]
      have hdiv : n / 10 = Nat.ofDigitChars 10 front 0 := by omega
      have hmod : n % 10 = c.toNat - '0'.toNat := by omega
      rw [List.length_append, List.length_singleton, Nat.pow_succ', digits, hdiv, hmod, hc.1,
        hfront.2]
      exact ⟨by omega, rfl⟩

/-! ## The order of texts -/

theorem append_lt_append {a b x y : List Char} (h : a.length = b.length) :
    a ++ x < b ++ y ↔ a < b ∨ a = b ∧ x < y := by
  induction a generalizing b with
  | nil =>
      have hb : b = [] := List.eq_nil_of_length_eq_zero (by simpa using h.symm)
      simp [hb]
  | cons c a ih =>
      cases b with
      | nil => cases h
      | cons d b =>
          have htail := ih (b := b) (by simpa using h)
          rw [List.cons_append, List.cons_append, List.cons_lt_cons_iff, List.cons_lt_cons_iff,
            htail, List.cons.injEq]
          tauto

theorem digitChar_lt_iff (ha : a < 10) (hb : b < 10) : a.digitChar < b.digitChar ↔ a < b := by
  have hcases : ∀ a < 10, ∀ b < 10, a.digitChar < b.digitChar ↔ a < b := by decide
  exact hcases a ha b hb

/-- Texts of one width are ordered as their numbers. -/
theorem digits_lt_iff (ha : a < 10 ^ width) (hb : b < 10 ^ width) :
    digits width a < digits width b ↔ a < b := by
  induction width generalizing a b with
  | zero =>
      have hzero : a = 0 ∧ b = 0 := by simpa using And.intro ha hb
      rw [hzero.1, hzero.2]
      simp
  | succ width ih =>
      rw [Nat.pow_succ'] at ha hb
      have hamod : a % 10 < 10 := Nat.mod_lt a (by omega)
      have hbmod : b % 10 < 10 := Nat.mod_lt b (by omega)
      have hfront := ih (a := a / 10) (b := b / 10) (by omega) (by omega)
      have hlast := digitChar_lt_iff hamod hbmod
      have hsame : digits width (a / 10) = digits width (b / 10) ↔ a / 10 = b / 10 := by
        constructor
        · intro heq
          have hvalue : Nat.ofDigitChars 10 (digits width (a / 10)) 0 = a / 10 :=
            ofDigitChars_digits (by omega)
          rw [heq, ofDigitChars_digits (by omega)] at hvalue
          exact hvalue.symm
        · intro heq
          rw [heq]
      rw [digits, digits, append_lt_append (by simp), hfront, hsame, List.cons_lt_cons_iff, hlast]
      simp only [List.lt_irrefl, and_false, or_false]
      omega

end Sinnlos.Text

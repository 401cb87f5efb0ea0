import Mathlib.Data.Nat.Digits.Lemmas

/-!
# Numbers by their digits

The number that digits of any base write, the most significant one first.
-/

namespace Sinnlos.Positional

def number (base : Nat) (digits : List Nat) : Nat := Nat.ofDigits base digits.reverse

variable {base : Nat} {a b : List Nat}

@[simp] theorem number_nil (base : Nat) : number base [] = 0 := rfl

@[simp] theorem number_singleton (base digit : Nat) : number base [digit] = digit :=
  Nat.ofDigits_singleton

theorem number_append (base : Nat) (a b : List Nat) :
    number base (a ++ b) = number base a * base ^ b.length + number base b := by
  rw [number, List.reverse_append, Nat.ofDigits_append, List.length_reverse, Nat.add_comm,
    Nat.mul_comm]
  rfl

theorem number_cons (base digit : Nat) (rest : List Nat) :
    number base (digit :: rest) = digit * base ^ rest.length + number base rest := by
  rw [← List.singleton_append, number_append, number_singleton]

theorem number_lt (hbase : 1 < base) (ha : ∀ digit ∈ a, digit < base) :
    number base a < base ^ a.length := by
  rw [← List.length_reverse]
  exact Nat.ofDigits_lt_base_pow_length hbase fun digit h => ha digit (List.mem_reverse.mp h)

/-- Equally many digits that write one number are the same. -/
theorem number_injective (hbase : 1 < base) (hlength : a.length = b.length)
    (ha : ∀ digit ∈ a, digit < base) (hb : ∀ digit ∈ b, digit < base)
    (h : number base a = number base b) : a = b := by
  apply List.reverse_injective
  apply Nat.ofDigits_inj_of_len_eq hbase
  · rw [List.length_reverse, List.length_reverse, hlength]
  · exact fun digit hmem => ha digit (List.mem_reverse.mp hmem)
  · exact fun digit hmem => hb digit (List.mem_reverse.mp hmem)
  · exact h

end Sinnlos.Positional

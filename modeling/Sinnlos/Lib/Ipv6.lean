import Mathlib.Data.List.Basic
import Sinnlos.Lib.Positional
import Sinnlos.Lib.Text

/-!
# Spellings of IPv6 addresses

The hexadecimal text forms of RFC 4291: groups of one to four digits of either case,
joined by colons, where a pair of colons may stand for one or more groups of zeros. A
spelling carries its own legality, so that every value of the type is a text that may
be written for an address.
-/

namespace Sinnlos.Ipv6

open Positional Text

/-! ## Digits -/

def hexDigits : List Char := "0123456789abcdef".toList

def upperDigits : List Char := "ABCDEF".toList

/-- What a digit of either case counts. -/
def hexValue (c : Char) : Nat := hexDigits.idxOf c.toLower

def IsHexDigit (c : Char) : Prop := c ∈ hexDigits ++ upperDigits

theorem any_eq_iff_mem (c : Char) (digits : List Char) :
    (digits.any fun digit => decide (c = digit)) = true ↔ c ∈ digits := by
  simp

instance (c : Char) : Decidable (IsHexDigit c) :=
  decidable_of_iff _ (any_eq_iff_mem c (hexDigits ++ upperDigits))

theorem digit_cases : ((hexDigits ++ upperDigits).all fun c => decide
    (c ≠ ':' ∧ c ≠ '.' ∧ c.toNat < 128 ∧
      (hexDigits.any fun digit => decide (c.toLower = digit)) = true ∧ hexValue c < 16 ∧
      hexValue c.toLower = hexValue c)) = true := by decide

variable {c : Char}

theorem IsHexDigit.spec (h : IsHexDigit c) : c ≠ ':' ∧ c ≠ '.' ∧ c.toNat < 128 ∧
    c.toLower ∈ hexDigits ∧ hexValue c < 16 ∧ hexValue c.toLower = hexValue c := by
  have hall := of_decide_eq_true (List.all_eq_true.mp digit_cases c h)
  rwa [any_eq_iff_mem] at hall

/-- A lower-case digit is the one at its value. -/
theorem hexDigits_getElem? : (hexDigits.all fun c =>
    decide (hexDigits[hexValue c]? = some c)) = true := by decide

/-- The number that hexadecimal digits write. -/
def hexNumber (digits : List Char) : Nat := number 16 (digits.map hexValue)

/-- Zeros in front do not count. -/
theorem hexNumber_replicate (count : Nat) (digits : List Char) :
    hexNumber (List.replicate count '0' ++ digits) = hexNumber digits := by
  have hzero : hexValue '0' = 0 := by decide
  induction count with
  | zero => rfl
  | succ count ih =>
      rw [List.replicate_succ, List.cons_append, hexNumber, List.map_cons, number_cons, hzero,
        Nat.zero_mul, Nat.zero_add]
      exact ih

/-- Equally many lower-case digits that write one number are the same. -/
theorem hexNumber_injective {a b : List Char} (hlength : a.length = b.length)
    (ha : ∀ c ∈ a, c ∈ hexDigits) (hb : ∀ c ∈ b, c ∈ hexDigits)
    (h : hexNumber a = hexNumber b) : a = b := by
  have hsmall : ∀ digits : List Char, (∀ c ∈ digits, c ∈ hexDigits) →
      ∀ value ∈ digits.map hexValue, value < 16 := by
    intro digits hdigits value hmem
    obtain ⟨c, hc, rfl⟩ := List.mem_map.mp hmem
    have hhex : IsHexDigit c := List.mem_append_left _ (hdigits c hc)
    exact hhex.spec.2.2.2.2.1
  have hread : ∀ digits : List Char, (∀ c ∈ digits, c ∈ hexDigits) →
      (digits.map hexValue).map (hexDigits[·]?) = digits.map some := by
    intro digits hdigits
    rw [List.map_map]
    apply List.map_congr_left
    intro c hc
    exact of_decide_eq_true (List.all_eq_true.mp hexDigits_getElem? c (hdigits c hc))
  have hvalues : a.map hexValue = b.map hexValue :=
    number_injective (by omega) (by simp [hlength]) (hsmall a ha) (hsmall b hb) h
  have hsome : a.map some = b.map some := by rw [← hread a ha, ← hread b hb, hvalues]
  exact List.map_injective_iff.mpr (Option.some_injective Char) hsome

/-! ## Groups -/

/-- One to four digits. -/
structure Hextet where
  digits : List Char
  nonempty : digits ≠ []
  short : digits.length ≤ 4
  hex : ∀ c ∈ digits, IsHexDigit c

def Hextet.value (group : Hextet) : Nat := hexNumber group.digits

theorem isHexDigit_zero : ∀ c ∈ ['0'], IsHexDigit c := forall_mem_of_all rfl

/-- What a pair of colons stands for, once or more often. -/
def Hextet.zero : Hextet :=
  ⟨['0'], List.cons_ne_nil '0' [], Nat.le_add_left 1 3, isHexDigit_zero⟩

theorem Hextet.value_lt (group : Hextet) : group.value < 65536 := by
  have hsmall : ∀ value ∈ group.digits.map hexValue, value < 16 := by
    intro value hmem
    obtain ⟨c, hc, rfl⟩ := List.mem_map.mp hmem
    exact (group.hex c hc).spec.2.2.2.2.1
  have hlt := number_lt (by omega) hsmall
  rw [List.length_map] at hlt
  have hpow : 16 ^ group.digits.length ≤ 16 ^ 4 := Nat.pow_le_pow_right (by omega) group.short
  have hvalue : group.value = number 16 (group.digits.map hexValue) := rfl
  omega

theorem Hextet.no_colon (group : Hextet) : ':' ∉ group.digits :=
  fun h => (group.hex _ h).spec.1 rfl

theorem Hextet.no_dot (group : Hextet) : '.' ∉ group.digits :=
  fun h => (group.hex _ h).spec.2.1 rfl

/-- Groups one after the other, with colons between them. -/
def join (groups : List Hextet) : List Char := List.intercalate [':'] (groups.map Hextet.digits)

@[simp] theorem join_nil : join [] = [] := rfl

@[simp] theorem join_singleton (group : Hextet) : join [group] = group.digits :=
  List.intercalate_singleton

theorem join_cons_cons (first second : Hextet) (rest : List Hextet) :
    join (first :: second :: rest) = first.digits ++ ':' :: join (second :: rest) := by
  simp [join, List.intercalate_cons_cons]

theorem join_ne_nil (first : Hextet) (rest : List Hextet) : join (first :: rest) ≠ [] := by
  have hdigits := first.nonempty
  cases rest with
  | nil => simpa using hdigits
  | cons second rest => simp [join_cons_cons]

theorem not_mem_join (hcolon : c ≠ ':') (hgroup : ∀ group : Hextet, c ∉ group.digits)
    (groups : List Hextet) : c ∉ join groups := by
  induction groups with
  | nil => simp
  | cons first rest ih =>
      cases rest with
      | nil => simpa using hgroup first
      | cons second rest =>
          rw [join_cons_cons, List.mem_append, List.mem_cons]
          rintro (h | h | h)
          · exact hgroup first h
          · exact hcolon h
          · exact ih h

/-! ## Spellings -/

/-- A text form of `count` groups: all of them, or those in front of and behind the pair
of colons that stands for the others. -/
inductive Spelling (count : Nat)
  | full (groups : List Hextet) (all : groups.length = count)
  | compressed (front back : List Hextet) (room : front.length + back.length < count)

variable {count : Nat}

def Spelling.text : Spelling count → List Char
  | .full groups _ => join groups
  | .compressed front back _ => join front ++ ':' :: ':' :: join back

/-- The groups that a spelling writes or leaves to the pair of colons. -/
def Spelling.groups : Spelling count → List Hextet
  | .full groups _ => groups
  | .compressed front back _ =>
      front ++ List.replicate (count - front.length - back.length) Hextet.zero ++ back

/-- The address, as the number that its groups write. -/
def Spelling.address (spelling : Spelling count) : Nat :=
  number 65536 (spelling.groups.map Hextet.value)

theorem Spelling.length_groups (spelling : Spelling count) :
    spelling.groups.length = count := by
  cases spelling with
  | full groups all => exact all
  | compressed front back room =>
      simp only [Spelling.groups, List.length_append, List.length_replicate]
      omega

theorem Spelling.no_dot (spelling : Spelling count) : '.' ∉ spelling.text := by
  have hjoin := not_mem_join (c := '.') (by decide) Hextet.no_dot
  cases spelling with
  | full groups all => exact hjoin groups
  | compressed front back room =>
      simp only [Spelling.text, List.mem_append, List.mem_cons, not_or]
      exact ⟨hjoin front, by decide, by decide, hjoin back⟩

theorem Spelling.colon_mem (spelling : Spelling count) (hcount : 2 ≤ count) :
    ':' ∈ spelling.text := by
  cases spelling with
  | full groups all =>
      match groups with
      | [] | [_] =>
          rw [← all] at hcount
          simp at hcount
      | first :: second :: rest => simp [Spelling.text, join_cons_cons]
  | compressed front back room => simp [Spelling.text]

theorem groups_value_lt (groups : List Hextet) :
    ∀ value ∈ groups.map Hextet.value, value < 65536 := by
  intro value hmem
  obtain ⟨group, -, rfl⟩ := List.mem_map.mp hmem
  exact group.value_lt

/-- The first bits of an address are what its first groups write. -/
theorem Spelling.address_div (spelling : Spelling count) (first : Nat) :
    spelling.address / 65536 ^ (count - first) =
      number 65536 ((spelling.groups.take first).map Hextet.value) := by
  have hsplit : spelling.groups.map Hextet.value =
      (spelling.groups.take first).map Hextet.value ++
        (spelling.groups.drop first).map Hextet.value := by
    rw [← List.map_append, List.take_append_drop]
  have hlength : ((spelling.groups.drop first).map Hextet.value).length = count - first := by
    rw [List.length_map, List.length_drop, spelling.length_groups]
  have hrest := number_lt (by omega) (groups_value_lt (spelling.groups.drop first))
  rw [hlength] at hrest
  rw [Spelling.address, hsplit, number_append, hlength, Nat.add_comm,
    Nat.add_mul_div_right _ _ (by positivity), Nat.div_eq_of_lt hrest, Nat.zero_add]

/-- Addresses share their first groups exactly when the spellings write the same ones. -/
theorem address_div_eq_iff (a b : Spelling count) (first : Nat) :
    a.address / 65536 ^ (count - first) = b.address / 65536 ^ (count - first) ↔
      (a.groups.take first).map Hextet.value = (b.groups.take first).map Hextet.value := by
  rw [a.address_div, b.address_div]
  constructor
  · intro h
    have hlength : ((a.groups.take first).map Hextet.value).length =
        ((b.groups.take first).map Hextet.value).length := by
      simp [a.length_groups, b.length_groups]
    exact number_injective (by omega) hlength (groups_value_lt _) (groups_value_lt _) h
  · intro h
    rw [h]

/-- An IPv4-mapped address with its last 32 bits in dotted form: 80 bits of zeros and 16
of ones in hexadecimal form, and four decimal octets. The pair of colons never stands
directly before the octets, since the group there is not zero. -/
structure MappedSpelling where
  lead : Spelling 6
  mapped : lead.address = 0xFFFF
  octets : Vector UInt8 4

/-- The dotted form of the IPv4 address. -/
def MappedSpelling.dotted (spelling : MappedSpelling) : List Char :=
  List.intercalate ['.'] (spelling.octets.toList.map fun octet => (toString octet.toNat).toList)

theorem MappedSpelling.dotted_spec (spelling : MappedSpelling) :
    ':' ∉ spelling.dotted ∧ '.' ∈ spelling.dotted := by
  have hocts : ∀ parts : List UInt8,
      ':' ∉ List.intercalate ['.'] (parts.map fun octet => (toString octet.toNat).toList) := by
    intro parts
    induction parts with
    | nil => simp
    | cons first rest ih =>
        have hfirst : ':' ∉ (toString first.toNat).toList := not_mem_toString (by decide) _
        cases rest with
        | nil => simpa using hfirst
        | cons second rest =>
            simp only [List.map_cons, List.intercalate_cons_cons, List.mem_append] at ih ⊢
            rintro ((h | h) | h)
            · exact hfirst h
            · exact absurd (List.mem_singleton.mp h) (by decide)
            · exact ih h
  constructor
  · exact hocts _
  · have hlength : spelling.octets.toList.length = 4 := by simp
    rw [MappedSpelling.dotted]
    match hparts : spelling.octets.toList with
    | [] | [_] =>
        rw [hparts] at hlength
        simp at hlength
    | first :: second :: rest => simp [List.intercalate_cons_cons]

def MappedSpelling.text (spelling : MappedSpelling) : List Char :=
  spelling.lead.text ++ ':' :: spelling.dotted

end Sinnlos.Ipv6

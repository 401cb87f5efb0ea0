import Mathlib.Data.List.DropRight

/-! # Text

Trimming and cutting of text as a web language's standard library does it, and
why two parts joined by a separator can be told apart again.
-/

namespace Sinnlos.Text

/-- White space and line ends, as `trim` knows them. -/
def isTrimmed (c : Char) : Bool :=
  c.toNat ∈ [9, 10, 11, 12, 13, 32, 160, 5760, 8232, 8233, 8239, 8287, 12288, 65279] ||
    (8192 ≤ c.toNat && c.toNat ≤ 8202)

variable {text : List Char} {sep c : Char}

/-- What a test of every character says. -/
theorem forall_mem_of_all {P : Char → Prop} [DecidablePred P]
    (h : (text.all fun c => decide (P c)) = true) : ∀ c ∈ text, P c :=
  fun c hc => of_decide_eq_true (List.all_eq_true.mp h c hc)

/-- A reader after another: both of them read. -/
theorem bind_eq_ok {ε α β : Type} {x : Except ε α} {f : α → Except ε β} {b : β} :
    x >>= f = .ok b ↔ ∃ a, x = .ok a ∧ f a = .ok b := by
  constructor
  · intro h
    cases x with
    | error e => cases h
    | ok a => exact ⟨a, rfl, h⟩
  · rintro ⟨a, rfl, h⟩
    exact h

theorem eq_ok_of_toOption {ε α : Type} {x : Except ε α} {a : α} (h : x.toOption = some a) :
    x = .ok a := by
  cases x with
  | error e => cases h
  | ok b => rw [Option.some.inj h]

def trimChars (text : List Char) : List Char :=
  (text.dropWhile isTrimmed).rdropWhile isTrimmed

def trim (text : String) : String := String.ofList (trimChars text.toList)

/-- What is left at the front after dropping at the end is still no white space. -/
theorem dropWhile_rdropWhile (p : Char → Bool) (h : text.dropWhile p = text) :
    (text.rdropWhile p).dropWhile p = text.rdropWhile p := by
  rw [List.dropWhile_eq_self_iff] at h ⊢
  intro hlen
  have hfront := List.rdropWhile_prefix p (l := text)
  have hhead := h (Nat.lt_of_lt_of_le hlen hfront.length_le)
  rwa [hfront.getElem hlen]

theorem trimChars_idem (text : List Char) : trimChars (trimChars text) = trimChars text := by
  unfold trimChars
  rw [dropWhile_rdropWhile isTrimmed (List.dropWhile_idempotent isTrimmed text),
    List.rdropWhile_idempotent]

@[simp] theorem trim_trim (text : String) : trim (trim text) = trim text := by
  simp only [trim, String.toList_ofList, trimChars_idem]

/-! ## Cutting -/

/-- The pieces between the separators; text without one is a single piece. -/
def split (sep : Char) : List Char → List (List Char)
  | [] => [[]]
  | c :: text =>
      if c = sep then [] :: split sep text
      else
        match split sep text with
        | [] => [[c]]
        | piece :: pieces => (c :: piece) :: pieces

/-- What stands before the first occurrence of `sep`, and what follows it. -/
def cut (sep : List Char) : List Char → List Char × Option (List Char)
  | [] => ([], none)
  | c :: text =>
      if sep.isPrefixOf (c :: text) then ([], some ((c :: text).drop sep.length))
      else ((c :: (cut sep text).1), (cut sep text).2)

/-- What stands after the last occurrence of `sep`; all of it where there is
none. -/
def afterLast (sep : Char) (text : List Char) : List Char := text.rtakeWhile fun c => c ≠ sep

def padStart (width : Nat) (fill : Char) (text : List Char) : List Char :=
  List.replicate (width - text.length) fill ++ text

/-! ## Pieces -/

theorem split_append {a b : List Char} (h : sep ∉ a) :
    split sep (a ++ sep :: b) = a :: split sep b := by
  induction a with
  | nil => simp [split]
  | cons c a ih =>
      have hc : c ≠ sep := fun heq => h (heq ▸ List.mem_cons_self)
      have hrest := ih (List.not_mem_of_not_mem_cons h)
      simp only [List.cons_append, split, if_neg hc, hrest]

theorem split_of_not_mem (h : sep ∉ text) : split sep text = [text] := by
  induction text with
  | nil => rfl
  | cons c text ih =>
      have hc : c ≠ sep := fun heq => h (heq ▸ List.mem_cons_self)
      simp only [split, if_neg hc, ih (List.not_mem_of_not_mem_cons h)]

theorem split_ne_nil (sep : Char) (text : List Char) : split sep text ≠ [] := by
  cases text with
  | nil => simp [split]
  | cons c text =>
      simp only [split]
      split
      · simp
      · split <;> simp

/-- A single piece is the whole text. -/
theorem eq_of_split_singleton {piece : List Char} (h : split sep text = [piece]) :
    text = piece := by
  induction text generalizing piece with
  | nil =>
      cases h
      rfl
  | cons c text ih =>
      simp only [split] at h
      split at h
      · exact absurd (List.cons.inj h).2 (split_ne_nil sep text)
      · split at h
        · rename_i hnil
          exact absurd hnil (split_ne_nil sep text)
        · rename_i first rest hpieces
          obtain ⟨hpiece, hrest⟩ := List.cons.inj h
          rw [hrest] at hpieces
          rw [← hpiece, ih hpieces]

/-! ## Joining -/

/-- Two pairs joined by a separator that their first parts do not hold are the
same pair. -/
theorem join_injective {α : Type} {sep : α} {a b c d : List α} (ha : sep ∉ a) (hc : sep ∉ c)
    (h : a ++ sep :: b = c ++ sep :: d) : a = c ∧ b = d := by
  induction a generalizing c with
  | nil =>
      cases c with
      | nil => exact ⟨rfl, (List.cons.inj h).2⟩
      | cons x c =>
          have hx := (List.cons.inj h).1
          exact absurd (hx ▸ List.mem_cons_self) hc
  | cons x a ih =>
      cases c with
      | nil =>
          have hx := (List.cons.inj h).1
          exact absurd (hx ▸ List.mem_cons_self) ha
      | cons y c =>
          obtain ⟨hxy, hrest⟩ := List.cons.inj h
          have hparts := ih (List.not_mem_of_not_mem_cons ha) (List.not_mem_of_not_mem_cons hc) hrest
          exact ⟨by rw [hxy, hparts.1], hparts.2⟩

/-- Numbers are told apart by how they are written. -/
theorem toString_injective {a b : Nat} (h : toString a = toString b) : a = b := by
  rw [Nat.toString_eq_ofList_toDigits, Nat.toString_eq_ofList_toDigits, String.ofList_inj] at h
  rw [← Nat.ofDigitChars_ten_toDigits (n := a), h, Nat.ofDigitChars_ten_toDigits]

theorem not_mem_toString (h : c.isDigit = false) (n : Nat) : c ∉ (toString n).toList := by
  rw [Nat.toString_eq_ofList_toDigits, String.toList_ofList]
  intro hmem
  have hdigit := Nat.isDigit_of_mem_toDigits (by decide) (by decide) hmem
  rw [h] at hdigit
  cases hdigit

/-! ## Numbers -/

/-- The natural number of decimal digits. -/
def readNat (text : List Char) : Option Nat :=
  if text ≠ [] ∧ text.all Char.isDigit then some (Nat.ofDigitChars 10 text 0) else none

/-- A decimal integer as `Number` reads it; none is not a number. The other
notations that `Number` knows are left out. -/
def readInt (text : String) : Option Int :=
  match text.toList with
  | '-' :: digits => (readNat digits).map fun n : Nat => -(n : Int)
  | digits => (readNat digits).map fun n : Nat => (n : Int)

theorem readNat_toString (n : Nat) : readNat (toString n).toList = some n := by
  have hdigits : ∀ c ∈ Nat.toDigits 10 n, c.isDigit = true := by
    intro c hc
    exact Nat.isDigit_of_mem_toDigits (by decide) (by decide) hc
  rw [Nat.toString_eq_ofList_toDigits, String.toList_ofList, readNat,
    if_pos ⟨Nat.toDigits_ne_nil, List.all_eq_true.mpr hdigits⟩, Nat.ofDigitChars_ten_toDigits]

/-- Zeros in front of a number do not change it. -/
theorem readNat_padStart (width n : Nat) :
    readNat (padStart width '0' (toString n).toList) = some n := by
  have hdigits : ∀ c ∈ Nat.toDigits 10 n, c.isDigit = true := by
    intro c hc
    exact Nat.isDigit_of_mem_toDigits (by decide) (by decide) hc
  have hzeros (count : Nat) (rest : List Char) :
      Nat.ofDigitChars 10 (List.replicate count '0' ++ rest) 0 = Nat.ofDigitChars 10 rest 0 := by
    induction count with
    | zero => rfl
    | succ count ih => exact ih
  rw [Nat.toString_eq_ofList_toDigits, String.toList_ofList, padStart, readNat, hzeros,
    Nat.ofDigitChars_ten_toDigits, if_pos]
  constructor
  · simp [Nat.toDigits_ne_nil]
  · rw [List.all_eq_true]
    intro c hc
    rcases List.mem_append.mp hc with hzero | hdigit
    · rw [List.eq_of_mem_replicate hzero]
      rfl
    · exact hdigits c hdigit

theorem readInt_of_nat (n : Nat) : readInt (toString n) = some (n : Int) := by
  have hminus : '-' ∉ (toString n).toList := not_mem_toString (by decide) n
  have hread := readNat_toString n
  unfold readInt
  split
  · rename_i heq
    rw [heq] at hminus
    exact absurd List.mem_cons_self hminus
  · rw [hread]
    rfl

theorem toList_negSucc (n : Nat) :
    (toString (Int.negSucc n)).toList = '-' :: (toString (n + 1)).toList := by
  change ("-" ++ toString (n + 1)).toList = _
  rw [String.toList_append]
  rfl

/-- A number is read back from how it is written. -/
theorem readInt_toString (n : Int) : readInt (toString n) = some n := by
  cases n with
  | ofNat n => exact readInt_of_nat n
  | negSucc n =>
      have hread := readNat_toString (n + 1)
      unfold readInt
      simp only [toList_negSucc, hread]
      rfl

/-- An integer of digits alone is the number they write. -/
theorem readNat_of_toString {n : Int} {k : Nat} (h : readNat (toString n).toList = some k) :
    (k : Int) = n := by
  have hread := readInt_toString n
  have hdigits : (toString n).toList.all Char.isDigit = true := by
    unfold readNat at h
    split at h
    · rename_i hall
      exact hall.2
    · cases h
  unfold readInt at hread
  split at hread
  · rename_i digits heq
    rw [heq] at hdigits
    simp only [List.all_cons, Bool.and_eq_true] at hdigits
    exact absurd hdigits.1 (by decide)
  · rw [h] at hread
    simpa using hread

/-- How an integer is written: with a sign at most and with digits. -/
theorem not_mem_toString_int (hdigit : c.isDigit = false) (hsign : c ≠ '-') (n : Int) :
    c ∉ (toString n).toList := by
  cases n with
  | ofNat n => exact not_mem_toString hdigit n
  | negSucc n =>
      rw [toList_negSucc, List.mem_cons, not_or]
      exact ⟨hsign, not_mem_toString hdigit (n + 1)⟩

/-- Letters and digits of ASCII. -/
theorem isAlphanum_iff : c.isAlphanum = true ↔
    (('A' ≤ c ∧ c ≤ 'Z') ∨ 'a' ≤ c ∧ c ≤ 'z') ∨ '0' ≤ c ∧ c ≤ '9' := by
  change ((decide ('A' ≤ c ∧ c ≤ 'Z') || (decide ('a' ≤ c) && decide (c ≤ 'z'))) ||
    (decide ('0' ≤ c) && decide (c ≤ '9'))) = true ↔ _
  simp only [Bool.or_eq_true, Bool.and_eq_true, decide_eq_true_eq]

end Sinnlos.Text

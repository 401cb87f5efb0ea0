import Mathlib.Data.List.Basic
import Mathlib.Data.Option.Basic

/-!
# Separated values

Records of fields, a separator between the fields and a line end behind each
record. A field that holds a separator, a quote or a part of a line end stands in
quotes, its own quotes doubled. A reader takes one symbol after the other; it reads
back every table whose records have a field.
-/

namespace Sinnlos.Csv

universe u

/-- The symbols with a meaning; no two of them are the same. -/
structure Dialect (α : Type u) where
  separator : α
  quote : α
  cr : α
  lf : α
  quote_ne_separator : quote ≠ separator
  quote_ne_cr : quote ≠ cr
  quote_ne_lf : quote ≠ lf
  cr_ne_separator : cr ≠ separator

variable {α : Type u} [DecidableEq α] (d : Dialect α)

/-! ## Writing -/

def Dialect.isSpecial (c : α) : Bool := c = d.separator ∨ c = d.quote ∨ c = d.cr ∨ c = d.lf

/-- Every quote twice. -/
def doubled (field : List α) : List α :=
  field.flatMap fun c => if c = d.quote then [d.quote, d.quote] else [c]

def writeField (field : List α) : List α :=
  if field.any d.isSpecial then d.quote :: (doubled d field ++ [d.quote]) else field

/-- The fields with separators between them. -/
def writeFields : List (List α) → List α
  | [] => []
  | [field] => writeField d field
  | field :: fields => writeField d field ++ d.separator :: writeFields fields

def write (records : List (List (List α))) : List α :=
  records.flatMap fun fields => writeFields d fields ++ [d.cr, d.lf]

/-! ## Reading -/

/-- Where the reader is in a field. -/
inductive Mode
  | start
  | plain
  | quoted
  /-- Behind a quote that ends the field or is the first of two. -/
  | closed
  /-- Behind the first half of a line end. -/
  | ended
deriving DecidableEq

structure Reader (α : Type u) where
  done : List (List (List α))
  fields : List (List α)
  field : List α
  mode : Mode

/-- A separator or the first half of a line end. -/
def endField (s : Reader α) (c : α) : Option (Reader α) :=
  if c = d.separator then
    some { s with fields := s.fields ++ [s.field], field := [], mode := .start }
  else if c = d.cr then
    some { s with fields := s.fields ++ [s.field], field := [], mode := .ended }
  else none

def readPlain (s : Reader α) (c : α) : Option (Reader α) :=
  if d.isSpecial c then endField d s c else some { s with field := s.field ++ [c], mode := .plain }

def step (s : Reader α) (c : α) : Option (Reader α) :=
  match s.mode with
  | .start => if c = d.quote then some { s with mode := .quoted } else readPlain d s c
  | .plain => readPlain d s c
  | .quoted =>
      if c = d.quote then some { s with mode := .closed }
      else some { s with field := s.field ++ [c] }
  | .closed =>
      if c = d.quote then some { s with field := s.field ++ [c], mode := .quoted }
      else endField d s c
  | .ended =>
      if c = d.lf then some { done := s.done ++ [s.fields], fields := [], field := [], mode := .start }
      else none

/-- The records at the end of the text; the last one may lack its line end. -/
def finish (s : Reader α) : Option (List (List (List α))) :=
  match s.mode with
  | .quoted => none
  | .ended => none
  | .start => if s.fields = [] then some s.done else some (s.done ++ [s.fields ++ [s.field]])
  | _ => some (s.done ++ [s.fields ++ [s.field]])

def read (text : List α) : Option (List (List (List α))) :=
  (text.foldlM (step d) ⟨[], [], [], .start⟩).bind finish

/-! ## The round trip -/

variable {d} {s : Reader α} {c : α} {field : List α}

/-- A field may end here. -/
def Reader.AtEnd (s : Reader α) : Prop := s.mode = .start ∨ s.mode = .plain ∨ s.mode = .closed

theorem readPlain_separator : readPlain d s d.separator =
    some { s with fields := s.fields ++ [s.field], field := [], mode := .start } := by
  simp [readPlain, Dialect.isSpecial, endField]

theorem readPlain_cr : readPlain d s d.cr =
    some { s with fields := s.fields ++ [s.field], field := [], mode := .ended } := by
  simp [readPlain, Dialect.isSpecial, endField, d.cr_ne_separator]

theorem step_separator (h : s.AtEnd) : step d s d.separator =
    some { s with fields := s.fields ++ [s.field], field := [], mode := .start } := by
  have hquote : d.separator ≠ d.quote := d.quote_ne_separator.symm
  rcases h with h | h | h
  · simp only [step, h, if_neg hquote, readPlain_separator]
  · simp only [step, h, readPlain_separator]
  · simp [step, h, hquote, endField]

theorem step_cr (h : s.AtEnd) : step d s d.cr =
    some { s with fields := s.fields ++ [s.field], field := [], mode := .ended } := by
  have hquote : d.cr ≠ d.quote := d.quote_ne_cr.symm
  rcases h with h | h | h
  · simp only [step, h, if_neg hquote, readPlain_cr]
  · simp only [step, h, readPlain_cr]
  · simp [step, h, hquote, endField, d.cr_ne_separator]

theorem step_plain (h : s.mode = .start ∨ s.mode = .plain) (hc : d.isSpecial c = false) :
    step d s c = some { s with field := s.field ++ [c], mode := .plain } := by
  have hquote : c ≠ d.quote := by
    intro heq
    simp [Dialect.isSpecial, heq] at hc
  rcases h with h | h
  · simp [step, h, hquote, readPlain, hc]
  · simp [step, h, readPlain, hc]

/-- Symbols without a meaning. -/
theorem feed_plain (h : s.mode = .start ∨ s.mode = .plain)
    (plain : ∀ c ∈ field, d.isSpecial c = false) :
    ∃ mode, (mode = .start ∨ mode = .plain) ∧
      field.foldlM (step d) s = some { s with field := s.field ++ field, mode } := by
  induction field generalizing s with
  | nil => exact ⟨s.mode, h, by simp⟩
  | cons c field ih =>
      rw [List.forall_mem_cons] at plain
      obtain ⟨mode, hmode, hfeed⟩ := ih (s := { s with field := s.field ++ [c], mode := .plain })
        (Or.inr rfl) plain.2
      refine ⟨mode, hmode, ?_⟩
      rw [List.foldlM_cons, step_plain h plain.1, Option.bind_eq_bind, Option.bind_some, hfeed]
      simp

/-- What stands in quotes. -/
theorem feed_doubled (h : s.mode = .quoted) (field : List α) :
    (doubled d field).foldlM (step d) s = some { s with field := s.field ++ field } := by
  induction field generalizing s with
  | nil => simp [doubled]
  | cons c field ih =>
      have hrest := ih (s := { s with field := s.field ++ [c] }) h
      have hsplit : doubled d (c :: field) =
          (if c = d.quote then [d.quote, d.quote] else [c]) ++ doubled d field := rfl
      have hone : (if c = d.quote then [d.quote, d.quote] else [c]).foldlM (step d) s =
          some { s with field := s.field ++ [c] } := by
        by_cases hc : c = d.quote
        · have hsame : s = { s with mode := .quoted } := by rw [← h]
          rw [hsame]
          simp [hc, step]
        · simp [hc, step, h]
      rw [hsplit, List.foldlM_append, hone, Option.bind_eq_bind, Option.bind_some, hrest]
      simp

/-- A field that was written is the reader's field. -/
theorem feed_field (h : s.mode = .start) (hfield : s.field = []) (field : List α) :
    ∃ mode, (writeField d field).foldlM (step d) s = some { s with field, mode } ∧
      Reader.AtEnd { s with field, mode } := by
  unfold writeField
  split
  · refine ⟨.closed, ?_, Or.inr (Or.inr rfl)⟩
    have hopen : step d s d.quote = some { s with mode := .quoted } := by simp [step, h]
    have hbody := feed_doubled (d := d) (s := { s with mode := .quoted }) rfl field
    rw [List.foldlM_cons, hopen, Option.bind_eq_bind, Option.bind_some, List.foldlM_append, hbody]
    simp [step, hfield]
  · next hplain =>
      have plain : ∀ c ∈ field, d.isSpecial c = false := by simpa using hplain
      obtain ⟨mode, hmode, hfeed⟩ := feed_plain (Or.inl h) plain
      refine ⟨mode, ?_, hmode.imp id Or.inl⟩
      rw [hfeed, hfield]
      simp

variable {fields : List (List α)} {records : List (List (List α))}

/-- A record that was written, up to its line end. -/
theorem feed_fields (hne : fields ≠ []) (h : s.mode = .start) (hfield : s.field = []) :
    ∃ field mode before, s.fields ++ fields = before ++ [field] ∧
      (writeFields d fields).foldlM (step d) s = some { s with fields := before, field, mode } ∧
      Reader.AtEnd { s with fields := before, field, mode } := by
  induction fields generalizing s with
  | nil => exact absurd rfl hne
  | cons field fields ih =>
      obtain ⟨mode, hfeed, hend⟩ := feed_field (d := d) h hfield field
      cases fields with
      | nil => exact ⟨field, mode, s.fields, rfl, hfeed, hend⟩
      | cons next fields =>
          obtain ⟨last, mode', before, hsplit, hrest, hend'⟩ :=
            ih (s := { s with fields := s.fields ++ [field], field := [], mode := .start })
              (List.cons_ne_nil _ _) rfl rfl
          refine ⟨last, mode', before, ?_, ?_, hend'⟩
          · rw [← hsplit]
            simp
          · rw [writeFields, List.foldlM_append, hfeed, Option.bind_eq_bind, Option.bind_some,
              List.foldlM_cons, step_separator hend, Option.bind_eq_bind, Option.bind_some]
            · exact hrest
            · simp

theorem feed_record (hne : fields ≠ []) (done : List (List (List α))) :
    (writeFields d fields ++ [d.cr, d.lf]).foldlM (step d) ⟨done, [], [], .start⟩ =
      some ⟨done ++ [fields], [], [], .start⟩ := by
  obtain ⟨field, mode, before, hsplit, hfeed, hend⟩ :=
    feed_fields (d := d) (s := ⟨done, [], [], .start⟩) hne rfl rfl
  rw [List.nil_append] at hsplit
  rw [List.foldlM_append, hfeed, Option.bind_eq_bind, Option.bind_some, List.foldlM_cons,
    step_cr hend, Option.bind_eq_bind, Option.bind_some]
  simp [step, hsplit]

theorem feed_write (hne : ∀ fields ∈ records, fields ≠ []) (done : List (List (List α))) :
    (write d records).foldlM (step d) ⟨done, [], [], .start⟩ =
      some ⟨done ++ records, [], [], .start⟩ := by
  induction records generalizing done with
  | nil => simp [write]
  | cons fields records ih =>
      rw [List.forall_mem_cons] at hne
      have hsplit : write d (fields :: records) =
          (writeFields d fields ++ [d.cr, d.lf]) ++ write d records := rfl
      rw [hsplit, List.foldlM_append, feed_record hne.1, Option.bind_eq_bind, Option.bind_some,
        ih hne.2, List.append_assoc, List.singleton_append]

/-- A table whose records have a field is read back. -/
theorem read_write (hne : ∀ fields ∈ records, fields ≠ []) :
    read d (write d records) = some records := by
  rw [read, feed_write hne]
  rfl

end Sinnlos.Csv

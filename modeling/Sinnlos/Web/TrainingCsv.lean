import Sinnlos.Lib.Csv

/-!
# The CSV downloads of the training report

`csvCell` and `toCsv` of `apps/web/src/lib/training-report-csv.ts`, over texts of
UTF-16 code units. How a number is written is a parameter.
-/

namespace Sinnlos.Web.TrainingCsv

open Csv

abbrev Text := List UInt16

def unit (c : Char) : UInt16 := c.toNat.toUInt16

def units (text : String) : Text := text.toList.map unit

variable {ν : Type} (numberText : ν → Text)

/-- What a report puts into a cell. -/
inductive CsvValue (ν : Type)
  | text (content : Text)
  | number (value : ν)
  | null

def CsvValue.toText : CsvValue ν → Text
  | .text content => content
  | .number value => numberText value
  | .null => []

/-- `/^[=+\-@\t\r]/`. -/
def startsFormula : Text → Bool
  | [] => false
  | c :: _ => c ∈ ['=', '+', '-', '@', '\t', '\r'].map unit

/-- A text that a spreadsheet does not read as a formula. -/
def neutralised (text : Text) : Text := if startsFormula text then unit '\x27' :: text else text

/-- `/[;"\r\n]/`. -/
def needsQuotes (text : Text) : Bool := text.any fun c => c ∈ [';', '\"', '\r', '\n'].map unit

/-- One cell: formula-neutralised, quoted when it holds ; " CR or LF. -/
def csvCell (value : CsvValue ν) : Text :=
  let text := neutralised (value.toText numberText)
  if needsQuotes text then
    unit '\"' :: text.flatMap (fun c => if c = unit '\"' then [c, c] else [c]) ++ [unit '\"']
  else text

def BOM : UInt16 := 0xFEFF

/-- Rows to a CSV document: BOM, one line per row, CRLF after every line. -/
def toCsv (rows : List (List (CsvValue ν))) : Text :=
  BOM :: rows.flatMap fun row =>
    List.intercalate [unit ';'] (row.map (csvCell numberText)) ++ [unit '\r', unit '\n']

/-! ## Reading it back -/

def semicolons : Dialect UInt16 where
  separator := unit ';'
  quote := unit '\"'
  cr := unit '\r'
  lf := unit '\n'
  quote_ne_separator := by decide
  quote_ne_cr := by decide
  quote_ne_lf := by decide
  cr_ne_separator := by decide

/-- The table of a document, with or without a byte order mark. -/
def readCsv (text : Text) : Option (List (List Text)) :=
  Csv.read semicolons (if text.head? = some BOM then text.tail else text)

variable {numberText}

theorem needsQuotes_eq (text : Text) : needsQuotes text = text.any semicolons.isSpecial := by
  unfold needsQuotes
  congr 1
  funext c
  rw [Bool.eq_iff_iff, Dialect.isSpecial, decide_eq_true_eq, decide_eq_true_eq]
  simp [semicolons]

theorem csvCell_eq (value : CsvValue ν) :
    csvCell numberText value = writeField semicolons (neutralised (value.toText numberText)) := by
  have hdoubled (text : Text) :
      text.flatMap (fun c => if c = unit '\"' then [c, c] else [c]) = doubled semicolons text := by
    unfold doubled
    congr 1
    funext c
    by_cases h : c = unit '\"'
    · simp [h, semicolons]
    · simp [h, semicolons]
  simp only [csvCell, writeField, needsQuotes_eq, hdoubled]
  rfl

theorem writeFields_eq_intercalate {α : Type} [DecidableEq α] (d : Dialect α)
    (fields : List (List α)) :
    writeFields d fields = List.intercalate [d.separator] (fields.map (writeField d)) := by
  induction fields with
  | nil => rfl
  | cons field fields ih =>
      cases fields with
      | nil => simp [writeFields, List.intercalate]
      | cons next fields =>
          rw [writeFields, ih]
          · simp [List.intercalate]
          · simp

/-- The cells as they are read back. -/
def neutralisedCells (numberText : ν → Text) (rows : List (List (CsvValue ν))) :
    List (List Text) :=
  rows.map fun row => row.map fun value => neutralised (value.toText numberText)

theorem toCsv_eq (rows : List (List (CsvValue ν))) :
    toCsv numberText rows = BOM :: Csv.write semicolons (neutralisedCells numberText rows) := by
  unfold toCsv neutralisedCells Csv.write
  rw [List.flatMap_map]
  congr 2
  funext row
  rw [writeFields_eq_intercalate, List.map_map]
  have hcells : row.map (csvCell numberText) =
      row.map (writeField semicolons ∘ fun value => neutralised (value.toText numberText)) :=
    List.map_congr_left fun value _ => csvCell_eq value
  rw [hcells]
  rfl

theorem startsFormula_neutralised (text : Text) : startsFormula (neutralised text) = false := by
  unfold neutralised
  split
  · change decide (unit '\x27' ∈ ['=', '+', '-', '@', '\t', '\r'].map unit) = false
    decide
  · next h => simpa using h

/-- Every table whose rows have a cell is read back, its cells neutralised. -/
theorem readCsv_toCsv {rows : List (List (CsvValue ν))} (cells : ∀ row ∈ rows, row ≠ []) :
    readCsv (toCsv numberText rows) = some (neutralisedCells numberText rows) ∧
      ∀ row ∈ neutralisedCells numberText rows, ∀ cell ∈ row, startsFormula cell = false := by
  constructor
  · have hne : ∀ fields ∈ neutralisedCells numberText rows, fields ≠ [] := by
      intro fields hfields
      obtain ⟨row, hrow, rfl⟩ := List.mem_map.mp hfields
      have hrow := cells row hrow
      simpa using hrow
    rw [toCsv_eq, readCsv]
    simp only [List.head?_cons, if_true, List.tail_cons]
    exact Csv.read_write hne
  · intro row hrow cell hcell
    obtain ⟨values, _, rfl⟩ := List.mem_map.mp hrow
    obtain ⟨value, _, rfl⟩ := List.mem_map.mp hcell
    exact startsFormula_neutralised _

/-- A formula, a separator with quotes and an empty cell. -/
def sampleRows : List (List (CsvValue Nat)) :=
  [[.text (units "=1+1"), .text (units "a;\"b\"")], [.null], [.number 3, .text (units "\r\n")]]

theorem readCsv_toCsv_sample :
    readCsv (toCsv (fun n => units (toString n)) sampleRows) =
      some [[units "'=1+1", units "a;\"b\""], [[]], [units "3", units "'\r\n"]] :=
  have cells : ∀ row ∈ sampleRows, row ≠ [] := by simp [sampleRows]
  (@readCsv_toCsv Nat (fun n => units (toString n)) sampleRows cells).1

end Sinnlos.Web.TrainingCsv

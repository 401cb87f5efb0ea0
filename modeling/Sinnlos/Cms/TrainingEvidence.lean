import Sinnlos.Domain.Instants
import Sinnlos.Domain.Training

/-!
# Training evidence

How long a receipt is kept. The newest receipt of each lesson of a person who is
not anonymised is never deleted; a superseded one goes some years after it
stopped counting, and an anonymisation sets the clock for all of them.
-/

namespace Sinnlos.Cms.Evidence

open Domain Calendar Text

/-- Longest validity a course may set. -/
def MAX_VALIDITY_MONTHS : Nat := 120

/-! ## Stored instants -/

def isoYear (year : Int) : String :=
  if 0 ≤ year ∧ year ≤ 9999 then pad year 4
  else if year < 0 then "-" ++ pad (-year) 6
  else "+" ++ pad year 6

/-- `new Date(ms).toISOString()`. -/
def isoOfMs (ms : Int) : String :=
  let date := ofDayNumber (EPOCH_DAY + ms / Domain.DAY_MS)
  let clock := ms % Domain.DAY_MS
  isoYear date.year ++ "-" ++ pad date.month 2 ++ "-" ++ pad date.day 2 ++ "T" ++
    pad (clock / 3600000) 2 ++ ":" ++ pad (clock / 60000 % 60) 2 ++ ":" ++
    pad (clock / 1000 % 60) 2 ++ "." ++ pad (clock % 1000) 3 ++ "Z"

/-! ## Snapshots -/

/-- What a snapshot tells about the validity. -/
structure TrainingSnapshot where
  validUntil : Option String
  backfilled : Bool
deriving DecidableEq

inductive ReceiptValidity
  | «until» (key : String)
  | noExpiry
  | unknown
deriving DecidableEq

/-- What the snapshot knows about the receipt's validity. -/
def validityOf : Option TrainingSnapshot → ReceiptValidity
  | none => .unknown
  | some snapshot =>
      if snapshot.backfilled then .unknown
      else
        match snapshot.validUntil with
        | none => .noExpiry
        | some key => if key = "" then .noExpiry else .until key

/-- A receipt as it is stored. -/
structure StoredReceipt where
  id : Nat
  targetDocumentId : Option String
  completedAt : Option String
  snapshot : Option TrainingSnapshot
deriving DecidableEq

/-- A receipt of one lesson. -/
structure GroupedReceipt where
  id : Nat
  lesson : String
  completedAt : Option String
  snapshot : Option TrainingSnapshot

/-- When and for whom a receipt is judged. -/
structure RetentionContext where
  current : Bool
  anonymisedAt : Option String
  todayKey : String
  years : Nat
  timeZone : Zone

def laterKey (a b : String) : String := if a > b then a else b

section

variable (dateParse : String → Option Int)

/-- A stored instant in the form of `toISOString`, none when it is unreadable. -/
def publicationStamp (value : Option String) : Option String :=
  (value.bind (instantEpochMs dateParse)).map isoOfMs

/-! ## The retention rule -/

/-- The day from which the retention counts, none for a receipt that stays. -/
def retentionBase (receipt : GroupedReceipt) (context : RetentionContext) :
    Except RangeError (Option String) :=
  match context.anonymisedAt with
  | none =>
      if context.current then return none
      else
        match validityOf receipt.snapshot with
        | .until key => return some key
        | _ => return none
  | some anonymisedAt =>
      match instantEpochMs dateParse anonymisedAt with
      | none => return none
      | some leftMs =>
          let left := zonedDateKeyOfMs leftMs context.timeZone
          match validityOf receipt.snapshot with
          | .until key => return some (laterKey key left)
          | .noExpiry => return some left
          | .unknown =>
              match receipt.completedAt.bind (instantEpochMs dateParse) with
              | none => return none
              | some doneMs => do
                  let bound ← addMonthsToKey (zonedDateKeyOfMs doneMs context.timeZone)
                    MAX_VALIDITY_MONTHS
                  return some (laterKey bound left)

/-- Whether a receipt is past its retention. -/
def receiptExpired (receipt : GroupedReceipt) (context : RetentionContext) :
    Except RangeError Bool := do
  match ← retentionBase dateParse receipt context with
  | none => return false
  | some base =>
      if (plainDateMatch base).isNone then return false
      else return (← addMonthsToKey base (context.years * 12)) < context.todayKey

/-! ## The newest receipt per lesson -/

/-- The instant of a receipt; an unreadable one is the oldest. -/
def receiptMs (receipt : GroupedReceipt) : Option Int :=
  receipt.completedAt.bind (instantEpochMs dateParse)

/-- Later, where none is before every instant. -/
def isLater : Option Int → Option Int → Bool
  | some a, some b => a > b
  | some _, none => true
  | none, _ => false

def noteNewest (newest : OrderedMap String GroupedReceipt) (receipt : GroupedReceipt) :
    OrderedMap String GroupedReceipt :=
  match newest.get? receipt.lesson with
  | none => newest.set receipt.lesson receipt
  | some kept =>
      if isLater (receiptMs dateParse receipt) (receiptMs dateParse kept) ||
          (receiptMs dateParse receipt = receiptMs dateParse kept && receipt.id > kept.id) then
        newest.set receipt.lesson receipt
      else newest

/-- The ids of the newest receipt per lesson. -/
def currentReceiptIds (receipts : List GroupedReceipt) : List Nat :=
  (receipts.foldl (noteNewest dateParse) OrderedMap.empty).values.map GroupedReceipt.id

/-! ## One person -/

/-- The receipts of a person, with readable instants only. -/
def receiptsOf (rows : List StoredReceipt) : List GroupedReceipt :=
  rows.filterMap fun row => row.targetDocumentId.map fun lesson =>
    { id := row.id, lesson := lesson, completedAt := publicationStamp dateParse row.completedAt,
      snapshot := row.snapshot }

/-- The elements that a test accepts; an error of the test ends it. -/
def filterThrowing {α ε : Type} (test : α → Except ε Bool) : List α → Except ε (List α)
  | [] => return []
  | a :: rest => do
      let accepted ← test a
      let others ← filterThrowing test rest
      return if accepted then a :: others else others

/-- The ids of the receipts that the rule lets go. -/
def expiredIds (rows : List StoredReceipt) (anonymisedAt : Option String) (todayKey : String)
    (years : Nat) (timeZone : Zone) : Except RangeError (List Nat) := do
  let receipts := receiptsOf dateParse rows
  let current := currentReceiptIds dateParse receipts
  let expired ← filterThrowing (fun receipt => receiptExpired dateParse receipt
    { current := current.contains receipt.id
      anonymisedAt := publicationStamp dateParse anonymisedAt
      todayKey := todayKey
      years := years
      timeZone := timeZone }) receipts
  return expired.map GroupedReceipt.id

/-- A person's receipts after `pruneTrainingEvidence`: one transaction, so an
error deletes nothing. -/
def pruneTrainingEvidence (rows : List StoredReceipt) (anonymisedAt : Option String)
    (todayKey : String) (years : Nat) (timeZone : Zone) : List StoredReceipt :=
  match expiredIds dateParse rows anonymisedAt todayKey years timeZone with
  | .error _ => rows
  | .ok expired => rows.filter fun row => !expired.contains row.id

/-! ## Histories -/

/-- What happens to a person's receipts: a lesson is completed, a night passes. -/
inductive TrainingEvent
  | completed (receipt : StoredReceipt)
  | pruned (todayKey : String)

def trainingNext (anonymisedAt : Option String) (years : Nat) (timeZone : Zone)
    (rows : List StoredReceipt) : TrainingEvent → List StoredReceipt
  | .completed receipt => rows ++ [receipt]
  | .pruned todayKey => pruneTrainingEvidence dateParse rows anonymisedAt todayKey years timeZone

/-- Every receipt of a history. -/
def completedIn (history : List TrainingEvent) : List StoredReceipt :=
  history.filterMap fun
    | .completed receipt => some receipt
    | .pruned _ => none

end

/-- A stored receipt as the validity rules read it. -/
def StoredReceipt.receiptRow (row : StoredReceipt) : ReceiptRow :=
  { targetDocumentId := row.targetDocumentId, completedAt := row.completedAt }

end Sinnlos.Cms.Evidence

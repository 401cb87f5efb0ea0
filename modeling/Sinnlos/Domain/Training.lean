import Sinnlos.Lib.OrderedMap
import Sinnlos.Domain.PlainDate

/-!
# Recurring training

A receipt is due again some calendar months after its completion day in the
company's zone; a lesson counts while today is before the due day of its newest
receipt. Older receipts stay as the proof history.
-/

namespace Sinnlos.Domain

/-- Days before the due day from which a lesson may be renewed. -/
def RENEWAL_WINDOW_DAYS : Int := 30

structure LessonReceiptState where
  /-- The lesson counts toward the course today. -/
  counts : Bool
  /-- The caller may (re)complete it. -/
  mayComplete : Bool
  /-- Due day of the newest receipt. -/
  dueKey : Option String
deriving DecidableEq, Repr

inductive CourseValidityStatus
  | done
  | dueSoon
  | expired
  | stillOpen
deriving DecidableEq, Repr

structure CourseValidity where
  total : Nat
  completed : Nat
  status : CourseValidityStatus
  dueKey : Option String
  completedAt : Option String
deriving DecidableEq, Repr

structure ReceiptRow where
  targetDocumentId : Option String
  completedAt : Option String
deriving DecidableEq

section

variable (dateParse : String → Option Int)

/-- The day a receipt is due again, none when the course never expires. -/
def receiptDueKey (completedAt : String) (validityMonths : Option Nat) (timeZone : Zone) :
    Except RangeError (Option String) :=
  match validityMonths with
  | none | some 0 => return none
  | some (months + 1) => do
      return some (← addMonthsToKey (← zonedDateKey dateParse completedAt timeZone) (months + 1))

/-- One lesson from its newest receipt. A receipt without a readable instant
counts only for a course that never expires. -/
def lessonReceiptState (completedAt : Option String) (hasReceipt : Bool)
    (validityMonths : Option Nat) (todayKey : String) (timeZone : Zone) :
    Except RangeError LessonReceiptState :=
  if !hasReceipt then return { counts := false, mayComplete := true, dueKey := none }
  else
    match validityMonths with
    | none | some 0 => return { counts := true, mayComplete := false, dueKey := none }
    | some (months + 1) =>
        match completedAt with
        | none => return { counts := false, mayComplete := true, dueKey := none }
        | some instant =>
            if instant = "" ∨ instantEpochMs dateParse instant = none then
              return { counts := false, mayComplete := true, dueKey := none }
            else do
              -- never none here: the course expires
              let dueKey := (← receiptDueKey dateParse instant (some (months + 1)) timeZone).getD ""
              return {
                counts := todayKey < dueKey
                mayComplete := (← daysBetweenKeys todayKey dueKey) ≤ RENEWAL_WINDOW_DAYS
                dueKey := some dueKey }

/-- `instantEpochMs(…) ?? 0`. -/
def epochMsOrZero (instant : String) : Int := (instantEpochMs dateParse instant).getD 0

/-! ## A course for one user -/

/-- What the loop over the lessons keeps. -/
structure Tally where
  completed : Nat
  allHaveReceipts : Bool
  dueKey : Option String
  completedAt : Option String
deriving DecidableEq

def earlierDue (state : LessonReceiptState) (dueKey : Option String) : Option String :=
  match state.dueKey, dueKey with
  | some due, none => if due = "" then none else some due
  | some due, some earliest => if due ≠ "" ∧ due < earliest then some due else some earliest
  | none, _ => dueKey

def laterCompletion (completedAt kept : Option String) : Option String :=
  match completedAt, kept with
  | some instant, none => if instant = "" then none else some instant
  | some instant, some newest =>
      if instant ≠ "" ∧ epochMsOrZero dateParse instant > epochMsOrZero dateParse newest then
        some instant
      else some newest
  | none, _ => kept

section

variable (newest : OrderedMap String (Option String)) (validityMonths : Option Nat)
  (todayKey : String) (timeZone : Zone)

def tallyLesson (tally : Tally) (id : String) : Except RangeError Tally := do
  let has := (newest.get? id).isSome
  let completedAt := (newest.get? id).join
  let state ← lessonReceiptState dateParse completedAt has validityMonths todayKey timeZone
  return {
    completed := if state.counts then tally.completed + 1 else tally.completed
    allHaveReceipts := if has then tally.allHaveReceipts else false
    dueKey := earlierDue state tally.dueKey
    completedAt := laterCompletion dateParse completedAt tally.completedAt }

/-- The due day is near enough to renew. -/
def isSoon (dueKey : Option String) : Except RangeError Bool :=
  match dueKey with
  | none => return false
  | some due => do return (← daysBetweenKeys todayKey due) ≤ RENEWAL_WINDOW_DAYS

/-- A course for one user, from the newest receipt of each lesson. -/
def courseValidity (lessonIds : List String) : Except RangeError CourseValidity := do
  let tally ← lessonIds.foldlM
    (tallyLesson dateParse newest validityMonths todayKey timeZone)
    { completed := 0, allHaveReceipts := 0 < lessonIds.length, dueKey := none, completedAt := none }
  let total := lessonIds.length
  if 0 < total ∧ tally.completed = total then
    return {
      total := total
      completed := tally.completed
      status := if ← isSoon todayKey tally.dueKey then .dueSoon else .done
      dueKey := tally.dueKey
      completedAt := tally.completedAt }
  else if tally.allHaveReceipts ∧ validityMonths.getD 0 ≠ 0 then
    return {
      total := total
      completed := tally.completed
      status := .expired
      dueKey := tally.dueKey
      completedAt := none }
  else
    return {
      total := total
      completed := tally.completed
      status := .stillOpen
      dueKey := none
      completedAt := none }

end

/-! ## The newest receipts -/

/-- What is kept for a lesson after one more of its receipts. -/
def keepNewest (kept completedAt : Option String) : Option String :=
  match completedAt, kept with
  | none, kept => kept
  | some instant, none => some instant
  | some instant, some newest =>
      if epochMsOrZero dateParse instant > epochMsOrZero dateParse newest then some instant
      else some newest

def noteReceipt (newest : OrderedMap String (Option String)) (row : ReceiptRow) :
    OrderedMap String (Option String) :=
  match row.targetDocumentId with
  | none => newest
  | some id =>
      if id = "" then newest
      else
        match newest.get? id with
        | none => newest.set id row.completedAt
        | some kept => newest.set id (keepNewest dateParse kept row.completedAt)

/-- Newest receipt per lesson from receipt rows in any order. -/
def newestReceipts (rows : List ReceiptRow) : OrderedMap String (Option String) :=
  rows.foldl (noteReceipt dateParse) OrderedMap.empty

end

end Sinnlos.Domain

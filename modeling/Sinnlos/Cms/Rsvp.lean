import Mathlib.Data.List.Sort
import Sinnlos.Lib.OrderedMap
import Sinnlos.Lib.Text

/-!
# Answers to an event

The rows of an event's answers, the one of a person that counts, and the summary
that every reader of the event gets.
-/

namespace Sinnlos.Cms.Rsvp

/-- A column of the `respondedAt` kind: text, or a `Date` with its time, if it has one. -/
inductive Responded where
  | text (value : String)
  | date (time : Option Int)
deriving DecidableEq

structure RsvpUser where
  id : Option Nat
  displayName : Option String
  blocked : Bool
deriving DecidableEq

/-- A row as the query returns it; a `none` of a text is any other value. -/
structure RsvpRow where
  id : Nat
  status : Option String
  respondedAt : Option Responded
  targetDocumentId : Option String
  user : Option RsvpUser
deriving DecidableEq

inductive RsvpStatus where
  | yes
  | no
  | maybe
deriving DecidableEq

/-- `isRsvpStatus`, with the status it admits. -/
def rsvpStatus : Option String → Option RsvpStatus
  | some "yes" => some .yes
  | some "no" => some .no
  | some "maybe" => some .maybe
  | _ => none

section Order

variable (dateParse : String → Option Int)

/-- The time of an answer; without a readable one the oldest. -/
def respondedTime (row : RsvpRow) : Int :=
  match row.respondedAt with
  | none => 0
  | some (.text value) => if value = "" then 0 else (dateParse value).getD 0
  | some (.date time) => time.getD 0

/-- Newest first: by the time of the answer, then by the id. -/
def compareNewestFirst (a b : RsvpRow) : Int :=
  let byTime := respondedTime dateParse b - respondedTime dateParse a
  if byTime ≠ 0 then byTime else (b.id : Int) - a.id

def newestFirst (rows : List RsvpRow) : List RsvpRow :=
  rows.insertionSort fun a b => compareNewestFirst dateParse a b ≤ 0

/-- The row that counts among one person's rows for one event. -/
def pickSurvivor (rows : List RsvpRow) : Option RsvpRow := (newestFirst dateParse rows).head?

end Order

/-- The id of a row's user; `none` when the user is gone. -/
def rowUserId (row : RsvpRow) : Option Nat := row.user.bind RsvpUser.id

structure RsvpSummary where
  targetDocumentId : String
  yesCount : Nat
  maybeCount : Nat
  noCount : Nat
  yesNames : List String
  myStatus : Option RsvpStatus
deriving DecidableEq

/-- The summary of an event that nobody answered. -/
def unanswered (targetDocumentId : String) : RsvpSummary where
  targetDocumentId := targetDocumentId
  yesCount := 0
  maybeCount := 0
  noCount := 0
  yesNames := []
  myStatus := none

def emptySummaries (targets : List String) : OrderedMap String RsvpSummary :=
  targets.foldl (fun byTarget target => byTarget.set target (unanswered target)) OrderedMap.empty

/-- Whose answer to `target` a row is: its user's, or that of nobody else. -/
def answerKey (target : String) (row : RsvpRow) : String :=
  target ++ "\u0000" ++
    match rowUserId row with
    | some userId => toString userId
    | none => "row-" ++ toString row.id

/-- The rows of each person for each event asked for. -/
def collectAnswers (byTarget : OrderedMap String RsvpSummary) (rows : List RsvpRow) :
    OrderedMap String (List RsvpRow) :=
  rows.foldl (fun answers row =>
    match row.targetDocumentId with
    | none => answers
    | some target =>
        if target ∈ byTarget.keys then
          let key := answerKey target row
          match answers.get? key with
          | some list => answers.set key (list ++ [row])
          | none => answers.set key [row]
        else answers) OrderedMap.empty

/-- The name that an answer shows: a blocked person keeps the seat but loses the name. -/
def shownName (row : RsvpRow) : Option String :=
  row.user.bind fun user =>
    if user.blocked then none else user.displayName.filter fun name => name ≠ ""

/-- Count one answer that decides. -/
def tally (callerId : Option Nat) (summary : RsvpSummary) (status : RsvpStatus) (row : RsvpRow) :
    RsvpSummary :=
  let counted :=
    match status with
    | .yes =>
        { summary with
          yesCount := summary.yesCount + 1
          yesNames := summary.yesNames ++ (shownName row).toList }
    | .maybe => { summary with maybeCount := summary.maybeCount + 1 }
    | .no => { summary with noCount := summary.noCount + 1 }
  if callerId ≠ none ∧ rowUserId row = callerId then { counted with myStatus := some status }
  else counted

/-- The summaries after one more survivor. -/
def addAnswer (callerId : Option Nat) (byTarget : OrderedMap String RsvpSummary) (row : RsvpRow) :
    OrderedMap String RsvpSummary :=
  match row.targetDocumentId with
  | none => byTarget
  | some target =>
      match byTarget.get? target, rsvpStatus row.status with
      | some summary, some status => byTarget.set target (tally callerId summary status row)
      | _, _ => byTarget

/-- The answers that count, oldest first. -/
def survivors (dateParse : String → Option Int) (rows : List RsvpRow) (targets : List String) :
    List RsvpRow :=
  ((collectAnswers (emptySummaries targets) rows).values.filterMap (pickSurvivor dateParse))
    |>.insertionSort fun a b => compareNewestFirst dateParse b a ≤ 0

/-- One summary for each target, in the order given. -/
def summarizeRsvps (dateParse : String → Option Int) (rows : List RsvpRow) (targets : List String)
    (callerId : Option Nat) : List RsvpSummary :=
  let byTarget :=
    (survivors dateParse rows targets).foldl (addAnswer callerId) (emptySummaries targets)
  -- every target has had its entry since the start
  targets.map fun target => (byTarget.get? target).getD (unanswered target)

end Sinnlos.Cms.Rsvp

import Sinnlos.Domain.DayWindows
import Sinnlos.Domain.Kpi
import Sinnlos.Domain.PlainDateSteps

/-!
# The month grid of the events

The cells of `/events?view=month`, the window that is fetched for them and the days on
which an event is shown (`apps/web/src/lib/month-grid.ts`). Weeks start on Monday.
What the engine reads from the text of an instant is a parameter.
-/

namespace Sinnlos.Web.MonthView

open Domain Text

inductive GridFailure
  | range (error : RangeError)
  | wallTime (failure : WallTimeFailure)
deriving DecidableEq

/-- A refused calendar date ends the building of a grid. -/
def dated {α : Type} : Except RangeError α → Except GridFailure α
  | .ok value => .ok value
  | .error error => .error (.range error)

def started : Except WallTimeFailure Int → Except GridFailure Int
  | .ok instant => .ok instant
  | .error failure => .error (.wallTime failure)

/-! ## Cells -/

/-- `MONTH_PARAM_RE` with the numbers of its groups. -/
def monthParamMatch (value : String) : Option (Nat × Nat) :=
  match value.toList with
  | [y1, y2, y3, y4, '-', m1, m2] => do
      let year ← readNat [y1, y2, y3, y4]
      let month ← readNat [m1, m2]
      if 1900 ≤ year ∧ year < 3000 ∧ 1 ≤ month ∧ month ≤ 12 then some (year, month) else none
  | _ => none

/-- The first day of the month some months after another one. -/
def firstOfMonth (year month offset : Int) : String :=
  let index := year * 12 + (month - 1) + offset
  monthKey (index / 12) (index - index / 12 * 12 + 1)

/-- The month of the parameter, or of today where that is none. -/
def resolveMonth (monthParam : Option String) (today : String) : Except RangeError (Nat × Nat) :=
  match monthParam.bind monthParamMatch with
  | some month => .ok month
  | none =>
      match plainDateParts today with
      | .ok (year, month, _) => .ok (year, month)
      | .error error => .error error

structure MonthGrid where
  year : Nat
  month : Nat
  monthParam : String
  firstOfMonth : String
  leading : Int
  cells : List String
  start : Int
  «until» : Int
  prevMonthParam : String
  nextMonthParam : String

/-- The days of a grid: those before the month, all of them and the day after. -/
structure GridDays where
  leading : Int
  gridStart : String
  cells : List String
  afterLast : String

def gridDays (year month : Int) : Except RangeError GridDays := do
  let first := firstOfMonth year month 0
  let daysInMonth ← daysBetweenKeys first (firstOfMonth year month 1)
  let leading := (← isoWeekdayOfKey first) - 1
  let totalCells := (leading + daysInMonth + 6) / 7 * 7
  let gridStart ← addDaysToKey first (-leading)
  let cells ← (List.range totalCells.toNat).mapM fun i : Nat => addDaysToKey gridStart i
  let afterLast ← addDaysToKey gridStart totalCells
  return { leading, gridStart, cells, afterLast }

def monthText (key : String) : String := String.ofList (key.toList.take 7)

/-- The visible grid of a month and the window of instants that is fetched for it. -/
def buildMonthGrid (intl : String → Option Formatter) (monthParam : Option String)
    (today timeZone : String) : Except GridFailure MonthGrid := do
  let (year, month) ← dated (resolveMonth monthParam today)
  let days ← dated (gridDays year month)
  let start ← started (zonedDayStart intl days.gridStart timeZone)
  let stop ← started (zonedDayStart intl days.afterLast timeZone)
  return {
    year, month
    monthParam := monthText (firstOfMonth year month 0)
    firstOfMonth := firstOfMonth year month 0
    leading := days.leading
    cells := days.cells
    start
    «until» := stop
    prevMonthParam := monthText (firstOfMonth year month (-1))
    nextMonthParam := monthText (firstOfMonth year month 1) }

/-! ## Buckets -/

section

variable {ε : Type} (dateParse : String → Option Int) (startOf : ε → String)
  (endOf : ε → Option String)

/-- Where the event ends; an end before the start, or one that is no instant, does not
count. -/
def spanEnd (start : Int) (event : ε) : Int :=
  match (endOf event).bind fun text =>
      if text = "" then none else instantEpochMs dateParse text with
  | none => start
  | some stop => if stop < start then start else stop

/-- The event in the bucket of a day. -/
def push (byDay : OrderedMap String (List ε)) (day : String) (event : ε) :
    OrderedMap String (List ε) :=
  byDay.set day ((byDay.get? day).getD [] ++ [event])

/-- The loop over the days of an event; none where it would not end or would throw. -/
def fillDays (event : ε) (stop : String) :
    Nat → String → OrderedMap String (List ε) → Option (OrderedMap String (List ε))
  | 0, _, _ => none
  | fuel + 1, cursor, byDay =>
      if cursor ≤ stop then
        match addDaysToKey cursor 1 with
        | .ok next => fillDays event stop fuel next (push byDay cursor event)
        | .error _ => none
      else some byDay

/-- An event in the buckets of its days, clamped to the grid. -/
def bucketEvent (gridStart gridEnd : String) (fuel : Nat) (zone : Zone)
    (byDay : OrderedMap String (List ε)) (event : ε) : Option (OrderedMap String (List ε)) :=
  match instantEpochMs dateParse (startOf event) with
  | none => some byDay
  | some start =>
      let firstDay := zonedDateKeyOfMs start zone
      let lastDay := zonedDateKeyOfMs (spanEnd dateParse endOf start event) zone
      let cursor := if firstDay < gridStart then gridStart else firstDay
      let stop := if lastDay < gridEnd then lastDay else gridEnd
      fillDays event stop fuel cursor byDay

def startMs (event : ε) : Int := (instantEpochMs dateParse (startOf event)).getD 0

/-- The events of every visible day, each bucket sorted by start. -/
def bucketEventsByDay (events : List ε) (cells : List String) (zone : Zone) :
    Option (OrderedMap String (List ε)) :=
  match cells.head?, cells.getLast? with
  | some gridStart, some gridEnd =>
      (events.foldlM (bucketEvent dateParse startOf endOf gridStart gridEnd (cells.length + 1) zone)
        OrderedMap.empty).map fun byDay =>
          byDay.mapValues fun bucket => bucket.insertionSort fun a b =>
            startMs dateParse startOf a ≤ startMs dateParse startOf b
  | _, _ => some OrderedMap.empty

end

end Sinnlos.Web.MonthView

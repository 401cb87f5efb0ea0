import Sinnlos.Domain.PlainDate
import Sinnlos.Lib.OrderedMap
import Mathlib.Data.List.Sort

/-!
# Department KPIs

The periods of a KPI and what its readers see of the values entered by hand, one for
each period's first day (`packages/domain/src/kpi.ts`). A missing period is unknown,
never zero. How values are added is a parameter.
-/

namespace Sinnlos.Domain

open Text

inductive KpiPeriod
  | month
  | quarter
  | year
deriving DecidableEq, Repr

inductive KpiAggregation
  | sum
  | last
deriving DecidableEq, Repr

/-- Periods the charts and the entry table show. -/
def KPI_WINDOW : Nat := 12

def MONTHS_OF : KpiPeriod → Int
  | .month => 1
  | .quarter => 3
  | .year => 12

/-! ## Periods -/

/-- `Number` of a piece of a key: no digits are 0. -/
def pieceNumber (piece : List Char) : Option Nat := if piece = [] then some 0 else readNat piece

/-- The first two numbers of a key; other texts are left out. -/
def yearAndMonth (text : String) : Option (Int × Int) :=
  match split '-' text.toList with
  | year :: month :: _ => do
      let year ← pieceNumber year
      let month ← pieceNumber month
      return (year, month)
  | _ => none

/-- The template `YYYY-MM-01`. -/
def monthKey (year month : Int) : String := pad year 4 ++ "-" ++ pad month 2 ++ "-01"

/-- The first day of the period a day falls in. -/
def kpiPeriodStart (day : String) (period : KpiPeriod) : Option String := do
  let (year, month) ← yearAndMonth day
  let first := match period with
    | .year => 1
    | .quarter => month - (month - 1).tmod 3
    | .month => month
  return monthKey year first

/-- The start of the period some periods after (or before, negative) a start. -/
def addKpiPeriods (start : String) (period : KpiPeriod) (count : Int) : Option String := do
  let (year, month) ← yearAndMonth start
  let index := year * 12 + (month - 1) + count * MONTHS_OF period
  let y := index / 12
  return monthKey y (index - y * 12 + 1)

/-- The period starts up to and including the period of a day, newest first. -/
def recentKpiPeriods (today : String) (period : KpiPeriod) (count : Nat) : Option (List String) := do
  let current ← kpiPeriodStart today period
  (List.range count).mapM fun i : Nat => addKpiPeriods current period (-(i : Int))

/-! ## Summaries -/

section

variable {ν : Type} [Add ν] [Zero ν]

structure KpiSummary (ν : Type) where
  latest : Option (String × ν)
  previous : Option (String × Option ν)
  yearToDate : Option ν
  series : List (String × Option ν)
deriving DecidableEq

/-- The keys up to a period's start, in their order. -/
def reportedKeys (values : OrderedMap String ν) (current : String) : List String :=
  (values.keys.filter fun key => key ≤ current).insertionSort fun a b => a ≤ b

/-- The value of the keys of a year; none without one. -/
def yearValue (values : OrderedMap String ν) (aggregation : KpiAggregation)
    (thisYear : List String) : Option ν :=
  match thisYear.getLast? with
  | none => none
  | some lastKey =>
      match aggregation with
      | .sum => some (thisYear.foldl (fun total key => total + (values.get? key).getD 0) 0)
      | .last => values.get? lastKey

/-- The last period of the series: an open period is no gap. -/
def seriesEnd (values : OrderedMap String ν) (period : KpiPeriod) (current : String) :
    Option String :=
  if (values.get? current).isSome then some current else addKpiPeriods current period (-1)

/-- What the readers show of a KPI on a calendar day. -/
def kpiSummary (values : OrderedMap String ν) (period : KpiPeriod) (aggregation : KpiAggregation)
    (today : String) : Option (KpiSummary ν) := do
  let current ← kpiPeriodStart today period
  let reported := reportedKeys values current
  let previousKey ← reported.getLast?.mapM fun key => addKpiPeriods key period (-1)
  let yearStart := String.ofList (today.toList.take 4) ++ "-01-01"
  let thisYear := reported.filter fun key => yearStart ≤ key
  let ending ← seriesEnd values period current
  let shown ← recentKpiPeriods ending period KPI_WINDOW
  return {
    latest := reported.getLast?.bind fun key => (values.get? key).map fun value => (key, value)
    previous := previousKey.map fun key => (key, values.get? key)
    yearToDate := yearValue values aggregation thisYear
    series := shown.reverse.map fun key => (key, values.get? key) }

end

end Sinnlos.Domain

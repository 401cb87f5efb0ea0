import Sinnlos.Domain.Kpi
import Sinnlos.Domain.PlainDateSteps

/-!
# The KPI calendar

The periods of a rhythm are the runs of so many months, counted from the year 0 on.
They partition the days, steps between them add up, and what a KPI's readers see is
put together from the values of exactly the periods it is about.
-/

namespace Sinnlos.Domain

open Calendar Text

namespace KpiPeriod

/-- The number of the period a day falls in. -/
def index (period : KpiPeriod) (date : Date) : Int := date.monthNumber / MONTHS_OF period

/-- The first day of a period. -/
def start (period : KpiPeriod) (index : Int) : Date :=
  Date.ofMonthNumber (index * MONTHS_OF period)

variable {period : KpiPeriod} {i j : Int} {date : Date}

theorem months_pos (period : KpiPeriod) : 0 < MONTHS_OF period := by
  cases period <;> decide

/-- A period begins on or before a day exactly when the day's one does. -/
theorem start_le_iff : (period.start i).dayNumber ≤ date.dayNumber ↔ i ≤ period.index date := by
  rw [start, Date.ofMonthNumber_le_iff, index, Int.le_ediv_iff_mul_le (months_pos period)]

theorem index_start (period : KpiPeriod) (i : Int) : period.index (period.start i) = i := by
  rw [index, start, Date.monthNumber_ofMonthNumber]
  exact Int.mul_ediv_cancel i (by have := months_pos period; omega)

theorem start_lt_iff : (period.start i).dayNumber < (period.start j).dayNumber ↔ i < j := by
  have h : (period.start j).dayNumber ≤ (period.start i).dayNumber ↔
      j ≤ period.index (period.start i) := start_le_iff
  rw [index_start] at h
  omega

/-- A day lies in the period of its number and in no other. -/
theorem partition : (period.start i).dayNumber ≤ date.dayNumber ∧
    date.dayNumber < (period.start (i + 1)).dayNumber ↔ i = period.index date := by
  have hnext : (period.start (i + 1)).dayNumber ≤ date.dayNumber ↔ i + 1 ≤ period.index date :=
    start_le_iff
  rw [start_le_iff]
  omega

end KpiPeriod

/-! ## Keys of months -/

section

variable {period : KpiPeriod} {date : Date}

theorem monthKey_ofMonthNumber (months : Int) :
    monthKey (months / 12) (months - months / 12 * 12 + 1) = key (Date.ofMonthNumber months) := by
  have hmonth : months - months / 12 * 12 + 1 = ((months % 12).toNat + 1 : Nat) := by omega
  have hday : pad (1 : Nat) 2 = "01" := by decide +kernel
  rw [hmonth, key, dateKey, monthKey]
  show _ = pad (months / 12) 4 ++ "-" ++ pad ((months % 12).toNat + 1 : Nat) 2 ++ "-" ++
    pad (1 : Nat) 2
  have hend : "-" ++ "01" = "-01" := by decide +kernel
  rw [hday, ← hend, ← String.append_assoc]

theorem pad_nat (n width : Nat) :
    pad n width = String.ofList (padStart width '0' (toString n).toList) := rfl

theorem dash_not_mem_padStart (width n : Nat) : '-' ∉ padStart width '0' (toString n).toList := by
  unfold padStart
  rw [List.mem_append, not_or]
  refine ⟨?_, not_mem_toString (by decide) n⟩
  intro hmem
  have hzero := List.eq_of_mem_replicate hmem
  revert hzero
  decide

theorem pieceNumber_padStart (width n : Nat) :
    pieceNumber (padStart width '0' (toString n).toList) = some n := by
  have hread := readNat_padStart width n
  have hne : padStart width '0' (toString n).toList ≠ [] := by
    intro hnil
    rw [hnil] at hread
    cases hread
  rw [pieceNumber, if_neg hne, hread]

/-- The numbers of a key of the years from 0 on. -/
theorem yearAndMonth_key (h : 0 ≤ date.year) :
    yearAndMonth (key date) = some (date.year, (date.month : Int)) := by
  obtain ⟨year, hyear⟩ := Int.eq_ofNat_of_zero_le h
  have hdash : "-".toList = ['-'] := rfl
  have htext : (key date).toList = padStart 4 '0' (toString year).toList ++
      '-' :: (padStart 2 '0' (toString date.month).toList ++
        '-' :: padStart 2 '0' (toString date.day).toList) := by
    rw [key, hyear, dateKey]
    simp only [pad_nat, String.toList_append, String.toList_ofList, hdash, List.append_assoc,
      List.cons_append, List.nil_append]
  rw [yearAndMonth, htext, split_append (dash_not_mem_padStart 4 year),
    split_append (dash_not_mem_padStart 2 date.month)]
  simp only [pieceNumber_padStart, Option.bind_eq_bind, Option.bind_some, hyear]
  rfl

theorem addKpiPeriods_key (period : KpiPeriod) (h : 0 ≤ date.year) (count : Int) :
    addKpiPeriods (key date) period count =
      some (key (Date.ofMonthNumber (date.monthNumber + count * MONTHS_OF period))) := by
  have hindex : date.year * 12 + ((date.month : Int) - 1) + count * MONTHS_OF period =
      date.monthNumber + count * MONTHS_OF period := by
    unfold Date.monthNumber
    omega
  rw [addKpiPeriods, yearAndMonth_key h]
  simp only [Option.bind_eq_bind, Option.bind_some, hindex]
  rw [monthKey_ofMonthNumber]
  rfl

/-- The period of a day begins in its year. -/
theorem KpiPeriod.year_start (period : KpiPeriod) (date : Date) :
    (period.start (period.index date)).year = date.year := by
  have hpos := date.month_pos
  have hle := date.month_le
  show date.monthNumber / MONTHS_OF period * MONTHS_OF period / 12 = date.year
  unfold Date.monthNumber MONTHS_OF
  cases period <;> dsimp only <;> omega

theorem kpiPeriodStart_key (h : 0 ≤ date.year) (period : KpiPeriod) :
    kpiPeriodStart (key date) period = some (key (period.start (period.index date))) := by
  have hpos := date.month_pos
  have hle := date.month_le
  have htmod : ((date.month : Int) - 1).tmod 3 = ((date.month : Int) - 1) % 3 :=
    Int.tmod_eq_emod_of_nonneg (by omega)
  have hyear : date.monthNumber / MONTHS_OF period * MONTHS_OF period / 12 = date.year :=
    period.year_start date
  rw [kpiPeriodStart, yearAndMonth_key h, KpiPeriod.start, KpiPeriod.index,
    ← monthKey_ofMonthNumber, hyear]
  simp only [Option.bind_eq_bind, Option.bind_some, htmod]
  cases period with
  | month =>
      have hfirst : date.monthNumber / MONTHS_OF .month * MONTHS_OF .month - date.year * 12 + 1 =
          date.month := by
        unfold Date.monthNumber MONTHS_OF
        dsimp only
        omega
      rw [hfirst]
      rfl
  | quarter =>
      have hfirst : date.monthNumber / MONTHS_OF .quarter * MONTHS_OF .quarter -
          date.year * 12 + 1 = (date.month : Int) - ((date.month : Int) - 1) % 3 := by
        unfold Date.monthNumber MONTHS_OF
        dsimp only
        omega
      rw [hfirst]
      rfl
  | year =>
      have hfirst : date.monthNumber / MONTHS_OF .year * MONTHS_OF .year - date.year * 12 + 1 =
          1 := by
        unfold Date.monthNumber MONTHS_OF
        dsimp only
        omega
      rw [hfirst]
      rfl

theorem addKpiPeriods_start {i : Int} (h : 0 ≤ (period.start i).year) (count : Int) :
    addKpiPeriods (key (period.start i)) period count = some (key (period.start (i + count))) := by
  rw [addKpiPeriods_key period h]
  have hmonths : (period.start i).monthNumber + count * MONTHS_OF period =
      (i + count) * MONTHS_OF period := by
    rw [KpiPeriod.start, Date.monthNumber_ofMonthNumber, Int.add_mul]
  rw [hmonths]
  rfl

theorem recentKpiPeriods_key (h : 0 ≤ date.year) (period : KpiPeriod) (count : Nat) :
    recentKpiPeriods (key date) period count =
      some ((List.range count).map fun i : Nat => key (period.start (period.index date - (i : Int)))) := by
  have hyear : 0 ≤ (period.start (period.index date)).year := by
    rw [period.year_start]
    exact h
  have hstep (i : Nat) : addKpiPeriods (key (period.start (period.index date))) period (-(i : Int)) =
      pure (key (period.start (period.index date - i))) := by
    rw [addKpiPeriods_start hyear, Int.sub_eq_add_neg]
    rfl
  rw [recentKpiPeriods, kpiPeriodStart_key h]
  simp only [Option.bind_eq_bind, Option.bind_some, hstep]
  rw [List.mapM_pure]
  rfl

end

/-- What holds of the periods of a rhythm. The days of the years from 0 on have keys
from which the periods are read. -/
structure KpiCalendar (period : KpiPeriod) : Prop where
  partition : ∀ (date : Date) (i : Int), (period.start i).dayNumber ≤ date.dayNumber ∧
    date.dayNumber < (period.start (i + 1)).dayNumber ↔ i = period.index date
  partition_keys : ∀ date, IsWritten date → IsWritten (period.start (period.index date + 1)) →
    key (period.start (period.index date)) ≤ key date ∧
      key date < key (period.start (period.index date + 1))
  start_key : ∀ date : Date, 0 ≤ date.year →
    kpiPeriodStart (key date) period = some (key (period.start (period.index date)))
  next_key : ∀ i, 0 ≤ (period.start i).year →
    addKpiPeriods (key (period.start i)) period 1 = some (key (period.start (i + 1)))
  zero : ∀ i, 0 ≤ (period.start i).year →
    addKpiPeriods (key (period.start i)) period 0 = some (key (period.start i))
  add : ∀ i a b, 0 ≤ (period.start i).year → 0 ≤ (period.start (i + a)).year →
    (addKpiPeriods (key (period.start i)) period a).bind (fun later =>
      addKpiPeriods later period b) = addKpiPeriods (key (period.start i)) period (a + b)
  ordered : ∀ i j a b, 0 ≤ (period.start i).year → 0 ≤ (period.start j).year →
    ∃ s t, addKpiPeriods (key (period.start i)) period a = some (key s) ∧
      addKpiPeriods (key (period.start j)) period b = some (key t) ∧
      (s.dayNumber < t.dayNumber ↔ i + a < j + b)
  recent : ∀ date : Date, 0 ≤ date.year → ∀ count, recentKpiPeriods (key date) period count =
    some ((List.range count).map fun i : Nat => key (period.start (period.index date - (i : Int))))

/-! ## Summaries -/

section

variable {ν : Type} {values : OrderedMap String ν} {period : KpiPeriod}
  {today : Date}

/-- The keys of values are calendar dates. -/
def HasDateKeys (values : OrderedMap String ν) : Prop :=
  ∀ key ∈ values.keys, isPlainDate key = true

theorem mem_reportedKeys {current key : String} :
    key ∈ reportedKeys values current ↔ key ∈ values.keys ∧ key ≤ current := by
  rw [reportedKeys, List.mem_insertionSort, List.mem_filter, decide_eq_true_eq]

theorem sorted_reportedKeys (values : OrderedMap String ν) (current : String) :
    (reportedKeys values current).Pairwise (· < ·) := by
  have hle : (reportedKeys values current).Pairwise (· ≤ ·) := List.pairwise_insertionSort _ _
  have hnodup : (reportedKeys values current).Nodup := by
    rw [reportedKeys, (List.perm_insertionSort _ _).nodup_iff]
    exact values.keys_nodup.filter _
  exact (hle.and hnodup).imp fun h => lt_of_le_of_ne h.1 h.2

/-- The first day of a day's year. -/
def newYear (date : Date) : Date := Date.ofMonthNumber (12 * date.year)

theorem year_newYear (date : Date) : (newYear date).year = date.year := by
  show 12 * date.year / 12 = date.year
  omega

theorem yearStart_key (written : IsWritten today) :
    String.ofList ((key today).toList.take 4) ++ "-01-01" = key (newYear today) := by
  have hnonneg : 0 ≤ today.year := by
    have := written.1
    omega
  have hyear := year_newYear today
  have hlate : (newYear today).year ≤ 9999 := by
    have := written.2
    omega
  have htext := toList_key (show 0 ≤ (newYear today).year by omega) hlate
  have hmonth : (newYear today).month = 1 := by
    show (12 * today.year % 12).toNat + 1 = 1
    omega
  have hday : (newYear today).day = 1 := rfl
  rw [hyear, hmonth, hday] at htext
  apply String.toList_inj.mp
  rw [htext, String.toList_append, String.toList_ofList, toList_key hnonneg written.2,
    List.take_left' (length_digits 4 today.year.toNat)]
  rfl

theorem written_start (written : IsWritten today) (period : KpiPeriod) :
    IsWritten (period.start (period.index today)) := by
  unfold IsWritten
  rw [period.year_start]
  exact written

theorem kpiCalendar (period : KpiPeriod) : KpiCalendar period where
  partition _ _ := KpiPeriod.partition
  partition_keys date hdate hnext := by
    rw [key_le_iff_dayNumber (written_start hdate period) hdate, key_lt_iff_dayNumber hdate hnext]
    exact KpiPeriod.partition.mpr rfl
  start_key _ h := kpiPeriodStart_key h period
  next_key _ h := addKpiPeriods_start h 1
  zero i h := by
    rw [addKpiPeriods_start h, Int.add_zero]
  add i a b h ha := by
    rw [addKpiPeriods_start h, Option.bind_some, addKpiPeriods_start ha, addKpiPeriods_start h,
      Int.add_assoc]
  ordered i j a b hi hj :=
    ⟨_, _, addKpiPeriods_start hi a, addKpiPeriods_start hj b, KpiPeriod.start_lt_iff⟩
  recent _ h := recentKpiPeriods_key h period

/-- The keys of the days of a year up to the start of today's period. -/
theorem thisYear_iff (written : IsWritten today) {date : Date} (hdate : IsWritten date) :
    key date ≤ key (period.start (period.index today)) ∧ key (newYear today) ≤ key date ↔
      date.year = today.year ∧
        date.dayNumber ≤ (period.start (period.index today)).dayNumber := by
  have hnew : IsWritten (newYear today) := by
    unfold IsWritten
    rw [year_newYear]
    exact written
  have hlow : (newYear today).dayNumber ≤ date.dayNumber ↔ 12 * today.year ≤ date.monthNumber :=
    Date.ofMonthNumber_le_iff _ date
  have hpos := date.month_pos
  have hle := date.month_le
  rw [key_le_iff_dayNumber hdate (written_start written period),
    key_le_iff_dayNumber hnew hdate, hlow]
  constructor
  · intro h
    have hyear := Date.year_le_of_dayNumber_le h.1
    rw [period.year_start] at hyear
    unfold Date.monthNumber at h
    exact ⟨by omega, h.1⟩
  · intro h
    unfold Date.monthNumber
    exact ⟨h.2, by omega⟩

end

section

variable {ν : Type} [Add ν] [Zero ν]

/-- The total or the newest of the values of a year, none without one. -/
def yearTotal (entries : List (String × ν)) : KpiAggregation → Option ν
  | .sum =>
      if entries.isEmpty then none
      else some (entries.foldl (fun total entry => total + entry.2) 0)
  | .last => entries.getLast?.map Prod.snd

/-- What a KPI's readers see on a day, in terms of the values of periods. -/
structure Summarises (values : OrderedMap String ν) (period : KpiPeriod)
    (aggregation : KpiAggregation) (today : Date) (summary : KpiSummary ν) : Prop where
  /-- The values of this year's keys up to the start of today's period, in order. -/
  yearToDate : ∃ entries : List (String × ν),
    entries.Pairwise (fun a b => a.1 < b.1) ∧
    (∀ day value, (day, value) ∈ entries ↔ values.get? day = some value ∧
      ∃ date, IsWritten date ∧ day = key date ∧ date.year = today.year ∧
        date.dayNumber ≤ (period.start (period.index today)).dayNumber) ∧
    summary.yearToDate = yearTotal entries aggregation
  /-- Twelve periods, the last of them today's once it has a value. -/
  series : ∃ ending, ending = (if (values.get? (key (period.start (period.index today)))).isSome
      then period.index today else period.index today - 1) ∧
    summary.series = (List.range KPI_WINDOW).map fun i : Nat =>
      (key (period.start (ending - (KPI_WINDOW - 1) + (i : Int))),
        values.get? (key (period.start (ending - (KPI_WINDOW - 1) + (i : Int)))))

variable {values : OrderedMap String ν} {period : KpiPeriod} {today : Date}

/-- Keys with their values. -/
def entriesOf (values : OrderedMap String ν) (keys : List String) : List (String × ν) :=
  keys.map fun key => (key, (values.get? key).getD 0)

variable {keys : List String}

theorem yearValue_eq (aggregation : KpiAggregation) (h : ∀ key ∈ keys, key ∈ values.keys) :
    yearValue values aggregation keys = yearTotal (entriesOf values keys) aggregation := by
  unfold yearValue
  cases hlast : keys.getLast? with
  | none =>
      rw [List.getLast?_eq_none_iff.mp hlast]
      cases aggregation <;> rfl
  | some lastKey =>
      have hne : keys ≠ [] := by
        intro hnil
        rw [hnil] at hlast
        cases hlast
      cases aggregation with
      | sum =>
          simp only [yearTotal, entriesOf, List.isEmpty_map, List.foldl_map]
          simp [hne]
      | last =>
          obtain ⟨value, hvalue⟩ :=
            OrderedMap.mem_keys.mp (h lastKey (List.mem_of_getLast? hlast))
          simp [yearTotal, entriesOf, List.getLast?_map, hlast, hvalue]

omit [Add ν] in
theorem mem_entriesOf (h : ∀ key ∈ keys, key ∈ values.keys) {day : String} {value : ν} :
    (day, value) ∈ entriesOf values keys ↔ day ∈ keys ∧ values.get? day = some value := by
  unfold entriesOf
  rw [List.mem_map]
  constructor
  · intro hmem
    obtain ⟨key, hkey, heq⟩ := hmem
    obtain ⟨stored, hstored⟩ := OrderedMap.mem_keys.mp (h key hkey)
    rw [hstored, Option.getD_some, Prod.mk.injEq] at heq
    rw [← heq.1, ← heq.2]
    exact ⟨hkey, hstored⟩
  · intro hmem
    exact ⟨day, hmem.1, by rw [hmem.2, Option.getD_some]⟩

/-- A range of periods counted back is one counted forward. -/
theorem reverse_range_map {β : Type} (count : Nat) (f : Int → β) (ending : Int) :
    ((List.range count).map fun i : Nat => f (ending - (i : Int))).reverse =
      (List.range count).map fun i : Nat => f (ending - (count - 1) + (i : Int)) := by
  apply List.ext_getElem
  · simp
  · intro n hleft hright
    have hlt : n < count := by simpa using hright
    simp only [List.getElem_reverse, List.getElem_map, List.getElem_range, List.length_map,
      List.length_range]
    congr 1
    omega

/-- The year of a period and that of the one before differ by a year at most. -/
theorem KpiPeriod.year_before (period : KpiPeriod) (i : Int) :
    (period.start i).year - 1 ≤ (period.start (i - 1)).year := by
  show i * MONTHS_OF period / 12 - 1 ≤ (i - 1) * MONTHS_OF period / 12
  unfold MONTHS_OF
  cases period <;> dsimp only <;> omega

omit [Add ν] [Zero ν] in
/-- The previous period of the newest key can be computed. -/
theorem exists_previous (hkeys : HasDateKeys values) (period : KpiPeriod) (current : String) :
    ∃ previous, ((reportedKeys values current).getLast?.mapM fun key =>
      addKpiPeriods key period (-1)) = some previous := by
  cases hlast : (reportedKeys values current).getLast? with
  | none => exact ⟨none, rfl⟩
  | some last =>
      have hmem := (mem_reportedKeys.mp (List.mem_of_getLast? hlast)).1
      obtain ⟨date, hdate, hkey⟩ := key_of_isPlainDate (hkeys last hmem)
      have hnonneg : 0 ≤ date.year := by
        have := hdate.1
        omega
      have hstep := addKpiPeriods_key period hnonneg (-1)
      rw [← hkey] at hstep
      refine ⟨some (key (Date.ofMonthNumber (date.monthNumber + -1 * MONTHS_OF period))), ?_⟩
      simp [hstep]

theorem kpiSummary_summarises (written : IsWritten today) (hkeys : HasDateKeys values)
    (period : KpiPeriod) (aggregation : KpiAggregation) :
    ∃ summary, kpiSummary values period aggregation (key today) = some summary ∧
      Summarises values period aggregation today summary := by
  have hcentury := written.1
  obtain ⟨current, hcurrent⟩ : ∃ current, current = key (period.start (period.index today)) :=
    ⟨_, rfl⟩
  obtain ⟨previous, hprevious⟩ := exists_previous hkeys period current
  obtain ⟨ending, hending⟩ : ∃ ending, ending = (if (values.get? current).isSome
      then period.index today else period.index today - 1) := ⟨_, rfl⟩
  have hyear := period.year_start today
  have hbefore := period.year_before (period.index today)
  have hshown : seriesEnd values period current = some (key (period.start ending)) := by
    rw [hending, seriesEnd]
    split
    · rw [hcurrent]
    · rw [hcurrent, addKpiPeriods_start (by omega), Int.sub_eq_add_neg]
  have hendingYear : 0 ≤ (period.start ending).year := by
    rw [hending]
    split <;> omega
  have hrecent := recentKpiPeriods_key hendingYear period KPI_WINDOW
  rw [KpiPeriod.index_start] at hrecent
  obtain ⟨keys, hkeysOf⟩ : ∃ keys, keys = (reportedKeys values current).filter fun day =>
      key (newYear today) ≤ day := ⟨_, rfl⟩
  have hlisted (day : String) : day ∈ keys ↔
      day ∈ values.keys ∧ day ≤ current ∧ key (newYear today) ≤ day := by
    rw [hkeysOf, List.mem_filter, mem_reportedKeys, decide_eq_true_eq, and_assoc]
  have hstored (day : String) (h : day ∈ keys) : day ∈ values.keys := ((hlisted day).mp h).1
  obtain ⟨summary, hsummary⟩ : ∃ summary : KpiSummary ν, summary =
      { latest := (reportedKeys values current).getLast?.bind fun key =>
          (values.get? key).map fun value => (key, value)
        previous := previous.map fun key => (key, values.get? key)
        yearToDate := yearValue values aggregation keys
        series := ((List.range KPI_WINDOW).map fun i : Nat =>
            key (period.start (ending - (i : Int)))).reverse.map fun key =>
          (key, values.get? key) } := ⟨_, rfl⟩
  refine ⟨summary, ?_, ?_⟩
  · unfold kpiSummary
    rw [kpiPeriodStart_key (by omega), ← hcurrent, yearStart_key written]
    simp only [Option.bind_eq_bind, Option.bind_some]
    rw [hprevious]
    simp only [Option.bind_some]
    rw [hshown]
    simp only [Option.bind_some]
    rw [hrecent, Option.bind_some, hsummary, hkeysOf]
    rfl
  · exact {
      yearToDate := by
        refine ⟨entriesOf values keys, ?_, ?_, ?_⟩
        · rw [entriesOf, List.pairwise_map, hkeysOf]
          exact (sorted_reportedKeys values current).filter _
        · intro day value
          rw [mem_entriesOf hstored, hlisted]
          constructor
          · intro h
            obtain ⟨date, hdate, hday⟩ := key_of_isPlainDate (hkeys day h.1.1)
            have hrange := h.1.2
            rw [hday, hcurrent, thisYear_iff written hdate] at hrange
            exact ⟨h.2, date, hdate, hday, hrange⟩
          · intro h
            obtain ⟨hvalue, date, hdate, hday, hrange⟩ := h
            rw [← thisYear_iff written hdate, ← hcurrent, ← hday] at hrange
            exact ⟨⟨OrderedMap.mem_keys.mpr ⟨value, hvalue⟩, hrange⟩, hvalue⟩
        · rw [hsummary]
          exact yearValue_eq aggregation hstored
      series := by
        refine ⟨ending, hcurrent ▸ hending, ?_⟩
        rw [hsummary]
        show (List.reverse _).map _ = _
        rw [reverse_range_map KPI_WINDOW (fun i => key (period.start i)) ending, List.map_map]
        rfl }

/-- The calendar of a rhythm, and what is shown of any values on any day. -/
theorem kpi_calendar (written : IsWritten today) (hkeys : HasDateKeys values)
    (period : KpiPeriod) (aggregation : KpiAggregation) :
    KpiCalendar period ∧
      ∃ summary, kpiSummary values period aggregation (key today) = some summary ∧
        Summarises values period aggregation today summary :=
  ⟨kpiCalendar period, kpiSummary_summarises written hkeys period aggregation⟩

end

/-- Values of two months, and one of the year before. -/
def readings : OrderedMap String Nat :=
  ((OrderedMap.empty.set "2026-02-01" 4).set "2025-12-01" 9).set "2026-01-01" 3

/-- A day of February 2026. -/
def carnival : Date := ofDayNumber 739661

theorem kpi_calendar_readings :
    (kpiSummary readings .month .sum "2026-02-15").map KpiSummary.yearToDate = some (some 7) ∧
      KpiCalendar .month ∧
      ∃ summary, kpiSummary readings .month .sum (key carnival) = some summary ∧
        Summarises readings .month .sum carnival summary := by
  have hreadings : (kpiSummary readings .month .sum "2026-02-15").map KpiSummary.yearToDate =
        some (some 7) ∧
      IsWritten carnival ∧ readings.keys.all isPlainDate = true := by
    unfold IsWritten
    decide +kernel
  refine ⟨hreadings.1, kpi_calendar hreadings.2.1 ?_ .month .sum⟩
  exact List.all_eq_true.mp hreadings.2.2

/-- Before the year 0 the sign of a key is read as a separator, and the keys of the
years from 10000 on are not ordered as their days. -/
theorem kpiPeriods_far :
    (addKpiPeriods "2026-01-01" .year (-3000)).bind (addKpiPeriods · .year 3000) ≠
        addKpiPeriods "2026-01-01" .year 0 ∧
      addKpiPeriods "9999-12-01" .month 1 = some "10000-01-01" ∧
      ¬ "9999-12-31" < "10000-01-01" := by
  decide +kernel

end Sinnlos.Domain

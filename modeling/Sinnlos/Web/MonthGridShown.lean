import Mathlib.Algebra.Order.Ring.Int
import Sinnlos.Web.MonthGridBuckets

/-!
# What a month shows

Every month that can be asked for has a grid of whole weeks with each event on
exactly its days, except the first month and the last one that have keys. The window
that is fetched is that of the cells when no change of the clock jumps over the
midnight at either end of the grid.
-/

namespace Sinnlos.Web.MonthView

open Domain Calendar

variable {ε : Type}

/-! ## Whole weeks -/

/-- Cells that are the weeks from a Monday on that have a day of a month. -/
structure CoversMonth (months : Int) (first : Date) (weeks : Nat) (cells : List String) :
    Prop where
  monday : weekdayIndex first = 0
  cells_eq : cells = (List.range (7 * weeks)).map fun i : Nat => key (first.addDays i)
  covers : ∀ date : Date, date.monthNumber = months →
    first.dayNumber ≤ date.dayNumber ∧ date.dayNumber < first.dayNumber + 7 * weeks
  needed : ∀ week : Nat, week < weeks → ∃ date : Date, date.monthNumber = months ∧
    first.dayNumber + 7 * week ≤ date.dayNumber ∧ date.dayNumber < first.dayNumber + 7 * week + 7

variable {months : Int}

/-- The days of a month lie from its first day to before that of the next one. -/
theorem monthNumber_eq_iff {date : Date} : date.monthNumber = months ↔
    (Date.ofMonthNumber months).dayNumber ≤ date.dayNumber ∧
      date.dayNumber < (Date.ofMonthNumber (months + 1)).dayNumber := by
  have hle := Date.ofMonthNumber_le_iff months date
  have hlt := Date.ofMonthNumber_le_iff (months + 1) date
  omega

theorem gridCells_cover (h : HasGrid months) :
    CoversMonth months (gridFirst months) (gridLength months / 7) (gridCells months) := by
  have hgrid := grid_bounds h
  have hmonth := month_bounds h
  have hweeks : 7 * (gridLength months / 7) = gridLength months := by omega
  constructor
  · unfold weekdayIndex EPOCH_DAY
    omega
  · rw [hweeks]
    rfl
  · intro date hdate
    have hdays := monthNumber_eq_iff.mp hdate
    omega
  · intro week hweek
    obtain ⟨day, hday⟩ : ∃ day, day = max (Date.ofMonthNumber months).dayNumber
        ((gridFirst months).dayNumber + 7 * week) := ⟨_, rfl⟩
    have hnumber : (ofDayNumber day).dayNumber = day := dayNumber_ofDayNumber day
    refine ⟨ofDayNumber day, monthNumber_eq_iff.mpr ?_, ?_⟩
    · omega
    · omega

/-! ## Sorted buckets -/

section

variable (dateParse : String → Option Int) (startOf : ε → String) (endOf : ε → Option String)

/-- A list of events by start; those that start together are in the order of another
list. -/
structure IsSortOf (events bucket : List ε) : Prop where
  perm : bucket.Perm events
  sorted : bucket.Pairwise fun a b => startMs dateParse startOf a ≤ startMs dateParse startOf b
  stable : ∀ start, (bucket.filter fun event => startMs dateParse startOf event = start) =
    events.filter fun event => startMs dateParse startOf event = start

/-- Every cell has the events whose days it lies between, by start, and nothing else
has any. -/
structure ShowsEvents (zone : Zone) (first : Date) (weeks : Nat) (events : List ε)
    (byDay : OrderedMap String (List ε)) : Prop where
  keys : ∀ cell ∈ byDay.keys, ∃ i < 7 * weeks, cell = key (first.addDays (i : Nat))
  buckets : ∀ i < 7 * weeks, IsSortOf dateParse startOf
    (events.filter (isOnDay dateParse startOf endOf zone (first.addDays (i : Nat))))
    ((byDay.get? (key (first.addDays (i : Nat)))).getD [])

theorem insertionSort_isSortOf (events : List ε) : IsSortOf dateParse startOf events
    (events.insertionSort fun a b =>
      startMs dateParse startOf a ≤ startMs dateParse startOf b) := by
  let before (a b : ε) : Prop := startMs dateParse startOf a ≤ startMs dateParse startOf b
  have total : Std.Total before := ⟨fun a b => Int.le_total _ _⟩
  have trans : IsTrans ε before := ⟨fun a b c => Int.le_trans⟩
  have hperm : (events.insertionSort before).Perm events := List.perm_insertionSort before events
  refine ⟨hperm, List.pairwise_insertionSort before events, ?_⟩
  intro start
  -- events that start together are sorted already, and sorting keeps sorted sublists
  have hsame : (events.filter fun event => startMs dateParse startOf event = start).Pairwise
      before := by
    apply List.pairwise_of_forall_mem_list
    intro a ha b hb
    have hstart := of_decide_eq_true (List.mem_filter.mp ha).2
    have hstart' := of_decide_eq_true (List.mem_filter.mp hb).2
    show startMs dateParse startOf a ≤ startMs dateParse startOf b
    omega
  have hsublist := (List.sublist_insertionSort hsame List.filter_sublist).filter
    fun event => startMs dateParse startOf event = start
  rw [List.filter_filter] at hsublist
  simp only [Bool.and_self] at hsublist
  exact (hsublist.eq_of_length (hperm.filter _).length_eq.symm).symm

/-- The buckets of a month's grid. -/
theorem bucketEventsByDay_shows {months : Int} {zone : Zone} (h : HasGrid months)
    (events : List ε) (hdays : ∀ event ∈ events, HasDays dateParse startOf endOf zone event) :
    ∃ byDay, bucketEventsByDay dateParse startOf endOf events (gridCells months) zone =
        some byDay ∧
      ShowsEvents dateParse startOf endOf zone (gridFirst months) (gridLength months / 7) events
        byDay := by
  have hgrid := grid_bounds h
  have hempty : Bucketed dateParse startOf endOf months zone [] OrderedMap.empty :=
    ⟨fun _ _ => rfl, fun cell hcell => absurd hcell List.not_mem_nil⟩
  obtain ⟨filled, hfilled, hspec⟩ := bucketEvents_spec h events hdays hempty
  rw [List.nil_append] at hspec
  have hends := gridCells_ends h
  refine ⟨filled.mapValues fun bucket => bucket.insertionSort fun a b =>
    startMs dateParse startOf a ≤ startMs dateParse startOf b, ?_, ?_, ?_⟩
  · rw [bucketEventsByDay, hends.1, hends.2]
    dsimp only
    rw [hfilled, Option.map_some]
  · intro cell hcell
    rw [OrderedMap.keys_mapValues] at hcell
    obtain ⟨i, hi, hkey⟩ := List.mem_map.mp (hspec.keys cell hcell)
    have hlt := List.mem_range.mp hi
    exact ⟨i, by omega, hkey.symm⟩
  · intro i hi
    have inside : InGrid months ((gridFirst months).addDays (i : Nat)) := by
      unfold InGrid
      rw [Date.dayNumber_addDays]
      omega
    have hget := hspec.get _ inside
    rw [OrderedMap.get?_mapValues]
    cases hbucket : filled.get? (key ((gridFirst months).addDays (i : Nat))) with
    | none =>
        rw [hbucket, Option.getD_none] at hget
        rw [Option.map_none, Option.getD_none, ← hget]
        exact insertionSort_isSortOf dateParse startOf []
    | some bucket =>
        rw [hbucket, Option.getD_some] at hget
        rw [Option.map_some, Option.getD_some, ← hget]
        exact insertionSort_isSortOf dateParse startOf bucket

end

/-! ## The grid of a month -/

/-- The month of the parameter, or of today. -/
def shownMonth (monthParam : Option String) (today : Date) : Int :=
  match monthParam.bind monthParamMatch with
  | some (year, month) => year * 12 + (month - 1)
  | none => today.monthNumber

/-- A grid of whole weeks that covers the month, the window of its cells, and every
list of events on its days. -/
structure ShowsMonth (dateParse : String → Option Int) (startOf : ε → String)
    (endOf : ε → Option String) (zone : Zone) (months : Int) (grid : MonthGrid) (first : Date)
    (weeks : Nat) : Prop where
  cells : CoversMonth months first weeks grid.cells
  window : instantsOfCells grid.cells zone = Set.Ico grid.start grid.until
  events : ∀ events : List ε, (∀ event ∈ events, HasDays dateParse startOf endOf zone event) →
    ∃ byDay, bucketEventsByDay dateParse startOf endOf events grid.cells zone = some byDay ∧
      ShowsEvents dateParse startOf endOf zone first weeks events byDay

theorem monthParamMatch_range {value : String} {year month : Nat}
    (h : monthParamMatch value = some (year, month)) :
    1900 ≤ year ∧ year < 3000 ∧ 1 ≤ month ∧ month ≤ 12 := by
  unfold monthParamMatch at h
  split at h
  · rename_i y1 y2 y3 y4 m1 m2 _
    cases hyear : Text.readNat [y1, y2, y3, y4] with
    | none => simp [hyear] at h
    | some y =>
        cases hmonth : Text.readNat [m1, m2] with
        | none => simp [hyear, hmonth] at h
        | some m =>
            by_cases hrange : 1900 ≤ y ∧ y < 3000 ∧ 1 ≤ m ∧ m ≤ 12
            · simp [hyear, hmonth, hrange] at h
              omega
            · simp [hyear, hmonth, hrange] at h
  · cases h

/-- The month that is shown lies in the years with keys. -/
theorem resolveMonth_shown (monthParam : Option String) {today : Date}
    (written : IsWritten today) : ∃ year month : Nat,
      resolveMonth monthParam (key today) = .ok (year, month) ∧
      (year : Int) * 12 + ((month : Int) - 1) = shownMonth monthParam today ∧
      (HasGrid (shownMonth monthParam today) ∨ (year = 100 ∧ month = 1) ∨
        (year = 9999 ∧ month = 12)) := by
  unfold resolveMonth shownMonth HasGrid
  cases hparam : monthParam.bind monthParamMatch with
  | some found =>
      obtain ⟨value, -, hmatch⟩ := Option.bind_eq_some_iff.mp hparam
      have hrange := monthParamMatch_range hmatch
      exact ⟨found.1, found.2, rfl, rfl, by dsimp only; omega⟩
  | none =>
      dsimp only
      rw [plainDateParts_key written]
      have hpos := today.month_pos
      have hle := today.month_le
      have hyear := written
      unfold IsWritten at hyear
      unfold Date.monthNumber
      exact ⟨today.year.toNat, today.month, rfl, by omega, by omega⟩

/-- The months at the ends of the years with keys have no grid. -/
theorem gridDays_outside :
    (gridDays 100 1).toOption.isNone = true ∧ (gridDays 9999 12).toOption.isNone = true := by
  decide +kernel

section

variable {intl : String → Option Formatter} {timeZone : String} {formatter : Formatter}
  (valid : isValidTimeZone intl timeZone = true) (known : intl timeZone = some formatter)
  (regular : formatter.zone.Regular)
include valid known regular

/-- What is built for a month that has a grid. -/
theorem buildMonthGrid_ok {monthParam : Option String} {today : Date} (written : IsWritten today)
    (h : HasGrid (shownMonth monthParam today)) :
    ∃ grid, buildMonthGrid intl monthParam (key today) timeZone = .ok grid ∧
      grid.cells = gridCells (shownMonth monthParam today) ∧
      (instantsOfCells grid.cells formatter.zone = Set.Ico grid.start grid.until ↔
        ¬ formatter.zone.JumpsMidnight (gridFirst (shownMonth monthParam today)) ∧
          ¬ formatter.zone.JumpsMidnight (gridUntil (shownMonth monthParam today))) := by
  obtain ⟨year, month, hresolve, hmonths, -⟩ :=
    resolveMonth_shown monthParam written
  obtain ⟨start, stop, hstart, hstop, hwindow⟩ := gridWindow valid known regular h
  rw [← hmonths] at h hstart hstop hwindow ⊢
  have hbuilt := buildMonthGrid.eq_1 intl monthParam (key today) timeZone
  rw [hresolve] at hbuilt
  dsimp only [dated, bind, Except.bind] at hbuilt
  rw [gridDays_eq h] at hbuilt
  dsimp only at hbuilt
  rw [hstart, hstop] at hbuilt
  exact ⟨_, hbuilt, rfl, hwindow⟩

/-- A month shows every event on exactly its days in whole weeks from a Monday on, and
fetches exactly the instants of its cells, exactly when its grid lies in the years with
keys and the clock jumps over the midnight at neither of its ends. -/
theorem monthGrid_shows (dateParse : String → Option Int) (startOf : ε → String)
    (endOf : ε → Option String) (monthParam : Option String) {today : Date}
    (written : IsWritten today) :
    (∃ grid first weeks, buildMonthGrid intl monthParam (key today) timeZone = .ok grid ∧
      ShowsMonth dateParse startOf endOf formatter.zone (shownMonth monthParam today) grid first
        weeks) ↔
    HasGrid (shownMonth monthParam today) ∧
      ¬ formatter.zone.JumpsMidnight (gridFirst (shownMonth monthParam today)) ∧
      ¬ formatter.zone.JumpsMidnight (gridUntil (shownMonth monthParam today)) := by
  constructor
  · intro h
    obtain ⟨grid, first, weeks, hgrid, hshows⟩ := h
    obtain ⟨year, month, hresolve, hmonths, hcases⟩ :=
      resolveMonth_shown monthParam written
    rcases hcases with hhas | hends
    · obtain ⟨built, hbuilt, -, hwindow⟩ := buildMonthGrid_ok valid known regular written hhas
      have hsame : grid = built := Except.ok.inj (hgrid.symm.trans hbuilt)
      rw [← hsame] at hwindow
      exact ⟨hhas, hwindow.mp hshows.window⟩
    · exfalso
      have hnone : (gridDays year month).toOption.isNone = true := by
        rcases hends with hfirst | hlast
        · rw [hfirst.1, hfirst.2]
          exact gridDays_outside.1
        · rw [hlast.1, hlast.2]
          exact gridDays_outside.2
      rw [buildMonthGrid, hresolve] at hgrid
      dsimp only [dated, bind, Except.bind] at hgrid
      cases hdays : gridDays year month with
      | ok days =>
          rw [hdays] at hnone
          cases hnone
      | error error =>
          rw [hdays] at hgrid
          cases hgrid
  · intro h
    obtain ⟨hhas, hquiet⟩ := h
    obtain ⟨grid, hgrid, hcells, hwindow⟩ := buildMonthGrid_ok valid known regular written hhas
    refine ⟨grid, gridFirst (shownMonth monthParam today),
      gridLength (shownMonth monthParam today) / 7, hgrid, ?_, hwindow.mpr hquiet, ?_⟩
    · rw [hcells]
      exact gridCells_cover hhas
    · rw [hcells]
      intro events hdays
      exact bucketEventsByDay_shows dateParse startOf endOf hhas events hdays

end

/-- An evening in Berlin, read as nothing but itself. -/
def eveningParse (text : String) : Option Int :=
  if text = "2026-03-28T21:30:00.000Z" then some 1774733400000 else none

theorem monthGrid_shows_berlinSpring :
    ∃ grid first weeks, buildMonthGrid (intlOf berlinSpring) (some "2026-03") (key springSunday)
        "Europe/Berlin" = .ok grid ∧
      ShowsMonth eveningParse id (fun _ => none) berlinSpring
        (shownMonth (some "2026-03") springSunday) grid first weeks := by
  have hvalid : isValidTimeZone (intlOf berlinSpring) "Europe/Berlin" = true := by decide +kernel
  have hgrid : HasGrid (shownMonth (some "2026-03") springSunday) := by
    unfold HasGrid
    decide +kernel
  exact (monthGrid_shows hvalid rfl berlinSpring_regular eveningParse id (fun _ => none)
    (some "2026-03") spring_written.1).mpr
      ⟨hgrid, berlinSpring_quiet _, berlinSpring_quiet _⟩

/-- The first half hour of the first cell lies outside the window of the month. -/
theorem monthWindow_misplaced :
    torontoSpring.Regular ∧
      ∃ grid, buildMonthGrid (intlOf torontoSpring) (some "1919-04") "1919-04-01"
          "America/Toronto" = .ok grid ∧
        -1601753400000 ∈ instantsOfCells grid.cells torontoSpring ∧
        -1601753400000 ∉ Set.Ico grid.start grid.until := by
  refine ⟨torontoSpring_regular, ?_⟩
  have hbuilt : ((buildMonthGrid (intlOf torontoSpring) (some "1919-04") "1919-04-01"
        "America/Toronto").toOption.map fun grid => (grid.cells.head?, grid.start)) =
          some (some "1919-03-31", -1601751600000) ∧
      0 < (torontoSpring.dayAt (-1601753400000)).year ∧
      zonedDateKeyOfMs (-1601753400000) torontoSpring = "1919-03-31" := by
    decide +kernel
  obtain ⟨hsome, hera, hday⟩ := hbuilt
  cases hgrid : buildMonthGrid (intlOf torontoSpring) (some "1919-04") "1919-04-01"
      "America/Toronto" with
  | error failure =>
      rw [hgrid] at hsome
      cases hsome
  | ok grid =>
      rw [hgrid] at hsome
      have hends : (grid.cells.head?, grid.start) = (some "1919-03-31", -1601751600000) :=
        Option.some.inj hsome
      have hhead := (Prod.mk.inj hends).1
      have hstart := (Prod.mk.inj hends).2
      refine ⟨grid, rfl, ⟨hera, ?_⟩, ?_⟩
      · rw [hday]
        exact List.mem_of_head? hhead
      · intro hinside
        have hle := hinside.1
        omega

end Sinnlos.Web.MonthView

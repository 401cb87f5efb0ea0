import Sinnlos.Web.MonthGridCells

/-!
# The days on which events are shown

The loop over the days of an event puts it into the buckets of exactly the cells
between its first and its last day, and each bucket is sorted by start, events that
start together in the order in which they came.
-/

namespace Sinnlos.Web.MonthView

open Domain Calendar

variable {ε : Type} {dateParse : String → Option Int} {startOf : ε → String}
  {endOf : ε → Option String} {months : Int} {zone : Zone}

/-- Days whose keys have four digits for the year. -/
def HasDigits (date : Date) : Prop := 0 ≤ date.year ∧ date.year ≤ 9999

/-! ## One event -/

/-- The days between two days, both included. -/
def Between (first last date : Date) : Prop :=
  first.dayNumber ≤ date.dayNumber ∧ date.dayNumber ≤ last.dayNumber

instance (first last date : Date) : Decidable (Between first last date) :=
  inferInstanceAs (Decidable (_ ∧ _))

/-- Buckets after an event was put into those of some days of the grid. -/
structure Filled (months : Int) (event : ε) (first last : Date)
    (byDay filled : OrderedMap String (List ε)) : Prop where
  get : ∀ date, InGrid months date → (filled.get? (key date)).getD [] =
    (byDay.get? (key date)).getD [] ++ if Between first last date then [event] else []
  keys : ∀ cell ∈ filled.keys, cell ∈ byDay.keys ∨ cell ∈ gridCells months

theorem fillDays_succ (event : ε) (stop : String) (fuel : Nat) (cursor : String)
    (byDay : OrderedMap String (List ε)) : fillDays event stop (fuel + 1) cursor byDay =
      if cursor ≤ stop then
        match addDaysToKey cursor 1 with
        | .ok next => fillDays event stop fuel next (push byDay cursor event)
        | .error _ => none
      else some byDay := rfl

theorem getD_push (byDay : OrderedMap String (List ε)) (day other : String) (event : ε) :
    ((push byDay day event).get? other).getD [] =
      (byDay.get? other).getD [] ++ if other = day then [event] else [] := by
  unfold push
  rw [OrderedMap.get?_set]
  by_cases h : other = day
  · simp [h]
  · simp [h]

variable {event : ε} {cursor last : Date}

/-- The day of the cursor joins the days that come after it. -/
theorem between_cursor {next date : Date} (hnext : next.dayNumber = cursor.dayNumber + 1)
    (hle : cursor.dayNumber ≤ last.dayNumber) :
    (if date.dayNumber = cursor.dayNumber then [event] else []) ++
        (if Between next last date then [event] else []) =
      if Between cursor last date then [event] else [] := by
  by_cases heq : date.dayNumber = cursor.dayNumber
  · have hnot : ¬ Between next last date := by
      unfold Between
      omega
    have hnow : Between cursor last date := by
      unfold Between
      omega
    rw [if_pos heq, if_neg hnot, if_pos hnow, List.append_nil]
  · have hiff : Between next last date ↔ Between cursor last date := by
      unfold Between
      omega
    rw [if_neg heq, List.nil_append, if_congr hiff rfl rfl]

/-- One turn of the loop puts the event into the bucket of its cursor. -/
theorem Filled.cons (h : HasGrid months) {event : ε} {cursor next last : Date}
    {byDay filled : OrderedMap String (List ε)} (inside : InGrid months cursor)
    (hnext : next.dayNumber = cursor.dayNumber + 1) (hle : cursor.dayNumber ≤ last.dayNumber)
    (spec : Filled months event next last (push byDay (key cursor) event) filled) :
    Filled months event cursor last byDay filled := by
  constructor
  · intro date hdate
    have hsame : key date = key cursor ↔ date.dayNumber = cursor.dayNumber := by
      constructor
      · intro heq
        rw [key_injective (hdate.written h) (inside.written h) heq]
      · intro heq
        rw [Date.dayNumber_injective heq]
    rw [spec.get date hdate, getD_push, List.append_assoc, if_congr hsame rfl rfl,
      between_cursor hnext hle]
  · intro cell hcell
    rcases spec.keys cell hcell with hold | hnew
    · rcases OrderedMap.mem_keys_set.mp hold with heq | hbefore
      · exact Or.inr ((mem_gridCells h).mpr ⟨cursor, inside, heq⟩)
      · exact Or.inl hbefore
    · exact Or.inr hnew

/-- The loop visits the days from the cursor to the stop. -/
theorem fillDays_spec (h : HasGrid months) (event : ε) (hlast : HasDigits last)
    (hstop : last.dayNumber < (gridUntil months).dayNumber) (fuel : Nat)
    (byDay : OrderedMap String (List ε)) (hcursor : HasDigits cursor)
    (hfrom : (gridFirst months).dayNumber ≤ cursor.dayNumber)
    (enough : last.dayNumber - cursor.dayNumber + 1 < fuel) (hpos : 0 < fuel) :
    ∃ filled, fillDays event (key last) fuel (key cursor) byDay = some filled ∧
      Filled months event cursor last byDay filled := by
  induction fuel generalizing cursor byDay with
  | zero => omega
  | succ fuel ih =>
      have hle : key cursor ≤ key last ↔ cursor.dayNumber ≤ last.dayNumber := by
        rw [← not_lt, key_lt_iff_of_digits hlast hcursor, not_lt]
      by_cases hmore : cursor.dayNumber ≤ last.dayNumber
      · have inside : InGrid months cursor := ⟨hfrom, by omega⟩
        have hgrid := grid_bounds h
        have hmonth := month_bounds h
        obtain ⟨next, hnexteq⟩ : ∃ next, next = cursor.addDays 1 := ⟨_, rfl⟩
        have hnext : next.dayNumber = cursor.dayNumber + 1 := by
          rw [hnexteq, Date.dayNumber_addDays]
        have hwritten : IsWritten next := written_of_dayNumber (by omega) (by omega)
        have hadd : addDaysToKey (key cursor) 1 = .ok (key next) := by
          rw [hnexteq] at hwritten ⊢
          exact addDaysToKey_key (inside.written h) hwritten
        have hstep : fillDays event (key last) (fuel + 1) (key cursor) byDay =
            fillDays event (key last) fuel (key next) (push byDay (key cursor) event) := by
          rw [fillDays_succ, if_pos (hle.mpr hmore), hadd]
        obtain ⟨filled, hfilled, hspec⟩ := ih (push byDay (key cursor) event) hwritten.digits
          (by omega) (by omega) (by omega)
        exact ⟨filled, hstep.trans hfilled, hspec.cons h inside hnext hmore⟩
      · have hdone : fillDays event (key last) (fuel + 1) (key cursor) byDay = some byDay := by
          rw [fillDays_succ, if_neg (mt hle.mp hmore)]
        refine ⟨byDay, hdone, ?_, fun cell hcell => Or.inl hcell⟩
        intro date _
        have hnot : ¬ Between cursor last date := by
          unfold Between
          omega
        rw [if_neg hnot, List.append_nil]

/-! ## Every event -/

section

variable (dateParse : String → Option Int) (startOf : ε → String) (endOf : ε → Option String)

/-- Where an event starts and ends; none where its start is no instant. -/
def spanOf (event : ε) : Option (Int × Int) :=
  (instantEpochMs dateParse (startOf event)).map fun start =>
    (start, spanEnd dateParse endOf start event)

/-- Whether a day lies between the first and the last day of an event. -/
def isOnDay (zone : Zone) (date : Date) (event : ε) : Bool :=
  match spanOf dateParse startOf endOf event with
  | none => false
  | some (start, stop) => decide (Between (zone.dayAt start) (zone.dayAt stop) date)

/-- Events whose days lie in the years from 1 to 9999. -/
def HasDays (zone : Zone) (event : ε) : Prop :=
  ∀ start stop, spanOf dateParse startOf endOf event = some (start, stop) →
    (0 < (zone.dayAt start).year ∧ (zone.dayAt start).year ≤ 9999) ∧
      0 < (zone.dayAt stop).year ∧ (zone.dayAt stop).year ≤ 9999

/-- Buckets that hold some events on exactly their days. -/
structure Bucketed (months : Int) (zone : Zone) (events : List ε)
    (byDay : OrderedMap String (List ε)) : Prop where
  get : ∀ date, InGrid months date → (byDay.get? (key date)).getD [] =
    events.filter (isOnDay dateParse startOf endOf zone date)
  keys : ∀ cell ∈ byDay.keys, cell ∈ gridCells months

end

/-- The last cell of a month. -/
def gridLast (months : Int) : Date := (gridUntil months).addDays (-1)

theorem dayNumber_gridLast (months : Int) :
    (gridLast months).dayNumber = (gridUntil months).dayNumber - 1 := by
  rw [gridLast, Date.dayNumber_addDays, Int.sub_eq_add_neg]

theorem gridCells_ends (h : HasGrid months) :
    (gridCells months).head? = some (key (gridFirst months)) ∧
      (gridCells months).getLast? = some (key (gridLast months)) := by
  have hgrid := grid_bounds h
  have hmonth := month_bounds h
  obtain ⟨count, hcount⟩ : ∃ count, gridLength months = count + 1 :=
    ⟨gridLength months - 1, by omega⟩
  unfold gridCells
  rw [hcount]
  constructor
  · rw [List.range_succ_eq_map, List.map_cons, List.head?_cons]
    congr 2
    apply Date.dayNumber_injective
    rw [Date.dayNumber_addDays]
    omega
  · rw [List.range_succ, List.map_append, List.map_singleton, List.getLast?_concat]
    congr 2
    apply Date.dayNumber_injective
    rw [Date.dayNumber_addDays, dayNumber_gridLast]
    omega

/-- The keys that clamp an event to the grid are those of the clamped days. -/
theorem clamp_first {first start : Date} (hfirst : HasDigits first) (hstart : HasDigits start) :
    ∃ cursor, HasDigits cursor ∧
      (if key first < key start then key start else key first) = key cursor ∧
      cursor.dayNumber = max first.dayNumber start.dayNumber := by
  by_cases hlt : first.dayNumber < start.dayNumber
  · rw [if_pos ((key_lt_iff_of_digits hfirst hstart).mpr hlt)]
    exact ⟨start, hstart, rfl, by omega⟩
  · rw [if_neg (mt (key_lt_iff_of_digits hfirst hstart).mp hlt)]
    exact ⟨first, hfirst, rfl, by omega⟩

theorem clamp_last {stop : Date} (hlast : HasDigits last) (hstop : HasDigits stop) :
    ∃ ending, HasDigits ending ∧
      (if key last < key stop then key last else key stop) = key ending ∧
      ending.dayNumber = min last.dayNumber stop.dayNumber := by
  by_cases hlt : last.dayNumber < stop.dayNumber
  · rw [if_pos ((key_lt_iff_of_digits hlast hstop).mpr hlt)]
    exact ⟨last, hlast, rfl, by omega⟩
  · rw [if_neg (mt (key_lt_iff_of_digits hlast hstop).mp hlt)]
    exact ⟨stop, hstop, rfl, by omega⟩

variable {processed : List ε} {byDay : OrderedMap String (List ε)}

/-- One event joins the buckets of its days. -/
theorem bucketEvent_spec (h : HasGrid months) (hdays : HasDays dateParse startOf endOf zone event)
    (before : Bucketed dateParse startOf endOf months zone processed byDay) :
    ∃ filled, bucketEvent dateParse startOf endOf (key (gridFirst months)) (key (gridLast months))
        ((gridCells months).length + 1) zone byDay event = some filled ∧
      Bucketed dateParse startOf endOf months zone (processed ++ [event]) filled := by
  cases hstart : instantEpochMs dateParse (startOf event) with
  | none =>
      have hspan : spanOf dateParse startOf endOf event = none := by
        rw [spanOf, hstart, Option.map_none]
      have hnever (date : Date) : isOnDay dateParse startOf endOf zone date event = false := by
        rw [isOnDay, hspan]
      refine ⟨byDay, ?_, ?_, before.keys⟩
      · rw [bucketEvent, hstart]
      · intro date hdate
        rw [before.get date hdate, List.filter_append, List.filter_singleton, hnever,
          cond_false, List.append_nil]
  | some start =>
      obtain ⟨stop, hstop⟩ : ∃ stop, stop = spanEnd dateParse endOf start event := ⟨_, rfl⟩
      have hspan : spanOf dateParse startOf endOf event = some (start, stop) := by
        rw [spanOf, hstart, Option.map_some, hstop]
      have hshown (date : Date) : isOnDay dateParse startOf endOf zone date event =
          decide (Between (zone.dayAt start) (zone.dayAt stop) date) := by
        rw [isOnDay, hspan]
      have hyears := hdays start stop hspan
      have hgrid := grid_bounds h
      have hmonth := month_bounds h
      have hlastDay := dayNumber_gridLast months
      have hgridFirst : IsWritten (gridFirst months) := written_of_dayNumber (by omega) (by omega)
      have hgridLast : IsWritten (gridLast months) := written_of_dayNumber (by omega) (by omega)
      have hfirstDigits : HasDigits (zone.dayAt start) := ⟨hyears.1.1.le, hyears.1.2⟩
      have hlastDigits : HasDigits (zone.dayAt stop) := ⟨hyears.2.1.le, hyears.2.2⟩
      obtain ⟨cursor, hcursor, hcursorKey, hcursorDay⟩ := clamp_first hfirstDigits hgridFirst.digits
      obtain ⟨ending, hending, hendingKey, hendingDay⟩ := clamp_last hlastDigits hgridLast.digits
      have hlength : (gridCells months).length = gridLength months := by
        rw [gridCells, List.length_map, List.length_range]
      obtain ⟨filled, hfilled, hspec⟩ := fillDays_spec h event hending (by omega)
        ((gridCells months).length + 1) byDay hcursor (by omega) (by omega) (by omega)
      refine ⟨filled, ?_, ?_, ?_⟩
      · rw [bucketEvent, hstart]
        dsimp only
        rw [← hstop, zonedDateKeyOfMs_eq hyears.1.1, zonedDateKeyOfMs_eq hyears.2.1, hcursorKey,
          hendingKey, hfilled]
      · intro date hdate
        have hclamped : Between cursor ending date ↔
            Between (zone.dayAt start) (zone.dayAt stop) date := by
          unfold Between
          unfold InGrid at hdate
          omega
        rw [hspec.get date hdate, before.get date hdate, List.filter_append,
          List.filter_singleton, hshown, if_congr hclamped rfl rfl, Bool.cond_decide]
      · intro cell hcell
        rcases hspec.keys cell hcell with hold | hnew
        · exact before.keys cell hold
        · exact hnew

/-- A run over some events puts each of them on its days. -/
theorem bucketEvents_spec (h : HasGrid months) (events : List ε)
    (hdays : ∀ event ∈ events, HasDays dateParse startOf endOf zone event)
    (before : Bucketed dateParse startOf endOf months zone processed byDay) :
    ∃ filled, events.foldlM (bucketEvent dateParse startOf endOf (key (gridFirst months))
        (key (gridLast months)) ((gridCells months).length + 1) zone) byDay = some filled ∧
      Bucketed dateParse startOf endOf months zone (processed ++ events) filled := by
  induction events generalizing processed byDay with
  | nil => exact ⟨byDay, rfl, by rwa [List.append_nil]⟩
  | cons event rest ih =>
      obtain ⟨next, hnext, hbucketed⟩ :=
        bucketEvent_spec h (hdays event List.mem_cons_self) before
      obtain ⟨filled, hfilled, hspec⟩ :=
        ih (fun other hother => hdays other (List.mem_cons_of_mem event hother)) hbucketed
      refine ⟨filled, ?_, ?_⟩
      · rw [List.foldlM_cons, hnext, Option.bind_eq_bind, Option.bind_some, hfilled]
      · rw [List.append_assoc, List.singleton_append] at hspec
        exact hspec

end Sinnlos.Web.MonthView

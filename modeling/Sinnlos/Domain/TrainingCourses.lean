import Sinnlos.Domain.TrainingValidity

/-!
# A course and one receipt more

The loop over the lessons of a course, run once with the receipts there are and
once with one more: the second run is never behind the first.
-/

namespace Sinnlos.Domain

open Calendar

section

variable {dateParse : String → Option Int}

/-! ## One lesson of the loop -/

/-- The tally after a lesson whose state is told. -/
def Tally.add (dateParse : String → Option Int) (tally : Tally) (state : LessonReceiptState)
    (known : Option (Option String)) : Tally :=
  { completed := if state.counts then tally.completed + 1 else tally.completed
    allHaveReceipts := if known.isSome then tally.allHaveReceipts else false
    dueKey := earlierDue state tally.dueKey
    completedAt := laterCompletion dateParse known.join tally.completedAt }

variable {newest : OrderedMap String (Option String)} {todayKey id : String}
  {state : LessonReceiptState} {dueKey : Option String} {validityMonths : Option Nat} {zone : Zone}
  {e : RangeError} {newest' : OrderedMap String (Option String)} {due : String}

theorem tallyLesson_ok
    (h : knownState dateParse (newest.get? id) validityMonths todayKey zone = .ok state)
    (tally : Tally) :
    tallyLesson dateParse newest validityMonths todayKey zone tally id =
      .ok (tally.add dateParse state (newest.get? id)) := by
  unfold knownState at h
  simp only [tallyLesson, h, bind, Except.bind, pure, Except.pure, Tally.add]

theorem tallyLesson_error
    (h : knownState dateParse (newest.get? id) validityMonths todayKey zone = .error e)
    (tally : Tally) :
    tallyLesson dateParse newest validityMonths todayKey zone tally id = .error e := by
  unfold knownState at h
  simp only [tallyLesson, h, bind, Except.bind]

theorem tallyLesson_congr (h : ∀ id, newest.get? id = newest'.get? id)
    (validityMonths : Option Nat) (todayKey : String) (zone : Zone) :
    tallyLesson dateParse newest validityMonths todayKey zone =
      tallyLesson dateParse newest' validityMonths todayKey zone := by
  funext tally id
  unfold tallyLesson
  rw [h id]

/-- A course depends on nothing but what is known of each lesson. -/
theorem courseValidity_congr (h : ∀ id, newest.get? id = newest'.get? id)
    (validityMonths : Option Nat) (todayKey : String) (zone : Zone) (lessonIds : List String) :
    courseValidity dateParse newest validityMonths todayKey zone lessonIds =
      courseValidity dateParse newest' validityMonths todayKey zone lessonIds := by
  unfold courseValidity
  rw [tallyLesson_congr h]

/-! ## The earliest due day -/

/-- A told due day is no empty text. -/
theorem ne_empty_of_told (h : Told todayKey dueKey) (hdue : dueKey = some due) : due ≠ "" := by
  intro hempty
  have hplain := (h due hdue).1
  rw [hempty] at hplain
  exact absurd hplain (by decide)

theorem earlierDue_some (h : Told todayKey state.dueKey) (hdue : state.dueKey = some due)
    (dueKey : Option String) : earlierDue state dueKey = some (dueKey.elim due (min due)) := by
  have hne := ne_empty_of_told h hdue
  unfold earlierDue
  rw [hdue]
  cases dueKey with
  | none => simp [hne]
  | some earliest =>
      simp only [hne, ne_eq, not_false_eq_true, true_and, Option.elim_some]
      by_cases hlt : due < earliest
      · rw [if_pos hlt, min_eq_left (le_of_lt hlt)]
      · rw [if_neg hlt, min_eq_right (not_lt.mp hlt)]

theorem earlierDue_of_told (hstate : Told todayKey state.dueKey) (h : Told todayKey dueKey) :
    Told todayKey (earlierDue state dueKey) := by
  cases hdue : state.dueKey with
  | none =>
      simp only [earlierDue, hdue]
      exact h
  | some due =>
      rw [earlierDue_some hstate hdue]
      intro earliest hearliest
      cases dueKey with
      | none => exact hstate earliest (hdue.trans hearliest)
      | some other =>
          have hmin : min due other = earliest := Option.some.inj hearliest
          obtain hleft | hright := min_choice due other
          · exact hstate earliest (hdue.trans (congrArg some (hleft.symm.trans hmin)))
          · exact h earliest (congrArg some (hright.symm.trans hmin))

/-- The earliest due day moves forward with the due days. -/
theorem earlierDue_le {before after : LessonReceiptState} {dueKey' : Option String}
    (hbefore : Told todayKey before.dueKey) (hafter : Told todayKey after.dueKey)
    (hstate : DueLe before.dueKey after.dueKey) (h : DueLe dueKey dueKey') :
    DueLe (earlierDue before dueKey) (earlierDue after dueKey') := by
  cases hb : before.dueKey with
  | none =>
      cases ha : after.dueKey with
      | none =>
          simp only [earlierDue, hb, ha]
          exact h
      | some due =>
          rw [hb, ha] at hstate
          exact absurd hstate id
  | some first =>
      cases ha : after.dueKey with
      | none =>
          rw [hb, ha] at hstate
          exact absurd hstate id
      | some second =>
          rw [earlierDue_some hbefore hb, earlierDue_some hafter ha]
          rw [hb, ha] at hstate
          have hle : first ≤ second := hstate
          cases dueKey with
          | none =>
              cases dueKey' with
              | none => exact hle
              | some due => exact absurd h id
          | some one =>
              cases dueKey' with
              | none => exact absurd h id
              | some two => exact min_le_min hle h

/-! ## The loop -/

/-- How a tally with one receipt more stands to the one without. -/
structure Ahead (todayKey : String) (tally tally' : Tally) : Prop where
  completed : tally.completed ≤ tally'.completed
  haveReceipts : tally.allHaveReceipts = true → tally'.allHaveReceipts = true
  due : DueLe tally.dueKey tally'.dueKey
  told : Told todayKey tally.dueKey
  told_after : Told todayKey tally'.dueKey

variable {newest newest' : OrderedMap String (Option String)} {validityMonths : Option Nat}
  {todayKey : String} {zone : Zone} {completedAt : Option String}

/-- What one receipt more does to a lesson of the loop. -/
def LessonImproves (dateParse : String → Option Int)
    (newest newest' : OrderedMap String (Option String)) (validityMonths : Option Nat)
    (todayKey : String) (zone : Zone) (completedAt : Option String) (id : String) : Prop :=
  ∃ state, knownState dateParse (newest.get? id) validityMonths todayKey zone = .ok state ∧
    Told todayKey state.dueKey ∧ ((newest.get? id).isSome = true → (newest'.get? id).isSome = true) ∧
    ((∃ after, knownState dateParse (newest'.get? id) validityMonths todayKey zone = .ok after ∧
        Told todayKey after.dueKey ∧ (state.counts = true → after.counts = true) ∧
        DueLe state.dueKey after.dueKey) ∨
      (IsLate zone validityMonths completedAt ∧
        ∃ e, knownState dateParse (newest'.get? id) validityMonths todayKey zone = .error e))

variable {tally result : Tally} {lessonIds : List String} {rows : List ReceiptRow} {tally' : Tally}
  {validity : CourseValidity} {rows' : List ReceiptRow} {row : ReceiptRow}

/-- One turn of the loop keeps the tally with the receipt ahead. -/
theorem tallyLesson_ahead
    (hlesson : LessonImproves dateParse newest newest' validityMonths todayKey zone completedAt id)
    (hahead : Ahead todayKey tally tally')
    (h : tallyLesson dateParse newest validityMonths todayKey zone tally id = .ok result) :
    (∃ result', tallyLesson dateParse newest' validityMonths todayKey zone tally' id = .ok result' ∧
        Ahead todayKey result result') ∨
      (IsLate zone validityMonths completedAt ∧
        ∃ e, tallyLesson dateParse newest' validityMonths todayKey zone tally' id = .error e) := by
  obtain ⟨state, hstate, htold, hhas, ⟨after, hafter, htoldAfter, hcounts, hdue⟩ | ⟨hlate, e, he⟩⟩ :=
    hlesson
  · left
    rw [tallyLesson_ok hstate] at h
    have hresult := Except.ok.inj h
    refine ⟨_, tallyLesson_ok hafter tally', ?_⟩
    rw [← hresult]
    constructor
    · have hle := hahead.completed
      unfold Tally.add
      dsimp only
      cases hc : state.counts with
      | true =>
          rw [hcounts hc]
          simpa using hle
      | false =>
          simp only [Bool.false_eq_true, if_false]
          split <;> omega
    · intro hall
      unfold Tally.add at hall ⊢
      dsimp only at hall ⊢
      split at hall
      · rename_i hsome
        rw [if_pos (hhas hsome)]
        exact hahead.haveReceipts hall
      · cases hall
    · exact earlierDue_le htold htoldAfter hdue hahead.due
    · exact earlierDue_of_told htold hahead.told
    · exact earlierDue_of_told htoldAfter hahead.told_after
  · right
    exact ⟨hlate, e, tallyLesson_error he tally'⟩

/-- The whole loop keeps it ahead. -/
theorem foldlM_ahead (hlessons : ∀ id ∈ lessonIds,
      LessonImproves dateParse newest newest' validityMonths todayKey zone completedAt id)
    (hahead : Ahead todayKey tally tally')
    (h : lessonIds.foldlM (tallyLesson dateParse newest validityMonths todayKey zone) tally =
      .ok result) :
    (∃ result', lessonIds.foldlM (tallyLesson dateParse newest' validityMonths todayKey zone)
        tally' = .ok result' ∧ Ahead todayKey result result') ∨
      (IsLate zone validityMonths completedAt ∧ ∃ e,
        lessonIds.foldlM (tallyLesson dateParse newest' validityMonths todayKey zone) tally' =
          .error e) := by
  induction lessonIds generalizing tally tally' with
  | nil =>
      rw [← Except.ok.inj h]
      exact Or.inl ⟨tally', rfl, hahead⟩
  | cons id lessonIds ih =>
      rw [List.foldlM_cons] at h ⊢
      obtain ⟨middle, hfirst, h⟩ := Text.bind_eq_ok.mp h
      have hstep := tallyLesson_ahead (hlessons id List.mem_cons_self) hahead hfirst
      obtain ⟨middle', hmiddle, hnext⟩ | ⟨hlate, e, he⟩ := hstep
      · rw [hmiddle]
        apply ih
        · intro other hmem
          exact hlessons other (List.mem_cons_of_mem id hmem)
        · exact hnext
        · exact h
      · rw [he]
        exact Or.inr ⟨hlate, e, rfl⟩

/-- The loop counts no lesson twice, and counts all of them only if each counts. -/
theorem foldlM_completed
    (h : lessonIds.foldlM (tallyLesson dateParse newest validityMonths todayKey zone) tally =
      .ok result) :
    result.completed ≤ tally.completed + lessonIds.length ∧
      ∀ id ∈ lessonIds, ∃ state,
        knownState dateParse (newest.get? id) validityMonths todayKey zone = .ok state ∧
        (result.completed = tally.completed + lessonIds.length → state.counts = true) := by
  induction lessonIds generalizing tally with
  | nil =>
      rw [← Except.ok.inj h]
      exact ⟨le_rfl, fun id hmem => absurd hmem List.not_mem_nil⟩
  | cons id lessonIds ih =>
      rw [List.foldlM_cons] at h
      cases hstate : knownState dateParse (newest.get? id) validityMonths todayKey zone with
      | error e =>
          rw [tallyLesson_error hstate] at h
          cases h
      | ok state =>
          rw [tallyLesson_ok hstate] at h
          have hrest := ih h
          have hadd : (tally.add dateParse state (newest.get? id)).completed ≤ tally.completed + 1 ∧
              ((tally.add dateParse state (newest.get? id)).completed = tally.completed + 1 →
                state.counts = true) := by
            unfold Tally.add
            dsimp only
            cases state.counts <;> simp
          rw [List.length_cons]
          constructor
          · omega
          · intro other hmem
            obtain rfl | htail := List.mem_cons.mp hmem
            · exact ⟨state, hstate, fun hall => hadd.2 (by omega)⟩
            · obtain ⟨otherState, hother, hcounts⟩ := hrest.2 other htail
              exact ⟨otherState, hother, fun hall => hcounts (by omega)⟩

/-! ## The answer for a course -/

/-- The course counts for the user today. -/
def CourseValidity.Counts (validity : CourseValidity) : Prop :=
  validity.status = .done ∨ validity.status = .dueSoon

/-- What a course's answer says of its tally. -/
structure Concluded (total : Nat) (validityMonths : Option Nat) (tally : Tally)
    (validity : CourseValidity) : Prop where
  counts : validity.Counts ↔ 0 < total ∧ tally.completed = total
  due : validity.dueKey = if (0 < total ∧ tally.completed = total) ∨
    (tally.allHaveReceipts = true ∧ validityMonths.getD 0 ≠ 0) then tally.dueKey else none

theorem isSoon_ok (h : Told todayKey dueKey) : ∃ soon, isSoon todayKey dueKey = .ok soon := by
  cases dueKey with
  | none => exact ⟨false, rfl⟩
  | some due =>
      obtain ⟨hdue, htoday⟩ := h due rfl
      obtain ⟨day, hday, rfl⟩ := key_of_isPlainDate hdue
      obtain ⟨today, hwritten, rfl⟩ := key_of_isPlainDate htoday
      have hdays := daysBetweenKeys_key hwritten hday
      exact ⟨day.dayNumber - today.dayNumber ≤ RENEWAL_WINDOW_DAYS, by
        simp only [isSoon, hdays, bind, Except.bind, pure, Except.pure]⟩

theorem concluded_of_courseValidity
    (h : courseValidity dateParse newest validityMonths todayKey zone lessonIds = .ok validity) :
    ∃ tally, lessonIds.foldlM (tallyLesson dateParse newest validityMonths todayKey zone)
        { completed := 0, allHaveReceipts := 0 < lessonIds.length, dueKey := none,
          completedAt := none } = .ok tally ∧
      Concluded lessonIds.length validityMonths tally validity := by
  unfold courseValidity at h
  obtain ⟨tally, hfold, h⟩ := Text.bind_eq_ok.mp h
  refine ⟨tally, hfold, ?_⟩
  by_cases hall : 0 < lessonIds.length ∧ tally.completed = lessonIds.length
  · rw [if_pos hall] at h
    obtain ⟨soon, hsoon, h⟩ := Text.bind_eq_ok.mp h
    rw [← Except.ok.inj h]
    constructor
    · cases soon <;> simp [CourseValidity.Counts, hall]
    · rw [if_pos (Or.inl hall)]
  · rw [if_neg hall] at h
    split at h
    · rename_i hexpired
      rw [← Except.ok.inj h]
      constructor
      · simp [CourseValidity.Counts, hall]
      · rw [if_pos (Or.inr hexpired)]
    · rename_i hopen
      rw [← Except.ok.inj h]
      constructor
      · simp [CourseValidity.Counts, hall]
      · rw [if_neg (by tauto)]

theorem courseValidity_of_tally
    (h : lessonIds.foldlM (tallyLesson dateParse newest validityMonths todayKey zone)
      { completed := 0, allHaveReceipts := 0 < lessonIds.length, dueKey := none,
        completedAt := none } = .ok tally) (htold : Told todayKey tally.dueKey) :
    ∃ validity, courseValidity dateParse newest validityMonths todayKey zone lessonIds =
      .ok validity := by
  obtain ⟨soon, hsoon⟩ := isSoon_ok htold
  unfold courseValidity
  rw [h]
  simp only [bind, Except.bind, pure, Except.pure, hsoon]
  split
  · exact ⟨_, rfl⟩
  · split <;> exact ⟨_, rfl⟩

theorem courseValidity_error
    (h : lessonIds.foldlM (tallyLesson dateParse newest validityMonths todayKey zone)
      { completed := 0, allHaveReceipts := 0 < lessonIds.length, dueKey := none,
        completedAt := none } = .error e) :
    courseValidity dateParse newest validityMonths todayKey zone lessonIds = .error e := by
  unfold courseValidity
  rw [h]
  rfl

/-- A receipt more keeps a course that counts, and moves its due day forward if
at all, when it does no harm to any of its lessons. -/
theorem courseValidity_improves (hlessons : ∀ id ∈ lessonIds,
      LessonImproves dateParse newest newest' validityMonths todayKey zone completedAt id)
    (h : courseValidity dateParse newest validityMonths todayKey zone lessonIds = .ok validity) :
    (∃ after, courseValidity dateParse newest' validityMonths todayKey zone lessonIds = .ok after ∧
        (validity.Counts → after.Counts) ∧
        ∀ due, validity.dueKey = some due → ∃ later, after.dueKey = some later ∧ due ≤ later) ∨
      (IsLate zone validityMonths completedAt ∧ ∃ e,
        courseValidity dateParse newest' validityMonths todayKey zone lessonIds = .error e) := by
  obtain ⟨tally, hfold, hconcluded⟩ := concluded_of_courseValidity h
  have hstart : Ahead todayKey
      { completed := 0, allHaveReceipts := 0 < lessonIds.length, dueKey := none,
        completedAt := none }
      { completed := 0, allHaveReceipts := 0 < lessonIds.length, dueKey := none,
        completedAt := none } := by
    have hnone : Told todayKey none := by
      intro due hdue
      cases hdue
    exact ⟨le_rfl, id, trivial, hnone, hnone⟩
  obtain ⟨tally', hfold', hahead⟩ | ⟨hlate, e, he⟩ := foldlM_ahead hlessons hstart hfold
  · left
    obtain ⟨after, hafter⟩ := courseValidity_of_tally hfold' hahead.told_after
    obtain ⟨last, hlast, hconcluded'⟩ := concluded_of_courseValidity hafter
    have hsame : last = tally' := by
      rw [hfold'] at hlast
      exact (Except.ok.inj hlast).symm
    rw [hsame] at hconcluded'
    have hcompleted := (foldlM_completed hfold').1
    have hle := hahead.completed
    dsimp only at hcompleted
    refine ⟨after, hafter, ?_, ?_⟩
    · intro hcounts
      have hall := hconcluded.counts.mp hcounts
      exact hconcluded'.counts.mpr ⟨hall.1, by omega⟩
    · intro due hdue
      rw [hconcluded.due] at hdue
      split at hdue
      · rename_i hreported
        have hreported' : (0 < lessonIds.length ∧ tally'.completed = lessonIds.length) ∨
            (tally'.allHaveReceipts = true ∧ validityMonths.getD 0 ≠ 0) := by
          obtain hall | hexpired := hreported
          · exact Or.inl ⟨hall.1, by omega⟩
          · exact Or.inr ⟨hahead.haveReceipts hexpired.1, hexpired.2⟩
        have hdueLe := hahead.due
        rw [hdue] at hdueLe
        rw [hconcluded'.due, if_pos hreported']
        cases hlater : tally'.dueKey with
        | none =>
            rw [hlater] at hdueLe
            exact absurd hdueLe id
        | some later =>
            rw [hlater] at hdueLe
            exact ⟨later, rfl, hdueLe⟩
      · cases hdue
  · exact Or.inr ⟨hlate, e, courseValidity_error he⟩

/-! ## Rows of receipts -/

/-- A lesson's state from the rows of receipts. -/
def lessonFromRows (dateParse : String → Option Int) (validityMonths : Option Nat)
    (todayKey : String) (zone : Zone) (rows : List ReceiptRow) (id : String) :
    Except RangeError LessonReceiptState :=
  lessonReceiptState dateParse ((newestReceipts dateParse rows).get? id).join
    ((newestReceipts dateParse rows).get? id).isSome validityMonths todayKey zone

/-- A course's validity from the rows of receipts. -/
def courseFromRows (dateParse : String → Option Int) (validityMonths : Option Nat)
    (todayKey : String) (zone : Zone) (lessonIds : List String) (rows : List ReceiptRow) :
    Except RangeError CourseValidity :=
  courseValidity dateParse (newestReceipts dateParse rows) validityMonths todayKey zone lessonIds

/-- The rows with one more among them, in any order. -/
def OneMore (rows : List ReceiptRow) (row : ReceiptRow) (rows' : List ReceiptRow) : Prop :=
  rows'.Perm (row :: rows)

theorem isSome_oneMore (hread : ReadsCanonical dateParse) (hrows : CanonicalRows (row :: rows))
    (hmore : OneMore rows row rows') (h : ((newestReceipts dateParse rows).get? id).isSome = true) :
    ((newestReceipts dateParse rows').get? id).isSome = true := by
  rw [get?_newestReceipts_cons hread hrows hmore]
  split
  · cases hknown : (newestReceipts dateParse rows).get? id <;> rfl
  · exact h

theorem dueLe_refl (dueKey : Option String) : DueLe dueKey dueKey := by
  cases dueKey with
  | none => trivial
  | some due => exact le_rfl

/-- A lesson that counts or has a due day is done no harm by a row more. -/
theorem lesson_improves (hread : ReadsCanonical dateParse) (hzone : zone.NeverBackwards)
    (hrows : CanonicalRows (row :: rows)) (hmore : OneMore rows row rows')
    (h : lessonFromRows dateParse validityMonths todayKey zone rows id = .ok state)
    (hdone : IsDone state) :
    LessonImproves dateParse (newestReceipts dateParse rows) (newestReceipts dateParse rows')
      validityMonths todayKey zone row.completedAt id := by
  have hcanonical : CanonicalRows rows := by
    intro other hmem
    exact hrows other (List.mem_cons_of_mem row hmem)
  have hcanonical' : CanonicalRows rows' := by
    intro other hmem
    exact hrows other (hmore.subset hmem)
  have hkept (kept : Option String)
      (hkept : (newestReceipts dateParse rows).get? id = some kept) : IsCanonical kept :=
    isCanonical_kept hcanonical hkept
  have htold := told_state hread hkept h
  refine ⟨state, h, htold, isSome_oneMore hread hrows hmore, ?_⟩
  have hknown := get?_newestReceipts_cons hread hrows hmore id
  by_cases hrow : row.isFor id = true
  · rw [if_pos hrow] at hknown
    have himproves := knownState_improves hread hzone hkept (hrows row List.mem_cons_self) h hdone
    rw [← hknown] at himproves
    obtain ⟨after, hafter, hcounts, hdue⟩ | hlate := himproves
    · left
      refine ⟨after, hafter, ?_, hcounts, hdue⟩
      exact told_state hread (fun kept heq => isCanonical_kept hcanonical' heq) hafter
    · exact Or.inr hlate
  · rw [if_neg hrow] at hknown
    left
    refine ⟨state, ?_, htold, fun hcounts => hcounts, dueLe_refl state.dueKey⟩
    rw [hknown]
    exact h

/-- The newest receipt of the lesson has a completion instant. -/
def IsDated (dateParse : String → Option Int) (rows : List ReceiptRow) (id : String) : Prop :=
  ∃ instant, (newestReceipts dateParse rows).get? id = some (some instant)

theorem isDone_of_isDated (hread : ReadsCanonical dateParse) (hrows : CanonicalRows rows)
    (hdated : IsDated dateParse rows id)
    (h : lessonFromRows dateParse validityMonths todayKey zone rows id = .ok state) :
    IsDone state := by
  obtain ⟨text, hkept⟩ := hdated
  obtain ⟨instant, rfl⟩ := isCanonical_kept hrows hkept text rfl
  rw [lessonFromRows, hkept, Option.join_some, Option.isSome_some] at h
  cases hmonths : validityMonths.getD 0 with
  | zero =>
      have hstate : knownState dateParse (some (some instant.toISOString)) validityMonths todayKey
          zone = _ := knownState_unlimited hmonths (some instant.toISOString) todayKey zone
      rw [knownState, Option.join_some, Option.isSome_some, h] at hstate
      rw [Except.ok.inj hstate]
      exact Or.inl rfl
  | succ months =>
      have hsome : validityMonths = some (months + 1) := by
        cases validityMonths with
        | none => cases hmonths
        | some n => rw [← hmonths, Option.getD_some]
      rw [hsome] at h
      obtain ⟨_, _, today, _, _, hstate⟩ := written_of_state hread h
      rw [hstate]
      exact Or.inr (Option.some_ne_none _)

/-- A lesson that does not count may be completed. -/
theorem mayComplete_of_not_counts (hread : ReadsCanonical dateParse) (hrows : CanonicalRows rows)
    (h : lessonFromRows dateParse validityMonths todayKey zone rows id = .ok state)
    (hcounts : state.counts = false) : state.mayComplete = true := by
  cases hknown : (newestReceipts dateParse rows).get? id with
  | none =>
      rw [lessonFromRows, hknown] at h
      rw [← Except.ok.inj h]
  | some kept =>
      have hstate : knownState dateParse (some kept) validityMonths todayKey zone = .ok state := by
        rw [← hknown]
        exact h
      match validityMonths with
      | none | some 0 =>
          rw [knownState_unlimited rfl] at hstate
          rw [← Except.ok.inj hstate] at hcounts
          cases hcounts
      | some (months + 1) =>
          cases kept with
          | none => rw [← Except.ok.inj hstate]
          | some text =>
              obtain ⟨instant, rfl⟩ := isCanonical_kept hrows hknown text rfl
              obtain ⟨_, _, today, _, _, rfl⟩ := written_of_state hread hstate
              have hpast := of_decide_eq_false hcounts
              apply decide_eq_true
              unfold RENEWAL_WINDOW_DAYS
              omega

/-- The order of the rows does not matter, a row more keeps what counted and
moves no due day earlier, and what does not count may be completed. -/
theorem training_validity_improves (hread : ReadsCanonical dateParse)
    (hzone : zone.NeverBackwards) (lessonIds : List String) {rows : List ReceiptRow}
    (hrows : CanonicalRows rows) :
    (∀ rows', rows'.Perm rows →
      courseFromRows dateParse validityMonths todayKey zone lessonIds rows' =
        courseFromRows dateParse validityMonths todayKey zone lessonIds rows) ∧
    (∀ row rows', IsCanonical row.completedAt → OneMore rows row rows' →
      (∀ id state, lessonFromRows dateParse validityMonths todayKey zone rows id = .ok state →
        (state.counts = true ∨ state.dueKey ≠ none) →
        (∃ after, lessonFromRows dateParse validityMonths todayKey zone rows' id = .ok after ∧
          (state.counts = true → after.counts = true) ∧
          ∀ due, state.dueKey = some due → ∃ later, after.dueKey = some later ∧ due ≤ later) ∨
        (IsLate zone validityMonths row.completedAt ∧ ∃ e,
          lessonFromRows dateParse validityMonths todayKey zone rows' id = .error e)) ∧
      (∀ validity,
        courseFromRows dateParse validityMonths todayKey zone lessonIds rows = .ok validity →
        (validity.Counts ∨ ∀ id ∈ lessonIds, IsDated dateParse rows id) →
        (∃ after,
          courseFromRows dateParse validityMonths todayKey zone lessonIds rows' = .ok after ∧
          (validity.Counts → after.Counts) ∧
          ∀ due, validity.dueKey = some due → ∃ later, after.dueKey = some later ∧ due ≤ later) ∨
        (IsLate zone validityMonths row.completedAt ∧ ∃ e,
          courseFromRows dateParse validityMonths todayKey zone lessonIds rows' = .error e))) ∧
    (∀ id state, lessonFromRows dateParse validityMonths todayKey zone rows id = .ok state →
      state.counts = false → state.mayComplete = true) := by
  refine ⟨?_, ?_, ?_⟩
  · intro rows' hperm
    apply courseValidity_congr
    intro id
    exact (get?_newestReceipts_perm hread hrows hperm.symm id).symm
  · intro row rows' hrow hmore
    have hall : CanonicalRows (row :: rows) := by
      intro other hmem
      obtain rfl | htail := List.mem_cons.mp hmem
      · exact hrow
      · exact hrows other htail
    constructor
    · intro id state hstate hdone
      obtain ⟨before, hbefore, _, _, ⟨after, hafter, _, hcounts, hdue⟩ | hlate⟩ :=
        lesson_improves hread hzone hall hmore hstate hdone
      · left
        have hsame : before = state := Except.ok.inj (hbefore.symm.trans hstate)
        rw [hsame] at hcounts hdue
        refine ⟨after, hafter, hcounts, ?_⟩
        intro due hsome
        rw [hsome] at hdue
        cases hlater : after.dueKey with
        | none =>
            rw [hlater] at hdue
            exact hdue.elim
        | some later =>
            rw [hlater] at hdue
            exact ⟨later, rfl, hdue⟩
      · exact Or.inr hlate
    · intro validity hvalidity hcounted
      apply courseValidity_improves _ hvalidity
      intro id hmem
      obtain ⟨tally, hfold, hconcluded⟩ := concluded_of_courseValidity hvalidity
      obtain ⟨state, hstate, hcounts⟩ := (foldlM_completed hfold).2 id hmem
      apply lesson_improves hread hzone hall hmore hstate
      obtain hcounts' | hdated := hcounted
      · have hfull := (hconcluded.counts.mp hcounts').2
        exact Or.inl (hcounts (by dsimp only; omega))
      · exact isDone_of_isDated hread hrows (hdated id hmem) hstate
  · intro id state hstate hcounts
    exact mayComplete_of_not_counts hread hrows hstate hcounts

end

/-! ## A course of two lessons -/

/-- The instants of the receipts below, at ten in the morning. -/
def tenOClock (date : Date) (hnonneg : 0 ≤ date.year) (hle : date.year ≤ 9999) : Instant :=
  { date, hour := 10, minute := 0, second := 0, milli := 0, year_nonneg := hnonneg, year_le := hle
    hour_le := by omega, minute_le := by omega, second_le := by omega, milli_le := by omega }

theorem isCanonical_of_text {instant : Instant} {text : String} (h : instant.toISOString = text) :
    IsCanonical (some text) := by
  intro text' htext
  exact ⟨instant, by rw [← Option.some.inj htext, h]⟩

def jan2026 : Instant :=
  tenOClock ⟨2026, 1, 31, by decide, by decide, by decide, by decide⟩ (by decide) (by decide)

def feb2024 : Instant :=
  tenOClock ⟨2024, 2, 29, by decide, by decide, by decide, by decide⟩ (by decide) (by decide)

def jan9999 : Instant :=
  tenOClock ⟨9999, 1, 31, by decide, by decide, by decide, by decide⟩ (by decide) (by decide)

/-- What is read off the receipts below. -/
theorem sample_courses :
    jan2026.toISOString = "2026-01-31T10:00:00.000Z" ∧
    feb2024.toISOString = "2024-02-29T10:00:00.000Z" ∧
    jan9999.toISOString = "9999-01-31T10:00:00.000Z" ∧
    courseFromRows parseCanonical (some 12) "2026-06-01" utc ["a"]
        [⟨some "a", some "2024-02-29T10:00:00.000Z"⟩,
          ⟨some "a", some "2026-01-31T10:00:00.000Z"⟩] =
      .ok ⟨1, 1, .done, some "2027-01-31", some "2026-01-31T10:00:00.000Z"⟩ ∧
    courseFromRows parseCanonical (some 12) "2027-06-01" utc ["a", "b"]
        [⟨some "a", some "2026-01-31T10:00:00.000Z"⟩, ⟨some "b", none⟩] =
      .ok ⟨2, 0, .expired, some "2027-01-31", none⟩ ∧
    courseFromRows parseCanonical (some 12) "2027-06-01" utc ["a", "b"]
        [⟨some "b", some "2024-02-29T10:00:00.000Z"⟩,
          ⟨some "a", some "2026-01-31T10:00:00.000Z"⟩, ⟨some "b", none⟩] =
      .ok ⟨2, 0, .expired, some "2025-02-28", none⟩ ∧
    ("2025-02-28" : String) < "2027-01-31" ∧
    lessonFromRows parseCanonical (some 12) "2026-06-01" utc
        [⟨some "a", some "2026-01-31T10:00:00.000Z"⟩, ⟨some "b", none⟩] "a" =
      .ok ⟨true, false, some "2027-01-31"⟩ ∧
    lessonFromRows parseCanonical (some 12) "2026-06-01" utc
        [⟨some "a", some "9999-01-31T10:00:00.000Z"⟩,
          ⟨some "a", some "2026-01-31T10:00:00.000Z"⟩, ⟨some "b", none⟩] "a" =
      .error (.notCalendarDate "10000-01-31") := by
  decide +kernel

theorem isCanonical_2026 : IsCanonical (some "2026-01-31T10:00:00.000Z") :=
  isCanonical_of_text sample_courses.1

theorem isCanonical_2024 : IsCanonical (some "2024-02-29T10:00:00.000Z") :=
  isCanonical_of_text sample_courses.2.1

/-- A course of one lesson that was done twice and is done a third time. -/
theorem training_validity_improves_renewal :
    courseFromRows parseCanonical (some 12) "2026-06-01" utc ["a"]
        [⟨some "a", some "2026-01-31T10:00:00.000Z"⟩, ⟨some "a", some "2024-02-29T10:00:00.000Z"⟩] =
      courseFromRows parseCanonical (some 12) "2026-06-01" utc ["a"]
        [⟨some "a", some "2024-02-29T10:00:00.000Z"⟩,
          ⟨some "a", some "2026-01-31T10:00:00.000Z"⟩] ∧
    ∃ after, courseFromRows parseCanonical (some 12) "2026-06-01" utc ["a"]
        [⟨some "a", none⟩, ⟨some "a", some "2024-02-29T10:00:00.000Z"⟩,
          ⟨some "a", some "2026-01-31T10:00:00.000Z"⟩] = .ok after ∧ after.Counts := by
  have hrows : CanonicalRows [⟨some "a", some "2024-02-29T10:00:00.000Z"⟩,
      ⟨some "a", some "2026-01-31T10:00:00.000Z"⟩] := by
    intro row hmem
    obtain rfl | rfl := List.mem_pair.mp hmem
    · exact isCanonical_2024
    · exact isCanonical_2026
  obtain ⟨horder, hmore, -⟩ := @training_validity_improves parseCanonical (some 12) "2026-06-01" utc
    readsCanonical_parseCanonical utc_neverBackwards ["a"] _ hrows
  constructor
  · exact horder _ (List.Perm.swap _ _ [])
  · have hcourse := (hmore ⟨some "a", none⟩ _ (fun _ hnone => nomatch hnone)
      (List.Perm.refl _)).2 ⟨1, 1, .done, some "2027-01-31", some "2026-01-31T10:00:00.000Z"⟩
      sample_courses.2.2.2.1 (Or.inl (Or.inl rfl))
    obtain ⟨after, hafter, hcounts, -⟩ | ⟨⟨_, hnone, _⟩, _⟩ := hcourse
    · exact ⟨after, hafter, hcounts (Or.inl rfl)⟩
    · cases hnone

/-- A receipt more gives the course an earlier due day when it is the first of
its lesson with a completion instant, and one that falls due after the year 9999
leaves a lesson that counted without an answer. -/
theorem due_day_moves_earlier :
    ReadsCanonical parseCanonical ∧ utc.NeverBackwards ∧
    CanonicalRows [⟨some "a", some "2026-01-31T10:00:00.000Z"⟩, ⟨some "b", none⟩] ∧
    IsCanonical (some "2024-02-29T10:00:00.000Z") ∧ IsCanonical (some "9999-01-31T10:00:00.000Z") ∧
    courseFromRows parseCanonical (some 12) "2027-06-01" utc ["a", "b"]
        [⟨some "a", some "2026-01-31T10:00:00.000Z"⟩, ⟨some "b", none⟩] =
      .ok ⟨2, 0, .expired, some "2027-01-31", none⟩ ∧
    courseFromRows parseCanonical (some 12) "2027-06-01" utc ["a", "b"]
        [⟨some "b", some "2024-02-29T10:00:00.000Z"⟩,
          ⟨some "a", some "2026-01-31T10:00:00.000Z"⟩, ⟨some "b", none⟩] =
      .ok ⟨2, 0, .expired, some "2025-02-28", none⟩ ∧
    ("2025-02-28" : String) < "2027-01-31" ∧
    lessonFromRows parseCanonical (some 12) "2026-06-01" utc
        [⟨some "a", some "2026-01-31T10:00:00.000Z"⟩, ⟨some "b", none⟩] "a" =
      .ok ⟨true, false, some "2027-01-31"⟩ ∧
    lessonFromRows parseCanonical (some 12) "2026-06-01" utc
        [⟨some "a", some "9999-01-31T10:00:00.000Z"⟩,
          ⟨some "a", some "2026-01-31T10:00:00.000Z"⟩, ⟨some "b", none⟩] "a" =
      .error (.notCalendarDate "10000-01-31") := by
  obtain ⟨-, -, h9999, -, hevaluated⟩ := sample_courses
  refine ⟨readsCanonical_parseCanonical, utc_neverBackwards, ?_, isCanonical_2024,
    isCanonical_of_text h9999, hevaluated⟩
  intro row hmem
  obtain rfl | rfl := List.mem_pair.mp hmem
  · exact isCanonical_2026
  · exact fun _ hnone => nomatch hnone

end Sinnlos.Domain

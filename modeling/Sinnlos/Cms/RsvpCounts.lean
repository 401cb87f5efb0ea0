import Mathlib.Data.Finset.Card
import Sinnlos.Cms.RsvpSeats

/-! # The seats a summary shows

The summary and the capacity gate group the rows of an event on their own: one by
a text key that falls back to the row, the other by the user. Both take the newest
row of a person, so they count the same people; the summary adds the answers whose
user is gone.
-/

namespace Sinnlos.Cms.Rsvp

variable {dateParse : String → Option Int} {targets : List String} {rows : List RsvpRow}
  {target : String}

/-- The rows of one event, as the capacity gate reads them. -/
def answersTo (rows : List RsvpRow) (target : String) : List RsvpRow :=
  rows.filter fun row => row.targetDocumentId == some target

/-- An answer whose user is gone. -/
def ofNobody (row : RsvpRow) : Bool := rowUserId row == none

def saysYes (row : RsvpRow) : Bool := row.status == some "yes"

/-- A yes to an event. -/
def yesTo (target : String) (row : RsvpRow) : Bool :=
  row.targetDocumentId == some target && saysYes row

variable {row : RsvpRow} {userId : Nat} {key : String}

theorem mem_answersTo :
    row ∈ answersTo rows target ↔ row ∈ rows ∧ row.targetDocumentId = some target := by
  simp [answersTo]

/-! ## The count of a summary -/

theorem yesCount_tally (callerId : Option Nat) (summary : RsvpSummary) (status : RsvpStatus)
    (row : RsvpRow) :
    (tally callerId summary status row).yesCount =
      summary.yesCount + if status = .yes then 1 else 0 := by
  unfold tally
  by_cases hown : callerId ≠ none ∧ rowUserId row = callerId
  · cases status <;> simp [hown]
  · cases status <;> simp [hown]

theorem rsvpStatus_eq_yes {status : Option String} :
    rsvpStatus status = some .yes ↔ status = some "yes" := by
  constructor
  · exact rsvpStatus_yes
  · intro h
    rw [h]
    rfl

variable {summary : RsvpSummary}

/-- One survivor adds one to the count of its event if it says yes. -/
theorem addAnswer_yesCount (callerId : Option Nat) {byTarget : OrderedMap String RsvpSummary}
    (row : RsvpRow) (h : byTarget.get? target = some summary) :
    ∃ summary', (addAnswer callerId byTarget row).get? target = some summary' ∧
      summary'.yesCount = summary.yesCount + if yesTo target row then 1 else 0 := by
  unfold addAnswer yesTo saysYes
  cases htarget : row.targetDocumentId with
  | none => exact ⟨summary, h, by simp⟩
  | some other =>
      dsimp only
      by_cases hsame : other = target
      · subst hsame
        rw [h]
        cases hstatus : rsvpStatus row.status with
        | none =>
            have hno : ¬ row.status = some "yes" := by
              rw [← rsvpStatus_eq_yes, hstatus]
              exact fun heq => nomatch heq
            exact ⟨summary, h, by simp [hno]⟩
        | some status =>
            dsimp only
            refine ⟨_, OrderedMap.get?_set_self _ _ _, ?_⟩
            rw [yesCount_tally]
            have hyes : status = .yes ↔ row.status = some "yes" := by
              rw [← rsvpStatus_eq_yes, hstatus, Option.some.injEq]
            simp [hyes]
      · have hne : ¬ some other = some target := fun heq => hsame (Option.some.inj heq)
        refine ⟨summary, ?_, by simp [hsame]⟩
        cases byTarget.get? other with
        | none => exact h
        | some found =>
            cases rsvpStatus row.status with
            | none => exact h
            | some status => exact (OrderedMap.get?_set_of_ne _ _ (Ne.symm hsame)).trans h

theorem foldl_yesCount (callerId : Option Nat) (list : List RsvpRow) :
    ∀ {byTarget : OrderedMap String RsvpSummary} {summary : RsvpSummary},
      byTarget.get? target = some summary →
      ∃ summary', (list.foldl (addAnswer callerId) byTarget).get? target = some summary' ∧
        summary'.yesCount = summary.yesCount + list.countP fun row => yesTo target row := by
  induction list with
  | nil => exact fun h => ⟨_, h, rfl⟩
  | cons row list ih =>
      intro byTarget summary h
      obtain ⟨next, hnext, hcount⟩ := addAnswer_yesCount callerId row h
      obtain ⟨last, hlast, htotal⟩ := ih hnext
      refine ⟨last, hlast, ?_⟩
      rw [htotal, hcount, List.countP_cons]
      omega

/-- A summary counts the survivors that say yes to its event. -/
theorem yesCount_of_summary {callerId : Option Nat}
    (h : summary ∈ summarizeRsvps dateParse rows targets callerId) :
    summary.targetDocumentId ∈ targets ∧ summary.yesCount =
      (survivors dateParse rows targets).countP fun row =>
        yesTo summary.targetDocumentId row := by
  unfold summarizeRsvps at h
  dsimp only at h
  obtain ⟨target, hmem, hsummary⟩ := List.mem_map.mp h
  have hstart : (emptySummaries targets).get? target = some (unanswered target) := by
    rw [get?_emptySummaries, if_pos hmem]
  obtain ⟨found, hfound, hcount⟩ :=
    foldl_yesCount callerId (survivors dateParse rows targets) hstart
  have hnames := @foldl_namesAttendees callerId _ (survivors dateParse rows targets)
    (emptySummaries targets)
    (emptySummaries_namesAttendees (survivors dateParse rows targets) targets) fun _ hr => hr
  rw [hfound, Option.getD_some] at hsummary
  subst hsummary
  obtain ⟨hid, -⟩ := hnames target found hfound
  rw [hid]
  exact ⟨hmem, by rw [hcount]; exact Nat.zero_add _⟩

/-! ## The groups of the summary -/

/-- The group of a key has a survivor that says yes to `target`. -/
def groupSaysYes (dateParse : String → Option Int) (target : String) (list : List RsvpRow) : Bool :=
  (pickSurvivor dateParse list).any fun row => yesTo target row

/-- The survivors that say yes are counted group by group. -/
theorem countP_survivors : (survivors dateParse rows targets).countP
      (fun row => yesTo target row) =
    (collectAnswers (emptySummaries targets) rows).count (groupSaysYes dateParse target) := by
  have hperm : (survivors dateParse rows targets).Perm (picked dateParse targets rows) :=
    List.perm_insertionSort (Older dateParse) (picked dateParse targets rows)
  rw [hperm.countP_eq, picked, List.countP_filterMap]
  unfold OrderedMap.count
  congr 1
  funext list
  unfold groupSaysYes
  cases pickSurvivor dateParse list with
  | none => rfl
  | some row => rfl

/-- The key of a user's answers. -/
def userKey (target : String) (userId : Nat) : String :=
  target ++ "\u0000" ++ toString userId

theorem answerKey_of_user (h : rowUserId row = some userId) :
    answerKey target row = userKey target userId := by
  rw [answerKey, h]
  rfl

theorem userKey_injective {u v : Nat} (h : userKey target u = userKey target v) : u = v :=
  Text.toString_injective (String.append_right_inj (s := target ++ "\u0000") |>.mp h)

/-- The key of an answer of nobody. -/
def nobodyKey (target : String) (id : Nat) : String :=
  target ++ "\u0000" ++ ("row-" ++ toString id)

theorem answerKey_of_nobody (h : ofNobody row = true) :
    answerKey target row = nobodyKey target row.id := by
  rw [answerKey, eq_of_beq h]
  rfl

theorem nobodyKey_injective {i j : Nat} (h : nobodyKey target i = nobodyKey target j) : i = j := by
  have hrow := String.append_right_inj (s := target ++ "\u0000") |>.mp h
  exact Text.toString_injective (String.append_right_inj (s := "row-") |>.mp hrow)

/-- The rows of a key are those of its event and its person. -/
theorem mem_rowsOf_answerKey {other : RsvpRow} (hmem : target ∈ targets)
    (htarget : row.targetDocumentId = some target) :
    other ∈ rowsOf targets rows (answerKey target row) ↔
      other ∈ answersTo rows target ∧ SamePerson other row := by
  have hkey : collectedKey targets row = some (answerKey target row) :=
    collectedKey_eq_some.mpr ⟨target, hmem, htarget, rfl⟩
  rw [mem_rowsOf, collectedKey_eq hkey, mem_answersTo, htarget]
  exact and_assoc.symm

/-- Among the rows of a user stands only what the gate reads of the user. -/
theorem rowsOf_user (hmem : target ∈ targets) (htarget : row.targetDocumentId = some target)
    (huser : rowUserId row = some userId) :
    rowsOf targets rows (answerKey target row) = ofUser (answersTo rows target) userId := by
  have hkey : collectedKey targets row = some (answerKey target row) :=
    collectedKey_eq_some.mpr ⟨target, hmem, htarget, rfl⟩
  unfold rowsOf ofUser answersTo
  rw [List.filter_filter]
  apply List.filter_congr
  intro other _
  rw [Bool.eq_iff_iff, decide_eq_true_eq, collectedKey_eq hkey, Bool.and_eq_true, beq_iff_eq,
    beq_iff_eq, htarget, SamePerson, huser]
  constructor
  · exact fun h => ⟨h.2.1, h.1⟩
  · exact fun h => ⟨h.2, h.1, fun hnone => nomatch h.1.symm.trans hnone⟩

/-! ## The two counts -/

/-- The people of an event with a yes, by the key of each. -/
def userKeys (dateParse : String → Option Int) (rows : List RsvpRow) (target : String) :
    Finset String :=
  (seatSet dateParse (answersTo rows target)).image (userKey target)

/-- The rows of an event that say yes for nobody. -/
def yesOfNobody (rows : List RsvpRow) (target : String) : List RsvpRow :=
  (answersTo rows target).filter fun row => ofNobody row && saysYes row

def nobodyKeys (rows : List RsvpRow) (target : String) : Finset String :=
  ((yesOfNobody rows target).map RsvpRow.id).toFinset.image (nobodyKey target)

theorem mem_yesOfNobody : row ∈ yesOfNobody rows target ↔
    row ∈ answersTo rows target ∧ ofNobody row = true ∧ saysYes row = true := by
  rw [yesOfNobody, List.mem_filter, Bool.and_eq_true]

theorem mem_userKeys : key ∈ userKeys dateParse rows target ↔
    ∃ userId, answerIn dateParse (ofUser (answersTo rows target) userId) = some "yes" ∧
      userKey target userId = key := by
  simp only [userKeys, Finset.mem_image, mem_seatSet]

theorem mem_nobodyKeys : key ∈ nobodyKeys rows target ↔
    ∃ row ∈ yesOfNobody rows target, answerKey target row = key := by
  simp only [nobodyKeys, Finset.mem_image, List.mem_toFinset, List.mem_map]
  constructor
  · intro h
    obtain ⟨_, ⟨row, hrow, rfl⟩, hkey⟩ := h
    exact ⟨row, hrow, (answerKey_of_nobody (mem_yesOfNobody.mp hrow).2.1).trans hkey⟩
  · intro h
    obtain ⟨row, hrow, hkey⟩ := h
    exact ⟨_, ⟨row, hrow, rfl⟩, (answerKey_of_nobody (mem_yesOfNobody.mp hrow).2.1).symm.trans hkey⟩

/-- A counted yes of a user is that of a row of the user. -/
theorem exists_row_of_answerIn {list : List RsvpRow}
    (h : answerIn dateParse (ofUser list userId) = some "yes") :
    ∃ row ∈ list, rowUserId row = some userId ∧ saysYes row = true ∧
      pickSurvivor dateParse (ofUser list userId) = some row := by
  obtain ⟨row, hpick, hstatus⟩ := Option.bind_eq_some_iff.mp h
  obtain ⟨hrow, huser⟩ := List.mem_filter.mp (pickSurvivor_newest hpick).1
  exact ⟨row, hrow, eq_of_beq huser, by rw [saysYes, hstatus]; rfl, hpick⟩

/-- The keys whose survivor says yes are those of the seats and those of nobody. -/
theorem groupSaysYes_iff (hmem : target ∈ targets)
    (nobody : (((answersTo rows target).filter ofNobody).map RsvpRow.id).Nodup) :
    groupSaysYes dateParse target (rowsOf targets rows key) = true ↔
      key ∈ userKeys dateParse rows target ∨ key ∈ nobodyKeys rows target := by
  rw [mem_userKeys, mem_nobodyKeys, groupSaysYes, Option.any_eq_true]
  constructor
  · intro h
    obtain ⟨row, hpick, hyes⟩ := h
    obtain ⟨htarget, hsays⟩ := Bool.and_eq_true_iff.mp hyes
    obtain ⟨hrow, hcollected⟩ := mem_rowsOf.mp (pickSurvivor_newest hpick).1
    have htarget := eq_of_beq htarget
    have hkey : key = answerKey target row := by
      obtain ⟨other, -, hother, hkey⟩ := collectedKey_eq_some.mp hcollected
      rw [htarget] at hother
      exact (Option.some.inj hother) ▸ hkey
    subst hkey
    cases huser : rowUserId row with
    | some userId =>
        left
        refine ⟨userId, ?_, (answerKey_of_user huser).symm⟩
        rw [← rowsOf_user hmem htarget huser, answerIn, hpick]
        exact eq_of_beq hsays
    | none =>
        right
        have hnobody : ofNobody row = true := by rw [ofNobody, huser]; rfl
        exact ⟨row, mem_yesOfNobody.mpr ⟨mem_answersTo.mpr ⟨hrow, htarget⟩, hnobody, hsays⟩, rfl⟩
  · intro h
    rcases h with hseat | hnobody
    · obtain ⟨userId, hanswer, hkey⟩ := hseat
      obtain ⟨row, hrow, huser, hsays, hpick⟩ := exists_row_of_answerIn hanswer
      have htarget := (mem_answersTo.mp hrow).2
      refine ⟨row, ?_, by rw [yesTo, htarget, hsays]; simp⟩
      rw [← hkey, ← answerKey_of_user huser, rowsOf_user hmem htarget huser]
      exact hpick
    · obtain ⟨row, hrow, hkey⟩ := hnobody
      obtain ⟨hanswer, hgone, hsays⟩ := mem_yesOfNobody.mp hrow
      have htarget := (mem_answersTo.mp hanswer).2
      have hin : row ∈ rowsOf targets rows (answerKey target row) :=
        (mem_rowsOf_answerKey hmem htarget).mpr ⟨hanswer, rfl, fun _ => rfl⟩
      obtain ⟨first, hpick⟩ := @pickSurvivor_isSome dateParse _ (List.ne_nil_of_mem hin)
      obtain ⟨hfirst, hsame⟩ :=
        (mem_rowsOf_answerKey hmem htarget).mp (pickSurvivor_newest hpick).1
      -- nobody's rows share no id, so the group is this row alone
      have hfirstGone : ofNobody first = true := by
        rw [ofNobody, hsame.1]
        exact hgone
      have heq : first = row := List.inj_on_of_nodup_map nobody
        (List.mem_filter.mpr ⟨hfirst, hfirstGone⟩) (List.mem_filter.mpr ⟨hanswer, hgone⟩)
        (hsame.2 (eq_of_beq hfirstGone))
      refine ⟨row, ?_, by rw [yesTo, htarget, hsays]; simp⟩
      rw [← hkey, hpick, heq]

theorem disjoint_keys : Disjoint (userKeys dateParse rows target) (nobodyKeys rows target) := by
  rw [Finset.disjoint_left]
  intro key huser hnobody
  obtain ⟨userId, hanswer, hkey⟩ := mem_userKeys.mp huser
  obtain ⟨row, hrow, hother⟩ := mem_nobodyKeys.mp hnobody
  obtain ⟨own, -, hown, -⟩ := exists_row_of_answerIn hanswer
  have hsame : answerKey target own = answerKey target row := by
    rw [answerKey_of_user hown, hkey, hother]
  have hperson := (answerKey_inj.mp hsame).2.1
  rw [hown, eq_of_beq (mem_yesOfNobody.mp hrow).2.1] at hperson
  cases hperson

theorem card_userKeys : (userKeys dateParse rows target).card =
    seatHolders dateParse (answersTo rows target) none := by
  rw [seatHolders_eq, userKeys, Finset.card_image_of_injOn fun u _ v _ h => userKey_injective h]
  simp

theorem card_nobodyKeys
    (nobody : (((answersTo rows target).filter ofNobody).map RsvpRow.id).Nodup) :
    (nobodyKeys rows target).card =
      (answersTo rows target).countP fun row => ofNobody row && saysYes row := by
  have hsub : (yesOfNobody rows target).Sublist ((answersTo rows target).filter ofNobody) := by
    have hfilter : yesOfNobody rows target =
        ((answersTo rows target).filter ofNobody).filter saysYes := by
      rw [yesOfNobody, List.filter_filter]
      apply List.filter_congr
      intro row _
      exact Bool.and_comm _ _
    rw [hfilter]
    exact List.filter_sublist
  rw [nobodyKeys, Finset.card_image_of_injOn fun i _ j _ h => nobodyKey_injective h,
    List.toFinset_card_of_nodup (nobody.sublist (hsub.map _)), List.length_map, yesOfNobody,
    List.countP_eq_length_filter]

/-- A summary counts as yes the people that hold a seat for the gate, and each yes of nobody. -/
theorem yesCount_agrees {callerId : Option Nat} {summary : RsvpSummary}
    (h : summary ∈ summarizeRsvps dateParse rows targets callerId)
    (nobody : (((answersTo rows summary.targetDocumentId).filter ofNobody).map RsvpRow.id).Nodup) :
    summary.yesCount = seatHolders dateParse (answersTo rows summary.targetDocumentId) none +
      (answersTo rows summary.targetDocumentId).countP fun row => ofNobody row && saysYes row := by
  obtain ⟨hmem, hcount⟩ := yesCount_of_summary h
  rw [hcount, countP_survivors, OrderedMap.count_eq_length,
    ← List.toFinset_card_of_nodup ((OrderedMap.keys_nodup _).filter _), ← card_userKeys,
    ← card_nobodyKeys nobody, ← Finset.card_union_of_disjoint disjoint_keys]
  congr 1
  ext key
  rw [List.mem_toFinset, List.mem_filter, Finset.mem_union, ← groupSaysYes_iff hmem nobody,
    OrderedMap.mem_keys, get?_collectAnswers]
  by_cases hempty : rowsOf targets rows key = []
  · simp [hempty, groupSaysYes, pickSurvivor, newestFirst]
  · simp [hempty]

/-- An older yes behind a newer no, a tie in time, and a yes of nobody. -/
def partyRows : List RsvpRow :=
  let answer (id : Nat) (status : String) (time : Int) (userId : Option Nat) : RsvpRow := {
    id := id
    status := some status
    respondedAt := some (.date (some time))
    targetDocumentId := some "party"
    user := userId.map fun userId => ⟨some userId, none, false⟩ }
  [answer 1 "yes" 10 (some 7), answer 2 "no" 20 (some 7), answer 3 "no" 10 (some 8),
    answer 4 "yes" 10 (some 8), answer 5 "yes" 5 none]

def partySummary : RsvpSummary where
  targetDocumentId := "party"
  yesCount := 2
  maybeCount := 0
  noCount := 1
  yesNames := []
  myStatus := none

theorem yesCount_agrees_party :
    partySummary.yesCount = seatHolders (fun _ => none) (answersTo partyRows "party") none +
      (answersTo partyRows "party").countP fun row => ofNobody row && saysYes row := by
  have h : partySummary ∈ summarizeRsvps (fun _ => none) partyRows ["party"] none := by
    decide +kernel
  exact yesCount_agrees h (by decide +kernel)

end Sinnlos.Cms.Rsvp

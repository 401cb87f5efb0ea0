import Mathlib.Data.List.Sort
import Mathlib.Data.List.Nodup
import Sinnlos.Cms.Rsvp

/-!
# Whom a summary of answers names

The survivors of the rows are one sorted list, whatever the order in which the
rows are read. Of the answers that are not a yes, a summary shows how many people
gave them and the caller's own, and nothing of who they are.
-/

namespace Sinnlos.Cms.Rsvp

open Text

/-! ## The order of the answers -/

section Order

variable {dateParse : String → Option Int}

/-- An answer is at least as new as another. -/
def Newer (dateParse : String → Option Int) (a b : RsvpRow) : Prop :=
  compareNewestFirst dateParse a b ≤ 0

instance (a b : RsvpRow) : Decidable (Newer dateParse a b) :=
  inferInstanceAs (Decidable (compareNewestFirst dateParse a b ≤ 0))

variable {a b : RsvpRow}

theorem newer_iff : Newer dateParse a b ↔
    respondedTime dateParse b < respondedTime dateParse a ∨
      respondedTime dateParse b = respondedTime dateParse a ∧ b.id ≤ a.id := by
  unfold Newer compareNewestFirst
  dsimp only
  split
  · omega
  · omega

theorem newer_total (a b : RsvpRow) : Newer dateParse a b ∨ Newer dateParse b a := by
  rw [newer_iff, newer_iff]
  omega

theorem newer_trans {c : RsvpRow} (hab : Newer dateParse a b) (hbc : Newer dateParse b c) :
    Newer dateParse a c := by
  rw [newer_iff] at hab hbc ⊢
  omega

/-- Only answers of one id are each at least as new as the other. -/
theorem id_eq_of_newer (hab : Newer dateParse a b) (hba : Newer dateParse b a) : a.id = b.id := by
  rw [newer_iff] at hab hba
  omega

instance : Std.Total (Newer dateParse) := ⟨newer_total⟩

instance : IsTrans RsvpRow (Newer dateParse) := ⟨fun _ _ _ => newer_trans⟩

/-- An answer is at least as old as another. -/
def Older (dateParse : String → Option Int) (a b : RsvpRow) : Prop := Newer dateParse b a

instance (a b : RsvpRow) : Decidable (Older dateParse a b) :=
  inferInstanceAs (Decidable (Newer dateParse b a))

instance : Std.Total (Older dateParse) := ⟨fun a b => newer_total b a⟩

instance : IsTrans RsvpRow (Older dateParse) := ⟨fun _ _ _ hab hbc => newer_trans hbc hab⟩

/-- The survivor is a row that is at least as new as all. -/
theorem pickSurvivor_newest {rows : List RsvpRow} {row : RsvpRow}
    (h : pickSurvivor dateParse rows = some row) :
    row ∈ rows ∧ ∀ other ∈ rows, Newer dateParse row other := by
  have hsorted : (newestFirst dateParse rows).Pairwise (Newer dateParse) :=
    List.pairwise_insertionSort (Newer dateParse) rows
  have hmem : ∀ other, other ∈ newestFirst dateParse rows ↔ other ∈ rows :=
    fun other => List.mem_insertionSort (Newer dateParse)
  unfold pickSurvivor at h
  cases hlist : newestFirst dateParse rows with
  | nil =>
      rw [hlist] at h
      cases h
  | cons first rest =>
      rw [hlist] at h hsorted hmem
      cases h
      constructor
      · exact (hmem row).mp List.mem_cons_self
      · intro other hother
        rcases List.mem_cons.mp ((hmem other).mpr hother) with heq | hrest
        · rw [heq]
          exact (newer_total row row).elim id id
        · exact List.rel_of_pairwise_cons hsorted hrest

theorem pickSurvivor_isSome {rows : List RsvpRow} (h : rows ≠ []) :
    ∃ row, pickSurvivor dateParse rows = some row := by
  have hlength : (newestFirst dateParse rows).length = rows.length :=
    List.length_insertionSort _ _
  cases hlist : newestFirst dateParse rows with
  | nil =>
      rw [hlist] at hlength
      exact absurd (List.length_eq_zero_iff.mp hlength.symm) h
  | cons first rest => exact ⟨first, by rw [pickSurvivor, hlist]; rfl⟩

end Order

/-! ## The rows of one person -/

/-- Two rows of one event are the answer of one person. -/
def SamePerson (a b : RsvpRow) : Prop :=
  rowUserId a = rowUserId b ∧ (rowUserId a = none → a.id = b.id)

/-- The part of an answer's key that stands for the person. -/
def personText (row : RsvpRow) : String :=
  match rowUserId row with
  | some userId => toString userId
  | none => "row-" ++ toString row.id

theorem answerKey_eq (target : String) (row : RsvpRow) :
    answerKey target row = target ++ "\u0000" ++ personText row := rfl

theorem not_mem_personText (row : RsvpRow) : '\u0000' ∉ (personText row).toList := by
  have hdigits (n : Nat) : '\u0000' ∉ (toString n).toList := not_mem_toString (by decide) n
  have hrow : '\u0000' ∉ "row-".toList := by decide
  unfold personText
  split
  · exact hdigits _
  · rw [String.toList_append, List.mem_append]
    exact fun h => h.elim hrow (hdigits _)

variable {a b : RsvpRow}

theorem personText_inj : personText a = personText b ↔ SamePerson a b := by
  have hletter (userId id : Nat) : ¬ toString userId = "row-" ++ toString id := by
    intro h
    have hmem : 'r' ∈ ("row-" ++ toString id).toList := by
      rw [String.toList_append]
      exact List.mem_append_left _ (by decide)
    rw [← h] at hmem
    exact not_mem_toString (by decide) userId hmem
  unfold personText SamePerson
  cases ha : rowUserId a with
  | some u =>
      cases hb : rowUserId b with
      | some v =>
          constructor
          · intro h
            exact ⟨congrArg some (toString_injective h), fun h => by cases h⟩
          · intro h
            rw [Option.some.inj h.1]
      | none =>
          constructor
          · intro h
            exact absurd h (hletter u b.id)
          · intro h
            cases h.1
  | none =>
      cases hb : rowUserId b with
      | some v =>
          constructor
          · intro h
            exact absurd h.symm (hletter v a.id)
          · intro h
            cases h.1
      | none =>
          constructor
          · intro h
            have htext := String.append_right_inj (s := "row-") |>.mp h
            exact ⟨rfl, fun _ => toString_injective htext⟩
          · intro h
            rw [h.2 rfl]

/-- A key tells the event and the person. -/
theorem answerKey_inj {s t : String} : answerKey s a = answerKey t b ↔ s = t ∧ SamePerson a b := by
  rw [answerKey_eq, answerKey_eq, ← personText_inj]
  constructor
  · intro h
    have hchars := congrArg (fun key => key.toList.reverse) h
    simp only [String.toList_append, List.reverse_append] at hchars
    have hsep : "\u0000".toList.reverse = ['\u0000'] := by decide
    rw [hsep, List.singleton_append, List.singleton_append] at hchars
    have hparts := join_injective
      (fun hmem => not_mem_personText a (List.mem_reverse.mp hmem))
      (fun hmem => not_mem_personText b (List.mem_reverse.mp hmem)) hchars
    exact ⟨String.toList_inj.mp (List.reverse_inj.mp hparts.2),
      String.toList_inj.mp (List.reverse_inj.mp hparts.1)⟩
  · intro h
    rw [h.1, h.2]

/-! ## The answers of each person -/

/-- The key under which a row is collected; none of an event not asked for. -/
def collectedKey (targets : List String) (row : RsvpRow) : Option String :=
  row.targetDocumentId.bind fun target =>
    if target ∈ targets then some (answerKey target row) else none

variable {targets : List String} {row : RsvpRow}

theorem collectedKey_eq_some {key : String} :
    collectedKey targets row = some key ↔
      ∃ target ∈ targets, row.targetDocumentId = some target ∧ key = answerKey target row := by
  unfold collectedKey
  cases htarget : row.targetDocumentId with
  | none => simp
  | some target =>
      by_cases h : target ∈ targets
      · simp [h, eq_comm]
      · simp [h]

theorem get?_emptySummaries (targets : List String) (target : String) :
    (emptySummaries targets).get? target =
      if target ∈ targets then some (unanswered target) else none := by
  unfold emptySummaries
  induction targets using List.reverseRecOn with
  | nil => rfl
  | append_singleton targets last ih =>
      rw [List.foldl_append, List.foldl_cons, List.foldl_nil, OrderedMap.get?_set, ih]
      by_cases h : target = last
      · simp [h]
      · simp [h]

theorem mem_keys_emptySummaries {target : String} :
    target ∈ (emptySummaries targets).keys ↔ target ∈ targets := by
  rw [OrderedMap.mem_keys, get?_emptySummaries]
  by_cases h : target ∈ targets
  · simp [h]
  · simp [h]

/-- The rows collected under a key, in the order read. -/
def rowsOf (targets : List String) (rows : List RsvpRow) (key : String) : List RsvpRow :=
  rows.filter fun row => collectedKey targets row = some key

theorem get?_collectAnswers (targets : List String) (rows : List RsvpRow) (key : String) :
    (collectAnswers (emptySummaries targets) rows).get? key =
      if rowsOf targets rows key = [] then none else some (rowsOf targets rows key) := by
  unfold collectAnswers
  induction rows using List.reverseRecOn with
  | nil => rfl
  | append_singleton rows row ih =>
      rw [List.foldl_append, List.foldl_cons, List.foldl_nil]
      generalize rows.foldl _ OrderedMap.empty = answers at ih ⊢
      have hsplit : rowsOf targets (rows ++ [row]) key = rowsOf targets rows key ++
          if collectedKey targets row = some key then [row] else [] := by
        rw [rowsOf, List.filter_append, ← rowsOf]
        by_cases h : collectedKey targets row = some key
        · simp [h]
        · simp [h]
      rw [hsplit]
      cases htarget : row.targetDocumentId with
      | none =>
          have hkey : collectedKey targets row = none := by rw [collectedKey, htarget]; rfl
          have hne : ¬ (none : Option String) = some key := fun h => by cases h
          rw [hkey, if_neg hne, List.append_nil]
          exact ih
      | some target =>
          dsimp only
          by_cases hmem : target ∈ targets
          · rw [if_pos (mem_keys_emptySummaries.mpr hmem)]
            have hkey : collectedKey targets row = some (answerKey target row) :=
              collectedKey_eq_some.mpr ⟨target, hmem, htarget, rfl⟩
            by_cases heq : key = answerKey target row
            · rw [← heq, ih, hkey, ← heq, if_pos rfl]
              by_cases hempty : rowsOf targets rows key = []
              · simp [hempty]
              · simp [hempty]
            · have hne : ¬ collectedKey targets row = some key := by
                rw [hkey]
                exact fun h => heq (Option.some.inj h).symm
              rw [if_neg hne, List.append_nil, ← ih]
              split
              · exact OrderedMap.get?_set_of_ne answers _ heq
              · exact OrderedMap.get?_set_of_ne answers _ heq
          · have hne : ¬ collectedKey targets row = some key := by
              rw [collectedKey, htarget, Option.bind_some, if_neg hmem]
              exact fun h => by cases h
            rw [if_neg (fun h => hmem (mem_keys_emptySummaries.mp h)), if_neg hne, List.append_nil]
            exact ih

/-! ## The answers that count -/

/-- A row is the newest answer of its person to an event asked for. -/
structure IsSurvivor (dateParse : String → Option Int) (targets : List String)
    (rows : List RsvpRow) (row : RsvpRow) : Prop where
  mem : row ∈ rows
  asked : ∃ target ∈ targets, row.targetDocumentId = some target
  newest : ∀ other ∈ rows, other.targetDocumentId = row.targetDocumentId →
    SamePerson other row → Newer dateParse row other

section Survivors

variable {dateParse : String → Option Int} {targets : List String} {key : String}

/-- The rows of one key are those of one event and one person. -/
theorem collectedKey_eq {a b : RsvpRow} (h : collectedKey targets a = some key) :
    collectedKey targets b = some key ↔
      b.targetDocumentId = a.targetDocumentId ∧ SamePerson b a := by
  obtain ⟨target, hmem, htarget, hkey⟩ := collectedKey_eq_some.mp h
  rw [collectedKey_eq_some]
  constructor
  · intro hb
    obtain ⟨other, hother, hbtarget, hbkey⟩ := hb
    have hsame := answerKey_inj.mp (hbkey.symm.trans hkey)
    exact ⟨by rw [hbtarget, htarget, hsame.1], hsame.2⟩
  · intro hb
    exact ⟨target, hmem, hb.1.trans htarget, hkey.trans (answerKey_inj.mpr ⟨rfl, hb.2⟩).symm⟩

variable {rows : List RsvpRow} {row : RsvpRow}

theorem mem_rowsOf :
    row ∈ rowsOf targets rows key ↔ row ∈ rows ∧ collectedKey targets row = some key := by
  simp [rowsOf, List.mem_filter]

/-- The survivors before they are sorted. -/
def picked (dateParse : String → Option Int) (targets : List String) (rows : List RsvpRow) :
    List RsvpRow :=
  (collectAnswers (emptySummaries targets) rows).values.filterMap (pickSurvivor dateParse)

theorem mem_picked (distinct : (rows.map RsvpRow.id).Nodup) :
    row ∈ picked dateParse targets rows ↔ IsSurvivor dateParse targets rows row := by
  unfold picked
  rw [List.mem_filterMap]
  constructor
  · intro h
    obtain ⟨list, hlist, hpick⟩ := h
    obtain ⟨key, hget⟩ := OrderedMap.mem_values.mp hlist
    rw [get?_collectAnswers] at hget
    split at hget
    · cases hget
    · cases hget
      obtain ⟨hmem, hnewest⟩ := pickSurvivor_newest hpick
      obtain ⟨hrow, hkey⟩ := mem_rowsOf.mp hmem
      obtain ⟨target, htarget, heq, _⟩ := collectedKey_eq_some.mp hkey
      constructor
      · exact hrow
      · exact ⟨target, htarget, heq⟩
      · intro other hother hsame hperson
        exact hnewest other
          (mem_rowsOf.mpr ⟨hother, (collectedKey_eq hkey).mpr ⟨hsame, hperson⟩⟩)
  · intro h
    obtain ⟨target, hmem, htarget⟩ := h.asked
    have hkey : collectedKey targets row = some (answerKey target row) :=
      collectedKey_eq_some.mpr ⟨target, hmem, htarget, rfl⟩
    have hin : row ∈ rowsOf targets rows (answerKey target row) := mem_rowsOf.mpr ⟨h.mem, hkey⟩
    have hne : rowsOf targets rows (answerKey target row) ≠ [] := List.ne_nil_of_mem hin
    obtain ⟨first, hpick⟩ := @pickSurvivor_isSome dateParse _ hne
    obtain ⟨hfirst, hnewest⟩ := pickSurvivor_newest hpick
    obtain ⟨hfirstRow, hfirstKey⟩ := mem_rowsOf.mp hfirst
    have hsame := (collectedKey_eq hkey).mp hfirstKey
    have hid := id_eq_of_newer (h.newest first hfirstRow hsame.1 hsame.2) (hnewest row hin)
    have heq : row = first := List.inj_on_of_nodup_map distinct h.mem hfirstRow hid
    refine ⟨rowsOf targets rows (answerKey target row), ?_, heq ▸ hpick⟩
    apply OrderedMap.mem_values.mpr
    exact ⟨answerKey target row, by rw [get?_collectAnswers, if_neg hne]⟩

/-- Everyone has one survivor for an event. -/
theorem picked_nodup (rows : List RsvpRow) : (picked dateParse targets rows).Nodup := by
  unfold picked OrderedMap.values
  have hkeys : (collectAnswers (emptySummaries targets) rows).entries.Pairwise
      fun a b => a.1 ≠ b.1 :=
    List.pairwise_map.mp (collectAnswers (emptySummaries targets) rows).nodup
  unfold List.Nodup
  rw [List.pairwise_filterMap, List.pairwise_map]
  refine hkeys.imp_of_mem ?_
  intro a b ha hb hne row hrow row' hrow' heq
  have hkey {entry : String × List RsvpRow} {r : RsvpRow}
      (hentry : entry ∈ (collectAnswers (emptySummaries targets) rows).entries)
      (hr : pickSurvivor dateParse entry.2 = some r) : collectedKey targets r = some entry.1 := by
    have hget := OrderedMap.get?_eq_some.mpr hentry
    rw [get?_collectAnswers] at hget
    split at hget
    · cases hget
    · have hmem := (pickSurvivor_newest hr).1
      rw [← Option.some.inj hget] at hmem
      exact (mem_rowsOf.mp hmem).2
  have hboth := (hkey ha hrow).symm.trans (heq ▸ hkey hb hrow')
  exact hne (Option.some.inj hboth)

/-- The survivors are the one sorted list of the newest answers. -/
theorem survivors_eq {list : List RsvpRow} (distinct : (rows.map RsvpRow.id).Nodup)
    (sorted : list.Pairwise (Older dateParse)) (nodup : list.Nodup)
    (mem : ∀ row, row ∈ list ↔ IsSurvivor dateParse targets rows row) :
    survivors dateParse rows targets = list := by
  have hsorted : (survivors dateParse rows targets).Pairwise (Older dateParse) :=
    List.pairwise_insertionSort (Older dateParse) (picked dateParse targets rows)
  have hperm : (survivors dateParse rows targets).Perm (picked dateParse targets rows) :=
    List.perm_insertionSort (Older dateParse) (picked dateParse targets rows)
  have hpicked : (picked dateParse targets rows).Perm list := by
    rw [List.perm_ext_iff_of_nodup (picked_nodup rows) nodup]
    intro row
    rw [mem_picked distinct, mem]
  have hmem (row : RsvpRow) (h : row ∈ list) : row ∈ rows := ((mem row).mp h).mem
  apply List.Perm.eq_of_pairwise _ hsorted sorted (hperm.trans hpicked)
  intro a b ha hb hab hba
  exact List.inj_on_of_nodup_map distinct (hmem a ((hperm.trans hpicked).mem_iff.mp ha)) (hmem b hb)
    (id_eq_of_newer hba hab)

theorem mem_survivors (distinct : (rows.map RsvpRow.id).Nodup) :
    row ∈ survivors dateParse rows targets ↔ IsSurvivor dateParse targets rows row := by
  rw [← mem_picked distinct]
  exact (List.perm_insertionSort (Older dateParse) (picked dateParse targets rows)).mem_iff

theorem survivors_sorted (rows : List RsvpRow) :
    (survivors dateParse rows targets).Pairwise (Older dateParse) :=
  List.pairwise_insertionSort (Older dateParse) (picked dateParse targets rows)

theorem survivors_nodup (rows : List RsvpRow) : (survivors dateParse rows targets).Nodup :=
  (List.perm_insertionSort (Older dateParse) (picked dateParse targets rows)).nodup_iff.mpr
    (picked_nodup rows)

/-- The order in which the rows are read decides nothing. -/
theorem survivors_perm {rows' : List RsvpRow} (distinct : (rows.map RsvpRow.id).Nodup)
    (h : rows.Perm rows') :
    survivors dateParse rows targets = survivors dateParse rows' targets := by
  have hdistinct : (rows'.map RsvpRow.id).Nodup := (h.map RsvpRow.id).nodup_iff.mp distinct
  apply survivors_eq distinct (survivors_sorted rows') (survivors_nodup rows')
  intro row
  rw [mem_survivors hdistinct]
  constructor
  · intro hs
    exact ⟨h.mem_iff.mpr hs.mem, hs.asked, fun other hother => hs.newest other (h.mem_iff.mp hother)⟩
  · intro hs
    exact ⟨h.mem_iff.mp hs.mem, hs.asked, fun other hother => hs.newest other (h.mem_iff.mpr hother)⟩

end Survivors

/-! ## What is not said of the other answers -/

/-- Two rows that differ at most in who gave an answer other than yes, and agree on whether it
was the caller. -/
structure Disguised (callerId : Option Nat) (row row' : RsvpRow) : Prop where
  id : row'.id = row.id
  status : row'.status = row.status
  respondedAt : row'.respondedAt = row.respondedAt
  target : row'.targetDocumentId = row.targetDocumentId
  attendee : row.status = some "yes" → row'.user = row.user
  caller : callerId ≠ none → (rowUserId row' = callerId ↔ rowUserId row = callerId)

/-- The answers to one event of one person stay those of one person. -/
def KeepsPeople (changes : List (RsvpRow × RsvpRow)) : Prop :=
  ∀ p ∈ changes, ∀ q ∈ changes, p.1.targetDocumentId = q.1.targetDocumentId →
    (SamePerson p.1 q.1 ↔ SamePerson p.2 q.2)

theorem rsvpStatus_yes {status : Option String} (h : rsvpStatus status = some .yes) :
    status = some "yes" := by
  unfold rsvpStatus at h
  split at h <;> first | rfl | cases h

section Disguise

variable {dateParse : String → Option Int} {callerId : Option Nat} {targets : List String}
  {row' : RsvpRow} {changes : List (RsvpRow × RsvpRow)}

theorem Disguised.respondedTime (h : Disguised callerId row row') :
    Rsvp.respondedTime dateParse row' = Rsvp.respondedTime dateParse row := by
  unfold Rsvp.respondedTime
  rw [h.respondedAt]

theorem Disguised.newer {a a' b b' : RsvpRow} (ha : Disguised callerId a a')
    (hb : Disguised callerId b b') : Newer dateParse a' b' ↔ Newer dateParse a b := by
  rw [newer_iff, newer_iff, ha.respondedTime, hb.respondedTime, ha.id, hb.id]

/-- One answer is counted alike, whoever of the others gave it. -/
theorem Disguised.addAnswer (h : Disguised callerId row row')
    (byTarget : OrderedMap String RsvpSummary) :
    Rsvp.addAnswer callerId byTarget row' = Rsvp.addAnswer callerId byTarget row := by
  have hown : (callerId ≠ none ∧ rowUserId row' = callerId) ↔
      (callerId ≠ none ∧ rowUserId row = callerId) := and_congr_right h.caller
  have htally (summary : RsvpSummary) (status : RsvpStatus)
      (hstatus : rsvpStatus row.status = some status) :
      tally callerId summary status row' = tally callerId summary status row := by
    cases status with
    | yes =>
        have huser := h.attendee (rsvpStatus_yes hstatus)
        simp only [tally, shownName, huser, hown]
    | no | maybe => simp only [tally, hown]
  unfold Rsvp.addAnswer
  rw [h.target, h.status]
  cases row.targetDocumentId with
  | none => rfl
  | some target =>
      dsimp only
      cases hget : byTarget.get? target with
      | none => rfl
      | some summary =>
          cases hstatus : rsvpStatus row.status with
          | none => rfl
          | some status => exact congrArg (byTarget.set target) (htally summary status hstatus)

theorem foldl_disguised (disguised : ∀ p ∈ changes, Disguised callerId p.1 p.2) :
    ∀ byTarget, (changes.map Prod.snd).foldl (addAnswer callerId) byTarget =
      (changes.map Prod.fst).foldl (addAnswer callerId) byTarget := by
  induction changes with
  | nil => exact fun _ => rfl
  | cons p changes ih =>
      intro byTarget
      rw [List.map_cons, List.map_cons, List.foldl_cons, List.foldl_cons,
        (disguised p List.mem_cons_self).addAnswer]
      exact ih (fun q hq => disguised q (List.mem_cons_of_mem p hq)) _

theorem isSurvivor_disguised (disguised : ∀ p ∈ changes, Disguised callerId p.1 p.2)
    (people : KeepsPeople changes) {p : RsvpRow × RsvpRow} (hp : p ∈ changes) :
    IsSurvivor dateParse targets (changes.map Prod.snd) p.2 ↔
      IsSurvivor dateParse targets (changes.map Prod.fst) p.1 := by
  have hd := disguised p hp
  constructor
  · intro h
    obtain ⟨target, hmem, htarget⟩ := h.asked
    constructor
    · exact List.mem_map_of_mem hp
    · exact ⟨target, hmem, hd.target ▸ htarget⟩
    · intro other hother hsame hperson
      obtain ⟨q, hq, rfl⟩ := List.mem_map.mp hother
      have hqd := disguised q hq
      apply (hd.newer hqd).mp
      exact h.newest q.2 (List.mem_map_of_mem hq) (by rw [hqd.target, hd.target, hsame])
        ((people q hq p hp hsame).mp hperson)
  · intro h
    obtain ⟨target, hmem, htarget⟩ := h.asked
    constructor
    · exact List.mem_map_of_mem hp
    · exact ⟨target, hmem, hd.target.trans htarget⟩
    · intro other hother hsame hperson
      obtain ⟨q, hq, rfl⟩ := List.mem_map.mp hother
      have hqd := disguised q hq
      have hsame' : q.1.targetDocumentId = p.1.targetDocumentId := by
        rw [← hqd.target, hsame, hd.target]
      apply (hd.newer hqd).mpr
      exact h.newest q.1 (List.mem_map_of_mem hq) hsame' ((people q hq p hp hsame').mpr hperson)

/-- The survivors of disguised rows are the disguised survivors, in their order. -/
theorem survivors_disguised {changes : List (RsvpRow × RsvpRow)}
    (distinct : (changes.map fun p => p.1.id).Nodup)
    (disguised : ∀ p ∈ changes, Disguised callerId p.1 p.2) (people : KeepsPeople changes) :
    ∃ kept : List (RsvpRow × RsvpRow), (∀ p ∈ kept, p ∈ changes) ∧
      survivors dateParse (changes.map Prod.fst) targets = kept.map Prod.fst ∧
      survivors dateParse (changes.map Prod.snd) targets = kept.map Prod.snd := by
  have hfst : ((changes.map Prod.fst).map RsvpRow.id).Nodup := by
    rw [List.map_map]
    exact distinct
  have hids : (changes.map Prod.snd).map RsvpRow.id = (changes.map Prod.fst).map RsvpRow.id := by
    rw [List.map_map, List.map_map]
    exact List.map_congr_left fun p hp => (disguised p hp).id
  have hsnd : ((changes.map Prod.snd).map RsvpRow.id).Nodup := hids ▸ hfst
  -- every surviving row brings its disguise along
  have hpairs : ∀ rows : List RsvpRow, (∀ row ∈ rows, row ∈ changes.map Prod.fst) →
      ∃ kept : List (RsvpRow × RsvpRow), (∀ p ∈ kept, p ∈ changes) ∧ rows = kept.map Prod.fst := by
    intro rows
    induction rows with
    | nil => exact fun _ => ⟨[], fun p hp => absurd hp List.not_mem_nil, rfl⟩
    | cons row rows ih =>
        intro hrows
        obtain ⟨p, hp, hrow⟩ := List.mem_map.mp (hrows row List.mem_cons_self)
        obtain ⟨kept, hkept, heq⟩ := ih fun r hr => hrows r (List.mem_cons_of_mem row hr)
        refine ⟨p :: kept, ?_, by rw [List.map_cons, hrow, heq]⟩
        intro q hq
        rcases List.mem_cons.mp hq with hqp | hqk
        · exact hqp ▸ hp
        · exact hkept q hqk
  obtain ⟨kept, hkept, heq⟩ := hpairs (survivors dateParse (changes.map Prod.fst) targets)
    fun row hrow => ((mem_survivors hfst).mp hrow).mem
  refine ⟨kept, hkept, heq, ?_⟩
  have hsorted := @survivors_sorted dateParse targets (changes.map Prod.fst)
  have hnodup := @survivors_nodup dateParse targets (changes.map Prod.fst)
  rw [heq, List.pairwise_map] at hsorted
  rw [heq] at hnodup
  have hinj {p q : RsvpRow × RsvpRow} (hp : p ∈ changes) (hq : q ∈ changes)
      (h : p.1 = q.1) : p = q :=
    List.inj_on_of_nodup_map distinct hp hq (congrArg RsvpRow.id h)
  apply survivors_eq hsnd
  · rw [List.pairwise_map]
    exact hsorted.imp_of_mem fun hp hq hle =>
      ((disguised _ (hkept _ hq)).newer (disguised _ (hkept _ hp))).mpr hle
  · apply List.Nodup.map_on _ hnodup.of_map
    intro p hp q hq h
    exact List.inj_on_of_nodup_map distinct (hkept p hp) (hkept q hq)
      (by rw [← (disguised p (hkept p hp)).id, h, (disguised q (hkept q hq)).id])
  · intro row
    have hmem (p : RsvpRow × RsvpRow) (hp : p ∈ changes) :
        p ∈ kept ↔ IsSurvivor dateParse targets (changes.map Prod.fst) p.1 := by
      rw [← mem_survivors hfst, heq, List.mem_map]
      constructor
      · exact fun h => ⟨p, h, rfl⟩
      · intro h
        obtain ⟨q, hq, hqp⟩ := h
        exact hinj (hkept q hq) hp hqp ▸ hq
    constructor
    · intro h
      obtain ⟨p, hp, rfl⟩ := List.mem_map.mp h
      exact (isSurvivor_disguised disguised people (hkept p hp)).mpr ((hmem p (hkept p hp)).mp hp)
    · intro h
      obtain ⟨p, hp, rfl⟩ := List.mem_map.mp h.mem
      exact List.mem_map_of_mem
        ((hmem p hp).mpr ((isSurvivor_disguised disguised people hp).mp h))

end Disguise

/-! ## The names that leave -/

/-- A name belongs to a person who attends: one that an answer of yes shows. -/
def NameOfYes (rows : List RsvpRow) (target name : String) : Prop :=
  ∃ row ∈ rows, row.status = some "yes" ∧ row.targetDocumentId = some target ∧
    shownName row = some name

variable {callerId : Option Nat} {summary : RsvpSummary} {rows : List RsvpRow}

theorem yesNames_tally {status : RsvpStatus} {name : String}
    (h : name ∈ (tally callerId summary status row).yesNames) :
    name ∈ summary.yesNames ∨ status = .yes ∧ shownName row = some name := by
  have hcounted : (tally callerId summary status row).yesNames =
      summary.yesNames ++ if status = .yes then (shownName row).toList else [] := by
    unfold tally
    by_cases hown : callerId ≠ none ∧ rowUserId row = callerId
    · cases status <;> simp [hown]
    · cases status <;> simp [hown]
  rw [hcounted, List.mem_append] at h
  rcases h with h | h
  · exact Or.inl h
  · by_cases hyes : status = .yes
    · rw [if_pos hyes, Option.mem_toList] at h
      exact Or.inr ⟨hyes, h⟩
    · rw [if_neg hyes] at h
      cases h

theorem targetDocumentId_tally (callerId : Option Nat) (summary : RsvpSummary)
    (status : RsvpStatus) (row : RsvpRow) :
    (tally callerId summary status row).targetDocumentId = summary.targetDocumentId := by
  unfold tally
  by_cases hown : callerId ≠ none ∧ rowUserId row = callerId
  · cases status <;> simp only [if_pos hown]
  · cases status <;> simp only [if_neg hown]

/-- Every summary is that of its target and names attendees of it only. -/
def NamesAttendees (rows : List RsvpRow) (byTarget : OrderedMap String RsvpSummary) : Prop :=
  ∀ target summary, byTarget.get? target = some summary →
    summary.targetDocumentId = target ∧ ∀ name ∈ summary.yesNames, NameOfYes rows target name

theorem addAnswer_namesAttendees {byTarget : OrderedMap String RsvpSummary}
    (h : NamesAttendees rows byTarget) (hrow : row ∈ rows) :
    NamesAttendees rows (addAnswer callerId byTarget row) := by
  unfold addAnswer
  cases htarget : row.targetDocumentId with
  | none => exact h
  | some target =>
      dsimp only
      cases hget : byTarget.get? target with
      | none => exact h
      | some summary =>
          cases hstatus : rsvpStatus row.status with
          | none => exact h
          | some status =>
              obtain ⟨hid, hnames⟩ := h target summary hget
              intro other found hfound
              dsimp only at hfound
              rw [OrderedMap.get?_set] at hfound
              split at hfound
              · rename_i heq
                cases hfound
                subst heq
                constructor
                · exact (targetDocumentId_tally callerId summary status row).trans hid
                · intro name hname
                  rcases yesNames_tally hname with hold | hnew
                  · exact hnames name hold
                  · exact ⟨row, hrow, rsvpStatus_yes (hnew.1 ▸ hstatus), htarget, hnew.2⟩
              · exact h other found hfound

theorem foldl_namesAttendees {callerId : Option Nat} {rows : List RsvpRow} (list : List RsvpRow) :
    ∀ byTarget, NamesAttendees rows byTarget → (∀ row ∈ list, row ∈ rows) →
      NamesAttendees rows (list.foldl (addAnswer callerId) byTarget) := by
  induction list with
  | nil => exact fun _ h _ => h
  | cons row list ih =>
      intro byTarget h hlist
      exact ih _ (addAnswer_namesAttendees h (hlist row List.mem_cons_self))
        fun r hr => hlist r (List.mem_cons_of_mem row hr)

theorem emptySummaries_namesAttendees (rows : List RsvpRow) (targets : List String) :
    NamesAttendees rows (emptySummaries targets) := by
  intro target summary hget
  rw [get?_emptySummaries] at hget
  split at hget
  · cases hget
    exact ⟨rfl, fun name hname => absurd hname List.not_mem_nil⟩
  · cases hget

/-- Every name of a summary is that of a row that counts. -/
theorem yesNames_of_summary {dateParse : String → Option Int}
    (distinct : (rows.map RsvpRow.id).Nodup)
    (h : summary ∈ summarizeRsvps dateParse rows targets callerId) :
    ∀ name ∈ summary.yesNames, ∃ row, IsSurvivor dateParse targets rows row ∧
      row.status = some "yes" ∧ row.targetDocumentId = some summary.targetDocumentId ∧
      shownName row = some name := by
  unfold summarizeRsvps at h
  dsimp only at h
  obtain ⟨target, _, hsummary⟩ := List.mem_map.mp h
  have hnames := @foldl_namesAttendees callerId _ (survivors dateParse rows targets)
    (emptySummaries targets)
    (emptySummaries_namesAttendees (survivors dateParse rows targets) targets) fun _ hr => hr
  intro name hname
  cases hget : ((survivors dateParse rows targets).foldl (addAnswer callerId)
      (emptySummaries targets)).get? target with
  | none =>
      rw [hget, Option.getD_none] at hsummary
      rw [← hsummary] at hname
      exact absurd hname List.not_mem_nil
  | some found =>
      rw [hget, Option.getD_some] at hsummary
      subst hsummary
      obtain ⟨hid, hall⟩ := hnames target found hget
      obtain ⟨row, hrow, hyes, htarget, hshown⟩ := hall name hname
      exact ⟨row, (mem_survivors distinct).mp hrow, hyes, hid ▸ htarget, hshown⟩

/-- A summary depends neither on the order of the rows nor on who of the others did not say yes, and
it names attendees only. -/
theorem rsvp_summary_private (dateParse : String → Option Int) (targets : List String)
    (callerId : Option Nat) :
    (∀ rows rows' : List RsvpRow, (rows.map RsvpRow.id).Nodup → rows.Perm rows' →
      summarizeRsvps dateParse rows targets callerId =
        summarizeRsvps dateParse rows' targets callerId) ∧
    (∀ changes : List (RsvpRow × RsvpRow), (changes.map fun p => p.1.id).Nodup →
      (∀ p ∈ changes, Disguised callerId p.1 p.2) → KeepsPeople changes →
      summarizeRsvps dateParse (changes.map Prod.fst) targets callerId =
        summarizeRsvps dateParse (changes.map Prod.snd) targets callerId) ∧
    (∀ rows : List RsvpRow, (rows.map RsvpRow.id).Nodup →
      ∀ summary ∈ summarizeRsvps dateParse rows targets callerId,
      ∀ name ∈ summary.yesNames, ∃ row, IsSurvivor dateParse targets rows row ∧
        row.status = some "yes" ∧ row.targetDocumentId = some summary.targetDocumentId ∧
        shownName row = some name) := by
  refine ⟨?_, ?_, fun rows distinct summary h => yesNames_of_summary distinct h⟩
  · intro rows rows' distinct hperm
    unfold summarizeRsvps
    rw [survivors_perm distinct hperm]
  · intro changes distinct disguised people
    obtain ⟨kept, hkept, hfst, hsnd⟩ :=
      @survivors_disguised dateParse callerId targets changes distinct disguised people
    unfold summarizeRsvps
    rw [hfst, hsnd, foldl_disguised fun p hp => disguised p (hkept p hp)]

/-- An answer to the event `e` by the user `userId`, of second `id`. -/
def answerOf (id : Nat) (status : String) (userId : Nat) (name : String) : RsvpRow where
  id := id
  status := some status
  respondedAt := some (.date (some (1000 * id)))
  targetDocumentId := some "e"
  user := some { id := some userId, displayName := some name, blocked := false }

/-- A later maybe of the one who said yes is their answer; of anybody else it is a second one. -/
theorem maybe_takes_seat :
    summarizeRsvps (fun _ => none) [answerOf 1 "yes" 5 "Ada", answerOf 2 "maybe" 6 "Bo"] ["e"] none ≠
      summarizeRsvps (fun _ => none) [answerOf 1 "yes" 5 "Ada", answerOf 2 "maybe" 5 "Bo"] ["e"]
        none := by
  decide +kernel

/-- Two rows of an attendee and one decliner, who may as well be another. -/
def decliner : List (RsvpRow × RsvpRow) :=
  [(answerOf 1 "no" 5 "Ada", answerOf 1 "no" 5 "Ada"),
    (answerOf 2 "yes" 5 "Ada", answerOf 2 "yes" 5 "Ada"),
    (answerOf 3 "no" 6 "Bo", answerOf 3 "no" 7 "Cy")]

theorem rsvp_summary_private_decliner :
    summarizeRsvps (fun _ => none) (decliner.map Prod.fst) ["e"] (some 5) =
        summarizeRsvps (fun _ => none) (decliner.map Prod.snd) ["e"] (some 5) ∧
      summarizeRsvps (fun _ => none) (decliner.map Prod.fst) ["e"] (some 5) =
        summarizeRsvps (fun _ => none) (decliner.map Prod.fst).reverse ["e"] (some 5) ∧
      ∃ row, IsSurvivor (fun _ => none) ["e"] (decliner.map Prod.fst) row ∧
        row.status = some "yes" ∧ row.targetDocumentId = some "e" ∧ shownName row = some "Ada" := by
  have hprivate := rsvp_summary_private (fun _ => none) ["e"] (some 5)
  have hdistinct : ((decliner.map Prod.fst).map RsvpRow.id).Nodup := by decide
  have hdisguised : ∀ p ∈ decliner, Disguised (some 5) p.1 p.2 := by
    have hsame (row : RsvpRow) : Disguised (some 5) row row :=
      ⟨rfl, rfl, rfl, rfl, fun _ => rfl, fun _ => Iff.rfl⟩
    have hbo : Disguised (some 5) (answerOf 3 "no" 6 "Bo") (answerOf 3 "no" 7 "Cy") :=
      ⟨rfl, rfl, rfl, rfl, by decide, by decide⟩
    simpa [decliner] using ⟨hsame _, hsame _, hbo⟩
  have hpeople : KeepsPeople decliner := by
    unfold KeepsPeople SamePerson
    decide
  have hsummary : ∃ summary ∈ summarizeRsvps (fun _ => none) (decliner.map Prod.fst) ["e"] (some 5),
      summary.targetDocumentId = "e" ∧ "Ada" ∈ summary.yesNames := by
    decide +kernel
  obtain ⟨summary, hmem, hid, hname⟩ := hsummary
  exact ⟨hprivate.2.1 decliner (by decide) hdisguised hpeople,
    hprivate.1 _ _ hdistinct (List.reverse_perm _).symm,
    hid ▸ hprivate.2.2 _ hdistinct summary hmem "Ada" hname⟩

end Sinnlos.Cms.Rsvp

import Mathlib.Data.Finset.Card
import Sinnlos.Cms.RsvpCapacity
import Sinnlos.Cms.RsvpSummary

/-! # Who holds a seat after a request

The seats are counted by the newest answer of each person. A request writes the
newest answer of one person at most, so it takes one seat at most, and the gate
decides by the seats of the others. The update of an older row that says yes is
not gated.
-/

namespace Sinnlos.Cms.Rsvp

variable {dateParse : String → Option Int}

/-! ## The answer that counts -/

/-- The status that counts among the rows of one person. -/
def answerIn (dateParse : String → Option Int) (rows : List RsvpRow) : Option String :=
  (pickSurvivor dateParse rows).bind RsvpRow.status

/-- The answer of a person to an event that counts. -/
def RsvpStore.countedAnswer (dateParse : String → Option Int) (store : RsvpStore)
    (target : String) (userId : Nat) : Option String :=
  answerIn dateParse (store.rowsOf userId target)

/-! ## The seats as a set -/

section Seats
variable {rows rows' : List RsvpRow} {userId : Nat}

def ofUser (rows : List RsvpRow) (userId : Nat) : List RsvpRow :=
  rows.filter fun row => rowUserId row == some userId

/-- The people whose counted answer is yes. -/
def seatSet (dateParse : String → Option Int) (rows : List RsvpRow) : Finset Nat :=
  ((rows.filterMap rowUserId).toFinset).filter fun userId =>
    answerIn dateParse (ofUser rows userId) = some "yes"

theorem mem_seatSet :
    userId ∈ seatSet dateParse rows ↔ answerIn dateParse (ofUser rows userId) = some "yes" := by
  unfold seatSet
  rw [Finset.mem_filter, List.mem_toFinset, List.mem_filterMap]
  refine ⟨fun h => h.2, fun h => ⟨?_, h⟩⟩
  by_contra hnone
  have hnil : ofUser rows userId = [] := by
    unfold ofUser
    rw [List.filter_eq_nil_iff]
    intro row hrow heq
    exact hnone ⟨row, hrow, eq_of_beq heq⟩
  rw [hnil] at h
  cases h

theorem any_yes_iff :
    ((pickSurvivor dateParse rows).any fun row => row.status == some "yes") = true ↔
      answerIn dateParse rows = some "yes" := by
  unfold answerIn
  cases pickSurvivor dateParse rows with
  | none => simp
  | some row => simp

theorem seatHolders_eq (rows : List RsvpRow) (excludeUserId : Option Nat) :
    seatHolders dateParse rows excludeUserId =
      ((seatSet dateParse rows).filter fun userId => some userId ≠ excludeUserId).card := by
  unfold seatHolders
  rw [OrderedMap.count_eq_length, ← List.toFinset_card_of_nodup ((OrderedMap.keys_nodup _).filter _)]
  congr 1
  ext userId
  rw [List.mem_toFinset, List.mem_filter, Finset.mem_filter, mem_seatSet, OrderedMap.get?_collect,
    OrderedMap.mem_keys_collect]
  have hkey (row : RsvpRow) :
      ((rowUserId row).filter fun id => some id ≠ excludeUserId) = some userId ↔
        rowUserId row = some userId ∧ some userId ≠ excludeUserId := by
    rw [Option.filter_eq_some_iff, decide_eq_true_eq]
  simp only [hkey]
  by_cases hother : some userId = excludeUserId
  · simp [hother]
  · have hfilter : (rows.filter fun row =>
        decide (rowUserId row = some userId ∧ some userId ≠ excludeUserId)) = ofUser rows userId := by
      apply List.filter_congr
      intro row _
      rw [Bool.eq_iff_iff, decide_eq_true_eq, beq_iff_eq]
      exact and_iff_left hother
    rw [hfilter]
    by_cases hempty : ofUser rows userId = []
    · have hnone : ¬ answerIn dateParse [] = some "yes" := fun h => nomatch h
      simp [hempty, hnone]
    · obtain ⟨row, hrow⟩ := List.exists_mem_of_ne_nil _ hempty
      have hin : ∃ row ∈ rows, rowUserId row = some userId ∧ some userId ≠ excludeUserId := by
        have hmem := List.mem_filter.mp hrow
        exact ⟨row, hmem.1, eq_of_beq hmem.2, hother⟩
      rw [if_neg hempty, Option.any_some, any_yes_iff]
      exact ⟨fun h => ⟨h.2, hother⟩, fun h => ⟨hin, h.1⟩⟩

end Seats

/-! ## The rows of one person for one event -/

section Rows
variable {store : RsvpStore} {target : String} {userId : Nat}

def Concerns (target : String) (userId : Nat) (row : RsvpRow) : Prop :=
  row.targetDocumentId = some target ∧ rowUserId row = some userId

instance (row : RsvpRow) : Decidable (Concerns target userId row) :=
  inferInstanceAs (Decidable (_ ∧ _))

theorem RsvpStore.rowsOf_eq : store.rowsOf userId target =
    (store.entries.map RsvpEntry.row).filter fun row => decide (Concerns target userId row) := by
  unfold RsvpStore.rowsOf RsvpStore.rowsFor
  rw [List.filter_filter]
  apply List.filter_congr
  intro row _
  rw [Bool.eq_iff_iff, Bool.and_eq_true, beq_iff_eq, beq_iff_eq, decide_eq_true_eq]
  exact And.comm

variable {row : RsvpRow}

theorem RsvpStore.mem_rowsOf : row ∈ store.rowsOf userId target ↔
    (∃ entry ∈ store.entries, entry.row = row) ∧ Concerns target userId row := by
  rw [RsvpStore.rowsOf_eq, List.mem_filter, List.mem_map, decide_eq_true_eq]

theorem RsvpStore.rowsOf_map {write : RsvpEntry → RsvpEntry} (keep : ∀ entry ∈ store.entries,
      write entry = entry ∨
        ¬ Concerns target userId entry.row ∧ ¬ Concerns target userId (write entry).row) :
    RsvpStore.rowsOf { store with entries := store.entries.map write } userId target =
      store.rowsOf userId target := by
  rw [RsvpStore.rowsOf_eq, RsvpStore.rowsOf_eq]
  dsimp only
  generalize store.entries = entries at keep
  induction entries with
  | nil => rfl
  | cons entry entries ih =>
      have htail := ih fun other hother => keep other (List.mem_cons_of_mem _ hother)
      rw [List.map_cons, List.map_cons, List.map_cons, List.filter_cons, List.filter_cons, htail]
      rcases keep entry List.mem_cons_self with hsame | hneither
      · rw [hsame]
      · simp [hneither.1, hneither.2]

theorem RsvpStore.rowsOf_filter {keeps : RsvpEntry → Bool}
    (keep : ∀ entry ∈ store.entries, Concerns target userId entry.row → keeps entry = true) :
    RsvpStore.rowsOf { store with entries := store.entries.filter keeps } userId target =
      store.rowsOf userId target := by
  rw [RsvpStore.rowsOf_eq, RsvpStore.rowsOf_eq, List.filter_map, List.filter_map, List.filter_filter]
  congr 1
  apply List.filter_congr
  intro entry hentry
  rw [Function.comp_apply, Bool.eq_iff_iff, Bool.and_eq_true, decide_eq_true_eq]
  exact ⟨fun h => h.1, fun h => ⟨h, keep entry hentry h⟩⟩

theorem RsvpStore.rowsOf_append (entry : RsvpEntry) :
    RsvpStore.rowsOf { store with entries := store.entries ++ [entry] } userId target =
      store.rowsOf userId target ++ if Concerns target userId entry.row then [entry.row] else [] := by
  rw [RsvpStore.rowsOf_eq, RsvpStore.rowsOf_eq, List.map_append, List.filter_append, List.map_singleton]
  by_cases h : Concerns target userId entry.row
  · simp [h]
  · simp [h]

/-- An answer given after all others counts. -/
theorem countedAnswer_of_latest (hmem : row ∈ store.rowsOf userId target)
    (latest : ∀ other ∈ store.rowsOf userId target,
      other = row ∨ respondedTime dateParse other < respondedTime dateParse row) :
    store.countedAnswer dateParse target userId = row.status := by
  have hsome : ∃ first, pickSurvivor dateParse (store.rowsOf userId target) = some first :=
    pickSurvivor_isSome (List.ne_nil_of_mem hmem)
  obtain ⟨first, hfirst⟩ := hsome
  have hnewest := pickSurvivor_newest hfirst
  have hrow := newer_iff.mp (hnewest.2 row hmem)
  rw [RsvpStore.countedAnswer, answerIn, hfirst, Option.bind_some]
  rcases latest first hnewest.1 with heq | hlt
  · rw [heq]
  · omega

end Rows

/-! ## Healing -/

section Heal
variable {store : RsvpStore} {target : String} {userId : Nat}

theorem deleteAll_eq (stales : List RsvpRow) (store : RsvpStore) :
    stales.foldl (fun store stale => store.delete stale.id) store =
      { store with
        entries := store.entries.filter fun entry => entry.row.id ∉ stales.map RsvpRow.id } := by
  induction stales generalizing store with
  | nil => simp
  | cons stale stales ih =>
      rw [List.foldl_cons, ih, RsvpStore.delete]
      dsimp only
      rw [List.filter_filter]
      congr 1
      apply List.filter_congr
      intro entry _
      rw [Bool.eq_iff_iff]
      simp [not_or, and_comm]

variable {row : RsvpRow}

theorem mem_newestFirst {rows : List RsvpRow} : row ∈ newestFirst dateParse rows ↔ row ∈ rows :=
  List.mem_insertionSort (Newer dateParse)

theorem RsvpStore.Keyed.entry_eq (keyed : store.Keyed) {a b : RsvpEntry} (ha : a ∈ store.entries)
    (hb : b ∈ store.entries) (h : a.row.id = b.row.id) : a = b :=
  List.inj_on_of_nodup_map keyed.ids ha hb h

theorem RsvpStore.Keyed.nodup_rowsOf (keyed : store.Keyed) :
    ((store.rowsOf userId target).map RsvpRow.id).Nodup := by
  have hrows : ((store.entries.map RsvpEntry.row).map RsvpRow.id).Nodup := by
    rw [List.map_map]
    exact keyed.ids
  rw [RsvpStore.rowsOf_eq]
  exact hrows.sublist (List.filter_sublist.map _)

/-- Of the rows healed only the newest is left. -/
theorem rowsOf_heal_self (keyed : store.Keyed) :
    row ∈ (store.heal dateParse userId target).rowsOf userId target ↔
      (newestFirst dateParse (store.rowsOf userId target)).head? = some row := by
  have hnodup : ((newestFirst dateParse (store.rowsOf userId target)).map RsvpRow.id).Nodup :=
    ((List.perm_insertionSort _ _).map _).nodup_iff.mpr keyed.nodup_rowsOf
  have hmem (row : RsvpRow) : row ∈ newestFirst dateParse (store.rowsOf userId target) ↔
      row ∈ store.rowsOf userId target := mem_newestFirst
  unfold RsvpStore.heal
  rw [deleteAll_eq, RsvpStore.mem_rowsOf]
  generalize newestFirst dateParse (store.rowsOf userId target) = sorted at hnodup hmem
  simp only [List.mem_filter, decide_eq_true_eq]
  cases sorted with
  | nil =>
      constructor
      · intro h
        obtain ⟨⟨entry, hentry, hrow⟩, hconcerns⟩ := h
        have hin := (hmem row).mpr (RsvpStore.mem_rowsOf.mpr ⟨⟨entry, hentry.1, hrow⟩, hconcerns⟩)
        cases hin
      · intro h
        cases h
  | cons first rest =>
      rw [List.map_cons, List.nodup_cons] at hnodup
      rw [List.head?_cons, Option.some.injEq, List.drop_one, List.tail_cons]
      constructor
      · intro h
        obtain ⟨⟨entry, ⟨hentry, hkept⟩, hrow⟩, hconcerns⟩ := h
        have hin := (hmem row).mpr (RsvpStore.mem_rowsOf.mpr ⟨⟨entry, hentry, hrow⟩, hconcerns⟩)
        rcases List.mem_cons.mp hin with heq | hrest
        · exact heq.symm
        · rw [hrow] at hkept
          exact absurd (List.mem_map_of_mem hrest) hkept
      · intro h
        subst h
        have hin := RsvpStore.mem_rowsOf.mp ((hmem first).mp List.mem_cons_self)
        obtain ⟨⟨entry, hentry, hrow⟩, hconcerns⟩ := hin
        have hkept : entry.row.id ∉ rest.map RsvpRow.id := by
          rw [hrow]
          exact hnodup.1
        exact ⟨⟨entry, ⟨hentry, hkept⟩, hrow⟩, hconcerns⟩

theorem rowsOf_heal_other (keyed : store.Keyed) {target' : String} {userId' : Nat}
    (hother : (target', userId') ≠ (target, userId)) :
    (store.heal dateParse userId target).rowsOf userId' target' =
      store.rowsOf userId' target' := by
  unfold RsvpStore.heal
  rw [deleteAll_eq]
  apply RsvpStore.rowsOf_filter
  intro entry hentry hconcerns
  rw [decide_eq_true_eq]
  intro hstale
  obtain ⟨stale, hmem, hid⟩ := List.mem_map.mp hstale
  have hrow := RsvpStore.mem_rowsOf.mp (mem_newestFirst.mp (List.mem_of_mem_drop hmem))
  obtain ⟨⟨entry', hentry', hstale'⟩, hconcerns'⟩ := hrow
  rw [← hstale'] at hid hconcerns'
  have hsame := keyed.entry_eq hentry' hentry hid
  rw [hsame] at hconcerns'
  have htarget := Option.some.inj (hconcerns.1.symm.trans hconcerns'.1)
  have huser := Option.some.inj (hconcerns.2.symm.trans hconcerns'.2)
  exact hother (by rw [htarget, huser])

/-- The answer that counts is that of the row that stays. -/
theorem countedAnswer_heal (keyed : store.Keyed) (target' : String) (userId' : Nat) :
    (store.heal dateParse userId target).countedAnswer dateParse target' userId' =
      store.countedAnswer dateParse target' userId' := by
  by_cases hother : (target', userId') = (target, userId)
  · have htarget : target' = target := congrArg Prod.fst hother
    have huser : userId' = userId := congrArg Prod.snd hother
    rw [htarget, huser]
    have hself (row : RsvpRow) :
        row ∈ (store.heal dateParse userId target).rowsOf userId target ↔
          (newestFirst dateParse (store.rowsOf userId target)).head? = some row :=
      rowsOf_heal_self keyed
    cases hhead : (newestFirst dateParse (store.rowsOf userId target)).head? with
    | none =>
        have hnil : (store.heal dateParse userId target).rowsOf userId target = [] := by
          rw [List.eq_nil_iff_forall_not_mem]
          intro row hrow
          rw [hself, hhead] at hrow
          cases hrow
        rw [RsvpStore.countedAnswer, RsvpStore.countedAnswer, answerIn, answerIn, hnil, pickSurvivor,
          pickSurvivor, hhead]
        rfl
    | some row =>
        have hmem := (hself row).mpr hhead
        rw [countedAnswer_of_latest hmem, RsvpStore.countedAnswer, answerIn, pickSurvivor, hhead,
          Option.bind_some]
        intro other hin
        rw [hself, hhead] at hin
        exact Or.inl (Option.some.inj hin).symm
  · rw [RsvpStore.countedAnswer, rowsOf_heal_other keyed hother, ← RsvpStore.countedAnswer]

end Heal

/-! ## Writes -/

section Writes
variable {store : RsvpStore} {target : String} {userId : Nat} {status : String} {now : Int}

/-- The store after the answer of one row. -/
def RsvpStore.write (store : RsvpStore) (entity : RsvpEntry) (status : String) (now : Int) :
    RsvpStore :=
  { store with
    entries := store.entries.map fun entry =>
      if entry = entity then { entry with row := entry.row.answered status now } else entry }

variable {entity : RsvpEntry}

theorem write_by_id (keyed : store.Keyed) (hmem : entity ∈ store.entries) :
    (store.entries.map fun entry =>
      if entry.row.id = entity.row.id then { entry with row := entry.row.answered status now }
      else entry) = (store.write entity status now).entries := by
  apply List.map_congr_left
  intro entry hentry
  have hiff : entry.row.id = entity.row.id ↔ entry = entity :=
    ⟨keyed.entry_eq hentry hmem, fun h => by rw [h]⟩
  simp only [hiff]

theorem write_by_documentId (keyed : store.Keyed) (hmem : entity ∈ store.entries) :
    (store.entries.map fun entry =>
      if entry.documentId = entity.documentId then
        { entry with row := entry.row.answered status now }
      else entry) = (store.write entity status now).entries := by
  apply List.map_congr_left
  intro entry hentry
  have hiff : entry.documentId = entity.documentId ↔ entry = entity :=
    ⟨List.inj_on_of_nodup_map keyed.documentIds hentry hmem, fun h => by rw [h]⟩
  simp only [hiff]

/-- Every stored answer was given before an instant. -/
def RsvpStore.Before (dateParse : String → Option Int) (store : RsvpStore) (now : Int) : Prop :=
  ∀ entry ∈ store.entries, respondedTime dateParse entry.row < now

theorem countedAnswer_write_self (before : store.Before dateParse now)
    (hmem : entity ∈ store.entries) (concerns : Concerns target userId entity.row) :
    (store.write entity status now).countedAnswer dateParse target userId = some status := by
  have hin : entity.row.answered status now ∈
      (store.write entity status now).rowsOf userId target := by
    rw [RsvpStore.mem_rowsOf]
    refine ⟨⟨{ entity with row := entity.row.answered status now }, ?_, rfl⟩, concerns⟩
    exact List.mem_map.mpr ⟨entity, hmem, if_pos rfl⟩
  rw [countedAnswer_of_latest hin]
  · rfl
  · intro other hother
    obtain ⟨⟨entry', hentry', hrow⟩, _⟩ := RsvpStore.mem_rowsOf.mp hother
    obtain ⟨entry, hentry, hwritten⟩ := List.mem_map.mp hentry'
    by_cases heq : entry = entity
    · rw [if_pos heq] at hwritten
      left
      rw [← hrow, ← hwritten, heq]
    · rw [if_neg heq] at hwritten
      right
      rw [← hrow, ← hwritten]
      exact before entry hentry

theorem countedAnswer_write_other (hother : ¬ Concerns target userId entity.row) :
    (store.write entity status now).countedAnswer dateParse target userId =
      store.countedAnswer dateParse target userId := by
  unfold RsvpStore.countedAnswer RsvpStore.write
  rw [RsvpStore.rowsOf_map]
  intro entry _
  by_cases heq : entry = entity
  · rw [if_pos heq]
    exact Or.inr ⟨heq ▸ hother, heq ▸ hother⟩
  · exact Or.inl (if_neg heq)

variable {entry : RsvpEntry}

theorem countedAnswer_append_self (before : store.Before dateParse now)
    (concerns : Concerns target userId entry.row)
    (latest : respondedTime dateParse entry.row = now) :
    RsvpStore.countedAnswer dateParse { store with entries := store.entries ++ [entry] } target
      userId = entry.row.status := by
  apply countedAnswer_of_latest
  · rw [RsvpStore.rowsOf_append, if_pos concerns]
    exact List.mem_append_right _ List.mem_cons_self
  · intro other hother
    rw [RsvpStore.rowsOf_append, if_pos concerns, List.mem_append, List.mem_singleton] at hother
    rcases hother with hold | hnew
    · obtain ⟨⟨stored, hstored, hrow⟩, _⟩ := RsvpStore.mem_rowsOf.mp hold
      right
      rw [latest, ← hrow]
      exact before stored hstored
    · exact Or.inl hnew

theorem countedAnswer_append_other (hother : ¬ Concerns target userId entry.row) :
    RsvpStore.countedAnswer dateParse { store with entries := store.entries ++ [entry] } target
      userId = store.countedAnswer dateParse target userId := by
  unfold RsvpStore.countedAnswer
  rw [RsvpStore.rowsOf_append, if_neg hother, List.append_nil]

end Writes

/-! ## What a request does to the answers -/

section Requests
variable {store before after : RsvpStore} {target : String} {userId : Nat} {status : String}
  {now : Int} {reply : RsvpReply}

def Unchanged (dateParse : String → Option Int) (before after : RsvpStore) : Prop :=
  ∀ target userId, after.countedAnswer dateParse target userId =
    before.countedAnswer dateParse target userId

/-- One person's answer to one event is given, and nothing else changes. -/
structure Answered (dateParse : String → Option Int) (before after : RsvpStore) (target : String)
    (userId : Nat) (status : String) : Prop where
  own : after.countedAnswer dateParse target userId = some status
  others : ∀ target' userId', (target', userId') ≠ (target, userId) →
    after.countedAnswer dateParse target' userId' = before.countedAnswer dateParse target' userId'

theorem Unchanged.answered (unchanged : Unchanged dateParse before store)
    (answered : Answered dateParse store after target userId status) :
    Answered dateParse before after target userId status where
  own := answered.own
  others := fun target' userId' hother =>
    (answered.others target' userId' hother).trans (unchanged target' userId')

theorem answered_write (hbefore : store.Before dateParse now) {entity : RsvpEntry}
    (hmem : entity ∈ store.entries) (concerns : Concerns target userId entity.row) :
    Answered dateParse store (store.write entity status now) target userId status where
  own := countedAnswer_write_self hbefore hmem concerns
  others := by
    intro target' userId' hother
    apply countedAnswer_write_other
    intro hconcerns
    have htarget := Option.some.inj (hconcerns.1.symm.trans concerns.1)
    have huser := Option.some.inj (hconcerns.2.symm.trans concerns.2)
    exact hother (by rw [htarget, huser])

theorem answered_append (hbefore : store.Before dateParse now) {entry : RsvpEntry}
    (concerns : Concerns target userId entry.row) (hstatus : entry.row.status = some status)
    (latest : respondedTime dateParse entry.row = now) :
    Answered dateParse store { store with entries := store.entries ++ [entry] } target userId
      status where
  own := (countedAnswer_append_self hbefore concerns latest).trans hstatus
  others := by
    intro target' userId' hother
    apply countedAnswer_append_other
    intro hconcerns
    have htarget := Option.some.inj (hconcerns.1.symm.trans concerns.1)
    have huser := Option.some.inj (hconcerns.2.symm.trans concerns.2)
    exact hother (by rw [htarget, huser])

/-! ## The seats -/

/-- Who holds a seat of an event. -/
def RsvpStore.seats (dateParse : String → Option Int) (store : RsvpStore) (target : String) :
    Finset Nat :=
  seatSet dateParse (store.rowsFor target)

theorem mem_seats : userId ∈ store.seats dateParse target ↔
    store.countedAnswer dateParse target userId = some "yes" := mem_seatSet

theorem countYesUsers_eq (excludeUserId : Option Nat) :
    countYesUsers dateParse store target excludeUserId =
      ((store.seats dateParse target).filter fun userId => some userId ≠ excludeUserId).card :=
  seatHolders_eq _ _

theorem countYesUsers_all : countYesUsers dateParse store target none =
    (store.seats dateParse target).card := by
  rw [countYesUsers_eq]
  simp

theorem seats_congr (same : ∀ userId, after.countedAnswer dateParse target userId =
      before.countedAnswer dateParse target userId) :
    after.seats dateParse target = before.seats dateParse target := by
  ext userId
  rw [mem_seats, mem_seats, same]

theorem Answered.seats_le (answered : Answered dateParse before after target userId status) :
    (after.seats dateParse target).card ≤
      countYesUsers dateParse before target (some userId) + 1 := by
  rw [countYesUsers_eq]
  have hsub : after.seats dateParse target ⊆
      insert userId ((before.seats dateParse target).filter fun id => some id ≠ some userId) := by
    intro id hid
    rw [Finset.mem_insert, Finset.mem_filter]
    by_cases heq : id = userId
    · exact Or.inl heq
    · right
      have hother : (target, id) ≠ (target, userId) := fun h => heq (congrArg Prod.snd h)
      rw [mem_seats, answered.others target id hother] at hid
      exact ⟨mem_seats.mpr hid, fun h => heq (Option.some.inj h)⟩
  exact (Finset.card_le_card hsub).trans (Finset.card_insert_le _ _)

/-- Without a new yes no seat is taken. -/
theorem Answered.seats_kept (answered : Answered dateParse before after target userId status)
    (held : status = "yes" → before.countedAnswer dateParse target userId = some "yes") :
    (after.seats dateParse target).card ≤ (before.seats dateParse target).card := by
  apply Finset.card_le_card
  intro id hid
  rw [mem_seats] at hid ⊢
  by_cases heq : id = userId
  · rw [heq, answered.own] at hid
    rw [heq]
    exact held (Option.some.inj hid)
  · have hother : (target, id) ≠ (target, userId) := fun h => heq (congrArg Prod.snd h)
    rw [← answered.others target id hother]
    exact hid

/-- A new yes takes a seat. -/
theorem Answered.seats_taken (answered : Answered dateParse before after target userId "yes")
    (fresh : before.countedAnswer dateParse target userId ≠ some "yes") :
    (after.seats dateParse target).card = (before.seats dateParse target).card + 1 := by
  have hnot : userId ∉ before.seats dateParse target := fun h => fresh (mem_seats.mp h)
  have hinsert : after.seats dateParse target = insert userId (before.seats dateParse target) := by
    ext id
    rw [Finset.mem_insert, mem_seats, mem_seats]
    by_cases heq : id = userId
    · rw [heq]
      exact iff_of_true answered.own (Or.inl rfl)
    · have hother : (target, id) ≠ (target, userId) := fun h => heq (congrArg Prod.snd h)
      rw [answered.others target id hother]
      exact ⟨Or.inr, fun h => h.resolve_left heq⟩
  rw [hinsert, Finset.card_insert_of_notMem hnot]

end Requests

end Sinnlos.Cms.Rsvp

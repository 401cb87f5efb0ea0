import Mathlib.Data.List.Count
import Sinnlos.Cms.ErasureEnsures

/-! # Runs of the erasure sweep

Any number of workers erase one person, alone or side by side, and any read or
call of theirs may fail. What is left to do for a worker only shrinks, so that
it ends; what it has passed stays as it left it.
-/

namespace Sinnlos.Cms.Erasure

open Notify Database

/-! ## What fades -/

/-- A condition on rows that no move makes true. -/
def Fades (person : Nat) (condition : Record → Bool) : Prop :=
  ∀ before after, Record.Moves person before after → condition after = true → condition before = true

section Fading
variable {condition : Record → Bool} {rows rows' : RowKey → Record}

theorem links_fades (person : Nat) {field : String} (h : field ≠ "actor") :
    Fades person (Record.links field person) :=
  fun _ _ moves links => Moves.links h moves links

theorem isShareOf_fades (person : Nat) : Fades person (Record.isShareOf person) := by
  intro before after moves share
  rw [Moves.isShareOf moves share]
  exact share

theorem names_fades (person : Nat) : Fades person (Record.names person) := by
  intro before after moves names
  rw [Moves.names moves names]
  exact names

/-- What is not there does not come. -/
theorem Fades.none {person : Nat} (h : Fades person condition) (moved : (erasureGuarantee person).Moved rows rows')
    {k : RowKey} (no : condition (rows k) = false) : condition (rows' k) = false := by
  rw [← Bool.not_eq_true] at no ⊢
  exact fun yes => no (h _ _ (moved k) yes)

theorem author_fades (person : Nat) : Fades person (Record.links "author" person) :=
  links_fades person (by decide)

theorem deletedByRelation_field {target : RelationClass} (h : target ∈ deletedByRelation) :
    target.field ≠ "actor" := by
  have hall : ∀ target ∈ deletedByRelation, target.field ≠ "actor" := by decide
  exact hall target h

end Fading

/-! ## How many rows are left -/

/-- The rows of a type behind a cursor that meet a condition, among those stored. -/
def count (stored : List RowKey) (rows : RowKey → Record) (uid : Uid) (condition : Record → Bool)
    (afterId : Nat) : Nat :=
  stored.countP fun k => decide (k.uid = uid) && decide (afterId < k.id) && condition (rows k)

section Counts
variable {person : Nat} {condition : Record → Bool} {stored : List RowKey}
  {rows rows' : RowKey → Record} {uid : Uid} {afterId last : Nat}

theorem count_le (stored : List RowKey) (uid : Uid) (h : Fades person condition) (moved : (erasureGuarantee person).Moved rows rows')
    (hle : afterId ≤ last) :
    count stored rows' uid condition last ≤ count stored rows uid condition afterId := by
  apply List.countP_mono_left
  intro k _ hk
  simp only [Bool.and_eq_true, decide_eq_true_eq] at hk ⊢
  exact ⟨⟨hk.1.1, Nat.lt_of_le_of_lt hle hk.1.2⟩, h _ _ (moved k) hk.2⟩

variable {page : List Nat}

/-- Rows that no longer count are counted off. -/
theorem length_add_count_le (h : Fades person condition)
    (moved : (erasureGuarantee person).Moved rows rows') (hle : afterId ≤ last)
    (unique : page.Nodup)
    (counted : ∀ id ∈ page, ⟨uid, id⟩ ∈ stored ∧ afterId < id ∧ condition (rows ⟨uid, id⟩) = true)
    (passed : ∀ id ∈ page, id ≤ last ∨ condition (rows' ⟨uid, id⟩) = false) :
    page.length + count stored rows' uid condition last ≤
      count stored rows uid condition afterId := by
  let before : RowKey → Bool := fun k =>
    decide (k.uid = uid) && decide (afterId < k.id) && condition (rows k)
  let after : RowKey → Bool := fun k =>
    decide (k.uid = uid) && decide (last < k.id) && condition (rows' k)
  have hsplit : stored.countP before =
      (stored.filter before).countP after + (stored.filter before).countP (fun k => decide (¬ after k = true)) := by
    rw [List.countP_eq_length_filter]
    exact (List.length_eq_countP_add_countP after)
  have hafter : stored.countP after ≤ (stored.filter before).countP after := by
    rw [List.countP_filter]
    apply List.countP_mono_left
    intro k _ hk
    simp only [after, before, Bool.and_eq_true, decide_eq_true_eq] at hk ⊢
    exact ⟨hk, ⟨hk.1.1, Nat.lt_of_le_of_lt hle hk.1.2⟩, h _ _ (moved k) hk.2⟩
  have hsubset : keysOf uid page ⊆ (stored.filter before).filter fun k => decide (¬ after k = true) := by
    intro k hk
    obtain ⟨uid', id⟩ := k
    obtain ⟨rfl, hid⟩ := mem_keysOf.mp hk
    obtain ⟨hstored, hbehind, hcondition⟩ := counted id hid
    refine List.mem_filter.mpr ⟨List.mem_filter.mpr ⟨hstored, ?_⟩, ?_⟩
    · simp [before, hbehind, hcondition]
    · rcases passed id hid with hpast | hno
      · simp [after, Nat.not_lt.mpr hpast]
      · simp [after, hno]
  have hlength : page.length ≤ (stored.filter before).countP fun k => decide (¬ after k = true) := by
    have hsub := List.Nodup.length_le_of_subset (keysOf_nodup unique) hsubset
    rw [List.countP_eq_length_filter]
    simpa [keysOf] using hsub
  show page.length + stored.countP after ≤ stored.countP before
  omega

/-- As many rows are counted as there are. -/
theorem length_le_count (absent : condition .gone = false) (h : Fades person condition)
    (unique : page.Nodup)
    (counted : ∀ id ∈ page, ⟨uid, id⟩ ∈ stored ∧ afterId < id ∧ condition (rows ⟨uid, id⟩) = true) :
    page.length ≤ count stored rows uid condition afterId := by
  have gone : (erasureGuarantee person).Moved rows fun _ => .gone := fun _ => Or.inr (Or.inl rfl)
  have hcount := length_add_count_le h gone (Nat.le_refl afterId) unique counted
    fun _ _ => Or.inr absent
  omega

end Counts

/-! ## What a worker knows at each stage -/

/-- The rows there are: listed, with row ids, each in the table of its type. -/
structure Stored (stored : List RowKey) (rows : RowKey → Record) : Prop where
  listed : ∀ k, k ∉ stored → rows k = .gone
  ids : ∀ k, rows k ≠ .gone → 0 < k.id
  classifieds : ∀ id, rows ⟨.classified, id⟩ = .gone ∨ ∃ row, rows ⟨.classified, id⟩ = .classified row

/-- No row of the class links the person. -/
def Unlinked (person : Nat) (rows : RowKey → Record) (target : RelationClass) : Prop :=
  ∀ id, (rows ⟨target.uid, id⟩).links target.field person = false

/-- No row of a deleted class links the person. -/
structure Erased (person : Nat) (rows : RowKey → Record) : Prop where
  classes : ∀ target ∈ deletedByRelation, Unlinked person rows target
  classifieds : Unlinked person rows ⟨.classified, "author"⟩
  shares : ∀ id, (rows ⟨.secretShare, id⟩).isShareOf person = false

/-- What a job leaves behind once it has ended without an error. -/
structure Swept (job : SweepJob) (person : Nat) (rows : RowKey → Record) : Prop where
  erased : job.deletes = true → Erased person rows
  unnamed : job.rewrites = true → ∀ id, (rows ⟨.notification, id⟩).names person = false

/-- What the worker has behind it. -/
def Cleared (job : SweepJob) (person : Nat) (rows : RowKey → Record) : SweepStage → Prop
  | .collect target rest ids afterId =>
      (∀ c ∈ target :: rest, c ∈ deletedByRelation) ∧
      (∀ c ∈ deletedByRelation, c ∈ target :: rest ∨ Unlinked person rows c) ∧
      ∀ id ≤ afterId, (rows ⟨target.uid, id⟩).links target.field person = true → id ∈ ids
  | .classifieds => ∀ c ∈ deletedByRelation, Unlinked person rows c
  | .shares =>
      (∀ c ∈ deletedByRelation, Unlinked person rows c) ∧
        Unlinked person rows ⟨.classified, "author"⟩
  | .rewriting afterId =>
      (job.deletes = true → Erased person rows) ∧
        ∀ id ≤ afterId, (rows ⟨.notification, id⟩).names person = false
  | .done => Swept job person rows

/-- The rows the classes from here on still have to handle; a page of shares
takes two calls. -/
def owedFrom (person : Nat) (stored : List RowKey) (rows : RowKey → Record) :
    List RelationClass → Nat
  | [] =>
      count stored rows .classified (Record.links "author" person) 0 +
        (2 * count stored rows .secretShare (Record.isShareOf person) 0 +
          count stored rows .notification (Record.names person) 0)
  | target :: rest =>
      count stored rows target.uid (Record.links target.field person) 0 +
        owedFrom person stored rows rest

/-- The rows a stage still has to handle. -/
def owed (person : Nat) (stored : List RowKey) (rows : RowKey → Record) : SweepStage → Nat
  | .collect target rest _ afterId =>
      count stored rows target.uid (Record.links target.field person) afterId +
        owedFrom person stored rows rest
  | .classifieds => owedFrom person stored rows []
  | .shares =>
      2 * count stored rows .secretShare (Record.isShareOf person) 0 +
        count stored rows .notification (Record.names person) 0
  | .rewriting afterId => count stored rows .notification (Record.names person) afterId
  | .done => 0

/-- The reads that find nothing more, one for each loop ahead. -/
def loopsLeft : SweepStage → Nat
  | .collect _ rest _ _ => rest.length + 4
  | .classifieds => 3
  | .shares => 2
  | .rewriting _ => 1
  | .done => 0

/-- The ids that were read and not deleted yet. -/
def gathered : SweepStage → Nat
  | .collect _ _ ids _ => ids.length
  | _ => 0

structure Known (job : SweepJob) (person : Nat) (stored : List RowKey) (bound : Nat)
    (stage : SweepStage) (reads begun : Nat) (rows : RowKey → Record) : Prop where
  tables : Stored stored rows
  cleared : Cleared job person rows stage
  reads : reads + (owed person stored rows stage + loopsLeft stage) ≤ bound + 9
  begun : begun + (owed person stored rows stage + gathered stage) ≤ bound

section Known
variable {job : SweepJob} {person bound reads begun : Nat} {stored : List RowKey}
  {rows rows' : RowKey → Record} {stage : SweepStage}

theorem Stored.later (h : Stored stored rows) (moved : (erasureGuarantee person).Moved rows rows') :
    Stored stored rows' := by
  have present : ∀ k, rows' k ≠ .gone → rows k ≠ .gone := by
    intro k hk hgone
    have hmoves := moved k
    rw [hgone] at hmoves
    exact hk (Moves.of_gone hmoves)
  refine ⟨?_, ?_, ?_⟩
  · intro k hk
    by_contra hne
    exact present k hne (h.listed k hk)
  · intro k hk
    exact h.ids k (present k hk)
  · intro id
    have hmoves := moved ⟨.classified, id⟩
    rcases h.classifieds id with hgone | ⟨row, hrow⟩
    · rw [hgone] at hmoves
      exact Or.inl (Moves.of_gone hmoves)
    · rw [hrow] at hmoves
      rcases Moves.eq_or_gone hmoves rfl with hsame | hgone
      · exact Or.inr ⟨row, hsame⟩
      · exact Or.inl hgone

theorem Unlinked.later {target : RelationClass} (h : Unlinked person rows target)
    (hfield : target.field ≠ "actor") (moved : (erasureGuarantee person).Moved rows rows') :
    Unlinked person rows' target :=
  fun id => (links_fades person hfield).none moved (h id)

theorem Erased.later (h : Erased person rows) (moved : (erasureGuarantee person).Moved rows rows') :
    Erased person rows' where
  classes := fun target htarget =>
    (h.classes target htarget).later (deletedByRelation_field htarget) moved
  classifieds := h.classifieds.later (by decide) moved
  shares := fun id => (isShareOf_fades person).none moved (h.shares id)

theorem Swept.later (h : Swept job person rows)
    (moved : (erasureGuarantee person).Moved rows rows') : Swept job person rows' where
  erased := fun hjob => (h.erased hjob).later moved
  unnamed := fun hjob id => (names_fades person).none moved (h.unnamed hjob id)

theorem Cleared.later (h : Cleared job person rows stage)
    (moved : (erasureGuarantee person).Moved rows rows') : Cleared job person rows' stage := by
  have unlinked : ∀ c ∈ deletedByRelation, Unlinked person rows c → Unlinked person rows' c :=
    fun c hc hun => hun.later (deletedByRelation_field hc) moved
  cases stage with
  | collect target rest ids afterId =>
      obtain ⟨known, passed, listed⟩ := h
      have hfield := deletedByRelation_field (known target List.mem_cons_self)
      refine ⟨known, fun c hc => (passed c hc).imp_right (unlinked c hc), ?_⟩
      intro id hle hlinks
      exact listed id hle (links_fades person hfield _ _ (moved _) hlinks)
  | classifieds => exact fun c hc => unlinked c hc (h c hc)
  | shares => exact ⟨fun c hc => unlinked c hc (h.1 c hc), h.2.later (by decide) moved⟩
  | rewriting afterId =>
      exact ⟨fun hjob => (h.1 hjob).later moved, fun id hle => (names_fades person).none moved (h.2 id hle)⟩
  | done => exact Swept.later h moved

theorem owedFrom_le (stored : List RowKey) {classes : List RelationClass}
    (known : ∀ c ∈ classes, c ∈ deletedByRelation)
    (moved : (erasureGuarantee person).Moved rows rows') :
    owedFrom person stored rows' classes ≤ owedFrom person stored rows classes := by
  induction classes with
  | nil =>
      have hads := count_le stored .classified (author_fades person) moved (Nat.le_refl 0)
      have hshares := count_le stored .secretShare (isShareOf_fades person) moved (Nat.le_refl 0)
      have hnames := count_le stored .notification (names_fades person) moved (Nat.le_refl 0)
      simp only [owedFrom]
      omega
  | cons target rest ih =>
      have hfield := deletedByRelation_field (known target List.mem_cons_self)
      have hcount := count_le stored target.uid (links_fades person hfield) moved (Nat.le_refl 0)
      have hrest := ih fun c hc => known c (List.mem_cons_of_mem target hc)
      simp only [owedFrom]
      omega

/-! ## What a page tells -/

section Pages
variable {keys : List RowKey} {uid : Uid} {condition : Record → Bool} {afterId last id : Nat}

theorem mem_read (absent : condition .gone = false) (fresh : ∀ k, k ∉ keys → rows k = .gone)
    (h : condition (rows ⟨uid, id⟩) = true) : id ∈ idsWhere ⟨keys, rows⟩ uid condition := by
  refine mem_idsWhere.mpr ⟨?_, h⟩
  by_contra hkey
  rw [fresh _ hkey, absent] at h
  cases h

theorem stored_of_read (absent : condition .gone = false) (tables : Stored stored rows)
    (h : id ∈ idsWhere ⟨keys, rows⟩ uid condition) :
    ⟨uid, id⟩ ∈ stored ∧ 0 < id ∧ condition (rows ⟨uid, id⟩) = true := by
  have hcondition : condition (rows ⟨uid, id⟩) = true := (mem_idsWhere.mp h).2
  have hrow : rows ⟨uid, id⟩ ≠ .gone := by
    intro hgone
    rw [hgone, absent] at hcondition
    cases hcondition
  refine ⟨?_, tables.ids _ hrow, hcondition⟩
  by_contra hkey
  exact hrow (tables.listed _ hkey)

/-- A page takes its rows off those that are left. -/
theorem page_count_le (fades : Fades person condition) (absent : condition .gone = false)
    (tables : Stored stored rows) (moved : (erasureGuarantee person).Moved rows rows')
    (hlast : (linkingPage ⟨keys, rows⟩ uid condition afterId).getLast? = some last) :
    0 < (linkingPage ⟨keys, rows⟩ uid condition afterId).length ∧
      (linkingPage ⟨keys, rows⟩ uid condition afterId).length +
        count stored rows' uid condition last ≤ count stored rows uid condition afterId := by
  have hmem := List.mem_of_getLast? hlast
  have hcursor : afterId < last := (Keyset.mem_of_mem_page hmem).2
  refine ⟨List.length_pos_of_mem hmem, ?_⟩
  apply length_add_count_le fades moved (Nat.le_of_lt hcursor)
    (Keyset.page_nodup (idsWhere_nodup _ _ _))
  · intro id hid
    obtain ⟨hread, hbehind⟩ := Keyset.mem_of_mem_page hid
    obtain ⟨hstored, -, hcondition⟩ := stored_of_read absent tables hread
    exact ⟨hstored, hbehind, hcondition⟩
  · intro id hid
    exact Or.inl (Keyset.le_last_of_mem_page hlast hid)

/-- Behind the last page there is nothing, and nothing comes. -/
theorem none_behind (fades : Fades person condition) (absent : condition .gone = false)
    (fresh : ∀ k, k ∉ keys → rows k = .gone)
    (moved : (erasureGuarantee person).Moved rows rows')
    (hnone : (linkingPage ⟨keys, rows⟩ uid condition afterId).getLast? = none)
    (h : condition (rows' ⟨uid, id⟩) = true) :
    id ≤ afterId ∧ condition (rows ⟨uid, id⟩) = true := by
  have hbefore := fades _ _ (moved ⟨uid, id⟩) h
  have hempty := List.getLast?_eq_none_iff.mp hnone
  exact ⟨Keyset.le_of_page_eq_nil (by decide) hempty (mem_read absent fresh hbefore), hbefore⟩

/-- Up to the page's last id every row was passed, or it is on the page. -/
theorem passed_or_page (fades : Fades person condition) (absent : condition .gone = false)
    (fresh : ∀ k, k ∉ keys → rows k = .gone)
    (moved : (erasureGuarantee person).Moved rows rows')
    (hlast : (linkingPage ⟨keys, rows⟩ uid condition afterId).getLast? = some last)
    (hle : id ≤ last) (h : condition (rows' ⟨uid, id⟩) = true) :
    (id ≤ afterId ∧ condition (rows ⟨uid, id⟩) = true) ∨
      id ∈ linkingPage ⟨keys, rows⟩ uid condition afterId := by
  have hbefore := fades _ _ (moved ⟨uid, id⟩) h
  rcases Nat.lt_or_ge afterId id with hbehind | hpassed
  · exact Or.inr (Keyset.mem_page_of_le hlast (mem_read absent fresh hbefore) hbehind hle)
  · exact Or.inl ⟨hpassed, hbefore⟩

end Pages

/-! ## One round -/

/-- One round at a stage: it keeps within the bounds, and with its calls done the
next stage's knowledge holds. -/
def RoundKnown (job : SweepJob) (person : Nat) (stored : List RowKey) (bound : Nat)
    (found : List EraseCall × SweepStage) (reads begun : Nat) (rows : RowKey → Record) : Prop :=
  reads + 1 ≤ bound + 9 ∧ begun + found.1.length ≤ bound ∧
    ∀ rows', (erasureGuarantee person).Moved rows rows' →
      (∀ call ∈ found.1, eraseDeed person call rows') →
      Known job person stored bound found.2 (reads + 1) (begun + found.1.length) rows'

theorem chunks_length_le {α : Type} (ids : List α) : (chunks ids idPage).length ≤ ids.length := by
  simp only [chunks, List.length_map, List.length_range, idPage]
  omega

section Rounds
variable {keys : List RowKey} {target : RelationClass} {rest : List RelationClass} {ids : List Nat}
  {afterId last : Nat} {view : View RowKey Record} {id : Nat}

theorem readCollect_some
    (hlast : (linkingPage view target.uid (Record.links target.field person) afterId).getLast? =
      some last) :
    readCollect person view target rest ids afterId =
      ([], .collect target rest
        (ids ++ linkingPage view target.uid (Record.links target.field person) afterId) last) := by
  simp only [readCollect, hlast]

theorem readCollect_none
    (hnone : (linkingPage view target.uid (Record.links target.field person) afterId).getLast? =
      none) :
    readCollect person view target rest ids afterId =
      ((chunks ids idPage).map (.deleteMany target.uid), startCollect rest) := by
  simp only [readCollect, hnone]

/-- One more page of a class. -/
theorem collect_page
    (h : Known job person stored bound (.collect target rest ids afterId) reads begun rows)
    (fresh : ∀ k, k ∉ keys → rows k = .gone)
    (hlast : (linkingPage ⟨keys, rows⟩ target.uid (Record.links target.field person)
      afterId).getLast? = some last) :
    RoundKnown job person stored bound (readCollect person ⟨keys, rows⟩ target rest ids afterId)
      reads begun rows := by
  obtain ⟨known, passed, listed⟩ := h.cleared
  have hfield := deletedByRelation_field (known target List.mem_cons_self)
  have fades := links_fades person hfield
  have hreads := h.reads
  have hbegun := h.begun
  simp only [owed, loopsLeft, gathered] at hreads hbegun
  rw [readCollect_some hlast]
  refine ⟨by omega, by simp only [List.length_nil]; omega, ?_⟩
  intro rows' moved _
  obtain ⟨hpos, hcount⟩ := page_count_le fades rfl h.tables moved hlast
  have hrest := owedFrom_le stored
    (fun c hc => known c (List.mem_cons_of_mem target hc)) moved
  refine ⟨h.tables.later moved, ⟨known, ?_, ?_⟩, ?_, ?_⟩
  · intro c hc
    exact (passed c hc).imp_right fun hun => hun.later (deletedByRelation_field hc) moved
  · intro id hle hlinks
    rw [List.mem_append]
    rcases passed_or_page fades rfl fresh moved hlast hle hlinks with ⟨hbehind, hold⟩ | hpage
    · exact Or.inl (listed id hbehind hold)
    · exact Or.inr hpage
  · simp only [owed, loopsLeft]
    omega
  · simp only [owed, gathered, List.length_append, List.length_nil]
    omega

/-- Where the next class begins. -/
theorem startCollect_known (rest : List RelationClass) (tables : Stored stored rows)
    (known : ∀ c ∈ rest, c ∈ deletedByRelation)
    (passed : ∀ c ∈ deletedByRelation, c ∈ rest ∨ Unlinked person rows c)
    (hreads : reads + (owedFrom person stored rows rest + (rest.length + 3)) ≤ bound + 9)
    (hbegun : begun + owedFrom person stored rows rest ≤ bound) :
    Known job person stored bound (startCollect rest) reads begun rows := by
  cases rest with
  | nil =>
      refine ⟨tables, ?_, hreads, hbegun⟩
      intro c hc
      exact (passed c hc).resolve_left List.not_mem_nil
  | cons target rest =>
      show Known job person stored bound (.collect target rest [] 0) reads begun rows
      refine ⟨tables, ⟨known, passed, ?_⟩, ?_, ?_⟩
      · intro id hle hlinks
        have hgone : rows ⟨target.uid, id⟩ ≠ .gone := by
          intro hgone
          rw [hgone] at hlinks
          cases hlinks
        exact absurd (tables.ids _ hgone) (Nat.not_lt.mpr hle)
      · simp only [owedFrom, List.length_cons] at hreads
        simp only [owed, loopsLeft]
        omega
      · simp only [owedFrom] at hbegun
        simp only [owed, gathered, List.length_nil]
        omega

/-- The end of a class: its rows are deleted. -/
theorem collect_end
    (h : Known job person stored bound (.collect target rest ids afterId) reads begun rows)
    (fresh : ∀ k, k ∉ keys → rows k = .gone)
    (hnone : (linkingPage ⟨keys, rows⟩ target.uid (Record.links target.field person)
      afterId).getLast? = none) :
    RoundKnown job person stored bound (readCollect person ⟨keys, rows⟩ target rest ids afterId)
      reads begun rows := by
  obtain ⟨known, passed, listed⟩ := h.cleared
  have hfield := deletedByRelation_field (known target List.mem_cons_self)
  have hchunks := chunks_length_le ids
  have hreads := h.reads
  have hbegun := h.begun
  simp only [owed, loopsLeft, gathered] at hreads hbegun
  have hlater : ∀ c ∈ rest, c ∈ deletedByRelation := fun c hc =>
    known c (List.mem_cons_of_mem target hc)
  rw [readCollect_none hnone]
  refine ⟨by omega, by simp only [List.length_map]; omega, ?_⟩
  intro rows' moved done
  have hrest := owedFrom_le stored hlater moved
  have erased : Unlinked person rows' target := by
    intro id
    rw [← Bool.not_eq_true]
    intro hlinks
    obtain ⟨hle, hold⟩ := none_behind (links_fades person hfield) rfl fresh moved hnone hlinks
    have hsize : 0 < idPage := by decide
    obtain ⟨chunk, hchunk, hmem⟩ := (mem_chunks hsize).mp (listed id hle hold)
    have hgone : rows' ⟨target.uid, id⟩ = .gone :=
      done (.deleteMany target.uid chunk) (List.mem_map_of_mem hchunk) id hmem
    rw [hgone] at hlinks
    cases hlinks
  apply startCollect_known rest (h.tables.later moved) hlater
  · intro c hc
    rcases passed c hc with hmem | hun
    · rcases List.mem_cons.mp hmem with rfl | hmem
      · exact Or.inr erased
      · exact Or.inl hmem
    · exact Or.inr (hun.later (deletedByRelation_field hc) moved)
  · omega
  · simp only [List.length_map]
    omega

theorem mem_readClassified {row : Classified} (h : view.row ⟨.classified, id⟩ = .classified row) :
    readClassified view id = some row.documentId := by
  simp only [readClassified, h, row.documentId_ne, if_false]

/-- The ads, one after the other. -/
theorem classifieds_round (h : Known job person stored bound .classifieds reads begun rows)
    (fresh : ∀ k, k ∉ keys → rows k = .gone) :
    RoundKnown job person stored bound (readClassifieds person ⟨keys, rows⟩) reads begun rows := by
  have hreads := h.reads
  have hbegun := h.begun
  simp only [owed, loopsLeft, gathered, owedFrom] at hreads hbegun
  have hlength : (readClassifieds person ⟨keys, rows⟩).1.length ≤
      count stored rows .classified (Record.links "author" person) 0 := by
    have hads := length_le_count rfl (author_fades person)
      (idsWhere_nodup ⟨keys, rows⟩ .classified (Record.links "author" person))
      fun id hid => stored_of_read rfl h.tables hid
    simp only [readClassifieds, List.length_map]
    refine (List.length_filterMap_le _ _).trans ?_
    rw [List.length_insertionSort]
    exact hads
  refine ⟨by omega, by omega, ?_⟩
  intro rows' moved done
  have hshares := count_le stored .secretShare (isShareOf_fades person) moved (Nat.le_refl 0)
  have hnames := count_le stored .notification (names_fades person) moved (Nat.le_refl 0)
  refine ⟨h.tables.later moved, ⟨?_, ?_⟩, ?_, ?_⟩
  · exact fun c hc => (h.cleared c hc).later (deletedByRelation_field hc) moved
  · intro id
    rw [← Bool.not_eq_true]
    intro hlinks
    have hold := author_fades person _ _ (moved ⟨.classified, id⟩) hlinks
    obtain ⟨row, hrow⟩ := (h.tables.classifieds id).resolve_left (by
      intro hgone
      rw [hgone] at hold
      cases hold)
    have hread := (List.mem_insertionSort (· ≤ ·)).mpr (mem_read rfl fresh hold)
    have hcall : EraseCall.deleteClassified row.documentId ∈
        (readClassifieds person ⟨keys, rows⟩).1 :=
      List.mem_map_of_mem (List.mem_filterMap.mpr ⟨id, hread, mem_readClassified hrow⟩)
    have hmoves := moved ⟨.classified, id⟩
    rw [hrow] at hmoves
    rcases Moves.eq_or_gone hmoves rfl with hsame | hgone
    · have hnot := done _ hcall id
      rw [hsame] at hnot
      simp [Record.ofDocument] at hnot
    · rw [hgone] at hlinks
      cases hlinks
  · simp only [readClassifieds, owed, loopsLeft]
    omega
  · simp only [readClassifieds, owed, gathered] at hlength ⊢
    omega

/-! ### Shares -/

theorem readShare_fst {entry : Nat × SecretShare} (h : readShare view id = some entry) :
    entry.1 = id := by
  unfold readShare at h
  split at h
  · obtain ⟨-, hentry⟩ := Option.ite_none_right_eq_some.mp h
    cases hentry
    rfl
  · cases h

/-- What a share's row is read as. -/
theorem readShare_isSome (h : (view.row ⟨.secretShare, id⟩).isShareOf person = true) :
    (readShare view id).isSome := by
  unfold readShare
  cases hrow : view.row ⟨.secretShare, id⟩ with
  | secretShare row => simp [row.recipient_isRowId]
  | _ =>
      rw [hrow] at h
      cases h

theorem shares_sublist (view : View RowKey Record) (ids : List Nat) :
    ((ids.filterMap (readShare view)).map Prod.fst).Sublist ids := by
  induction ids with
  | nil => exact .slnil
  | cons id ids ih =>
      cases hread : readShare view id with
      | none =>
          rw [List.filterMap_cons_none hread]
          exact ih.cons id
      | some entry =>
          rw [List.filterMap_cons_some hread, List.map_cons, readShare_fst hread]
          exact ih.cons_cons id

/-- The page of shares that is read. -/
def sharesPage (person : Nat) (view : View RowKey Record) : List (Nat × SecretShare) :=
  (Keyset.firstPage deletePage (idsWhere view .secretShare (Record.isShareOf person))).filterMap
    (readShare view)

theorem readShares_nil (h : sharesPage person view = []) :
    readShares job person view = ([], job.afterDeletes) := by
  unfold sharesPage at h
  simp only [readShares, h, List.isEmpty_nil, if_true]

theorem readShares_page (h : sharesPage person view ≠ []) :
    readShares job person view =
      ([.deleteShareNotifications ((sharesPage person view).map Prod.snd),
        .deleteMany .secretShare ((sharesPage person view).map Prod.fst)], .shares) := by
  have hempty : (sharesPage person view).isEmpty = false := by
    rw [← Bool.not_eq_true, List.isEmpty_iff]
    exact h
  unfold sharesPage at hempty
  simp only [readShares, hempty, Bool.false_eq_true, if_false]
  rfl

/-- A page of shares and their notifications. -/
theorem shares_page (h : Known job person stored bound .shares reads begun rows)
    (hpage : sharesPage person ⟨keys, rows⟩ ≠ []) :
    RoundKnown job person stored bound (readShares job person ⟨keys, rows⟩) reads begun rows := by
  have hreads := h.reads
  have hbegun := h.begun
  simp only [owed, loopsLeft, gathered] at hreads hbegun
  have hsub := shares_sublist ⟨keys, rows⟩
    (Keyset.firstPage deletePage (idsWhere ⟨keys, rows⟩ .secretShare (Record.isShareOf person)))
  have hunique := hsub.nodup (Keyset.firstPage_nodup (idsWhere_nodup _ _ _))
  have hcounted : ∀ id ∈ (sharesPage person ⟨keys, rows⟩).map Prod.fst,
      ⟨.secretShare, id⟩ ∈ stored ∧ 0 < id ∧
        (rows ⟨.secretShare, id⟩).isShareOf person = true := fun id hid =>
    stored_of_read rfl h.tables (Keyset.mem_of_mem_firstPage (hsub.subset hid))
  have hpos : 0 < ((sharesPage person ⟨keys, rows⟩).map Prod.fst).length := by
    rw [List.length_map]
    exact List.length_pos_of_ne_nil hpage
  have htotal := length_le_count rfl (isShareOf_fades person) hunique hcounted
  rw [readShares_page hpage]
  change 0 < (List.map Prod.fst _).length at hpos
  refine ⟨by omega, ?_, ?_⟩
  · simp only [List.length_cons, List.length_nil]
    unfold sharesPage at hpos
    omega
  · intro rows' moved done
    have hgone := done (.deleteMany .secretShare ((sharesPage person ⟨keys, rows⟩).map Prod.fst))
      (by simp)
    have hcount := length_add_count_le (isShareOf_fades person) moved (Nat.le_refl 0) hunique
      hcounted fun id hid => Or.inr (by rw [hgone id hid]; rfl)
    have hnames := count_le stored .notification (names_fades person) moved (Nat.le_refl 0)
    unfold sharesPage at hpos
    refine ⟨h.tables.later moved, h.cleared.later moved, ?_, ?_⟩
    · simp only [owed, loopsLeft]
      omega
    · simp only [owed, gathered, List.length_cons, List.length_nil]
      omega

/-- What follows the deletions. -/
theorem afterDeletes_known (tables : Stored stored rows) (erased : Erased person rows)
    (hreads : reads + (count stored rows .notification (Record.names person) 0 + 1) ≤ bound + 9)
    (hbegun : begun + count stored rows .notification (Record.names person) 0 ≤ bound) :
    Known job person stored bound job.afterDeletes reads begun rows := by
  cases hjob : job.rewrites with
  | true =>
      rw [SweepJob.afterDeletes, if_pos hjob]
      refine ⟨tables, ⟨fun _ => erased, ?_⟩, hreads, hbegun⟩
      intro id hle
      rw [← Bool.not_eq_true]
      intro hnames
      exact absurd (tables.ids _ (present_of_names hnames)) (Nat.not_lt.mpr hle)
  | false =>
      rw [SweepJob.afterDeletes, hjob, if_neg Bool.false_ne_true]
      refine ⟨tables, ⟨fun _ => erased, ?_⟩, ?_, ?_⟩
      · intro hrewrites
        rw [hjob] at hrewrites
        cases hrewrites
      · simp only [owed, loopsLeft]
        omega
      · simp only [owed, gathered]
        omega

/-- No share is left. -/
theorem shares_end (h : Known job person stored bound .shares reads begun rows)
    (fresh : ∀ k, k ∉ keys → rows k = .gone) (hpage : sharesPage person ⟨keys, rows⟩ = []) :
    RoundKnown job person stored bound (readShares job person ⟨keys, rows⟩) reads begun rows := by
  have hreads := h.reads
  have hbegun := h.begun
  simp only [owed, loopsLeft, gathered] at hreads hbegun
  have hnone : ∀ id, (rows ⟨.secretShare, id⟩).isShareOf person = false := by
    intro id
    rw [← Bool.not_eq_true]
    intro hshare
    have hread := mem_read rfl fresh hshare
    cases hfirst : Keyset.firstPage deletePage
        (idsWhere ⟨keys, rows⟩ .secretShare (Record.isShareOf person)) with
    | nil =>
        rw [(Keyset.firstPage_eq_nil (by decide)).mp hfirst] at hread
        cases hread
    | cons first rest =>
        have hmem : first ∈ Keyset.firstPage deletePage
            (idsWhere ⟨keys, rows⟩ .secretShare (Record.isShareOf person)) := by
          rw [hfirst]
          exact List.mem_cons_self
        have hrow := (mem_idsWhere.mp (Keyset.mem_of_mem_firstPage hmem)).2
        obtain ⟨entry, hentry⟩ := Option.isSome_iff_exists.mp (readShare_isSome hrow)
        have hin := List.mem_filterMap.mpr ⟨first, hmem, hentry⟩
        change entry ∈ sharesPage person ⟨keys, rows⟩ at hin
        rw [hpage] at hin
        cases hin
  rw [readShares_nil hpage]
  refine ⟨by omega, by simp only [List.length_nil]; omega, ?_⟩
  intro rows' moved _
  have hnames := count_le stored .notification (names_fades person) moved (Nat.le_refl 0)
  obtain ⟨classes, ads⟩ := h.cleared.later moved
  apply afterDeletes_known (h.tables.later moved)
    ⟨classes, ads, fun id => (isShareOf_fades person).none moved (hnone id)⟩
  · omega
  · simp only [List.length_nil]
    omega

/-! ### The rewrite -/

theorem readRewriting_some
    (hlast : (linkingPage view .notification (Record.names person) afterId).getLast? = some last) :
    readRewriting person view afterId =
      ([.rewriteActorPage (linkingPage view .notification (Record.names person) afterId)],
        .rewriting last) := by
  simp only [readRewriting, hlast]

theorem readRewriting_none
    (hnone : (linkingPage view .notification (Record.names person) afterId).getLast? = none) :
    readRewriting person view afterId = ([], .done) := by
  simp only [readRewriting, hnone]

theorem rewriting_round (h : Known job person stored bound (.rewriting afterId) reads begun rows)
    (fresh : ∀ k, k ∉ keys → rows k = .gone) :
    RoundKnown job person stored bound (readRewriting person ⟨keys, rows⟩ afterId) reads begun
      rows := by
  have hreads := h.reads
  have hbegun := h.begun
  simp only [owed, loopsLeft, gathered] at hreads hbegun
  obtain ⟨erased, passed⟩ := h.cleared
  cases hlast : (linkingPage ⟨keys, rows⟩ .notification (Record.names person) afterId).getLast? with
  | some last =>
      obtain ⟨hfull, hleft⟩ := page_count_le (names_fades person) rfl h.tables (.refl _ rows) hlast
      rw [readRewriting_some hlast]
      refine ⟨by omega, ?_, ?_⟩
      · simp only [List.length_cons, List.length_nil]
        omega
      · intro rows' moved done
        have hdone := done _ List.mem_cons_self
        obtain ⟨hpos, hcount⟩ := page_count_le (names_fades person) rfl h.tables moved hlast
        refine ⟨h.tables.later moved, ⟨fun hjob => (erased hjob).later moved, ?_⟩, ?_, ?_⟩
        · intro id hle
          rw [← Bool.not_eq_true]
          intro hnames
          rcases passed_or_page (names_fades person) rfl fresh moved hlast hle hnames with
            ⟨hbehind, hold⟩ | hpage
          · rw [passed id hbehind] at hold
            cases hold
          · rw [hdone id hpage] at hnames
            cases hnames
        · simp only [owed, loopsLeft]
          omega
        · simp only [owed, gathered, List.length_cons, List.length_nil]
          omega
  | none =>
      rw [readRewriting_none hlast]
      refine ⟨by omega, by simp only [List.length_nil]; omega, ?_⟩
      intro rows' moved _
      refine ⟨h.tables.later moved, ⟨fun hjob => (erased hjob).later moved, ?_⟩, ?_, ?_⟩
      · intro _ id
        rw [← Bool.not_eq_true]
        intro hnames
        obtain ⟨hle, hold⟩ := none_behind (names_fades person) rfl fresh moved hlast hnames
        rw [passed id hle] at hold
        cases hold
      · simp only [owed, loopsLeft]
        omega
      · simp only [owed, gathered, List.length_nil]
        omega

theorem sweep_round (h : Known job person stored bound stage reads begun rows)
    (unfinished : stage ≠ .done) (fresh : ∀ k, k ∉ keys → rows k = .gone) :
    RoundKnown job person stored bound (sweepRead job person stage ⟨keys, rows⟩) reads begun rows := by
  cases stage with
  | collect target rest ids afterId =>
      cases hlast : (linkingPage ⟨keys, rows⟩ target.uid (Record.links target.field person)
          afterId).getLast? with
      | some last => exact collect_page h fresh hlast
      | none => exact collect_end h fresh hlast
  | classifieds => exact classifieds_round h fresh
  | shares =>
      by_cases hpage : sharesPage person ⟨keys, rows⟩ = []
      · exact shares_end h fresh hpage
      · exact shares_page h hpage
  | rewriting afterId => exact rewriting_round h fresh
  | done => exact absurd rfl unfinished

end Rounds

theorem owed_le (stored : List RowKey) (cleared : Cleared job person rows stage)
    (moved : (erasureGuarantee person).Moved rows rows') :
    owed person stored rows' stage ≤ owed person stored rows stage := by
  have hshares := count_le stored .secretShare (isShareOf_fades person) moved (Nat.le_refl 0)
  have hnames := count_le stored .notification (names_fades person) moved (Nat.le_refl 0)
  cases stage with
  | collect target rest ids afterId =>
      have hfield := deletedByRelation_field (cleared.1 target List.mem_cons_self)
      have hcount := count_le stored target.uid (links_fades person hfield) moved
        (Nat.le_refl afterId)
      have hrest := owedFrom_le stored
        (fun c hc => cleared.1 c (List.mem_cons_of_mem target hc)) moved
      simp only [owed]
      omega
  | classifieds => exact owedFrom_le stored (by simp) moved
  | shares =>
      simp only [owed]
      omega
  | rewriting afterId =>
      exact count_le stored .notification (names_fades person) moved (Nat.le_refl afterId)
  | done => exact Nat.le_refl _

theorem Known.later (h : Known job person stored bound stage reads begun rows)
    (moved : (erasureGuarantee person).Moved rows rows') :
    Known job person stored bound stage reads begun rows' := by
  have howed := owed_le stored h.cleared moved
  have hreads := h.reads
  have hbegun := h.begun
  exact ⟨h.tables.later moved, h.cleared.later moved, by omega, by omega⟩

theorem sweep_rule (job : SweepJob) (person : Nat) (stored : List RowKey) (bound : Nat) :
    Crew.RoundRule (erasureGuarantee person) (eraseDeed person) (sweepRounds person job)
      (bound + 9) bound (Known job person stored bound) where
  lasts := fun _ _ _ _ _ h moved => h.later moved
  bounds := by
    intro stage reads begun rows keys h unfinished fresh
    obtain ⟨hreads, hbegun, -⟩ := sweep_round h (of_decide_eq_false unfinished) fresh
    exact ⟨hreads, hbegun⟩
  round := by
    intro stage reads begun rows keys h unfinished fresh
    exact (sweep_round h (of_decide_eq_false unfinished) fresh).2.2

end Known

/-! ## A further run -/

/-- What a worker knows that has nothing left to do. -/
structure Idle (job : SweepJob) (person : Nat) (stage : SweepStage) (reads begun : Nat)
    (rows : RowKey → Record) : Prop where
  swept : Swept job person rows
  collected : ∀ target rest ids afterId, stage = .collect target rest ids afterId →
    ids = [] ∧ ∀ c ∈ target :: rest, c ∈ deletedByRelation
  deletes : (∀ afterId, stage ≠ .rewriting afterId) → stage ≠ .done → job.deletes = true
  rewrites : ∀ afterId, stage = .rewriting afterId → job.rewrites = true
  reads : reads + loopsLeft stage ≤ 9
  begun : begun = 0

section Idle
variable {job : SweepJob} {person reads begun : Nat} {rows : RowKey → Record} {stage : SweepStage}
  {keys : List RowKey} {uid : Uid} {condition : Record → Bool}

theorem idsWhere_eq_nil (h : ∀ id, condition (rows ⟨uid, id⟩) = false) :
    idsWhere ⟨keys, rows⟩ uid condition = [] := by
  rw [List.eq_nil_iff_forall_not_mem]
  intro id hid
  have hcondition : condition (rows ⟨uid, id⟩) = true := (mem_idsWhere.mp hid).2
  rw [h id] at hcondition
  cases hcondition

theorem linkingPage_eq_nil (afterId : Nat) (h : ∀ id, condition (rows ⟨uid, id⟩) = false) :
    linkingPage ⟨keys, rows⟩ uid condition afterId = [] := by
  rw [linkingPage, idsWhere_eq_nil h]
  rfl

/-- Where the next class begins, and what follows the classes. -/
theorem Idle.startCollect (swept : Swept job person rows) {rest : List RelationClass}
    (known : ∀ c ∈ rest, c ∈ deletedByRelation) (deletes : job.deletes = true)
    (hreads : reads + (rest.length + 3) ≤ 9) :
    Idle job person (Erasure.startCollect rest) reads 0 rows := by
  cases rest with
  | nil => exact ⟨swept, by simp [Erasure.startCollect], fun _ _ => deletes,
      by simp [Erasure.startCollect], hreads, rfl⟩
  | cons target rest =>
      refine ⟨swept, ?_, fun _ _ => deletes, by simp [Erasure.startCollect], ?_, rfl⟩
      · intro target' rest' ids afterId hstage
        cases hstage
        exact ⟨rfl, known⟩
      · simp only [Erasure.startCollect, loopsLeft]
        simp only [List.length_cons] at hreads
        omega

theorem Idle.round (keys : List RowKey) (h : Idle job person stage reads begun rows) (unfinished : stage ≠ .done) :
    (sweepRead job person stage ⟨keys, rows⟩).1 = [] ∧
      Idle job person (sweepRead job person stage ⟨keys, rows⟩).2 (reads + 1) begun rows := by
  have hreads := h.reads
  have hbegun := h.begun
  cases stage with
  | collect target rest ids afterId =>
      obtain ⟨rfl, known⟩ := h.collected target rest ids afterId rfl
      have deletes := h.deletes (by simp) (by simp)
      have hpage : linkingPage ⟨keys, rows⟩ target.uid (Record.links target.field person) afterId =
          [] :=
        linkingPage_eq_nil afterId ((h.swept.erased deletes).classes target
          (known target List.mem_cons_self))
      have hread : sweepRead job person (.collect target rest [] afterId) ⟨keys, rows⟩ =
          ([], Erasure.startCollect rest) := by
        simp only [sweepRead, readCollect, hpage, List.getLast?_nil]
        rfl
      rw [hread, hbegun]
      simp only [loopsLeft] at hreads
      exact ⟨rfl, .startCollect h.swept (fun c hc => known c (List.mem_cons_of_mem target hc))
        deletes (by omega)⟩
  | classifieds =>
      have deletes := h.deletes (by simp) (by simp)
      have hads : idsWhere ⟨keys, rows⟩ .classified (Record.links "author" person) = [] :=
        idsWhere_eq_nil (h.swept.erased deletes).classifieds
      have hread : sweepRead job person .classifieds ⟨keys, rows⟩ = ([], .shares) := by
        simp only [sweepRead, readClassifieds, hads]
        rfl
      rw [hread, hbegun]
      simp only [loopsLeft] at hreads
      exact ⟨rfl, h.swept, by simp, fun _ _ => deletes, by simp, by
        simp only [loopsLeft]
        omega, rfl⟩
  | shares =>
      have deletes := h.deletes (by simp) (by simp)
      have hpage : sharesPage person ⟨keys, rows⟩ = [] := by
        rw [sharesPage, idsWhere_eq_nil (h.swept.erased deletes).shares]
        rfl
      have hread : sweepRead job person .shares ⟨keys, rows⟩ = ([], job.afterDeletes) :=
        readShares_nil hpage
      rw [hread, hbegun]
      simp only [loopsLeft] at hreads
      refine ⟨rfl, h.swept, ?_, ?_, ?_, ?_, rfl⟩
      · intro target rest ids afterId hstage
        unfold SweepJob.afterDeletes at hstage
        split at hstage <;> cases hstage
      · exact fun _ _ => deletes
      · intro afterId hstage
        cases hjob : job.rewrites with
        | true => rfl
        | false =>
            rw [SweepJob.afterDeletes, hjob] at hstage
            cases hstage
      · unfold SweepJob.afterDeletes
        split
        · simp only [loopsLeft]
          omega
        · simp only [loopsLeft]
          omega
  | rewriting afterId =>
      have hnone := h.swept.unnamed (h.rewrites afterId rfl)
      have hread : sweepRead job person (.rewriting afterId) ⟨keys, rows⟩ = ([], .done) := by
        apply readRewriting_none
        rw [linkingPage_eq_nil afterId hnone, List.getLast?_nil]
      rw [hread, hbegun]
      simp only [loopsLeft] at hreads
      exact ⟨rfl, h.swept, by simp, by simp, by simp, by
        simp only [loopsLeft]
        omega, rfl⟩
  | done => exact absurd rfl unfinished

theorem Idle.later {rows' : RowKey → Record} (h : Idle job person stage reads begun rows)
    (moved : (erasureGuarantee person).Moved rows rows') : Idle job person stage reads begun rows' :=
  ⟨h.swept.later moved, h.collected, h.deletes, h.rewrites, h.reads, h.begun⟩

theorem idle_rule (job : SweepJob) (person : Nat) :
    Crew.RoundRule (erasureGuarantee person) (eraseDeed person) (sweepRounds person job) 9 0
      (Idle job person) where
  lasts := fun _ _ _ _ _ h moved => h.later moved
  bounds := by
    intro stage reads begun rows keys h unfinished _
    obtain ⟨hcalls, hnext⟩ := h.round keys (of_decide_eq_false unfinished)
    refine ⟨?_, ?_⟩
    · have hbound := hnext.reads
      omega
    · show begun + (sweepRead job person stage ⟨keys, rows⟩).1.length ≤ 0
      rw [hcalls, h.begun]
      exact Nat.le_refl 0
  round := by
    intro stage reads begun rows keys h unfinished _ rows' moved _
    obtain ⟨hcalls, hnext⟩ := h.round keys (of_decide_eq_false unfinished)
    show Idle job person (sweepRead job person stage ⟨keys, rows⟩).2 (reads + 1)
      (begun + (sweepRead job person stage ⟨keys, rows⟩).1.length) rows'
    rw [hcalls]
    exact hnext.later moved

end Idle

end Sinnlos.Cms.Erasure

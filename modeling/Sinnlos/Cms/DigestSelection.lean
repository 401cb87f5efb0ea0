import Sinnlos.Cms.Digests

/-!
# What a run selects for one recipient

Each read of a run and each cut of it by its spec: which rows of the tables
reach a recipient's section, whatever the windows of the others are.
-/

namespace Sinnlos.Cms.Digest

/-! ## The anchors -/

section Index

variable {ms : Int} {documentId : String} (since : Int) (userId : Nat)

@[simp]
theorem toldBefore_empty : toldBefore since .empty documentId = false := rfl

theorem toldBefore_noteEarliest (instants : OrderedMap String Int) (noted : String) :
    toldBefore since (noteEarliest instants noted ms) documentId = true ↔
      toldBefore since instants documentId = true ∨ (noted = documentId ∧ ms < since) := by
  unfold noteEarliest toldBefore
  by_cases heq : documentId = noted
  · subst heq
    cases hget : instants.get? documentId with
    | none => simp
    | some earliest =>
        dsimp only
        by_cases hlt : ms < earliest
        · rw [if_pos hlt]
          simp only [OrderedMap.get?_set, if_true, Option.any_some, decide_eq_true_eq, true_and]
          constructor
          · exact Or.inr
          · rintro (h | h)
            · omega
            · exact h
        · rw [if_neg hlt, hget]
          simp only [Option.any_some, decide_eq_true_eq, true_and]
          constructor
          · exact Or.inl
          · rintro (h | h)
            · exact h
            · omega
  · have hne : ¬ noted = documentId := fun h => heq h.symm
    have hkeep : (noteEarliest instants noted ms).get? documentId = instants.get? documentId := by
      unfold noteEarliest
      split
      · exact OrderedMap.get?_set_of_ne _ _ heq
      · split
        · exact OrderedMap.get?_set_of_ne _ _ heq
        · rfl
    unfold noteEarliest at hkeep
    rw [hkeep]
    simp [hne]

/-- The row tells of the document before `since`. -/
def Tells (since : Int) (documentId : String) (row : NotificationRow) : Prop :=
  row.sourceDocumentId = some documentId ∧ ∃ ms, row.createdAt = some ms ∧ ms < since

/-- What one row adds to the index. -/
theorem toldBefore_note (index : NotifiedIndex) (row : NotificationRow) (hne : documentId ≠ "") :
    (toldBefore since (index.note row).first documentId = true ↔
      toldBefore since index.first documentId = true ∨ Tells since documentId row) ∧
    (toldBefore since (((index.note row).byUser.get? userId).getD .empty) documentId = true ↔
      toldBefore since ((index.byUser.get? userId).getD .empty) documentId = true ∨
        (row.recipient = some userId ∧ Tells since documentId row)) := by
  unfold NotifiedIndex.note Tells
  cases hdocument : row.sourceDocumentId with
  | none => simp
  | some noted =>
      cases hcreated : row.createdAt with
      | none => simp
      | some createdMs =>
          dsimp only
          by_cases hempty : noted = ""
          · have hother : noted ≠ documentId := by
              rw [hempty]
              exact hne.symm
            rw [if_pos hempty]
            simp [hother]
          · rw [if_neg hempty]
            cases hrecipient : row.recipient with
            | none => simp [toldBefore_noteEarliest]
            | some noticed =>
                dsimp only
                rw [toldBefore_noteEarliest]
                by_cases huser : userId = noticed
                · subst huser
                  simp [toldBefore_noteEarliest]
                · have hother : ¬ noticed = userId := fun h => huser h.symm
                  rw [OrderedMap.get?_set_of_ne _ _ huser]
                  simp [hother]

theorem toldBefore_notifiedIndex (rows : List NotificationRow) (hne : documentId ≠ "") :
    (toldBefore since (notifiedIndex rows).first documentId = true ↔
      ∃ row ∈ rows, Tells since documentId row) ∧
    (toldBefore since (((notifiedIndex rows).byUser.get? userId).getD .empty) documentId = true ↔
      ∃ row ∈ rows, row.recipient = some userId ∧ Tells since documentId row) := by
  induction rows using List.reverseRecOn with
  | nil =>
      constructor
      · simp [notifiedIndex, NotifiedIndex.none]
      · have hnone : ((notifiedIndex []).byUser.get? userId).getD .empty = OrderedMap.empty := rfl
        rw [hnone]
        simp
  | append_singleton rows row ih =>
      have hsnoc : notifiedIndex (rows ++ [row]) = (notifiedIndex rows).note row := by
        unfold notifiedIndex
        rw [List.foldl_append]
        rfl
      obtain ⟨hfirst, huser⟩ := toldBefore_note since userId (notifiedIndex rows) row hne
      rw [hsnoc, hfirst, huser, ih.1, ih.2]
      simp [or_and_right, exists_or]

end Index

/-! ## Paging -/

theorem mem_loadNotified {notifications : List NotificationRow} {documentIds : List String}
    {before : Int} (hids : (notifications.map (·.id)).Nodup)
    (hpos : ∀ row ∈ notifications, 0 < row.id) {row : NotificationRow} :
    row ∈ loadNotified notifications documentIds before ↔
      row ∈ notifications ∧ anchors documentIds before row = true := by
  unfold loadNotified
  obtain ⟨found, hfound⟩ : ∃ found, found = notifications.filter (anchors documentIds before) :=
    ⟨_, rfl⟩
  rw [← hfound]
  obtain ⟨rows, hrows⟩ : ∃ rows, rows = found.insertionSort fun a b => a.id ≤ b.id := ⟨_, rfl⟩
  have hperm : rows.Perm found := by
    rw [hrows]
    exact List.perm_insertionSort _ _
  have hnodup : (rows.map (·.id)).Nodup := by
    rw [(hperm.map _).nodup_iff, hfound]
    exact hids.sublist (List.filter_sublist.map _)
  have hle : rows.Pairwise fun a b => a.id ≤ b.id := by
    have htotal : Std.Total fun a b : NotificationRow => a.id ≤ b.id := ⟨fun a b => by omega⟩
    have htrans : IsTrans NotificationRow fun a b => a.id ≤ b.id := ⟨fun a b c => by omega⟩
    rw [hrows]
    exact List.pairwise_insertionSort _ _
  have hsorted : rows.Pairwise fun a b => a.id < b.id := by
    have hdistinct : rows.Pairwise fun a b => a.id ≠ b.id := List.pairwise_map.mp hnodup
    exact hle.imp₂ (fun a b h hne => by omega) hdistinct
  have hall : Keyset.behind NotificationRow.id rows 0 = rows := by
    unfold Keyset.behind
    rw [List.filter_eq_self]
    intro row hrow
    have hmem := hperm.mem_iff.mp hrow
    rw [hfound, List.mem_filter] at hmem
    simpa using hpos row hmem.1
  dsimp only
  rw [← hrows, Keyset.readPages_eq hsorted (by decide) (by rw [hall]; omega), hall, hperm.mem_iff,
    hfound, List.mem_filter]

/-! ## The cut -/

section Select

variable {since : Int} {scope : RecipientScope} {notifiedAt firstNotifiedAt : OrderedMap String Int}
  {seen : List String} {rows : List DigestAnnouncement} {row : DigestAnnouncement}

/-- A row that the recipient's part may hold. -/
structure Selectable (since : Int) (scope : RecipientScope)
    (notifiedAt firstNotifiedAt : OrderedMap String Int) (row : DigestAnnouncement) : Prop where
  published : ∃ ms, row.publishedAt = some ms ∧ since ≤ ms
  visible : isAnnouncementVisible row.targeting scope.toUserScope = true
  not_told : ∀ documentId, row.documentId = some documentId →
    toldBefore since notifiedAt documentId = false
  author_not_told : ∀ documentId author, row.documentId = some documentId →
    row.author = some author → author.id = scope.userId →
      toldBefore since firstNotifiedAt documentId = false

theorem published_of_not_all (h : ¬ (row.publishedAt.all fun ms => ms < since) = true) :
    ∃ ms, row.publishedAt = some ms ∧ since ≤ ms := by
  cases hms : row.publishedAt with
  | none => simp [hms] at h
  | some ms =>
      rw [hms] at h
      simp only [Option.all_some, decide_eq_true_eq] at h
      exact ⟨ms, rfl, by omega⟩

/-- Whatever is selected is one of the rows, and may be. -/
theorem selectRows_sound
    (h : row ∈ selectRows since scope notifiedAt firstNotifiedAt seen rows) :
    row ∈ rows ∧ Selectable since scope notifiedAt firstNotifiedAt row := by
  induction rows generalizing seen with
  | nil => simp [selectRows] at h
  | cons head rows ih =>
      have later {seen : List String}
          (h : row ∈ selectRows since scope notifiedAt firstNotifiedAt seen rows) :
          row ∈ head :: rows ∧ Selectable since scope notifiedAt firstNotifiedAt row :=
        ⟨List.mem_cons_of_mem _ (ih h).1, (ih h).2⟩
      rw [selectRows] at h
      split at h
      · exact later h
      · next hpublished =>
          split at h
          · exact later h
          · next hvisible =>
              have hsees : isAnnouncementVisible head.targeting scope.toUserScope = true := by
                simpa using hvisible
              split at h
              · next hdocument =>
                  rcases List.mem_cons.mp h with rfl | h
                  · exact ⟨List.mem_cons_self, published_of_not_all hpublished, hsees,
                      by simp [hdocument], by simp [hdocument]⟩
                  · exact later h
              · next documentId hdocument =>
                  split at h
                  · exact later h
                  · split at h
                    · exact later h
                    · next htold =>
                        split at h
                        · exact later h
                        · next hauthor =>
                            rcases List.mem_cons.mp h with rfl | h
                            · refine ⟨List.mem_cons_self, published_of_not_all hpublished, hsees,
                                ?_, ?_⟩
                              · intro other hother
                                rw [hdocument] at hother
                                cases hother
                                simpa using htold
                              · intro other author hother hby hid
                                rw [hdocument] at hother
                                cases hother
                                simpa [hby, hid] using hauthor
                            · exact later h

/-- A document that nobody was told of is selected where one of its rows is
visible. -/
theorem selectRows_complete {documentId : String} (hmem : row ∈ rows)
    (hdocument : row.documentId = some documentId)
    (hpublished : ∃ ms, row.publishedAt = some ms ∧ since ≤ ms)
    (hvisible : isAnnouncementVisible row.targeting scope.toUserScope = true)
    (hseen : documentId ∉ seen) (htold : toldBefore since notifiedAt documentId = false)
    (hfirst : toldBefore since firstNotifiedAt documentId = false) :
    ∃ chosen ∈ selectRows since scope notifiedAt firstNotifiedAt seen rows,
      chosen.documentId = some documentId := by
  induction rows generalizing seen with
  | nil => cases hmem
  | cons head rows ih =>
      obtain ⟨ms, hms, hle⟩ := hpublished
      by_cases hhead : head.documentId = some documentId ∧
          ¬ (head.publishedAt.all fun ms => ms < since) = true ∧
          isAnnouncementVisible head.targeting scope.toUserScope = true
      · obtain ⟨hsame, hrecent, hsees⟩ := hhead
        refine ⟨head, ?_, hsame⟩
        rw [selectRows, if_neg hrecent, if_neg (by simp [hsees]), hsame]
        simp [hseen, htold, hfirst]
      · -- the head is no row of the document that the cut keeps
        have hrest : row ∈ rows := by
          rcases List.mem_cons.mp hmem with rfl | hrest
          · exact absurd ⟨hdocument, by simp [hms]; omega, hvisible⟩ hhead
          · exact hrest
        have hnext {seen : List String} (hseen : documentId ∉ seen) :
            ∃ chosen ∈ selectRows since scope notifiedAt firstNotifiedAt seen rows,
              chosen.documentId = some documentId := ih hrest hseen
        rw [selectRows]
        split
        · exact hnext hseen
        · next hrecent =>
            split
            · exact hnext hseen
            · next hsees =>
                split
                · obtain ⟨chosen, hchosen, hid⟩ := hnext hseen
                  exact ⟨chosen, List.mem_cons_of_mem _ hchosen, hid⟩
                · next other hother =>
                    have hne : other ≠ documentId := by
                      intro heq
                      exact hhead ⟨by rw [hother, heq], hrecent, by simpa using hsees⟩
                    have hcons : documentId ∉ other :: seen := by
                      simp [hne.symm, hseen]
                    split
                    · exact hnext hseen
                    · split
                      · exact hnext hcons
                      · split
                        · exact hnext hcons
                        · obtain ⟨chosen, hchosen, hid⟩ := hnext hcons
                          exact ⟨chosen, List.mem_cons_of_mem _ hchosen, hid⟩

end Select

end Sinnlos.Cms.Digest

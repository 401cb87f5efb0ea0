import Sinnlos.Cms.AuthoringLists

/-! # The two paths of the authoring list agree

The keys the light path sorts are those of the documents the full path sorts, so
both cut the same page; what the light path reads again by documentId is what the
full path read. Statements may come across the rows in different orders where the
order of the list leaves no tie.
-/

namespace Sinnlos.Cms.AuthoringLists

variable {χ : Type} {platform : Platform} {spec : AuthoringSpec χ} {gate : AuthoringGate}
  {query : ListQuery} {tables other : ListTables χ} {scan : Scan χ}

/-- At most one draft row of each document. -/
def ListTables.OneDraft (tables : ListTables χ) : Prop :=
  ((tables.rows.filter fun row => !row.published).map ListRow.documentId).Nodup

instance (tables : ListTables χ) : Decidable tables.OneDraft :=
  inferInstanceAs (Decidable (List.Nodup _))

/-- The list comes out the same in whichever order the rows are read: no instant is
unreadable, the collation orders the documentIds and tells them apart, and no
document has two published rows or two versions. -/
structure OrderFree (platform : Platform) (tables : ListTables χ) : Prop where
  readable : ∀ row ∈ tables.rows, ms platform row.updatedAt ≠ some none
  collation : Consistent (fun a b => some (platform.localeCompare a b))
    (tables.rows.map ListRow.documentId)
  separates : ∀ row ∈ tables.rows, ∀ row' ∈ tables.rows,
    platform.localeCompare row.documentId row'.documentId = 0 → row.documentId = row'.documentId
  onePublished : ((tables.rows.filter ListRow.published).map ListRow.documentId).Nodup
  oneVersion : (tables.versions.map fun row => (row.targetUid, row.targetDocumentId)).Nodup

/-- The statements of a list all read the state `tables`: in one order of its rows, or
each in an order of its own where the order does not matter. -/
def Reads (platform : Platform) (tables : ListTables χ) (scan : Scan χ) : Prop :=
  (∀ statement, scan statement = tables) ∨
    OrderFree platform tables ∧ ∀ statement,
      (scan statement).rows.Perm tables.rows ∧ (scan statement).versions.Perm tables.versions

/-! ## The sorted drafts -/

/-- The matching drafts in the order of the list. -/
def sortedDrafts (platform : Platform) (gate : AuthoringGate) (query : ListQuery)
    (tables : ListTables χ) : List (ListRow χ) :=
  platform.array.sort (fun a b => newestDraftFirst platform a.listKey b.listKey)
    (matchingDrafts platform gate query tables)

theorem matchingDrafts_sublist :
    (matchingDrafts platform gate query tables).Sublist
      (tables.rows.filter fun row => !row.published) := by
  have hwhere : (tables.rows.filter (listWhere gate query)).Sublist
      (tables.rows.filter fun row => !row.published) := by
    apply List.monotone_filter_right
    intro row h
    simp only [listWhere, Bool.and_eq_true] at h
    exact h.1.1.1
  exact List.filter_sublist.trans hwhere

variable {row : ListRow χ}

theorem mem_sortedDrafts :
    row ∈ sortedDrafts platform gate query tables ↔ row ∈ matchingDrafts platform gate query tables :=
  platform.array.mem_sort

theorem draft_of_sortedDrafts (h : row ∈ sortedDrafts platform gate query tables) :
    row ∈ tables.rows ∧ row.published = false := by
  have hmem := matchingDrafts_sublist.subset (mem_sortedDrafts.mp h)
  rw [List.mem_filter, Bool.not_eq_true'] at hmem
  exact hmem

theorem sortedDrafts_nodup (oneDraft : tables.OneDraft) :
    ((sortedDrafts platform gate query tables).map ListRow.documentId).Nodup := by
  have hmatching : ((matchingDrafts platform gate query tables).map ListRow.documentId).Nodup :=
    oneDraft.sublist (matchingDrafts_sublist.map _)
  exact ((platform.array.perm _ _).map _).nodup_iff.mpr hmatching

variable {later earlier : Int} {a b : ListRow χ} {items : List String}

/-- The difference that the order of two readable drafts is made of. -/
theorem newestDraftFirst_of_readable {a b : ListKey}
    (hb : (ms platform b.updatedAt).getD (some 0) = some later)
    (ha : (ms platform a.updatedAt).getD (some 0) = some earlier) :
    newestDraftFirst platform a b =
      some (if later = earlier then platform.localeCompare a.documentId b.documentId
        else later - earlier) := by
  unfold newestDraftFirst
  rw [ha, hb]
  by_cases h : later = earlier
  · simp [h]
  · simp [h, Int.sub_eq_zero]

theorem OrderFree.instant (h : OrderFree platform tables) (hrow : row ∈ tables.rows) :
    ∃ instant, (ms platform row.updatedAt).getD (some 0) = some instant := by
  have hreadable := h.readable row hrow
  cases hms : ms platform row.updatedAt with
  | none => exact ⟨0, rfl⟩
  | some value =>
      cases value with
      | none => exact absurd hms hreadable
      | some instant => exact ⟨instant, rfl⟩

theorem notAfter_iff (hb : (ms platform b.updatedAt).getD (some 0) = some later)
    (ha : (ms platform a.updatedAt).getD (some 0) = some earlier) :
    NotAfter (fun a b => newestDraftFirst platform a.listKey b.listKey) a b ↔
      later < earlier ∨ later = earlier ∧
        NotAfter (fun a b => some (platform.localeCompare a b)) a.documentId b.documentId := by
  have hkey := newestDraftFirst_of_readable (a := a.listKey) (b := b.listKey) hb ha
  simp only [NotAfter, hkey, Option.some.injEq, exists_eq_left']
  by_cases heq : later = earlier
  · simp [heq, ListRow.listKey]
  · rw [if_neg heq]
    omega

theorem OrderFree.consistent (h : OrderFree platform tables) :
    Consistent (fun a b => newestDraftFirst platform a.listKey b.listKey) tables.rows where
  opposite a ha b hb := by
    obtain ⟨earlier, hearlier⟩ := h.instant ha
    obtain ⟨later, hlater⟩ := h.instant hb
    have hab := newestDraftFirst_of_readable (a := a.listKey) (b := b.listKey) hlater hearlier
    have hba := newestDraftFirst_of_readable (a := b.listKey) (b := a.listKey) hearlier hlater
    refine ⟨_, _, hab, hba, ?_⟩
    by_cases heq : later = earlier
    · obtain ⟨m, n, hm, hn, hsign⟩ := h.collation.opposite _ (List.mem_map_of_mem ha) _
        (List.mem_map_of_mem hb)
      rw [if_pos heq, if_pos heq.symm]
      rw [← Option.some.inj hm, ← Option.some.inj hn] at hsign
      exact hsign
    · rw [if_neg heq, if_neg (Ne.symm heq), ← Int.sign_neg, Int.neg_sub]
  trans a ha b hb c hc hab hbc := by
    obtain ⟨first, hfirst⟩ := h.instant ha
    obtain ⟨second, hsecond⟩ := h.instant hb
    obtain ⟨third, hthird⟩ := h.instant hc
    rw [notAfter_iff hsecond hfirst] at hab
    rw [notAfter_iff hthird hsecond] at hbc
    rw [notAfter_iff hthird hfirst]
    rcases hab with hab | ⟨hab, hidab⟩
    · exact Or.inl (by omega)
    · rcases hbc with hbc | ⟨hbc, hidbc⟩
      · exact Or.inl (by omega)
      · exact Or.inr ⟨hbc.trans hab, h.collation.trans _ (List.mem_map_of_mem ha) _
          (List.mem_map_of_mem hb) _ (List.mem_map_of_mem hc) hidab hidbc⟩

/-- Two drafts that tie are one. -/
theorem OrderFree.noTie (h : OrderFree platform tables) (oneDraft : tables.OneDraft)
    (ha : a ∈ matchingDrafts platform gate query tables)
    (hb : b ∈ matchingDrafts platform gate query tables)
    (hab : NotAfter (fun a b => newestDraftFirst platform a.listKey b.listKey) a b)
    (hba : NotAfter (fun a b => newestDraftFirst platform a.listKey b.listKey) b a) : a = b := by
  have hmema := List.mem_filter.mp (matchingDrafts_sublist.subset ha)
  have hmemb := List.mem_filter.mp (matchingDrafts_sublist.subset hb)
  obtain ⟨earlier, hearlier⟩ := h.instant hmema.1
  obtain ⟨later, hlater⟩ := h.instant hmemb.1
  rw [notAfter_iff hlater hearlier] at hab
  rw [notAfter_iff hearlier hlater] at hba
  have hid : a.documentId = b.documentId := by
    rcases hab with hab | ⟨heq, m, hm, hle⟩
    · rcases hba with hba | ⟨hba, -⟩ <;> omega
    · rcases hba with hba | ⟨-, n, hn, hle'⟩
      · omega
      · obtain ⟨m', n', hm', hn', hsign⟩ := h.collation.opposite _
          (List.mem_map_of_mem hmema.1) _ (List.mem_map_of_mem hmemb.1)
        have hmm : m' = m := Option.some.inj (hm'.symm.trans hm)
        have hnn : n' = n := Option.some.inj (hn'.symm.trans hn)
        have hzero : m = 0 := by
          by_contra hne
          have hminus : m.sign = -1 := Int.sign_eq_neg_one_of_neg (by omega)
          rw [hmm, hnn, hminus] at hsign
          have hpos : 0 < n := Int.sign_eq_one_iff_pos.mp hsign
          omega
        exact h.separates a hmema.1 b hmemb.1 ((Option.some.inj hm).trans hzero)
  exact List.inj_on_of_nodup_map oneDraft (List.mem_filter.mpr hmema) (List.mem_filter.mpr hmemb) hid

/-! ## One state read by every statement -/

/-- `other` answers the reads of the list like `tables`. -/
structure Agrees (platform : Platform) (gate : AuthoringGate) (query : ListQuery)
    (tables other : ListTables χ) : Prop where
  sorted : sortedDrafts platform gate query other = sortedDrafts platform gate query tables
  drafts : ∀ documentId, draftRows other documentId = draftRows tables documentId
  twins : ∀ documentId, publishedRows other documentId = publishedRows tables documentId
  versions : ∀ uid documentId, versionRows other uid documentId = versionRows tables uid documentId

/-- A list of at most one element is the same in every order. -/
theorem eq_of_perm_of_length {α : Type} {items other : List α} (same : other.Perm items)
    (h : items.length ≤ 1) : other = items := by
  match items with
  | [] => exact same.eq_nil
  | [item] => exact List.perm_singleton.mp same
  | _ :: _ :: _ => simp at h

/-- Rows of one key, where no key repeats. -/
theorem length_of_key {α κ : Type} [DecidableEq κ] {key : α → κ} {rows : List α}
    (unique : (rows.map key).Nodup) (k : κ) : (rows.filter fun row => key row = k).length ≤ 1 := by
  cases hrows : rows.filter fun row => key row = k with
  | nil => exact Nat.zero_le _
  | cons row rest =>
      have hmem : row ∈ rows.filter fun row => key row = k := hrows ▸ List.mem_cons_self
      rw [List.mem_filter] at hmem
      have hown := Lookup.filter_own_key unique hmem.1
      rw [of_decide_eq_true hmem.2, hrows] at hown
      rw [hown]
      exact Nat.le_refl 1

theorem draftRows_eq (tables : ListTables χ) (documentId : String) :
    draftRows tables documentId =
      (tables.rows.filter fun row => !row.published).filter fun row =>
        row.documentId = documentId := by
  unfold draftRows
  rw [List.filter_filter]
  apply List.filter_congr
  intro row _
  exact Bool.and_comm ..

theorem publishedRows_eq (tables : ListTables χ) (documentId : String) :
    publishedRows tables documentId =
      (tables.rows.filter ListRow.published).filter fun row => row.documentId = documentId := by
  unfold publishedRows
  rw [List.filter_filter]
  apply List.filter_congr
  intro row _
  exact Bool.and_comm ..

theorem versionRows_eq (tables : ListTables χ) (uid documentId : String) :
    versionRows tables uid documentId =
      tables.versions.filter fun row =>
        (row.targetUid, row.targetDocumentId) = (uid, some documentId) := by
  unfold versionRows
  simp only [Prod.mk.injEq]

/-- Where no document has two drafts, a draft is the only one of its document. -/
theorem draftRows_own (oneDraft : tables.OneDraft) (hrow : row ∈ tables.rows)
    (hdraft : row.published = false) : draftRows tables row.documentId = [row] := by
  rw [draftRows_eq]
  apply Lookup.filter_own_key oneDraft
  rw [List.mem_filter]
  exact ⟨hrow, by simp [hdraft]⟩

theorem OrderFree.agrees (h : OrderFree platform tables) (oneDraft : tables.OneDraft)
    (rows : other.rows.Perm tables.rows) (versions : other.versions.Perm tables.versions) :
    Agrees platform gate query tables other where
  sorted := by
    have hmatching : (matchingDrafts platform gate query tables).Perm
        (matchingDrafts platform gate query other) := ((rows.filter _).filter _).symm
    have hsub : matchingDrafts platform gate query tables ⊆ tables.rows := by
      intro row hrow
      exact (List.mem_filter.mp (matchingDrafts_sublist.subset hrow)).1
    exact (platform.array.sort_eq_of_perm hmatching (h.consistent.subset hsub)
      fun a ha b hb => h.noTie oneDraft ha hb).symm
  drafts documentId := by
    rw [draftRows_eq, draftRows_eq]
    exact eq_of_perm_of_length ((rows.filter _).filter _) (length_of_key oneDraft documentId)
  twins documentId := by
    rw [publishedRows_eq, publishedRows_eq]
    exact eq_of_perm_of_length ((rows.filter _).filter _) (length_of_key h.onePublished documentId)
  versions uid documentId := by
    rw [versionRows_eq, versionRows_eq]
    exact eq_of_perm_of_length (versions.filter _) (length_of_key h.oneVersion _)

/-- Every statement of a list that reads one state answers like it. -/
theorem Reads.agrees (h : Reads platform tables scan) (oneDraft : tables.OneDraft)
    (statement : ListStatement) : Agrees platform gate query tables (scan statement) := by
  rcases h with h | ⟨hfree, h⟩
  · rw [h statement]
    exact ⟨rfl, fun _ => rfl, fun _ => rfl, fun _ _ => rfl⟩
  · exact hfree.agrees oneDraft (h statement).1 (h statement).2

/-! ## The two pages -/

/-- A document of the list in one state. -/
def documentAt (tables : ListTables χ) (draft : ListRow χ) : AuthoringRows χ :=
  ⟨draft.documentId, some draft, (publishedRows tables draft.documentId).getLast?⟩

/-- The answer of both paths where all statements read one state. -/
def answerAt (platform : Platform) (spec : AuthoringSpec χ) (gate : AuthoringGate)
    (query : ListQuery) (tables : ListTables χ) : Nat × List (AuthoringRows χ × Int) :=
  ((sortedDrafts platform gate query tables).length,
    (pageOf (sortedDrafts platform gate query tables) query.page).map fun draft =>
      (documentAt tables draft,
        ((versionRows tables spec.uid draft.documentId).filterMap
          VersionRow.revision).getLast?.getD 0))

theorem pageOf_map {α β : Type} (f : α → β) (items : List α) (page : Nat) :
    pageOf (items.map f) page = (pageOf items page).map f :=
  slice_map f items _ _

theorem withPublished_agrees (agrees : ∀ k, Agrees platform gate query tables (scan (.twins k)))
    (drafts : List (ListRow χ)) : withPublished scan drafts = drafts.map (documentAt tables) := by
  rw [withPublished_eq]
  apply List.map_congr_left
  intro draft hdraft
  have htwin := twinOf_eq (fun k => (agrees k).twins draft.documentId)
    (List.mem_map_of_mem (f := ListRow.documentId) hdraft)
  rw [htwin]
  rfl

theorem fullListPage_answer (role : gate.roleClass = .other) (noStatus : query.status = none)
    (agrees : ∀ statement, Agrees platform gate query tables (scan statement)) :
    (fullListPage platform spec gate query scan).answer =
      answerAt platform spec gate query tables := by
  have hdocuments : listDocuments platform spec gate query scan =
      (matchingDrafts platform gate query (scan .drafts)).map (documentAt tables) := by
    unfold listDocuments
    rw [role]
    exact withPublished_agrees (fun k => agrees _) _
  have hall : ((listDocuments platform spec gate query scan).filter fun rows =>
      listStatusMatches platform rows query.status) = listDocuments platform spec gate query scan := by
    rw [noStatus]
    exact List.filter_true ..
  have hsorted : platform.array.sort
      (fun a b => newestDraftFirst platform a.listKey b.listKey)
      (listDocuments platform spec gate query scan) =
      (sortedDrafts platform gate query tables).map (documentAt tables) := by
    rw [hdocuments, ← (agrees .drafts).sorted]
    exact (platform.array.map (documentAt tables)
      (fun a b => newestDraftFirst platform a.listKey b.listKey) _).symm
  unfold fullListPage ListPage.answer answerAt
  simp only [hall, hsorted, List.length_map, pageOf_map, List.map_map, Prod.mk.injEq, true_and]
  apply List.map_congr_left
  intro draft _
  have hversion := revisionsOf_get? (scan .revisions) spec.uid none draft.documentId
    (fun _ h => by cases h)
  rw [(agrees .revisions).versions] at hversion
  simp only [Function.comp_apply, documentAt, hversion]

/-- The documents of the light path's page and their order. -/
theorem lightIds_eq (tables : ListTables χ) :
    (pageOf (platform.array.sort (newestDraftFirst platform)
      ((matchingDrafts platform gate query tables).map ListRow.listKey)) query.page).map
        ListKey.documentId =
      (pageOf (sortedDrafts platform gate query tables) query.page).map ListRow.documentId := by
  have hsorted := platform.array.map ListRow.listKey (newestDraftFirst platform)
    (matchingDrafts platform gate query tables)
  rw [← hsorted, pageOf_map, List.map_map]
  rfl

/-- The drafts of the page as the light path reads them again. -/
def pageDrafts (scan : Scan χ) (ids : List String) : List (ListRow χ) :=
  ids.filterMap fun documentId => (draftRows (scan .drafts) documentId).getLast?

theorem pageDrafts_eq (scan : Scan χ) (ids : List String) :
    ids.filterMap (OrderedMap.ofList ((if ids = [] then [] else (scan .drafts).rows.filter fun row =>
      ids.contains row.documentId && !row.published).map fun draft =>
        (draft.documentId, draft))).get? = pageDrafts scan ids := by
  apply List.filterMap_congr
  intro documentId hid
  have hne : ids ≠ [] := List.ne_nil_of_mem hid
  rw [OrderedMap.get?_ofList_map, if_neg hne, List.filter_filter, draftRows]
  congr 1
  apply List.filter_congr
  intro row _
  by_cases h : row.documentId = documentId
  · simp [h, hid]
  · simp [h]

theorem lightListPage_eq :
    lightListPage platform spec gate query scan =
      let sorted := sortedDrafts platform gate query (scan .lightDrafts)
      let ids := (pageOf sorted query.page).map ListRow.documentId
      { total := sorted.length
        page := withPublished scan (pageDrafts scan ids)
        revisions := revisionsOf (scan .revisions) spec.uid (some ids) } := by
  have htotal : (platform.array.sort (newestDraftFirst platform)
      ((matchingDrafts platform gate query (scan .lightDrafts)).map ListRow.listKey)).length =
      (sortedDrafts platform gate query (scan .lightDrafts)).length := by
    rw [(platform.array.perm _ _).length_eq, List.length_map, sortedDrafts,
      (platform.array.perm _ _).length_eq]
  unfold lightListPage
  simp only [lightIds_eq, pageDrafts_eq, htotal]

theorem mem_pageOf {α : Type} {items : List α} {page : Nat} {item : α}
    (h : item ∈ pageOf items page) : item ∈ items :=
  (slice_sublist ..).subset h

/-- Reading the page's drafts again gives the same rows. -/
theorem pageDrafts_sorted (oneDraft : tables.OneDraft)
    (agrees : Agrees platform gate query tables (scan .drafts)) :
    pageDrafts scan ((pageOf (sortedDrafts platform gate query tables) query.page).map
      ListRow.documentId) = pageOf (sortedDrafts platform gate query tables) query.page := by
  unfold pageDrafts
  rw [List.filterMap_map]
  have hsome : ∀ draft ∈ pageOf (sortedDrafts platform gate query tables) query.page,
      (draftRows (scan .drafts) draft.documentId).getLast? = some draft := by
    intro draft hdraft
    have hrow := draft_of_sortedDrafts (mem_pageOf hdraft)
    rw [agrees.drafts, draftRows_own oneDraft hrow.1 hrow.2]
    rfl
  exact (List.filterMap_congr hsome).trans List.filterMap_some

theorem lightListPage_answer (oneDraft : tables.OneDraft)
    (agrees : ∀ statement, Agrees platform gate query tables (scan statement)) :
    (lightListPage platform spec gate query scan).answer =
      answerAt platform spec gate query tables := by
  rw [lightListPage_eq, (agrees .lightDrafts).sorted]
  simp only [ListPage.answer, pageDrafts_sorted oneDraft (agrees .drafts),
    withPublished_agrees fun k => agrees (.twins k), answerAt, List.map_map, Prod.mk.injEq, true_and]
  apply List.map_congr_left
  intro draft hdraft
  have hread : ∀ ids, some ((pageOf (sortedDrafts platform gate query tables) query.page).map
      ListRow.documentId) = some ids → draft.documentId ∈ ids := by
    intro ids hids
    rw [← Option.some.inj hids]
    exact List.mem_map_of_mem hdraft
  have hversion := revisionsOf_get? (scan .revisions) spec.uid _ draft.documentId hread
  rw [(agrees .revisions).versions] at hversion
  simp only [Function.comp_apply, documentAt, hversion]

/-! ## The pages of a query -/

/-- The same query for another page. -/
def ListQuery.at (query : ListQuery) (page : Nat) : ListQuery := { query with page }

/-- The page has no part in the order. -/
theorem sortedDrafts_at (page : Nat) : sortedDrafts platform gate (query.at page) tables =
    sortedDrafts platform gate query tables := rfl

theorem answer_documentIds {list : ListPage χ}
    (h : list.answer = answerAt platform spec gate query tables) :
    list.documentIds =
      pageOf ((sortedDrafts platform gate query tables).map ListRow.documentId) query.page := by
  have hsecond := congrArg (fun answer => answer.2.map fun item => item.1.documentId) h
  simp only [ListPage.answer, answerAt, List.map_map] at hsecond
  rw [pageOf_map]
  exact hsecond

theorem pageOf_disjoint (distinct : items.Nodup) {p q : Nat} (hp : 1 ≤ p) (hq : 1 ≤ q)
    (hne : p ≠ q) : (pageOf items p).Disjoint (pageOf items q) := by
  have hpage : ∀ page, 1 ≤ page → pageOf items page = slice items
      ((page - 1) * authoringListPageSize)
      ((page - 1) * authoringListPageSize + authoringListPageSize) := by
    intro page h
    rw [pageOf, ← Nat.succ_mul, Nat.succ_eq_add_one, Nat.sub_add_cancel h]
  rw [hpage p hp, hpage q hq]
  rcases Nat.lt_or_gt_of_ne hne with hlt | hlt
  · exact slice_disjoint distinct (show p - 1 < q - 1 by omega)
  · intro item hfirst hsecond
    exact slice_disjoint distinct (show q - 1 < p - 1 by omega) hsecond hfirst

theorem mem_some_page {item : String} :
    item ∈ items ↔ ∃ page, 1 ≤ page ∧ item ∈ pageOf items page := by
  constructor
  · intro h
    obtain ⟨k, hk⟩ := exists_slice (show 0 < authoringListPageSize by decide) h
    refine ⟨k + 1, Nat.le_add_left 1 k, ?_⟩
    rw [pageOf, Nat.add_sub_cancel, Nat.succ_mul]
    exact hk
  · rintro ⟨page, -, h⟩
    exact mem_pageOf h

/-! ## Deletions between the statements -/

/-- An item shows rows of its own document, as they are in `tables`. -/
structure Shows (tables : ListTables χ) (item : AuthoringRows χ) : Prop where
  draft : ∃ row ∈ tables.rows,
    item.draft = some row ∧ row.published = false ∧ row.documentId = item.documentId
  published : ∀ row, item.published = some row →
    row ∈ tables.rows ∧ row.published = true ∧ row.documentId = item.documentId

theorem withPublished_documentIds (scan : Scan χ) (drafts : List (ListRow χ)) :
    (withPublished scan drafts).map AuthoringRows.documentId = drafts.map ListRow.documentId := by
  rw [withPublished_eq, List.map_map]
  rfl

theorem withPublished_shows {drafts : List (ListRow χ)}
    (kept : ∀ k, (scan (.twins k)).rows ⊆ tables.rows)
    (hdrafts : ∀ draft ∈ drafts, draft ∈ tables.rows ∧ draft.published = false)
    {item : AuthoringRows χ} (h : item ∈ withPublished scan drafts) : Shows tables item := by
  rw [withPublished_eq] at h
  obtain ⟨draft, hdraft, rfl⟩ := List.mem_map.mp h
  have hrow := hdrafts draft hdraft
  refine ⟨⟨draft, hrow.1, rfl, hrow.2, rfl⟩, ?_⟩
  intro row hpublished
  obtain ⟨⟨k, hk⟩, htwin⟩ := twinOf_mem hpublished
  exact ⟨kept k hk, htwin⟩

theorem mem_pageDrafts {ids : List String} {draft : ListRow χ} (h : draft ∈ pageDrafts scan ids) :
    draft ∈ (scan .drafts).rows ∧ draft.published = false := by
  obtain ⟨documentId, -, hlast⟩ := List.mem_filterMap.mp h
  have hmem := List.mem_filter.mp (List.mem_of_getLast? hlast)
  simp only [Bool.and_eq_true, Bool.not_eq_true'] at hmem
  exact ⟨hmem.1, hmem.2.1⟩

/-- Drafts found again by documentId keep the order of the page. -/
theorem pageDrafts_sublist (scan : Scan χ) (ids : List String) :
    ((pageDrafts scan ids).map ListRow.documentId).Sublist ids := by
  induction ids with
  | nil => exact List.Sublist.slnil
  | cons documentId ids ih =>
      unfold pageDrafts
      rw [List.filterMap_cons]
      cases hlast : (draftRows (scan .drafts) documentId).getLast? with
      | none => exact ih.cons documentId
      | some draft =>
          have hmem := List.mem_filter.mp (List.mem_of_getLast? hlast)
          have hid : draft.documentId = documentId := by
            have hboth := hmem.2
            rw [Bool.and_eq_true] at hboth
            exact of_decide_eq_true hboth.2
          rw [List.map_cons, hid]
          exact ih.cons_cons documentId

/-- Rows deleted while the light path reads leave its page, and nothing else happens to it. -/
theorem lightListPage_deletions (kept : ∀ statement, (scan statement).rows ⊆ (scan .lightDrafts).rows) :
    (lightListPage platform spec gate query scan).documentIds.Sublist
      (pageOf ((sortedDrafts platform gate query (scan .lightDrafts)).map ListRow.documentId)
        query.page) ∧
      ∀ item ∈ (lightListPage platform spec gate query scan).page,
        Shows (scan .lightDrafts) item := by
  rw [lightListPage_eq]
  constructor
  · rw [ListPage.documentIds, withPublished_documentIds, pageOf_map]
    exact pageDrafts_sublist scan _
  · intro item hitem
    refine withPublished_shows (fun k => kept _) ?_ hitem
    intro draft hdraft
    have hrow := mem_pageDrafts hdraft
    exact ⟨kept _ hrow.1, hrow.2⟩

/-- On the full path the page is the one of its read of the drafts. -/
theorem fullListPage_deletions (role : gate.roleClass = .other) (noStatus : query.status = none)
    (kept : ∀ k, (scan (.twins k)).rows ⊆ (scan .drafts).rows) :
    (fullListPage platform spec gate query scan).documentIds =
      pageOf ((sortedDrafts platform gate query (scan .drafts)).map ListRow.documentId)
        query.page ∧
      ∀ item ∈ (fullListPage platform spec gate query scan).page, Shows (scan .drafts) item := by
  have hdocuments : ((listDocuments platform spec gate query scan).filter fun rows =>
      listStatusMatches platform rows query.status) =
      withPublished scan (matchingDrafts platform gate query (scan .drafts)) := by
    rw [noStatus, listDocuments, role]
    exact List.filter_true ..
  unfold fullListPage ListPage.documentIds
  rw [hdocuments]
  constructor
  · have hsorted : platform.array.sort
        (fun a b => newestDraftFirst platform a.listKey b.listKey)
        (withPublished scan (matchingDrafts platform gate query (scan .drafts))) =
        (sortedDrafts platform gate query (scan .drafts)).map fun draft =>
          ⟨draft.documentId, some draft,
            twinOf scan ((matchingDrafts platform gate query (scan .drafts)).map
              ListRow.documentId) draft.documentId⟩ := by
      rw [withPublished_eq]
      exact (platform.array.map (fun draft : ListRow χ => (⟨draft.documentId, some draft,
        twinOf scan ((matchingDrafts platform gate query (scan .drafts)).map
          ListRow.documentId) draft.documentId⟩ : AuthoringRows χ))
        (fun a b => newestDraftFirst platform a.listKey b.listKey) _).symm
    simp only [hsorted, pageOf_map, List.map_map]
    rfl
  · intro item hitem
    refine withPublished_shows kept ?_ (platform.array.mem_sort.mp (mem_pageOf hitem))
    intro draft hdraft
    have hmem := List.mem_filter.mp (matchingDrafts_sublist.subset hdraft)
    exact ⟨hmem.1, by simpa using hmem.2⟩

/-! ## The light path answers what the full path answers -/

/-- A moderator's query without a status over one state with at most one draft of each
document: both paths answer the same, its pages hold every matching document once,
and a document deleted between the statements can only be missing from its page. -/
theorem light_list_agrees (platform : Platform) (spec : AuthoringSpec χ) (gate : AuthoringGate)
    (query : ListQuery) (tables : ListTables χ) (role : gate.roleClass = .other)
    (noStatus : query.status = none) (oneDraft : tables.OneDraft) :
    (∀ light full, Reads platform tables light → Reads platform tables full →
      (lightListPage platform spec gate query light).answer =
        (fullListPage platform spec gate query full).answer) ∧
    (∀ reads : Nat → Scan χ, (∀ page, Reads platform tables (reads page)) →
      let ids page := (lightListPage platform spec gate (query.at page) (reads page)).documentIds
      (∀ page, (ids page).Nodup) ∧
      (∀ p q, 1 ≤ p → 1 ≤ q → p ≠ q → (ids p).Disjoint (ids q)) ∧
      ∀ documentId, (∃ draft ∈ matchingDrafts platform gate query tables,
          draft.documentId = documentId) ↔ ∃ page, 1 ≤ page ∧ documentId ∈ ids page) ∧
    (∀ scan : Scan χ, scan .lightDrafts = tables →
      (∀ statement, (scan statement).rows ⊆ tables.rows) →
      (lightListPage platform spec gate query scan).documentIds.Sublist
        (lightListPage platform spec gate query fun _ => tables).documentIds ∧
      ∀ item ∈ (lightListPage platform spec gate query scan).page, Shows tables item) ∧
    ∀ scan : Scan χ, scan .drafts = tables → (∀ k, (scan (.twins k)).rows ⊆ tables.rows) →
      (fullListPage platform spec gate query scan).documentIds.Sublist
        (fullListPage platform spec gate query fun _ => tables).documentIds ∧
      ∀ item ∈ (fullListPage platform spec gate query scan).page, Shows tables item := by
  have hnodup : ((sortedDrafts platform gate query tables).map ListRow.documentId).Nodup :=
    sortedDrafts_nodup oneDraft
  have hundisturbed : Reads platform tables fun _ => tables := Or.inl fun _ => rfl
  have hlight : ∀ page scan, Reads platform tables scan →
      (lightListPage platform spec gate (query.at page) scan).documentIds =
        pageOf ((sortedDrafts platform gate query tables).map ListRow.documentId) page := by
    intro page scan reads
    have hanswer : (lightListPage platform spec gate (query.at page) scan).answer =
        answerAt platform spec gate (query.at page) tables :=
      lightListPage_answer oneDraft fun statement => reads.agrees oneDraft statement
    rw [answer_documentIds hanswer, sortedDrafts_at]
    rfl
  refine ⟨?_, ?_, ?_, ?_⟩
  · intro light full readsLight readsFull
    rw [lightListPage_answer oneDraft fun statement => readsLight.agrees oneDraft statement,
      fullListPage_answer role noStatus fun statement => readsFull.agrees oneDraft statement]
  · intro reads hreads ids
    have hids : ids = pageOf ((sortedDrafts platform gate query tables).map ListRow.documentId) :=
      funext fun page => hlight page (reads page) (hreads page)
    rw [hids]
    refine ⟨fun page => hnodup.sublist (slice_sublist ..), fun p q hp hq hne =>
      pageOf_disjoint hnodup hp hq hne, fun documentId => ?_⟩
    rw [← mem_some_page, List.mem_map]
    simp only [mem_sortedDrafts]
  · intro scan hscan kept
    subst hscan
    have hids : (lightListPage platform spec gate query fun _ => scan .lightDrafts).documentIds =
        _ := hlight query.page _ hundisturbed
    rw [hids]
    exact lightListPage_deletions kept
  · intro scan hscan kept
    subst hscan
    have hids := answer_documentIds (fullListPage_answer role noStatus fun statement =>
      hundisturbed.agrees oneDraft statement : (fullListPage platform spec gate query
        fun _ => scan .drafts).answer = answerAt platform spec gate query (scan .drafts))
    have hdeletions : _ ∧ ∀ item ∈ (fullListPage platform spec gate query scan).page,
        Shows (scan .drafts) item := fullListPage_deletions role noStatus kept
    rw [hids]
    exact ⟨hdeletions.1 ▸ List.Sublist.refl _, hdeletions.2⟩

/-! ## Two drafts saved at once and one never saved -/

/-- The platform on the one instant of the sample and on documentIds in small letters. -/
def samplePlatform : Platform where
  dateParse text := if text = "2026-03-01T08:00:00.000Z" then some 1772352000000 else none
  toISOString _ := "2026-03-01T08:00:00.000Z"
  toLowerCase := String.toLower
  localeCompare a b := if a < b then -1 else if a = b then 0 else 1
  array := ArraySort.merge

def sampleRow (documentId space : String) (published : Bool) (updatedAt : Option String) :
    ListRow Unit where
  documentId
  published
  updatedAt
  label := some documentId
  publishAt := none
  scheduleError := none
  ownerDepartment := none
  space := some space
  course := none
  columns := ()

/-- The published row of the first page lies in another space. -/
def sampleTables : ListTables Unit where
  rows :=
    [ sampleRow "welcome" "handbook" false (some "2026-03-01T08:00:00.000Z"),
      sampleRow "welcome" "archive" true (some "2026-03-01T08:00:00.000Z"),
      sampleRow "tools" "handbook" false (some "2026-03-01T08:00:00.000Z"),
      sampleRow "imported" "handbook" false none ]
  versions := [⟨"api::wiki-page.wiki-page", some "welcome", some 4⟩]

def sampleSpec : AuthoringSpec Unit := ⟨"api::wiki-page.wiki-page", fun _ _ => false⟩

def sampleQuery : ListQuery := ⟨1, none, none, none, some "handbook", none⟩

theorem light_list_agrees_sample :
    (lightListPage samplePlatform sampleSpec ⟨.other, none⟩ sampleQuery fun _ => sampleTables).answer =
      (fullListPage samplePlatform sampleSpec ⟨.other, none⟩ sampleQuery
        fun _ => sampleTables).answer :=
  (light_list_agrees samplePlatform sampleSpec ⟨.other, none⟩ sampleQuery sampleTables rfl rfl
    (by decide)).1 _ _ (Or.inl fun _ => rfl) (Or.inl fun _ => rfl)

end Sinnlos.Cms.AuthoringLists

import Sinnlos.Lib.Lookup
import Sinnlos.Cms.TargetVisibility

/-! # The pinned read of a discussion

One target is visible exactly when the list of all visible targets holds it, and a
filter that pins a target lets only rows of that target pass; so the clause for
the one target selects what the clause for all of them selects.
-/

namespace Sinnlos.Cms.Targets

open Domain (isAnnouncementTargetedTo)
open QueryFilters (kept conditionOf ofFields ofItems)

variable {db : TargetDb} {instantMsOrNull : InstantMsOrNull} {now : Int} {user : Option CallerUser}

/-- Reading in pages reads every row. -/
theorem findAllPaged_eq {ρ : Type} {id : ρ → Nat} {rows : List ρ} (h : Numbered id rows) :
    findAllPaged id rows = rows := by
  have hall : Keyset.behind id rows 0 = rows := by
    unfold Keyset.behind
    rw [List.filter_eq_self]
    intro row hrow
    exact decide_eq_true (h.2 row hrow)
  have hfuel : (Keyset.behind id rows 0).length < rows.length + 1 := by
    rw [hall]
    exact Nat.lt_succ_self _
  unfold findAllPaged
  rw [Keyset.readPages_eq h.1 (by decide) hfuel, hall]

theorem Numbered.filter {ρ : Type} {id : ρ → Nat} {rows : List ρ} (h : Numbered id rows)
    (condition : ρ → Bool) : Numbered id (rows.filter condition) :=
  ⟨h.1.filter _, fun row hrow => h.2 row (List.mem_of_mem_filter hrow)⟩

theorem Numbered.nodup {ρ : Type} {id : ρ → Nat} {rows : List ρ} (h : Numbered id rows) :
    (rows.map id).Nodup := by
  rw [List.Nodup, List.pairwise_map]
  exact h.1.imp fun hlt => Nat.ne_of_lt hlt

/-! ## The announcements -/

/-- An announcement as the loader hands it on: its flags read twice. -/
def AnnouncementRow.twice (row : AnnouncementRow) : AnnouncementRow :=
  { row with targeting := raiseFlags row.targeting (some row.targeting) }

theorem loadAnnouncementRows_eq (db : TargetDb) (condition : AnnouncementRow → Bool) :
    loadAnnouncementRows db condition =
      (db.announcements.filter condition).map AnnouncementRow.twice := by
  have hnumbered := db.announcement_ids.filter condition
  unfold loadAnnouncementRows withFreshAnnouncementFlags
  rw [findAllPaged_eq hnumbered]
  apply List.map_congr_left
  intro row hrow
  have hnodup : (((db.announcements.filter condition).reverse).map AnnouncementRow.id).Nodup := by
    rw [List.map_reverse, List.nodup_reverse]
    exact hnumbered.nodup
  have hfind := Lookup.find_own_key hnodup (List.mem_reverse.mpr hrow)
  rw [hfind]
  rfl

theorem targetAnchor_documentId (id : DocumentId) : targetAnchor (some id.text) = some id.text := by
  simp [targetAnchor, id.trimmed, id.ne]

theorem targetAnchor_of_row (documentId : Option DocumentId) :
    targetAnchor (documentId.map DocumentId.text) = documentId.map DocumentId.text := by
  cases documentId with
  | none => rfl
  | some id => exact targetAnchor_documentId id

/-- Two ids of one text are one. -/
theorem documentId_eq {a b : Option DocumentId} {text : String}
    (ha : a.map DocumentId.text = some text) (hb : b.map DocumentId.text = some text) :
    a = b ∧ a ≠ none := by
  cases a with
  | none => cases ha
  | some a =>
      cases b with
      | none => cases hb
      | some b =>
          cases a
          cases b
          simp only [Option.map_some, Option.some.injEq] at ha hb
          subst ha hb
          exact ⟨rfl, Option.some_ne_none _⟩

/-- No document has two published rows. -/
structure OnePublished (db : TargetDb) : Prop where
  announcements : ∀ a ∈ db.announcements, ∀ b ∈ db.announcements, a.published = true →
    b.published = true → a.documentId = b.documentId → a.documentId ≠ none → a = b
  pages : ∀ a ∈ db.pages, ∀ b ∈ db.pages, a.published = true → b.published = true →
    a.documentId = b.documentId → a.documentId ≠ none → a = b

/-- The entries of published rows, one for each documentId. -/
def entryOf (row : AnnouncementRow) : Option (String × AnnouncementRow) :=
  (targetAnchor (row.documentId.map DocumentId.text)).bind fun anchor =>
    if row.published then some (anchor, row) else none

theorem entryOf_eq_some {row : AnnouncementRow} {anchor : String} {value : AnnouncementRow} :
    entryOf row = some (anchor, value) ↔
      row = value ∧ row.published = true ∧ row.documentId.map DocumentId.text = some anchor := by
  unfold entryOf
  rw [targetAnchor_of_row]
  cases hid : row.documentId with
  | none => simp
  | some id =>
      cases hpublished : row.published with
      | false => simp
      | true =>
          simp only [Option.map_some, Option.bind_some, if_true, Option.some.injEq, Prod.mk.injEq,
            true_and]
          exact And.comm

/-- Of published rows of which no two share a document, each is found under its own. -/
theorem publishedByAnchor_get? {rows : List AnnouncementRow} {anchor : String}
    (unique : ∀ a ∈ rows, ∀ b ∈ rows, a.published = true → b.published = true →
      a.documentId = b.documentId → a.documentId ≠ none → a = b) (row : AnnouncementRow) :
    (publishedByAnchor rows).get? anchor = some row ↔
      row ∈ rows ∧ row.published = true ∧ row.documentId.map DocumentId.text = some anchor := by
  have hsame : ∀ a ∈ rows, ∀ b ∈ rows, a.published = true → b.published = true →
      a.documentId.map DocumentId.text = some anchor →
      b.documentId.map DocumentId.text = some anchor → a = b := by
    intro a ha b hb hpa hpb hta htb
    have hids := documentId_eq hta htb
    exact unique a ha b hb hpa hpb hids.1 hids.2
  have hmem : ∀ entry, entry ∈ (rows.filterMap entryOf).filter (fun entry => entry.1 = anchor) ↔
      entry.1 = anchor ∧ entry.2 ∈ rows ∧ entry.2.published = true ∧
        entry.2.documentId.map DocumentId.text = some anchor := by
    rintro ⟨key, value⟩
    rw [List.mem_filter, List.mem_filterMap]
    constructor
    · rintro ⟨⟨row, hrow, hentry⟩, hkey⟩
      obtain ⟨rfl, hpublished, hid⟩ := entryOf_eq_some.mp hentry
      have hanchor : key = anchor := of_decide_eq_true hkey
      exact ⟨hanchor, hrow, hpublished, hanchor ▸ hid⟩
    · rintro ⟨rfl, hrow, hpublished, hid⟩
      exact ⟨⟨value, hrow, entryOf_eq_some.mpr ⟨rfl, hpublished, hid⟩⟩, by simp⟩
  have hget : (publishedByAnchor rows).get? anchor =
      ((rows.filterMap entryOf).filter fun entry => entry.1 = anchor).getLast?.map Prod.snd :=
    OrderedMap.get?_ofList_eq_getLast? _ anchor
  rw [hget]
  constructor
  · intro h
    obtain ⟨entry, hlast, rfl⟩ := Option.map_eq_some_iff.mp h
    exact ((hmem entry).mp (List.mem_of_getLast? hlast)).2
  · rintro ⟨hrow, hpublished, hid⟩
    have hin := (hmem (anchor, row)).mpr ⟨rfl, hrow, hpublished, hid⟩
    cases hlast : ((rows.filterMap entryOf).filter fun entry => entry.1 = anchor).getLast? with
    | none =>
        rw [List.getLast?_eq_none_iff] at hlast
        rw [hlast] at hin
        cases hin
    | some entry =>
        have hentry := (hmem entry).mp (List.mem_of_getLast? hlast)
        rw [Option.map_some, hsame entry.2 hentry.2.1 row hrow hentry.2.2.1 hpublished hentry.2.2.2 hid]

theorem twice_targeted (row : AnnouncementRow) (scope : Option Domain.AudienceScope) :
    isAnnouncementTargetedTo row.twice.targeting scope =
      isAnnouncementTargetedTo row.targeting scope :=
  isAnnouncementTargetedTo_raiseFlags_self row.targeting scope

/-- The published row of a document as either read finds it. -/
theorem published_get? (one : OnePublished db) (condition : AnnouncementRow → Bool)
    {anchor : String} (row : AnnouncementRow) :
    (publishedByAnchor (loadAnnouncementRows db condition)).get? anchor = some row ↔
      ∃ stored ∈ db.announcements, condition stored = true ∧ stored.twice = row ∧
        stored.published = true ∧ stored.documentId.map DocumentId.text = some anchor := by
  rw [loadAnnouncementRows_eq]
  have unique : ∀ a ∈ (db.announcements.filter condition).map AnnouncementRow.twice,
      ∀ b ∈ (db.announcements.filter condition).map AnnouncementRow.twice,
      a.published = true → b.published = true → a.documentId = b.documentId →
      a.documentId ≠ none → a = b := by
    intro a ha b hb hpa hpb hid hne
    obtain ⟨a, hina, rfl⟩ := List.mem_map.mp ha
    obtain ⟨b, hinb, rfl⟩ := List.mem_map.mp hb
    rw [one.announcements a (List.mem_of_mem_filter hina) b (List.mem_of_mem_filter hinb) hpa hpb
      hid hne]
  rw [publishedByAnchor_get? unique]
  constructor
  · rintro ⟨hrow, hpublished, hid⟩
    obtain ⟨stored, hstored, rfl⟩ := List.mem_map.mp hrow
    rw [List.mem_filter] at hstored
    exact ⟨stored, hstored.1, hstored.2, rfl, hpublished, hid⟩
  · rintro ⟨stored, hstored, hcondition, rfl, hpublished, hid⟩
    exact ⟨List.mem_map_of_mem (List.mem_filter.mpr ⟨hstored, hcondition⟩), hpublished, hid⟩

/-- What makes an announcement visible to a caller who is no moderator. -/
def AnnouncementVisible (instantMsOrNull : InstantMsOrNull) (db : TargetDb) (now : Int)
    (user : Option CallerUser) (documentId : String) : Prop :=
  ∃ row ∈ db.announcements, row.published = true ∧
    row.documentId.map DocumentId.text = some documentId ∧
    isAnnouncementExpired instantMsOrNull row now = false ∧
    isAnnouncementTargetedTo row.targeting ((scopeOf db user).map toAudienceScope) = true

theorem mem_announcement_anchors (one : OnePublished db) {documentId : String} :
    documentId ∈ (visibleTargetAnchors instantMsOrNull db now user).announcement ↔
      AnnouncementVisible instantMsOrNull db now user documentId := by
  simp only [visibleTargetAnchors, List.mem_map, List.mem_filter, Bool.and_eq_true,
    Bool.not_eq_true']
  constructor
  · rintro ⟨⟨anchor, row⟩, ⟨hentry, hexpired, htargeted⟩, rfl⟩
    have hget := OrderedMap.get?_eq_some.mpr hentry
    obtain ⟨stored, hstored, -, rfl, hpublished, hid⟩ := (published_get? one _ row).mp hget
    rw [twice_targeted] at htargeted
    exact ⟨stored, hstored, hpublished, hid, hexpired, htargeted⟩
  · rintro ⟨row, hrow, hpublished, hid, hexpired, htargeted⟩
    have hget := (published_get? one AnnouncementRow.published row.twice).mpr
      ⟨row, hrow, hpublished, rfl, hpublished, hid⟩
    refine ⟨(documentId, row.twice), ⟨OrderedMap.get?_eq_some.mp hget, hexpired, ?_⟩, rfl⟩
    rw [twice_targeted]
    exact htargeted

theorem isTargetVisible_announcement (one : OnePublished db) (caller : isModerator user = false)
    {documentId : String} :
    isTargetVisible instantMsOrNull db now .announcement documentId user = true ↔
      AnnouncementVisible instantMsOrNull db now user documentId := by
  have hget := fun row => @published_get? db one (fun row =>
    row.documentId.map DocumentId.text = some documentId && row.published) documentId row
  simp only [isTargetVisible, caller, Bool.false_eq_true, if_false]
  constructor
  · intro h
    split at h
    · cases h
    · next row hrow =>
        obtain ⟨stored, hstored, -, rfl, hpublished, hid⟩ := (hget row).mp hrow
        split at h
        · cases h
        · next hexpired =>
            rw [twice_targeted] at h
            exact ⟨stored, hstored, hpublished, hid, Bool.eq_false_iff.mpr hexpired, h⟩
  · rintro ⟨row, hrow, hpublished, hid, hexpired, htargeted⟩
    have hfound := (hget row.twice).mpr ⟨row, hrow, by simp [hid, hpublished], rfl, hpublished, hid⟩
    have hnot : ¬ isAnnouncementExpired instantMsOrNull row.twice now = true := by
      rw [Bool.not_eq_true]
      exact hexpired
    simp only [hfound, if_neg hnot, twice_targeted]
    exact htargeted

/-! ## The wiki pages -/

/-- What makes a wiki page visible to a caller who is no moderator. -/
def PageVisible (db : TargetDb) (user : Option CallerUser) (documentId : String) : Prop :=
  ∃ page ∈ db.pages, page.published = true ∧ page.documentId.map DocumentId.text = some documentId ∧
    ∃ spaceId ∈ visibleWikiSpaceIds db (scopeOf db user), page.space = some spaceId

theorem mem_wikiPage_anchors {documentId : String} :
    documentId ∈ (visibleTargetAnchors instantMsOrNull db now user).wikiPage ↔
      PageVisible db user documentId := by
  unfold visibleTargetAnchors visibleWikiPageAnchors PageVisible
  dsimp only
  split
  · next hnone => simp [hnone]
  · simp only [List.mem_eraseDups, List.mem_filterMap, List.mem_filter, targetAnchor_of_row,
      Bool.and_eq_true]
    constructor
    · rintro ⟨page, ⟨hpage, hspace, hpublished⟩, hid⟩
      obtain ⟨spaceId, hlinked, hvisible⟩ := (Option.any_eq_true ..).mp hspace
      exact ⟨page, hpage, hpublished, hid, spaceId, List.contains_iff_mem.mp hvisible, hlinked⟩
    · rintro ⟨page, hpage, hpublished, hid, spaceId, hvisible, hlinked⟩
      refine ⟨page, ⟨hpage, ?_, hpublished⟩, hid⟩
      rw [hlinked]
      exact List.contains_iff_mem.mpr hvisible

theorem isTargetVisible_wikiPage (one : OnePublished db) (caller : isModerator user = false)
    {documentId : String} :
    isTargetVisible instantMsOrNull db now .wikiPage documentId user = true ↔
      PageVisible db user documentId := by
  simp only [isTargetVisible, caller, Bool.false_eq_true, if_false]
  constructor
  · intro h
    split at h
    · cases h
    · next spaceId hspace =>
        obtain ⟨page, hfound, hlinked⟩ := Option.bind_eq_some_iff.mp hspace
        have hcondition := List.find?_some hfound
        rw [Bool.and_eq_true] at hcondition
        exact ⟨page, List.mem_of_find?_eq_some hfound, hcondition.2, of_decide_eq_true hcondition.1,
          spaceId, List.contains_iff_mem.mp h, hlinked⟩
  · rintro ⟨page, hpage, hpublished, hid, spaceId, hvisible, hlinked⟩
    have hfound : db.pages.find? (fun page =>
        page.documentId.map DocumentId.text = some documentId && page.published) = some page := by
      cases hfind : db.pages.find? fun page =>
          page.documentId.map DocumentId.text = some documentId && page.published with
      | none =>
          have hnot := List.find?_eq_none.mp hfind page hpage
          simp [hid, hpublished] at hnot
      | some other =>
          have hcondition := List.find?_some hfind
          rw [Bool.and_eq_true, decide_eq_true_eq] at hcondition
          have hids := documentId_eq hcondition.1 hid
          rw [one.pages other (List.mem_of_find?_eq_some hfind) page hpage hcondition.2 hpublished
            hids.1 hids.2]
    simp only [hfound, Option.bind_some, hlinked]
    exact List.contains_iff_mem.mpr hvisible

/-- One target is visible exactly when the list of the visible ones holds it. -/
theorem isTargetVisible_iff (one : OnePublished db) (caller : isModerator user = false)
    (targetType : CommentTargetType) (documentId : String) :
    isTargetVisible instantMsOrNull db now targetType documentId user = true ↔
      documentId ∈ (visibleTargetAnchors instantMsOrNull db now user).of targetType := by
  cases targetType with
  | announcement =>
      exact (isTargetVisible_announcement one caller).trans (mem_announcement_anchors one).symm
  | wikiPage => exact (isTargetVisible_wikiPage one caller).trans mem_wikiPage_anchors.symm

/-! ## The pinned target -/

section Pin
variable {χ : Type} {leaf : String → Json → ThreadRow χ → QueryFilters.Condition}
  {row : ThreadRow χ}

/-- A row that an object keeps passes each property that is no group. -/
theorem kept_leaf {fields : List (String × Json)} {key : String} {value : Json}
    (h : kept (conditionOf (threadLeaf leaf row) (.obj fields)) = true)
    (hfield : Json.field? key fields = some value) (hand : key ≠ "$and") (hor : key ≠ "$or")
    (hnot : key ≠ "$not") : kept (threadLeaf leaf row key value) = true := by
  have hentry := QueryFilters.kept_field h hfield
  cases value <;> simpa [QueryFilters.ofField, hand, hor, hnot] using hentry

theorem kept_targetType {fields : List (String × Json)} {value : Json} {text : String}
    (h : kept (conditionOf (threadLeaf leaf row) (.obj fields)) = true)
    (hfield : Json.field? "targetType" fields = some value) (htext : eqString value = some text) :
    row.targetType = some text := by
  have hleaf := kept_leaf h hfield (by decide) (by decide) (by decide)
  rw [threadLeaf, htext] at hleaf
  simpa [kept] using hleaf

theorem kept_targetDocumentId {fields : List (String × Json)} {value : Json} {text : String}
    (h : kept (conditionOf (threadLeaf leaf row) (.obj fields)) = true)
    (hfield : Json.field? "targetDocumentId" fields = some value)
    (htext : eqString value = some text) : row.targetDocumentId = some text := by
  have hleaf := kept_leaf h hfield (by decide) (by decide) (by decide)
  rw [threadLeaf, htext] at hleaf
  simpa [kept] using hleaf

/-- A row kept by a filter is kept by each of its conjuncts. -/
theorem kept_conjunct {fields : List (String × Json)} {conjuncts : List (List (String × Json))}
    (h : kept (conditionOf (threadLeaf leaf row) (.obj fields)) = true)
    (hconjuncts : conjunctsOf fields = some conjuncts) {conjunct : List (String × Json)}
    (hmem : conjunct ∈ conjuncts) :
    kept (conditionOf (threadLeaf leaf row) (.obj conjunct)) = true := by
  unfold conjunctsOf at hconjuncts
  split at hconjuncts
  · rw [← Option.some.inj hconjuncts, List.mem_singleton] at hmem
    rw [hmem]
    exact h
  · next items hand =>
      obtain ⟨objects, hobjects, rfl⟩ := Option.map_eq_some_iff.mp hconjuncts
      rcases List.mem_cons.mp hmem with rfl | hobject
      · exact h
      · obtain ⟨item, hitem, hplain⟩ := Lookup.mem_of_mapM hobjects hobject
        have hentry := QueryFilters.kept_field h hand
        rw [QueryFilters.ofField, if_pos rfl, QueryFilters.kept_allOf] at hentry
        have hkept := QueryFilters.kept_item hentry hitem
        cases item <;> cases hplain
        exact hkept
  · cases hconjuncts

/-- The pinned text of a key is one that a conjunct compares it with. -/
theorem pinOf_eq_some {key text : String} {conjuncts : List (List (String × Json))}
    (h : pinOf key conjuncts = some text) :
    ∃ conjunct ∈ conjuncts, ∃ value, Json.field? key conjunct = some value ∧
      eqString value = some text := by
  unfold pinOf at h
  split at h
  · cases h
  · next values hvalues =>
      have hmem : text ∈ values := by
        split at h
        · next value hone =>
            rw [← Option.some.inj h, ← List.mem_eraseDups, hone]
            exact List.mem_singleton_self value
        · cases h
      obtain ⟨value, hvalue, htext⟩ := Lookup.mem_of_mapM hvalues hmem
      obtain ⟨conjunct, hconjunct, hfield⟩ := List.mem_filterMap.mp hvalue
      exact ⟨conjunct, hconjunct, value, hfield, htext⟩

/-- A filter that pins a target keeps only rows of that target. -/
theorem pinned_sound {filters : Json} {pin : PinnedTargetAnchor}
    (hpin : pinnedTargetAnchor filters = some pin) (h : passes leaf (some filters) row = true) :
    row.targetType = some pin.targetType ∧ row.targetDocumentId = some pin.targetDocumentId := by
  simp only [pinnedTargetAnchor, Option.bind_eq_bind, Option.bind_eq_some_iff,
    Option.pure_def, Option.some.injEq] at hpin
  obtain ⟨fields, hfields, conjuncts, hconjuncts, targetType, htype, targetDocumentId, hid, rfl⟩ :=
    hpin
  have hkept : kept (conditionOf (threadLeaf leaf row) (.obj fields)) = true := by
    cases filters <;> cases hfields
    exact h
  obtain ⟨first, hfirst, value, hvalue, htext⟩ := pinOf_eq_some htype
  obtain ⟨second, hsecond, value', hvalue', htext'⟩ := pinOf_eq_some hid
  exact ⟨kept_targetType (kept_conjunct hkept hconjuncts hfirst) hvalue htext,
    kept_targetDocumentId (kept_conjunct hkept hconjuncts hsecond) hvalue' htext'⟩

/-- On the rows of a target the clause for all targets asks whether this one is visible. -/
theorem fullClause_holds {targetType targetDocumentId : String}
    (htype : row.targetType = some targetType)
    (hid : row.targetDocumentId = some targetDocumentId) :
    (fullClause instantMsOrNull db now user).holds row = true ↔
      ∃ type, commentTargetType? targetType = some type ∧
        targetDocumentId ∈ (visibleTargetAnchors instantMsOrNull db now user).of type := by
  unfold fullClause Clause.holds
  simp only [htype, hid, List.any_map, List.any_eq_true, List.mem_filter, Function.comp_apply,
    Bool.and_eq_true, decide_eq_true_eq, Option.some.injEq, Option.any_some, List.contains_iff_mem]
  constructor
  · rintro ⟨type, -, rfl, hmem⟩
    refine ⟨type, ?_, hmem⟩
    cases type <;> rfl
  · rintro ⟨type, hfound, hmem⟩
    have htext := List.find?_some hfound
    refine ⟨type, ⟨List.mem_of_find?_eq_some hfound, ?_⟩, (of_decide_eq_true htext).symm, hmem⟩
    exact List.ne_nil_of_mem hmem

theorem pinnedClause_holds {pin : PinnedTargetAnchor} (htype : row.targetType = some pin.targetType)
    (hid : row.targetDocumentId = some pin.targetDocumentId) :
    (pinnedClause instantMsOrNull db now user pin).holds row = true ↔
      ∃ type, commentTargetType? pin.targetType = some type ∧
        isTargetVisible instantMsOrNull db now type pin.targetDocumentId user = true := by
  unfold pinnedClause
  cases htarget : commentTargetType? pin.targetType with
  | none => simp [Clause.holds]
  | some type =>
      by_cases hvisible : isTargetVisible instantMsOrNull db now type pin.targetDocumentId user = true
      · simp [Clause.holds, hvisible, htype, hid]
      · simp [Clause.holds, hvisible]

end Pin

/-- For a caller who is no moderator, where no document has two published rows: a
pinning filter keeps rows of its target only, one target is visible exactly when the
list of all visible ones holds it, and the read narrowed to the pinned target selects
the rows that the read narrowed to all visible targets selects. -/
theorem pinned_read_agrees (db : TargetDb) (instantMsOrNull : InstantMsOrNull) (now : Int)
    (user : Option CallerUser) (one : OnePublished db) (caller : isModerator user = false)
    {χ : Type} (leaf : String → Json → ThreadRow χ → QueryFilters.Condition)
    (rows : List (ThreadRow χ)) :
    (∀ filters pin, pinnedTargetAnchor filters = some pin →
      commentTargetVisibility instantMsOrNull db now ⟨user, true, true, some filters⟩ =
        .narrow (pinnedClause instantMsOrNull db now user pin) ∧
      (∀ row, passes leaf (some filters) row = true →
        row.targetType = some pin.targetType ∧
          row.targetDocumentId = some pin.targetDocumentId) ∧
      selected leaf (some filters) (pinnedClause instantMsOrNull db now user pin) rows =
        selected leaf (some filters) (fullClause instantMsOrNull db now user) rows) ∧
    ∀ targetType documentId,
      isTargetVisible instantMsOrNull db now targetType documentId user = true ↔
        documentId ∈ (visibleTargetAnchors instantMsOrNull db now user).of targetType := by
  refine ⟨?_, isTargetVisible_iff one caller⟩
  intro filters pin hpin
  have hpath : commentTargetVisibility instantMsOrNull db now ⟨user, true, true, some filters⟩ =
      .narrow (pinnedClause instantMsOrNull db now user pin) := by
    simp [commentTargetVisibility, caller, hpin]
  refine ⟨hpath, fun row => pinned_sound hpin, ?_⟩
  unfold selected
  apply List.filter_congr
  intro row _
  cases hpasses : passes leaf (some filters) row with
  | false => rfl
  | true =>
      obtain ⟨htype, hid⟩ := pinned_sound hpin hpasses
      rw [Bool.true_and, Bool.true_and, Bool.eq_iff_iff, pinnedClause_holds htype hid,
        fullClause_holds htype hid]
      simp only [isTargetVisible_iff one caller]

/-! ## One published announcement -/

def summerId : DocumentId := ⟨"summerparty", by decide +kernel, by decide⟩

def sampleDb : TargetDb where
  announcements := [⟨7, some summerId, true, none, ⟨none, none, none, [], none⟩⟩]
  pages := []
  spaces := []
  users := []
  teams := []
  announcement_ids := by
    refine ⟨List.pairwise_singleton _ _, ?_⟩
    intro row hrow
    rw [List.mem_singleton.mp hrow]
    decide
  space_ids := ⟨List.Pairwise.nil, fun _ h => by cases h⟩

/-- The filter of a comment section. -/
def sampleFilter : Json :=
  .obj [("targetType", .obj [("$eq", .str "announcement")]),
    ("targetDocumentId", .obj [("$eq", .str "summerparty")])]

def sampleThread : List (ThreadRow Unit) :=
  [⟨some "announcement", some "summerparty", ()⟩, ⟨some "wiki-page", some "onboarding", ()⟩]

theorem sampleDb_onePublished : OnePublished sampleDb where
  announcements a ha b hb _ _ _ _ := by
    rw [List.mem_singleton.mp ha, List.mem_singleton.mp hb]
  pages a ha := by cases ha

theorem pinned_read_agrees_summerparty :
    selected (fun _ _ _ => none) (some sampleFilter)
        (pinnedClause (fun _ => none) sampleDb 0 none ⟨"announcement", "summerparty"⟩) sampleThread =
      selected (fun _ _ _ => none) (some sampleFilter)
        (fullClause (fun _ => none) sampleDb 0 none) sampleThread :=
  ((pinned_read_agrees sampleDb (fun _ => none) 0 none sampleDb_onePublished rfl
    (fun _ _ _ => none) sampleThread).1 sampleFilter ⟨"announcement", "summerparty"⟩
    (by decide)).2.2

end Sinnlos.Cms.Targets

import Mathlib.Data.List.Infix
import Sinnlos.Lib.ArraySort
import Sinnlos.Lib.Lookup
import Sinnlos.Lib.OrderedMap
import Sinnlos.Lib.Slices

/-! # The authoring list

The two ways in which `apps/cms/src/utils/authoring-controller.ts` answers one
page of a type's documents: the full path reads every document, the light path
only those of the page. Both read in several statements; each statement sees the
tables as they are when it runs.
-/

namespace Sinnlos.Cms.AuthoringLists

def authoringListPageSize : Nat := 25

def listChunk : Nat := 200

/-- A draft or published row of the type, `χ` being the columns and relations the
list only shows. -/
structure ListRow (χ : Type) where
  documentId : String
  /-- `publishedAt` is set. -/
  published : Bool
  updatedAt : Option String
  /-- The label column, where it is a text. -/
  label : Option String
  publishAt : Option String
  scheduleError : Option String
  ownerDepartment : Option Nat
  space : Option String
  course : Option String
  columns : χ
deriving DecidableEq

structure VersionRow where
  targetUid : String
  targetDocumentId : Option String
  /-- The revision as a number, where it is an integer. -/
  revision : Option Int
deriving DecidableEq

/-- The rows of the type and the version rows, as a statement comes across them. -/
structure ListTables (χ : Type) where
  rows : List (ListRow χ)
  versions : List VersionRow

structure AuthoringRows (χ : Type) where
  documentId : String
  draft : Option (ListRow χ)
  published : Option (ListRow χ)
deriving DecidableEq

inductive ListStatus
  | draft
  | modified
  | published
  | scheduled
  | failed
deriving DecidableEq

inductive OwnerFilter
  | department
  | moderators
deriving DecidableEq

structure ListQuery where
  page : Nat
  status : Option ListStatus
  q : Option String
  owner : Option OwnerFilter
  space : Option String
  course : Option String

inductive RoleClass
  | departmentAuthor
  | other
deriving DecidableEq

structure AuthoringGate where
  roleClass : RoleClass
  callerDepartment : Option Nat

/-- What the list asks of the platform: dates, texts and the sort of an array. -/
structure Platform where
  /-- `Date.parse`, none where it answers NaN. -/
  dateParse : String → Option Int
  toISOString : Int → String
  toLowerCase : String → String
  localeCompare : String → String → Int
  array : ArraySort

structure AuthoringSpec (χ : Type) where
  uid : String
  /-- `departmentAuthorOwns` on the rows of a document of this type. -/
  departmentAuthorOwns : AuthoringRows χ → Option Nat → Bool

variable {χ : Type}

/-! ## Instants -/

/-- The text of an instant: unreadable texts stay as they are. -/
def iso (platform : Platform) (value : Option String) : Option String :=
  match value with
  | none => none
  | some text =>
      if text = "" then none
      else
        match platform.dateParse text with
        | none => some text
        | some ms => some (platform.toISOString ms)

/-- None without an instant, `some none` where it reads as NaN. -/
def ms (platform : Platform) (value : Option String) : Option (Option Int) :=
  (iso platform value).map platform.dateParse

inductive AuthoringDocumentStatus
  | draft
  | modified
  | published
deriving DecidableEq

/-- A comparison with NaN is false. -/
def documentStatus (platform : Platform) (draft published : Option (ListRow χ)) :
    AuthoringDocumentStatus :=
  match published with
  | none => .draft
  | some published =>
      match ms platform (draft.bind ListRow.updatedAt), ms platform published.updatedAt with
      | some (some draftAt), some (some publishedAt) =>
          if publishedAt < draftAt then .modified else .published
      | _, _ => .published

def listStatusMatches (platform : Platform) (rows : AuthoringRows χ) :
    Option ListStatus → Bool
  | none => true
  | some .scheduled => (rows.draft.bind ListRow.publishAt).isSome
  | some .failed => (rows.draft.bind ListRow.scheduleError).isSome
  | some .draft => documentStatus platform rows.draft rows.published = .draft
  | some .modified => documentStatus platform rows.draft rows.published = .modified
  | some .published => documentStatus platform rows.draft rows.published = .published

/-! ## The statements -/

/-- The reads of one list, in the order in which their path runs them. -/
inductive ListStatement
  /-- The narrow read of the matching drafts, on the light path. -/
  | lightDrafts
  | revisions
  /-- The drafts: all matching ones on the full path, those of the page on the light one. -/
  | drafts
  /-- The published rows of one chunk of documents. -/
  | twins (chunk : Nat)
deriving DecidableEq

/-- What each statement of a list sees. -/
abbrev Scan (χ : Type) : Type := ListStatement → ListTables χ

/-- The revisions of the type's documents, of the given ones where some are given. -/
def revisionsOf (tables : ListTables χ) (uid : String) (documentIds : Option (List String)) :
    OrderedMap String Int :=
  if documentIds = some [] then OrderedMap.empty
  else
    OrderedMap.ofList <|
      (tables.versions.filter fun row =>
        row.targetUid = uid ∧
          documentIds.all fun ids => row.targetDocumentId.any ids.contains).filterMap fun row =>
        match row.targetDocumentId, row.revision with
        | some documentId, some revision => some (documentId, revision)
        | _, _ => none

/-- The drafts of a list before `q`: a department author's own, otherwise those of
the owner filter, and those of the space and the course asked for. -/
def listWhere (gate : AuthoringGate) (query : ListQuery) (row : ListRow χ) : Bool :=
  let owner :=
    match gate.roleClass, gate.callerDepartment, query.owner with
    | .departmentAuthor, some department, _ => row.ownerDepartment = some department
    | _, _, some .department => row.ownerDepartment.isSome
    | _, _, some .moderators => row.ownerDepartment.isNone
    | _, _, none => true
  !row.published && owner && query.space.all (fun space => row.space = some space) &&
    query.course.all fun course => row.course = some course

def labelMatches (platform : Platform) (q label : Option String) : Bool :=
  match q.map platform.toLowerCase with
  | none => true
  | some needle =>
      if needle = "" then true
      else label.any fun label => needle.toList <:+: (platform.toLowerCase label).toList

/-- The published rows of a chunk of documents. -/
def publishedOf (tables : ListTables χ) (chunk : List String) : List (ListRow χ) :=
  tables.rows.filter fun row => chunk.contains row.documentId && row.published

def withPublished (scan : Scan χ) (drafts : List (ListRow χ)) : List (AuthoringRows χ) :=
  let published := OrderedMap.ofList <|
    ((chunks (drafts.map ListRow.documentId) listChunk).mapIdx fun k chunk =>
      publishedOf (scan (.twins k)) chunk).flatten.map fun row => (row.documentId, row)
  drafts.map fun draft =>
    { documentId := draft.documentId
      draft := some draft
      published := published.get? draft.documentId }

/-- The rows of the drafts that the list may show. -/
def matchingDrafts (platform : Platform) (gate : AuthoringGate) (query : ListQuery)
    (tables : ListTables χ) : List (ListRow χ) :=
  (tables.rows.filter (listWhere gate query)).filter fun row =>
    labelMatches platform query.q row.label

def listDocuments (platform : Platform) (spec : AuthoringSpec χ) (gate : AuthoringGate)
    (query : ListQuery) (scan : Scan χ) : List (AuthoringRows χ) :=
  let documents := withPublished scan (matchingDrafts platform gate query (scan .drafts))
  match gate.roleClass with
  | .departmentAuthor =>
      documents.filter fun rows => spec.departmentAuthorOwns rows gate.callerDepartment
  | .other => documents

/-! ## The order and the pages -/

/-- What the order of the list looks at. -/
structure ListKey where
  documentId : String
  updatedAt : Option String
deriving DecidableEq

def ListRow.listKey (row : ListRow χ) : ListKey := ⟨row.documentId, row.updatedAt⟩

def AuthoringRows.listKey (rows : AuthoringRows χ) : ListKey :=
  ⟨rows.documentId, rows.draft.bind ListRow.updatedAt⟩

/-- The newest draft first, then by documentId; none where the difference is NaN,
which no test for 0 meets. -/
def newestDraftFirst (platform : Platform) (a b : ListKey) : Option Int :=
  match (ms platform b.updatedAt).getD (some 0), (ms platform a.updatedAt).getD (some 0) with
  | some later, some earlier =>
      if later - earlier ≠ 0 then some (later - earlier)
      else some (platform.localeCompare a.documentId b.documentId)
  | _, _ => none

def pageOf {α : Type} (items : List α) (page : Nat) : List α :=
  slice items ((page - 1) * authoringListPageSize) (page * authoringListPageSize)

structure ListPage (χ : Type) where
  total : Nat
  page : List (AuthoringRows χ)
  revisions : OrderedMap String Int

/-- What the client gets: the total and each document with its version, 0 without one. -/
def ListPage.answer (list : ListPage χ) : Nat × List (AuthoringRows χ × Int) :=
  (list.total, list.page.map fun rows => (rows, (list.revisions.get? rows.documentId).getD 0))

def ListPage.documentIds (list : ListPage χ) : List String :=
  list.page.map AuthoringRows.documentId

/-- Every revision of the type, every document, then the page. -/
def fullListPage (platform : Platform) (spec : AuthoringSpec χ) (gate : AuthoringGate)
    (query : ListQuery) (scan : Scan χ) : ListPage χ :=
  let revisions := revisionsOf (scan .revisions) spec.uid none
  let documents :=
    platform.array.sort (fun a b => newestDraftFirst platform a.listKey b.listKey)
      ((listDocuments platform spec gate query scan).filter fun rows =>
        listStatusMatches platform rows query.status)
  { total := documents.length, page := pageOf documents query.page, revisions }

/-- The keys of the matching drafts decide the page; its revisions and then its rows
are read by documentId. A draft gone in between leaves the page. -/
def lightListPage (platform : Platform) (spec : AuthoringSpec χ) (gate : AuthoringGate)
    (query : ListQuery) (scan : Scan χ) : ListPage χ :=
  let ordered :=
    platform.array.sort (newestDraftFirst platform)
      ((matchingDrafts platform gate query (scan .lightDrafts)).map ListRow.listKey)
  let ids := (pageOf ordered query.page).map ListKey.documentId
  let revisions := revisionsOf (scan .revisions) spec.uid (some ids)
  let drafts :=
    if ids = [] then []
    else (scan .drafts).rows.filter fun row => ids.contains row.documentId && !row.published
  let byId := OrderedMap.ofList (drafts.map fun draft => (draft.documentId, draft))
  let present := ids.filterMap byId.get?
  { total := ordered.length, page := withPublished scan present, revisions }

/-! ## What the reads answer for one document -/

def publishedRows (tables : ListTables χ) (documentId : String) : List (ListRow χ) :=
  tables.rows.filter fun row => row.published && decide (row.documentId = documentId)

def draftRows (tables : ListTables χ) (documentId : String) : List (ListRow χ) :=
  tables.rows.filter fun row => !row.published && decide (row.documentId = documentId)

def versionRows (tables : ListTables χ) (uid documentId : String) : List VersionRow :=
  tables.versions.filter fun row => row.targetUid = uid ∧ row.targetDocumentId = some documentId

theorem publishedOf_filter (tables : ListTables χ) (chunk : List String) (documentId : String) :
    ((publishedOf tables chunk).filter fun row => row.documentId = documentId) =
      if documentId ∈ chunk then publishedRows tables documentId else [] := by
  unfold publishedOf publishedRows
  rw [List.filter_filter]
  split
  · apply List.filter_congr
    intro row _
    by_cases h : row.documentId = documentId
    · simp [h, ‹documentId ∈ chunk›]
    · simp [h]
  · rw [List.filter_eq_nil_iff]
    intro row _ hrow
    simp only [Bool.and_eq_true, decide_eq_true_eq, List.contains_iff_mem] at hrow
    exact ‹documentId ∉ chunk› (hrow.1 ▸ hrow.2.1)

/-- Lists of which some are one list and the others empty end like that list. -/
theorem getLast?_flatten_of_same {α : Type} {lists : List (List α)} {items : List α}
    (same : ∀ l ∈ lists, l = items ∨ l = []) (some_items : items ∈ lists) :
    lists.flatten.getLast? = items.getLast? := by
  induction lists with
  | nil => cases some_items
  | cons l lists ih =>
      rw [List.flatten_cons, List.getLast?_append]
      have hrest : ∀ l ∈ lists, l = items ∨ l = [] := fun l hl => same l (List.mem_cons_of_mem _ hl)
      by_cases hmem : items ∈ lists
      · rw [ih hrest hmem]
        rcases same l List.mem_cons_self with rfl | rfl
        · exact Option.or_self
        · exact Option.or_none
      · have hhead : l = items := by
          rcases List.mem_cons.mp some_items with h | h
          · exact h.symm
          · exact absurd h hmem
        have hempty : lists.flatten = [] := by
          rw [List.flatten_eq_nil_iff]
          intro l hl
          rcases hrest l hl with rfl | rfl
          · exact absurd hl hmem
          · rfl
        rw [hempty, hhead]
        rfl

/-- What `withPublished` reads for a document. -/
def twinOf (scan : Scan χ) (ids : List String) (documentId : String) : Option (ListRow χ) :=
  ((((chunks ids listChunk).mapIdx fun k chunk =>
    publishedOf (scan (.twins k)) chunk).flatten).filter fun row =>
      row.documentId = documentId).getLast?

theorem withPublished_eq (scan : Scan χ) (drafts : List (ListRow χ)) :
    withPublished scan drafts = drafts.map fun draft =>
      ⟨draft.documentId, some draft,
        twinOf scan (drafts.map ListRow.documentId) draft.documentId⟩ := by
  unfold withPublished twinOf
  simp only [OrderedMap.get?_ofList_map]

variable {scan : Scan χ} {ids : List String} {documentId : String}

/-- A document's published row as it is read has this documentId. -/
theorem twinOf_mem {row : ListRow χ} (h : twinOf scan ids documentId = some row) :
    (∃ k, row ∈ (scan (.twins k)).rows) ∧ row.published = true ∧ row.documentId = documentId := by
  have hmem := List.mem_of_getLast? h
  rw [List.mem_filter, List.mem_flatten] at hmem
  obtain ⟨⟨rows, hrows, hrow⟩, hid⟩ := hmem
  obtain ⟨k, hk, rfl⟩ := List.mem_mapIdx.mp hrows
  rw [publishedOf, List.mem_filter, Bool.and_eq_true] at hrow
  exact ⟨⟨k, hrow.1⟩, hrow.2.2, of_decide_eq_true hid⟩

/-- Where all its chunks see the same published rows, the read answers the last of them. -/
theorem twinOf_eq {tables : ListTables χ}
    (same : ∀ k, publishedRows (scan (.twins k)) documentId = publishedRows tables documentId)
    (h : documentId ∈ ids) :
    twinOf scan ids documentId = (publishedRows tables documentId).getLast? := by
  unfold twinOf
  rw [List.filter_flatten]
  apply getLast?_flatten_of_same
  · intro l hl
    obtain ⟨rows, hrows, rfl⟩ := List.mem_map.mp hl
    obtain ⟨k, hk, rfl⟩ := List.mem_mapIdx.mp hrows
    rw [publishedOf_filter, same]
    split
    · exact Or.inl rfl
    · exact Or.inr rfl
  · obtain ⟨chunk, hchunk, hmem⟩ := (mem_chunks (show 0 < listChunk by decide)).mp h
    obtain ⟨k, hk, rfl⟩ := List.getElem_of_mem hchunk
    apply List.mem_map.mpr
    refine ⟨publishedOf (scan (.twins k)) (chunks ids listChunk)[k],
      List.mem_mapIdx.mpr ⟨k, hk, rfl⟩, ?_⟩
    rw [publishedOf_filter, if_pos hmem, same]

/-- The version of one document is the one its version rows give, whether the read
is type-wide or of some documents. -/
theorem revisionsOf_get? (tables : ListTables χ) (uid : String)
    (documentIds : Option (List String)) (documentId : String)
    (h : ∀ ids, documentIds = some ids → documentId ∈ ids) :
    (revisionsOf tables uid documentIds).get? documentId =
      ((versionRows tables uid documentId).filterMap VersionRow.revision).getLast? := by
  have hne : documentIds ≠ some [] := by
    intro heq
    cases h [] heq
  unfold revisionsOf versionRows
  rw [if_neg hne, OrderedMap.get?_ofList_eq_getLast?, ← List.getLast?_map]
  congr 1
  rw [List.filterMap_filter, List.filter_filterMap, List.map_filterMap, List.filterMap_filter]
  apply List.filterMap_congr
  intro row _
  by_cases huid : row.targetUid = uid
  · cases htarget : row.targetDocumentId with
    | none => simp [huid]
    | some target =>
        by_cases hid : target = documentId
        · subst hid
          have hall : (documentIds.all fun ids => decide (target ∈ ids)) = true := by
            rw [Option.all_eq_true]
            intro ids hids
            exact decide_eq_true (h ids hids)
          cases hrev : row.revision with
          | none => simp [huid]
          | some revision => simp [huid, hall]
        · cases hrev : row.revision with
          | none | some revision => simp [huid, hid]
  · simp [huid]

end Sinnlos.Cms.AuthoringLists

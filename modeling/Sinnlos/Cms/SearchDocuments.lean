import Mathlib.Algebra.Order.Ring.Int
import Mathlib.Data.List.Sort
import Mathlib.Data.String.Basic
import Sinnlos.Lib.JsonText
import Sinnlos.Lib.Text

/-! # What the search index is built from

The published rows as index documents, their stable order, the fingerprint of
a load and the cheap probe, and the batches a rebuild uploads.
-/

namespace Sinnlos.Cms.Search

open Sinnlos.JsonText

/-- The modules that can be switched off. -/
inductive ModuleName
  | events
  | training
  | marketplace
  | kudos
  | celebrations
  | polls
  | dutyPlans
  | kpis
  | secrets
  deriving DecidableEq

inductive IndexedSearchKind
  | announcement
  | wikiPage
  | document
  | event
  | poll
  deriving DecidableEq

def INDEXED_SEARCH_KINDS : List IndexedSearchKind :=
  [.announcement, .wikiPage, .document, .event, .poll]

def IndexedSearchKind.name : IndexedSearchKind → String
  | announcement => "announcement"
  | wikiPage => "wiki-page"
  | document => "document"
  | event => "event"
  | poll => "poll"

/-- The search kinds a module owns. -/
def searchKindModule : IndexedSearchKind → Option ModuleName
  | .event => some .events
  | .poll => some .polls
  | _ => none

def searchKindEnabled (off : List ModuleName) (kind : IndexedSearchKind) : Bool :=
  match searchKindModule kind with
  | none => true
  | some owner => owner ∉ off

def enabledKinds (off : List ModuleName) : List IndexedSearchKind :=
  INDEXED_SEARCH_KINDS.filter (searchKindEnabled off)

structure Source where
  uid : String
  title : String
  text : List String

def SOURCES : IndexedSearchKind → Source
  | .announcement => ⟨"api::announcement.announcement", "title", ["body"]⟩
  | .wikiPage => ⟨"api::wiki-page.wiki-page", "title", ["summary", "body"]⟩
  | .document => ⟨"api::document.document", "title", ["description"]⟩
  | .event => ⟨"api::event.event", "title", ["description", "location"]⟩
  | .poll => ⟨"api::poll.poll", "question", []⟩

/-- A published row; the text columns by name, those that hold a string. -/
structure SearchRow where
  id : Nat
  documentId : Option String
  updatedAt : Option Int
  publishedAt : Int
  columns : List (String × String)
  deriving DecidableEq

def SearchRow.column (row : SearchRow) (name : String) : Option String := row.columns.lookup name

structure SearchIndexDocument where
  id : String
  kind : IndexedSearchKind
  documentId : String
  title : String
  text : String
  deriving DecidableEq

def text (value : Option String) : String := (value.map Text.trim).getD ""

def documentKey (kind : IndexedSearchKind) (documentId : String) : String :=
  kind.name ++ "_" ++ documentId

/-- One published row as an index document; none without a documentId or any
title. -/
def toSearchDocument (kind : IndexedSearchKind) (row : SearchRow) : Option SearchIndexDocument :=
  let source := SOURCES kind
  let documentId := text row.documentId
  let title := text (row.column source.title)
  if documentId = "" ∨ title = "" then none
  else some
    { id := documentKey kind documentId
      kind := kind
      documentId := documentId
      title := title
      text := "\n\n".intercalate
        ((source.text.map fun field => text (row.column field)).filter fun part => part ≠ "") }

def documentsOf (kind : IndexedSearchKind) (rows : List SearchRow) : List SearchIndexDocument :=
  rows.filterMap (toSearchDocument kind)

/-- The published rows of every kind; a document has one published row. -/
structure PublishedRows where
  rows : IndexedSearchKind → List SearchRow
  distinct : ∀ kind, ((documentsOf kind (rows kind)).map SearchIndexDocument.documentId).Nodup

/-- The stable order: a fingerprint must not change with the database's. -/
def sortDocuments (documents : List SearchIndexDocument) : List SearchIndexDocument :=
  documents.insertionSort fun a b => a.id ≤ b.id

def loadSearchDocuments (off : List ModuleName) (published : PublishedRows) :
    List SearchIndexDocument :=
  sortDocuments ((enabledKinds off).flatMap fun kind => documentsOf kind (published.rows kind))

/-! ## A load does not depend on the order of the rows -/

variable {document : SearchIndexDocument} {documents : List SearchIndexDocument} {maxBytes : Nat}
  {kind : IndexedSearchKind} {a b : List SearchIndexDocument}
  {batches : List (List SearchIndexDocument)}

theorem toSearchDocument_spec {row : SearchRow} (h : toSearchDocument kind row = some document) :
    document.kind = kind ∧ document.id = documentKey kind document.documentId := by
  unfold toSearchDocument at h
  dsimp only at h
  split at h
  · cases h
  · cases h
    exact ⟨rfl, rfl⟩

theorem documentsOf_spec {rows : List SearchRow} (h : document ∈ documentsOf kind rows) :
    document.kind = kind ∧ document.id = documentKey kind document.documentId := by
  obtain ⟨row, _, hrow⟩ := List.mem_filterMap.mp h
  exact toSearchDocument_spec hrow

theorem IndexedSearchKind.name_plain (kind : IndexedSearchKind) : '_' ∉ kind.name.toList := by
  cases kind <;> decide

theorem IndexedSearchKind.name_injective : Function.Injective IndexedSearchKind.name := by
  intro a b h
  cases a <;> cases b <;> first | rfl | exact absurd h (by decide)

theorem documentKey_inj {a b : IndexedSearchKind} {x y : String}
    (h : documentKey a x = documentKey b y) : a = b ∧ x = y := by
  have hchars := congrArg String.toList h
  simp only [documentKey, String.toList_append, List.append_assoc] at hchars
  have hparts := Text.join_injective a.name_plain b.name_plain hchars
  have hname := String.toList_inj.mp hparts.1
  have hid := String.toList_inj.mp hparts.2
  exact ⟨IndexedSearchKind.name_injective hname, hid⟩

theorem sorted_ids (documents : List SearchIndexDocument) :
    (sortDocuments documents).Pairwise fun a b => a.id ≤ b.id := by
  have htotal : Std.Total fun a b : SearchIndexDocument => a.id ≤ b.id :=
    ⟨fun a b => le_total a.id b.id⟩
  have htrans : IsTrans SearchIndexDocument fun a b => a.id ≤ b.id :=
    ⟨fun _ _ _ => le_trans⟩
  exact List.pairwise_insertionSort _ _

/-- Documents of distinct ids have one order. -/
theorem sortDocuments_congr (distinct : (a.map SearchIndexDocument.id).Nodup) (h : a.Perm b) :
    sortDocuments a = sortDocuments b := by
  have hperm : (sortDocuments a).Perm (sortDocuments b) :=
    (List.perm_insertionSort _ a).trans (h.trans (List.perm_insertionSort _ b).symm)
  have hinj := List.inj_on_of_nodup_map distinct
  refine hperm.eq_of_pairwise ?_ (sorted_ids a) (sorted_ids b)
  intro x y hx hy hxy hyx
  have hmemx := (List.perm_insertionSort _ a).mem_iff.mp hx
  have hmemy := h.mem_iff.mpr ((List.perm_insertionSort _ b).mem_iff.mp hy)
  exact hinj hmemx hmemy (le_antisymm hxy hyx)

theorem documentsOf_nodup (published : PublishedRows) (kind : IndexedSearchKind) :
    ((documentsOf kind (published.rows kind)).map SearchIndexDocument.id).Nodup := by
  have hids : (documentsOf kind (published.rows kind)).map SearchIndexDocument.id =
      ((documentsOf kind (published.rows kind)).map SearchIndexDocument.documentId).map
        (documentKey kind) := by
    rw [List.map_map]
    apply List.map_congr_left
    intro document hdocument
    exact (documentsOf_spec hdocument).2
  rw [hids]
  exact (published.distinct kind).map fun _ _ h => (documentKey_inj h).2

/-- No two documents of the published rows share an id. -/
theorem distinct_ids (published : PublishedRows) {kinds : List IndexedSearchKind}
    (hkinds : kinds.Nodup) :
    ((kinds.flatMap fun kind => documentsOf kind (published.rows kind)).map
      SearchIndexDocument.id).Nodup := by
  induction kinds with
  | nil => exact List.nodup_nil
  | cons kind kinds ih =>
      rw [List.nodup_cons] at hkinds
      rw [List.flatMap_cons, List.map_append, List.nodup_append]
      refine ⟨documentsOf_nodup published kind, ih hkinds.2, ?_⟩
      intro id hid other hother heq
      obtain ⟨document, hdocument, rfl⟩ := List.mem_map.mp hid
      obtain ⟨later, hlater, rfl⟩ := List.mem_map.mp hother
      obtain ⟨laterKind, hmem, hof⟩ := List.mem_flatMap.mp hlater
      have hfirst := documentsOf_spec hdocument
      have hsecond := documentsOf_spec hof
      rw [hfirst.2, hsecond.2] at heq
      exact hkinds.1 ((documentKey_inj heq).1 ▸ hmem)

theorem enabledKinds_nodup (off : List ModuleName) : (enabledKinds off).Nodup := by
  have hall : INDEXED_SEARCH_KINDS.Nodup := by decide
  exact hall.filter _

/-! ## The fingerprint -/

/-- One document as JSON text. -/
def documentText (document : SearchIndexDocument) : List Char :=
  "\x7b\"id\":".toList ++ quoteChars document.id.toList ++
  (",\"kind\":".toList ++ quoteChars document.kind.name.toList ++
  (",\"documentId\":".toList ++ quoteChars document.documentId.toList ++
  (",\"title\":".toList ++ quoteChars document.title.toList ++
  (",\"text\":".toList ++ quoteChars document.text.toList ++ ['\x7d']))))

def joinDocuments : List SearchIndexDocument → List Char
  | [] => []
  | [document] => documentText document
  | document :: documents => documentText document ++ ',' :: joinDocuments documents

/-- A list of documents as JSON text, which is also the body of an upload. -/
def documentsText (documents : List SearchIndexDocument) : List Char :=
  '[' :: joinDocuments documents ++ [']']

/-- `sha256` is the digest of a text. -/
def searchFingerprint (sha256 : List Char → String) (documents : List SearchIndexDocument) :
    String :=
  sha256 (documentsText documents)

theorem documentText_append_inj {a b : SearchIndexDocument} {x y : List Char}
    (h : documentText a ++ x = documentText b ++ y) : a = b ∧ x = y := by
  unfold documentText at h
  simp only [List.append_assoc] at h
  obtain ⟨hid, h⟩ := quoteChars_append_inj (List.append_cancel_left h)
  obtain ⟨hkind, h⟩ := quoteChars_append_inj (List.append_cancel_left h)
  obtain ⟨hdocument, h⟩ := quoteChars_append_inj (List.append_cancel_left h)
  obtain ⟨htitle, h⟩ := quoteChars_append_inj (List.append_cancel_left h)
  obtain ⟨htext, hrest⟩ := quoteChars_append_inj (List.append_cancel_left h)
  have hname := IndexedSearchKind.name_injective (String.toList_inj.mp hkind)
  rw [String.toList_inj] at hid hdocument htitle htext
  cases a
  cases b
  simp only [SearchIndexDocument.mk.injEq]
  exact ⟨⟨hid, hname, hdocument, htitle, htext⟩, (List.cons.inj hrest).2⟩

theorem documentText_head (document : SearchIndexDocument) :
    (documentText document).head? = some '\x7b' := rfl

theorem joinDocuments_cons (document : SearchIndexDocument) (documents : List SearchIndexDocument) :
    joinDocuments (document :: documents) = documentText document ++
      (if documents = [] then [] else ',' :: joinDocuments documents) := by
  cases documents with
  | nil | cons next documents => simp [joinDocuments]

theorem joinDocuments_ne_nil (h : documents ≠ []) :
    (joinDocuments documents).head? = some '\x7b' := by
  cases documents with
  | nil => exact absurd rfl h
  | cons document documents =>
      rw [joinDocuments_cons, List.head?_append, documentText_head]
      rfl

theorem joinDocuments_append_inj {a b : List SearchIndexDocument}
    (h : joinDocuments a ++ [']'] = joinDocuments b ++ [']']) : a = b := by
  have hempty {documents : List SearchIndexDocument} (hne : documents ≠ []) :
      joinDocuments documents ++ [']'] ≠ [']'] := by
    intro heq
    have hhead := congrArg List.head? heq
    rw [List.head?_append, joinDocuments_ne_nil hne] at hhead
    exact absurd hhead (by decide)
  induction a generalizing b with
  | nil =>
      by_cases hb : b = []
      · exact hb.symm
      · exact absurd h.symm (hempty hb)
  | cons document documents ih =>
      cases b with
      | nil => exact absurd h (hempty (List.cons_ne_nil _ _))
      | cons other others =>
          rw [joinDocuments_cons, joinDocuments_cons, List.append_assoc, List.append_assoc] at h
          obtain ⟨hfirst, hrest⟩ := documentText_append_inj h
          by_cases hdocuments : documents = []
          · by_cases hothers : others = []
            · rw [hfirst, hdocuments, hothers]
            · simp [hdocuments, hothers] at hrest
          · by_cases hothers : others = []
            · simp [hdocuments, hothers] at hrest
            · rw [if_neg hdocuments, if_neg hothers] at hrest
              rw [hfirst, ih (List.cons.inj hrest).2]

/-- A list of documents can be read off its text. -/
theorem documentsText_injective : Function.Injective documentsText := by
  intro a b h
  exact joinDocuments_append_inj (List.cons.inj h).2

/-- Two loads of one fingerprint are the same load. -/
theorem searchFingerprint_inj {sha256 : List Char → String} (h : Function.Injective sha256)
    (heq : searchFingerprint sha256 a = searchFingerprint sha256 b) : a = b :=
  documentsText_injective (h heq)

/-! ## The probe -/

inductive ProbeField
  | count
  | id
  | updatedAt
  | publishedAt
  deriving DecidableEq

def SearchRow.newest : ProbeField → SearchRow → Option Int
  | .count, _ => none
  | .id, row => some row.id
  | .updatedAt, row => row.updatedAt
  | .publishedAt, row => some row.publishedAt

/-- The largest value of a column; none where no row has one. -/
def newest (values : List Int) : Option Int :=
  values.foldl (fun best value => some (best.elim value (max value))) none

/-- One of the four small reads of a kind. -/
def readProbe (rows : List SearchRow) : ProbeField → Option Int
  | .count => some rows.length
  | field => newest (rows.filterMap (SearchRow.newest field))

/-- The reads of a probe, in order. -/
def probeReads (off : List ModuleName) : List (IndexedSearchKind × ProbeField) :=
  (enabledKinds off).flatMap fun kind =>
    [(kind, .count), (kind, .id), (kind, .updatedAt), (kind, .publishedAt)]

/-- What a probe found, read by read. -/
abbrev Probe := List ((IndexedSearchKind × ProbeField) × Option Int)

/-! ## The batches -/

def byteLength (chars : List Char) : Nat := (chars.map Char.utf8Size).sum

def documentSize (document : SearchIndexDocument) : Nat := byteLength (documentText document)

def SEARCH_BATCH_BYTES : Nat := 10000000

/-- The loop over the documents: the batch so far and its bytes. None where a
single document is over the limit. -/
def cutBatches (maxBytes : Nat) (batch : List SearchIndexDocument) (bytes : Nat) :
    List SearchIndexDocument → Option (List (List SearchIndexDocument))
  | [] => some (if batch = [] then [] else [batch])
  | document :: documents =>
      let size := documentSize document
      if maxBytes < size + 2 then none
      else if batch ≠ [] ∧ maxBytes < bytes + 1 + size then
        (cutBatches maxBytes [document] (2 + size) documents).map fun batches => batch :: batches
      else
        cutBatches maxBytes (batch ++ [document])
          (bytes + (if batch = [] then 0 else 1) + size) documents

/-- Documents in order, cut into batches whose request body stays within the
limit; an error where a single document is over it. -/
def searchBatches (documents : List SearchIndexDocument) (maxBytes : Nat) :
    Option (List (List SearchIndexDocument)) :=
  cutBatches maxBytes [] 2 documents

def bodySize (batch : List SearchIndexDocument) : Nat := byteLength (documentsText batch)

theorem byteLength_append (a b : List Char) : byteLength (a ++ b) = byteLength a + byteLength b := by
  simp [byteLength]

theorem byteLength_cons (c : Char) (text : List Char) :
    byteLength (c :: text) = c.utf8Size + byteLength text := by
  simp [byteLength]

theorem byteLength_joinDocuments_append (batch : List SearchIndexDocument)
    (document : SearchIndexDocument) :
    byteLength (joinDocuments (batch ++ [document])) =
      byteLength (joinDocuments batch) + (if batch = [] then 0 else 1) + documentSize document := by
  induction batch with
  | nil => simp [joinDocuments, byteLength, documentSize]
  | cons first batch ih =>
      rw [List.cons_append, joinDocuments_cons, joinDocuments_cons, byteLength_append,
        byteLength_append, if_neg (by simp), byteLength_cons, ih]
      have hcomma : Char.utf8Size ',' = 1 := rfl
      by_cases hbatch : batch = []
      · subst hbatch
        simp [hcomma, joinDocuments, byteLength]
        omega
      · rw [if_neg hbatch, if_neg hbatch, if_neg (by simp), byteLength_cons]
        omega

theorem bodySize_eq (batch : List SearchIndexDocument) :
    bodySize batch = byteLength (joinDocuments batch) + 2 := by
  have hopen : Char.utf8Size '[' = 1 := rfl
  have hclose : byteLength [']'] = 1 := rfl
  unfold bodySize documentsText
  rw [List.cons_append, byteLength_cons, byteLength_append]
  omega

/-- The loop's invariant: the bytes counted are those of the body so far. -/
theorem cutBatches_spec {bytes : Nat} {batch : List SearchIndexDocument}
    (counted : bytes = bodySize batch) (fits : batch ≠ [] → bytes ≤ maxBytes)
    (h : cutBatches maxBytes batch bytes documents = some batches) :
    batches.flatten = batch ++ documents ∧
      ∀ cut ∈ batches, cut ≠ [] ∧ bodySize cut ≤ maxBytes := by
  have hgrown (batch : List SearchIndexDocument) (document : SearchIndexDocument) :
      bodySize (batch ++ [document]) =
        bodySize batch + (if batch = [] then 0 else 1) + documentSize document := by
    rw [bodySize_eq, bodySize_eq, byteLength_joinDocuments_append]
    omega
  have hempty : bodySize [] = 2 := rfl
  induction documents generalizing batch bytes batches with
  | nil =>
      rw [cutBatches] at h
      by_cases hbatch : batch = []
      · rw [if_pos hbatch] at h
        cases h
        simp [hbatch]
      · rw [if_neg hbatch] at h
        cases h
        have hsize := fits hbatch
        rw [counted] at hsize
        simpa [hbatch] using hsize
  | cons document documents ih =>
      rw [cutBatches] at h
      split at h
      · cases h
      · next hsingle =>
          split at h
          · next hfull =>
              obtain ⟨later, hlater, rfl⟩ := Option.map_eq_some_iff.mp h
              have hone := hgrown [] document
              rw [List.nil_append, if_pos rfl, hempty] at hone
              have hspec := ih (by omega) (fun _ => by omega) hlater
              refine ⟨by simp [hspec.1], ?_⟩
              intro cut hcut
              rcases List.mem_cons.mp hcut with rfl | hrest
              · exact ⟨hfull.1, counted ▸ fits hfull.1⟩
              · exact hspec.2 cut hrest
          · next hroom =>
              have hnext := hgrown batch document
              have hfits : bytes + (if batch = [] then 0 else 1) + documentSize document ≤
                  maxBytes := by
                by_cases hbatch : batch = []
                · subst hbatch
                  simp only [if_pos]
                  omega
                · simp only [hbatch, if_false]
                  have hle : ¬ maxBytes < bytes + 1 + documentSize document :=
                    fun hlt => hroom ⟨hbatch, hlt⟩
                  omega
              have hspec := ih (by omega) (fun _ => hfits) h
              exact ⟨by simp [hspec.1], hspec.2⟩

/-- The batches concatenate to the documents in order, and each request body
is within the limit. -/
theorem searchBatches_spec (h : searchBatches documents maxBytes = some batches) :
    batches.flatten = documents ∧ ∀ batch ∈ batches, batch ≠ [] ∧ bodySize batch ≤ maxBytes := by
  have hnone : ([] : List SearchIndexDocument) ≠ [] → 2 ≤ maxBytes := fun hne => absurd rfl hne
  exact cutBatches_spec rfl hnone h

end Sinnlos.Cms.Search

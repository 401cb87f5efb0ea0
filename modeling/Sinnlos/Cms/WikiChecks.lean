import Sinnlos.Lib.OrderedMap
import Sinnlos.Lib.Runs
import Sinnlos.Lib.Walk
import Sinnlos.Cms.Relations

/-! # The wiki checks

`apps/cms/src/utils/wiki-checks.ts`, the branch of wiki pages: every action on a
page runs between two readings of the parent graph, under the wiki structure
lock and in one transaction, so a history of the wiki is a sequence of whole
actions. What the Document Service does for an action is a parameter, and may
change any row and any link.
-/

namespace Sinnlos.Cms.Wiki

open Text Walk

/-! ## Rows -/

/-- The value of a text column, which holds no NUL character. -/
structure ColumnText where
  text : String
  no_nul : '\x00' ∉ text.toList
deriving DecidableEq

structure PageRow where
  id : Int
  documentId : Option ColumnText
  publishedAt : Option Int
  /-- The space that the row links. -/
  space : Option Int
deriving DecidableEq

/-- A row of a link table, its two columns as the database hands them over. -/
structure PageLink where
  row : Json
  target : Json
deriving DecidableEq

structure SpaceRow where
  id : Nat
  documentId : String
deriving DecidableEq

structure RevisionRow where
  id : Int
  pageDocumentId : String
deriving DecidableEq

structure WikiDb where
  pages : List PageRow
  parentLinks : List PageLink
  spaces : List SpaceRow
  revisions : List RevisionRow
deriving DecidableEq

/-! ## The edge diff -/

/-- A page and its parent, by their documents. -/
abbrev ParentEdge := String × String

def keyOf (edge : ParentEdge) : String := edge.1 ++ "\x00" ++ edge.2

/-- The edges of `after` that `before` does not hold, each once. -/
def addedEdges (before after : List ParentEdge) : List ParentEdge :=
  let known := before.map keyOf
  (after.foldl (fun added edge =>
    if keyOf edge ∈ known then added else added.set (keyOf edge) edge)
      (.empty : OrderedMap String ParentEdge)).values

def parentsOf (edges : List ParentEdge) : OrderedMap String (List String) :=
  edges.foldl (fun parents edge =>
    let set := (parents.get? edge.1).getD []
    parents.set edge.1 (if edge.2 ∈ set then set else set ++ [edge.2])) .empty

/-- The first of `added` whose child can be reached from its parent. Every round
of the search visits another document, so the edges are enough fuel. -/
def loopThrough (edges added : List ParentEdge) : Option ParentEdge :=
  let parents := parentsOf edges
  added.find? fun edge =>
    finds (fun node => (parents.get? node).getD []) edge.1 (edges.length + 1)
      ⟨[edge.2], [edge.2]⟩

/-! ## The graph -/

def MAX_SAFE_INTEGER : Int := 9007199254740991

/-- An id in a column, as a number or as its digits. -/
def rowId (value : Json) : Option Int :=
  let number := match value with
    | .num n => integer? n
    | .str text => (readNat text.toList).map fun n : Nat => (n : Int)
    | _ => none
  number.filter fun n => -MAX_SAFE_INTEGER ≤ n ∧ n ≤ MAX_SAFE_INTEGER

/-- A document id is text that is not empty. -/
def isDocumentId (value : Option ColumnText) : Option String :=
  (value.map ColumnText.text).filter fun text => text ≠ ""

def documentsOf (pages : List PageRow) : OrderedMap Int String :=
  pages.foldl (fun documents page =>
    match isDocumentId page.documentId with
    | none => documents
    | some documentId => documents.set page.id documentId) .empty

/-- The documents that a link row connects. -/
def edgeOf (documents : OrderedMap Int String) (link : PageLink) : Option ParentEdge :=
  match documents.get? ((rowId link.row).getD (-1)), documents.get? ((rowId link.target).getD (-1)) with
  | some child, some parent => some (child, parent)
  | _, _ => none

/-- Every parent edge between documents, draft and published rows alike. -/
def readParentEdges (db : WikiDb) : List ParentEdge :=
  let documents := documentsOf db.pages
  (db.parentLinks.foldl (fun edges link =>
    match edgeOf documents link with
    | none => edges
    | some edge => edges.set (keyOf edge) edge) (.empty : OrderedMap String ParentEdge)).values

/-! ## Payloads -/

inductive WikiAction
  | create
  | update
  | clone
  | delete
  | publish
  | unpublish
  | discardDraft
deriving DecidableEq

/-- The actions whose payload the checks read. -/
def WikiAction.hasPayload : WikiAction → Bool
  | .create => true
  | .update => true
  | .clone => true
  | _ => false

structure WikiParams where
  documentId : Option String
  data : Json

def isRecord : Json → Bool
  | .obj _ => true
  | _ => false

/-- Whether a page payload points the page at a space. -/
def namesSpace (data : Json) : Bool :=
  match data with
  | .obj fields =>
      match Json.field? "space" fields with
      | some (.num _) => true
      | some (.str _) => true
      | some (.arr items) => items ≠ []
      | some (.obj target) =>
          let named : Option Json → Bool
            | none => false
            | some .null => false
            | some (.arr items) => items ≠ []
            | some _ => true
          "id" ∈ target.map Prod.fst || "documentId" ∈ target.map Prod.fst ||
            named (Json.field? "set" target) || named (Json.field? "connect" target)
      | _ => false
  | _ => false

/-- Whether a page payload's `revisions` would change any revision link. -/
def changesRevisionLinks (data : Json) (newDocument : Bool) : Bool :=
  match data with
  | .obj fields =>
      match Json.field? "revisions" fields with
      | none => false
      | some (.obj entries) =>
          let inertWhenEmpty :=
            if newDocument then ["connect", "disconnect", "set"] else ["connect", "disconnect"]
          entries.any fun entry => !(entry.1 ∈ inertWhenEmpty && entry.2 = .arr [])
      | some value => !(newDocument && value = .arr [])
  | _ => false

def revisionLinksError : ValidationError :=
  ⟨"A page's history is recorded by the wiki: its revisions cannot be linked or unlinked",
    ["revisions"], []⟩

def parentCycleError : ValidationError :=
  ⟨"A page cannot be placed below itself or one of its subpages", ["parent"],
    [("parent", "parentCycle")]⟩

/-- The page slugs that the web's routes use as words. -/
def RESERVED_PAGE_SLUGS : List String := ["new"]

def reservedSlug (toLowerCase : String → String) (action : WikiAction) (data : Json) : Bool :=
  action.hasPayload && isRecord data &&
    match data.get? "slug" with
    | some (.str slug) => toLowerCase (trim slug) ∈ RESERVED_PAGE_SLUGS
    | _ => false

/-- A clone starts without history. -/
def withoutHistory (data : Json) : Json :=
  .obj (((data.fields?.getD []).filter fun f => f.1 ≠ "revisions") ++
    [("revisions", .obj [("set", .arr [])])])

/-- Whether the space that a payload points at still has a row; a shape without a
target is left to what is read afterwards. -/
def namedSpaceExists (db : WikiDb) (data : Json) : Bool :=
  match ((data.get? "space").bind parseToOneRelation).bind ToOneRelationInput.target with
  | some (some (.id id)) => db.spaces.any fun space => space.id = id
  | some (some (.documentId documentId)) => db.spaces.any fun space => space.documentId = documentId
  | _ => true

def PageRow.isOf (page : PageRow) (documentId : String) : Bool :=
  page.documentId.any fun id => id.text = documentId

/-- Whether the draft row of a page links a space. -/
def draftHasSpace (db : WikiDb) (documentId : String) : Bool :=
  (db.pages.find? fun page => page.isOf documentId && page.publishedAt = none).any fun page =>
    page.space.isSome

/-- A deleted page takes its history with it. -/
def deleteRevisionsOfRemovedPage (db : WikiDb) (documentId : String) : WikiDb :=
  if db.pages.any (·.isOf documentId) then db
  else { db with revisions := db.revisions.filter fun r => r.pageDocumentId ≠ documentId }

/-! ## The middleware -/

/-- What an action answers: the document it wrote. -/
structure WikiResult where
  documentId : Option String
deriving DecidableEq

/-- What stops an action: a refusal of the checks, or an error of the Document
Service. -/
inductive WikiError
  | refused (refusal : ValidationError)
  | failed (message : String)
deriving DecidableEq

/-- The Document Service on a page: the action, its parameters and the rows. -/
abbrev DocumentService :=
  WikiAction → WikiParams → WikiDb → Except WikiError (WikiDb × WikiResult)

/-- An empty document id names no document. -/
def namedDocument (documentId : Option String) : Option String :=
  documentId.filter fun text => text ≠ ""

/-- The document an action writes, from the result of one that makes a new one. -/
def writtenDocumentId (action : WikiAction) (params : WikiParams) (result : WikiResult) :
    Option String :=
  if action = .create ∨ action = .clone then namedDocument result.documentId
  else namedDocument params.documentId

section
variable (toLowerCase : String → String)

/-- What the checks say before the action runs. -/
def refusalBefore (action : WikiAction) (params : WikiParams) (db : WikiDb) :
    Option ValidationError :=
  if reservedSlug toLowerCase action params.data then some (refuseKey "slug")
  else if action.hasPayload && changesRevisionLinks params.data (action ≠ .update) then
    some revisionLinksError
  else if action.hasPayload && namesSpace params.data && !namedSpaceExists db params.data then
    some (refuseKey "space")
  else none

def paramsFor (action : WikiAction) (params : WikiParams) : WikiParams :=
  if action = .clone then { params with data := withoutHistory params.data } else params

/-- What the checks say of the page's space afterwards. -/
def refusalAfter (action : WikiAction) (params : WikiParams) (db : WikiDb) (result : WikiResult) :
    Option ValidationError :=
  if action.hasPayload && namesSpace params.data &&
      !(writtenDocumentId action params result).any (draftHasSpace db) then
    some (refuseKey "space")
  else none

def afterRemoval (action : WikiAction) (params : WikiParams) (db : WikiDb) : WikiDb :=
  if action = .delete ∨ action = .discardDraft then
    (namedDocument params.documentId).elim db (deleteRevisionsOfRemovedPage db)
  else db

/-- One action on a page. An error leaves the rows as they were. -/
def wikiPageAction (next : DocumentService) (action : WikiAction) (params : WikiParams)
    (db : WikiDb) : Except WikiError (WikiDb × WikiResult) :=
  match refusalBefore toLowerCase action params db with
  | some refusal => .error (.refused refusal)
  | none =>
      match next action (paramsFor action params) db with
      | .error error => .error error
      | .ok (db', result) =>
          let before := readParentEdges db
          let after := readParentEdges db'
          match loopThrough after (addedEdges before after) with
          | some _ => .error (.refused parentCycleError)
          | none =>
              match refusalAfter action params db' result with
              | some refusal => .error (.refused refusal)
              | none => .ok (afterRemoval action params db', result)

/-- One accepted action, whatever the Document Service does for it. -/
def WikiStep (db : WikiDb) (call : WikiAction × WikiParams) (db' : WikiDb) : Prop :=
  ∃ next result, wikiPageAction toLowerCase next call.1 call.2 db = .ok (db', result)

end

end Sinnlos.Cms.Wiki

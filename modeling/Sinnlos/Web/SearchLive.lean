import Mathlib.Data.List.Sort
import Sinnlos.Cms.SearchDocuments
import Sinnlos.Domain.Quizzes
import Sinnlos.Lib.Distinct

/-! # The live search

`apps/web/src/lib/search-action.ts` and `search-meili.ts`: the rows of each kind
become items, and where Meilisearch answers, its candidates are read through the
viewer's own reads and come first. The reads are those of one search; what a read
answers is a list response, people come as a bare array.
-/

namespace Sinnlos.Web.Search

open Sinnlos.Cms.Search Sinnlos.Domain

inductive SearchKind
  | department
  | team
  | wikiSpace
  | content (kind : IndexedSearchKind)
  | person
deriving DecidableEq

def SearchKind.name : SearchKind → String
  | department => "department"
  | team => "team"
  | wikiSpace => "wiki-space"
  | content kind => kind.name
  | person => "person"

structure SearchItem where
  key : String
  kind : SearchKind
  title : String
  subtitle : Option String
  href : String
deriving DecidableEq

/-- The kinds the live search queries, in the order they are listed. -/
def LIVE_KINDS : List SearchKind :=
  [.content .announcement, .content .wikiPage, .content .document, .content .event,
    .content .poll, .person]

def MIN_TERM_LENGTH : Nat := 2
def LIVE_LIMIT : Nat := 5

/-! ## Who reads what -/

def KNOWN_ROLES : List String :=
  ["admin_role", "editor", "department_head", "team_lead", "member", "guest", "authenticated"]

def STAFF_AND_FALLBACK : List String :=
  ["admin_role", "editor", "department_head", "team_lead", "member", "authenticated"]

/-- The roles that read the section of a kind, for the kinds not every role may
read. -/
def SEARCH_KIND_SECTION : SearchKind → Option (List String)
  | .department | .team | .content .announcement => some STAFF_AND_FALLBACK
  | _ => none

def hasRole (allowed : List String) : Option String → Bool
  | some role => role ∈ allowed
  | none => false

def searchKindDenied (kind : SearchKind) (role : Option String) : Bool :=
  match SEARCH_KIND_SECTION kind with
  | none => false
  | some readers => hasRole KNOWN_ROLES role && !hasRole readers role

def searchKindSwitchedOff (kind : SearchKind) (off : List ModuleName) : Bool :=
  match kind with
  | .content .event => !searchKindEnabled off .event
  | .content .poll => !searchKindEnabled off .poll
  | _ => false

/-! ## Rows as items -/

/-- What the mapper needs from the locale. -/
structure SearchFormat where
  eventDate : String → Option String
  pollCloses : String → Option String
  pollOpen : String
  unknown : String

/-- `String(value)` of a value that is there and no string. -/
abbrev TextOf := Json → String

abbrev Row := List (String × Json)

def isRow : Json → Option Row
  | .obj row => some row
  | _ => none

/-- A non-empty string field. -/
def text (row : Option Row) (key : String) : Option String :=
  match row.bind (Json.field? key) with
  | some (.str value) => if value = "" then none else some value
  | _ => none

def relation (row : Row) (key : String) : Option Row := (Json.field? key row).bind isRow

def unescaped (c : Char) : Bool := c.isAlphanum || "-_.!~*'()".toList.contains c

def hexUpper (n : Nat) : Char := if n < 10 then Char.ofNat (48 + n) else Char.ofNat (55 + n)

def escapeByte (byte : UInt8) : List Char :=
  ['%', hexUpper (byte.toNat / 16), hexUpper (byte.toNat % 16)]

def encodeURIComponent (segment : String) : String :=
  String.ofList (segment.toList.flatMap fun c =>
    if unescaped c then [c] else (String.utf8EncodeChar c).flatMap escapeByte)

def path (segments : List String) : String :=
  "/" ++ "/".intercalate (segments.map encodeURIComponent)

/-- The parts that are there, or nothing. -/
def joined (parts : List (Option String)) : Option String :=
  match (parts.filterMap id).filter (· ≠ "") with
  | [] => none
  | there => some (" · ".intercalate there)

section Mapping

variable (textOf : TextOf) (format : SearchFormat)

/-- `kind:documentId`, or `kind:id` for rows without one. -/
def keyOf (kind : SearchKind) (row : Row) : Option String :=
  match text (some row) "documentId" with
  | some documentId => some (kind.name ++ ":" ++ documentId)
  | none =>
      match Json.field? "id" row with
      | some (.num id) => some (kind.name ++ ":" ++ textOf (.num id))
      | _ => none

/-- An item needs its title and its link. -/
def item (key : String) (kind : SearchKind) (title href : Option String)
    (subtitle : Option String) : Option SearchItem :=
  match title, href with
  | some title, some href =>
      if title = "" then none
      else some ⟨key, kind, title, subtitle.filter (· ≠ ""), href⟩
  | _, _ => none

def teamSubtitle (department description : Option String) : Option String :=
  match department with
  | some department => some (department ++ " · " ++ description.getD "")
  | none => description

/-- The link of a wiki page takes both its slug and that of its space. -/
def wikiPageHref (space slug : Option String) : Option String :=
  match space, slug with
  | some space, some slug => some (path ["wiki", space, slug])
  | _, _ => none

def toItem (kind : SearchKind) (row : Row) : Option SearchItem :=
  match keyOf textOf kind row with
  | none => none
  | some key =>
      if key = "" then none
      else
        let field := text (some row)
        match kind with
        | .department =>
            item key kind (field "name") ((field "slug").map fun slug => path ["departments", slug])
              (field "description")
        | .team =>
            item key kind (field "name") ((field "slug").map fun slug => path ["teams", slug])
              (teamSubtitle (text (relation row "department") "name") (field "description"))
        | .wikiSpace =>
            item key kind (field "name") ((field "slug").map fun slug => path ["wiki", slug])
              (field "description")
        | .content .wikiPage =>
            let space := relation row "space"
            let spaceSlug := text space "slug"
            item key kind (field "title") (wikiPageHref spaceSlug (field "slug"))
              (joined [(text space "name").or spaceSlug, field "summary"])
        | .content .announcement =>
            item key kind (field "title") (some "/announcements")
              (text (relation row "author") "displayName")
        | .content .event =>
            item key kind (field "title") (some "/events")
              ((field "start").bind format.eventDate)
        | .content .poll =>
            item key kind (field "question") (some "/polls")
              (match field "closesAt" with
                | some closesAt => format.pollCloses closesAt
                | none => some format.pollOpen)
        | .content .document =>
            item key kind (field "title") (some "/documents")
              ((field "description").or (field "category"))
        | .person =>
            match Json.field? "id" row with
            | some (.num id) =>
                item key kind
                  (some ((((field "displayName").or (field "username")).or
                    (field "email")).getD format.unknown))
                  (some (path ["people", textOf (.num id)]))
                  (joined [field "jobTitle", text (relation row "department") "name"])
            | _ => none

/-- The row array, or the rows of a list response. -/
def rowsIn (rows : Json) : List Json :=
  match rows with
  | .arr list => list
  | _ =>
      match (isRow rows).bind (Json.field? "data") with
      | some (.arr list) => list
      | _ => []

/-- The item of a row, if it is one that can be linked. -/
def itemOf (kind : SearchKind) (row : Json) : Option SearchItem :=
  (isRow row).bind (toItem textOf format kind)

def toSearchItems (kind : SearchKind) (rows : Json) : List SearchItem :=
  Distinct.firsts SearchItem.key [] ((rowsIn rows).filterMap (itemOf textOf format kind))

end Mapping

/-! ## The candidates of the index -/

/-- The documentIds an answer has for one query. -/
def hitIds (result : Json) : List String :=
  match (isRow result).bind (Json.field? "hits") with
  | some (.arr hits) => hits.filterMap fun hit => text (isRow hit) "documentId"
  | _ => []

/-- The ranked documentIds of each kind; none where Meilisearch is off, paused or
failing (no answer), or answers something unexpected. -/
def meiliCandidates (answer : Option Json) : Option (List (IndexedSearchKind × List String)) :=
  match answer.bind fun body => (isRow body).bind (Json.field? "results") with
  | some (.arr results) =>
      if results.length = INDEXED_SEARCH_KINDS.length then
        some (INDEXED_SEARCH_KINDS.zip (results.map hitIds))
      else none
  | _ => none

def idsOf (kind : IndexedSearchKind) :
    List (IndexedSearchKind × List String) → Option (List String)
  | [] => none
  | entry :: entries => if entry.1 = kind then some entry.2 else idsOf kind entries

/-! ## One search -/

/-- What the viewer's reads answer in one search: the rows of some documentIds of a
kind, the rows that hold the term, and the people. -/
structure Reads where
  candidates : IndexedSearchKind → List String → List Json
  content : IndexedSearchKind → List Json
  people : Json

/-- One search of one viewer: the term, the role, what is switched off, the answer
of Meilisearch and that of the reads. -/
structure LiveSearch where
  textOf : TextOf
  format : SearchFormat
  off : List ModuleName
  demo : Bool
  role : Option String
  term : String
  answer : Option Json
  reads : Reads

/-- The answer of a list read. -/
def listResponse (rows : List Json) : Json := .obj [("data", .arr rows), ("meta", .obj [])]

def rowList (answer : Json) : List Json :=
  match (isRow answer).bind (Json.field? "data") with
  | some (.arr list) => list
  | _ => []

/-- The rank of every id; of an id that stands there twice the last counts. -/
def rankOf (id : String) : List String → Nat → Option Nat
  | [], _ => none
  | first :: ids, i => (rankOf id ids (i + 1)).or (if first = id then some i else none)

/-- `String(value)`. -/
def valueText (textOf : TextOf) : Option Json → String
  | none => "undefined"
  | some (.str value) => value
  | some value => textOf value

def rankAt (textOf : TextOf) (ids : List String) (row : Json) : Nat :=
  let id :=
    match isRow row with
    | some fields => valueText textOf (Json.field? "documentId" fields)
    | none => ""
  (rankOf id ids 0).getD ids.length

namespace LiveSearch

variable (s : LiveSearch)

def candidateRows (kind : IndexedSearchKind) (ids : List String) : List Json :=
  if ids = [] then [] else rowList (listResponse (s.reads.candidates kind ids))

/-- The candidates in the order of the index; fewer than the limit are followed by
the rows of the plain read. -/
def rankedRows (kind : IndexedSearchKind) (ids : List String) : List Json :=
  let rows := (s.candidateRows kind ids).insertionSort
    fun a b => rankAt s.textOf ids a ≤ rankAt s.textOf ids b
  if LIVE_LIMIT ≤ rows.length then rows
  else rows ++ rowList (listResponse (s.reads.content kind))

/-- The ids the index has for a kind. -/
def ranked (kind : IndexedSearchKind) : Option (List String) :=
  (if s.demo then none else meiliCandidates s.answer).bind (idsOf kind)

def read (kind : SearchKind) : Json :=
  if searchKindSwitchedOff kind s.off then .arr []
  else
    match kind with
    | .person => s.reads.people
    | .content content =>
        if searchKindDenied kind s.role then .arr []
        else
          match s.ranked content with
          | some ids => .arr (s.rankedRows content ids)
          | none => listResponse (s.reads.content content)
    | _ => .arr []

/-- The items of one kind. -/
def itemsOf (kind : SearchKind) : List SearchItem :=
  (toSearchItems s.textOf s.format kind (s.read kind)).take LIVE_LIMIT

def searchLive : List SearchItem :=
  if textLength s.term < MIN_TERM_LENGTH then [] else LIVE_KINDS.flatMap s.itemsOf

/-- The same search without the index. -/
def plain : LiveSearch := { s with answer := none }

end LiveSearch

end Sinnlos.Web.Search

import Sinnlos.Lib.Keyset
import Sinnlos.Lib.OrderedMap
import Sinnlos.Lib.QueryFilters
import Sinnlos.Lib.Text
import Sinnlos.Cms.Recipients

/-! # Target visibility

`apps/cms/src/utils/target-visibility.ts` and the policy
`comment-target-visibility`: which announcements and wiki pages a caller may see,
for all targets at once and for a single one, and which rows of a discussion a
read returns.
-/

namespace Sinnlos.Cms.Targets

open Domain (AnnouncementTargeting AudienceScope isAnnouncementTargetedTo)
open QueryFilters (Condition conditionOf kept)

/-! ## Rows -/

/-- The id of a document as the database makes it: a text without blanks around it. -/
structure DocumentId where
  text : String
  trimmed : Text.trim text = text
  ne : text ≠ ""
deriving DecidableEq

structure AnnouncementRow where
  id : Nat
  documentId : Option DocumentId
  /-- `publishedAt` is set. -/
  published : Bool
  expiresAt : Option String
  targeting : AnnouncementTargeting

structure PageRow where
  id : Nat
  documentId : Option DocumentId
  published : Bool
  space : Option Nat

inductive SpaceVisibility
  | everyone
  | role
  | department
  | team
  | other
deriving DecidableEq

structure SpaceRow where
  id : Nat
  visibility : SpaceVisibility
  allowedRoles : List Nat
  department : Option Nat
  team : Option Nat

structure UserRow where
  id : Nat
  role : Option Nat
  department : Option Nat
  teams : List Nat

structure TeamRow where
  id : Nat
  lead : Option Nat

/-- Rows by ascending ids from 1 on. -/
def Numbered {ρ : Type} (id : ρ → Nat) (rows : List ρ) : Prop :=
  rows.Pairwise (fun a b => id a < id b) ∧ ∀ row ∈ rows, 0 < id row

structure TargetDb where
  announcements : List AnnouncementRow
  pages : List PageRow
  spaces : List SpaceRow
  users : List UserRow
  teams : List TeamRow
  announcement_ids : Numbered AnnouncementRow.id announcements
  space_ids : Numbered SpaceRow.id spaces

/-- A signed-in caller. -/
structure CallerUser where
  id : Nat
  /-- The role is one of the moderators. -/
  moderator : Bool
deriving DecidableEq

/-- The instant of a column text, none where it is unreadable. -/
abbrev InstantMsOrNull : Type := String → Option Int

/-! ## Loaders -/

def LOADER_PAGE : Nat := 5000

/-- Every matching row, read in pages of ascending ids. -/
def findAllPaged {ρ : Type} (id : ρ → Nat) (rows : List ρ) : List ρ :=
  Keyset.readPages id LOADER_PAGE rows (rows.length + 1) 0

def loadUserScope (db : TargetDb) (userId : Nat) : UserScope :=
  let meFull := db.users.find? fun user => user.id = userId
  { roleId := meFull.bind UserRow.role
    departmentId := meFull.bind UserRow.department
    teamIds := (meFull.map UserRow.teams).getD []
    ledTeamIds := (db.teams.filter fun team => team.lead = some userId).map TeamRow.id }

/-- The scope of a caller, none for an anonymous one. -/
def scopeOf (db : TargetDb) (user : Option CallerUser) : Option UserScope :=
  user.map fun user => loadUserScope db user.id

/-- The rows with their flags read again. -/
def withFreshAnnouncementFlags (rows reread : List AnnouncementRow) : List AnnouncementRow :=
  rows.map fun row =>
    let now := reread.reverse.find? fun now => now.id = row.id
    { row with targeting := raiseFlags row.targeting (now.map AnnouncementRow.targeting) }

def loadAnnouncementRows (db : TargetDb) (condition : AnnouncementRow → Bool) :
    List AnnouncementRow :=
  withFreshAnnouncementFlags (findAllPaged AnnouncementRow.id (db.announcements.filter condition))
    (db.announcements.filter condition)

def targetAnchor (value : Option String) : Option String :=
  value.bind fun value => if Text.trim value = "" then none else some (Text.trim value)

/-- The published row of each document. -/
def publishedByAnchor (rows : List AnnouncementRow) : OrderedMap String AnnouncementRow :=
  OrderedMap.ofList <| rows.filterMap fun row =>
    (targetAnchor (row.documentId.map DocumentId.text)).bind fun anchor =>
      if row.published then some (anchor, row) else none

def isAnnouncementExpired (instantMsOrNull : InstantMsOrNull) (row : AnnouncementRow) (now : Int) :
    Bool :=
  (row.expiresAt.bind instantMsOrNull).any fun expiresMs => expiresMs ≤ now

def isSpaceVisible (space : SpaceRow) (scope : Option UserScope) : Bool :=
  match space.visibility with
  | .everyone => true
  | .role => (scope.bind UserScope.roleId).any space.allowedRoles.contains
  | .department => (scope.bind UserScope.departmentId).any fun id => space.department = some id
  | .team => scope.any fun scope => space.team.any scope.teamIds.contains
  | .other => false

def visibleWikiSpaceIds (db : TargetDb) (scope : Option UserScope) : List Nat :=
  ((findAllPaged SpaceRow.id db.spaces).filter fun space => isSpaceVisible space scope).map
    SpaceRow.id

/-! ## All targets and a single one -/

inductive CommentTargetType
  | announcement
  | wikiPage
deriving DecidableEq

def CommentTargetType.text : CommentTargetType → String
  | .announcement => "announcement"
  | .wikiPage => "wiki-page"

def commentTargetType? (text : String) : Option CommentTargetType :=
  [CommentTargetType.announcement, .wikiPage].find? fun type => type.text = text

structure VisibleTargetAnchors where
  announcement : List String
  wikiPage : List String

def VisibleTargetAnchors.of (anchors : VisibleTargetAnchors) : CommentTargetType → List String
  | .announcement => anchors.announcement
  | .wikiPage => anchors.wikiPage

def visibleWikiPageAnchors (db : TargetDb) (spaceIds : List Nat) : List String :=
  if spaceIds = [] then []
  else
    ((db.pages.filter fun page => page.space.any spaceIds.contains && page.published).filterMap
      fun page => targetAnchor (page.documentId.map DocumentId.text)).eraseDups

/-- All targets visible to a caller, by the restrictive rules. -/
def visibleTargetAnchors (instantMsOrNull : InstantMsOrNull) (db : TargetDb) (now : Int)
    (user : Option CallerUser) : VisibleTargetAnchors :=
  let raw := scopeOf db user
  let audience := raw.map toAudienceScope
  let announcementRows := loadAnnouncementRows db AnnouncementRow.published
  let spaceIds := visibleWikiSpaceIds db raw
  { announcement :=
      ((publishedByAnchor announcementRows).entries.filter fun entry =>
        !isAnnouncementExpired instantMsOrNull entry.2 now &&
          isAnnouncementTargetedTo entry.2.targeting audience).map Prod.fst
    wikiPage := visibleWikiPageAnchors db spaceIds }

def isModerator (user : Option CallerUser) : Bool := user.any CallerUser.moderator

/-- Whether a caller may see one target. -/
def isTargetVisible (instantMsOrNull : InstantMsOrNull) (db : TargetDb) (now : Int)
    (targetType : CommentTargetType) (targetDocumentId : String) (user : Option CallerUser) : Bool :=
  match targetType with
  | .announcement =>
      let rows := loadAnnouncementRows db fun row =>
        row.documentId.map DocumentId.text = some targetDocumentId && row.published
      match (publishedByAnchor rows).get? targetDocumentId with
      | none => false
      | some row =>
          if isModerator user then true
          else if isAnnouncementExpired instantMsOrNull row now then false
          else isAnnouncementTargetedTo row.targeting ((scopeOf db user).map toAudienceScope)
  | .wikiPage =>
      if isModerator user then true
      else
        let page := db.pages.find? fun page =>
          page.documentId.map DocumentId.text = some targetDocumentId && page.published
        match page.bind PageRow.space with
        | none => false
        | some spaceId => (visibleWikiSpaceIds db (scopeOf db user)).contains spaceId

/-! ## The filter of a client -/

structure PinnedTargetAnchor where
  targetType : String
  targetDocumentId : String
deriving DecidableEq

/-- `{ $eq: "<string>" }` and nothing else. -/
def eqString : Json → Option String
  | .obj [("$eq", .str value)] => some value
  | _ => none

def plainObject : Json → Option (List (String × Json))
  | .obj fields => some fields
  | _ => none

/-- The filter and the objects of its `$and`, none where that is no array of objects. -/
def conjunctsOf (fields : List (String × Json)) : Option (List (List (String × Json))) :=
  match Json.field? "$and" fields with
  | none => some [fields]
  | some (.arr items) => (items.mapM plainObject).map fun objects => fields :: objects
  | some _ => none

/-- The one text that the conjuncts give a key, where all that name it give it one. -/
def pinOf (key : String) (conjuncts : List (List (String × Json))) : Option String :=
  match (conjuncts.filterMap (Json.field? key)).mapM eqString with
  | none => none
  | some values =>
      match values.eraseDups with
      | [value] => some value
      | _ => none

def pinnedTargetAnchor (filters : Json) : Option PinnedTargetAnchor := do
  let fields ← plainObject filters
  let conjuncts ← conjunctsOf fields
  let targetType ← pinOf "targetType" conjuncts
  let targetDocumentId ← pinOf "targetDocumentId" conjuncts
  return { targetType, targetDocumentId }

/-! ## The rows of a discussion -/

/-- A comment or a reaction, `χ` being its other columns. -/
structure ThreadRow (χ : Type) where
  targetType : Option String
  targetDocumentId : Option String
  columns : χ

variable {χ : Type}

/-- What a client's filter asks of a row. `leaf` answers for everything but the two
columns compared with a text. -/
def threadLeaf (leaf : String → Json → ThreadRow χ → Condition) (row : ThreadRow χ) (key : String)
    (value : Json) : Condition :=
  match eqString value with
  | none => leaf key value row
  | some text =>
      if key = "targetType" then some (Sql.eq row.targetType (some text))
      else if key = "targetDocumentId" then some (Sql.eq row.targetDocumentId (some text))
      else leaf key value row

/-- The row passes the client's filter, if there is one. -/
def passes (leaf : String → Json → ThreadRow χ → Condition) (filters : Option Json)
    (row : ThreadRow χ) : Bool :=
  filters.all fun filters => kept (conditionOf (threadLeaf leaf row) filters)

/-- A clause of the policy: the targets whose rows stay, by type; no branch lets
nothing pass. -/
structure Clause where
  branches : List (String × List String)
deriving DecidableEq

def Clause.holds (clause : Clause) (row : ThreadRow χ) : Bool :=
  clause.branches.any fun branch =>
    row.targetType = some branch.1 && row.targetDocumentId.any branch.2.contains

/-- The clause for the one target that the filter pins. -/
def pinnedClause (instantMsOrNull : InstantMsOrNull) (db : TargetDb) (now : Int)
    (caller : Option CallerUser) (pin : PinnedTargetAnchor) : Clause :=
  match commentTargetType? pin.targetType with
  | none => ⟨[]⟩
  | some targetType =>
      if isTargetVisible instantMsOrNull db now targetType pin.targetDocumentId caller then
        ⟨[(pin.targetType, [pin.targetDocumentId])]⟩
      else ⟨[]⟩

/-- The clause for every visible target; a type without one gets no branch. -/
def fullClause (instantMsOrNull : InstantMsOrNull) (db : TargetDb) (now : Int)
    (caller : Option CallerUser) : Clause :=
  let anchors := visibleTargetAnchors instantMsOrNull db now caller
  ⟨([CommentTargetType.announcement, .wikiPage].filter fun targetType =>
      anchors.of targetType ≠ []).map fun targetType => (targetType.text, anchors.of targetType)⟩

/-- What the policy does with a read. -/
inductive PolicyDecision
  /-- The query stays as it is. -/
  | unchanged
  | narrow (clause : Clause)
  /-- Filters that are neither an object nor an array. -/
  | badFilters
  | refuse
deriving DecidableEq

def filtersShape : Json → Bool
  | .obj _ | .arr _ | .null | .bool false => true
  | .str text => text = ""
  | .num value => value = 0
  | .bool true => false

structure ThreadRead where
  user : Option CallerUser
  /-- The route reads comments or reactions. -/
  guarded : Bool
  canNarrow : Bool
  filters : Option Json

/-- The policy on a read: one target where the filter pins one, else all of them. -/
def commentTargetVisibility (instantMsOrNull : InstantMsOrNull) (db : TargetDb) (now : Int)
    (read : ThreadRead) : PolicyDecision :=
  if isModerator read.user then .unchanged
  else if !read.guarded || !read.canNarrow then .refuse
  else
    match read.filters.bind pinnedTargetAnchor with
    | some pin => .narrow (pinnedClause instantMsOrNull db now read.user pin)
    | none =>
        if read.filters.all filtersShape then .narrow (fullClause instantMsOrNull db now read.user)
        else .badFilters

/-- The rows that a narrowed read selects. -/
def selected (leaf : String → Json → ThreadRow χ → Condition) (filters : Option Json)
    (clause : Clause) (rows : List (ThreadRow χ)) : List (ThreadRow χ) :=
  rows.filter fun row => passes leaf filters row && clause.holds row

end Sinnlos.Cms.Targets

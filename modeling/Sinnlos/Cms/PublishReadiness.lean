import Mathlib.Data.List.Sort
import Sinnlos.Domain.Quizzes

/-! # Publish readiness

The Document Service middleware of `apps/cms/src/utils/publish-readiness.ts`, in
the transaction of the document lock around it. The core action is a parameter:
from the action, what others commit while it runs and what its transaction sees,
it answers and says what the transaction sees afterwards. How JavaScript
compares a value that is no number with one is a parameter too.
-/

namespace Sinnlos.Cms.Readiness

open Domain (textLength)

/-! ## Content types -/

def LESSON_UID : String := "api::lesson.lesson"
def WIKI_PAGE_UID : String := "api::wiki-page.wiki-page"

/-- The scheduled types (`authoring-uids.ts`). -/
def SCHEDULED_UIDS : List String :=
  ["api::announcement.announcement", "api::event.event", "api::document.document",
    "api::quick-link.quick-link", WIKI_PAGE_UID, "api::course.course", LESSON_UID]

/-- The to-one relations a publish must keep, per uid. -/
def READINESS_RELATIONS (uid : String) : List String :=
  if uid = LESSON_UID then ["course"]
  else if uid = WIKI_PAGE_UID then ["parent"]
  else []

structure AttributeSchema where
  type : Option String
  required : Bool
  /-- `Number(min)`, where it is finite. -/
  min : Option Rat
  minLength : Option Nat
  target : Option String
deriving DecidableEq

/-- The attributes of a content type, in the order of its schema. -/
abbrev Attributes : Type := List (String × AttributeSchema)

def targetOf (attributes : Attributes) (key : String) : Option String :=
  (attributes.lookup key).bind fun schema => schema.target.filter (· ≠ "")

/-! ## Rows -/

/-- A to-one relation of a row and the row of `target` it leads to, if any. -/
structure Link where
  key : String
  target : String
  id : Option Nat
deriving DecidableEq

structure Row where
  id : Nat
  documentId : String
  published : Bool
  /-- The scalar columns; a column that is empty holds null. -/
  fields : List (String × Json)
  links : List Link
deriving DecidableEq

/-- The rows of each content type, as one transaction sees them. -/
abbrev Tables : Type := String → List Row

def Tables.rowById (tables : Tables) (uid : String) (id : Nat) : Option Row :=
  (tables uid).find? fun row => row.id == id

/-- The draft row of a document, or its published row. -/
def Tables.rowOf (tables : Tables) (uid documentId : String) (published : Bool) : Option Row :=
  (tables uid).find? fun row => row.documentId == documentId && row.published == published

def Tables.linkedRow (tables : Tables) (link : Link) : Option Row :=
  link.id.bind (tables.rowById link.target)

/-- The documentId a populated to-one relation holds, or none. -/
def Tables.linkedDocumentId (tables : Tables) (row : Row) (key : String) : Option String :=
  (row.links.find? fun link => link.key == key).bind fun link =>
    (tables.linkedRow link).map Row.documentId

def populated (linked : Option String) : Json :=
  match linked with
  | some documentId => .obj [("documentId", .str documentId)]
  | none => .null

/-- What a query that populates the readiness relations answers for a row. -/
def Tables.populate (tables : Tables) (uid : String) (row : Row) : List (String × Json) :=
  row.fields ++
    (READINESS_RELATIONS uid).map fun key => (key, populated (tables.linkedDocumentId row key))

/-! ## What blocks a publish -/

/-- One relation reference: a documentId, or a row id to translate. -/
inductive RelationRef
  | documentId (documentId : String)
  | id (id : Rat)
deriving DecidableEq

/-- `{ documentId }` or `{ id }`, without the operations. -/
def refOfTarget (fields : List (String × Json)) : Option RelationRef :=
  match Json.field? "documentId" fields, Json.field? "id" fields with
  | some (.str documentId), id =>
      if documentId ≠ "" then some (.documentId documentId)
      else match id with
        | some (.num id) => some (.id id)
        | _ => none
  | _, some (.num id) => some (.id id)
  | _, _ => none

def isArray : Option Json → Bool
  | some (.arr _) => true
  | _ => false

def isFilled : Option Json → Bool
  | some (.arr (_ :: _)) => true
  | _ => false

mutual

/-- Of an object, `set` counts before `connect`, and both before the object's own
identity; of an array, the last target. -/
def refOf : Json → Option RelationRef
  | .str text => if text = "" then none else some (.documentId text)
  | .num value => if value.den = 1 then some (.id value) else none
  | .arr items => refOfLast items
  | .obj fields =>
      if isArray (Json.field? "set" fields) then refUnder "set" fields
      else if isFilled (Json.field? "connect" fields) then refUnder "connect" fields
      else refOfTarget fields
  | .null | .bool _ => none

def refOfLast : List Json → Option RelationRef
  | [] => none
  | [item] => refOf item
  | _ :: item :: items => refOfLast (item :: items)

/-- The reference of the property `key`. -/
def refUnder (key : String) : List (String × Json) → Option RelationRef
  | [] => none
  | (name, value) :: fields => if name = key then refOf value else refUnder key fields

end

/-- The target's documentId for a reference, or none when it does not resolve. -/
def Tables.targetDocumentId (tables : Tables) (target : String) : RelationRef → Option String
  | .documentId documentId => some documentId
  | .id id => ((tables target).find? fun row => (row.id : Rat) == id).map Row.documentId

def Tables.hasPublishedRow (tables : Tables) (target documentId : String) : Bool :=
  (tables target).countP (fun row => row.documentId == documentId && row.published) > 0

def SKIPPED_TYPES : List String := ["relation", "media", "component", "dynamiczone"]
def NUMBER_TYPES : List String := ["integer", "biginteger", "float", "decimal"]
def STRING_TYPES : List String := ["string", "text", "richtext", "email", "password", "uid"]

/-- Neither null nor undefined. -/
def isGiven : Option Json → Bool
  | none | some .null => false
  | _ => true

/-- `Number(value) < min`, given how values that are no numbers become one. -/
def isBelow (numberBelow : Json → Rat → Bool) (min : Rat) : Option Json → Bool
  | none | some .null => false
  | some (.num value) => value < min
  | some value => numberBelow value min

def isShorter (minLength : Nat) : Option Json → Bool
  | some (.str text) => textLength text < minLength
  | _ => false

/-- Whether the check of a scalar attribute blocks. -/
def scalarBlocks (numberBelow : Json → Rat → Bool) (schema : AttributeSchema)
    (value : Option Json) : Bool :=
  match schema.type with
  | none => false
  | some type =>
      !(type == "") && !SKIPPED_TYPES.contains type &&
        (schema.required && !isGiven value ||
          NUMBER_TYPES.contains type && schema.min.any (isBelow numberBelow · value) ||
          STRING_TYPES.contains type && schema.minLength.any (isShorter · value))

/-! ## The action -/

/-- A documentId that names a document. -/
structure DocumentId where
  text : String
  ne : text ≠ ""

/-- A Document Service action that writes a published row, or may. -/
inductive Action
  | publish (documentId : DocumentId)
  | create (data : Json) (status : Option Json)
  | update (documentId : DocumentId) (data : Json) (status : Option Json)

def Action.documentId? : Action → Option String
  | .publish documentId | .update documentId _ _ => some documentId.text
  | .create _ _ => none

/-- Create and update publish inside the action with `status: 'published'`. -/
def Action.publishes : Action → Bool
  | .publish _ => true
  | .create _ status | .update _ _ status => status == some (.str "published")

/-- The named document, or the one of the result. -/
def documentIdOf (action : Action) (result : Option String) : Option String :=
  action.documentId?.or (result.filter (· ≠ ""))

/-! ## The overlay -/

/-- `merged[key] = value` -/
def setField (key : String) (value : Json) : List (String × Json) → List (String × Json)
  | [] => [(key, value)]
  | (name, old) :: fields =>
      if name = key then (name, value) :: fields else (name, old) :: setField key value fields

def RELATION_OPERATIONS : List String := ["set", "connect", "disconnect"]

/-- What one field of the payload makes of the merged draft. -/
def overlayField (merged : List (String × Json)) (field : String × Json) : List (String × Json) :=
  match field.2 with
  | .obj operations =>
      if RELATION_OPERATIONS.any fun operation => (Json.field? operation operations).isSome then
        match Json.field? "set" operations with
        | some (.arr items) => setField field.1 (.arr items) merged
        | _ =>
            match Json.field? "connect" operations, Json.field? "disconnect" operations with
            | some (.arr (item :: items)), _ => setField field.1 (.arr (item :: items)) merged
            | _, some (.arr (_ :: _)) => setField field.1 .null merged
            | _, _ => merged
      else setField field.1 field.2 merged
  | value => setField field.1 value merged

/-- The stored draft overlaid with a payload. -/
def overlayDraft (stored : Option (List (String × Json))) (data : Json) : List (String × Json) :=
  match data with
  | .obj fields => fields.foldl overlayField (stored.getD [])
  | _ => stored.getD []

/-- The draft the check is about; a publish without a stored draft has none. -/
def judgedDraft (stored : Option (List (String × Json))) : Action → Option (List (String × Json))
  | .publish _ => stored
  | .create data _ | .update _ data _ => some (overlayDraft stored data)

/-! ## What others commit -/

/-- A change that another transaction commits to one document. -/
inductive TargetAct
  /-- The published row is replaced by a new one; the links to the old row move
  along or are dropped. -/
  | publish (uid documentId : String) (row : Row) (relinks : Bool)
  | unpublish (uid documentId : String)
  | delete (uid documentId : String)

namespace TargetAct

def uid : TargetAct → String
  | publish uid _ _ _ | unpublish uid _ | delete uid _ => uid

def documentId : TargetAct → String
  | publish _ documentId _ _ | unpublish _ documentId | delete _ documentId => documentId

/-- The act removes this row. -/
def removes (row : Row) : TargetAct → Bool
  | publish _ documentId _ _ | unpublish _ documentId =>
      row.documentId == documentId && row.published
  | delete _ documentId => row.documentId == documentId

/-- The rows the act adds. -/
def adds (uid : String) : TargetAct → List Row
  | publish own documentId row _ =>
      if own = uid then [{ row with documentId := documentId, published := true }] else []
  | unpublish _ _ | delete _ _ => []

/-- The row the links to a removed row lead to afterwards. -/
def movesTo : TargetAct → Option Nat
  | publish _ _ row true => some row.id
  | _ => none

end TargetAct

/-- A link after the act: one to a removed row moves along or leads nowhere. -/
def Tables.relink (tables : Tables) (act : TargetAct) (link : Link) : Link :=
  match tables.linkedRow link with
  | some row =>
      if link.target == act.uid && act.removes row then { link with id := act.movesTo } else link
  | none => link

def Tables.relinked (tables : Tables) (act : TargetAct) (row : Row) : Row :=
  { row with links := row.links.map (tables.relink act) }

/-- The tables after the act. -/
def Tables.apply (tables : Tables) (act : TargetAct) : Tables := fun uid =>
  ((tables uid).filter fun row => !(uid == act.uid && act.removes row)).map (tables.relinked act) ++
    act.adds uid

/-- A new row has an id of the sequence, which no row of its type and no link of a
row of `uid` holds. -/
def Tables.admits (tables : Tables) (uid : String) : TargetAct → Bool
  | .publish own _ row _ =>
      (tables own).all (fun other => other.id != row.id) &&
        (tables uid).all fun holder => holder.links.all fun link => link.id != some row.id
  | .unpublish _ _ | .delete _ _ => true

/-! ## The transaction of the guarded action -/

structure World where
  committed : Tables
  /-- What the transaction of the action sees, its own writes included. -/
  seen : Tables
  /-- What others commit before each of the following statements. -/
  schedule : List (List TargetAct)
  /-- What others have committed since the transaction began. -/
  others : List TargetAct

/-- The content type and the document of the action; a change of this document by
another transaction waits for its version row. -/
structure Guarded where
  uid : String
  documentId : Option String

def TargetAct.waits (own : Guarded) (act : TargetAct) : Bool :=
  act.uid == own.uid && own.documentId == some act.documentId

/-- Another transaction commits. -/
def World.commit (own : Guarded) (world : World) (act : TargetAct) : World :=
  if !act.waits own && world.committed.admits own.uid act && world.seen.admits own.uid act then
    { world with
      committed := world.committed.apply act
      seen := world.seen.apply act
      others := world.others ++ [act] }
  else world

/-- What others commit before the next statement. -/
def World.await (own : Guarded) (world : World) : World :=
  (world.schedule.headD []).foldl (World.commit own) { world with schedule := world.schedule.tail }

/-- The transaction of the action begins. -/
def World.begin (world : World) : World := { world with seen := world.committed, others := [] }

/-- The stored draft row, where the action names its document. -/
def storedDraft (own : Guarded) (world : World) : Option (List (String × Json)) × World :=
  match own.documentId with
  | none => (none, world)
  | some documentId =>
      let read := world.await own
      ((read.seen.rowOf own.uid documentId false).map (read.seen.populate own.uid), read)

/-- The keys of the readiness relations that block, one after the other: a
reference by row id is one statement, the count another. -/
def relationBlockers (own : Guarded) (attributes : Attributes) (draft : List (String × Json)) :
    List String → World → List String × World
  | [], world => ([], world)
  | key :: keys, world =>
      match targetOf attributes key with
      | none => relationBlockers own attributes draft keys world
      | some target =>
          match (Json.field? key draft).bind refOf with
          | none =>
              let rest := relationBlockers own attributes draft keys world
              (if own.uid = LESSON_UID then key :: rest.1 else rest.1, rest.2)
          | some ref =>
              let resolved := match ref with
                | .documentId _ => world
                | .id _ => world.await own
              match resolved.seen.targetDocumentId target ref with
              | none =>
                  let rest := relationBlockers own attributes draft keys resolved
                  (key :: rest.1, rest.2)
              | some documentId =>
                  let counted := resolved.await own
                  let rest := relationBlockers own attributes draft keys counted
                  (if counted.seen.hasPublishedRow target documentId then rest.1
                    else key :: rest.1, rest.2)

def scalarBlockers (numberBelow : Json → Rat → Bool) (attributes : Attributes)
    (draft : List (String × Json)) : List String :=
  (attributes.filter fun entry => scalarBlocks numberBelow entry.2 (Json.field? entry.1 draft)).map
    Prod.fst

/-- The keys that block publishing the draft. -/
def publishBlockers (numberBelow : Json → Rat → Bool) (own : Guarded) (attributes : Attributes)
    (draft : List (String × Json)) (world : World) : List String × World :=
  let relations := relationBlockers own attributes draft (READINESS_RELATIONS own.uid) world
  ((scalarBlockers numberBelow attributes draft ++ relations.1).insertionSort (· ≤ ·), relations.2)

/-- The readiness links of the draft the new published row lost. -/
def lostLinks (tables : Tables) (uid documentId : String) : List String :=
  match tables.rowOf uid documentId false, tables.rowOf uid documentId true with
  | some draft, some published =>
      (READINESS_RELATIONS uid).filter fun key =>
        (tables.linkedDocumentId draft key).isSome && (tables.linkedDocumentId published key).isNone
  | _, _ => []

structure NotPublishableError where
  message : String
  keys : List String
  codes : List (String × String)
deriving DecidableEq

def NOT_PUBLISHABLE : String := "notPublishable"

def notPublishable (keys : List String) : NotPublishableError :=
  let sorted := keys.eraseDups.insertionSort (· ≤ ·)
  { message := "This draft cannot be published yet: " ++ ", ".intercalate sorted
    keys := sorted
    codes := sorted.map fun key => (key, NOT_PUBLISHABLE) }

/-- What the core action comes to. -/
inductive CoreAnswer
  /-- It answers a row of this document, or none, and the transaction sees these
  tables. -/
  | done (result : Option String) (after : Tables)
  | threw

abbrev Core : Type := String → Action → List TargetAct → Tables → CoreAnswer

inductive Outcome
  | done (result : Option String)
  | refused (error : NotPublishableError)
  | threw
deriving DecidableEq

/-- `next()`: others commit while the core action runs. -/
def runCore (core : Core) (own : Guarded) (action : Action) (world : World) : Outcome × World :=
  let after := world.await own
  match core own.uid action (after.others.drop world.others.length) world.seen with
  | .done result seen => (.done result, { after with seen := seen })
  | .threw => (.threw, after)

/-- The read after the action; without readiness relations there is none. -/
def lastRead (own : Guarded) (ran : World) : World :=
  if READINESS_RELATIONS own.uid = [] then ran else ran.await own

/-- The check after the action, on the document that was published. -/
def afterCore (own : Guarded) (result : Option String) (ran : World) : Outcome × World :=
  match own.documentId with
  | none => (.done result, ran)
  | some documentId =>
      let last := lastRead own ran
      let lost := lostLinks last.seen own.uid documentId
      if lost ≠ [] then (.refused (notPublishable lost), last) else (.done result, last)

/-- The publish-readiness middleware. -/
def createPublishReadiness (core : Core) (numberBelow : Json → Rat → Bool) (attributes : Attributes)
    (uid : String) (action : Action) (world : World) : Outcome × World :=
  let own : Guarded := ⟨uid, action.documentId?⟩
  if !SCHEDULED_UIDS.contains uid || !action.publishes then runCore core own action world
  else
    let (stored, read) := storedDraft own world
    match judgedDraft stored action with
    | none => runCore core own action read
    | some draft =>
        let (blockers, checked) := publishBlockers numberBelow own attributes draft read
        if blockers ≠ [] then (.refused (notPublishable blockers), checked)
        else
          match runCore core own action checked with
          | (.done result, ran) => afterCore ⟨uid, documentIdOf action result⟩ result ran
          | other => other

/-- The document lock's transaction around the action: it commits what the
transaction sees, or nothing of it. -/
def guardedAction (core : Core) (numberBelow : Json → Rat → Bool) (attributes : Attributes)
    (uid : String) (action : Action) (world : World) : Outcome × World :=
  match createPublishReadiness core numberBelow attributes uid action world.begin with
  | (.done result, after) => (.done result, { after with committed := after.seen })
  | (outcome, after) => (outcome, { after with seen := after.committed })

end Sinnlos.Cms.Readiness

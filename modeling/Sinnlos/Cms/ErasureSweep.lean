import Mathlib.Data.List.Dedup
import Sinnlos.Cms.Notifications
import Sinnlos.Cms.SecretShares
import Sinnlos.Lib.Keyset
import Sinnlos.Lib.Slices
import Sinnlos.Lib.TransactionRounds

/-! # The erasure sweep

What `apps/cms/src/utils/anonymise.ts` deletes and rewrites for one anonymised
person: `deletePersonalRows`, with the deletion of secret shares
(`utils/secret-shares.ts`), and `rewriteActorNotifications`, alone or one after
the other as in the nightly `sweepAnonymised`. A plain read sees committed rows;
every statement or transaction that changes rows is a call of its own.
-/

namespace Sinnlos.Cms.Erasure

open Notify

/-! ## Rows -/

/-- The types whose rows the sweep deletes or rewrites. -/
inductive Uid
  | reaction
  | pollVote
  | eventRsvp
  | kudos
  | notification
  | acknowledgement
  | classified
  | secretShare
deriving DecidableEq

structure RowKey where
  uid : Uid
  id : Nat
deriving DecidableEq

structure Notification where
  type : NotificationType
  title : String
  titleParams : Json
  link : Option String
  recipient : Option Nat
  actor : Option Nat
  sourceType : Option NotificationSourceType
  sourceDocumentId : Option String
deriving DecidableEq

/-- An ad; every row of a document has its id. -/
structure Classified where
  documentId : String
  documentId_ne : documentId ≠ ""
  author : Option Nat

instance : DecidableEq Classified := fun a b =>
  decidable_of_iff (a.documentId = b.documentId ∧ a.author = b.author) <| by
    cases a
    cases b
    simp

/-- A secret share; its parties were row ids when it was created. -/
structure SecretShare where
  documentId : String
  senderId : Nat
  recipientId : Nat
  recipient_isRowId : isRowId recipientId = true
deriving DecidableEq

inductive Record
  | gone
  /-- A row of which only the relation that names the person counts. -/
  | personal (field : String) (person : Option Nat)
  | notification (row : Notification)
  | classified (row : Classified)
  | secretShare (row : SecretShare)
deriving DecidableEq

def Record.present : Record → Bool
  | .gone => false
  | _ => true

/-- Who the relation `field` of a row links. -/
def Record.relation (field : String) : Record → Option Nat
  | .personal field' person => if field = field' then person else none
  | .notification row =>
      if field = "recipient" then row.recipient else if field = "actor" then row.actor else none
  | .classified row => if field = "author" then row.author else none
  | _ => none

/-- `{ [field]: { id } }` -/
def Record.links (field : String) (person : Nat) (row : Record) : Bool :=
  decide (row.relation field = some person)

/-- `sharesOf` -/
def Record.isShareOf (person : Nat) : Record → Bool
  | .secretShare row => decide (row.senderId = person) || decide (row.recipientId = person)
  | _ => false

/-- A row of the actor link table for this person. -/
def Record.names (person : Nat) : Record → Bool
  | .notification row => decide (row.actor = some person)
  | _ => false

/-! ## A notification without the person's name -/

/-- What is written into the row, besides no actor. -/
structure NamelessData where
  titleParams : Option Json
  title : Option String

/-- Every type of a row is one that has titles. -/
def nameless (row : Notification) : NamelessData :=
  match row.titleParams with
  | .obj fields =>
      let rebuilt := buildNotification
        { type := row.type
          titleParams := fields.filter fun field => field.1 ≠ "actor"
          link := row.link.getD ""
          recipient := 0
          actor := none
          source := none }
      ⟨some rebuilt.titleParams.toJson, some rebuilt.title⟩
  | _ => ⟨none, none⟩

def Notification.write (data : NamelessData) (row : Notification) : Notification :=
  { row with
    actor := none
    titleParams := data.titleParams.getD row.titleParams
    title := data.title.getD row.title }

/-- The update of one notification, with the data made of the row that was read. -/
def Record.rewrite (read : Record) : Record → Record
  | .notification row =>
      match read with
      | .notification found => .notification (row.write (nameless found))
      | _ => .notification row
  | other => other

/-! ## The calls -/

/-- The ids of a type's rows that meet a condition. -/
def idsWhere (view : View RowKey Record) (uid : Uid) (condition : Record → Bool) : List Nat :=
  (view.keys.dedup.filter fun k => decide (k.uid = uid) && condition (view.row k)).map RowKey.id

inductive EraseCall
  /-- `deleteMany({ where: { id: { $in: ids } } })` -/
  | deleteMany (uid : Uid) (ids : List Nat)
  /-- `strapi.documents(CLASSIFIED_UID).delete({ documentId })` -/
  | deleteClassified (documentId : String)
  | deleteShareNotifications (shares : List SecretShare)
  | rewriteActorPage (page : List Nat)
deriving DecidableEq

inductive EraseResult
  | deleted
  | rewritten (rows : Nat)
deriving DecidableEq

abbrev EraseTxn : Type → Type := Txn RowKey Record Unit Empty

def Record.ofDocument (documentId : String) : Record → Bool
  | .classified row => decide (row.documentId = documentId)
  | _ => false

def secretShareLink (documentId : String) : String := "/secrets/" ++ documentId

/-- The notification of one of these shares. -/
def Record.announces (shares : List SecretShare) : Record → Bool
  | .notification row =>
      decide (row.type = .secretShared) &&
        (shares.map fun share => some (secretShareLink share.documentId)).contains row.link
  | _ => false

def deleteEach (condition : Record → Bool) (keys : List RowKey) : EraseTxn Unit :=
  Txn.updateEach condition (fun _ _ => .gone) keys

def keysOf (uid : Uid) (ids : List Nat) : List RowKey := ids.map fun id => ⟨uid, id⟩

def deleteMany (uid : Uid) (ids : List Nat) : EraseTxn EraseResult :=
  deleteEach Record.present (keysOf uid ids) >>= fun _ => pure .deleted

def deleteWhere (uid : Uid) (condition : Record → Bool) : EraseTxn EraseResult :=
  Txn.select >>= fun view =>
    deleteEach condition (keysOf uid (idsWhere view uid condition)) >>= fun _ => pure .deleted

/-- The rows of the page are locked, the links read again under the locks, and
only the rows that still name the person are rewritten. -/
def rewriteActorPage (person : Nat) (page : List Nat) : EraseTxn EraseResult :=
  Txn.lockEach Record.present (keysOf .notification page) >>= fun _ =>
    Txn.select >>= fun view =>
      let naming := (idsWhere view .notification (Record.names person)).filter page.contains
      Txn.updateEach Record.present (fun k => (view.row k).rewrite) (keysOf .notification naming)
        >>= fun _ => pure (.rewritten naming.length)

def eraseProgram (person : Nat) : EraseCall → EraseTxn EraseResult
  | .deleteMany uid ids => deleteMany uid ids
  | .deleteClassified documentId => deleteWhere .classified (Record.ofDocument documentId)
  | .deleteShareNotifications shares => deleteWhere .notification (Record.announces shares)
  | .rewriteActorPage page => rewriteActorPage person page

/-! ## The rounds -/

def idPage : Nat := 500

/-- A class of rows that a relation links to the person. -/
structure RelationClass where
  uid : Uid
  field : String
deriving DecidableEq

/-- `DELETED_BY_RELATION` -/
def deletedByRelation : List RelationClass :=
  [⟨.reaction, "author"⟩, ⟨.pollVote, "voter"⟩, ⟨.eventRsvp, "user"⟩, ⟨.kudos, "to"⟩,
    ⟨.notification, "recipient"⟩, ⟨.acknowledgement, "user"⟩]

inductive SweepStage
  /-- `idsLinking`: the ids of one class so far, and the classes after it. -/
  | collect (target : RelationClass) (rest : List RelationClass) (ids : List Nat) (afterId : Nat)
  | classifieds
  | shares
  | rewriting (afterId : Nat)
  | done
deriving DecidableEq

/-- Which of the loops a worker runs. -/
inductive SweepJob
  | deletePersonalRows
  | rewriteActorNotifications
  | sweepAnonymised
deriving DecidableEq

def SweepJob.deletes : SweepJob → Bool
  | .rewriteActorNotifications => false
  | _ => true

def SweepJob.rewrites : SweepJob → Bool
  | .deletePersonalRows => false
  | _ => true

/-- The classes one after the other, then the ads. -/
def startCollect : List RelationClass → SweepStage
  | [] => .classifieds
  | target :: rest => .collect target rest [] 0

def SweepJob.start (job : SweepJob) : SweepStage :=
  if job.deletes then startCollect deletedByRelation else .rewriting 0

def SweepJob.afterDeletes (job : SweepJob) : SweepStage :=
  if job.rewrites then .rewriting 0 else .done

/-- The next page of `idsLinking`. -/
def linkingPage (view : View RowKey Record) (uid : Uid) (condition : Record → Bool)
    (afterId : Nat) : List Nat :=
  Keyset.page idPage (idsWhere view uid condition) afterId

def readClassified (view : View RowKey Record) (id : Nat) : Option String :=
  match view.row ⟨.classified, id⟩ with
  | .classified row => if row.documentId = "" then none else some row.documentId
  | _ => none

def readShare (view : View RowKey Record) (id : Nat) : Option (Nat × SecretShare) :=
  match view.row ⟨.secretShare, id⟩ with
  | .secretShare row => if isRowId row.recipientId then some (id, row) else none
  | _ => none

def readCollect (person : Nat) (view : View RowKey Record) (target : RelationClass)
    (rest : List RelationClass) (ids : List Nat) (afterId : Nat) : List EraseCall × SweepStage :=
  let page := linkingPage view target.uid (Record.links target.field person) afterId
  match page.getLast? with
  | some last => ([], .collect target rest (ids ++ page) last)
  | none => ((chunks ids idPage).map (.deleteMany target.uid), startCollect rest)

def readClassifieds (person : Nat) (view : View RowKey Record) : List EraseCall × SweepStage :=
  let ads := (idsWhere view .classified (Record.links "author" person)).insertionSort (· ≤ ·)
  ((ads.filterMap (readClassified view)).map .deleteClassified, .shares)

def readShares (job : SweepJob) (person : Nat) (view : View RowKey Record) :
    List EraseCall × SweepStage :=
  let page := (Keyset.firstPage deletePage
    (idsWhere view .secretShare (Record.isShareOf person))).filterMap (readShare view)
  if page.isEmpty then ([], job.afterDeletes)
  else
    ([.deleteShareNotifications (page.map Prod.snd), .deleteMany .secretShare (page.map Prod.fst)],
      .shares)

def readRewriting (person : Nat) (view : View RowKey Record) (afterId : Nat) :
    List EraseCall × SweepStage :=
  let page := linkingPage view .notification (Record.names person) afterId
  match page.getLast? with
  | some last => ([.rewriteActorPage page], .rewriting last)
  | none => ([], .done)

def sweepRead (job : SweepJob) (person : Nat) (stage : SweepStage) (view : View RowKey Record) :
    List EraseCall × SweepStage :=
  match stage with
  | .collect target rest ids afterId => readCollect person view target rest ids afterId
  | .classifieds => readClassifieds person view
  | .shares => readShares job person view
  | .rewriting afterId => readRewriting person view afterId
  | .done => ([], .done)

def sweepRounds (person : Nat) (job : SweepJob) : Rounds SweepStage RowKey Record EraseCall where
  finished := fun stage => decide (stage = .done)
  read := sweepRead job person

/-- The workers of one person's erasure and the rows they share. -/
abbrev ErasureCrew (ω : Type) : Type :=
  Crew ω SweepStage RowKey Record Unit Empty EraseResult EraseCall

abbrev ErasureStep {ω : Type} [DecidableEq ω] (person : Nat) (job : ω → SweepJob) :
    ErasureCrew ω → CrewLabel ω RowKey Unit EraseCall → ErasureCrew ω → Prop :=
  Crew.Step (fun w => sweepRounds person (job w)) (eraseProgram person)

end Sinnlos.Cms.Erasure

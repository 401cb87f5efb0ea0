import Sinnlos.Cms.DigestPlan
import Sinnlos.Cms.Recipients
import Sinnlos.Lib.Json
import Sinnlos.Lib.Keyset
import Sinnlos.Lib.OrderedMap

/-!
# The digest mailer

One run reads the recipients, the announcements of the widest window and the
notifications that anchor them once for everybody, cuts each recipient's part
out of these, and moves the recipient's mark when the mail is out.
-/

namespace Sinnlos.Cms.Digest

open Calendar (Date)
open Domain (Zone AnnouncementTargeting)

/-! ## The tables -/

structure Author where
  id : Nat
  displayName : Option String
deriving DecidableEq

/-- One announcement row; a draft has no `publishedAt`. -/
structure DigestAnnouncement where
  id : Nat
  documentId : Option String
  title : Option String
  targeting : AnnouncementTargeting
  publishedAt : Option Int
  expiresAt : Option Int
  author : Option Author
deriving DecidableEq

structure NotificationRow where
  id : Nat
  type : String
  title : Option String
  titleParams : Json
  sourceType : Option String
  sourceDocumentId : Option String
  recipient : Option Nat
  createdAt : Option Int

structure KudosRow where
  «to» : Option Nat
  fromName : Option String
  message : Option String
  value : Option String
  createdAt : Option Int

/-- How far the mail of one user gets. -/
inductive Delivery
  | readsFail
  | sendFails
  | unmarked
  | sent
deriving DecidableEq

/-- What one run finds: its instant, the tables its statements read, and the
statements and mails that fail (`none` for a failed run-wide read). -/
structure DigestWorld where
  now : Int
  enabled : Bool
  users : List DigestUser
  scopes : Option (List RecipientScope)
  announcementReaders : List Nat
  kudosReaders : List Nat
  announcements : Option (List DigestAnnouncement)
  announcementsAgain : List DigestAnnouncement
  notifications : List NotificationRow
  trainingOff : Bool
  trainingFails : Bool
  kudosOff : Bool
  kudos : List KudosRow
  delivery : Nat → Delivery
  users_ids : (users.map (·.id)).Nodup
  again_ids : (announcementsAgain.map (·.id)).Nodup
  notification_ids : (notifications.map (·.id)).Nodup
  notification_pos : ∀ row ∈ notifications, 0 < row.id
  documentId_ne : ∀ row ∈ announcements.getD [], row.documentId ≠ some ""

/-! ## Recipients -/

def DIGEST_EXCLUDED_ROLE_TYPES : List String := ["guest"]

def isDigestRecipient (scope : RecipientScope) (announcementReaders : List Nat) : Bool :=
  if scope.roleType.any DIGEST_EXCLUDED_ROLE_TYPES.contains then false
  else holdsGrant scope.toUserScope announcementReaders

/-- One due recipient and the start of the window. -/
structure Due where
  user : DigestUser
  scope : RecipientScope
  since : Int
deriving DecidableEq

/-! ## Announcements -/

def DIGEST_ANNOUNCEMENT_CAP : Nat := 25

def NOTIFIED_PAGE : Nat := 1000

/-- Keep the earlier of the stored instant and `createdMs`. -/
def noteEarliest (instants : OrderedMap String Int) (documentId : String) (createdMs : Int) :
    OrderedMap String Int :=
  match instants.get? documentId with
  | none => instants.set documentId createdMs
  | some earliest =>
      if createdMs < earliest then instants.set documentId createdMs else instants

/-- The earliest notification of each document, by user and of any recipient. -/
structure NotifiedIndex where
  byUser : OrderedMap Nat (OrderedMap String Int)
  first : OrderedMap String Int

def NotifiedIndex.none : NotifiedIndex := ⟨.empty, .empty⟩

def NotifiedIndex.note (index : NotifiedIndex) (row : NotificationRow) : NotifiedIndex :=
  match row.sourceDocumentId, row.createdAt with
  | some documentId, some createdMs =>
      if documentId = "" then index
      else
        let first := noteEarliest index.first documentId createdMs
        match row.recipient with
        | .none => { index with first }
        | some userId =>
            let perUser := (index.byUser.get? userId).getD .empty
            { byUser := index.byUser.set userId (noteEarliest perUser documentId createdMs), first }
  | _, _ => index

def notifiedIndex (rows : List NotificationRow) : NotifiedIndex :=
  rows.foldl NotifiedIndex.note .none

/-- The notifications that anchor `documentIds` from before `before`. -/
def anchors (documentIds : List String) (before : Int) (row : NotificationRow) : Bool :=
  row.sourceType = some "announcement" && row.sourceDocumentId.any documentIds.contains &&
    row.createdAt.any fun createdMs => createdMs < before

def loadNotified (notifications : List NotificationRow) (documentIds : List String) (before : Int) :
    List NotificationRow :=
  let rows := (notifications.filter (anchors documentIds before)).insertionSort fun a b => a.id ≤ b.id
  Keyset.readPages NotificationRow.id NOTIFIED_PAGE rows (rows.length + 1) 0

/-- Newest first. -/
def newestFirst {ρ : Type} (instant : ρ → Option Int) (rows : List ρ) : List ρ :=
  rows.insertionSort fun a b => (instant b).getD 0 ≤ (instant a).getD 0

def inSpan (from_ until_ : Int) (instant : Option Int) : Bool :=
  instant.any fun ms => from_ ≤ ms && ms < until_

def notExpired (now : Int) (row : DigestAnnouncement) : Bool :=
  match row.expiresAt with
  | none => true
  | some expiresMs => now < expiresMs

/-- The rows of one statement over the window. -/
def inWindow (widest now : Int) (row : DigestAnnouncement) : Bool :=
  inSpan widest now row.publishedAt && notExpired now row

/-- The rows with their flags read again over the same window. -/
def withFreshAnnouncementFlags (rows again : List DigestAnnouncement) : List DigestAnnouncement :=
  rows.map fun row =>
    let fresh := again.find? fun now => now.id = row.id
    { row with targeting := raiseFlags row.targeting (fresh.map (·.targeting)) }

def loadAnnouncementWindow (world : DigestWorld) (announcements : List DigestAnnouncement)
    (due : List Due) : List DigestAnnouncement × NotifiedIndex :=
  match (due.filter fun entry => entry.user.digestAnnouncements = some true).map (·.since) with
  | [] => ([], .none)
  | start :: starts =>
      let widest := starts.foldl min start
      let latest := starts.foldl max start
      let loaded := newestFirst (·.publishedAt) (announcements.filter (inWindow widest world.now))
      let rows := withFreshAnnouncementFlags loaded
        (world.announcementsAgain.filter (inWindow widest world.now))
      let documentIds := rows.filterMap (·.documentId) |>.filter (· ≠ "")
      if documentIds.isEmpty then (rows, .none)
      else (rows, notifiedIndex (loadNotified world.notifications documentIds latest))

/-- The user was told of the document before the window. -/
def toldBefore (since : Int) (instants : OrderedMap String Int) (documentId : String) : Bool :=
  (instants.get? documentId).any fun ms => ms < since

/-- The rows that the section lists or counts. -/
def selectRows (since : Int) (scope : RecipientScope) (notifiedAt firstNotifiedAt : OrderedMap String Int) :
    List String → List DigestAnnouncement → List DigestAnnouncement
  | _, [] => []
  | seen, row :: rows =>
      if row.publishedAt.all fun publishedMs => publishedMs < since then
        selectRows since scope notifiedAt firstNotifiedAt seen rows
      else if !isAnnouncementVisible row.targeting scope.toUserScope then
        selectRows since scope notifiedAt firstNotifiedAt seen rows
      else
        match row.documentId with
        | none => row :: selectRows since scope notifiedAt firstNotifiedAt seen rows
        | some documentId =>
            if seen.contains documentId then
              selectRows since scope notifiedAt firstNotifiedAt seen rows
            else if toldBefore since notifiedAt documentId then
              selectRows since scope notifiedAt firstNotifiedAt (documentId :: seen) rows
            else if (row.author.any fun author => author.id = scope.userId) &&
                toldBefore since firstNotifiedAt documentId then
              selectRows since scope notifiedAt firstNotifiedAt (documentId :: seen) rows
            else row :: selectRows since scope notifiedAt firstNotifiedAt (documentId :: seen) rows

/-! ## Content -/

structure AnnouncementItem where
  title : String
  author : Option String
deriving DecidableEq

structure NoticeItem where
  title : String
  type : String
  titleParams : Json

structure KudosItem where
  message : String
  fromName : Option String
  value : Option String

structure DigestContent where
  announcements : List AnnouncementItem
  announcementsMore : Nat
  mentions : List NoticeItem
  kudos : List KudosItem
  training : List NoticeItem

def totalItems (content : DigestContent) : Nat :=
  content.announcements.length + content.announcementsMore + content.mentions.length +
    content.kudos.length + content.training.length

def announcementItem (row : DigestAnnouncement) : AnnouncementItem where
  title := row.title.getD ""
  author := row.author.bind (·.displayName)

def noticeItem (row : NotificationRow) : NoticeItem where
  title := row.title.getD ""
  type := row.type
  titleParams := row.titleParams

def kudosItem (row : KudosRow) : KudosItem where
  message := row.message.getD ""
  fromName := row.fromName
  value := row.value

def TRAINING_REMINDER_TYPES : List String := ["trainingDue", "trainingExpired"]

/-- The reminders of the due users in the widest window, newest first. -/
def loadTrainingReminders (world : DigestWorld) (due : List Due) : List NotificationRow :=
  match due.map (·.since) with
  | [] => []
  | start :: starts =>
      newestFirst (·.createdAt) (world.notifications.filter fun row =>
        row.recipient.any (due.map (·.user.id)).contains && TRAINING_REMINDER_TYPES.contains row.type &&
          inSpan (starts.foldl min start) world.now row.createdAt)

def selectTrainingReminders (rows : List NotificationRow) (userId : Nat) (since : Int) :
    List NoticeItem :=
  ((rows.filter fun row =>
    row.recipient = some userId && row.createdAt.any fun ms => since ≤ ms).take 25).map noticeItem

def collectMentions (world : DigestWorld) (entry : Due) : List NoticeItem :=
  if entry.user.digestMentions = some true then
    ((newestFirst (·.createdAt) (world.notifications.filter fun row =>
      row.recipient = some entry.user.id && row.type = "comment" &&
        inSpan entry.since world.now row.createdAt)).take 25).map noticeItem
  else []

def collectKudos (world : DigestWorld) (entry : Due) : List KudosItem :=
  if entry.user.digestKudos = some true && !world.kudosOff &&
      holdsGrant entry.scope.toUserScope world.kudosReaders then
    ((newestFirst (·.createdAt) (world.kudos.filter fun row =>
      row.«to» = some entry.user.id && inSpan entry.since world.now row.createdAt)).take 25).map kudosItem
  else []

/-- The announcements of one recipient. -/
def selected (window : List DigestAnnouncement × NotifiedIndex) (entry : Due) :
    List DigestAnnouncement :=
  if entry.user.digestAnnouncements = some true then
    selectRows entry.since entry.scope ((window.2.byUser.get? entry.user.id).getD .empty)
      window.2.first [] window.1
  else []

def contentOf (world : DigestWorld) (rows : List DigestAnnouncement) (training : List NotificationRow)
    (entry : Due) : DigestContent where
  announcements := (rows.take DIGEST_ANNOUNCEMENT_CAP).map announcementItem
  announcementsMore := rows.length - DIGEST_ANNOUNCEMENT_CAP
  mentions := collectMentions world entry
  kudos := collectKudos world entry
  training := selectTrainingReminders training entry.user.id entry.since

/-! ## Runs -/

/-- A digest that was sent and marked: the announcements in it, the first of
them as items and the others in the count of the rest. -/
structure SentDigest where
  world : DigestWorld
  entry : Due
  rows : List DigestAnnouncement
  content : DigestContent
  items_eq : content.announcements = (rows.take DIGEST_ANNOUNCEMENT_CAP).map announcementItem
  more_eq : content.announcementsMore = rows.length - DIGEST_ANNOUNCEMENT_CAP

namespace SentDigest

def sentAt (digest : SentDigest) : Int := digest.world.now

def userId (digest : SentDigest) : Nat := digest.entry.user.id

end SentDigest

/-- The marks on the user rows, the digests sent so far, and the instant of the
last run. -/
structure DigestState where
  lastDigestAt : Nat → Option Int
  digests : List SentDigest
  clock : Int

/-- Send and mark one digest. -/
def DigestState.record (s : DigestState) (digest : SentDigest) : DigestState where
  lastDigestAt := fun id => if id = digest.userId then some digest.sentAt else s.lastDigestAt id
  digests := s.digests ++ [digest]
  clock := s.clock

/-- The user rows that want any digest, with their marks. -/
def candidates (world : DigestWorld) (s : DigestState) : List DigestUser :=
  (world.users.filter fun user => user.blocked ≠ some true &&
    (user.digestAnnouncements = some true || user.digestMentions = some true ||
      user.digestKudos = some true)).map fun user =>
        { user with lastDigestAt := s.lastDigestAt user.id }

/-- The digest of one recipient, and nothing where it is empty or fails. -/
def digestFor (world : DigestWorld) (window : Option (List DigestAnnouncement × NotifiedIndex))
    (training : Option (List NotificationRow)) (entry : Due) : Option SentDigest :=
  match training with
  | none => none
  | some training =>
      if entry.user.digestAnnouncements = some true ∧ window.isNone then none
      else
        let rows := selected (window.getD ([], .none)) entry
        let content := contentOf world rows training entry
        match world.delivery entry.user.id with
        | .readsFail => none
        | .sendFails => none
        | .unmarked => none
        | .sent =>
            if totalItems content = 0 then none
            else some { world, entry, rows, content, items_eq := rfl, more_eq := rfl }

section

variable (zone : Zone) (startOfDay : Date → Int)

def dueUsers (world : DigestWorld) (s : DigestState) : List DigestUser :=
  (candidates world s).filter fun user =>
    wantsAnyDigest user && isDigestDue zone startOfDay user world.now

/-- The due users that are recipients, each with the window's start. -/
def dueEntries (world : DigestWorld) (scopes : List RecipientScope) (s : DigestState) : List Due :=
  (dueUsers zone startOfDay world s).filterMap fun user =>
    -- a map of pairs keeps the last pair of a key
    match scopes.reverse.find? fun scope => scope.userId = user.id with
    | none => none
    | some scope =>
        if isDigestRecipient scope world.announcementReaders then
          some { user, scope, since := digestWindowStart user world.now }
        else none

/-- The digests of one run, in the order they go out. -/
def sentDigests (world : DigestWorld) (s : DigestState) : List SentDigest :=
  if !world.enabled then []
  else
    match world.scopes with
    | none => []
    | some scopes =>
        let due := dueEntries zone startOfDay world scopes s
        let window := world.announcements.map fun rows => loadAnnouncementWindow world rows due
        let training :=
          if world.trainingOff then some []
          else if world.trainingFails then none
          else some (loadTrainingReminders world due)
        due.filterMap (digestFor world window training)

def sendDigests (world : DigestWorld) (s : DigestState) : DigestState :=
  { (sentDigests zone startOfDay world s).foldl DigestState.record s with clock := world.now }

/-- Runs happen at increasing instants. -/
def Step (s : DigestState) (world : DigestWorld) (s' : DigestState) : Prop :=
  s.clock < world.now ∧ s' = sendDigests zone startOfDay world s

end

end Sinnlos.Cms.Digest

import Mathlib.Data.List.Dedup
import Mathlib.Data.List.Sort
import Sinnlos.Lib.Transaction

/-! # Secret shares

The transactions of `apps/cms/src/utils/secret-shares.ts` and of its janitor
(`cron/secret-share-janitor.ts`): create, reveal, revoke, the janitor's ends and
deletions, and the deletion of a person's shares. The rows are the shares and
the users; the notifications of a share, the create limiter and the log lines
are left out. The envelope's cipher is a parameter.
-/

namespace Sinnlos.Cms

/-! ## Rows -/

inductive SecretShareState
  | pending
  | retrieved
  | revoked
  | expired
  | cancelled
deriving DecidableEq

structure SecretShare where
  documentId : String
  senderId : Nat
  recipientId : Nat
  /-- Epoch milliseconds, as every instant here. -/
  expiresAt : Nat
  state : SecretShareState
  terminalAt : Option Nat
  envelope : Option String
  createdAt : Nat
  updatedAt : Nat
deriving DecidableEq

/-- A user row, with the type of its role. -/
structure Person where
  blocked : Bool
  role : Option String
  tokenVersion : Nat
  totpEnabledAt : Option Nat
deriving DecidableEq

inductive RowKey
  | directory
  | user (id : Nat)
  | share (id : Nat)
deriving DecidableEq

/-- What is stored under a key. Ids come from a sequence: a deleted row's id is
never used again. -/
inductive Record
  | unused
  | deleted
  | person (row : Person)
  | share (row : SecretShare)
deriving DecidableEq

def Record.person? : Record → Option Person
  | .person row => some row
  | _ => none

def Record.share? : Record → Option SecretShare
  | .share row => some row
  | _ => none

/-- A user id that is free or in use. -/
def Record.writable : Record → Bool
  | .unused => true
  | .person _ => true
  | _ => false

def Record.isShare (record : Record) : Bool := record.share?.isSome

/-- A share row that meets a condition. -/
def Record.shareWhere (p : SecretShare → Bool) (record : Record) : Bool := record.share?.any p

/-- Change a share row; nothing else changes. -/
def Record.mapShare (f : SecretShare → SecretShare) : Record → Record
  | .share row => .share (f row)
  | other => other

def RowKey.isShare : RowKey → Bool
  | .share _ => true
  | _ => false

/-! ## Refusals -/

/-- The HTTP status and the code of a refusal. -/
structure Refusal where
  status : Nat
  code : Option String
deriving DecidableEq

inductive SecretShareRefusal
  | recipient
  | text
  | lifetime
  | quota
  | gone
  | partyIneligible
  | noKey
  | cancelled
  | busy
deriving DecidableEq

def refuseShare : SecretShareRefusal → Refusal
  | .recipient => ⟨400, some "recipient"⟩
  | .text => ⟨400, some "text"⟩
  | .lifetime => ⟨400, some "lifetime"⟩
  | .quota => ⟨429, some "quota"⟩
  | .gone => ⟨410, some "gone"⟩
  | .partyIneligible => ⟨409, some "unavailable"⟩
  | .noKey => ⟨503, some "unavailable"⟩
  | .cancelled => ⟨410, some "unavailable"⟩
  | .busy => ⟨503, some "busy"⟩

def notFound : Refusal := ⟨404, none⟩
def forbidden : Refusal := ⟨403, none⟩
def sessionOutdated : Refusal := ⟨401, some "session_outdated"⟩
def mfaSetupRequired : Refusal := ⟨403, some "mfa_setup_required"⟩

/-! ## Ids and limits -/

def maxRowId : Nat := 2147483647

def isRowId (id : Nat) : Bool := 1 ≤ id && id ≤ maxRowId

/-- `/^[a-z][a-z0-9]{23}$/` -/
def isDocumentId (value : String) : Bool :=
  match value.toList with
  | [] => false
  | first :: rest =>
      first.isLower && rest.length == 23 && rest.all fun c => c.isLower || c.isDigit

def secretPendingPerSender : Nat := 20
def secretPendingPerRecipient : Nat := 20
def secretCreatesPerDay : Nat := 100
def dayMs : Nat := 24 * 60 * 60 * 1000
def secretShareRetentionMs : Nat := 7 * dayMs

inductive SecretShareLifetime
  | oneHour
  | oneDay
deriving DecidableEq

def SecretShareLifetime.ms : SecretShareLifetime → Nat
  | .oneHour => 60 * 60 * 1000
  | .oneDay => dayMs

def secretShareExpiresAt (now : Nat) (lifetime : SecretShareLifetime) : Nat := now + lifetime.ms

/-! ## What the module is configured with -/

/-- What the envelope is bound to. -/
structure SecretShareBinding where
  documentId : String
  senderId : Nat
  recipientId : Nat
  expiresAt : Nat
deriving DecidableEq

def SecretShare.binding (share : SecretShare) : SecretShareBinding where
  documentId := share.documentId
  senderId := share.senderId
  recipientId := share.recipientId
  expiresAt := share.expiresAt

structure SecretModule where
  /-- None while the module has no usable key. -/
  shareKey : Option String
  sealEnvelope : (nonce key text : String) → SecretShareBinding → String
  openEnvelope : (key envelope : String) → SecretShareBinding → Option String
  sendRoles : List String
  receiveRoles : List String
  mfaRequiredRoles : List String

/-- What a transaction sees beside the database. -/
structure ShareEnv where
  now : Nat
  /-- The documentId the query engine generates next. -/
  documentId : String
  nonce : String
deriving DecidableEq

/-! ## People -/

inductive AuthMethod
  | pw
  | idp
deriving DecidableEq

/-- What the request's verified token said. -/
structure RequestAssurance where
  am : Option AuthMethod
  mfa : Bool
  tv : Nat
deriving DecidableEq

structure SecretCaller where
  userId : Nat
  assurance : Option RequestAssurance
deriving DecidableEq

def staffRoles : List String := ["admin_role", "editor", "department_head", "team_lead", "member"]

def hasRole (user : Person) (roles : List String) : Bool := user.role.any roles.contains

def isEligible : Option Person → Bool
  | none => false
  | some row => !row.blocked && hasRole row staffRoles

def SecretModule.canSend (m : SecretModule) (row : Option Person) : Bool :=
  isEligible row && row.any (hasRole · m.sendRoles)

def SecretModule.canReceive (m : SecretModule) (row : Option Person) : Bool :=
  isEligible row && row.any (hasRole · m.receiveRoles)

inductive MfaDecision
  | pass
  | reauth
  | restricted
deriving DecidableEq

def isEnrolled (user : Person) : Bool := user.totpEnabledAt.isSome

def requiredMfa (user : Person) (roles : List String) : Bool :=
  hasRole user roles || isEnrolled user

def mfaDecision (assurance : RequestAssurance) (user : Person) (roles : List String) :
    MfaDecision :=
  if assurance.am = some .idp then .pass
  else if !requiredMfa user roles then .pass
  else if assurance.am = some .pw then
    if assurance.mfa then .pass else if isEnrolled user then .reauth else .restricted
  else .reauth

/-! ## Reading and locking -/

abbrev ShareTxn : Type → Type := Txn RowKey Record ShareEnv Refusal

abbrev ShareView : Type := View RowKey Record

def loadPerson (id : Nat) : ShareTxn (Option Person) := do
  let view ← Txn.select
  return (view.row (.user id)).person?

/-- The fresh caller check under the locks. -/
def SecretModule.assertFreshCaller (m : SecretModule) (caller : SecretCaller) :
    ShareTxn Person := do
  match ← loadPerson caller.userId, caller.assurance with
  | some row, some assurance =>
      if row.blocked || row.tokenVersion != assurance.tv then .refuse sessionOutdated
      else
        match mfaDecision assurance row m.mfaRequiredRoles with
        | .reauth => .refuse sessionOutdated
        | .restricted => .refuse mfaSetupRequired
        | .pass => if isEligible (some row) then return row else .refuse forbidden
  | _, _ => .refuse sessionOutdated

def lockUserRows : List Nat → ShareTxn Unit
  | [] => return
  | id :: ids => do
      let _ ← Txn.forUpdate (.user id) fun record => record.person?.isSome
      lockUserRows ids

/-- The directory, then the user rows in ascending id. -/
def lockPeople (ids : List Nat) : ShareTxn Unit := do
  let _ ← Txn.forUpdate .directory fun _ => true
  lockUserRows (ids.dedup.insertionSort (· ≤ ·))

def lockShareRow (id : Nat) : ShareTxn Bool := Txn.forUpdate (.share id) Record.isShare

/-- A row whose ids have the shape of ids. -/
def toShare (row : SecretShare) : Option SecretShare :=
  if isDocumentId row.documentId && isRowId row.senderId && isRowId row.recipientId then some row
  else none

def shareAt : RowKey → Record → Option (Nat × SecretShare)
  | .share id, .share row => some (id, row)
  | _, _ => none

/-- The share of a documentId, with its row id. -/
def findShare (documentId : String) : ShareTxn (Option (Nat × SecretShare)) := do
  let view ← Txn.select
  let found := view.find? fun key record =>
    (shareAt key record).filter fun row => row.2.documentId = documentId
  return found.bind fun row => (toShare row.2).map fun share => (row.1, share)

/-! ## The terminal write -/

def SecretShare.ended (target : SecretShareState) (now : Nat) (share : SecretShare) : SecretShare :=
  { share with state := target, envelope := none, terminalAt := some now, updatedAt := now }

/-- The rows `endShare` updates. -/
def endable (target : SecretShareState) (share : SecretShare) : Bool :=
  decide (share.state = .pending) && (decide (target ≠ .retrieved) || share.envelope.isSome)

/-- A changed count other than one is a plain error, answered as busy. -/
def endShare (id : Nat) (target : SecretShareState) (now : Nat) : ShareTxn Unit := do
  let changed ← Txn.updateWhere (.share id) (Record.shareWhere (endable target))
    (Record.mapShare (SecretShare.ended target now))
  if changed then return else .refuse (refuseShare .busy)

/-! ## The actions -/

/-- What a call answers once its transaction is confirmed. A reveal answers
`cancelled` with the refusal of that name. -/
inductive ShareResult
  | created (documentId : String) (expiresAt : Nat)
  | text (plain : String)
  | cancelled
  | revoked (documentId : String)
  /-- Whether the janitor ended the share it looked at. -/
  | janitor (ended : Bool)
  | deletedShares (count : Nat)
  | written
deriving DecidableEq

structure CreateInput where
  recipient : Nat
  text : String
  lifetime : SecretShareLifetime
deriving DecidableEq

def ShareView.shares (view : ShareView) : List SecretShare :=
  view.keys.filterMap fun key => (view.row key).share?

def ShareView.count (view : ShareView) (p : SecretShare → Bool) : Nat := view.shares.countP p

def openAt (now : Nat) (share : SecretShare) : Bool :=
  decide (share.state = .pending) && decide (now < share.expiresAt)

/-- Refuse when the shares that meet the condition have reached the limit. -/
def quota (limit : Nat) (p : SecretShare → Bool) : ShareTxn Unit := do
  let view ← Txn.select
  if limit ≤ ShareView.count view p then .refuse (refuseShare .quota) else return

/-- The metadata row, before its envelope is filled: it expires counted from
`now`, and the query engine stamps it when it creates it. -/
def newShare (now : Nat) (env : ShareEnv) (senderId : Nat) (input : CreateInput) :
    SecretShare where
  documentId := env.documentId
  senderId := senderId
  recipientId := input.recipient
  expiresAt := secretShareExpiresAt now input.lifetime
  state := .pending
  terminalAt := none
  envelope := none
  createdAt := env.now
  updatedAt := env.now

def SecretModule.createShare (m : SecretModule) (caller : SecretCaller) (input : CreateInput) :
    ShareTxn ShareResult :=
  match m.shareKey with
  | none => .refuse (refuseShare .noKey)
  | some key => do
      lockPeople [caller.userId, input.recipient]
      let sender ← m.assertFreshCaller caller
      if !m.canSend (some sender) then .refuse forbidden
      else
        let recipient ← loadPerson input.recipient
        if !m.canReceive recipient then .refuse (refuseShare .recipient)
        else
          let asked ← Txn.ask
          quota secretPendingPerSender fun share =>
            openAt asked.now share && share.senderId == caller.userId
          quota secretPendingPerRecipient fun share =>
            openAt asked.now share && share.recipientId == input.recipient
          quota secretCreatesPerDay fun share =>
            share.senderId == caller.userId && decide (asked.now < share.createdAt + dayMs)
          let env ← Txn.ask
          let row : SecretShare := newShare asked.now env caller.userId input
          let created ← Txn.insert RowKey.isShare (.share row)
          if (toShare row).isNone then .refuse (refuseShare .busy)
          else
            let envelope := m.sealEnvelope env.nonce key input.text row.binding
            let filled ← Txn.updateWhere created
              (Record.shareWhere fun share =>
                decide (share.state = .pending) && share.envelope.isNone)
              (Record.mapShare fun share => { share with envelope := some envelope })
            if filled then return .created row.documentId row.expiresAt
            else .refuse (refuseShare .busy)

def SecretModule.revealShare (m : SecretModule) (caller : SecretCaller) (documentId : String) :
    ShareTxn ShareResult :=
  if !isDocumentId documentId then .refuse notFound
  else
    match m.shareKey with
    | none => .refuse (refuseShare .noKey)
    | some key => do
        match ← findShare documentId with
        | none => .refuse notFound
        | some (seenId, seen) =>
            if seen.recipientId ≠ caller.userId then .refuse notFound
            else
              lockPeople [seen.senderId, seen.recipientId]
              let person ← m.assertFreshCaller caller
              if !m.canReceive (some person) then .refuse forbidden
              else
                let _ ← lockShareRow seenId
                match ← findShare documentId with
                | none => .refuse notFound
                | some (id, share) =>
                    if share.recipientId ≠ caller.userId then .refuse notFound
                    else
                      let sender ← loadPerson share.senderId
                      if sender.isNone || decide (share.state ≠ .pending) then
                        .refuse (refuseShare .gone)
                      else
                        let env ← Txn.ask
                        match share.envelope with
                        | none => .refuse (refuseShare .gone)
                        | some envelope =>
                            if share.expiresAt ≤ env.now then .refuse (refuseShare .gone)
                            else if !isEligible sender then
                              .refuse (refuseShare .partyIneligible)
                            else
                              match m.openEnvelope key envelope share.binding with
                              | none =>
                                  endShare id .cancelled env.now
                                  return .cancelled
                              | some plain =>
                                  endShare id .retrieved env.now
                                  return .text plain

def SecretModule.revokeShare (m : SecretModule) (caller : SecretCaller) (documentId : String) :
    ShareTxn ShareResult :=
  if !isDocumentId documentId then .refuse notFound
  else do
    match ← findShare documentId with
    | none => .refuse notFound
    | some (seenId, seen) =>
        if seen.senderId ≠ caller.userId then .refuse notFound
        else
          lockPeople [seen.senderId, seen.recipientId]
          let _ ← m.assertFreshCaller caller
          let _ ← lockShareRow seenId
          match ← findShare documentId with
          | none => .refuse notFound
          | some (id, share) =>
              if share.senderId ≠ caller.userId then .refuse notFound
              else if share.state ≠ .pending then .refuse (refuseShare .gone)
              else
                let env ← Txn.ask
                endShare id .revoked env.now
                return .revoked share.documentId

/-! ## The janitor and the deletions -/

def janitorBatch : Nat := 200

/-- The first row ids, ascending, of the shares that meet a condition. -/
def ShareView.ids (view : ShareView) (p : SecretShare → Bool) : List Nat :=
  let matching := view.keys.filterMap fun key =>
    ((shareAt key (view.row key)).filter fun row => p row.2).map Prod.fst
  (matching.insertionSort (· ≤ ·)).take janitorBatch

/-- One of the parties exists and is not eligible. -/
def ineligibleParty (view : ShareView) (share : SecretShare) : Bool :=
  [share.senderId, share.recipientId].any fun id =>
    match (view.row (.user id)).person? with
    | none => false
    | some person => !isEligible (some person)

def orphaned (view : ShareView) (share : SecretShare) : Bool :=
  [share.senderId, share.recipientId].any fun id => (view.row (.user id)).person?.isNone

/-- One share of the janitor's pass: chosen from an earlier read (`pick`), then
locked, read again and ended if it is still due. -/
def endEach (pick : ShareView → Nat → Option Nat) (target : SecretShareState)
    (due : ShareView → SecretShare → Nat → Bool) : ShareTxn ShareResult := do
  let first ← Txn.ask
  let view ← Txn.select
  match pick view first.now with
  | none => return .janitor false
  | some id =>
      let _ ← lockShareRow id
      let view ← Txn.select
      let env ← Txn.ask
      let people ← Txn.select
      match (view.row (.share id)).share? with
      | none => return .janitor false
      | some share =>
          if decide (share.state = .pending) && due people share env.now then
            endShare id target env.now
            return .janitor true
          else return .janitor false

/-- The `n`-th expired share of a pass. -/
def janitorExpired (n : Nat) : ShareTxn ShareResult :=
  endEach (fun view now => (ShareView.ids view fun share =>
      decide (share.state = .pending) && decide (share.expiresAt ≤ now))[n]?)
    .expired fun _ share now => decide (share.expiresAt ≤ now)

/-- The `n`-th share of a pass with a party that is not eligible any more. -/
def janitorCancelled (n : Nat) : ShareTxn ShareResult :=
  endEach (fun view _ => (ShareView.ids view fun share =>
      decide (share.state = .pending) && ineligibleParty view share)[n]?)
    .cancelled fun view share _ => ineligibleParty view share

def deleteRows : List Nat → ShareTxn Unit
  | [] => return
  | id :: ids => do
      let _ ← Txn.updateWhere (.share id) Record.isShare fun _ => .deleted
      deleteRows ids

def deletePage : Nat := 500

/-- Pages until one is empty; a pass over more than `pages` pages fails. -/
def deleteShares (wanted : Nat → SecretShare → Bool) :
    (pages deleted : Nat) → ShareTxn ShareResult
  | 0, _ => .refuse (refuseShare .busy)
  | pages + 1, deleted => do
      let view ← Txn.select
      let matching := view.keys.filterMap fun key =>
        (shareAt key (view.row key)).filter fun row => wanted row.1 row.2
      let page := (matching.take deletePage).filter fun row => isRowId row.2.recipientId
      if page.isEmpty then return .deletedShares deleted
      else
        deleteRows (page.map Prod.fst)
        deleteShares wanted pages (deleted + page.length)

/-- The janitor's deletions: ids from an earlier read, deleted as they are now. -/
def deleteConfirmed (due : ShareView → SecretShare → Nat → Bool) (pages : Nat) :
    ShareTxn ShareResult := do
  let env ← Txn.ask
  let view ← Txn.select
  let ids := ShareView.ids view fun share => due view share env.now
  if ids.isEmpty then return .deletedShares 0
  else deleteShares (fun id _ => ids.contains id) pages 0

def pastRetention (share : SecretShare) (now : Nat) : Bool :=
  decide (share.state ≠ .pending) &&
    share.terminalAt.any fun ms => decide (ms + secretShareRetentionMs < now)

def sharesOf (userId : Nat) (share : SecretShare) : Bool :=
  share.senderId == userId || share.recipientId == userId

/-! ## The received list -/

def pendingTo (now recipientId : Nat) (share : SecretShare) : Bool :=
  openAt now share && share.recipientId == recipientId

/-- The order of the lists: the newest first, then the higher row id. -/
def newerShare (a b : Nat × SecretShare) : Bool :=
  decide (b.2.createdAt < a.2.createdAt) ||
    (decide (a.2.createdAt = b.2.createdAt) && decide (b.1 ≤ a.1))

/-- The rows of the received list without its bound, each row once. -/
def ShareView.receivedRows (view : ShareView) (callerId now : Nat) : List (Nat × SecretShare) :=
  (view.keys.dedup.filterMap fun key =>
    (shareAt key (view.row key)).filter fun row => pendingTo now callerId row.2).insertionSort
      fun a b => newerShare a b = true

/-- Both parties let the share be opened now. -/
def SecretModule.available (m : SecretModule) (people : ShareView) (now : Nat)
    (share : SecretShare) : Bool :=
  openAt now share && isEligible (people.row (.user share.senderId)).person? &&
    m.canReceive (people.row (.user share.recipientId)).person?

/-- What `listShares` answers as received: the rows come from one query and the
people from a later one; `now` was read before both. -/
def SecretModule.listReceived (m : SecretModule) (view people : ShareView) (callerId now : Nat) :
    List SecretShare :=
  let bounded := (ShareView.receivedRows view callerId now).take secretPendingPerRecipient
  (bounded.filterMap fun row => toShare row.2).filter (m.available people now)

/-! ## The calls -/

/-- Everything that writes a share, and the other writers of user rows. -/
inductive ShareCall
  | create (caller : SecretCaller) (input : CreateInput)
  | reveal (caller : SecretCaller) (documentId : String)
  | revoke (caller : SecretCaller) (documentId : String)
  | janitorExpired (n : Nat)
  | janitorCancelled (n : Nat)
  | janitorOrphans (pages : Nat)
  | janitorRetention (pages : Nat)
  /-- Anonymisation and the erasure sweep. -/
  | deleteSharesOf (userId pages : Nat)
  | writePerson (id : Nat) (row : Option Person)
deriving DecidableEq

def writePerson (id : Nat) (row : Option Person) : ShareTxn ShareResult := do
  let _ ← Txn.updateWhere (.user id) Record.writable fun _ => row.elim .deleted .person
  return .written

def SecretModule.program (m : SecretModule) : ShareCall → ShareTxn ShareResult
  | .create caller input => m.createShare caller input
  | .reveal caller documentId => m.revealShare caller documentId
  | .revoke caller documentId => m.revokeShare caller documentId
  | .janitorExpired n => janitorExpired n
  | .janitorCancelled n => janitorCancelled n
  | .janitorOrphans pages => deleteConfirmed (fun view share _ => orphaned view share) pages
  | .janitorRetention pages => deleteConfirmed (fun _ share now => pastRetention share now) pages
  | .deleteSharesOf userId pages => deleteShares (fun _ share => sharesOf userId share) pages 0
  | .writePerson id row => writePerson id row

end Sinnlos.Cms

import Sinnlos.Cms.PasswordLinks

/-! # Writes to accounts

Every transaction that writes a user row, statement by statement: the password
change and the Document Service guard
(`extensions/users-permissions/strapi-server.ts`), the user administration
(`utils/user-admin.ts`), the anonymisation (`utils/anonymise.ts`), the role
write of a sign-in (`idp/exchange-core.ts`) and the password links
(`utils/password-link.ts`). Random values, hashes and the clock come with the
calls. Audit rows and mails are left out.
-/

namespace Sinnlos.Cms.Accounts

open Mfa (versionOf MAX_SAFE_INTEGER)
open Entra (RoleType RoleResolution EntraSyncMode RoleUpdate)

/-- What the other tables hold: the types of the roles and the document ids of
the departments. -/
structure Surroundings where
  roles : List RoleType
  departments : List String

inductive AccountRefusal
  | notRaised
  | secondChange
  | sessionOutdated
  | anonymised
  | notBlocked
  | confirm
  | invalidData
  | noSuchUser
  | password (problem : PasswordProblem)
  | forbidden
  | notFound
  /-- The keys that are refused, and the codes some of them have. -/
  | keys (keys : List String) (codes : List (String × String))
  | userVanished
  | tokenInvalid
  | duplicateEmails
deriving DecidableEq

abbrev AccountTxn : Type → Type := Txn RowKey Record Surroundings AccountRefusal

def FORM_KEY : String := "_form"

/-- `refuseKeys` with a code for each key. -/
def refuseCodes {α : Type} (codes : List (String × String)) : AccountTxn α :=
  .refuse (.keys (codes.map Prod.fst) codes)

def refuseKey {α : Type} (key : String) : AccountTxn α := .refuse (.keys [key] [])

/-! ## Locks and the token version -/

def lockDirectory : AccountTxn Bool := Txn.forUpdate .directory fun _ => true

def lockUserRow (id : Nat) : AccountTxn Bool := Txn.forUpdate (.user id) Record.isUser

/-- The row under its lock. One that was not there to be locked is not there to be
read: no call names a user before there is a row. -/
def lockUser (id : Nat) : AccountTxn (Option Account) := do
  let found ← lockUserRow id
  if found = false then return none
  else do
    let view ← Txn.select
    return account? view.row id

/-- `UPDATE … WHERE id = …` -/
def updateUserRow (id : Nat) (set : Account → Account) : AccountTxn Bool :=
  Txn.updateWhere (.user id) Record.isUser (Record.map set)

/-- `UPDATE … RETURNING`: the version this call committed. -/
def bumpTokenVersion (id : Nat) : AccountTxn Int := do
  let raised ← updateUserRow id Account.bumped
  if raised = false then .refuse .notRaised
  else do
    let view ← Txn.select
    match (account? view.row id).bind fun a => a.tokenVersion with
    | some version =>
        if 0 < version ∧ version ≤ MAX_SAFE_INTEGER then return version else .refuse .notRaised
    | none => .refuse .notRaised

/-! ## Password changes -/

/-- What a write finds in its asynchronous context. -/
structure SaveContext where
  /-- The user whose password is being saved. -/
  passwordSave : Option Nat
  /-- The users with a change under way in this transaction. -/
  inFlight : List Nat
  /-- The user and the version that a password action was verified at. -/
  expectedBump : Option (Nat × Int)

def noContext : SaveContext := ⟨none, [], none⟩

/-- Raises the version and saves, in one transaction. -/
def saveAfterBump {α : Type} (context : SaveContext) (id : Nat)
    (save : SaveContext → AccountTxn α) : AccountTxn Int := do
  if context.inFlight.contains id then .refuse .secondChange
  else do
    let version ← bumpTokenVersion id
    match context.expectedBump with
    | some (userId, tv) =>
        if userId = id ∧ version ≠ tv + 1 then .refuse .sessionOutdated
        else do
          let _ ← save { context with passwordSave := some id, inFlight := id :: context.inFlight }
          return version
    | none => do
        let _ ← save { context with passwordSave := some id, inFlight := id :: context.inFlight }
        return version

/-- The Document Service behind its middlewares: the validator, then the update. -/
def writeDocument (id : Nat) (data : UserData) : AccountTxn Unit :=
  match data.storedBlocked with
  | none => .refuse .invalidData
  | some blocked => do
      let _ ← updateUserRow id (data.write blocked)
      return ()

def AccountModule.assertPasswordAllowed (m : AccountModule) (password : Option (Option NewPassword)) :
    AccountTxn Unit :=
  match password.join.bind fun new => m.passwordProblem new.text with
  | some problem => .refuse (.password problem)
  | none => return ()

/-- The guard of an update of the user it found under the lock, if any; the
version that a password change committed. -/
def AccountModule.guardWrite (m : AccountModule) (context : SaveContext) (id : Nat)
    (given : UserData) : AccountTxn (Option Int) := do
  let data := given.unguarded
  m.assertPasswordAllowed data.password
  if data.setsPassword then do
    let view ← Txn.select
    match account? view.row id with
    | none => .refuse .noSuchUser
    | some _ =>
        -- the user service's edit() bumped for this very save already
        if context.passwordSave = some id then do
          writeDocument id data
          return none
        else do
          let version ← saveAfterBump context id fun _ => writeDocument id data
          return some version
  else if data.blocks then do
    let view ← Txn.select
    match account? view.row id with
    | none => do
        writeDocument id data
        return none
    | some row =>
        if row.blocked = some true then do
          writeDocument id data
          return none
        else do
          let _ ← bumpTokenVersion id
          writeDocument id data
          return none
  else do
    writeDocument id data
    return none

/-- The guard for a document id that names no user, also no later one. -/
def AccountModule.guardMissing (m : AccountModule) (given : UserData) : AccountTxn (Option Int) := do
  m.assertPasswordAllowed given.unguarded.password
  if given.setsPassword then .refuse .noSuchUser else return none

/-- An anonymised user, read under the row's lock, takes no write. -/
def refuseTombstone (id : Nat) : AccountTxn Unit := do
  match ← lockUser id with
  | some row => if row.anonymisedAt.isSome then .refuse .anonymised else return ()
  | none => return ()

/-- A Document Service update of a user. -/
def AccountModule.documentUpdate (m : AccountModule) (context : SaveContext) (id : Nat)
    (data : UserData) : AccountTxn (Option Int) := do
  let view ← Txn.select
  match account? view.row id with
  | none => m.guardMissing data
  | some _ => do
      refuseTombstone id
      m.guardWrite context id data

/-- A Document Service delete of a user. -/
def documentDelete (id : Nat) : AccountTxn Unit := do
  let view ← Txn.select
  match account? view.row id with
  | none => return ()
  | some _ => do
      refuseTombstone id
      let _ ← Txn.updateWhere (.user id) Record.isUser fun _ => .removed
      return ()

/-- The user service's `edit`. -/
def AccountModule.edit (m : AccountModule) (context : SaveContext) (id : Nat) (data : UserData) :
    AccountTxn (Option Int) :=
  if data.setsPassword then do
    let version ← saveAfterBump context id fun inner => m.documentUpdate inner id data
    return some version
  else m.documentUpdate context id data

def passwordData (password : NewPassword) : UserData :=
  { noData with password := some (some password) }

/-- The password action: the request was verified at version `tv`. -/
def AccountModule.changePassword (m : AccountModule) (callerId : Nat) (tv : Int)
    (password : NewPassword) : AccountTxn (Option Int) :=
  m.edit { noContext with expectedBump := some (callerId, tv) } callerId (passwordData password)

/-! ## The user administration -/

/-- The caller is still an unblocked admin at the version of the request; their
row stays locked. -/
def assertActiveAdmin (callerId : Nat) (callerTv : Option Int) : AccountTxn Unit := do
  match ← lockUser callerId with
  | none => .refuse .forbidden
  | some caller =>
      if caller.isActiveAdmin = false then .refuse .forbidden
      else if callerTv = some (versionOf caller.tokenVersion) then return ()
      else .refuse .sessionOutdated

/-- The directory lock, then the caller's row. -/
def asAdmin (callerId : Nat) (callerTv : Option Int) : AccountTxn Unit := do
  let _ ← lockDirectory
  assertActiveAdmin callerId callerTv

/-- The target as it is read, without a lock. -/
def loadUser (id : Nat) : AccountTxn Account := do
  let view ← Txn.select
  match account? view.row id with
  | none => .refuse .notFound
  | some user => return user

def refuseAnonymised (user : Account) : AccountTxn Unit :=
  if user.anonymisedAt.isSome then refuseCodes [(FORM_KEY, "anonymised")] else return ()

def checkRole (role : Option RoleType) : AccountTxn Unit :=
  match role with
  | none => return ()
  | some role => do
      let env ← Txn.ask
      if env.roles.contains role then return () else refuseKey "role"

def checkDepartment (department : Option (Option String)) : AccountTxn Unit :=
  match department.join with
  | none => return ()
  | some documentId => do
      let env ← Txn.ask
      if env.departments.contains documentId then return () else refuseKey "department"

/-- A manager chain longer than this is treated as a cycle. -/
def MAX_MANAGER_CHAIN : Nat := 200

/-- Whether a chain of managers reaches `userId`, or runs on after so many
people; every manager is a statement of its own. -/
def reportsTo (userId : Nat) : Nat → Option Nat → AccountTxn Bool
  | _, none => return false
  | 0, some _ => return true
  | steps + 1, some current =>
      if current = userId then return true
      else do
        let view ← Txn.select
        reportsTo userId steps (managerOf view.row current)

def checkManager (id : Nat) (manager : Option (Option Nat)) : AccountTxn Unit :=
  match manager.join with
  | none => return ()
  | some manager =>
      if manager = id then refuseCodes [("manager", "managerCycle")]
      else do
        let view ← Txn.select
        match account? view.row manager with
        | none => refuseKey "manager"
        | some _ => do
            if ← reportsTo id MAX_MANAGER_CHAIN (some manager) then
              refuseCodes [("manager", "managerCycle")]
            else return ()

/-- The write of `updateUser` on the user it read; whether that one was blocked. -/
def applyUpdate (id : Nat) (update : UserAdminUpdate) (user : Account) : AccountTxn Bool := do
  checkRole update.role
  checkDepartment update.department
  checkManager id update.manager
  let _ ← updateUserRow id update.write
  if update.blocked = some true ∧ user.blocked ≠ some true then do
    let _ ← bumpTokenVersion id
    return false
  else return user.blocked = some true

/-- Whether the user was blocked when it was read. -/
def AccountModule.updateUser (m : AccountModule) (callerId : Nat) (callerTv : Option Int) (id : Nat)
    (update : UserAdminUpdate) : AccountTxn Bool := do
  asAdmin callerId callerTv
  let user ← loadUser id
  refuseAnonymised user
  let codes := m.refusedFields callerId id user update
  if codes ≠ [] then refuseCodes codes else applyUpdate id update user

def Account.handed (idp : String) (a : Account) : Account :=
  { a with roleSource := some idp, entraAppliedRole := none }

def handRoleToEntra (callerId : Nat) (callerTv : Option Int) (id : Nat) : AccountTxn Unit := do
  asAdmin callerId callerTv
  let user ← loadUser id
  refuseAnonymised user
  if id = callerId then refuseCodes [("role", "selfChange")]
  else
    match user.idpOf with
    | none => refuseCodes [(FORM_KEY, "notEntraBound")]
    | some idp => do
        let _ ← updateUserRow id (Account.handed idp)
        return ()

/-- MFA_CLEARED and a new token version, with the row locked. -/
def clearMfa (id : Nat) : AccountTxn Int := do
  let _ ← lockUserRow id
  let _ ← updateUserRow id Account.cleared
  bumpTokenVersion id

def resetUserMfa (callerId : Nat) (callerTv : Option Int) (id : Nat) : AccountTxn Int := do
  asAdmin callerId callerTv
  let user ← loadUser id
  refuseAnonymised user
  if id = callerId then refuseCodes [(FORM_KEY, "selfChange")] else clearMfa id

/-- The first step of the anonymisation, of the user's own row. -/
def anonymiseUser (callerId : Nat) (callerTv : Option Int) (id : Nat) (confirm : Option String)
    (at_ : Int) : AccountTxn Unit := do
  asAdmin callerId callerTv
  match ← lockUser id with
  | none => .refuse .notFound
  | some user =>
      if user.anonymisedAt.isSome then .refuse .anonymised
      else if user.blocked ≠ some true then .refuse .notBlocked
      else if confirm ≠ some user.username then .refuse .confirm
      else do
        let _ ← updateUserRow id (Account.tombstone at_)
        return ()

/-! ## Sign-ins that write roles -/

/-- What a verified sign-in says of the role, and how the provider is set up. -/
structure RoleSignIn where
  resolution : RoleResolution
  mode : EntraSyncMode
  source : String
  admission : Bool

def RoleSignIn.decide (signIn : RoleSignIn) (a : Account) : Entra.RoleWriteDecision :=
  Entra.decideRoleWrite (some a.roles) signIn.resolution signIn.mode signIn.source signIn.admission

def Account.withUpdate (data : RoleUpdate) (a : Account) : Account :=
  a.withRoles (a.roles.write data)

/-- The role write of an existing user's sign-in; the refusal of the sign-in, if
it is refused. -/
def writeRole (userId : Nat) (signIn : RoleSignIn) : AccountTxn (Option Entra.Refusal) := do
  let _ ← lockDirectory
  match ← lockUser userId with
  | none => .refuse .userVanished
  | some row =>
      match signIn.decide row with
      | .reject refusal _ => return some refusal
      | .update data _ => do
          let env ← Txn.ask
          if data.role.all fun role => env.roles.contains role then do
            let _ ← updateUserRow userId (Account.withUpdate data)
            return none
          else return some Entra.unavailable
      | .create _ _ | .keep _ => return none

/-! ## Password links -/

def AccountModule.issueLink (m : AccountModule) (id : Nat) (row : Account) (purpose : LinkPurpose)
    (secret : LinkSecret) (now : Int) : AccountTxn String := do
  let _ ← updateUserRow id (Account.withLink (m.storedLink purpose row secret now))
  return linkToken id secret

def AccountModule.assertLinksPossible (m : AccountModule) : AccountTxn Unit :=
  if m.localSignInEnabled = false then refuseCodes [(FORM_KEY, "localSignInOff")]
  else if m.accountMailReady = false then refuseCodes [(FORM_KEY, "mailNotConfigured")]
  else return ()

def AccountModule.sendLink (m : AccountModule) (callerId : Nat) (callerTv : Option Int) (id : Nat)
    (secret : LinkSecret) (now : Int) : AccountTxn String := do
  m.assertLinksPossible
  asAdmin callerId callerTv
  match ← lockUser id with
  | none => .refuse .notFound
  | some row =>
      if row.isLocalUnbound = false then refuseCodes [(FORM_KEY, "notLocal")]
      else if row.blocked = some true then refuseCodes [(FORM_KEY, "blocked")]
      else m.issueLink id row (linkPurpose row) secret now

/-- `$eqi` on the e-mail. -/
def AccountModule.hasEmail (m : AccountModule) (email : String) (record : Record) : Bool :=
  match record.account?.bind Account.email with
  | some other => m.toLowerCase other = m.toLowerCase email
  | none => false

def AccountModule.emailTaken (m : AccountModule) (view : AccountView) (email : String) : Bool :=
  view.keys.any fun key => m.hasEmail email (view.row key)

/-- An invitation, its free username chosen. -/
structure Invite where
  email : String
  username : String
  documentId : String
  role : Option RoleType
  department : Option String

def Invite.account (invite : Invite) : Account where
  roleType := some (invite.role.getD .member).type
  tokenVersion := some 0
  totpSecret := none
  totpEnabledAt := none
  totpLastStep := none
  totpRecoveryCodes := .null
  documentId := invite.documentId
  username := invite.username
  email := some invite.email
  provider := some "local"
  password := none
  resetPasswordToken := none
  confirmed := some true
  blocked := some false
  anonymisedAt := none
  roleSource := none
  entraAppliedRole := none
  department := invite.department
  manager := none
  entraTenantId := none
  microsoftOid := none
  oidcIssuer := none
  oidcSubject := none

def isUserKey : RowKey → Bool
  | .user _ => true
  | .directory => false

def userIdOf : RowKey → Nat
  | .user id => id
  | .directory => 0

def AccountModule.inviteUser (m : AccountModule) (callerId : Nat) (callerTv : Option Int)
    (invite : Invite) (secret : LinkSecret) (now : Int) : AccountTxn String := do
  m.assertLinksPossible
  if m.emailIndexReady = false then .refuse .duplicateEmails
  else do
    asAdmin callerId callerTv
    let view ← Txn.select
    if m.emailTaken view invite.email then refuseCodes [("email", "taken")]
    else do
      checkRole (some (invite.role.getD .member))
      checkDepartment (invite.department.map some)
      let key ← Txn.insert isUserKey (.user invite.account)
      let row ← loadUser (userIdOf key)
      m.issueLink (userIdOf key) row .invite secret now

/-- The detached half of a forgotten password; none is no mail. -/
def AccountModule.requestReset (m : AccountModule) (email : String) (secret : LinkSecret)
    (now : Int) : AccountTxn (Option String) := do
  let view ← Txn.select
  match view.find? fun key record => if m.hasEmail email record then some key else none with
  | none => return none
  | some key => do
      match ← lockUser (userIdOf key) with
      | none => return none
      | some row =>
          if row.isLocalUnbound = false ∨ row.blocked = some true then return none
          else if row.password.getD "" = "" then return none
          else do
            let token ← m.issueLink (userIdOf key) row .reset secret now
            return some token

/-- The stored link is still this one. -/
def holdsLink (stored : Option String) (record : Record) : Bool :=
  match record with
  | .user a => stored.isSome && decide (a.resetPasswordToken = stored)
  | .empty | .removed => false

def AccountModule.redeemLink (m : AccountModule) (token : Option String)
    (password : Option NewPassword) (now : Int) : AccountTxn Unit :=
  match linkUserId token, token, password with
  | some id, some token, some password => do
      match ← lockUser id with
      | none => .refuse .tokenInvalid
      | some row =>
          if m.linkMatches id row token now = false then .refuse .tokenInvalid
          else do
            m.assertPasswordAllowed (some (some password))
            let updated ← Txn.updateWhere (.user id) (holdsLink row.resetPasswordToken)
              (Record.map (Account.redeemed password.hash))
            if updated then return () else .refuse .tokenInvalid
  | _, _, _ => .refuse .tokenInvalid

/-! ## The calls -/

inductive AccountCall
  | changePassword (callerId : Nat) (tv : Int) (password : NewPassword)
  | edit (id : Nat) (data : UserData)
  | documentUpdate (id : Nat) (data : UserData)
  | documentDelete (id : Nat)
  | updateUser (callerId : Nat) (callerTv : Option Int) (id : Nat) (update : UserAdminUpdate)
  | handRoleToEntra (callerId : Nat) (callerTv : Option Int) (id : Nat)
  | resetUserMfa (callerId : Nat) (callerTv : Option Int) (id : Nat)
  | anonymiseUser (callerId : Nat) (callerTv : Option Int) (id : Nat) (confirm : Option String)
      (at_ : Int)
  | writeRole (userId : Nat) (signIn : RoleSignIn)
  | sendLink (callerId : Nat) (callerTv : Option Int) (id : Nat) (secret : LinkSecret) (now : Int)
  | inviteUser (callerId : Nat) (callerTv : Option Int) (invite : Invite) (secret : LinkSecret)
      (now : Int)
  | requestReset (email : String) (secret : LinkSecret) (now : Int)
  | redeemLink (token : Option String) (password : Option NewPassword) (now : Int)
  /-- A sign-out, or the reset of a second factor from outside: the version goes up. -/
  | raiseVersion (id : Nat)

inductive AccountResult
  /-- A write through the guard, with the version that a password change committed. -/
  | saved (version : Option Int)
  /-- `updateUser`: whether the user was blocked when it was read. -/
  | updated (wasBlocked : Bool)
  | version (tokenVersion : Int)
  | link (token : Option String)
  /-- A role write, with the refusal of its sign-in. -/
  | role (refusal : Option Entra.Refusal)
  | done
deriving DecidableEq

/-- The transaction of a call. -/
def AccountModule.program (m : AccountModule) : AccountCall → AccountTxn AccountResult
  | .changePassword callerId tv password => do
      return .saved (← m.changePassword callerId tv password)
  | .edit id data => do return .saved (← m.edit noContext id data)
  | .documentUpdate id data => do return .saved (← m.documentUpdate noContext id data)
  | .documentDelete id => do
      documentDelete id
      return .done
  | .updateUser callerId callerTv id update => do
      return .updated (← m.updateUser callerId callerTv id update)
  | .handRoleToEntra callerId callerTv id => do
      handRoleToEntra callerId callerTv id
      return .done
  | .resetUserMfa callerId callerTv id => do
      return .version (← resetUserMfa callerId callerTv id)
  | .anonymiseUser callerId callerTv id confirm at_ => do
      anonymiseUser callerId callerTv id confirm at_
      return .done
  | .writeRole userId signIn => do return .role (← writeRole userId signIn)
  | .sendLink callerId callerTv id secret now => do
      return .link (some (← m.sendLink callerId callerTv id secret now))
  | .inviteUser callerId callerTv invite secret now => do
      return .link (some (← m.inviteUser callerId callerTv invite secret now))
  | .requestReset email secret now => do return .link (← m.requestReset email secret now)
  | .redeemLink token password now => do
      m.redeemLink token password now
      return .done
  | .raiseVersion id => do return .version (← bumpTokenVersion id)

/-- The database of the accounts, with its transactions named by numbers. -/
abbrev AccountDatabase : Type :=
  Database Nat RowKey Record Surroundings AccountRefusal AccountResult AccountCall

abbrev AccountLabel : Type := TxnLabel Nat RowKey Surroundings AccountCall

abbrev AccountCommit : Type := Commit Nat RowKey Record AccountResult AccountCall

end Sinnlos.Cms.Accounts

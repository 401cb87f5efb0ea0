import Sinnlos.Cms.EntraRoles
import Sinnlos.Cms.SecondFactor

/-! # Accounts

The rows of users, the data of a write to one of them
(`apps/cms/src/extensions/users-permissions/strapi-server.ts`) and what the user
administration changes (`apps/cms/src/utils/user-admin.ts`). A row that was
deleted never comes back.
-/

namespace Sinnlos.Cms.Accounts

open Mfa (MfaRow versionOf MAX_SAFE_INTEGER)
open Entra (RoleType UserRoleState)

/-! ## Rows -/

/-- The columns of a user row that sessions, links and the user administration
read or write. -/
structure Account extends MfaRow where
  documentId : String
  username : String
  email : Option String
  provider : Option String
  /-- The bcrypt hash. -/
  password : Option String
  resetPasswordToken : Option String
  confirmed : Option Bool
  blocked : Option Bool
  anonymisedAt : Option Int
  roleSource : Option String
  entraAppliedRole : Option String
  /-- The document id of the department. -/
  department : Option String
  manager : Option Nat
  entraTenantId : Option String
  microsoftOid : Option String
  oidcIssuer : Option String
  oidcSubject : Option String
deriving DecidableEq

/-- The reserved row of the directory lock, and the users by id. -/
inductive RowKey
  | directory
  | user (id : Nat)
deriving DecidableEq

inductive Record
  | empty
  | user (account : Account)
  | removed
deriving DecidableEq

abbrev Rows : Type := RowKey → Record

abbrev AccountView : Type := View RowKey Record

def Record.account? : Record → Option Account
  | .user account => some account
  | .empty | .removed => none

def Record.isUser (record : Record) : Bool := record.account?.isSome

def Record.map (f : Account → Account) : Record → Record
  | .user account => .user (f account)
  | .empty => .empty
  | .removed => .removed

@[simp] theorem Record.account?_user (a : Account) : (Record.user a).account? = some a := rfl

@[simp] theorem Record.isUser_user (a : Account) : (Record.user a).isUser = true := rfl

@[simp] theorem Record.map_user (f : Account → Account) (a : Account) :
    (Record.user a).map f = .user (f a) := rfl

theorem Record.isUser_iff {record : Record} : record.isUser = true ↔ ∃ a, record = .user a := by
  cases record with
  | user a => simp
  | empty | removed => simp [isUser, account?]

/-- The row of a user, as a statement reads it. -/
def account? (rows : Rows) (id : Nat) : Option Account := (rows (.user id)).account?

variable {a : Account}

theorem account?_eq_some {rows : Rows} {id : Nat} :
    account? rows id = some a ↔ rows (.user id) = .user a := by
  unfold account?
  cases rows (.user id) <;> simp [Record.account?]

/-- The manager of a user; the relation ends with either of the two. -/
def managerOf (rows : Rows) (id : Nat) : Option Nat :=
  ((account? rows id).bind Account.manager).filter fun manager => (account? rows manager).isSome

def ADMIN_ROLE : RoleType := .admin_role

/-- An unblocked `admin_role`. -/
def Account.isActiveAdmin (a : Account) : Bool :=
  decide (a.blocked ≠ some true) && decide (a.roleType = some ADMIN_ROLE.type)

/-- A column with more than white space in it. -/
def isSet (value : Option String) : Bool :=
  match value with
  | some text => Text.trim text ≠ ""
  | none => false

/-- A local account bound to no identity provider. -/
def Account.isLocalUnbound (a : Account) : Bool :=
  decide (a.provider = some "local") && !isSet a.entraTenantId && !isSet a.microsoftOid &&
    !isSet a.oidcIssuer && !isSet a.oidcSubject

/-- The identity provider a row is bound to. -/
def Account.idpOf (a : Account) : Option String :=
  if isSet a.entraTenantId then some "entra" else if isSet a.oidcIssuer then some "oidc" else none

def Account.roles (a : Account) : UserRoleState := ⟨a.roleType, a.roleSource, a.entraAppliedRole⟩

/-! ## Single changes of a row -/

def Account.bumped (a : Account) : Account :=
  { a with tokenVersion := some (a.tokenVersion.getD 0 + 1) }

/-- MFA_CLEARED. -/
def Account.cleared (a : Account) : Account :=
  { a with
    totpSecret := none
    totpEnabledAt := none
    totpLastStep := none
    totpRecoveryCodes := .null }

def Account.withRoles (roles : UserRoleState) (a : Account) : Account :=
  { a with
    roleType := roles.roleType
    roleSource := roles.roleSource
    entraAppliedRole := roles.entraAppliedRole }

def Account.withLink (stored : String) (a : Account) : Account :=
  { a with resetPasswordToken := some stored }

/-- What redeeming a link writes, in one statement. -/
def Account.redeemed (hash : String) (a : Account) : Account :=
  { a with
    password := some hash
    resetPasswordToken := none
    confirmed := some true
    tokenVersion := some (a.tokenVersion.getD 0 + 1) }

/-- `tombstoneData`, of the columns here. -/
def Account.tombstone (at_ : Int) (a : Account) : Account :=
  { a.cleared with
    username := "former-" ++ a.documentId
    email := some ("former-" ++ a.documentId ++ "@anonymised.invalid")
    password := none
    resetPasswordToken := none
    anonymisedAt := some at_ }

/-! ## Passwords -/

/-- What the account functions take from elsewhere: the digest in hexadecimal
digits, lower case, the list of common passwords, bcrypt's comparison, and the
settings of this instance. -/
structure AccountModule where
  sha256 : String → String
  toLowerCase : String → String
  COMMON_PASSWORDS : String → Bool
  validatePassword : String → String → Bool
  localSignInEnabled : Bool
  accountMailReady : Bool
  emailIndexReady : Bool
  /-- Enabled, and whether the sync writes departments and managers; none is an
  invalid configuration. -/
  entra : Option (Bool × Bool × Bool)
  /-- Enabled, and whether a claim names the department. -/
  oidc : Option (Bool × Bool)

inductive PasswordProblem
  | tooShort
  | tooLong
  | common
deriving DecidableEq

def PASSWORD_MIN_LENGTH : Nat := 12
def PASSWORD_MAX_BYTES : Nat := 72

def passwordLengthProblem (password : String) : Option PasswordProblem :=
  if password.length < PASSWORD_MIN_LENGTH then some .tooShort
  else if PASSWORD_MAX_BYTES < password.utf8ByteSize then some .tooLong
  else none

def isLineEnd (c : Char) : Bool := c.toNat ∈ [10, 13, 8232, 8233]

/-- One character, and nothing but repetitions of it. -/
def isRepeated : List Char → Bool
  | c :: rest => !isLineEnd c && rest.all fun d => d = c
  | [] => false

def AccountModule.passwordProblem (m : AccountModule) (password : String) :
    Option PasswordProblem :=
  match passwordLengthProblem password with
  | some problem => some problem
  | none =>
      let lower := m.toLowerCase password
      if m.COMMON_PASSWORDS lower || isRepeated lower.toList then some .common else none

/-- A new password, with the hash that bcrypt makes of it. -/
structure NewPassword where
  text : String
  hash : String
deriving DecidableEq

/-! ## The data of a Document Service write -/

mutual

/-- `String(value)`, where it can be one of the words a boolean is written with. -/
def spelling : Json → Option String
  | .bool true => some "true"
  | .bool false => some "false"
  | .num value => if value = 1 then some "1" else if value = 0 then some "0" else none
  | .str value => some value
  | .arr items => spellingOfItems items
  | .null | .obj _ => none

/-- The items are joined by commas: one item alone is written as itself. -/
def spellingOfItems : List Json → Option String
  | [item] => spelling item
  | _ => none

end

/-- `/^(true|1)$/i` on `String(value)`. -/
def readsTrue (value : Json) : Bool :=
  match spelling value with
  | some text => text.toLower = "true" || text = "1"
  | none => false

def readsFalse (value : Json) : Bool :=
  match spelling value with
  | some text => text.toLower = "false" || text = "0"
  | none => false

/-- What the validator stores of a boolean column; none refuses the write. -/
def storedBoolean (value : Json) : Option (Option Bool) :=
  if value = .null then some none
  else if readsTrue value then some (some true)
  else if readsFalse value then some (some false)
  else none

/-- The attributes that the guard keeps out of every write. -/
structure GuardedData where
  tokenVersion : Option (Option Int)
  totpSecret : Option (Option String)
  totpEnabledAt : Option (Option Int)
  totpLastStep : Option (Option Int)
  totpRecoveryCodes : Option Json
  anonymisedAt : Option (Option Int)
deriving DecidableEq

def noGuarded : GuardedData := ⟨none, none, none, none, none, none⟩

/-- The data of a write to a user; none is a key that is not there. -/
structure UserData where
  password : Option (Option NewPassword)
  blocked : Option Json
  email : Option (Option String)
  provider : Option (Option String)
  roleType : Option (Option String)
  roleSource : Option (Option String)
  entraAppliedRole : Option (Option String)
  department : Option (Option String)
  manager : Option (Option Nat)
  entraTenantId : Option (Option String)
  microsoftOid : Option (Option String)
  oidcIssuer : Option (Option String)
  oidcSubject : Option (Option String)
  guarded : GuardedData
deriving DecidableEq

/-- Data without a key. -/
def noData : UserData :=
  ⟨none, none, none, none, none, none, none, none, none, none, none, none, none, noGuarded⟩

/-- Any value but undefined: clearing a password counts too. -/
def UserData.setsPassword (data : UserData) : Bool := data.password.isSome

/-- Every spelling that the validator stores as true. -/
def UserData.blocks (data : UserData) : Bool :=
  match data.blocked with
  | some value => readsTrue value
  | none => false

def UserData.unguarded (data : UserData) : UserData := { data with guarded := noGuarded }

/-- The row after the write, where `blocked` is what the validator stores. -/
def UserData.write (data : UserData) (blocked : Option (Option Bool)) (a : Account) : Account where
  roleType := data.roleType.getD a.roleType
  tokenVersion := data.guarded.tokenVersion.getD a.tokenVersion
  totpSecret := data.guarded.totpSecret.getD a.totpSecret
  totpEnabledAt := data.guarded.totpEnabledAt.getD a.totpEnabledAt
  totpLastStep := data.guarded.totpLastStep.getD a.totpLastStep
  totpRecoveryCodes := data.guarded.totpRecoveryCodes.getD a.totpRecoveryCodes
  documentId := a.documentId
  username := a.username
  email := data.email.getD a.email
  provider := data.provider.getD a.provider
  password := data.password.elim a.password (Option.map NewPassword.hash)
  resetPasswordToken := a.resetPasswordToken
  confirmed := a.confirmed
  blocked := blocked.getD a.blocked
  anonymisedAt := data.guarded.anonymisedAt.getD a.anonymisedAt
  roleSource := data.roleSource.getD a.roleSource
  entraAppliedRole := data.entraAppliedRole.getD a.entraAppliedRole
  department := data.department.getD a.department
  manager := data.manager.getD a.manager
  entraTenantId := data.entraTenantId.getD a.entraTenantId
  microsoftOid := data.microsoftOid.getD a.microsoftOid
  oidcIssuer := data.oidcIssuer.getD a.oidcIssuer
  oidcSubject := data.oidcSubject.getD a.oidcSubject

/-- What the validator stores for `blocked`: none refuses the data, and a key
that is not there leaves the column as it is. -/
def UserData.storedBlocked (data : UserData) : Option (Option (Option Bool)) :=
  match data.blocked with
  | some value => (storedBoolean value).map some
  | none => some none

/-- `blocked` is stored as true exactly where the guard sees a block. -/
theorem UserData.blocks_iff {data : UserData} {blocked : Option (Option Bool)}
    (h : data.storedBlocked = some blocked) : data.blocks = true ↔ blocked = some (some true) := by
  unfold storedBlocked at h
  unfold blocks
  cases hb : data.blocked with
  | none =>
      rw [hb] at h
      cases h
      simp
  | some value =>
      rw [hb] at h
      dsimp only at h ⊢
      unfold storedBoolean at h
      split at h
      · rename_i hnull
        cases h
        simp [hnull, readsTrue, spelling]
      · split at h
        · rename_i htrue
          cases h
          simp [htrue]
        · rename_i hno
          split at h
          · cases h
            simp [hno]
          · cases h

/-! ## The data of the user administration -/

structure UserAdminUpdate where
  role : Option RoleType
  department : Option (Option String)
  manager : Option (Option Nat)
  blocked : Option Bool
deriving DecidableEq

/-- A hand-set role is the intranet's from now on. -/
def UserAdminUpdate.write (update : UserAdminUpdate) (a : Account) : Account :=
  { a with
    roleType := update.role.elim a.roleType fun role => some role.type
    roleSource := update.role.elim a.roleSource fun _ => some "manual"
    entraAppliedRole := update.role.elim a.entraAppliedRole fun _ => none
    department := update.department.getD a.department
    manager := update.manager.getD a.manager
    blocked := update.blocked.elim a.blocked some }

/-- What the identity provider's sync owns of a row: its department, its manager. -/
def AccountModule.lockedFields (m : AccountModule) (a : Account) : Bool × Bool :=
  if a.idpOf = some "entra" then
    match m.entra with
    | some (enabled, syncDepartment, syncManager) =>
        (enabled && syncDepartment, enabled && syncManager)
    | none => (false, false)
  else if a.idpOf = some "oidc" then
    match m.oidc with
    | some (enabled, departmentClaim) => (enabled && departmentClaim, false)
    | none => (false, false)
  else (false, false)

/-- The keys an update is refused for before anything is looked up. -/
def AccountModule.refusedFields (m : AccountModule) (callerId id : Nat) (a : Account)
    (update : UserAdminUpdate) : List (String × String) :=
  (if id = callerId then
    (if update.role.isSome then [("role", "selfChange")] else []) ++
      (if update.blocked.isSome then [("blocked", "selfChange")] else [])
  else []) ++
    (if update.department.isSome && (m.lockedFields a).1 then [("department", "entraManaged")]
      else []) ++
    (if update.manager.isSome && (m.lockedFields a).2 then [("manager", "entraManaged")] else [])

/-- Nobody gets past the check with their own role or blocked state. -/
theorem AccountModule.not_self_of_refusedFields {m : AccountModule} {callerId : Nat}
    {update : UserAdminUpdate} (h : m.refusedFields callerId callerId a update = []) :
    update.role = none ∧ update.blocked = none := by
  unfold refusedFields at h
  simp only [if_true, List.append_eq_nil_iff] at h
  obtain ⟨⟨⟨hrole, hblocked⟩, _⟩, _⟩ := h
  constructor
  · cases hr : update.role with
    | none => rfl
    | some role => simp [hr] at hrole
  · cases hb : update.blocked with
    | none => rfl
    | some blocked => simp [hb] at hblocked

end Sinnlos.Cms.Accounts

import Mathlib.Data.List.Basic
import Mathlib.Logic.Function.Basic
import Sinnlos.Cms.EntraRoles
import Sinnlos.Lib.Runs

/-!
# Sign-ins through the identity provider

Every database statement of a sign-in is a step of its own, and sign-ins and the
changes of admins take their steps in any order. An existing row's role is
decided and written while its lock is held.
-/

namespace Sinnlos.Cms.Entra

open Runs

variable {π : Type}

/-- A user row: the role fields, and `profile` for the columns that no role depends on. -/
structure UserRow (π : Type) where
  id : Nat
  /-- Tenant and object id. -/
  identity : Option (String × String)
  email : String
  blocked : Bool
  roles : UserRoleState
  profile : π

/-- One verified sign-in: its identity, what the token and Graph say of roles, and the profile and
address that a new row gets. -/
structure Request (π : Type) where
  identity : String × String
  claimRoles : List String
  me : GraphResult (Option String)
  groups : Option (GraphResult (List String))
  email : Option String
  profile : π

structure Settings where
  syncMode : EntraSyncMode
  defaultRole : EntraDefaultRole
  groupRules : List EntraGroupRule
  syncDepartment : Bool
  syncManager : Bool
  /-- The roles that the database holds a row of. -/
  roleRows : List RoleType

def Request.resolution (request : Request π) (settings : Settings) : RoleResolution :=
  resolveEntraRole
    { claimRoles := request.claimRoles
      me := request.me
      groups := request.groups
      groupRules := settings.groupRules
      defaultRole := settings.defaultRole }

def Request.decide (request : Request π) (settings : Settings) (user : Option UserRoleState) :
    RoleWriteDecision :=
  decideRoleWrite user (request.resolution settings) settings.syncMode "entra" false

/-- Where a sign-in stands; each phase names what it does next. -/
inductive Phase where
  /-- `findIdentity`. -/
  | looking
  /-- Whether a row uses the address. -/
  | checkingEmail (email : String)
  /-- `findIdentity` again, the address being taken. -/
  | lookingAgain
  /-- The transaction that inserts the row. -/
  | inserting (email : String) (role : RoleType)
  /-- The winner of the race, after the insert failed. -/
  | lostRace
  /-- `findIdentity` after the insert. -/
  | readingBack (created : Bool)
  /-- `writeRole`: the row's lock. -/
  | locking (userId : Nat)
  /-- The fresh read and the decision, under the lock. -/
  | deciding (userId : Nat)
  /-- The update and the commit, under the lock. -/
  | writing (userId : Nat) (data : RoleUpdate)
  | ok (userId : Nat) (created : Bool)
  | refused (refusal : Refusal)
  /-- An error that the exchange does not handle. -/
  | threw
deriving DecidableEq

structure SignIn (π : Type) where
  request : Request π
  phase : Phase

structure State (π : Type) where
  rows : List (UserRow π)
  nextId : Nat
  /-- The sign-in that holds a row's lock. -/
  lockedBy : Nat → Option Nat
  signIns : Nat → Option (SignIn π)

def State.findIdentity (s : State π) (identity : String × String) : Option (UserRow π) :=
  s.rows.find? fun row => row.identity = some identity

def State.emailTaken (s : State π) (email : String) : Bool :=
  s.rows.any fun row => row.email.toLower = email.toLower

def State.findUser (s : State π) (userId : Nat) : Option (UserRow π) :=
  s.rows.find? fun row => row.id = userId

/-- What a step of a sign-in does to the database. -/
inductive Effect (π : Type) where
  | nothing
  | lock (userId : Nat)
  | release (userId : Nat)
  | insert (row : UserRow π)
  | write (userId : Nat) (data : RoleUpdate)

/-- The row of a new identity. -/
def Request.newRow (request : Request π) (id : Nat) (role : RoleType) (email : String) :
    UserRow π where
  id := id
  identity := some request.identity
  email := email
  blocked := false
  roles := ⟨some role.type, some "entra", some role.type⟩
  profile := request.profile

/-- The row that a sign-in continues with. -/
def admitRow (row : UserRow π) (created : Bool) : Phase :=
  if created then .ok row.id true
  else if row.blocked then .refused blockedAccount
  else .locking row.id

/-- `createIdentity` up to the insert. -/
def createIdentity (settings : Settings) (request : Request π) (email : String) : Phase :=
  match request.decide settings none with
  | .reject refusal _ => .refused refusal
  | .create role _ => if role ∈ settings.roleRows then .inserting email role else .refused unavailable
  | _ => .threw

/-- The decision of `writeRole` on the fresh row. -/
def decideUser (settings : Settings) (request : Request π) (row : UserRow π) : Phase :=
  match request.decide settings (some row.roles) with
  | .reject refusal _ => .refused refusal
  | .update data _ =>
      match data.role with
      | some role =>
          if role ∈ settings.roleRows then .writing row.id data else .refused unavailable
      | none => .writing row.id data
  | _ => .ok row.id false

/-- The next step of a sign-in; `none` while it waits for a lock or is over. -/
def advance (settings : Settings) (s : State π) (request : Request π) :
    Phase → Option (Phase × Effect π)
  | .looking =>
      match s.findIdentity request.identity with
      | some row => some (admitRow row false, .nothing)
      | none =>
          match request.email with
          | none => some (.refused unavailable, .nothing)
          | some email => some (.checkingEmail email, .nothing)
  | .checkingEmail email =>
      if s.emailTaken email then some (.lookingAgain, .nothing)
      else some (createIdentity settings request email, .nothing)
  | .lookingAgain =>
      match s.findIdentity request.identity with
      | some row => some (admitRow row false, .nothing)
      | none => some (.refused accountExists, .nothing)
  | .inserting email role =>
      -- the unique index lets one row of an identity in
      match s.findIdentity request.identity with
      | some _ => some (.lostRace, .nothing)
      | none => some (.readingBack true, .insert (request.newRow s.nextId role email))
  | .lostRace =>
      match s.findIdentity request.identity with
      | some _ => some (.readingBack false, .nothing)
      | none => some (.threw, .nothing)
  | .readingBack created =>
      match s.findIdentity request.identity with
      | some row => some (admitRow row created, .nothing)
      | none => some (.threw, .nothing)
  | .locking userId =>
      if s.lockedBy userId = none then some (.deciding userId, .lock userId) else none
  | .deciding userId =>
      match s.findUser userId with
      | none => some (.threw, .release userId)
      | some row =>
          match decideUser settings request row with
          | .writing userId data => some (.writing userId data, .nothing)
          | phase => some (phase, .release userId)
  | .writing userId data => some (.ok userId false, .write userId data)
  | .ok _ _ => none
  | .refused _ => none
  | .threw => none

/-- A failing database: the insert's failure is looked into, any other ends the sign-in, and an open
transaction rolls back. -/
def failing : Phase → Option (Phase × Effect π)
  | .inserting _ _ => some (.lostRace, .nothing)
  | .deciding userId => some (.threw, .release userId)
  | .writing userId _ => some (.threw, .release userId)
  | .ok _ _ => none
  | .refused _ => none
  | .threw => none
  | _ => some (.threw, .nothing)

def UserRow.write (row : UserRow π) (data : RoleUpdate) : UserRow π :=
  { row with roles := row.roles.write data }

/-- Change the row of a user. -/
def State.modify (s : State π) (userId : Nat) (change : UserRow π → UserRow π) : State π :=
  { s with rows := s.rows.map fun row => if row.id = userId then change row else row }

def State.apply (s : State π) (t : Nat) : Effect π → State π
  | .nothing => s
  | .lock userId => { s with lockedBy := Function.update s.lockedBy userId (some t) }
  | .release userId => { s with lockedBy := Function.update s.lockedBy userId none }
  | .insert row => { s with rows := s.rows ++ [row], nextId := s.nextId + 1 }
  | .write userId data =>
      { s.modify userId (fun row => row.write data) with
        lockedBy := Function.update s.lockedBy userId none }

def State.setSignIn (s : State π) (t : Nat) (signIn : SignIn π) : State π :=
  { s with signIns := Function.update s.signIns t (some signIn) }

/-- The writes after admission: of the user's own row, and of those who wait for their manager. -/
inductive SyncWrite (π : Type) where
  | profile (email : Option String) (value : π)
  | department (value : π)
  | manager (value : π)
  | backfill (report : Nat) (value : π)

/-- Whether a sign-in gets to a write after admission. -/
def SyncWrite.due (settings : Settings) (request : Request π) (created : Bool) :
    SyncWrite π → Bool
  | .profile _ _ => decide (settings.syncMode = .on ∧ request.me ≠ .failed ∧ created = false)
  | .department _ =>
      decide (settings.syncMode = .on ∧ request.me ≠ .failed ∧ settings.syncDepartment = true)
  | .manager _ | .backfill _ _ =>
      decide (settings.syncMode = .on ∧ request.me ≠ .failed ∧ settings.syncManager = true)

/-- The rows after such a write; none of them is of a role field. -/
def SyncWrite.run (s : State π) (userId : Nat) : SyncWrite π → State π
  | .profile email value =>
      s.modify userId fun row => { row with email := email.getD row.email, profile := value }
  | .department value => s.modify userId fun row => { row with profile := value }
  | .manager value => s.modify userId fun row => { row with profile := value }
  | .backfill report value => s.modify report fun row => { row with profile := value }

inductive Event (π : Type) where
  | begin (t : Nat) (request : Request π)
  | advance (t : Nat)
  | failure (t : Nat)
  | sync (t : Nat) (write : SyncWrite π)
  /-- A role set in the user administration. -/
  | setRole (userId : Nat) (role : RoleType)
  /-- A role set, or taken, in the admin panel. -/
  | panelRole (userId : Nat) (role : Option String)
  /-- The role handed back to the provider. -/
  | handBack (userId : Nat)

/-- The sign-ins' own steps. -/
def Event.ofSignIn : Event π → Bool
  | .begin _ _ | .advance _ | .failure _ | .sync _ _ => true
  | _ => false

/-- Take an outcome of sign-in `t`. -/
def State.take (s : State π) (t : Nat) (request : Request π) (outcome : Phase × Effect π) :
    State π :=
  (s.apply t outcome.2).setSignIn t ⟨request, outcome.1⟩

/-- A transaction of an admin waits for the row's lock. -/
def State.adminWrite (s : State π) (userId : Nat) (change : UserRoleState → UserRoleState) :
    Option (State π) :=
  if s.lockedBy userId = none then
    some (s.modify userId fun row => { row with roles := change row.roles })
  else none

def next (settings : Settings) (s : State π) : Event π → Option (State π)
  | .begin t request =>
      match s.signIns t with
      | none => some (s.setSignIn t ⟨request, .looking⟩)
      | some _ => none
  | .advance t =>
      (s.signIns t).bind fun signIn =>
        (advance settings s signIn.request signIn.phase).map (s.take t signIn.request)
  | .failure t =>
      (s.signIns t).bind fun signIn => (failing signIn.phase).map (s.take t signIn.request)
  | .sync t write =>
      (s.signIns t).bind fun signIn =>
        match signIn.phase with
        | .ok userId created =>
            if write.due settings signIn.request created then some (write.run s userId) else none
        | _ => none
  | .setRole userId role =>
      s.adminWrite userId fun _ => ⟨some role.type, some "manual", none⟩
  | .panelRole userId role => s.adminWrite userId fun user => { user with roleType := role }
  | .handBack userId =>
      s.adminWrite userId fun user =>
        { user with roleSource := some "entra", entraAppliedRole := none }

def Step (settings : Settings) (s : State π) (event : Event π) (s' : State π) : Prop :=
  next settings s event = some s'

/-- Any users, each with an id and an identity of their own, and no sign-in yet. -/
structure Initial (s : State π) : Prop where
  ids : (s.rows.map UserRow.id).Nodup
  fresh : ∀ row ∈ s.rows, row.id < s.nextId
  identities : ∀ a ∈ s.rows, ∀ b ∈ s.rows, a.identity ≠ none → a.identity = b.identity → a.id = b.id
  idle : ∀ t, s.signIns t = none
  unlocked : ∀ userId, s.lockedBy userId = none

end Sinnlos.Cms.Entra

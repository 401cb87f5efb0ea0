import Mathlib.Data.List.Perm.Basic
import Sinnlos.Cms.PinnedReads

/-! # The readers of an announcement

Whom an announcement notifies is computed for all active users at once; what a
user may read is computed for each request. Both come from one database, by
queries that give their rows in an order of their own.
-/

namespace Sinnlos.Cms.Readers

open Domain (AnnouncementTargeting isAnnouncementTargetedTo)
open Targets (AnnouncementRow TargetDb TeamRow UserRow findAllPaged loadUserScope)

/-! ## The database -/

/-- A row of `up_permissions`. -/
structure PermissionRow where
  action : Option String
  role : Option Nat
deriving DecidableEq

structure RecipientDb extends TargetDb where
  user_ids : (users.map UserRow.id).Nodup
  /-- The column of a user's row. -/
  blocked : Nat → Option Bool
  /-- The type of a role. -/
  roleType : Nat → Option String
  permissions : List PermissionRow

def ANNOUNCEMENT_FIND : String := "api::announcement.announcement.find"

/-- `NOT_BLOCKED`: the column is false or null. -/
def notBlocked (blocked : Option Bool) : Bool := blocked == some false || blocked.isNone

/-- `$gt` of the database on a column of the kind datetime. -/
abbrev After : Type := String → Int → Bool

def notExpiredWhere (after : After) (now : Int) (row : AnnouncementRow) : Bool :=
  row.expiresAt.isNone || row.expiresAt.any fun expiresAt => after expiresAt now

/-- A query answers with the rows that match, in any order. -/
def Answers {ρ : Type} (answer rows : List ρ) (condition : ρ → Bool) : Prop :=
  answer.Perm (rows.filter condition)

/-! ## All scopes at once -/

/-- The teams that each user leads. -/
def ledTeamMap (teams : List TeamRow) : OrderedMap Nat (List Nat) :=
  OrderedMap.collectBy TeamRow.lead TeamRow.id teams

/-- The scopes of the users and teams that the two queries gave. -/
def loadAllUserScopes (db : RecipientDb) (users : List UserRow) (teams : List TeamRow) :
    List RecipientScope :=
  let led := ledTeamMap teams
  users.map fun user =>
    { userId := user.id
      roleId := user.role
      roleType := user.role.bind db.roleType
      departmentId := user.department
      teamIds := user.teams
      ledTeamIds := (led.get? user.id).getD [] }

/-- The roles of each action, by the rows that the query gave. -/
def loadRoleGrants (rows : List PermissionRow) : OrderedMap String (List Nat) :=
  OrderedMap.collectBy (fun grant : String × Nat => some grant.1) Prod.snd <|
    rows.filterMap fun row =>
      match row.action, row.role with
      | some action, some role => some (action, role)
      | _, _ => none

/-- The holders of an action. -/
def holders (grants : OrderedMap String (List Nat)) (action : String) : List Nat :=
  (grants.get? action).getD []

/-! ## The reads of one user -/

/-- The announcements that a user may read, drafts included. -/
def visibleAnnouncementIds (after : After) (db : TargetDb) (now : Int) (user : Option Nat) :
    List Nat :=
  let scope := user.map fun userId => toAudienceScope (loadUserScope db userId)
  let checked := Targets.loadAnnouncementRows db (notExpiredWhere after now)
  (checked.filter fun row => isAnnouncementTargetedTo row.targeting scope).map AnnouncementRow.id

/-! ## The scopes agree -/

variable {db : RecipientDb} {users : List UserRow} {teams : List TeamRow}

theorem ledTeams_eq (teams : List TeamRow) (userId : Nat) :
    ((ledTeamMap teams).get? userId).getD [] =
      (teams.filter fun team => team.lead = some userId).map TeamRow.id :=
  OrderedMap.getD_collectBy TeamRow.lead TeamRow.id teams userId

variable {user : UserRow} {a b : UserScope}

theorem loadUserScope_of_mem (huser : user ∈ db.users) :
    loadUserScope db.toTargetDb user.id =
      { roleId := user.role
        departmentId := user.department
        teamIds := user.teams
        ledTeamIds := (db.teams.filter fun team => team.lead = some user.id).map TeamRow.id } := by
  unfold loadUserScope
  rw [Lookup.find_own_key db.user_ids huser]
  rfl

/-- Two scopes that the audience rules cannot tell apart. -/
structure SameScope (a b : UserScope) : Prop where
  role : a.roleId = b.roleId
  department : a.departmentId = b.departmentId
  teams : ∀ team, team ∈ a.teamIds ++ a.ledTeamIds ↔ team ∈ b.teamIds ++ b.ledTeamIds

theorem inTeam_congr (same : SameScope a b) (team : Option Nat) :
    Domain.inTeam team (some (toAudienceScope a)) = Domain.inTeam team (some (toAudienceScope b)) := by
  cases team with
  | none => rfl
  | some team =>
      rw [Bool.eq_iff_iff]
      simp only [Domain.inTeam, toAudienceScope, Option.map_some, Option.getD_some,
        List.contains_iff_mem]
      exact same.teams team

theorem inDepartment_congr (same : SameScope a b) (department : Option Nat) :
    Domain.inDepartment department (some (toAudienceScope a)) =
      Domain.inDepartment department (some (toAudienceScope b)) := by
  cases department with
  | none => rfl
  | some department =>
      have hscope : ((some (toAudienceScope a)).bind fun scope => scope.departmentId) =
          (some (toAudienceScope b)).bind fun scope => scope.departmentId := same.department
      unfold Domain.inDepartment
      dsimp only
      rw [hscope]

theorem isAnnouncementVisible_congr (same : SameScope a b) (announcement : AnnouncementTargeting) :
    isAnnouncementVisible announcement a = isAnnouncementVisible announcement b := by
  have hroles : Domain.inRoles announcement.audienceRoles (some (toAudienceScope a)) =
      Domain.inRoles announcement.audienceRoles (some (toAudienceScope b)) := by
    simp only [Domain.inRoles, toAudienceScope, Option.bind_some, same.role]
  unfold isAnnouncementVisible isAnnouncementTargetedTo
  rw [inDepartment_congr same, inTeam_congr same, hroles]

/-- The scope of an active user is that of the user's own requests. -/
theorem mem_loadAllUserScopes (hteams : Answers teams db.teams fun _ => true)
    (husers : Answers users db.users fun user => notBlocked (db.blocked user.id))
    (huser : user ∈ db.users) {scope : RecipientScope} (hid : scope.userId = user.id)
    (hmem : scope ∈ loadAllUserScopes db users teams) :
    notBlocked (db.blocked user.id) = true ∧
      SameScope scope.toUserScope (loadUserScope db.toTargetDb user.id) := by
  obtain ⟨other, hother, hscope⟩ := List.mem_map.mp hmem
  have hanswer := List.mem_filter.mp (husers.mem_iff.mp hother)
  have hsame : other = user := by
    apply List.inj_on_of_nodup_map db.user_ids hanswer.1 huser
    rw [← hid, ← hscope]
  subst hsame
  refine ⟨hanswer.2, ?_⟩
  rw [loadUserScope_of_mem huser, ← hscope]
  exact {
    role := rfl
    department := rfl
    teams := by
      intro team
      have hall := (hteams.filter fun team => decide (team.lead = some other.id)).map TeamRow.id
      rw [List.filter_filter] at hall
      rw [ledTeams_eq, List.mem_append, List.mem_append, hall.mem_iff]
      simp only [Bool.and_true] }

/-- Every active user has a scope. -/
theorem exists_loadAllUserScopes (teams : List TeamRow)
    (husers : Answers users db.users fun user => notBlocked (db.blocked user.id))
    (huser : user ∈ db.users) (active : notBlocked (db.blocked user.id) = true) :
    ∃ scope ∈ loadAllUserScopes db users teams, scope.userId = user.id := by
  have hmem : user ∈ users := husers.mem_iff.mpr (List.mem_filter.mpr ⟨huser, active⟩)
  exact ⟨_, List.mem_map_of_mem hmem, rfl⟩

/-! ## The grants -/

/-- A row of the database gives an action to a role. -/
def RoleHolds (db : RecipientDb) (role : Option Nat) (action : String) : Prop :=
  role ≠ none ∧ ⟨some action, role⟩ ∈ db.permissions

variable {action : String}

theorem mem_holders {rows : List PermissionRow} {role : Nat} :
    role ∈ holders (loadRoleGrants rows) action ↔ ⟨some action, some role⟩ ∈ rows := by
  unfold holders loadRoleGrants
  rw [OrderedMap.getD_collectBy]
  simp only [List.mem_map, List.mem_filter, List.mem_filterMap, decide_eq_true_eq]
  constructor
  · intro h
    obtain ⟨grant, ⟨⟨row, hrow, hgrant⟩, haction⟩, hrole⟩ := h
    obtain ⟨rowAction, rowRole⟩ := row
    cases rowAction with
    | none => cases hgrant
    | some rowAction =>
        cases rowRole with
        | none => cases hgrant
        | some rowRole =>
            cases hgrant
            rw [← Option.some.inj haction, ← hrole]
            exact hrow
  · intro h
    exact ⟨(action, role), ⟨⟨_, h, rfl⟩, rfl⟩, rfl⟩

theorem holdsGrant_iff {permissions : List PermissionRow} {actions : List String}
    (hpermissions : Answers permissions db.permissions fun row =>
      row.action.any fun action => actions.contains action) (hmem : action ∈ actions)
    (scope : UserScope) :
    holdsGrant scope (holders (loadRoleGrants permissions) action) = true ↔
      RoleHolds db scope.roleId action := by
  unfold holdsGrant RoleHolds
  cases scope.roleId with
  | none => simp
  | some role =>
      have hanswer : (⟨some action, some role⟩ : PermissionRow) ∈ permissions ↔
          ⟨some action, some role⟩ ∈ db.permissions := by
        rw [hpermissions.mem_iff, List.mem_filter]
        simp [hmem]
      dsimp only
      rw [List.contains_iff_mem, mem_holders, hanswer]
      simp

/-! ## The reads -/

theorem mem_visibleAnnouncementIds {after : After} {now : Int} {row : AnnouncementRow}
    (hrow : row ∈ db.announcements) (live : notExpiredWhere after now row = true) (userId : Nat) :
    row.id ∈ visibleAnnouncementIds after db.toTargetDb now (some userId) ↔
      isAnnouncementVisible row.targeting (loadUserScope db.toTargetDb userId) = true := by
  unfold visibleAnnouncementIds isAnnouncementVisible
  rw [Targets.loadAnnouncementRows_eq, Option.map_some]
  simp only [List.mem_map, List.mem_filter]
  constructor
  · intro h
    obtain ⟨checked, ⟨⟨other, hother, hchecked⟩, htargeted⟩, hid⟩ := h
    have hsame : other = row := by
      apply List.inj_on_of_nodup_map db.announcement_ids.nodup hother.1 hrow
      rw [← hid, ← hchecked]
      rfl
    rw [← hchecked, hsame] at htargeted
    rw [← isAnnouncementTargetedTo_raiseFlags_self]
    exact htargeted
  · intro h
    rw [← isAnnouncementTargetedTo_raiseFlags_self] at h
    exact ⟨row.twice, ⟨⟨row, ⟨hrow, live⟩, rfl⟩, h⟩, rfl⟩

/-- Who is notified of an announcement is who may read it: an active user whose role holds
the grant and whose own reads return the announcement. -/
theorem mem_recipients_iff_visible (after : After) (db : RecipientDb) (now : Int)
    {users : List UserRow} {teams : List TeamRow} {permissions : List PermissionRow}
    {actions : List String} (hfind : ANNOUNCEMENT_FIND ∈ actions)
    (husers : Answers users db.users fun user => notBlocked (db.blocked user.id))
    (hteams : Answers teams db.teams fun _ => true)
    (hpermissions : Answers permissions db.permissions fun row =>
      row.action.any fun action => actions.contains action)
    {row : AnnouncementRow} (hrow : row ∈ db.announcements)
    (live : notExpiredWhere after now row = true) {user : UserRow} (huser : user ∈ db.users) :
    (∃ scope ∈ announcementRecipients row.targeting (loadAllUserScopes db users teams)
        (holders (loadRoleGrants permissions) ANNOUNCEMENT_FIND), scope.userId = user.id) ↔
      db.blocked user.id ≠ some true ∧ RoleHolds db user.role ANNOUNCEMENT_FIND ∧
        row.id ∈ visibleAnnouncementIds after db.toTargetDb now (some user.id) := by
  have hactive : notBlocked (db.blocked user.id) = true ↔ db.blocked user.id ≠ some true := by
    cases db.blocked user.id with
    | none => decide
    | some blocked => cases blocked <;> decide
  have hrole : (loadUserScope db.toTargetDb user.id).roleId = user.role := by
    rw [loadUserScope_of_mem huser]
  rw [mem_visibleAnnouncementIds hrow live, ← hactive]
  constructor
  · intro h
    obtain ⟨scope, hscope, hid⟩ := h
    obtain ⟨hmem, hreader⟩ := List.mem_filter.mp hscope
    obtain ⟨hgrant, hvisible⟩ := Bool.and_eq_true_iff.mp hreader
    obtain ⟨active, same⟩ := mem_loadAllUserScopes hteams husers huser hid hmem
    rw [holdsGrant_iff hpermissions hfind, same.role, hrole] at hgrant
    rw [isAnnouncementVisible_congr same] at hvisible
    exact ⟨active, hgrant, hvisible⟩
  · intro h
    obtain ⟨active, hgrant, hvisible⟩ := h
    obtain ⟨scope, hmem, hid⟩ := exists_loadAllUserScopes teams husers huser active
    obtain ⟨_, same⟩ := mem_loadAllUserScopes hteams husers huser hid hmem
    rw [← hrole, ← same.role, ← holdsGrant_iff hpermissions hfind] at hgrant
    rw [← isAnnouncementVisible_congr same] at hvisible
    refine ⟨scope, List.mem_filter.mpr ⟨hmem, ?_⟩, hid⟩
    rw [hgrant, hvisible]
    rfl

/-- A member, a lead and a blocked member of one team, and an announcement for the team. -/
def sampleDb : RecipientDb where
  announcements := [⟨5, none, true, none, ⟨some "departments", none, some 3, [], none⟩⟩]
  pages := []
  spaces := []
  users := [⟨1, some 9, none, [3]⟩, ⟨2, some 9, none, []⟩, ⟨4, some 9, none, [3]⟩]
  teams := [⟨3, some 2⟩]
  announcement_ids := by
    unfold Targets.Numbered
    decide
  space_ids := by
    unfold Targets.Numbered
    decide
  user_ids := by decide
  blocked := fun userId => if userId = 4 then some true else none
  roleType := fun _ => some "member"
  permissions := [⟨some ANNOUNCEMENT_FIND, some 9⟩]

theorem mem_recipients_iff_visible_sample :
    (∃ scope ∈ announcementRecipients ⟨some "departments", none, some 3, [], none⟩
        (loadAllUserScopes sampleDb (sampleDb.users.filter fun user =>
          notBlocked (sampleDb.blocked user.id)) sampleDb.teams)
        (holders (loadRoleGrants sampleDb.permissions) ANNOUNCEMENT_FIND), scope.userId = 2) ↔
      sampleDb.blocked 2 ≠ some true ∧ RoleHolds sampleDb (some 9) ANNOUNCEMENT_FIND ∧
        5 ∈ visibleAnnouncementIds (fun _ _ => true) sampleDb.toTargetDb 0 (some 2) := by
  have hfind : ANNOUNCEMENT_FIND ∈ [ANNOUNCEMENT_FIND] := List.mem_singleton_self _
  have hteams : Answers sampleDb.teams sampleDb.teams fun _ => true := List.Perm.refl _
  have hpermissions : Answers sampleDb.permissions sampleDb.permissions fun row =>
      row.action.any fun action => [ANNOUNCEMENT_FIND].contains action := List.Perm.refl _
  have hrow : (⟨5, none, true, none, ⟨some "departments", none, some 3, [], none⟩⟩ :
      AnnouncementRow) ∈ sampleDb.announcements := List.mem_singleton_self _
  have huser : (⟨2, some 9, none, []⟩ : UserRow) ∈ sampleDb.users :=
    List.mem_cons_of_mem _ List.mem_cons_self
  exact mem_recipients_iff_visible (fun _ _ => true) sampleDb 0 hfind (List.Perm.refl _) hteams
    hpermissions hrow rfl huser

end Sinnlos.Cms.Readers

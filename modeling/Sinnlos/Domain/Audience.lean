import Mathlib.Data.List.Basic

/-!
# Announcement targeting

Whom an announcement is for. The criteria that are set restrict together, and
two rules close an announcement to everybody: the marker that a deletion
raises, and a restriction to departments with no target left.
-/

namespace Sinnlos.Domain

def AUDIENCE_DEPARTMENTS : String := "departments"

/-- A user's place in the organisation; the teams are those the user belongs to
or leads. -/
structure AudienceScope where
  roleId : Option Nat
  departmentId : Option Nat
  teamIds : List Nat
deriving DecidableEq

/-- The targeting fields of one announcement row, links by row id. -/
structure AnnouncementTargeting where
  audience : Option String
  department : Option Nat
  team : Option Nat
  audienceRoles : List Nat
  retargetRequired : Option Bool
deriving DecidableEq

def announcementNeedsRetarget (row : AnnouncementTargeting) : Bool :=
  if row.retargetRequired = some true then true
  else row.audience = some AUDIENCE_DEPARTMENTS && row.department.isNone && row.team.isNone

/-- The department criterion: a linked department restricts whatever `audience`
says. -/
def inDepartment (department : Option Nat) (scope : Option AudienceScope) : Bool :=
  match department with
  | none => true
  | some id => (scope.bind (·.departmentId)) = some id

/-- The team criterion: member or lead. -/
def inTeam (team : Option Nat) (scope : Option AudienceScope) : Bool :=
  match team with
  | none => true
  | some id => ((scope.map (·.teamIds)).getD []).contains id

def inRoles (roles : List Nat) (scope : Option AudienceScope) : Bool :=
  if roles.length > 0 then
    match scope.bind (·.roleId) with
    | none => false
    | some id => roles.any fun role => role = id
  else true

/-- Whether the announcement targets the scope; `none` is an anonymous caller. -/
def isAnnouncementTargetedTo (announcement : AnnouncementTargeting)
    (scope : Option AudienceScope) : Bool :=
  if announcementNeedsRetarget announcement then false
  else if !inDepartment announcement.department scope then false
  else if !inTeam announcement.team scope then false
  else if !inRoles announcement.audienceRoles scope then false
  else true

end Sinnlos.Domain

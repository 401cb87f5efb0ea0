import Sinnlos.Domain.Audience

/-!
# Recipients

The scopes of the active users, the roles that hold a read grant, and the
announcement rows with their flags read a second time.
-/

namespace Sinnlos.Cms

open Domain (AnnouncementTargeting AudienceScope AUDIENCE_DEPARTMENTS isAnnouncementTargetedTo
  announcementNeedsRetarget)

structure UserScope where
  roleId : Option Nat
  departmentId : Option Nat
  teamIds : List Nat
  ledTeamIds : List Nat
deriving DecidableEq

/-- One active user with the scope that the audience rules read. -/
structure RecipientScope extends UserScope where
  userId : Nat
  roleType : Option String
deriving DecidableEq

/-- Announcements read a team as member or lead. -/
def toAudienceScope (scope : UserScope) : AudienceScope where
  roleId := scope.roleId
  departmentId := scope.departmentId
  teamIds := scope.teamIds ++ scope.ledTeamIds

/-- Whether the user's role is one of the holders of a grant. -/
def holdsGrant (scope : UserScope) (roles : List Nat) : Bool :=
  match scope.roleId with
  | none => false
  | some role => roles.contains role

def isAnnouncementVisible (announcement : AnnouncementTargeting) (scope : UserScope) : Bool :=
  isAnnouncementTargetedTo announcement (some (toAudienceScope scope))

/-- The users whom an announcement reaches. -/
def announcementRecipients (announcement : AnnouncementTargeting) (scopes : List RecipientScope)
    (readers : List Nat) : List RecipientScope :=
  scopes.filter fun scope =>
    holdsGrant scope.toUserScope readers && isAnnouncementVisible announcement scope.toUserScope

/-! ## The flags read again -/

/-- Raise one row's flags to what either read says; a row that the second read
misses comes back restricted. -/
def raiseFlags (row : AnnouncementTargeting) (fresh : Option AnnouncementTargeting) :
    AnnouncementTargeting :=
  match fresh with
  | none => { row with retargetRequired := some true }
  | some now =>
      { row with
        audience :=
          if row.audience = some AUDIENCE_DEPARTMENTS ∨ now.audience = some AUDIENCE_DEPARTMENTS then
            some AUDIENCE_DEPARTMENTS
          else row.audience
        retargetRequired :=
          some (row.retargetRequired = some true || now.retargetRequired = some true) }

/-- A row that did not change between the reads keeps its audience. -/
theorem isAnnouncementTargetedTo_raiseFlags_self (row : AnnouncementTargeting)
    (scope : Option AudienceScope) :
    isAnnouncementTargetedTo (raiseFlags row (some row)) scope =
      isAnnouncementTargetedTo row scope := by
  have hneeds : announcementNeedsRetarget (raiseFlags row (some row)) =
      announcementNeedsRetarget row := by
    unfold announcementNeedsRetarget raiseFlags
    by_cases haudience : row.audience = some AUDIENCE_DEPARTMENTS <;>
      by_cases hmarker : row.retargetRequired = some true <;> simp [haudience, hmarker]
  unfold isAnnouncementTargetedTo
  rw [hneeds]
  rfl

end Sinnlos.Cms

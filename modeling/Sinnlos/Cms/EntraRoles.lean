import Mathlib.Data.List.Basic

/-!
# Roles from an identity provider

Which role a sign-in's tokens and groups give, and what is written of it to the
row of the user: the row's role, the role that a sign-in applied last, and who
owns the role.
-/

namespace Sinnlos.Cms.Entra

/-! ## Roles -/

inductive RoleType where
  | admin_role
  | editor
  | department_head
  | team_lead
  | member
  | guest
deriving DecidableEq, Repr

def RoleType.type : RoleType → String
  | .admin_role => "admin_role"
  | .editor => "editor"
  | .department_head => "department_head"
  | .team_lead => "team_lead"
  | .member => "member"
  | .guest => "guest"

theorem RoleType.type_injective {a b : RoleType} (h : a.type = b.type) : a = b := by
  cases a <;> cases b <;> first | rfl | exact absurd h (by decide)

/-- Every role type, most privileged first. -/
def ROLE_PRIVILEGE_ORDER : List RoleType :=
  [.admin_role, .editor, .department_head, .team_lead, .member, .guest]

def privilegeRank (role : RoleType) : Nat := ROLE_PRIVILEGE_ORDER.idxOf role

/-- The app roles, by their value in the `roles` claim. -/
def APP_ROLE_TABLE : List (String × RoleType) :=
  [("Intranet.Admin", .admin_role), ("Intranet.Editor", .editor),
    ("Intranet.DepartmentHead", .department_head), ("Intranet.TeamLead", .team_lead),
    ("Intranet.Member", .member), ("Intranet.Guest", .guest)]

inductive EntraSyncMode where
  | on
  | dryRun
deriving DecidableEq, Repr

inductive EntraDefaultRole where
  | member
  | guest
  | deny
deriving DecidableEq, Repr

structure EntraGroupRule where
  role : RoleType
  groupId : String
deriving DecidableEq

/-- The answer of a Graph call; why it failed decides nothing here. -/
inductive GraphResult (α : Type) where
  | ok (data : α)
  | failed
deriving DecidableEq

def GraphResult.data? {α : Type} : GraphResult α → Option α
  | .ok data => some data
  | .failed => none

/-! ## The role of a sign-in -/

inductive RoleResolution where
  | role (role : RoleType) (via : List String)
  | deny
  | unknown
deriving DecidableEq

structure RoleResolutionInput where
  /-- The `roles` claim of the verified token. -/
  claimRoles : List String
  /-- `userType` of `/me`. -/
  me : GraphResult (Option String)
  /-- The groups of the user; `none` when no group is configured. -/
  groups : Option (GraphResult (List String))
  groupRules : List EntraGroupRule
  defaultRole : EntraDefaultRole

structure RoleMatch where
  role : RoleType
  via : String
deriving DecidableEq

def claimMatches (claimRoles : List String) : List RoleMatch :=
  claimRoles.filterMap fun claim =>
    (APP_ROLE_TABLE.lookup claim).map fun role => ⟨role, "approle:" ++ claim⟩

/-- Group ids are GUIDs, so lower case is that of ASCII. -/
def groupMatches (groups : List String) (groupRules : List EntraGroupRule) : List RoleMatch :=
  (groupRules.filter fun rule => rule.groupId ∈ groups.map String.toLower).map fun rule =>
    ⟨rule.role, "group:" ++ rule.groupId⟩

/-- The highest privilege; of equals the first. -/
def highest (first : RoleType) (rest : List RoleMatch) : RoleType :=
  rest.foldl (fun best m => if privilegeRank m.role < privilegeRank best then m.role else best) first

def resolveEntraRole (input : RoleResolutionInput) : RoleResolution :=
  let groups : Option (List String) := input.groups.bind GraphResult.data?
  let found := claimMatches input.claimRoles ++
    ((groups.map fun ids => groupMatches ids input.groupRules).getD [])
  -- a configured group check that failed could have granted more
  if input.groupRules ≠ [] ∧ groups = none then .unknown
  else
    match found with
    | first :: rest =>
        let role := highest first.role rest
        .role role ((found.filter fun m => m.role = role).map RoleMatch.via).eraseDups
    | [] =>
        match input.me with
        | .failed => .unknown
        | .ok userType =>
            if userType = some "Guest" then .deny
            else
              match input.defaultRole with
              | .deny => .deny
              | .member => .role .member ["default"]
              | .guest => .role .guest ["default"]

/-! ## The write of a role -/

/-- The role fields of a user row. -/
structure UserRoleState where
  roleType : Option String
  roleSource : Option String
  entraAppliedRole : Option String
deriving DecidableEq

/-- Why a sign-in is refused. -/
structure Refusal where
  status : Nat
  error : String
deriving DecidableEq

def notAssigned : Refusal := ⟨403, "not_assigned"⟩
def unavailable : Refusal := ⟨503, "unavailable"⟩
def accountExists : Refusal := ⟨409, "account_exists"⟩
def blockedAccount : Refusal := ⟨403, "blocked"⟩

/-- The fields that a sign-in writes; `none` leaves a field as it is. -/
structure RoleUpdate where
  role : Option RoleType
  entraAppliedRole : Option (Option RoleType)
  roleSource : Option String
deriving DecidableEq

inductive RoleWriteDecision where
  | reject (refusal : Refusal) (audit : String)
  | create (role : RoleType) (audit : String)
  | update (data : RoleUpdate) (audit : String)
  | keep (audit : String)
deriving DecidableEq

/-- The highest role that dry-run creates a user with. -/
def DRY_RUN_ROLE_CAP : RoleType := .member

def capForDryRun (role : RoleType) : RoleType :=
  if privilegeRank role < privilegeRank DRY_RUN_ROLE_CAP then DRY_RUN_ROLE_CAP else role

/-- The decision for a new identity. -/
def decideNewRole (result : RoleResolution) (mode : EntraSyncMode) : RoleWriteDecision :=
  match result with
  | .unknown => .reject unavailable "-"
  | .deny => .reject notAssigned "-"
  | .role role _ =>
      match mode with
      | .on => .create role ("new->" ++ role.type)
      | .dryRun =>
          let capped := capForDryRun role
          .create capped
            (if capped = role then "new->" ++ capped.type
              else "new->" ++ capped.type ++ " would new->" ++ role.type)

/-- An admin changed the role since a sign-in last wrote it. -/
def UserRoleState.overridden (user : UserRoleState) : Bool :=
  decide (user.entraAppliedRole ≠ none ∧ user.entraAppliedRole ≠ user.roleType)

/-- What is written of an override: the intranet owns the role from now on. -/
def manualOverride : RoleUpdate where
  role := none
  entraAppliedRole := some none
  roleSource := some "manual"

/-- `decideRoleWrite` of an existing row that the provider owns. -/
def decideOwnedRole (user : UserRoleState) (result : RoleResolution) (mode : EntraSyncMode) :
    RoleWriteDecision :=
  let current := user.roleType.getD "none"
  if user.overridden then
    match mode with
    | .dryRun => .keep "would manual-override"
    | .on => .update manualOverride "manual-override"
  else
    match result with
    | .unknown => .keep "keep"
    | .deny => .reject notAssigned "keep"
    | .role target _ =>
        match mode with
        | .dryRun =>
            .keep (if current = target.type then "keep"
              else "would " ++ current ++ "->" ++ target.type)
        | .on =>
            if current ≠ target.type then
              .update ⟨some target, some (some target), none⟩ (current ++ "->" ++ target.type)
            else if user.entraAppliedRole ≠ some target.type then
              -- already right; after a hand-back nothing was recorded yet
              .update ⟨none, some (some target), none⟩ "keep"
            else .keep "keep"

/-- `source` marks the rows that the provider keeps in sync; with `admission` a deny refuses also
those whose role the intranet owns. -/
def decideRoleWrite (user : Option UserRoleState) (result : RoleResolution) (mode : EntraSyncMode)
    (source : String) (admission : Bool) : RoleWriteDecision :=
  match user with
  | none => decideNewRole result mode
  | some user =>
      let owned := user.roleSource = some source
      if admission = true ∧ result = .deny then
        .reject notAssigned (if owned then "keep" else "manual")
      else if owned then decideOwnedRole user result mode
      else .keep "manual"

/-- The role fields after a write. -/
def UserRoleState.write (user : UserRoleState) (data : RoleUpdate) : UserRoleState where
  roleType := data.role.elim user.roleType fun role => some role.type
  roleSource := data.roleSource.elim user.roleSource some
  entraAppliedRole := data.entraAppliedRole.elim user.entraAppliedRole (Option.map RoleType.type)

/-! ## What a decision can be -/

/-- The provider's sign-ins keep the role in sync. -/
def UserRoleState.Owned (user : UserRoleState) : Prop := user.roleSource = some "entra"

instance (user : UserRoleState) : Decidable user.Owned :=
  inferInstanceAs (Decidable (user.roleSource = some "entra"))

/-- The role is the one that a sign-in applied last, if any did since a hand-back. -/
def UserRoleState.Settled (user : UserRoleState) : Prop :=
  user.entraAppliedRole = none ∨ user.entraAppliedRole = user.roleType

variable {user : UserRoleState}

theorem UserRoleState.settled_iff : user.Settled ↔ user.overridden = false := by
  unfold Settled overridden
  rw [decide_eq_false_iff_not]
  tauto

variable {result : RoleResolution} {data : RoleUpdate} {audit : String}

/-- A sign-in that writes finds an owned row: it records an override, or it applies a role that
the provider gives to a settled row. -/
theorem update_cases {mode : EntraSyncMode}
    (h : decideRoleWrite (some user) result mode "entra" false = .update data audit) :
    mode = .on ∧ user.Owned ∧
      (user.overridden = true ∧ data = manualOverride ∨
        user.Settled ∧ ∃ target via, result = .role target via ∧
          data.entraAppliedRole = some (some target) ∧ data.roleSource = none ∧
          (data.role = some target ∨ data.role = none ∧ user.roleType = some target.type)) := by
  unfold decideRoleWrite at h
  simp only [Bool.false_eq_true, false_and, if_false] at h
  split at h
  · rename_i howned
    unfold decideOwnedRole at h
    dsimp only at h
    split at h
    · rename_i hover
      cases mode with
      | dryRun => cases h
      | on =>
          cases h
          exact ⟨rfl, howned, Or.inl ⟨hover, rfl⟩⟩
    · rename_i hover
      have hsettled : user.Settled :=
        UserRoleState.settled_iff.mpr (Bool.eq_false_iff.mpr hover)
      cases result with
      | unknown => cases h
      | deny => cases h
      | role target via =>
          cases mode with
          | dryRun => cases h
          | on =>
              refine ⟨rfl, howned, Or.inr ⟨hsettled, target, via, rfl, ?_⟩⟩
              dsimp only at h
              split at h
              · cases h
                exact ⟨rfl, rfl, Or.inl rfl⟩
              · rename_i hcurrent
                split at h
                · cases h
                  have heq : user.roleType.getD "none" = target.type := not_not.mp hcurrent
                  have hsome : user.roleType = some target.type := by
                    cases hrole : user.roleType with
                    | none =>
                        rw [hrole, Option.getD_none] at heq
                        cases target <;> exact absurd heq (by decide)
                    | some role =>
                        rw [hrole, Option.getD_some] at heq
                        rw [heq]
                  exact ⟨rfl, rfl, Or.inr ⟨rfl, hsome⟩⟩
                · cases h
  · cases h

/-- A new row gets at most the capped role in dry-run. -/
theorem create_dryRun {role : RoleType}
    (h : decideRoleWrite none result .dryRun "entra" false = .create role audit) :
    privilegeRank DRY_RUN_ROLE_CAP ≤ privilegeRank role := by
  unfold decideRoleWrite decideNewRole at h
  cases result with
  | unknown => cases h
  | deny => cases h
  | role target via =>
      cases h
      cases target <;> decide

/-- Recording an override touches no role. -/
theorem write_manualOverride (user : UserRoleState) :
    user.write manualOverride = ⟨user.roleType, some "manual", none⟩ := rfl

/-- A row that a sign-in applied a role to is settled. -/
theorem write_applied {target : RoleType} (happlied : data.entraAppliedRole = some (some target))
    (hsource : data.roleSource = none)
    (hrole : data.role = some target ∨ data.role = none ∧ user.roleType = some target.type) :
    user.write data = ⟨some target.type, user.roleSource, some target.type⟩ := by
  unfold UserRoleState.write
  rw [happlied, hsource]
  rcases hrole with h | h
  · rw [h]
    rfl
  · rw [h.1, h.2]
    rfl

end Sinnlos.Cms.Entra

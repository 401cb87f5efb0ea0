import Sinnlos.Cms.EntraSignInRuns

/-!
# The provider's role sync respects the intranet

What the runs of sign-ins and of admins keep: rows in sync, roles that an admin
set, and every row when the provider's answer is unknown, refused or only tried.
-/

namespace Sinnlos.Cms.Entra

open Runs

variable {π : Type} {settings : Settings}

/-! ## What a sign-in's step does to the rows -/

/-- The sign-in whose step an event is. -/
def Event.actor : Event π → Option Nat
  | .begin t _ | .advance t | .failure t | .sync t _ => some t
  | _ => none

/-- A sign-in under way decided to write `data` to a row of these role fields. -/
def Decides (settings : Settings) (s : State π) (event : Event π) (roles : UserRoleState)
    (data : RoleUpdate) : Prop :=
  ∃ t signIn audit, event.actor = some t ∧ s.signIns t = some signIn ∧
    signIn.request.decide settings (some roles) = .update data audit

/-- A sign-in under way creates a row. -/
def Creates (settings : Settings) (s : State π) (event : Event π) (row : UserRow π) : Prop :=
  ∃ t signIn role email audit, event.actor = some t ∧ s.signIns t = some signIn ∧
    signIn.request.decide settings none = .create role audit ∧
    row = signIn.request.newRow s.nextId role email

/-- The rows after a step of a sign-in: those before, changed, and new ones. -/
structure RowStep (settings : Settings) (s : State π) (event : Event π) (s' : State π)
    (change : UserRow π → UserRow π) (new : List (UserRow π)) : Prop where
  rows : s'.rows = s.rows.map change ++ new
  keeps : Keeps change
  roles : ∀ row ∈ s.rows, (change row).roles = row.roles ∨
    ∃ data, Decides settings s event row.roles data ∧ (change row).roles = row.roles.write data
  dryRun : settings.syncMode = .dryRun → ∀ row ∈ s.rows, change row = row
  new : ∀ row ∈ new, Creates settings s event row

variable {s s' : State π} {event : Event π} {userId t : Nat} {request : Request π}

/-- A step that leaves the rows alone. -/
theorem rowStep_same (rows : s'.rows = s.rows) : RowStep settings s event s' id [] := by
  constructor
  · rw [rows, List.map_id, List.append_nil]
  · exact keeps_id
  · exact fun _ _ => Or.inl rfl
  · exact fun _ _ _ => rfl
  · exact fun row hrow => absurd hrow List.not_mem_nil

/-- A step that changes one row, in sync mode. -/
theorem rowStep_modify {change : UserRow π → UserRow π}
    (rows : s'.rows = (s.modify userId change).rows) (keeps : Keeps change)
    (mode : settings.syncMode = .on)
    (roles : ∀ row ∈ s.rows, row.id = userId → (change row).roles = row.roles ∨
      ∃ data, Decides settings s event row.roles data ∧
        (change row).roles = row.roles.write data) :
    RowStep settings s event s' (changeAt userId change) [] := by
  constructor
  · rw [rows, List.append_nil]
    rfl
  · exact keeps.changeAt userId
  · intro row hrow
    unfold changeAt
    split
    · rename_i hid
      exact roles row hrow hid
    · exact Or.inl rfl
  · intro hdry
    rw [mode] at hdry
    cases hdry
  · exact fun row hrow => absurd hrow List.not_mem_nil

theorem mode_of_due {write : SyncWrite π} {created : Bool}
    (h : write.due settings request created = true) : settings.syncMode = .on := by
  cases write <;> exact (of_decide_eq_true h).1

variable {change : UserRoleState → UserRoleState} {row : UserRow π} {phase : Phase}
  {outcome : Phase × Effect π}

theorem ofSignIn_of_roleChange (h : event.roleChange = some (userId, change)) :
    event.ofSignIn = false := by
  cases event <;> first | rfl | cases h

theorem signIn_rows (h : Inv settings s) (hstep : Step settings s event s')
    (hsign : event.ofSignIn = true) : ∃ change new, RowStep settings s event s' change new := by
  rcases step_cases hstep with hbegin | htake | hsync | hadmin
  · obtain ⟨t, request, _, _, rfl⟩ := hbegin
    exact ⟨id, [], rowStep_same rfl⟩
  · obtain ⟨t, signIn, phase', effect, hevent, hsignIn, hout, rfl⟩ := htake
    have hactor : event.actor = some t := by
      rcases hevent with rfl | rfl
      · rfl
      · rfl
    cases hout with
    | plain | locked | decided | released => exact ⟨id, [], rowStep_same rfl⟩
    | inserted email role inserting absent =>
        obtain ⟨audit, hdecide⟩ := (h.fits t signIn hsignIn).creating email role inserting
        refine ⟨id, [signIn.request.newRow s.nextId role email], ?_, keeps_id, ?_, ?_, ?_⟩
        · rw [List.map_id]
          rfl
        · exact fun _ _ => Or.inl rfl
        · exact fun _ _ _ => rfl
        · intro row hrow
          rw [List.mem_singleton] at hrow
          exact ⟨t, signIn, role, email, audit, hactor, hsignIn, hdecide, hrow⟩
    | written userId data writing =>
        obtain ⟨row, hrow, hid, audit, hdecide⟩ := (h.fits t signIn hsignIn).decided userId data writing
        have hmode := (update_cases hdecide).1
        have hroles : ∀ other ∈ s.rows, other.id = userId →
            (other.write data).roles = other.roles ∨
              ∃ data', Decides settings s event other.roles data' ∧
                (other.write data).roles = other.roles.write data' := by
          intro other hother hotherId
          rw [h.distinct.eq hother hrow (hotherId.trans hid.symm)]
          exact Or.inr ⟨data, ⟨t, signIn, audit, hactor, hsignIn, hdecide⟩, rfl⟩
        exact ⟨_, [], rowStep_modify rfl (keeps_write data) hmode hroles⟩
  · obtain ⟨t, write, signIn, userId, created, _, _, _, hdue, rfl⟩ := hsync
    have hmode := mode_of_due hdue
    obtain ⟨user, change, hkeeps, hroles, hrun⟩ := sync_cases s write userId
    exact ⟨_, [], rowStep_modify (congrArg State.rows hrun) hkeeps hmode
      fun row _ _ => Or.inl (hroles row)⟩
  · obtain ⟨userId, change, hchange, _, _⟩ := hadmin
    rw [ofSignIn_of_roleChange hchange] at hsign
    cases hsign

/-! ## Rows in sync -/

/-- The role is one that a sign-in applied. -/
def UserRoleState.InSync (user : UserRoleState) : Prop :=
  user.Owned ∧ user.entraAppliedRole ≠ none ∧ user.entraAppliedRole = user.roleType

/-- What sign-ins keep of role fields: writes to such fields keep it, and new rows have it. -/
structure Stable (settings : Settings) (P : UserRoleState → Prop) : Prop where
  write : ∀ (request : Request π) (user : UserRoleState) (data : RoleUpdate) (audit : String),
    request.decide settings (some user) = .update data audit → P user → P (user.write data)
  create : ∀ role : RoleType, P ⟨some role.type, some "entra", some role.type⟩

/-- Rows without the property were there before, without it. -/
theorem Stable.run {P : UserRoleState → Prop} (stable : @Stable π settings P)
    {events : List (Event π)} (h : Inv settings s) (hrun : Run (Step settings) s events s')
    (hsign : ∀ event ∈ events, event.ofSignIn = true) :
    ∀ row' ∈ s'.rows, ¬ P row'.roles → ∃ row ∈ s.rows, row.id = row'.id ∧ ¬ P row.roles := by
  induction hrun with
  | refl s => exact fun row' hrow' hbad => ⟨row', hrow', rfl, hbad⟩
  | cons hstep _ ih =>
      rw [List.forall_mem_cons] at hsign
      intro row' hrow' hbad
      obtain ⟨mid, hmid, hid, hmidBad⟩ := ih (h.step hstep) hsign.2 row' hrow' hbad
      obtain ⟨change, new, hrows⟩ := signIn_rows h hstep hsign.1
      rw [hrows.rows, List.mem_append] at hmid
      rcases hmid with hold | hnew
      · obtain ⟨row, hrow, rfl⟩ := List.mem_map.mp hold
        refine ⟨row, hrow, (hrows.keeps.id row).symm.trans hid, ?_⟩
        intro hgood
        rcases hrows.roles row hrow with hsame | hwrite
        · exact hmidBad (hsame ▸ hgood)
        · obtain ⟨data, hdecides, hwritten⟩ := hwrite
          obtain ⟨t, signIn, audit, _, _, hdecide⟩ := hdecides
          rw [hwritten] at hmidBad
          exact hmidBad (stable.write signIn.request row.roles data audit hdecide hgood)
      · obtain ⟨t, signIn, role, email, audit, _, _, _, rfl⟩ := hrows.new mid hnew
        exact absurd (stable.create role) hmidBad

theorem stable_settled : @Stable π settings fun user => user.Owned ∧ user.Settled := by
  constructor
  · intro request user data audit hdecide hgood
    obtain ⟨_, _, hover | ⟨_, target, via, _, happlied, hsource, hrole⟩⟩ := update_cases hdecide
    · rw [UserRoleState.settled_iff.mp hgood.2] at hover
      cases hover.1
    · rw [write_applied happlied hsource hrole]
      exact ⟨hgood.1, Or.inr rfl⟩
  · exact fun role => ⟨rfl, Or.inr rfl⟩

theorem stable_inSync : @Stable π settings UserRoleState.InSync := by
  constructor
  · intro request user data audit hdecide hgood
    have hsettled : user.Settled := Or.inr hgood.2.2
    obtain ⟨_, _, hover | ⟨_, target, via, _, happlied, hsource, hrole⟩⟩ := update_cases hdecide
    · rw [UserRoleState.settled_iff.mp hsettled] at hover
      cases hover.1
    · rw [write_applied happlied hsource hrole]
      exact ⟨hgood.1, Option.some_ne_none _, rfl⟩
  · exact fun role => ⟨rfl, Option.some_ne_none _, rfl⟩

/-! ## Roles that an admin set -/

/-- The intranet owns the role, or the next sign-in finds that an admin changed it. -/
def UserRoleState.AdminSet (user : UserRoleState) : Prop :=
  ¬ user.Owned ∨ user.overridden = true

/-- An admin sets a role other than the one applied. -/
def Overrides (s : State π) (userId : Nat) : Event π → Prop
  | .setRole user _ => user = userId
  | .panelRole user role => user = userId ∧ ∀ row ∈ s.rows, row.id = userId →
      ¬ row.roles.Owned ∨ row.roles.entraAppliedRole ≠ none ∧ row.roles.entraAppliedRole ≠ role
  | _ => False

/-- An admin hands the role back, or sets an owned one back to the role applied. -/
def GivesBack (s : State π) (userId : Nat) : Event π → Prop
  | .handBack user => user = userId
  | .panelRole user role => user = userId ∧ ∃ row ∈ s.rows, row.id = userId ∧ row.roles.Owned ∧
      row.roles.entraAppliedRole = role
  | _ => False

theorem not_owned_manual (role applied : Option String) :
    ¬ (⟨role, some "manual", applied⟩ : UserRoleState).Owned := by
  have hne : ¬ some "manual" = some "entra" := by decide
  exact hne

/-- Nothing that a sign-in writes to such a row is a role. -/
theorem write_adminSet {user : UserRoleState} {data : RoleUpdate} {audit : String}
    (hdecide : request.decide settings (some user) = .update data audit) (h : user.AdminSet) :
    user.overridden = true ∧ user.write data = ⟨user.roleType, some "manual", none⟩ := by
  obtain ⟨_, howned, hover | happly⟩ := update_cases hdecide
  · rw [hover.2]
    exact ⟨hover.1, write_manualOverride user⟩
  · rcases h with hmanual | hover
    · exact absurd howned hmanual
    · rw [UserRoleState.settled_iff.mp happly.1] at hover
      cases hover

/-- A sign-in's step leaves the role of such a row as it is. -/
theorem adminSet_signIn (h : Inv settings s) (hstep : Step settings s event s')
    (hsign : event.ofSignIn = true) {row' : UserRow π} (hrow : row ∈ s.rows)
    (hrow' : row' ∈ s'.rows) (hid : row.id = userId) (hid' : row'.id = userId)
    (hset : row.roles.AdminSet) :
    row'.roles.roleType = row.roles.roleType ∧ row'.roles.AdminSet := by
  obtain ⟨change, new, hrows⟩ := signIn_rows h hstep hsign
  have hsame : row' = change row := by
    apply (h.step hstep).distinct.eq hrow'
    · rw [hrows.rows]
      exact List.mem_append_left _ (List.mem_map_of_mem hrow)
    · rw [hrows.keeps.id, hid, hid']
  rw [hsame]
  rcases hrows.roles row hrow with hroles | hwrite
  · rw [hroles]
    exact ⟨rfl, hset⟩
  · obtain ⟨data, hdecides, hwritten⟩ := hwrite
    obtain ⟨t, signIn, audit, _, _, hdecide⟩ := hdecides
    rw [hwritten, (write_adminSet hdecide hset).2]
    exact ⟨rfl, Or.inl (not_owned_manual _ _)⟩

/-- A row after a change by an admin. -/
theorem mem_modifyRoles (s : State π) (userId : Nat) (change : UserRoleState → UserRoleState)
    (h : row ∈ s.rows) :
    ∃ row' ∈ (s.modifyRoles userId change).rows, row'.id = row.id ∧
      row'.roles = if row.id = userId then change row.roles else row.roles := by
  refine ⟨_, List.mem_map_of_mem h, ?_⟩
  by_cases hid : row.id = userId
  · rw [if_pos hid, if_pos hid]
    exact ⟨rfl, rfl⟩
  · rw [if_neg hid, if_neg hid]
    exact ⟨rfl, rfl⟩

/-- Every other step is a change by an admin. -/
theorem step_roleChange (h : Step settings s event s') (hsign : ¬ event.ofSignIn = true) :
    ∃ user change, event.roleChange = some (user, change) ∧ s' = s.modifyRoles user change := by
  rcases step_cases h with hbegin | htake | hsync | hadmin
  · obtain ⟨t, request, rfl, _, _⟩ := hbegin
    exact absurd rfl hsign
  · obtain ⟨t, signIn, phase', effect, rfl | rfl, _, _, _⟩ := htake
    · exact absurd rfl hsign
    · exact absurd rfl hsign
  · obtain ⟨t, write, signIn, user, created, rfl, _, _, _, _⟩ := hsync
    exact absurd rfl hsign
  · obtain ⟨user, change, hchange, _, hs'⟩ := hadmin
    exact ⟨user, change, hchange, hs'⟩

/-- The user's row is one whose role an admin set. -/
def AdminSetAt (s : State π) (userId : Nat) : Prop :=
  ∃ row ∈ s.rows, row.id = userId ∧ row.roles.AdminSet

/-- An admin's change of any row leaves such a row one, unless it gives the role back. -/
theorem adminSet_roleChange {user : Nat} (hchange : event.roleChange = some (user, change))
    (hkept : ¬ GivesBack s userId event) (hset : AdminSetAt s userId) :
    AdminSetAt (s.modifyRoles user change) userId := by
  obtain ⟨row, hrow, hid, hadmin⟩ := hset
  obtain ⟨row', hrow', hid', hroles⟩ := mem_modifyRoles s user change hrow
  refine ⟨row', hrow', hid'.trans hid, ?_⟩
  rw [hroles]
  split
  · rename_i huser
    have hsame : user = userId := huser.symm.trans hid
    subst hsame
    cases event with
    | setRole u role =>
        cases hchange
        exact Or.inl (not_owned_manual _ _)
    | panelRole u role =>
        cases hchange
        by_cases howned : row.roles.Owned
        · have hne : row.roles.entraAppliedRole ≠ role :=
            fun heq => hkept ⟨rfl, row, hrow, hid, howned, heq⟩
          have hsome : row.roles.entraAppliedRole ≠ none := by
            rcases hadmin with hmanual | hover
            · exact absurd howned hmanual
            · exact (of_decide_eq_true hover).1
          exact Or.inr (decide_eq_true ⟨hsome, hne⟩)
        · exact Or.inl howned
    | handBack u =>
        cases hchange
        exact absurd rfl hkept
    | begin t request | advance t | failure t | sync t write => cases hchange
  · exact hadmin

theorem adminSet_step (h : Inv settings s) (hstep : Step settings s event s')
    (hkept : ¬ GivesBack s userId event) (hset : AdminSetAt s userId) : AdminSetAt s' userId := by
  by_cases hsign : event.ofSignIn = true
  · obtain ⟨row, hrow, hid, hadmin⟩ := hset
    obtain ⟨change, new, hrows⟩ := signIn_rows h hstep hsign
    have hmem : change row ∈ s'.rows := by
      rw [hrows.rows]
      exact List.mem_append_left _ (List.mem_map_of_mem hrow)
    have hchangeId : (change row).id = userId := (hrows.keeps.id row).trans hid
    exact ⟨change row, hmem, hchangeId,
      (adminSet_signIn h hstep hsign hrow hmem hid hchangeId hadmin).2⟩
  · obtain ⟨user, change, hchange, rfl⟩ := step_roleChange hstep hsign
    exact adminSet_roleChange hchange hkept hset

/-- Setting a role other than the one applied makes the row one whose role an admin set. -/
theorem adminSet_of_overrides (hstep : Step settings s event s')
    (hover : Overrides s userId event) (hrow : ∃ row ∈ s.rows, row.id = userId) :
    AdminSetAt s' userId := by
  obtain ⟨row, hrow, hid⟩ := hrow
  have hsign : ¬ event.ofSignIn = true := by
    cases event <;> first | exact Bool.false_ne_true | cases hover
  obtain ⟨user, change, hchange, rfl⟩ := step_roleChange hstep hsign
  obtain ⟨row', hrow', hid', hroles⟩ := mem_modifyRoles s user change hrow
  refine ⟨row', hrow', hid'.trans hid, ?_⟩
  rw [hroles]
  cases event with
  | setRole u role =>
      cases hchange
      rw [if_pos (hid.trans hover.symm)]
      exact Or.inl (not_owned_manual _ _)
  | panelRole u role =>
      cases hchange
      rw [if_pos (hid.trans hover.1.symm)]
      rcases hover.2 row hrow hid with hmanual | hne
      · exact Or.inl hmanual
      · exact Or.inr (decide_eq_true hne)
  | handBack u | begin t request | advance t | failure t | sync t write => cases hover

/-! ## The laws of the role sync -/

/-- Sign-ins alone, in sync mode, keep owned rows that are settled, or in sync, so; and every row
they make is in sync. -/
def KeepsOwned (π : Type) (settings : Settings) : Prop :=
  ∀ (s s' : State π) (events : List (Event π)), Reachable Initial (Step settings) s →
    Run (Step settings) s events s' → (∀ event ∈ events, event.ofSignIn = true) →
    (∀ row ∈ s.rows, ∀ row' ∈ s'.rows, row'.id = row.id →
      (row.roles.Owned ∧ row.roles.Settled → row'.roles.Owned ∧ row'.roles.Settled) ∧
      (row.roles.InSync → row'.roles.InSync)) ∧
    ∀ row' ∈ s'.rows, (∀ row ∈ s.rows, row.id ≠ row'.id) → row'.roles.InSync

/-- After an admin set a role other than the one applied, no sign-in changes the role until an admin
gives it back. -/
def KeepsAdminRoles (π : Type) (settings : Settings) : Prop :=
  ∀ (s s₁ s' s'' : State π) (set event : Event π) (events : List (Event π)) (userId : Nat),
    Reachable Initial (Step settings) s → (∃ row ∈ s.rows, row.id = userId) →
    Step settings s set s₁ → Overrides s userId set →
    Run (fun a e b => Step settings a e b ∧ ¬ GivesBack a userId e) s₁ events s' →
    Step settings s' event s'' → event.ofSignIn = true →
    ∀ row' ∈ s'.rows, ∀ row'' ∈ s''.rows, row'.id = userId → row''.id = userId →
      row''.roles.roleType = row'.roles.roleType

/-- A sign-in of unknown role makes no row and changes no role; it writes role fields only to record
that an admin changed the role. -/
def UnknownKeepsRoles (π : Type) (settings : Settings) : Prop :=
  ∀ (s s' : State π) (event : Event π) (t : Nat) (signIn : SignIn π),
    Reachable Initial (Step settings) s → event.actor = some t → s.signIns t = some signIn →
    signIn.request.resolution settings = .unknown → Step settings s event s' →
    ∀ row' ∈ s'.rows, ∃ row ∈ s.rows, row.id = row'.id ∧
      (row'.roles = row.roles ∨ row.roles.Owned ∧ row.roles.overridden = true ∧
        row'.roles = ⟨row.roles.roleType, some "manual", none⟩)

/-- A sign-in that is refused in the end changed no row on its way. -/
def RefusalChangesNothing (π : Type) (settings : Settings) : Prop :=
  ∀ (s s₁ s' : State π) (event : Event π) (events : List (Event π)) (t : Nat) (request : Request π)
    (refusal : Refusal), Reachable Initial (Step settings) s → event.actor = some t →
    Step settings s event s₁ → Run (Step settings) s₁ events s' →
    s'.signIns t = some ⟨request, .refused refusal⟩ → s₁.rows = s.rows

/-- No identity has two rows, and that of an admitted sign-in has one. -/
def OneRowEach (π : Type) (settings : Settings) : Prop :=
  ∀ s : State π, Reachable Initial (Step settings) s →
    (∀ a ∈ s.rows, ∀ b ∈ s.rows, a.identity ≠ none → a.identity = b.identity → a = b) ∧
    ∀ t request userId created, s.signIns t = some ⟨request, .ok userId created⟩ →
      ∃ row ∈ s.rows, row.identity = some request.identity ∧
        ∀ other ∈ s.rows, other.identity = some request.identity → other = row

/-- In dry-run the sign-ins leave every row as it is, and their new rows get member at most. -/
def DryRunAddsOnly (π : Type) (settings : Settings) : Prop :=
  settings.syncMode = .dryRun → ∀ (s s' : State π) (events : List (Event π)),
    Reachable Initial (Step settings) s → Run (Step settings) s events s' →
    (∀ event ∈ events, event.ofSignIn = true) →
    ∃ new, s'.rows = s.rows ++ new ∧ ∀ row ∈ new, ∃ role : RoleType,
      row.roles.roleType = some role.type ∧ privilegeRank .member ≤ privilegeRank role

theorem keepsOwned (π : Type) (settings : Settings) : KeepsOwned π settings := by
  intro s s' events hreach hrun hsign
  have hinv : Inv settings s := inv_of_reachable hreach
  have hkept {P : UserRoleState → Prop} (stable : @Stable π settings P) {row row' : UserRow π}
      (hrow : row ∈ s.rows) (hrow' : row' ∈ s'.rows) (hid : row'.id = row.id)
      (hgood : P row.roles) : P row'.roles := by
    by_contra hbad
    obtain ⟨old, hold, holdId, holdBad⟩ := stable.run hinv hrun hsign row' hrow' hbad
    rw [hinv.distinct.eq hold hrow (holdId.trans hid)] at holdBad
    exact holdBad hgood
  constructor
  · intro row hrow row' hrow' hid
    exact ⟨hkept stable_settled hrow hrow' hid, hkept stable_inSync hrow hrow' hid⟩
  · intro row' hrow' hnew
    by_contra hbad
    obtain ⟨old, hold, holdId, _⟩ := stable_inSync.run hinv hrun hsign row' hrow' hbad
    exact hnew old hold holdId

theorem keepsAdminRoles (π : Type) (settings : Settings) : KeepsAdminRoles π settings := by
  intro s s₁ s' s'' set event events userId hreach hrow hset hover hrun hstep hsign row' hrow' row''
    hrow'' hid' hid''
  have hboth : Inv settings s' ∧ AdminSetAt s' userId := by
    have hstart : Inv settings s₁ ∧ AdminSetAt s₁ userId :=
      ⟨(inv_of_reachable hreach).step hset, adminSet_of_overrides hset hover hrow⟩
    exact hrun.invariant (P := fun s : State π => Inv settings s ∧ AdminSetAt s userId)
      (fun a e b hab h => ⟨h.1.step hab.1, adminSet_step h.1 hab.1 hab.2 h.2⟩) hstart
  obtain ⟨hinv, row, hmem, hid, hadmin⟩ := hboth
  have hsame : row' = row := hinv.distinct.eq hrow' hmem (hid'.trans hid.symm)
  rw [hsame]
  exact (adminSet_signIn hinv hstep hsign hmem hrow'' hid hid'' hadmin).1

theorem ofSignIn_of_actor (h : event.actor = some t) : event.ofSignIn = true := by
  cases event <;> first | rfl | cases h

theorem unknownKeepsRoles (π : Type) (settings : Settings) : UnknownKeepsRoles π settings := by
  intro s s' event t signIn hreach hactor hsignIn hunknown hstep row' hrow'
  obtain ⟨change, new, hrows⟩ :=
    signIn_rows (inv_of_reachable hreach) hstep (ofSignIn_of_actor hactor)
  have hself {t' : Nat} {signIn' : SignIn π} (hactor' : event.actor = some t')
      (hsignIn' : s.signIns t' = some signIn') : signIn' = signIn := by
    have ht : t' = t := Option.some.inj (hactor'.symm.trans hactor)
    subst ht
    exact Option.some.inj (hsignIn'.symm.trans hsignIn)
  rw [hrows.rows, List.mem_append] at hrow'
  rcases hrow' with hold | hnew
  · obtain ⟨row, hrow, rfl⟩ := List.mem_map.mp hold
    refine ⟨row, hrow, (hrows.keeps.id row).symm, ?_⟩
    rcases hrows.roles row hrow with hsame | hwrite
    · exact Or.inl hsame
    · obtain ⟨data, ⟨t', signIn', audit, hactor', hsignIn', hdecide⟩, hwritten⟩ := hwrite
      cases hself hactor' hsignIn'
      obtain ⟨_, howned, hover | ⟨_, target, via, happly, _⟩⟩ := update_cases hdecide
      · rw [hwritten, hover.2]
        exact Or.inr ⟨howned, hover.1, write_manualOverride row.roles⟩
      · rw [hunknown] at happly
        cases happly
  · obtain ⟨t', signIn', role, email, audit, hactor', hsignIn', hdecide, _⟩ := hrows.new row' hnew
    cases hself hactor' hsignIn'
    unfold Request.decide at hdecide
    rw [hunknown] at hdecide
    cases hdecide

/-! ## Refused sign-ins -/

/-- A sign-in past its write is not refused any more. -/
def Phase.pastWrite : Phase → Bool
  | .readingBack true => true
  | .ok _ _ => true
  | .threw => true
  | _ => false

/-- Sign-in `t` is past its write. -/
def PastWrite (s : State π) (t : Nat) : Prop :=
  ∃ signIn, s.signIns t = some signIn ∧ signIn.phase.pastWrite = true

theorem advance_pastWrite (h : advance settings s request phase = some outcome)
    (hpast : phase.pastWrite = true) : outcome.1.pastWrite = true := by
  cases phase with
  | readingBack created =>
      cases created with
      | false => cases hpast
      | true =>
          dsimp only [advance] at h
          split at h
          · cases h
            rfl
          · cases h
            rfl
  | ok userId created => cases h
  | threw => cases h
  | _ => cases hpast

theorem failing_pastWrite (h : failing phase = some outcome) (hpast : phase.pastWrite = true) :
    outcome.1.pastWrite = true := by
  cases phase with
  | readingBack created =>
      cases h
      rfl
  | ok userId created => cases h
  | threw => cases h
  | _ => cases hpast

/-- The sign-ins after a step of one of them. -/
theorem signIns_take (s : State π) (t u : Nat) (request : Request π) (outcome : Phase × Effect π) :
    (s.take t request outcome).signIns u =
      if u = t then some ⟨request, outcome.1⟩ else s.signIns u := by
  have happly := signIns_apply s t outcome.2
  unfold State.take State.setSignIn
  dsimp only
  rw [happly, Function.update_apply]

theorem pastWrite_step (hstep : Step settings s event s') (hpast : PastWrite s t) :
    PastWrite s' t := by
  obtain ⟨signIn, hsignIn, hphase⟩ := hpast
  have htake {u : Nat} {other : SignIn π} {outcome : Phase × Effect π}
      (hother : s.signIns u = some other)
      (hout : other.phase.pastWrite = true → outcome.1.pastWrite = true) :
      PastWrite (s.take u other.request outcome) t := by
    by_cases heq : t = u
    · subst heq
      cases hsignIn.symm.trans hother
      exact ⟨_, (signIns_take s t t signIn.request outcome).trans (if_pos rfl), hout hphase⟩
    · exact ⟨signIn, (signIns_take s u t other.request outcome).trans
        ((if_neg heq).trans hsignIn), hphase⟩
  cases event with
  | begin u request =>
      dsimp only [Step, next] at hstep
      split at hstep
      · rename_i hnone
        cases hstep
        have hne : t ≠ u := by
          intro heq
          rw [heq, hnone] at hsignIn
          cases hsignIn
        exact ⟨signIn, (Function.update_of_ne hne _ _).trans hsignIn, hphase⟩
      · cases hstep
  | advance u =>
      obtain ⟨other, hother, hmap⟩ := Option.bind_eq_some_iff.mp hstep
      obtain ⟨outcome, hout, rfl⟩ := Option.map_eq_some_iff.mp hmap
      exact htake hother (advance_pastWrite hout)
  | failure u =>
      obtain ⟨other, hother, hmap⟩ := Option.bind_eq_some_iff.mp hstep
      obtain ⟨outcome, hout, rfl⟩ := Option.map_eq_some_iff.mp hmap
      exact htake hother (failing_pastWrite hout)
  | sync u write =>
      rcases step_cases hstep with hbegin | htaken | hsync | hadmin
      · obtain ⟨_, _, heq, _, _⟩ := hbegin
        cases heq
      · obtain ⟨_, _, _, _, heq | heq, _, _, _⟩ := htaken
        · cases heq
        · cases heq
      · obtain ⟨_, write', _, userId, _, _, _, _, _, rfl⟩ := hsync
        obtain ⟨user, change, _, _, hrun⟩ := sync_cases s write' userId
        rw [hrun]
        exact ⟨signIn, hsignIn, hphase⟩
      · obtain ⟨_, _, hchange, _⟩ := hadmin
        cases hchange
  | setRole userId role | panelRole userId role | handBack userId =>
      obtain ⟨user, change, _, rfl⟩ := step_roleChange hstep Bool.false_ne_true
      exact ⟨signIn, hsignIn, hphase⟩

/-- A step of a sign-in that changes rows is its write. -/
theorem pastWrite_of_rows (hstep : Step settings s event s') (hactor : event.actor = some t) :
    s'.rows = s.rows ∨ PastWrite s' t := by
  rcases step_cases hstep with hbegin | htake | hsync | hadmin
  · obtain ⟨u, request, _, _, rfl⟩ := hbegin
    exact Or.inl rfl
  · obtain ⟨u, signIn, phase', effect, hevent, hsignIn, hout, rfl⟩ := htake
    have hu : t = u := by
      rcases hevent with rfl | rfl
      · exact (Option.some.inj hactor).symm
      · exact (Option.some.inj hactor).symm
    have hself := (signIns_take s u t signIn.request (phase', effect)).trans (if_pos hu)
    cases hout with
    | plain | locked | decided | released => exact Or.inl rfl
    | inserted | written => exact Or.inr ⟨_, hself, rfl⟩
  · obtain ⟨u, write, signIn, userId, created, rfl, hsignIn, hphase, _, rfl⟩ := hsync
    obtain ⟨user, change, _, _, hrun⟩ := sync_cases s write userId
    have hu : u = t := Option.some.inj hactor
    subst hu
    rw [hrun]
    exact Or.inr ⟨signIn, hsignIn, by rw [hphase]; rfl⟩
  · obtain ⟨user, change, hchange, _, _⟩ := hadmin
    have hsign := ofSignIn_of_roleChange hchange
    rw [ofSignIn_of_actor hactor] at hsign
    cases hsign

theorem refusalChangesNothing (π : Type) (settings : Settings) :
    RefusalChangesNothing π settings := by
  intro s s₁ s' event events t request refusal _ hactor hstep hrun hrefused
  rcases pastWrite_of_rows hstep hactor with hsame | hpast
  · exact hsame
  · have hend : PastWrite s' t := hrun.invariant (P := fun s => PastWrite s t)
      (fun _ _ _ hab h => pastWrite_step hab h) hpast
    obtain ⟨signIn, hsignIn, hphase⟩ := hend
    rw [hrefused] at hsignIn
    cases hsignIn
    cases hphase

theorem oneRowEach (π : Type) (settings : Settings) : OneRowEach π settings := by
  intro s hreach
  have hinv : Inv settings s := inv_of_reachable hreach
  have hunique : ∀ a ∈ s.rows, ∀ b ∈ s.rows, a.identity ≠ none → a.identity = b.identity →
      a = b := by
    intro a ha b hb hsome heq
    exact hinv.distinct.eq ha hb (hinv.distinct.identities a ha b hb hsome heq)
  constructor
  · exact hunique
  · intro t request userId created hsignIn
    obtain ⟨row, hrow, _, hidentity⟩ := (hinv.fits t _ hsignIn).user userId rfl
    refine ⟨row, hrow, hidentity, ?_⟩
    intro other hother hsame
    exact hunique other hother row hrow (hsame ▸ Option.some_ne_none _)
      (hsame.trans hidentity.symm)

theorem dryRunAddsOnly (π : Type) (settings : Settings) : DryRunAddsOnly π settings := by
  intro hmode s s' events hreach hrun hsign
  have hinv : Inv settings s := inv_of_reachable hreach
  clear hreach
  induction hrun with
  | refl s => exact ⟨[], (List.append_nil _).symm, fun row hrow => absurd hrow List.not_mem_nil⟩
  | @cons s m s' event events hstep _ ih =>
      rw [List.forall_mem_cons] at hsign
      obtain ⟨later, hlater, hlaterRoles⟩ := ih hsign.2 (hinv.step hstep)
      obtain ⟨change, new, hrows⟩ := signIn_rows hinv hstep hsign.1
      have hsame : s.rows.map change = s.rows := by
        rw [List.map_congr_left (hrows.dryRun hmode), List.map_id']
      refine ⟨new ++ later, ?_, ?_⟩
      · rw [hlater, hrows.rows, hsame, List.append_assoc]
      · intro row hrow
        rcases List.mem_append.mp hrow with hnew | hold
        · obtain ⟨t, signIn, role, email, audit, _, _, hdecide, rfl⟩ := hrows.new row hnew
          unfold Request.decide at hdecide
          rw [hmode] at hdecide
          exact ⟨role, rfl, create_dryRun hdecide⟩
        · exact hlaterRoles row hold

/-- The role sync respects the intranet. -/
theorem entra_role_sync_respects (π : Type) (settings : Settings) :
    KeepsOwned π settings ∧ KeepsAdminRoles π settings ∧ UnknownKeepsRoles π settings ∧
      RefusalChangesNothing π settings ∧ OneRowEach π settings ∧ DryRunAddsOnly π settings :=
  ⟨keepsOwned π settings, keepsAdminRoles π settings, unknownKeepsRoles π settings,
    refusalChangesNothing π settings, oneRowEach π settings, dryRunAddsOnly π settings⟩

/-- Sync mode, the default role `member`, and every role seeded. -/
def syncOn : Settings := ⟨.on, .member, [], false, false, ROLE_PRIVILEGE_ORDER⟩

/-- One user of these role fields. -/
def oneUser (roles : UserRoleState) : State Unit where
  rows := [⟨1, some ("t", "o"), "ada@example.org", false, roles, ()⟩]
  nextId := 2
  lockedBy := fun _ => none
  signIns := fun _ => none

/-- The user's sign-in with these app roles, without an answer of Graph. -/
def signInOf (claimRoles : List String) : Request Unit where
  identity := ("t", "o")
  claimRoles := claimRoles
  me := .failed
  groups := none
  email := some "ada@example.org"
  profile := ()

/-- That sign-in, from its start to the commit of its write. -/
def signingIn (claimRoles : List String) : List (Event Unit) :=
  [.begin 0 (signInOf claimRoles), .advance 0, .advance 0, .advance 0, .advance 0]

theorem initial_oneUser (roles : UserRoleState) : Initial (oneUser roles) := by
  constructor
  · exact List.nodup_singleton 1
  · intro row hrow
    rw [List.mem_singleton.mp hrow]
    exact Nat.lt_succ_self 1
  · intro a ha b hb _ _
    rw [List.mem_singleton.mp ha, List.mem_singleton.mp hb]
  · exact fun _ => rfl
  · exact fun _ => rfl

theorem run_of_roles {roles : UserRoleState} {events : List (Event Unit)}
    {fields : List UserRoleState}
    (h : (follow (next syncOn) (oneUser roles) events).map (fun s => s.rows.map UserRow.roles) =
      some fields) :
    ∃ s, Run (Step syncOn) (oneUser roles) events s ∧ s.rows.map UserRow.roles = fields := by
  obtain ⟨s, hfollow, hfields⟩ := Option.map_eq_some_iff.mp h
  exact ⟨s, run_of_follow hfollow, hfields⟩

/-- A sign-in of unknown role records an override; and a role that an admin set and then set back
to the one applied follows the provider again, with no hand-back. -/
theorem sign_in_after_override :
    ((signInOf []).resolution syncOn = .unknown ∧
      ∃ s, Run (Step syncOn) (oneUser ⟨some "editor", some "entra", some "member"⟩)
        (signingIn []) s ∧ s.rows.map UserRow.roles = [⟨some "editor", some "manual", none⟩]) ∧
    ∃ s, Run (Step syncOn) (oneUser ⟨some "member", some "entra", some "member"⟩)
      ([.panelRole 1 (some "editor"), .panelRole 1 (some "member")] ++ signingIn ["Intranet.Guest"])
        s ∧ s.rows.map UserRow.roles = [⟨some "guest", some "entra", some "guest"⟩] := by
  refine ⟨⟨by decide, run_of_roles (by decide +kernel)⟩, run_of_roles (by decide +kernel)⟩

/-- An account in sync stays so when its sign-in makes it an editor. -/
theorem entra_role_sync_respects_editor :
    ∃ s, Run (Step syncOn) (oneUser ⟨some "member", some "entra", some "member"⟩)
      (signingIn ["Intranet.Editor"]) s ∧ ∀ row ∈ s.rows, row.id = 1 → row.roles.InSync := by
  obtain ⟨s, hrun, _⟩ := @run_of_roles ⟨some "member", some "entra", some "member"⟩
    (signingIn ["Intranet.Editor"]) [⟨some "editor", some "entra", some "editor"⟩]
    (by decide +kernel)
  refine ⟨s, hrun, ?_⟩
  have hkept := (entra_role_sync_respects Unit syncOn).1 _ s _
    (Reachable.refl Initial (initial_oneUser _)) hrun (by decide)
  intro row hrow hid
  exact ((hkept.1 _ List.mem_cons_self row hrow hid).2
    ⟨rfl, Option.some_ne_none _, rfl⟩)

end Sinnlos.Cms.Entra

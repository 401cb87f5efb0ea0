import Mathlib.Data.List.Nodup
import Sinnlos.Cms.EntraSignIns

/-!
# Who owns a role, over all runs

While a sign-in holds a row's lock its decision is one about the row as it is.
So sign-ins alone keep every row that the provider owns settled, and none of them
takes back a role that an admin set.
-/

namespace Sinnlos.Cms.Entra

open Runs

variable {π : Type} {settings : Settings}

/-! ## What one step of a sign-in does -/

/-- The row whose lock a phase holds. -/
def Phase.holds : Phase → Option Nat
  | .deciding userId => some userId
  | .writing userId _ => some userId
  | _ => none

/-- The row that a phase is about. -/
def Phase.user : Phase → Option Nat
  | .locking userId => some userId
  | .deciding userId => some userId
  | .writing userId _ => some userId
  | .ok userId _ => some userId
  | _ => none

/-- The row of a user bears this identity. -/
def State.HasUser (s : State π) (identity : String × String) (userId : Nat) : Prop :=
  ∃ row ∈ s.rows, row.id = userId ∧ row.identity = some identity

/-- Everything that a step of a sign-in can be. -/
inductive Outcome (settings : Settings) (s : State π) (request : Request π) (phase : Phase) :
    Phase → Effect π → Prop
  | plain (phase' : Phase) (before : phase.holds = none) (after : phase'.holds = none)
      (user : ∀ userId, phase'.user = some userId → s.HasUser request.identity userId)
      (creating : ∀ email role, phase' = .inserting email role →
        ∃ audit, request.decide settings none = .create role audit) :
      Outcome settings s request phase phase' .nothing
  | locked (userId : Nat) (waiting : phase = .locking userId) (free : s.lockedBy userId = none) :
      Outcome settings s request phase (.deciding userId) (.lock userId)
  | decided (row : UserRow π) (data : RoleUpdate) (audit : String)
      (deciding : phase = .deciding row.id) (mem : row ∈ s.rows)
      (decision : request.decide settings (some row.roles) = .update data audit) :
      Outcome settings s request phase (.writing row.id data) .nothing
  | released (userId : Nat) (phase' : Phase) (before : phase.holds = some userId)
      (after : phase'.holds = none) (user : phase'.user = none ∨ phase' = .ok userId false)
      (creating : ∀ email role, phase' ≠ .inserting email role) :
      Outcome settings s request phase phase' (.release userId)
  | inserted (email : String) (role : RoleType) (inserting : phase = .inserting email role)
      (absent : s.findIdentity request.identity = none) :
      Outcome settings s request phase (.readingBack true)
        (.insert (request.newRow s.nextId role email))
  | written (userId : Nat) (data : RoleUpdate) (writing : phase = .writing userId data) :
      Outcome settings s request phase (.ok userId false) (.write userId data)

variable {s s' : State π} {row : UserRow π} {request : Request π} {phase phase' : Phase}
  {effect : Effect π} {t : Nat} {signIn : SignIn π}

theorem findIdentity_spec {identity : String × String} (h : s.findIdentity identity = some row) :
    row ∈ s.rows ∧ row.identity = some identity := by
  constructor
  · exact List.mem_of_find?_eq_some h
  · simpa using List.find?_some h

variable {userId : Nat} {email : String} {event : Event π}

theorem findUser_spec (h : s.findUser userId = some row) : row ∈ s.rows ∧ row.id = userId := by
  constructor
  · exact List.mem_of_find?_eq_some h
  · simpa using List.find?_some h

/-- A phase that ends the sign-in without a row. -/
theorem Outcome.ended (before : phase.holds = none) (after : phase'.holds = none)
    (user : phase'.user = none) (creating : ∀ email role, phase' ≠ .inserting email role) :
    Outcome settings s request phase phase' .nothing := by
  apply Outcome.plain phase' before after
  · intro userId h
    rw [user] at h
    cases h
  · exact fun email role h => absurd h (creating email role)

theorem admit_outcome {created : Bool} (before : phase.holds = none)
    (found : s.findIdentity request.identity = some row) :
    Outcome settings s request phase (admitRow row created) .nothing := by
  obtain ⟨hmem, hidentity⟩ := findIdentity_spec found
  have hrow : s.HasUser request.identity row.id := ⟨row, hmem, rfl, hidentity⟩
  unfold admitRow
  split
  · apply Outcome.plain _ before rfl
    · intro userId h
      cases h
      exact hrow
    · intro email role h
      cases h
  · split
    · exact Outcome.ended before rfl rfl fun email role h => by cases h
    · apply Outcome.plain _ before rfl
      · intro userId h
        cases h
        exact hrow
      · intro email role h
        cases h

theorem createIdentity_outcome (before : phase.holds = none) :
    Outcome settings s request phase (createIdentity settings request email) .nothing := by
  unfold createIdentity
  split
  · exact Outcome.ended before rfl rfl fun email role h => by cases h
  · rename_i role audit hdecide
    split
    · apply Outcome.plain _ before rfl
      · intro userId h
        cases h
      · intro email' role' h
        cases h
        exact ⟨audit, hdecide⟩
    · exact Outcome.ended before rfl rfl fun email role h => by cases h
  · exact Outcome.ended before rfl rfl fun email role h => by cases h

/-- What the decision on an existing row leads to. -/
theorem decideUser_cases {request : Request π} (row : UserRow π) :
    (∃ data audit, request.decide settings (some row.roles) = .update data audit ∧
      decideUser settings request row = .writing row.id data) ∨
    (∃ refusal, decideUser settings request row = .refused refusal) ∨
    decideUser settings request row = .ok row.id false := by
  unfold decideUser
  split
  · exact Or.inr (Or.inl ⟨_, rfl⟩)
  · rename_i data audit hdecide
    split
    · split
      · exact Or.inl ⟨data, audit, hdecide, rfl⟩
      · exact Or.inr (Or.inl ⟨_, rfl⟩)
    · exact Or.inl ⟨data, audit, hdecide, rfl⟩
  · exact Or.inr (Or.inr rfl)

theorem advance_outcome (h : advance settings s request phase = some (phase', effect)) :
    Outcome settings s request phase phase' effect := by
  cases phase with
  | looking =>
      dsimp only [advance] at h
      split at h
      · rename_i row hfind
        cases h
        exact admit_outcome rfl hfind
      · split at h
        · cases h
          exact Outcome.ended rfl rfl rfl fun email role h => by cases h
        · cases h
          exact Outcome.ended rfl rfl rfl fun email role h => by cases h
  | checkingEmail email =>
      dsimp only [advance] at h
      split at h
      · cases h
        exact Outcome.ended rfl rfl rfl fun email role h => by cases h
      · cases h
        exact createIdentity_outcome rfl
  | lookingAgain =>
      dsimp only [advance] at h
      split at h
      · rename_i row hfind
        cases h
        exact admit_outcome rfl hfind
      · cases h
        exact Outcome.ended rfl rfl rfl fun email role h => by cases h
  | inserting email role =>
      dsimp only [advance] at h
      split at h
      · cases h
        exact Outcome.ended rfl rfl rfl fun email role h => by cases h
      · rename_i habsent
        cases h
        exact Outcome.inserted email role rfl habsent
  | lostRace =>
      dsimp only [advance] at h
      split at h
      · cases h
        exact Outcome.ended rfl rfl rfl fun email role h => by cases h
      · cases h
        exact Outcome.ended rfl rfl rfl fun email role h => by cases h
  | readingBack created =>
      dsimp only [advance] at h
      split at h
      · rename_i row hfind
        cases h
        exact admit_outcome rfl hfind
      · cases h
        exact Outcome.ended rfl rfl rfl fun email role h => by cases h
  | locking userId =>
      dsimp only [advance] at h
      split at h
      · rename_i hfree
        cases h
        exact Outcome.locked userId rfl hfree
      · cases h
  | deciding userId =>
      dsimp only [advance] at h
      split at h
      · cases h
        exact Outcome.released userId _ rfl rfl (Or.inl rfl) fun email role h => by cases h
      · rename_i row hfind
        obtain ⟨hmem, hid⟩ := findUser_spec hfind
        subst hid
        rcases @decideUser_cases π settings request row with hwrite | hrefused | hok
        · obtain ⟨data, audit, hdecide, hphase⟩ := hwrite
          rw [hphase] at h
          cases h
          exact Outcome.decided row data audit rfl hmem hdecide
        · obtain ⟨refusal, hphase⟩ := hrefused
          rw [hphase] at h
          cases h
          exact Outcome.released row.id _ rfl rfl (Or.inl rfl) fun email role h => by cases h
        · rw [hok] at h
          cases h
          exact Outcome.released row.id _ rfl rfl (Or.inr rfl) fun email role h => by cases h
  | writing userId data =>
      cases h
      exact Outcome.written userId data rfl
  | ok userId created | refused refusal | threw => cases h

theorem failing_outcome (h : failing phase = some (phase', effect)) :
    Outcome settings s request phase phase' effect := by
  cases phase with
  | deciding userId | writing userId data =>
      cases h
      exact Outcome.released userId _ rfl rfl (Or.inl rfl) fun email role h => by cases h
  | ok userId created | refused refusal | threw => cases h
  | _ =>
      cases h
      exact Outcome.ended rfl rfl rfl fun email role h => by cases h

/-! ## The changes of admins -/

/-- The row that an admin's event changes, and how. -/
def Event.roleChange : Event π → Option (Nat × (UserRoleState → UserRoleState))
  | .setRole userId role => some (userId, fun _ => ⟨some role.type, some "manual", none⟩)
  | .panelRole userId role => some (userId, fun user => { user with roleType := role })
  | .handBack userId =>
      some (userId, fun user => { user with roleSource := some "entra", entraAppliedRole := none })
  | _ => none

/-- Change the role fields of a user. -/
def State.modifyRoles (s : State π) (userId : Nat) (change : UserRoleState → UserRoleState) :
    State π :=
  s.modify userId fun row => { row with roles := change row.roles }

/-- Everything that a step can be. -/
theorem step_cases (h : Step settings s event s') :
    (∃ t request, event = .begin t request ∧ s.signIns t = none ∧
      s' = s.setSignIn t ⟨request, .looking⟩) ∨
    (∃ t signIn phase' effect, (event = .advance t ∨ event = .failure t) ∧
      s.signIns t = some signIn ∧
      Outcome settings s signIn.request signIn.phase phase' effect ∧
      s' = s.take t signIn.request (phase', effect)) ∨
    (∃ t write signIn userId created, event = .sync t write ∧ s.signIns t = some signIn ∧
      signIn.phase = .ok userId created ∧ write.due settings signIn.request created = true ∧
      s' = write.run s userId) ∨
    (∃ userId change, event.roleChange = some (userId, change) ∧ s.lockedBy userId = none ∧
      s' = s.modifyRoles userId change) := by
  have hadmin {userId : Nat} {change : UserRoleState → UserRoleState}
      (hwrite : s.adminWrite userId change = some s') :
      s.lockedBy userId = none ∧ s' = s.modifyRoles userId change := by
    unfold State.adminWrite at hwrite
    split at hwrite
    · rename_i hfree
      cases hwrite
      exact ⟨hfree, rfl⟩
    · cases hwrite
  cases event with
  | begin t request =>
      dsimp only [Step, next] at h
      split at h
      · rename_i hnone
        cases h
        exact Or.inl ⟨t, request, rfl, hnone, rfl⟩
      · cases h
  | advance t =>
      obtain ⟨signIn, hsignIn, hmap⟩ := Option.bind_eq_some_iff.mp h
      obtain ⟨outcome, hout, heq⟩ := Option.map_eq_some_iff.mp hmap
      exact Or.inr (Or.inl ⟨t, signIn, outcome.1, outcome.2, Or.inl rfl, hsignIn,
        advance_outcome hout, heq.symm⟩)
  | failure t =>
      obtain ⟨signIn, hsignIn, hmap⟩ := Option.bind_eq_some_iff.mp h
      obtain ⟨outcome, hout, heq⟩ := Option.map_eq_some_iff.mp hmap
      exact Or.inr (Or.inl ⟨t, signIn, outcome.1, outcome.2, Or.inr rfl, hsignIn,
        failing_outcome hout, heq.symm⟩)
  | sync t write =>
      obtain ⟨signIn, hsignIn, hmatch⟩ := Option.bind_eq_some_iff.mp h
      split at hmatch
      · rename_i userId created hphase
        split at hmatch
        · rename_i hdue
          cases hmatch
          exact Or.inr (Or.inr (Or.inl
            ⟨t, write, signIn, userId, created, rfl, hsignIn, hphase, hdue, rfl⟩))
        · cases hmatch
      · cases hmatch
  | setRole userId role | panelRole userId role | handBack userId =>
      exact Or.inr (Or.inr (Or.inr ⟨userId, _, rfl, hadmin h⟩))

/-! ## The invariant -/

/-- Ids and identities are each of one row. -/
structure Distinct (s : State π) : Prop where
  ids : (s.rows.map UserRow.id).Nodup
  fresh : ∀ row ∈ s.rows, row.id < s.nextId
  identities : ∀ a ∈ s.rows, ∀ b ∈ s.rows, a.identity ≠ none → a.identity = b.identity → a.id = b.id

/-- What is so of a sign-in under way. -/
structure Fits (settings : Settings) (s : State π) (t : Nat) (signIn : SignIn π) : Prop where
  holds : ∀ userId, signIn.phase.holds = some userId → s.lockedBy userId = some t
  user : ∀ userId, signIn.phase.user = some userId → s.HasUser signIn.request.identity userId
  creating : ∀ email role, signIn.phase = .inserting email role →
    ∃ audit, signIn.request.decide settings none = .create role audit
  /-- The decision is one about the row as it is. -/
  decided : ∀ userId data, signIn.phase = .writing userId data → ∃ row ∈ s.rows, row.id = userId ∧
    ∃ audit, signIn.request.decide settings (some row.roles) = .update data audit

structure Inv (settings : Settings) (s : State π) : Prop where
  distinct : Distinct s
  fits : ∀ t signIn, s.signIns t = some signIn → Fits settings s t signIn

theorem Initial.inv (h : Initial s) : Inv settings s := by
  constructor
  · exact ⟨h.ids, h.fresh, h.identities⟩
  · intro t signIn hsignIn
    rw [h.idle t] at hsignIn
    cases hsignIn

/-- Rows are found by their id. -/
theorem Distinct.eq (h : Distinct s) {a b : UserRow π} (ha : a ∈ s.rows) (hb : b ∈ s.rows)
    (heq : a.id = b.id) : a = b :=
  List.inj_on_of_nodup_map h.ids ha hb heq

/-- A change of a row that keeps who the row is. -/
structure Keeps (change : UserRow π → UserRow π) : Prop where
  id : ∀ row, (change row).id = row.id
  identity : ∀ row, (change row).identity = row.identity

/-- The row of a user changed, and every other kept. -/
def changeAt (userId : Nat) (change : UserRow π → UserRow π) (row : UserRow π) : UserRow π :=
  if row.id = userId then change row else row

theorem Keeps.changeAt {change : UserRow π → UserRow π} (h : Keeps change) (userId : Nat) :
    Keeps (changeAt userId change) := by
  constructor
  · intro row
    unfold Entra.changeAt
    split
    · exact h.id row
    · rfl
  · intro row
    unfold Entra.changeAt
    split
    · exact h.identity row
    · rfl

theorem Distinct.map {change : UserRow π → UserRow π} (h : Distinct s) (keeps : Keeps change)
    (rows : s'.rows = s.rows.map change) (nextId : s'.nextId = s.nextId) : Distinct s' := by
  constructor
  · have hids : (s.rows.map change).map UserRow.id = s.rows.map UserRow.id := by
      rw [List.map_map]
      exact List.map_congr_left fun row _ => keeps.id row
    rw [rows, hids]
    exact h.ids
  · intro row hrow
    rw [rows] at hrow
    obtain ⟨old, hold, rfl⟩ := List.mem_map.mp hrow
    rw [keeps.id, nextId]
    exact h.fresh old hold
  · intro a ha b hb hsome heq
    rw [rows] at ha hb
    obtain ⟨x, hx, rfl⟩ := List.mem_map.mp ha
    obtain ⟨y, hy, rfl⟩ := List.mem_map.mp hb
    rw [keeps.identity] at hsome
    rw [keeps.identity, keeps.identity] at heq
    rw [keeps.id, keeps.id]
    exact h.identities x hx y hy hsome heq

theorem Distinct.insert {role : RoleType} (h : Distinct s)
    (absent : s.findIdentity request.identity = none)
    (rows : s'.rows = s.rows ++ [request.newRow s.nextId role email])
    (nextId : s'.nextId = s.nextId + 1) : Distinct s' := by
  have habsent : ∀ row ∈ s.rows, row.identity ≠ some request.identity := by
    intro row hrow heq
    have hnone := List.find?_eq_none.mp absent row hrow
    rw [heq] at hnone
    simp at hnone
  constructor
  · rw [rows, List.map_append, List.nodup_append]
    refine ⟨h.ids, by simp, ?_⟩
    intro id hid other hother heq
    obtain ⟨row, hrow, rfl⟩ := List.mem_map.mp hid
    have hfresh := h.fresh row hrow
    rw [List.map_cons, List.map_nil, List.mem_singleton] at hother
    have hnext : (request.newRow s.nextId role email).id = s.nextId := rfl
    omega
  · intro row hrow
    rw [rows, List.mem_append, List.mem_singleton] at hrow
    rw [nextId]
    rcases hrow with hold | hnew
    · exact Nat.lt_succ_of_lt (h.fresh row hold)
    · rw [hnew]
      exact Nat.lt_succ_self s.nextId
  · intro a ha b hb hsome heq
    rw [rows, List.mem_append, List.mem_singleton] at ha hb
    rcases ha with ha | ha
    · rcases hb with hb | hb
      · exact h.identities a ha b hb hsome heq
      · rw [hb] at heq
        exact absurd heq (habsent a ha)
    · rcases hb with hb | hb
      · rw [ha] at heq
        exact absurd heq.symm (habsent b hb)
      · rw [ha, hb]

/-- Sign-ins other than `t` fit after a change of the rows, unless it is one of the roles of a row
that they hold. -/
theorem Fits.change {change : UserRow π → UserRow π} (h : Fits settings s t signIn)
    (keeps : Keeps change) (rows : ∀ row ∈ s.rows, change row ∈ s'.rows)
    (locks : ∀ userId, s.lockedBy userId = some t → s'.lockedBy userId = some t)
    (roles : ∀ row ∈ s.rows, s.lockedBy row.id = some t → (change row).roles = row.roles) :
    Fits settings s' t signIn := by
  constructor
  · exact fun userId hholds => locks userId (h.holds userId hholds)
  · intro userId huser
    obtain ⟨row, hrow, hid, hidentity⟩ := h.user userId huser
    exact ⟨change row, rows row hrow, (keeps.id row).trans hid,
      (keeps.identity row).trans hidentity⟩
  · exact h.creating
  · intro userId data hphase
    obtain ⟨row, hrow, hid, audit, hdecide⟩ := h.decided userId data hphase
    have hlock : s.lockedBy userId = some t := h.holds userId (by rw [hphase]; rfl)
    refine ⟨change row, rows row hrow, (keeps.id row).trans hid, audit, ?_⟩
    rw [roles row hrow (hid ▸ hlock)]
    exact hdecide

theorem keeps_id : Keeps (id : UserRow π → UserRow π) := ⟨fun _ => rfl, fun _ => rfl⟩

/-- What a sign-in does not look at may change. -/
theorem Fits.congr (h : Fits settings s t signIn) (rows : ∀ row ∈ s.rows, row ∈ s'.rows)
    (locks : ∀ userId, s.lockedBy userId = some t → s'.lockedBy userId = some t) :
    Fits settings s' t signIn :=
  h.change keeps_id rows locks fun _ _ _ => rfl

theorem Inv.modify {change : UserRow π → UserRow π} (h : Inv settings s) (keeps : Keeps change)
    (roles : s.lockedBy userId = none ∨ ∀ row, (change row).roles = row.roles) :
    Inv settings (s.modify userId change) := by
  constructor
  · exact h.distinct.map (keeps.changeAt userId) rfl rfl
  · intro t signIn hsignIn
    apply (h.fits t signIn hsignIn).change (keeps.changeAt userId)
    · exact fun row hrow => List.mem_map_of_mem hrow
    · exact fun _ hlock => hlock
    · intro row _ hlock
      unfold changeAt
      split
      · rename_i hid
        rcases roles with hfree | hsame
        · rw [hid, hfree] at hlock
          cases hlock
        · exact hsame row
      · rfl

/-- A sign-in that took a step fits, and so does every other. -/
theorem Inv.setSignIn (distinct : Distinct s') (signIns : s'.signIns = s.signIns)
    (others : ∀ t' other, t' ≠ t → s.signIns t' = some other → Fits settings s' t' other)
    (fits : Fits settings s' t signIn) : Inv settings (s'.setSignIn t signIn) := by
  constructor
  · exact ⟨distinct.ids, distinct.fresh, distinct.identities⟩
  · intro t' found hfound
    have hfits : Fits settings s' t' found := by
      by_cases heq : t' = t
      · subst heq
        have hself : some signIn = some found := by
          rw [← hfound]
          exact (Function.update_self t' (some signIn) s'.signIns).symm
        cases hself
        exact fits
      · apply others t' found heq
        rw [← signIns, ← hfound]
        exact (Function.update_of_ne heq (some signIn) s'.signIns).symm
    exact ⟨hfits.holds, hfits.user, hfits.creating, hfits.decided⟩

theorem signIns_apply (s : State π) (t : Nat) (effect : Effect π) :
    (s.apply t effect).signIns = s.signIns := by
  cases effect <;> rfl

theorem Inv.take (distinct : Distinct (s.apply t effect))
    (others : ∀ t' other, t' ≠ t → s.signIns t' = some other →
      Fits settings (s.apply t effect) t' other)
    (fits : Fits settings (s.apply t effect) t ⟨request, phase'⟩) :
    Inv settings (s.take t request (phase', effect)) :=
  Inv.setSignIn distinct (signIns_apply s t effect) others fits

theorem keeps_write (data : RoleUpdate) : Keeps fun row : UserRow π => row.write data :=
  ⟨fun _ => rfl, fun _ => rfl⟩

theorem Inv.outcome (h : Inv settings s) (hsignIn : s.signIns t = some signIn)
    (out : Outcome settings s signIn.request signIn.phase phase' effect) :
    Inv settings (s.take t signIn.request (phase', effect)) := by
  have hfits := h.fits t signIn hsignIn
  cases out with
  | plain _ before after user creating =>
      apply Inv.take
      · exact h.distinct
      · exact fun t' other _ hother => h.fits t' other hother
      · constructor
        · intro userId hholds
          rw [after] at hholds
          cases hholds
        · exact user
        · exact creating
        · intro userId data hphase
          dsimp only at hphase
          rw [hphase] at after
          cases after
  | locked userId waiting free =>
      apply Inv.take
      · exact ⟨h.distinct.ids, h.distinct.fresh, h.distinct.identities⟩
      · intro t' other _ hother
        apply Fits.congr (h.fits t' other hother)
        · exact fun _ hrow => hrow
        · intro locked hlock
          have hne : locked ≠ userId := by
            intro heq
            rw [heq, free] at hlock
            cases hlock
          exact (Function.update_of_ne hne (some t) s.lockedBy).trans hlock
      · constructor
        · intro locked hholds
          cases hholds
          exact Function.update_self userId (some t) s.lockedBy
        · intro locked huser
          cases huser
          exact hfits.user userId (by rw [waiting]; rfl)
        · intro email role hphase
          cases hphase
        · intro locked data hphase
          cases hphase
  | decided row data audit deciding mem decision =>
      apply Inv.take
      · exact h.distinct
      · exact fun t' other _ hother => h.fits t' other hother
      · constructor
        · intro userId hholds
          cases hholds
          exact hfits.holds row.id (by rw [deciding]; rfl)
        · intro userId huser
          cases huser
          exact hfits.user row.id (by rw [deciding]; rfl)
        · intro email role hphase
          cases hphase
        · intro userId data' hphase
          cases hphase
          exact ⟨row, mem, rfl, audit, decision⟩
  | released userId _ before after user creating =>
      apply Inv.take
      · exact ⟨h.distinct.ids, h.distinct.fresh, h.distinct.identities⟩
      · intro t' other hne hother
        apply Fits.congr (h.fits t' other hother)
        · exact fun _ hrow => hrow
        · intro locked hlock
          have hlocked : locked ≠ userId := by
            intro heq
            rw [heq, hfits.holds userId before] at hlock
            exact hne (Option.some.inj hlock).symm
          exact (Function.update_of_ne hlocked none s.lockedBy).trans hlock
      · constructor
        · intro locked hholds
          rw [after] at hholds
          cases hholds
        · intro locked huser
          rcases user with hnone | hok
          · rw [hnone] at huser
            cases huser
          · dsimp only at huser
            rw [hok] at huser
            cases huser
            have hsame : signIn.phase.user = signIn.phase.holds := by
              cases hphase : signIn.phase <;> rw [hphase] at before <;> first | rfl | cases before
            exact hfits.user userId (hsame.trans before)
        · exact fun email role hphase => absurd hphase (creating email role)
        · intro locked data hphase
          dsimp only at hphase
          rw [hphase] at after
          cases after
  | inserted email role inserting absent =>
      apply Inv.take
      · exact h.distinct.insert absent rfl rfl
      · intro t' other _ hother
        apply Fits.congr (h.fits t' other hother)
        · exact fun _ hrow => List.mem_append_left _ hrow
        · exact fun _ hlock => hlock
      · constructor
        · intro userId hholds
          cases hholds
        · intro userId huser
          cases huser
        · intro email' role' hphase
          cases hphase
        · intro userId data hphase
          cases hphase
  | written userId data writing =>
      have hholds : s.lockedBy userId = some t := hfits.holds userId (by rw [writing]; rfl)
      have hkeeps := (@keeps_write π data).changeAt userId
      have hne {t' locked : Nat} (ht : t' ≠ t) (hlock : s.lockedBy locked = some t') :
          locked ≠ userId := by
        intro heq
        rw [heq, hholds] at hlock
        exact ht (Option.some.inj hlock).symm
      apply Inv.take
      · exact h.distinct.map hkeeps rfl rfl
      · intro t' other ht hother
        apply (h.fits t' other hother).change hkeeps
        · exact fun row hrow => List.mem_map_of_mem hrow
        · intro locked hlock
          exact (Function.update_of_ne (hne ht hlock) none s.lockedBy).trans hlock
        · intro row _ hlock
          exact congrArg UserRow.roles (if_neg (hne ht hlock))
      · constructor
        · intro locked hphase
          cases hphase
        · intro locked huser
          cases huser
          obtain ⟨row, hrow, hid, hidentity⟩ := hfits.user userId (by rw [writing]; rfl)
          exact ⟨_, List.mem_map_of_mem hrow, (hkeeps.id row).trans hid,
            (hkeeps.identity row).trans hidentity⟩
        · intro email role hphase
          cases hphase
        · intro locked data' hphase
          cases hphase

/-- A write after admission changes one row and none of its role fields. -/
theorem sync_cases (s : State π) (write : SyncWrite π) (userId : Nat) :
    ∃ user change, Keeps change ∧ (∀ row : UserRow π, (change row).roles = row.roles) ∧
      write.run s userId = s.modify user change := by
  have hvalue (user : Nat) (value : π) :
      ∃ user' change, Keeps change ∧ (∀ row : UserRow π, (change row).roles = row.roles) ∧
        s.modify user (fun row => { row with profile := value }) = s.modify user' change :=
    ⟨user, fun row => { row with profile := value }, ⟨fun _ => rfl, fun _ => rfl⟩, fun _ => rfl,
      rfl⟩
  cases write with
  | profile email value =>
      exact ⟨userId, fun row => { row with email := email.getD row.email, profile := value },
        ⟨fun _ => rfl, fun _ => rfl⟩, fun _ => rfl, rfl⟩
  | department value | manager value => exact hvalue userId value
  | backfill report value => exact hvalue report value

theorem Inv.sync (h : Inv settings s) (write : SyncWrite π) (userId : Nat) :
    Inv settings (write.run s userId) := by
  obtain ⟨user, change, hkeeps, hroles, hrun⟩ := sync_cases s write userId
  rw [hrun]
  exact h.modify hkeeps (Or.inr hroles)

theorem Inv.step (h : Inv settings s) (hstep : Step settings s event s') : Inv settings s' := by
  rcases step_cases hstep with hbegin | htake | hsync | hadmin
  · obtain ⟨t, request, _, _, rfl⟩ := hbegin
    apply Inv.setSignIn h.distinct rfl fun t' other _ hother => h.fits t' other hother
    constructor
    · intro userId hholds
      cases hholds
    · intro userId huser
      cases huser
    · intro email role hphase
      cases hphase
    · intro userId data hphase
      cases hphase
  · obtain ⟨t, signIn, phase', effect, _, hsignIn, hout, rfl⟩ := htake
    exact h.outcome hsignIn hout
  · obtain ⟨t, write, signIn, userId, created, _, _, _, _, rfl⟩ := hsync
    exact h.sync write userId
  · obtain ⟨userId, change, _, hfree, rfl⟩ := hadmin
    exact h.modify ⟨fun _ => rfl, fun _ => rfl⟩ (Or.inl hfree)

theorem inv_of_reachable (h : Reachable Initial (Step settings) s) : Inv settings s :=
  h.invariant (fun _ hinitial => hinitial.inv) fun _ _ _ hstep hinv => hinv.step hstep

end Sinnlos.Cms.Entra

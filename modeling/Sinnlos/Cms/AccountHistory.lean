import Sinnlos.Cms.AccountEnsures
import Sinnlos.Lib.TransactionCalls

/-! # What a commit does to a user

Every commit changes one user at most. `Rewrites` names the ways in which a call
rewrites a row it found; the token version stays or goes up by one, and nothing
but the tombstone changes a password without raising it.
-/

namespace Sinnlos.Cms.Accounts

open Mfa (versionOf MAX_SAFE_INTEGER)

/-! ## How a call rewrites a row -/

/-- The user and the data of a call that writes through the guard. -/
def AccountCall.data? : AccountCall → Option (Nat × UserData)
  | .changePassword callerId _ password => some (callerId, passwordData password)
  | .edit id data => some (id, data)
  | .documentUpdate id data => some (id, data)
  | _ => none

/-- The call, with this result, makes `b` of the row `a` of `id`. -/
inductive Rewrites (m : AccountModule) : AccountCall → AccountResult → Nat → Account → Account → Prop
  | saved {call : AccountCall} {id : Nat} {data : UserData} {blocked : Option (Option Bool)}
      {a : Account} (hdata : call.data? = some (id, data))
      (stored : data.storedBlocked = some blocked) (live : a.anonymisedAt = none)
      (raise : data.raises a = true → a.CanRaise)
      (expected : ∀ callerId tv password, call = .changePassword callerId tv password →
        a.nextVersion = tv + 1) :
      Rewrites m call (.saved (if data.setsPassword then some a.nextVersion else none)) id a
        (data.saved blocked a)
  | updated {callerId : Nat} {callerTv : Option Int} {id : Nat} {change : UserAdminUpdate}
      {wasBlocked : Bool} {a : Account}
      (other : id = callerId → change.role = none ∧ change.blocked = none)
      (raise : change.blocked = some true → wasBlocked = false → a.CanRaise) :
      Rewrites m (.updateUser callerId callerTv id change) (.updated wasBlocked) id a
        (change.saved wasBlocked a)
  | handed {callerId : Nat} {callerTv : Option Int} {id : Nat} {a : Account} (idp : String)
      (other : id ≠ callerId) :
      Rewrites m (.handRoleToEntra callerId callerTv id) .done id a (a.handed idp)
  | cleared {callerId : Nat} {callerTv : Option Int} {id : Nat} {version : Int} {a : Account}
      (other : id ≠ callerId) (raise : a.CanRaise) :
      Rewrites m (.resetUserMfa callerId callerTv id) (.version version) id a a.cleared.bumped
  | anonymised {callerId : Nat} {callerTv : Option Int} {id : Nat} {confirm : Option String}
      {at_ : Int} {a : Account} (live : a.anonymisedAt = none) (blocked : a.blocked = some true) :
      Rewrites m (.anonymiseUser callerId callerTv id confirm at_) .done id a (a.tombstone at_)
  | role {id : Nat} {signIn : RoleSignIn} {a : Account} {data : Entra.RoleUpdate} {audit : String}
      (decided : signIn.decide a = .update data audit) :
      Rewrites m (.writeRole id signIn) (.role none) id a (a.withUpdate data)
  | sent {callerId : Nat} {callerTv : Option Int} {id : Nat} {secret : LinkSecret} {now : Int}
      {token : Option String} {a : Account} (unbound : a.isLocalUnbound = true)
      (unblocked : a.blocked ≠ some true) :
      Rewrites m (.sendLink callerId callerTv id secret now) (.link token) id a
        (a.withLink (m.storedLink (linkPurpose a) a secret now))
  | requested {email : String} {id : Nat} {secret : LinkSecret} {now : Int} {token : Option String}
      {a : Account} (unbound : a.isLocalUnbound = true) (unblocked : a.blocked ≠ some true)
      (password : a.password.getD "" ≠ "") :
      Rewrites m (.requestReset email secret now) (.link token) id a
        (a.withLink (m.storedLink .reset a secret now))
  | redeemed {token : String} {password : NewPassword} {now : Int} {id : Nat} {a : Account}
      (matched : m.linkMatches id a token now = true) :
      Rewrites m (.redeemLink (some token) (some password) now) .done id a
        (a.redeemed password.hash)
  | raised {id : Nat} {a : Account} (raise : a.CanRaise) :
      Rewrites m (.raiseVersion id) (.version a.nextVersion) id a a.bumped

/-- The row of an invitation. -/
def AccountModule.invited (m : AccountModule) (invite : Invite) (secret : LinkSecret) (now : Int) :
    Account :=
  invite.account.withLink (m.storedLink .invite invite.account secret now)

/-- What a commit can have done. -/
inductive Effect (m : AccountModule) (call : AccountCall) (result : AccountResult) (before : Rows) :
    (RowKey → Option Record) → Prop
  | nothing : Effect m call result before untouched
  | rewrote {id : Nat} {a b : Account} (found : before (.user id) = .user a)
      (rewrites : Rewrites m call result id a b) :
      Effect m call result before (only id (.user b))
  | removed {id : Nat} {a : Account} (hcall : call = .documentDelete id)
      (found : before (.user id) = .user a) (live : a.anonymisedAt = none) :
      Effect m call result before (only id .removed)
  | invited {callerId : Nat} {callerTv : Option Int} {invite : Invite} {secret : LinkSecret}
      {now : Int} {id : Nat} (hcall : call = .inviteUser callerId callerTv invite secret now)
      (fresh : before (.user id) = .empty) :
      Effect m call result before (only id (.user (m.invited invite secret now)))

variable {m : AccountModule} {call : AccountCall} {id : Nat} {before : Rows}
  {changes : RowKey → Option Record} {result : AccountResult} {a b : Account} {data : UserData}
  {commit : AccountCommit}

theorem Saved.effect {version : Option Int} (h : Saved id data version before changes)
    (hdata : call.data? = some (id, data))
    (expected : ∀ callerId tv password, call = .changePassword callerId tv password →
      ∀ a : Account, version = some a.nextVersion → a.nextVersion = tv + 1)
    (sets : ∀ callerId tv password, call = .changePassword callerId tv password →
      data.setsPassword = true) : Effect m call (.saved version) before changes := by
  rcases h with ⟨_, _, rfl⟩ | ⟨a, blocked, stored, live, wrote, rfl, raise⟩
  · exact .nothing
  · rw [wrote.changes]
    refine .rewrote wrote.found (.saved hdata stored live raise ?_)
    intro callerId tv password hcall
    apply expected callerId tv password hcall a
    rw [if_pos (sets callerId tv password hcall)]

theorem post_effect (h : m.post call result before changes) :
    Effect m call result before changes := by
  unfold AccountModule.post at h
  split at h
  · rename_i callerId tv password version
    obtain ⟨saved, hversion⟩ := h
    refine saved.effect rfl ?_ ?_
    · intro _ _ _ hcall a ha
      cases hcall
      cases ha
      exact hversion
    · intro _ _ _ _
      rfl
  · refine Saved.effect h rfl ?_ ?_
    · intro _ _ _ hcall
      cases hcall
    · intro _ _ _ hcall
      cases hcall
  · refine Saved.effect h rfl ?_ ?_
    · intro _ _ _ hcall
      cases hcall
    · intro _ _ _ hcall
      cases hcall
  · rcases h with rfl | ⟨a, found, live, rfl⟩
    · exact .nothing
    · exact .removed rfl found live
  · obtain ⟨_, other, rfl | ⟨a, wrote, raise⟩⟩ := h
    · exact .nothing
    · rw [wrote.changes]
      exact .rewrote wrote.found (.updated other raise)
  · obtain ⟨_, other, rfl | ⟨a, idp, wrote⟩⟩ := h
    · exact .nothing
    · rw [wrote.changes]
      exact .rewrote wrote.found (.handed idp other)
  · obtain ⟨_, other, a, wrote, raise⟩ := h
    rw [wrote.changes]
    exact .rewrote wrote.found (.cleared other raise)
  · obtain ⟨_, a, live, blocked, wrote⟩ := h
    rw [wrote.changes]
    exact .rewrote wrote.found (.anonymised live blocked)
  · rcases h with rfl | ⟨a, data, audit, decided, rfl, wrote⟩
    · exact .nothing
    · rw [wrote.changes]
      exact .rewrote wrote.found (.role decided)
  · obtain ⟨_, a, unbound, unblocked, wrote⟩ := h
    rw [wrote.changes]
    exact .rewrote wrote.found (.sent unbound unblocked)
  · obtain ⟨_, id, fresh, rfl⟩ := h
    exact .invited rfl fresh
  · rcases h with rfl | ⟨id, a, unbound, unblocked, password, wrote⟩
    · exact .nothing
    · rw [wrote.changes]
      exact .rewrote wrote.found (.requested unbound unblocked password)
  · obtain ⟨id, a, matched, wrote⟩ := h
    rw [wrote.changes]
    exact .rewrote wrote.found (.redeemed matched)
  · obtain ⟨a, wrote, raise, rfl⟩ := h
    rw [wrote.changes]
    exact .rewrote wrote.found (.raised raise)
  · exact h.elim

/-! ## One user across a commit -/

/-- What a commit made of the record of one user. -/
inductive RowChange (m : AccountModule) (call : AccountCall) (result : AccountResult) (id : Nat) :
    Record → Record → Prop
  | same (record : Record) : RowChange m call result id record record
  | rewrote {a b : Account} (rewrites : Rewrites m call result id a b) :
      RowChange m call result id (.user a) (.user b)
  | removed {a : Account} (hcall : call = .documentDelete id) (live : a.anonymisedAt = none) :
      RowChange m call result id (.user a) .removed
  | invited {callerId : Nat} {callerTv : Option Int} {invite : Invite} {secret : LinkSecret}
      {now : Int} (hcall : call = .inviteUser callerId callerTv invite secret now) :
      RowChange m call result id .empty (.user (m.invited invite secret now))

theorem overlay_only_self (rows : Rows) (id : Nat) (record : Record) :
    overlay (only id record) rows (.user id) = record := by
  simp [overlay, only]

theorem overlay_only_of_ne (rows : Rows) {other : Nat} (record : Record) (h : other ≠ id) :
    overlay (only id record) rows (.user other) = rows (.user other) := by
  have hkey : RowKey.user other ≠ RowKey.user id := fun heq => h (RowKey.user.inj heq)
  simp [overlay, only, hkey, untouched]

theorem Effect.rowChange (h : Effect m call result before changes) (id : Nat) :
    RowChange m call result id (before (.user id)) (overlay changes before (.user id)) := by
  have elsewhere : ∀ {target : Nat} (record : Record), id ≠ target →
      RowChange m call result id (before (.user id))
        (overlay (only target record) before (.user id)) := by
    intro target record hne
    rw [overlay_only_of_ne before record hne]
    exact .same _
  cases h with
  | nothing => exact .same _
  | @rewrote target a b found rewrites =>
      by_cases heq : id = target
      · subst heq
        rw [overlay_only_self, found]
        exact .rewrote rewrites
      · exact elsewhere _ heq
  | @removed target a hcall found live =>
      by_cases heq : id = target
      · subst heq
        rw [overlay_only_self, found]
        exact .removed hcall live
      · exact elsewhere _ heq
  | @invited callerId callerTv invite secret now target hcall fresh =>
      by_cases heq : id = target
      · subst heq
        rw [overlay_only_self, fresh]
        exact .invited hcall
      · exact elsewhere _ heq

/-- What a logged commit did to a user. -/
theorem commit_rowChange (h : m.post commit.call commit.result commit.before commit.changes)
    (id : Nat) :
    RowChange m commit.call commit.result id (commit.before (.user id)) (commit.after (.user id)) :=
  (post_effect h).rowChange id

/-! ## Versions -/

/-- The versions that the column can hold: integers from 0. -/
def Account.Sane (a : Account) : Prop :=
  ∀ v, a.tokenVersion = some v → 0 ≤ v ∧ v ≤ MAX_SAFE_INTEGER

/-- The version as a session carries it. -/
def Account.version (a : Account) : Int := versionOf a.tokenVersion

theorem Account.Sane.version_eq (h : a.Sane) : a.version = a.tokenVersion.getD 0 := by
  unfold Account.version versionOf
  cases htv : a.tokenVersion with
  | none => rfl
  | some v => simp [h v htv]

theorem Account.version_nonneg (a : Account) : 0 ≤ a.version := by
  unfold Account.version versionOf
  split
  · split
    · rename_i h
      exact h.1
    · exact Int.le_refl 0
  · exact Int.le_refl 0

theorem Account.Sane.nextVersion_eq (h : a.Sane) : a.nextVersion = a.version + 1 := by
  rw [h.version_eq]
  rfl

/-- A row with the version of the next bump, where that one can be told. -/
theorem sane_of_next (hb : b.tokenVersion = some a.nextVersion) (raise : a.CanRaise) :
    b.Sane ∧ b.version = a.nextVersion := by
  have sane : b.Sane := by
    intro v hv
    rw [hb] at hv
    cases hv
    exact ⟨Int.le_of_lt raise.1, raise.2⟩
  refine ⟨sane, ?_⟩
  rw [sane.version_eq, hb]
  rfl

theorem sane_of_same (hb : b.tokenVersion = a.tokenVersion) (h : a.Sane) :
    b.Sane ∧ b.version = a.version := by
  refine ⟨?_, ?_⟩
  · intro v hv
    rw [hb] at hv
    exact h v hv
  · unfold Account.version
    rw [hb]

section Saved
variable (data : UserData) (blocked : Option (Option Bool)) (a : Account)

@[simp] theorem saved_tokenVersion : (data.saved blocked a).tokenVersion =
    if data.raises a then some a.nextVersion else a.tokenVersion := by
  unfold UserData.saved
  split <;> rfl

@[simp] theorem saved_password : (data.saved blocked a).password =
    data.password.elim a.password (Option.map NewPassword.hash) := by
  unfold UserData.saved
  split <;> rfl

@[simp] theorem saved_blocked : (data.saved blocked a).blocked = blocked.getD a.blocked := by
  unfold UserData.saved
  split <;> rfl

@[simp] theorem saved_resetPasswordToken :
    (data.saved blocked a).resetPasswordToken = a.resetPasswordToken := by
  unfold UserData.saved
  split <;> rfl

@[simp] theorem saved_roleType : (data.saved blocked a).roleType = data.roleType.getD a.roleType := by
  unfold UserData.saved
  split <;> rfl

@[simp] theorem saved_manager : (data.saved blocked a).manager = data.manager.getD a.manager := by
  unfold UserData.saved
  split <;> rfl

@[simp] theorem saved_anonymisedAt : (data.saved blocked a).anonymisedAt = a.anonymisedAt := by
  unfold UserData.saved
  split <;> rfl

end Saved

section Updated
variable (change : UserAdminUpdate) (wasBlocked : Bool) (a : Account)

@[simp] theorem updated_tokenVersion : (change.saved wasBlocked a).tokenVersion =
    if change.blocked = some true ∧ wasBlocked = false then some a.nextVersion
    else a.tokenVersion := by
  unfold UserAdminUpdate.saved
  split <;> rfl

@[simp] theorem updated_password : (change.saved wasBlocked a).password = a.password := by
  unfold UserAdminUpdate.saved
  split <;> rfl

@[simp] theorem updated_blocked :
    (change.saved wasBlocked a).blocked = change.blocked.elim a.blocked some := by
  unfold UserAdminUpdate.saved
  split <;> rfl

@[simp] theorem updated_resetPasswordToken :
    (change.saved wasBlocked a).resetPasswordToken = a.resetPasswordToken := by
  unfold UserAdminUpdate.saved
  split <;> rfl

@[simp] theorem updated_roleType : (change.saved wasBlocked a).roleType =
    change.role.elim a.roleType fun role => some role.type := by
  unfold UserAdminUpdate.saved
  split <;> rfl

@[simp] theorem updated_manager :
    (change.saved wasBlocked a).manager = change.manager.getD a.manager := by
  unfold UserAdminUpdate.saved
  split <;> rfl

@[simp] theorem updated_anonymisedAt :
    (change.saved wasBlocked a).anonymisedAt = a.anonymisedAt := by
  unfold UserAdminUpdate.saved
  split <;> rfl

end Updated

/-- A redeemed link names a version of at most ten digits. -/
theorem canRaise_of_linkMatches {token : String} {now : Int} (sane : a.Sane)
    (h : m.linkMatches id a token now = true) : a.CanRaise := by
  obtain ⟨secret, stored, hmatch⟩ := linkMatches_iff.mp h
  have hversion : (stored.version : Int) = a.version := hmatch.version
  have hbound : stored.version < 10 ^ 10 := by
    obtain ⟨text, _, htext⟩ := Option.bind_eq_some_iff.mp hmatch.column
    obtain ⟨_, _, _, _, _, _, _, hdigits, _⟩ := readStored_eq_some htext
    exact lt_of_readDigits hdigits
  have hnonneg := a.version_nonneg
  have hmax : (10 : Int) ^ 10 ≤ MAX_SAFE_INTEGER := by decide
  unfold Account.CanRaise
  rw [sane.nextVersion_eq]
  omega

/-- A rewritten row has the version it had or the next one. -/
theorem Rewrites.version (h : Rewrites m call result id a b) (sane : a.Sane) :
    b.Sane ∧ (b.version = a.version ∨ b.version = a.version + 1) := by
  have same : ∀ b : Account, b.tokenVersion = a.tokenVersion →
      b.Sane ∧ (b.version = a.version ∨ b.version = a.version + 1) := by
    intro b hb
    have hsame := sane_of_same hb sane
    exact ⟨hsame.1, Or.inl hsame.2⟩
  have next : ∀ b : Account, b.tokenVersion = some a.nextVersion → a.CanRaise →
      b.Sane ∧ (b.version = a.version ∨ b.version = a.version + 1) := by
    intro b hb raise
    have hnext := sane_of_next hb raise
    exact ⟨hnext.1, Or.inr (hnext.2.trans sane.nextVersion_eq)⟩
  cases h with
  | @saved call id data blocked a hdata stored live raise expected =>
      cases hraises : data.raises a with
      | true => exact next _ (by rw [saved_tokenVersion, if_pos hraises]) (raise hraises)
      | false => exact same _ (by rw [saved_tokenVersion, hraises]; rfl)
  | updated other raise =>
      rename_i change wasBlocked
      by_cases hblocks : change.blocked = some true ∧ wasBlocked = false
      · exact next _ (by rw [updated_tokenVersion, if_pos hblocks]) (raise hblocks.1 hblocks.2)
      · exact same _ (by rw [updated_tokenVersion, if_neg hblocks])
  | handed idp other => exact same _ rfl
  | cleared other raise => exact next _ rfl raise
  | anonymised live blocked | role decided | sent unbound unblocked
  | requested unbound unblocked password => exact same _ rfl
  | redeemed matched => exact next _ rfl (canRaise_of_linkMatches sane matched)
  | raised raise => exact next _ rfl raise

/-- The password that a call sets, and whose. -/
def AccountCall.newPassword? (call : AccountCall) : Option (Option String) :=
  match call with
  | .redeemLink _ (some password) _ => some (some password.hash)
  | _ =>
      match call.data? with
      | some (_, data) => data.password.map (Option.map NewPassword.hash)
      | none => none

theorem newPassword?_of_data (h : call.data? = some (id, data)) :
    call.newPassword? = data.password.map (Option.map NewPassword.hash) := by
  cases call <;> cases h <;> rfl

/-- The call is an anonymisation. -/
def AccountCall.anonymises : AccountCall → Bool
  | .anonymiseUser _ _ _ _ _ => true
  | _ => false

/-- A password changes with the next version, or it stays: the tombstone apart. -/
theorem Rewrites.password (h : Rewrites m call result id a b) (sane : a.Sane)
    (hcall : call.anonymises = false) :
    (call.newPassword? = none ∧ b.password = a.password) ∨
      (call.newPassword? = some b.password ∧ b.version = a.version + 1) := by
  cases h with
  | @saved call id data blocked a hdata stored live raise expected =>
      rw [newPassword?_of_data hdata, saved_password]
      cases hp : data.password with
      | none => exact Or.inl ⟨rfl, rfl⟩
      | some password =>
          have hraises : data.raises a = true := by simp [UserData.raises, UserData.setsPassword, hp]
          have hnext := sane_of_next (b := data.saved blocked a)
            (by rw [saved_tokenVersion, if_pos hraises]) (raise hraises)
          exact Or.inr ⟨rfl, hnext.2.trans sane.nextVersion_eq⟩
  | updated other raise => exact Or.inl ⟨rfl, updated_password _ _ _⟩
  | handed idp other | cleared other raise => exact Or.inl ⟨rfl, rfl⟩
  | anonymised live blocked => cases hcall
  | role decided | sent unbound unblocked | requested unbound unblocked password =>
      exact Or.inl ⟨rfl, rfl⟩
  | redeemed matched =>
      rename_i token password now
      have hnext := sane_of_next (b := a.redeemed password.hash) rfl
        (canRaise_of_linkMatches sane matched)
      exact Or.inr ⟨rfl, hnext.2.trans sane.nextVersion_eq⟩
  | raised raise => exact Or.inl ⟨rfl, rfl⟩

/-- A row becomes blocked with the next version, unless `updateUser` blocks it and
had read it as blocked. -/
theorem Rewrites.block (h : Rewrites m call result id a b) (sane : a.Sane)
    (unblocked : a.blocked ≠ some true) (hb : b.blocked = some true) :
    b.version = a.version + 1 ∨ result = .updated true ∧ ∃ callerId callerTv change,
      call = .updateUser callerId callerTv id change ∧ change.blocked = some true := by
  cases h with
  | @saved call id data blocked a hdata stored live raise expected =>
      rw [saved_blocked] at hb
      have hstored : blocked = some (some true) := by
        cases blocked with
        | none => exact absurd hb unblocked
        | some value => exact congrArg some hb
      have hblocks : data.blocks = true := (UserData.blocks_iff stored).mpr hstored
      have hraises : data.raises a = true := by simp [UserData.raises, hblocks, unblocked]
      have hnext := sane_of_next (b := data.saved blocked a)
        (by rw [saved_tokenVersion, if_pos hraises]) (raise hraises)
      exact Or.inl (hnext.2.trans sane.nextVersion_eq)
  | updated other raise =>
      rename_i change wasBlocked
      rw [updated_blocked] at hb
      have hset : change.blocked = some true := by
        cases hc : change.blocked with
        | none =>
            rw [hc] at hb
            exact absurd hb unblocked
        | some value =>
            rw [hc] at hb
            exact hb
      cases wasBlocked with
      | true => exact Or.inr ⟨rfl, _, _, change, rfl, hset⟩
      | false =>
          have hnext := sane_of_next (b := change.saved false a)
            (by rw [updated_tokenVersion, if_pos ⟨hset, rfl⟩]) (raise hset rfl)
          exact Or.inl (hnext.2.trans sane.nextVersion_eq)
  | handed idp other | cleared other raise => exact absurd hb unblocked
  | anonymised live blocked => exact absurd blocked unblocked
  | role decided | sent unbound _ | requested unbound _ password | redeemed matched
  | raised raise => exact absurd hb unblocked

/-! ## Databases of accounts -/

def Step (m : AccountModule) : AccountDatabase → AccountLabel → AccountDatabase → Prop :=
  Database.Step m.program

/-- Every stored version is one that the column can hold. -/
def SaneRows (rows : Rows) : Prop := ∀ id a, rows (.user id) = .user a → a.Sane

/-- No call has been made. -/
structure Fresh (s : AccountDatabase) : Prop where
  started : s.Started .empty
  sane : SaneRows s.rows

/-- What every run keeps: the transactions reach their postconditions, the
commits follow one another from the first rows on, and the calls are of the kind
`P`. -/
structure Kept (m : AccountModule) (P : AccountCall → Prop) (first : Rows) (s : AccountDatabase) :
    Prop where
  sound : s.Sound accountGuarantee m.post
  traced : s.Traced
  calls : s.CallsMeet P
  linked : Database.Linked first s.log s.rows
  sane : SaneRows s.rows
  /-- The rows before each commit were sane, too. -/
  saneLog : ∀ commit ∈ s.log, SaneRows commit.before

variable {s : AccountDatabase} {P : AccountCall → Prop} {first : Rows}

theorem Fresh.kept (h : Fresh s) (m : AccountModule) (P : AccountCall → Prop) :
    Kept m P s.rows s := by
  refine ⟨Database.Started.sound h.started m.post, h.started.traced, h.started.callsMeet P, ?_, h.sane, ?_⟩
  · rw [h.started.log]
    rfl
  · intro commit hc
    rw [h.started.log] at hc
    cases hc

/-- A user's record across a step. -/
theorem RowChange.sane {before after : Record} (h : RowChange m call result id before after)
    (sane : ∀ a, before = .user a → a.Sane) : ∀ b, after = .user b → b.Sane := by
  intro b hb
  cases h with
  | same _ => exact sane b hb
  | rewrote rewrites =>
      cases hb
      exact (rewrites.version (sane _ rfl)).1
  | removed _ _ => cases hb
  | invited _ =>
      cases hb
      intro v hv
      cases hv
      exact ⟨by decide, by decide⟩

/-- The step commits this transaction. -/
structure Commits (m : AccountModule) (P : AccountCall → Prop) (s : AccountDatabase)
    (label : AccountLabel) (s' : AccountDatabase) (commit : AccountCommit) : Prop where
  label : label = .commit commit.writer
  before : commit.before = s.rows
  rows : s'.rows = commit.after
  log : s'.log = commit :: s.log
  call : P commit.call
  phase : s.phase commit.writer = some (commit.call, .committing commit.result) ∨
    s.phase commit.writer = some (commit.call, .abandoned commit.result)
  post : m.post commit.call commit.result commit.before commit.changes

variable {s' : AccountDatabase} {label : AccountLabel}

/-- A step commits nothing, or it adds one commit. -/
theorem Kept.step_cases (h : Kept m P first s) (hs : Step m s label s') (begins : label.Begins P) :
    Kept m P first s' ∧ ((s'.rows = s.rows ∧ s'.log = s.log) ∨ ∃ commit, Commits m P s label s' commit) := by
  have sound : s'.Sound accountGuarantee m.post :=
    h.sound.step (fun call rows held => program_ensures call rfl) hs
  have traced := h.traced.step hs
  have calls := h.calls.step hs begins
  have linked := hs.linked h.linked
  rcases hs.commit_cases with ⟨hrows, hlog⟩ | ⟨t, call, result, hlabel, hrows, _, hlog, hphase⟩
  · refine ⟨⟨sound, traced, calls, linked, ?_, ?_⟩, Or.inl ⟨hrows, hlog⟩⟩
    · rw [hrows]
      exact h.sane
    · rw [hlog]
      exact h.saneLog
  · have hmem : (⟨t, call, result, s.rows, s.draft t⟩ : AccountCommit) ∈ s'.log := by
      rw [hlog]
      exact List.mem_cons_self
    have hpost := (sound.logged _ hmem).2
    refine ⟨⟨sound, traced, calls, linked, ?_, ?_⟩,
      Or.inr ⟨⟨t, call, result, s.rows, s.draft t⟩,
        ⟨hlabel, rfl, hrows, hlog, calls.committed _ hmem, hphase, hpost⟩⟩⟩
    · intro id b hb
      rw [hrows] at hb
      exact (commit_rowChange hpost id).sane (fun a ha => h.sane id a ha) b hb
    · intro commit hc
      rw [hlog] at hc
      rcases List.mem_cons.mp hc with rfl | hold
      · exact h.sane
      · exact h.saneLog commit hold

theorem Kept.step (h : Kept m P first s) (hs : Step m s label s') (begins : label.Begins P) :
    Kept m P first s' :=
  (h.step_cases hs begins).1

/-- Every commit of a run reached its postcondition. -/
theorem Kept.posted (h : Kept m P first s) (hc : commit ∈ s.log) :
    m.post commit.call commit.result commit.before commit.changes :=
  (h.sound.logged commit hc).2

theorem Fresh.keeps {last : AccountDatabase} {labels : List AccountLabel} (fresh : Fresh s)
    (h : Runs.Run (Step m) s labels last) : Kept m (fun _ => True) s.rows last :=
  h.invariant (fun _ _ _ hs hk => hk.step hs fun _ _ _ => trivial) (fresh.kept m _)

/-- No call writes the row of the directory lock. -/
theorem commit_directory (hpost : m.post commit.call commit.result commit.before commit.changes) :
    commit.after .directory = commit.before .directory := by
  have effect := post_effect hpost
  unfold Commit.after
  generalize commit.changes = changes at effect
  cases effect <;> rfl

/-- What every change of a user's record keeps, a commit keeps. -/
theorem commit_moves {G : Guarantee Record}
    (change : ∀ {call result id before after}, RowChange m call result id before after →
      (∀ a, before = .user a → a.Sane) → G.moves before after)
    (hpost : m.post commit.call commit.result commit.before commit.changes)
    (sane : SaneRows commit.before) (k : RowKey) : G.moves (commit.before k) (commit.after k) := by
  cases k with
  | directory =>
      rw [commit_directory hpost]
      exact G.refl _
  | user id => exact change (commit_rowChange hpost id) (sane id)

end Sinnlos.Cms.Accounts

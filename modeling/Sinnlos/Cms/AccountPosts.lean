import Sinnlos.Cms.AccountWrites
import Sinnlos.Lib.TransactionLog

/-! # What each account call leaves behind

The postcondition of every call: the row it found when it committed, and what
became of it. A call changes one row at most. The rules below carry what a
transaction knows of the row it has locked from statement to statement.
-/

namespace Sinnlos.Cms.Accounts

open Mfa (versionOf MAX_SAFE_INTEGER)
open Txn Knowledge

/-! ## Postconditions -/

def Account.nextVersion (a : Account) : Int := a.tokenVersion.getD 0 + 1

/-- The bump of this row is a version that can be told. -/
def Account.CanRaise (a : Account) : Prop :=
  0 < a.nextVersion ∧ a.nextVersion ≤ MAX_SAFE_INTEGER

def untouched : RowKey → Option Record := fun _ => none

/-- The one row of `id` became `record`. -/
def only (id : Nat) (record : Record) : RowKey → Option Record :=
  Function.update untouched (.user id) (some record)

/-- The user `id`, found as `a`, became `b`. -/
structure Wrote (id : Nat) (a b : Account) (before : Rows) (changes : RowKey → Option Record) :
    Prop where
  found : before (.user id) = .user a
  changes : changes = only id (.user b)

/-- A write through the guard raises the version: a password change, or the block
of a user who was not blocked. -/
def UserData.raises (data : UserData) (a : Account) : Bool :=
  data.setsPassword || (data.blocks && decide (a.blocked ≠ some true))

/-- The row that a write through the guard leaves. -/
def UserData.saved (data : UserData) (blocked : Option (Option Bool)) (a : Account) : Account :=
  data.unguarded.write blocked (if data.raises a then a.bumped else a)

/-- What a write through the guard left, and the version it committed. -/
def Saved (id : Nat) (data : UserData) (version : Option Int) (before : Rows)
    (changes : RowKey → Option Record) : Prop :=
  (data.setsPassword = false ∧ version = none ∧ changes = untouched) ∨
    ∃ a blocked, data.storedBlocked = some blocked ∧ a.anonymisedAt = none ∧
      Wrote id a (data.saved blocked a) before changes ∧
      version = (if data.setsPassword then some a.nextVersion else none) ∧
      (data.raises a = true → a.CanRaise)

/-- The caller is an unblocked admin at the version of the request. -/
def ActiveAdmin (callerId : Nat) (callerTv : Option Int) (rows : Rows) : Prop :=
  ∃ caller, rows (.user callerId) = .user caller ∧ caller.isActiveAdmin = true ∧
    callerTv = some (versionOf caller.tokenVersion)

/-- The user administration raises the version where it blocks a user it read as
not blocked. -/
def UserAdminUpdate.saved (update : UserAdminUpdate) (wasBlocked : Bool) (a : Account) : Account :=
  if update.blocked = some true ∧ wasBlocked = false then (update.write a).bumped
  else update.write a

/-- What each call leaves behind where it commits. -/
def AccountModule.post (m : AccountModule) : Database.Post RowKey Record AccountResult AccountCall :=
  fun call result before changes =>
    match call, result with
    | .changePassword callerId tv password, .saved (some version) =>
        Saved callerId (passwordData password) (some version) before changes ∧ version = tv + 1
    | .edit id data, .saved version => Saved id data version before changes
    | .documentUpdate id data, .saved version => Saved id data version before changes
    | .documentDelete id, .done => changes = untouched ∨
        ∃ a, before (.user id) = .user a ∧ a.anonymisedAt = none ∧ changes = only id .removed
    | .updateUser callerId callerTv id change, .updated wasBlocked =>
        ActiveAdmin callerId callerTv before ∧
          (id = callerId → change.role = none ∧ change.blocked = none) ∧
          (changes = untouched ∨ ∃ a, Wrote id a (change.saved wasBlocked a) before changes ∧
            (change.blocked = some true → wasBlocked = false → a.CanRaise))
    | .handRoleToEntra callerId callerTv id, .done =>
        ActiveAdmin callerId callerTv before ∧ id ≠ callerId ∧
          (changes = untouched ∨ ∃ a idp, Wrote id a (a.handed idp) before changes)
    | .resetUserMfa callerId callerTv id, .version _ =>
        ActiveAdmin callerId callerTv before ∧ id ≠ callerId ∧
          ∃ a, Wrote id a a.cleared.bumped before changes ∧ a.CanRaise
    | .anonymiseUser callerId callerTv id _ at_, .done =>
        ActiveAdmin callerId callerTv before ∧ ∃ a, a.anonymisedAt = none ∧
          a.blocked = some true ∧ Wrote id a (a.tombstone at_) before changes
    | .writeRole userId signIn, .role refusal =>
        changes = untouched ∨ ∃ a data audit, signIn.decide a = .update data audit ∧
          refusal = none ∧ Wrote userId a (a.withUpdate data) before changes
    | .sendLink callerId callerTv id secret now, .link _ =>
        ActiveAdmin callerId callerTv before ∧ ∃ a, a.isLocalUnbound = true ∧
          a.blocked ≠ some true ∧
          Wrote id a (a.withLink (m.storedLink (linkPurpose a) a secret now)) before changes
    | .inviteUser callerId callerTv invite secret now, .link _ =>
        ActiveAdmin callerId callerTv before ∧ ∃ id, before (.user id) = .empty ∧
          changes = only id (.user
            (invite.account.withLink (m.storedLink .invite invite.account secret now)))
    | .requestReset _ secret now, .link _ => changes = untouched ∨
        ∃ id a, a.isLocalUnbound = true ∧ a.blocked ≠ some true ∧ a.password.getD "" ≠ "" ∧
          Wrote id a (a.withLink (m.storedLink .reset a secret now)) before changes
    | .redeemLink (some token) (some password) now, .done =>
        ∃ id a, m.linkMatches id a token now = true ∧
          Wrote id a (a.redeemed password.hash) before changes
    | .raiseVersion id, .version version =>
        ∃ a, Wrote id a a.bumped before changes ∧ a.CanRaise ∧ version = a.nextVersion
    | _, _ => False

/-! ## The guarantee -/

/-- A row is created once and removed once. -/
def Record.Follows : Record → Record → Prop
  | .empty, _ => True
  | .user _, .user _ => True
  | .user _, .removed => True
  | .removed, .removed => True
  | _, _ => False

theorem Record.Follows.refl (record : Record) : record.Follows record := by
  cases record <;> trivial

theorem Record.Follows.trans {a b c : Record} (h₁ : a.Follows b) (h₂ : b.Follows c) :
    a.Follows c := by
  cases a <;> cases b <;> cases c <;> trivial

def accountGuarantee : Guarantee Record where
  blank := .empty
  moves := Record.Follows
  refl := Record.Follows.refl
  trans := fun _ _ _ h₁ h₂ => h₁.trans h₂

/-! ## What a transaction knows -/

abbrev Known : Type := Knowledge RowKey Record

section Rules
variable {α : Type} {written : Bool} {id : Nat} {a row : Account} {l l' : Known}

/-- Statements of the transaction or of others that leave it what it holds. -/
structure Keeps (l l' : Known) : Prop where
  held : ∀ k, l.held k → l'.held k
  rows : ∀ k, l.held k → l'.rows k = l.rows k

theorem Keeps.trans {m r : Known} (h₁ : Keeps l m) (h₂ : Keeps m r) : Keeps l r := by
  refine ⟨fun k hk => h₂.held k (h₁.held k hk), ?_⟩
  intro k hk
  rw [h₂.rows k (h₁.held k hk), h₁.rows k hk]

theorem keeps_of_onward (h : l.Onward accountGuarantee l') : Keeps l l' := ⟨h.held, h.kept⟩

theorem keeps_of_later (h : l.Later accountGuarantee l') : Keeps l l' := keeps_of_onward h.onward

theorem keeps_put (l : Known) (k : RowKey) (record : Record) : Keeps l (l.put k record) :=
  ⟨fun _ hj => Or.inr hj, fun _ _ => rfl⟩

theorem keeps_hold (l : Known) (k : RowKey) : Keeps l (l.hold k) :=
  ⟨fun _ hj => Or.inr hj, fun _ _ => rfl⟩

/-- The transaction holds the row of `id`, which is `a`, and has made `row` of it,
if it has `written` at all. -/
structure Edits (written : Bool) (id : Nat) (a row : Account) (l : Known) : Prop where
  held : l.held (.user id)
  rows : l.rows (.user id) = .user a
  current : l.current (.user id) = .user row
  changes : l.changes = if written then only id (.user row) else untouched

theorem Edits.later (h : Edits written id a row l) (hl : l.Later accountGuarantee l') :
    Edits written id a row l' := by
  refine ⟨?_, ?_, ?_, ?_⟩
  · rw [hl.held]
    exact h.held
  · rw [hl.kept _ h.held]
    exact h.rows
  · rw [hl.current_eq h.held]
    exact h.current
  · rw [hl.changes]
    exact h.changes

theorem Edits.hold (h : Edits written id a row l) (k : RowKey) : Edits written id a row (l.hold k) :=
  ⟨Or.inr h.held, h.rows, h.current, h.changes⟩

/-- What the transaction puts in place of its row is all it changed. -/
theorem Edits.put_changes (h : Edits written id a row l) (record : Record) :
    (l.put (.user id) record).changes = only id record := by
  show Function.update l.changes (.user id) _ = _
  rw [h.changes]
  cases written with
  | true => exact Function.update_idem ..
  | false => rfl

theorem Edits.put (h : Edits written id a row l) (b : Account) :
    Edits true id a b (l.put (.user id) (.user b)) :=
  ⟨put_held_self _ _ _, h.rows, put_current_self _ _ _, h.put_changes _⟩

theorem Edits.wrote (h : Edits true id a row l) : Wrote id a row l.rows l.changes :=
  ⟨h.rows, h.changes⟩

/-- The row as a statement reads it. -/
theorem Edits.account? (h : Edits written id a row l) : account? l.current id = some row :=
  account?_eq_some.mpr h.current

theorem rows_of_untouched (clean : l.changes = untouched) : l.current = l.rows := by
  funext k
  apply current_of_none
  rw [clean]
  rfl

theorem follows_self (l : Known) (k : RowKey) (b : Account) (hrow : l.rows k = .user a) :
    accountGuarantee.moves (l.rows k) (.user b) := by
  rw [hrow]
  trivial

variable {next : Bool → AccountTxn α} {Q : α → Known → Prop} {set : Account → Account}

/-- An update of the row that the transaction has locked. -/
theorem ensures_updateOwn (edits : Edits written id a row l)
    (h : ∀ l', Keeps l l' → Edits true id a (set row) l' →
      (next true).Ensures accountGuarantee Q l') :
    (updateUserRow id set >>= next).Ensures accountGuarantee Q l := by
  apply ensures_updateWhere
  · intro l₁ h₁ _
    have own := edits.later h₁
    rw [own.current]
    refine ⟨follows_self l₁ _ _ own.rows, ?_⟩
    exact h _ ((keeps_of_later h₁).trans (keeps_put _ _ _)) (own.put (set row))
  · intro l₁ h₁ hmissing
    rw [(edits.later h₁).current] at hmissing
    cases hmissing

/-- An update of a row that the transaction has not locked before. -/
theorem ensures_updateFresh (clean : l.changes = untouched)
    (changed : ∀ l' a, Keeps l l' → Edits true id a (set a) l' →
      (next true).Ensures accountGuarantee Q l')
    (missing : ∀ l', l.Later accountGuarantee l' → (l'.current (.user id)).isUser = false →
      (next false).Ensures accountGuarantee Q l') :
    (updateUserRow id set >>= next).Ensures accountGuarantee Q l := by
  apply ensures_updateWhere
  · intro l₁ h₁ hfound
    have clean₁ : l₁.changes = untouched := h₁.changes.trans clean
    obtain ⟨a, ha⟩ := Record.isUser_iff.mp hfound
    have hrow : l₁.rows (.user id) = .user a := by
      rw [← rows_of_untouched clean₁]
      exact ha
    rw [ha]
    refine ⟨follows_self l₁ _ _ hrow, ?_⟩
    have changes : (l₁.put (.user id) (.user (set a))).changes = only id (.user (set a)) := by
      show Function.update l₁.changes (.user id) _ = _
      rw [clean₁]
      rfl
    exact changed _ a ((keeps_of_later h₁).trans (keeps_put _ _ _))
      ⟨put_held_self _ _ _, hrow, put_current_self _ _ _, changes⟩
  · exact missing

/-- After the lock the transaction owns the row, or there is none. -/
theorem ensures_lockUserRow (clean : l.changes = untouched)
    (owned : ∀ l' a, Keeps l l' → Edits false id a a l' → (next true).Ensures accountGuarantee Q l')
    (absent : ∀ l', l.Later accountGuarantee l' → (l'.current (.user id)).isUser = false →
      (next false).Ensures accountGuarantee Q l') :
    (lockUserRow id >>= next).Ensures accountGuarantee Q l := by
  apply ensures_forUpdate
  · intro l₁ h₁ hfound
    have clean₁ : l₁.changes = untouched := h₁.changes.trans clean
    obtain ⟨a, ha⟩ := Record.isUser_iff.mp hfound
    have hrow : l₁.rows (.user id) = .user a := by
      rw [← rows_of_untouched clean₁]
      exact ha
    exact owned _ a ((keeps_of_later h₁).trans (keeps_hold _ _))
      ⟨hold_held_self _ _, hrow, ha, clean₁⟩
  · exact absent

/-- The lock of a row that the transaction has locked before. -/
theorem ensures_lockOwn (edits : Edits written id a row l)
    (h : ∀ l', Keeps l l' → Edits written id a row l' → (next true).Ensures accountGuarantee Q l') :
    (lockUserRow id >>= next).Ensures accountGuarantee Q l := by
  apply ensures_forUpdate
  · intro l₁ h₁ _
    exact h _ ((keeps_of_later h₁).trans (keeps_hold _ _)) ((edits.later h₁).hold _)
  · intro l₁ h₁ hmissing
    rw [(edits.later h₁).current] at hmissing
    cases hmissing

/-- Reading the own row back. -/
theorem ensures_readOwn {next : View RowKey Record → AccountTxn α}
    (edits : Edits written id a row l)
    (h : ∀ l' view, Keeps l l' → Edits written id a row l' → account? view.row id = some row →
      (next view).Ensures accountGuarantee Q l') :
    (Txn.select >>= next).Ensures accountGuarantee Q l := by
  apply ensures_select
  intro l₁ h₁ keys
  exact h l₁ _ (keeps_of_later h₁) (edits.later h₁) (edits.later h₁).account?

/-- There is or was a row of the user. -/
def Seen (id : Nat) (rows : Rows) : Prop :=
  (∃ a, rows (.user id) = .user a) ∨ rows (.user id) = .removed

theorem Seen.moves {rows rows' : Rows} (h : Seen id rows)
    (moved : (rows (.user id)).Follows (rows' (.user id))) : Seen id rows' := by
  unfold Seen at h ⊢
  cases hrow : rows' (.user id) with
  | user b => exact Or.inl ⟨b, rfl⟩
  | removed => exact Or.inr rfl
  | empty =>
      rw [hrow] at moved
      rcases h with ⟨a, ha⟩ | hremoved
      · rw [ha] at moved
        exact moved.elim
      · rw [hremoved] at moved
        exact moved.elim

theorem Seen.onward (h : Seen id l.rows) (hl : l.Onward accountGuarantee l') : Seen id l'.rows :=
  h.moves (hl.moved (.user id))

/-- A user who was seen and is no more was removed. -/
theorem Seen.removed (h : Seen id l.rows) (clean : l.changes = untouched)
    (absent : (l.current (.user id)).isUser = false) : l.rows (.user id) = .removed := by
  rcases h with ⟨a, ha⟩ | hremoved
  · rw [rows_of_untouched clean, ha] at absent
    cases absent
  · exact hremoved

/-- A row that was removed stays so. -/
theorem removed_of_later (hl : l.Later accountGuarantee l') (h : l.rows (.user id) = .removed) :
    l'.rows (.user id) = .removed := by
  have hmoved := hl.moved (.user id)
  rw [h] at hmoved
  cases hrow : l'.rows (.user id) with
  | removed => rfl
  | user _ | empty =>
      rw [hrow] at hmoved
      exact hmoved.elim

/-- The version is raised on the row that the transaction has locked. -/
theorem bumpOwn_ensures (edits : Edits written id a row l) :
    (bumpTokenVersion id).Ensures accountGuarantee
      (fun version l' => Keeps l l' ∧ Edits true id a row.bumped l' ∧ row.CanRaise ∧
        version = row.nextVersion) l := by
  apply ensures_updateOwn edits
  intro l₁ keeps₁ edits₁
  apply ensures_readOwn edits₁
  intro l₂ view keeps₂ edits₂ hview
  rw [hview]
  show (if 0 < row.nextVersion ∧ row.nextVersion ≤ MAX_SAFE_INTEGER then _ else _ :
    AccountTxn Int).Ensures _ _ _
  split
  · rename_i hraise
    intro l₃ h₃
    exact ⟨(keeps₁.trans keeps₂).trans (keeps_of_later h₃), edits₂.later h₃, hraise, rfl⟩
  · trivial

/-- The version is raised on the row that the statement finds. -/
theorem bumpFresh_ensures (clean : l.changes = untouched) :
    (bumpTokenVersion id).Ensures accountGuarantee
      (fun version l' => Keeps l l' ∧ ∃ a, Edits true id a a.bumped l' ∧ a.CanRaise ∧
        version = a.nextVersion) l := by
  apply ensures_updateFresh clean
  · intro l₁ a keeps₁ edits₁
    apply ensures_readOwn edits₁
    intro l₂ view keeps₂ edits₂ hview
    rw [hview]
    show (if 0 < a.nextVersion ∧ a.nextVersion ≤ MAX_SAFE_INTEGER then _ else _ :
      AccountTxn Int).Ensures _ _ _
    split
    · rename_i hraise
      intro l₃ h₃
      exact ⟨(keeps₁.trans keeps₂).trans (keeps_of_later h₃), a, edits₂.later h₃, hraise, rfl⟩
    · trivial
  · intro _ _ _
    trivial

theorem ensures_bumpOwn {next : Int → AccountTxn α} (edits : Edits written id a row l)
    (h : ∀ l', Keeps l l' → Edits true id a row.bumped l' → row.CanRaise →
      (next row.nextVersion).Ensures accountGuarantee Q l') :
    (bumpTokenVersion id >>= next).Ensures accountGuarantee Q l := by
  apply Ensures.bind
  refine (bumpOwn_ensures edits).mono ?_
  rintro version l' ⟨keeps, edits', raise, rfl⟩
  exact h l' keeps edits' raise

theorem ensures_bumpFresh {next : Int → AccountTxn α} (clean : l.changes = untouched)
    (h : ∀ l' a, Keeps l l' → Edits true id a a.bumped l' → a.CanRaise →
      (next a.nextVersion).Ensures accountGuarantee Q l') :
    (bumpTokenVersion id >>= next).Ensures accountGuarantee Q l := by
  apply Ensures.bind
  refine (bumpFresh_ensures clean).mono ?_
  rintro version l' ⟨keeps, a, edits', raise, rfl⟩
  exact h l' a keeps edits' raise

end Rules

end Sinnlos.Cms.Accounts

import Sinnlos.Cms.AccountPosts

/-! # Every account call reaches its postcondition

One lemma for each function of the writes, then one for each call. A user whose
row was removed while a call waited for it is written no more.
-/

namespace Sinnlos.Cms.Accounts

open Mfa (versionOf MAX_SAFE_INTEGER)
open Txn Knowledge

section Ensures
variable {α : Type} {written : Bool} {id callerId : Nat} {callerTv : Option Int} {a row : Account}
  {l : Known} {m : AccountModule}

/-! ## Removed users -/

/-- The user's row was removed, and the transaction has written nothing. -/
structure Gone (id : Nat) (l : Known) : Prop where
  clean : l.changes = untouched
  removed : l.rows (.user id) = .removed

theorem seen_of_account? (clean : l.changes = untouched)
    (h : account? l.current id = some a) : Seen id l.rows := by
  rw [rows_of_untouched clean] at h
  exact Or.inl ⟨a, account?_eq_some.mp h⟩

variable {l' : Known} {Q : α → Known → Prop} {next : Unit → AccountTxn α} {data : UserData}
  {secret : LinkSecret} {now : Int}

theorem Gone.later (h : Gone id l) (hl : l.Later accountGuarantee l') : Gone id l' :=
  ⟨hl.changes.trans h.clean, removed_of_later hl h.removed⟩

theorem Gone.current (h : Gone id l) : l.current (.user id) = .removed := by
  rw [rows_of_untouched h.clean]
  exact h.removed

theorem Gone.account? (h : Gone id l) : account? l.current id = none := by
  unfold Accounts.account?
  rw [h.current]
  rfl

theorem ensures_readGone {next : View RowKey Record → AccountTxn α} (gone : Gone id l)
    (h : ∀ l' view, Gone id l' → account? view.row id = none →
      (next view).Ensures accountGuarantee Q l') :
    (Txn.select >>= next).Ensures accountGuarantee Q l := by
  apply ensures_select
  intro l₁ h₁ keys
  exact h l₁ _ (gone.later h₁) (gone.later h₁).account?

theorem ensures_updateGone {set : Account → Account} {next : Bool → AccountTxn α}
    (gone : Gone id l) (h : ∀ l', Gone id l' → (next false).Ensures accountGuarantee Q l') :
    (updateUserRow id set >>= next).Ensures accountGuarantee Q l := by
  apply ensures_updateWhere
  · intro l₁ h₁ hfound
    rw [(gone.later h₁).current] at hfound
    cases hfound
  · intro l₁ h₁ _
    exact h l₁ (gone.later h₁)

/-- No version of a removed user is raised. -/
theorem ensures_bumpGone {next : Int → AccountTxn α} (gone : Gone id l) :
    (bumpTokenVersion id >>= next).Ensures accountGuarantee Q l := by
  apply Ensures.bind
  apply ensures_updateGone gone
  intro _ _
  trivial

/-- The row under its lock, of a user that the transaction has seen. -/
theorem ensures_lockSeen {next : Option Account → AccountTxn α} (clean : l.changes = untouched)
    (seen : Seen id l.rows)
    (owned : ∀ l' a, Keeps l l' → Edits false id a a l' →
      (next (some a)).Ensures accountGuarantee Q l')
    (gone : ∀ l', Gone id l' → (next none).Ensures accountGuarantee Q l') :
    (lockUser id >>= next).Ensures accountGuarantee Q l := by
  apply Ensures.bind
  apply ensures_lockUserRow clean
  · intro l₁ a keeps₁ edits₁
    apply ensures_readOwn edits₁
    intro l₂ view keeps₂ edits₂ hview
    rw [hview]
    intro l₃ h₃
    exact owned l₃ a ((keeps₁.trans keeps₂).trans (keeps_of_later h₃)) (edits₂.later h₃)
  · intro l₁ h₁ habsent l₂ h₂
    have clean₁ : l₁.changes = untouched := h₁.changes.trans clean
    have gone₁ : Gone id l₁ := ⟨clean₁, (seen.onward h₁.onward).removed clean₁ habsent⟩
    exact gone l₂ (gone₁.later h₂)

/-- The row under its lock, of a user that the transaction has locked before. -/
theorem ensures_lockAgain {next : Option Account → AccountTxn α}
    (edits : Edits written id a row l)
    (h : ∀ l', Keeps l l' → Edits written id a row l' →
      (next (some row)).Ensures accountGuarantee Q l') :
    (lockUser id >>= next).Ensures accountGuarantee Q l := by
  apply Ensures.bind
  apply ensures_lockOwn edits
  intro l₁ keeps₁ edits₁
  apply ensures_readOwn edits₁
  intro l₂ view keeps₂ edits₂ hview
  rw [hview]
  intro l₃ h₃
  exact h l₃ ((keeps₁.trans keeps₂).trans (keeps_of_later h₃)) (edits₂.later h₃)

/-- The row under its lock, if there is one. -/
theorem ensures_lockUser {next : Option Account → AccountTxn α} (clean : l.changes = untouched)
    (owned : ∀ l' a, Keeps l l' → Edits false id a a l' →
      (next (some a)).Ensures accountGuarantee Q l')
    (absent : ∀ l', Keeps l l' → l'.changes = untouched →
      (next none).Ensures accountGuarantee Q l') :
    (lockUser id >>= next).Ensures accountGuarantee Q l := by
  apply Ensures.bind
  apply ensures_lockUserRow clean
  · intro l₁ a keeps₁ edits₁
    apply ensures_readOwn edits₁
    intro l₂ view keeps₂ edits₂ hview
    rw [hview]
    intro l₃ h₃
    exact owned l₃ a ((keeps₁.trans keeps₂).trans (keeps_of_later h₃)) (edits₂.later h₃)
  · intro l₁ h₁ _ l₂ h₂
    exact absent l₂ (keeps_of_later (h₁.trans h₂)) (h₂.changes.trans (h₁.changes.trans clean))

/-! ## The guard -/

theorem ensures_assertPassword {password : Option (Option NewPassword)}
    (h : (next ()).Ensures accountGuarantee Q l) :
    (m.assertPasswordAllowed password >>= next).Ensures accountGuarantee Q l := by
  unfold AccountModule.assertPasswordAllowed
  split
  · trivial
  · exact h

theorem writeDocument_own (edits : Edits written id a row l) :
    (writeDocument id data).Ensures accountGuarantee
      (fun _ l' => Keeps l l' ∧ ∃ blocked, data.storedBlocked = some blocked ∧
        Edits true id a (data.write blocked row) l') l := by
  unfold writeDocument
  split
  · trivial
  · rename_i blocked hblocked
    apply ensures_updateOwn edits
    intro l₁ keeps₁ edits₁ l₂ h₂
    exact ⟨keeps₁.trans (keeps_of_later h₂), blocked, hblocked, edits₁.later h₂⟩

theorem writeDocument_gone (gone : Gone id l) :
    (writeDocument id data).Ensures accountGuarantee (fun _ l' => Gone id l') l := by
  unfold writeDocument
  split
  · trivial
  · apply ensures_updateGone gone
    intro l₁ gone₁ l₂ h₂
    exact gone₁.later h₂

/-- What the guard leaves of the row it has locked. -/
def GuardedOwn (id : Nat) (data : UserData) (a : Account) (l : Known) (version : Option Int)
    (l' : Known) : Prop :=
  Keeps l l' ∧ ∃ blocked, data.storedBlocked = some blocked ∧
    Edits true id a (data.saved blocked a) l' ∧
    version = (if data.setsPassword then some a.nextVersion else none) ∧
    (data.raises a = true → a.CanRaise)

theorem guardWrite_own (edits : Edits false id a a l) :
    (m.guardWrite noContext id data).Ensures accountGuarantee (GuardedOwn id data a l) l := by
  unfold AccountModule.guardWrite
  apply ensures_assertPassword
  split
  · rename_i hpassword
    have hsets : data.setsPassword = true := hpassword
    have hraises : data.raises a = true := by simp [UserData.raises, hsets]
    apply ensures_readOwn edits
    intro l₁ view keeps₁ edits₁ hview
    rw [hview]
    apply Ensures.map
    apply ensures_bumpOwn edits₁
    intro l₂ keeps₂ edits₂ raise
    apply Ensures.bind
    refine (writeDocument_own edits₂).mono ?_
    intro _ l₃ h₃ l₄ h₄
    obtain ⟨keeps₃, blocked, hblocked, edits₃⟩ := h₃
    refine ⟨((keeps₁.trans keeps₂).trans keeps₃).trans (keeps_of_later h₄), blocked, hblocked, ?_,
      by rw [if_pos hsets], fun _ => raise⟩
    unfold UserData.saved
    rw [if_pos hraises]
    exact edits₃.later h₄
  · rename_i hpassword
    have hsets : data.setsPassword = false := Bool.eq_false_iff.mpr hpassword
    split
    · rename_i hblocks
      have hblock : data.blocks = true := hblocks
      apply ensures_readOwn edits
      intro l₁ view keeps₁ edits₁ hview
      rw [hview]
      dsimp only
      split
      · rename_i hwas
        have hraises : data.raises a = false := by simp [UserData.raises, hsets, hwas]
        apply Ensures.bind
        refine (writeDocument_own edits₁).mono ?_
        intro _ l₂ h₂ l₃ h₃
        obtain ⟨keeps₂, blocked, hblocked, edits₂⟩ := h₂
        refine ⟨(keeps₁.trans keeps₂).trans (keeps_of_later h₃), blocked, hblocked, ?_,
          by rw [hsets]; rfl, fun h => absurd (hraises.symm.trans h) Bool.false_ne_true⟩
        unfold UserData.saved
        rw [hraises]
        exact edits₂.later h₃
      · rename_i hwas
        have hraises : data.raises a = true := by simp [UserData.raises, hblock, hwas]
        apply ensures_bumpOwn edits₁
        intro l₂ keeps₂ edits₂ raise
        apply Ensures.bind
        refine (writeDocument_own edits₂).mono ?_
        intro _ l₃ h₃ l₄ h₄
        obtain ⟨keeps₃, blocked, hblocked, edits₃⟩ := h₃
        refine ⟨((keeps₁.trans keeps₂).trans keeps₃).trans (keeps_of_later h₄), blocked, hblocked,
          ?_, by rw [hsets]; rfl, fun _ => raise⟩
        unfold UserData.saved
        rw [if_pos hraises]
        exact edits₃.later h₄
    · rename_i hblocks
      have hraises : data.raises a = false := by
        have hno : data.blocks = false := Bool.eq_false_iff.mpr hblocks
        simp [UserData.raises, hsets, hno]
      apply Ensures.bind
      refine (writeDocument_own edits).mono ?_
      intro _ l₂ h₂ l₃ h₃
      obtain ⟨keeps₂, blocked, hblocked, edits₂⟩ := h₂
      refine ⟨keeps₂.trans (keeps_of_later h₃), blocked, hblocked, ?_,
        by rw [hsets]; rfl, fun h => absurd (hraises.symm.trans h) Bool.false_ne_true⟩
      unfold UserData.saved
      rw [hraises]
      exact edits₂.later h₃

theorem guardWrite_gone (gone : Gone id l) :
    (m.guardWrite noContext id data).Ensures accountGuarantee
      (fun version l' => data.setsPassword = false ∧ version = none ∧ Gone id l') l := by
  unfold AccountModule.guardWrite
  apply ensures_assertPassword
  split
  · apply ensures_readGone gone
    intro l₁ view gone₁ hview
    rw [hview]
    trivial
  · rename_i hpassword
    have hsets : data.setsPassword = false := Bool.eq_false_iff.mpr hpassword
    split
    · apply ensures_readGone gone
      intro l₁ view gone₁ hview
      rw [hview]
      apply Ensures.bind
      refine (writeDocument_gone gone₁).mono ?_
      intro _ l₂ gone₂ l₃ h₃
      exact ⟨hsets, rfl, gone₂.later h₃⟩
    · apply Ensures.bind
      refine (writeDocument_gone gone).mono ?_
      intro _ l₂ gone₂ l₃ h₃
      exact ⟨hsets, rfl, gone₂.later h₃⟩

/-- The tombstone check of a row that the transaction has locked. -/
theorem ensures_tombstoneOwn (edits : Edits written id a row l)
    (h : ∀ l', Keeps l l' → Edits written id a row l' → row.anonymisedAt = none →
      (next ()).Ensures accountGuarantee Q l') :
    (refuseTombstone id >>= next).Ensures accountGuarantee Q l := by
  apply Ensures.bind
  apply ensures_lockAgain edits
  intro l₁ keeps₁ edits₁
  dsimp only
  split
  · trivial
  · rename_i hlive
    intro l₂ h₂
    exact h l₂ (keeps₁.trans (keeps_of_later h₂)) (edits₁.later h₂)
      (Option.not_isSome_iff_eq_none.mp hlive)

/-- The tombstone check of a user that the transaction has seen. -/
theorem ensures_tombstoneSeen (clean : l.changes = untouched) (seen : Seen id l.rows)
    (owned : ∀ l' a, Keeps l l' → Edits false id a a l' → a.anonymisedAt = none →
      (next ()).Ensures accountGuarantee Q l')
    (gone : ∀ l', Gone id l' → (next ()).Ensures accountGuarantee Q l') :
    (refuseTombstone id >>= next).Ensures accountGuarantee Q l := by
  apply Ensures.bind
  apply ensures_lockSeen clean seen
  · intro l₁ a keeps₁ edits₁
    dsimp only
    split
    · trivial
    · rename_i hlive
      intro l₂ h₂
      exact owned l₂ a (keeps₁.trans (keeps_of_later h₂)) (edits₁.later h₂)
        (Option.not_isSome_iff_eq_none.mp hlive)
  · intro l₁ gone₁ l₂ h₂
    exact gone l₂ (gone₁.later h₂)

theorem guardMissing_ensures (clean : l.changes = untouched) :
    (m.guardMissing data).Ensures accountGuarantee
      (fun version l' => Saved id data version l'.rows l'.changes) l := by
  unfold AccountModule.guardMissing
  apply ensures_assertPassword
  split
  · trivial
  · rename_i hpassword
    intro l₁ h₁
    exact Or.inl ⟨Bool.eq_false_iff.mpr hpassword, rfl, h₁.changes.trans clean⟩

theorem documentUpdate_ensures (clean : l.changes = untouched) :
    (m.documentUpdate noContext id data).Ensures accountGuarantee
      (fun version l' => Saved id data version l'.rows l'.changes) l := by
  unfold AccountModule.documentUpdate
  apply ensures_select
  intro l₁ h₁ keys
  have clean₁ : l₁.changes = untouched := h₁.changes.trans clean
  cases hseen : account? l₁.current id with
  | none => exact guardMissing_ensures clean₁
  | some found =>
      have seen : Seen id l₁.rows := seen_of_account? clean₁ hseen
      apply ensures_tombstoneSeen clean₁ seen
      · intro l₂ a keeps₂ edits₂ live
        refine (guardWrite_own edits₂).mono ?_
        rintro version l₃ ⟨_, blocked, hblocked, edits₃, hversion, raise⟩
        exact Or.inr ⟨a, blocked, hblocked, live, edits₃.wrote, hversion, raise⟩
      · intro l₂ gone₂
        refine (guardWrite_gone gone₂).mono ?_
        rintro version l₃ ⟨hsets, hversion, gone₃⟩
        exact Or.inl ⟨hsets, hversion, gone₃.clean⟩

variable {context : SaveContext} {password : NewPassword} {user : Account}
  {update : UserAdminUpdate} {purpose : LinkPurpose}

/-- The update inside the user service's own save: the version is raised already. -/
theorem documentUpdate_inside (hsave : context.passwordSave = some id)
    (hsets : data.setsPassword = true) (edits : Edits written id a row l) :
    (m.documentUpdate context id data).Ensures accountGuarantee
      (fun _ l' => row.anonymisedAt = none ∧ ∃ blocked, data.storedBlocked = some blocked ∧
        Edits true id a (data.unguarded.write blocked row) l') l := by
  unfold AccountModule.documentUpdate
  apply ensures_readOwn edits
  intro l₁ view keeps₁ edits₁ hview
  rw [hview]
  apply ensures_tombstoneOwn edits₁
  intro l₂ keeps₂ edits₂ live
  unfold AccountModule.guardWrite
  apply ensures_assertPassword
  have hdata : data.unguarded.setsPassword = true := hsets
  rw [if_pos hdata]
  apply ensures_readOwn edits₂
  intro l₃ view₃ keeps₃ edits₃ hview₃
  rw [hview₃]
  dsimp only
  rw [if_pos hsave]
  apply Ensures.bind
  refine (writeDocument_own edits₃).mono ?_
  rintro _ l₄ ⟨_, blocked, hblocked, edits₄⟩ l₅ h₅
  exact ⟨live, blocked, hblocked, edits₄.later h₅⟩

/-- The user service's own save of a password. -/
theorem savePassword_ensures (hfree : context.inFlight = []) (hsets : data.setsPassword = true)
    (clean : l.changes = untouched) :
    (saveAfterBump context id fun inner => m.documentUpdate inner id data).Ensures
      accountGuarantee
      (fun version l' => Saved id data (some version) l'.rows l'.changes ∧
        ∀ tv, context.expectedBump = some (id, tv) → version = tv + 1) l := by
  have hraises : ∀ a, data.raises a = true := by
    intro a
    simp [UserData.raises, hsets]
  unfold saveAfterBump
  rw [hfree, List.contains_nil, if_neg Bool.false_ne_true]
  apply ensures_bumpFresh clean
  intro l₁ a keeps₁ edits₁ raise
  have saved : ∀ inner : SaveContext, inner.passwordSave = some id →
      (∀ tv, context.expectedBump = some (id, tv) → a.nextVersion = tv + 1) →
      (m.documentUpdate inner id data >>= fun _ => pure a.nextVersion).Ensures accountGuarantee
        (fun version l' => Saved id data (some version) l'.rows l'.changes ∧
          ∀ tv, context.expectedBump = some (id, tv) → version = tv + 1) l₁ := by
    intro inner hsave expected
    apply Ensures.bind
    refine (documentUpdate_inside hsave hsets edits₁).mono ?_
    rintro _ l₂ ⟨live, blocked, hblocked, edits₂⟩ l₃ h₃
    refine ⟨Or.inr ⟨a, blocked, hblocked, live, ?_, by rw [if_pos hsets], fun _ => raise⟩, expected⟩
    have hrow : data.saved blocked a = data.unguarded.write blocked a.bumped := by
      unfold UserData.saved
      rw [if_pos (hraises a)]
    rw [hrow]
    exact (edits₂.later h₃).wrote
  split
  · rename_i userId tv hexpected
    split
    · trivial
    · rename_i hsame
      apply saved _ rfl
      intro tv' htv'
      rw [hexpected] at htv'
      cases htv'
      by_contra hne
      exact hsame ⟨rfl, hne⟩
  · rename_i hexpected
    apply saved _ rfl
    intro tv' htv'
    rw [hexpected] at htv'
    cases htv'

theorem edit_ensures (clean : l.changes = untouched) :
    (m.edit noContext id data).Ensures accountGuarantee
      (fun version l' => Saved id data version l'.rows l'.changes) l := by
  unfold AccountModule.edit
  split
  · rename_i hsets
    apply Ensures.map
    refine (savePassword_ensures rfl hsets clean).mono ?_
    intro version l' h
    exact h.1
  · exact documentUpdate_ensures clean

theorem changePassword_ensures {tv : Int} (clean : l.changes = untouched) :
    (m.changePassword callerId tv password).Ensures accountGuarantee
      (fun version l' => ∃ v, version = some v ∧
        Saved callerId (passwordData password) (some v) l'.rows l'.changes ∧ v = tv + 1) l := by
  have hsets : (passwordData password).setsPassword = true := rfl
  unfold AccountModule.changePassword AccountModule.edit
  rw [if_pos hsets]
  apply Ensures.map
  refine (savePassword_ensures rfl hsets clean).mono ?_
  intro version l' h
  exact ⟨version, rfl, h.1, h.2 tv rfl⟩

theorem documentDelete_ensures (clean : l.changes = untouched) :
    (documentDelete id).Ensures accountGuarantee
      (fun _ l' => l'.changes = untouched ∨ ∃ a, l'.rows (.user id) = .user a ∧
        a.anonymisedAt = none ∧ l'.changes = only id .removed) l := by
  unfold documentDelete
  apply ensures_select
  intro l₁ h₁ keys
  have clean₁ : l₁.changes = untouched := h₁.changes.trans clean
  cases hseen : account? l₁.current id with
  | none =>
      intro l₂ h₂
      exact Or.inl (h₂.changes.trans clean₁)
  | some found =>
      have seen : Seen id l₁.rows := seen_of_account? clean₁ hseen
      apply ensures_tombstoneSeen clean₁ seen
      · intro l₂ a keeps₂ edits₂ live
        apply ensures_updateWhere
        · intro l₃ h₃ _
          have edits₃ := edits₂.later h₃
          refine ⟨?_, ?_⟩
          · rw [edits₃.rows]
            trivial
          · intro l₄ h₄
            refine Or.inr ⟨a, ?_, live, ?_⟩
            · rw [h₄.kept _ (put_held_self _ _ _), put_rows]
              exact edits₃.rows
            · rw [h₄.changes]
              exact edits₃.put_changes _
        · intro l₃ h₃ hmissing
          rw [(edits₂.later h₃).current] at hmissing
          cases hmissing
      · intro l₂ gone₂
        apply ensures_updateWhere
        · intro l₃ h₃ hfound
          rw [(gone₂.later h₃).current] at hfound
          cases hfound
        · intro l₃ h₃ _ l₄ h₄
          exact Or.inl ((gone₂.later h₃).later h₄).clean

/-! ## The user administration -/

/-- The transaction holds the caller's row, an unblocked admin at the version of
the request. -/
structure AdminHeld (callerId : Nat) (callerTv : Option Int) (l : Known) : Prop where
  held : l.held (.user callerId)
  admin : ActiveAdmin callerId callerTv l.rows

theorem AdminHeld.keeps (h : AdminHeld callerId callerTv l) (hl : Keeps l l') :
    AdminHeld callerId callerTv l' := by
  refine ⟨hl.held _ h.held, ?_⟩
  obtain ⟨caller, hrow, hactive, htv⟩ := h.admin
  exact ⟨caller, (hl.rows _ h.held).trans hrow, hactive, htv⟩

theorem ensures_lockDirectory {next : Bool → AccountTxn α} (clean : l.changes = untouched)
    (h : ∀ l', Keeps l l' → l'.changes = untouched → (next true).Ensures accountGuarantee Q l') :
    (lockDirectory >>= next).Ensures accountGuarantee Q l := by
  apply ensures_forUpdate
  · intro l₁ h₁ _
    exact h _ ((keeps_of_later h₁).trans (keeps_hold _ _)) (h₁.changes.trans clean)
  · intro _ _ hfalse
    cases hfalse

theorem ensures_asAdmin (clean : l.changes = untouched)
    (h : ∀ l', l'.changes = untouched → AdminHeld callerId callerTv l' →
      (next ()).Ensures accountGuarantee Q l') :
    (asAdmin callerId callerTv >>= next).Ensures accountGuarantee Q l := by
  apply Ensures.bind
  apply ensures_lockDirectory clean
  intro l₁ _ clean₁
  apply ensures_lockUser clean₁
  · intro l₂ caller _ edits₂
    dsimp only
    split
    · trivial
    · rename_i hactive
      split
      · rename_i htv
        intro l₃ h₃
        have edits₃ := edits₂.later h₃
        exact h l₃ edits₃.changes ⟨edits₃.held, caller, edits₃.rows, by simpa using hactive, htv⟩
      · trivial
  · intro _ _ _
    trivial

/-- A user read without a lock: the row may move on, but it was there. -/
theorem ensures_loadUser {next : Account → AccountTxn α} (clean : l.changes = untouched)
    (h : ∀ l' user, Keeps l l' → l'.changes = untouched → Seen id l'.rows →
      (next user).Ensures accountGuarantee Q l') :
    (loadUser id >>= next).Ensures accountGuarantee Q l := by
  apply Ensures.bind
  apply ensures_select
  intro l₁ h₁ keys
  dsimp only
  cases hseen : account? l₁.current id with
  | none => trivial
  | some user =>
      intro l₂ h₂
      have clean₁ : l₁.changes = untouched := h₁.changes.trans clean
      exact h l₂ user (keeps_of_later (h₁.trans h₂)) (h₂.changes.trans clean₁)
        ((seen_of_account? clean₁ hseen).onward h₂.onward)

theorem ensures_refuseAnonymised (h : (next ()).Ensures accountGuarantee Q l) :
    (refuseAnonymised user >>= next).Ensures accountGuarantee Q l := by
  unfold refuseAnonymised
  split
  · trivial
  · exact h

theorem checkRole_quiet (role : Option Entra.RoleType) : (checkRole role).Quiet := by
  unfold checkRole
  split
  · trivial
  · rename_i role
    intro env
    show Txn.Quiet (if env.roles.contains role then pure () else refuseKey "role")
    split <;> trivial

theorem checkDepartment_quiet (department : Option (Option String)) :
    (checkDepartment department).Quiet := by
  unfold checkDepartment
  split
  · trivial
  · rename_i documentId _
    intro env
    show Txn.Quiet (if env.departments.contains documentId then pure () else refuseKey "department")
    split <;> trivial

theorem reportsTo_quiet (userId steps : Nat) (current : Option Nat) :
    (reportsTo userId steps current).Quiet := by
  induction steps generalizing current with
  | zero =>
      cases current with
      | none => trivial
      | some _ => trivial
  | succ steps ih =>
      cases current with
      | none => trivial
      | some current =>
          unfold reportsTo
          split
          · trivial
          · intro view
            exact ih _

theorem checkManager_quiet (id : Nat) (manager : Option (Option Nat)) :
    (checkManager id manager).Quiet := by
  unfold checkManager
  split
  · trivial
  · split
    · trivial
    · rename_i manager _ _
      apply Quiet.bind (p := Txn.select) (fun _ => trivial)
      intro view
      split
      · trivial
      · apply Quiet.bind (reportsTo_quiet _ _ _)
        intro reports
        split <;> trivial

/-- What the transaction of an admin still knows after statements that change
nothing. -/
theorem AdminHeld.onward (h : AdminHeld callerId callerTv l) (hl : l.Onward accountGuarantee l') :
    AdminHeld callerId callerTv l' :=
  h.keeps (keeps_of_onward hl)

theorem applyUpdate_ensures (clean : l.changes = untouched) (seen : Seen id l.rows)
    (admin : AdminHeld callerId callerTv l) :
    (applyUpdate id update user).Ensures accountGuarantee
      (fun wasBlocked l' => AdminHeld callerId callerTv l' ∧
        (l'.changes = untouched ∨
          ∃ a, Wrote id a (update.saved wasBlocked a) l'.rows l'.changes ∧
            (update.blocked = some true → wasBlocked = false → a.CanRaise))) l := by
  unfold applyUpdate
  apply ensures_quiet (checkRole_quiet _)
  intro _ l₁ h₁
  apply ensures_quiet (checkDepartment_quiet _)
  intro _ l₂ h₂
  apply ensures_quiet (checkManager_quiet _ _)
  intro _ l₃ h₃
  have clean₃ : l₃.changes = untouched :=
    h₃.changes.trans (h₂.changes.trans (h₁.changes.trans clean))
  have admin₃ := ((admin.onward h₁).onward h₂).onward h₃
  apply ensures_updateFresh clean₃
  · intro l₄ a keeps₄ edits₄
    split
    · rename_i hblocks
      apply ensures_bumpOwn edits₄
      intro l₅ keeps₅ edits₅ raise l₆ h₆
      refine ⟨admin₃.keeps ((keeps₄.trans keeps₅).trans (keeps_of_later h₆)), Or.inr ⟨a, ?_, ?_⟩⟩
      · have hsaved : update.saved false a = (update.write a).bumped := by
          unfold UserAdminUpdate.saved
          rw [if_pos ⟨hblocks.1, rfl⟩]
        rw [hsaved]
        exact (edits₅.later h₆).wrote
      · intro _ _
        exact raise
    · rename_i hblocks
      intro l₅ h₅
      refine ⟨admin₃.keeps (keeps₄.trans (keeps_of_later h₅)), Or.inr ⟨a, ?_, ?_⟩⟩
      · have hsaved : update.saved (decide (user.blocked = some true)) a = update.write a := by
          unfold UserAdminUpdate.saved
          rw [if_neg]
          rintro ⟨hset, hwas⟩
          exact hblocks ⟨hset, of_decide_eq_false hwas⟩
        rw [hsaved]
        exact (edits₄.later h₅).wrote
      · intro hset hwas
        exact absurd ⟨hset, of_decide_eq_false hwas⟩ hblocks
  · intro l₄ h₄ hmissing
    have clean₄ : l₄.changes = untouched := h₄.changes.trans clean₃
    have seen₃ := ((seen.onward h₁).onward h₂).onward h₃
    have gone : Gone id l₄ := ⟨clean₄, (seen₃.onward h₄.onward).removed clean₄ hmissing⟩
    split
    · exact ensures_bumpGone gone
    · intro l₅ h₅
      exact ⟨admin₃.keeps (keeps_of_later (h₄.trans h₅)), Or.inl (h₅.changes.trans clean₄)⟩

theorem updateUser_ensures (clean : l.changes = untouched) :
    (m.updateUser callerId callerTv id update).Ensures accountGuarantee
      (fun wasBlocked l' => ActiveAdmin callerId callerTv l'.rows ∧
        (id = callerId → update.role = none ∧ update.blocked = none) ∧
        (l'.changes = untouched ∨
          ∃ a, Wrote id a (update.saved wasBlocked a) l'.rows l'.changes ∧
            (update.blocked = some true → wasBlocked = false → a.CanRaise))) l := by
  unfold AccountModule.updateUser
  apply ensures_asAdmin clean
  intro l₁ clean₁ admin₁
  apply ensures_loadUser clean₁
  intro l₂ user keeps₂ clean₂ seen₂
  apply ensures_refuseAnonymised
  dsimp only
  split
  · trivial
  · rename_i hcodes
    refine (applyUpdate_ensures clean₂ seen₂ (admin₁.keeps keeps₂)).mono ?_
    rintro wasBlocked l₃ ⟨admin₃, left⟩
    refine ⟨admin₃.admin, ?_, left⟩
    intro hself
    rw [not_not, hself] at hcodes
    exact AccountModule.not_self_of_refusedFields hcodes

theorem handRoleToEntra_ensures (clean : l.changes = untouched) :
    (handRoleToEntra callerId callerTv id).Ensures accountGuarantee
      (fun _ l' => ActiveAdmin callerId callerTv l'.rows ∧ id ≠ callerId ∧
        (l'.changes = untouched ∨ ∃ a idp, Wrote id a (a.handed idp) l'.rows l'.changes)) l := by
  unfold handRoleToEntra
  apply ensures_asAdmin clean
  intro l₁ clean₁ admin₁
  apply ensures_loadUser clean₁
  intro l₂ user keeps₂ clean₂ _
  apply ensures_refuseAnonymised
  split
  · trivial
  · rename_i hother
    have admin₂ := admin₁.keeps keeps₂
    split
    · trivial
    · rename_i idp _
      apply ensures_updateFresh clean₂
      · intro l₃ a keeps₃ edits₃ l₄ h₄
        exact ⟨(admin₂.keeps (keeps₃.trans (keeps_of_later h₄))).admin, hother,
          Or.inr ⟨a, idp, (edits₃.later h₄).wrote⟩⟩
      · intro l₃ h₃ _ l₄ h₄
        exact ⟨(admin₂.keeps (keeps_of_later (h₃.trans h₄))).admin, hother,
          Or.inl (h₄.changes.trans (h₃.changes.trans clean₂))⟩

theorem clearMfa_ensures (clean : l.changes = untouched) (seen : Seen id l.rows) :
    (clearMfa id).Ensures accountGuarantee
      (fun _ l' => Keeps l l' ∧ ∃ a, Wrote id a a.cleared.bumped l'.rows l'.changes ∧
        a.CanRaise) l := by
  unfold clearMfa
  apply ensures_lockUserRow clean
  · intro l₁ a keeps₁ edits₁
    apply ensures_updateOwn edits₁
    intro l₂ keeps₂ edits₂
    refine (bumpOwn_ensures edits₂).mono ?_
    rintro version l₃ ⟨keeps₃, edits₃, raise, _⟩
    exact ⟨(keeps₁.trans keeps₂).trans keeps₃, a, edits₃.wrote, raise⟩
  · intro l₁ h₁ habsent
    have clean₁ : l₁.changes = untouched := h₁.changes.trans clean
    have gone : Gone id l₁ := ⟨clean₁, (seen.onward h₁.onward).removed clean₁ habsent⟩
    apply ensures_updateGone gone
    intro l₂ gone₂
    apply ensures_updateGone gone₂
    intro _ _
    trivial

theorem resetUserMfa_ensures (clean : l.changes = untouched) :
    (resetUserMfa callerId callerTv id).Ensures accountGuarantee
      (fun _ l' => ActiveAdmin callerId callerTv l'.rows ∧ id ≠ callerId ∧
        ∃ a, Wrote id a a.cleared.bumped l'.rows l'.changes ∧ a.CanRaise) l := by
  unfold resetUserMfa
  apply ensures_asAdmin clean
  intro l₁ clean₁ admin₁
  apply ensures_loadUser clean₁
  intro l₂ user keeps₂ clean₂ seen₂
  apply ensures_refuseAnonymised
  split
  · trivial
  · rename_i hother
    refine (clearMfa_ensures clean₂ seen₂).mono ?_
    rintro _ l₃ ⟨keeps₃, left⟩
    exact ⟨(admin₁.keeps (keeps₂.trans keeps₃)).admin, hother, left⟩

theorem anonymiseUser_ensures {confirm : Option String} {at_ : Int} (clean : l.changes = untouched) :
    (anonymiseUser callerId callerTv id confirm at_).Ensures accountGuarantee
      (fun _ l' => ActiveAdmin callerId callerTv l'.rows ∧ ∃ a, a.anonymisedAt = none ∧
        a.blocked = some true ∧ Wrote id a (a.tombstone at_) l'.rows l'.changes) l := by
  unfold anonymiseUser
  apply ensures_asAdmin clean
  intro l₁ clean₁ admin₁
  apply ensures_lockUser clean₁
  · intro l₂ a keeps₂ edits₂
    dsimp only
    split
    · trivial
    · rename_i hlive
      split
      · trivial
      · rename_i hblocked
        split
        · trivial
        · apply ensures_updateOwn edits₂
          intro l₃ keeps₃ edits₃ l₄ h₄
          exact ⟨(admin₁.keeps ((keeps₂.trans keeps₃).trans (keeps_of_later h₄))).admin, a,
            Option.not_isSome_iff_eq_none.mp hlive, not_not.mp hblocked, (edits₃.later h₄).wrote⟩
  · intro _ _ _
    trivial

/-! ## Sign-ins and links -/

theorem writeRole_ensures {signIn : RoleSignIn} (clean : l.changes = untouched) :
    (writeRole id signIn).Ensures accountGuarantee
      (fun refusal l' => l'.changes = untouched ∨ ∃ a data audit,
        signIn.decide a = .update data audit ∧ refusal = none ∧
        Wrote id a (a.withUpdate data) l'.rows l'.changes) l := by
  unfold writeRole
  apply ensures_lockDirectory clean
  intro l₁ _ clean₁
  apply ensures_lockUser clean₁
  · intro l₂ a _ edits₂
    dsimp only
    split
    · intro l₃ h₃
      exact Or.inl (edits₂.later h₃).changes
    · rename_i data audit hdecide
      apply ensures_ask
      intro env
      split
      · apply ensures_updateOwn edits₂
        intro l₃ _ edits₃ l₄ h₄
        exact Or.inr ⟨a, data, audit, hdecide, rfl, (edits₃.later h₄).wrote⟩
      · intro l₃ h₃
        exact Or.inl (edits₂.later h₃).changes
    · intro l₃ h₃
      exact Or.inl (edits₂.later h₃).changes
    · intro l₃ h₃
      exact Or.inl (edits₂.later h₃).changes
  · intro _ _ _
    trivial

theorem issueLink_ensures {of : Account} (edits : Edits written id a row l) :
    (m.issueLink id of purpose secret now).Ensures accountGuarantee
      (fun _ l' => Keeps l l' ∧
        Edits true id a (row.withLink (m.storedLink purpose of secret now)) l') l := by
  apply ensures_updateOwn edits
  intro l₁ keeps₁ edits₁ l₂ h₂
  exact ⟨keeps₁.trans (keeps_of_later h₂), edits₁.later h₂⟩

theorem ensures_linksPossible (h : (next ()).Ensures accountGuarantee Q l) :
    (m.assertLinksPossible >>= next).Ensures accountGuarantee Q l := by
  unfold AccountModule.assertLinksPossible
  split
  · trivial
  · split
    · trivial
    · exact h

theorem sendLink_ensures (clean : l.changes = untouched) :
    (m.sendLink callerId callerTv id secret now).Ensures accountGuarantee
      (fun _ l' => ActiveAdmin callerId callerTv l'.rows ∧ ∃ a, a.isLocalUnbound = true ∧
        a.blocked ≠ some true ∧
        Wrote id a (a.withLink (m.storedLink (linkPurpose a) a secret now)) l'.rows l'.changes)
      l := by
  unfold AccountModule.sendLink
  apply ensures_linksPossible
  apply ensures_asAdmin clean
  intro l₁ clean₁ admin₁
  apply ensures_lockUser clean₁
  · intro l₂ a keeps₂ edits₂
    dsimp only
    split
    · trivial
    · rename_i hlocal
      split
      · trivial
      · rename_i hblocked
        refine (issueLink_ensures edits₂).mono ?_
        rintro _ l₃ ⟨keeps₃, edits₃⟩
        exact ⟨(admin₁.keeps (keeps₂.trans keeps₃)).admin, a, by simpa using hlocal, hblocked,
          edits₃.wrote⟩
  · intro _ _ _
    trivial

/-- The row that the transaction has inserted for `id`. -/
structure Created (id : Nat) (row : Account) (l : Known) : Prop where
  held : l.held (.user id)
  rows : l.rows (.user id) = .empty
  current : l.current (.user id) = .user row
  changes : l.changes = only id (.user row)

theorem Created.later (h : Created id row l) (hl : l.Later accountGuarantee l') :
    Created id row l' := by
  refine ⟨?_, ?_, ?_, ?_⟩
  · rw [hl.held]
    exact h.held
  · rw [hl.kept _ h.held]
    exact h.rows
  · rw [hl.current_eq h.held]
    exact h.current
  · rw [hl.changes]
    exact h.changes

theorem issueInvitation_ensures (created : Created id row l) :
    (loadUser id >>= fun read => m.issueLink id read purpose secret now).Ensures accountGuarantee
      (fun _ l' => Keeps l l' ∧
        Created id (row.withLink (m.storedLink purpose row secret now)) l') l := by
  apply Ensures.bind
  apply ensures_select
  intro l₁ h₁ keys
  have created₁ := created.later h₁
  have hread : account? l₁.current id = some row := account?_eq_some.mpr created₁.current
  dsimp only
  rw [hread]
  intro l₂ h₂
  have created₂ := created₁.later h₂
  apply ensures_updateWhere
  · intro l₃ h₃ _
    have created₃ := created₂.later h₃
    rw [created₃.current]
    refine ⟨by rw [created₃.rows]; trivial, ?_⟩
    intro l₄ h₄
    have keeps : Keeps l l₄ :=
      (keeps_of_later (h₁.trans (h₂.trans h₃))).trans ((keeps_put _ _ _).trans (keeps_of_later h₄))
    refine ⟨keeps, Created.later ⟨put_held_self _ _ _, created₃.rows, put_current_self _ _ _, ?_⟩ h₄⟩
    show Function.update l₃.changes (.user id) _ = _
    rw [created₃.changes]
    exact Function.update_idem ..
  · intro l₃ h₃ hmissing
    rw [(created₂.later h₃).current] at hmissing
    cases hmissing

theorem inviteUser_ensures {invite : Invite} (clean : l.changes = untouched) :
    (m.inviteUser callerId callerTv invite secret now).Ensures accountGuarantee
      (fun _ l' => ActiveAdmin callerId callerTv l'.rows ∧ ∃ id, l'.rows (.user id) = .empty ∧
        l'.changes = only id (.user
          (invite.account.withLink (m.storedLink .invite invite.account secret now)))) l := by
  unfold AccountModule.inviteUser
  apply ensures_linksPossible
  split
  · trivial
  · apply ensures_asAdmin clean
    intro l₁ clean₁ admin₁
    apply ensures_select
    intro l₂ h₂ keys
    split
    · trivial
    · apply ensures_quiet (checkRole_quiet _)
      intro _ l₃ h₃
      apply ensures_quiet (checkDepartment_quiet _)
      intro _ l₄ h₄
      have clean₄ : l₄.changes = untouched :=
        h₄.changes.trans (h₃.changes.trans (h₂.changes.trans clean₁))
      have admin₄ := ((admin₁.onward h₂.onward).onward h₃).onward h₄
      apply ensures_insert
      intro l₅ h₅ key hkey hblank hfree
      refine ⟨trivial, ?_⟩
      cases key with
      | directory => cases hkey
      | user id =>
          have clean₅ : l₅.changes = untouched := h₅.changes.trans clean₄
          have created : Created id invite.account (l₅.put (.user id) (.user invite.account)) := by
            refine ⟨put_held_self _ _ _, hblank, put_current_self _ _ _, ?_⟩
            show Function.update l₅.changes (.user id) _ = _
            rw [clean₅]
            rfl
          refine (issueInvitation_ensures created).mono ?_
          rintro _ l₆ ⟨keeps₆, created₆⟩
          have admin₅ := admin₄.onward h₅.onward
          exact ⟨(admin₅.keeps ((keeps_put _ _ _).trans keeps₆)).admin, id, created₆.rows,
            created₆.changes⟩

theorem requestReset_ensures {email : String} (clean : l.changes = untouched) :
    (m.requestReset email secret now).Ensures accountGuarantee
      (fun _ l' => l'.changes = untouched ∨ ∃ id a, a.isLocalUnbound = true ∧
        a.blocked ≠ some true ∧ a.password.getD "" ≠ "" ∧
        Wrote id a (a.withLink (m.storedLink .reset a secret now)) l'.rows l'.changes) l := by
  unfold AccountModule.requestReset
  apply ensures_select
  intro l₁ h₁ keys
  have clean₁ : l₁.changes = untouched := h₁.changes.trans clean
  split
  · intro l₂ h₂
    exact Or.inl (h₂.changes.trans clean₁)
  · rename_i key _
    apply ensures_lockUser clean₁
    · intro l₂ a _ edits₂
      dsimp only
      split
      · intro l₃ h₃
        exact Or.inl (edits₂.later h₃).changes
      · rename_i hlocal
        simp only [not_or, Bool.not_eq_false] at hlocal
        split
        · intro l₃ h₃
          exact Or.inl (edits₂.later h₃).changes
        · rename_i hpassword
          apply Ensures.map
          refine (issueLink_ensures edits₂).mono ?_
          rintro _ l₃ ⟨_, edits₃⟩
          exact Or.inr ⟨userIdOf key, a, hlocal.1, hlocal.2, hpassword, edits₃.wrote⟩
    · intro l₂ _ clean₂ l₃ h₃
      exact Or.inl (h₃.changes.trans clean₂)

theorem redeemLink_ensures {token : String} (clean : l.changes = untouched) :
    (m.redeemLink (some token) (some password) now).Ensures accountGuarantee
      (fun _ l' => ∃ id a, m.linkMatches id a token now = true ∧
        Wrote id a (a.redeemed password.hash) l'.rows l'.changes) l := by
  unfold AccountModule.redeemLink
  split
  · rename_i id token' password' _ htoken hpassword
    cases htoken
    cases hpassword
    apply ensures_lockUser clean
    · intro l₁ a _ edits₁
      dsimp only
      split
      · trivial
      · rename_i hmatch
        apply ensures_assertPassword
        apply ensures_updateWhere
        · intro l₂ h₂ _
          have edits₂ := edits₁.later h₂
          rw [edits₂.current]
          refine ⟨follows_self l₂ _ _ edits₂.rows, ?_⟩
          intro l₃ h₃
          exact ⟨id, a, by simpa using hmatch, ((edits₂.put _).later h₃).wrote⟩
        · intro _ _ _
          trivial
    · intro _ _ _
      trivial
  · trivial

/-! ## Every call -/

/-- Without the token or the password there is nothing to redeem. -/
theorem redeemLink_refuses {token : Option String} {password : Option NewPassword}
    (h : token = none ∨ password = none) (Q : Unit → Known → Prop) :
    (m.redeemLink token password now).Ensures accountGuarantee Q l := by
  unfold AccountModule.redeemLink
  split
  · rcases h with h | h <;> cases h
  · trivial

/-- Every transaction reaches the postcondition of its call. -/
theorem program_ensures (call : AccountCall) (clean : l.changes = untouched) :
    (m.program call).Ensures accountGuarantee (m.post.holds call) l := by
  cases call with
  | changePassword callerId tv password =>
      apply Ensures.map
      refine (changePassword_ensures clean).mono ?_
      rintro _ l' ⟨v, rfl, h⟩
      exact h
  | edit id data =>
      apply Ensures.map
      exact edit_ensures clean
  | documentUpdate id data =>
      apply Ensures.map
      exact documentUpdate_ensures clean
  | documentDelete id =>
      apply Ensures.map
      exact documentDelete_ensures clean
  | updateUser callerId callerTv id update =>
      apply Ensures.map
      exact updateUser_ensures clean
  | handRoleToEntra callerId callerTv id =>
      apply Ensures.map
      exact handRoleToEntra_ensures clean
  | resetUserMfa callerId callerTv id =>
      apply Ensures.map
      exact resetUserMfa_ensures clean
  | anonymiseUser callerId callerTv id confirm at_ =>
      apply Ensures.map
      exact anonymiseUser_ensures clean
  | writeRole userId signIn =>
      apply Ensures.map
      exact writeRole_ensures clean
  | sendLink callerId callerTv id secret now =>
      apply Ensures.map
      exact sendLink_ensures clean
  | inviteUser callerId callerTv invite secret now =>
      apply Ensures.map
      exact inviteUser_ensures clean
  | requestReset email secret now =>
      apply Ensures.map
      exact requestReset_ensures clean
  | redeemLink token password now =>
      apply Ensures.map
      cases token with
      | none => exact redeemLink_refuses (Or.inl rfl) _
      | some token =>
          cases password with
          | none => exact redeemLink_refuses (Or.inr rfl) _
          | some password => exact redeemLink_ensures clean
  | raiseVersion id =>
      apply Ensures.map
      refine (bumpFresh_ensures clean).mono ?_
      rintro version l' ⟨_, a, edits, raise, hversion⟩
      exact ⟨a, edits.wrote, raise, hversion⟩

end Ensures

end Sinnlos.Cms.Accounts

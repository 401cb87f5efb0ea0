import Sinnlos.Cms.BlockSessions

/-! # The last admin

Every write of the user administration has an unblocked admin as its caller, who
is never its target, so that one stays. A sign-in of an identity provider has no
caller: its role write can take the role from the last admin there is.
-/

namespace Sinnlos.Cms.Accounts

open Runs (Run)

/-- The writers of the directory: the user administration, the anonymisation and
the sign-ins that write roles. -/
def AccountCall.OfDirectory : AccountCall → Prop
  | .updateUser _ _ _ _ | .handRoleToEntra _ _ _ | .resetUserMfa _ _ _ => True
  | .anonymiseUser _ _ _ _ _ | .writeRole _ _ => True
  | _ => False

def IsAdmin (rows : Rows) (id : Nat) : Prop :=
  ∃ a, rows (.user id) = .user a ∧ a.isActiveAdmin = true

def HasAdmin (rows : Rows) : Prop := ∃ id, IsAdmin rows id

/-- The sign-in takes the role of an unblocked admin. -/
def RoleSignIn.demotes (signIn : RoleSignIn) (a : Account) : Bool :=
  match signIn.decide a with
  | .update data _ => a.isActiveAdmin && !(a.withUpdate data).isActiveAdmin
  | _ => false

/-- A role write that demotes commits only where another admin is left. -/
def LeavesAdmin (s : AccountDatabase) (label : AccountLabel) : Prop :=
  ∀ t id signIn a, label = .commit t →
    (s.phase t = some (.writeRole id signIn, .committing (.role none)) ∨
      s.phase t = some (.writeRole id signIn, .abandoned (.role none))) →
    s.rows (.user id) = .user a → signIn.demotes a = true → ∃ other, other ≠ id ∧ IsAdmin s.rows other

/-! ## One commit -/

variable {a : Account}

theorem isActiveAdmin_iff :
    a.isActiveAdmin = true ↔ a.blocked ≠ some true ∧ a.roleType = some ADMIN_ROLE.type := by
  simp [Account.isActiveAdmin]

variable {rows first : Rows} {id : Nat} {m : AccountModule} {s s' : AccountDatabase}

theorem ActiveAdmin.isAdmin {callerId : Nat} {callerTv : Option Int}
    (h : ActiveAdmin callerId callerTv rows) : IsAdmin rows callerId := by
  obtain ⟨caller, found, active, _⟩ := h
  exact ⟨caller, found, active⟩

/-- Another user's row leaves an admin an admin. -/
theorem IsAdmin.only_of_ne {other : Nat} {record : Record} (h : IsAdmin rows other)
    (hne : other ≠ id) : IsAdmin (overlay (only id record) rows) other := by
  obtain ⟨a, found, active⟩ := h
  exact ⟨a, by rw [overlay_only_of_ne rows record hne]; exact found, active⟩

theorem isAdmin_only_self {b : Account} (h : b.isActiveAdmin = true) :
    IsAdmin (overlay (only id (.user b)) rows) id :=
  ⟨b, overlay_only_self rows id _, h⟩

/-- The caller of an update stays an admin, also where the update is of their row. -/
theorem saved_isActiveAdmin {change : UserAdminUpdate} {wasBlocked : Bool}
    (unchanged : change.role = none ∧ change.blocked = none) (h : a.isActiveAdmin = true) :
    (change.saved wasBlocked a).isActiveAdmin = true := by
  rw [isActiveAdmin_iff] at h ⊢
  rw [updated_blocked, updated_roleType, unchanged.1, unchanged.2]
  exact h

variable {callerId : Nat} {callerTv : Option Int} {call : AccountCall} {result : AccountResult}
  {changes : RowKey → Option Record}

theorem ActiveAdmin.only_of_ne {record : Record} (h : ActiveAdmin callerId callerTv rows)
    (hne : callerId ≠ id) : ActiveAdmin callerId callerTv (overlay (only id record) rows) := by
  obtain ⟨caller, found, rest⟩ := h
  exact ⟨caller, by rw [overlay_only_of_ne rows record hne]; exact found, rest⟩

theorem ActiveAdmin.wrote {b : Account} (active : ActiveAdmin callerId callerTv rows)
    (wrote : Wrote id a b rows changes)
    (own : id = callerId → a.isActiveAdmin = true →
      b.isActiveAdmin = true ∧ b.tokenVersion = a.tokenVersion) :
    ActiveAdmin callerId callerTv (overlay changes rows) := by
  rw [wrote.changes]
  by_cases heq : id = callerId
  · subst heq
    obtain ⟨caller, found, isAdmin, version⟩ := active
    rw [wrote.found] at found
    cases found
    obtain ⟨still, same⟩ := own rfl isAdmin
    exact ⟨b, overlay_only_self rows id _, still, same ▸ version⟩
  · exact active.only_of_ne fun e => heq e.symm

/-- Who calls the user administration, and the version of their request. -/
def AccountCall.caller? : AccountCall → Option (Nat × Option Int)
  | .updateUser id tv _ _ | .handRoleToEntra id tv _ | .resetUserMfa id tv _
  | .anonymiseUser id tv _ _ _ | .sendLink id tv _ _ _ | .inviteUser id tv _ _ _ => some (id, tv)
  | _ => none

/-- Who writes through the user administration is an admin, and stays one at the
version of the request. -/
theorem activeAdmin_of_post (hpost : m.post call result rows changes)
    (hcaller : call.caller? = some (callerId, callerTv)) :
    ActiveAdmin callerId callerTv rows ∧ ActiveAdmin callerId callerTv (overlay changes rows) := by
  unfold AccountModule.post at hpost
  split at hpost <;> try cases hcaller
  case h_5 id change wasBlocked =>
    obtain ⟨active, other, rfl | ⟨a, wrote, _⟩⟩ := hpost
    · exact ⟨active, active⟩
    · refine ⟨active, active.wrote wrote fun hself isAdmin => ?_⟩
      refine ⟨saved_isActiveAdmin (other hself) isAdmin, ?_⟩
      simp [(other hself).2]
  case h_6 id =>
    obtain ⟨active, other, rfl | ⟨a, idp, wrote⟩⟩ := hpost
    · exact ⟨active, active⟩
    · exact ⟨active, active.wrote wrote fun hself => absurd hself other⟩
  case h_7 id version =>
    obtain ⟨active, other, a, wrote, _⟩ := hpost
    exact ⟨active, active.wrote wrote fun hself => absurd hself other⟩
  case h_8 id confirm at_ =>
    obtain ⟨active, a, _, blocked, wrote⟩ := hpost
    exact ⟨active, active.wrote wrote fun _ isAdmin => absurd blocked (isActiveAdmin_iff.mp isAdmin).1⟩
  case h_10 id secret now token =>
    obtain ⟨active, a, _, _, wrote⟩ := hpost
    exact ⟨active, active.wrote wrote fun _ isAdmin => ⟨isAdmin, rfl⟩⟩
  case h_11 invite secret now token =>
    obtain ⟨active, id, fresh, rfl⟩ := hpost
    refine ⟨active, active.only_of_ne ?_⟩
    rintro rfl
    obtain ⟨caller, found, _⟩ := active
    rw [fresh] at found
    cases found
  all_goals exact hpost.elim

variable {label : AccountLabel}

/-- What a commit of the directory leaves: an admin, unless it is a role write that
leaves none. -/
theorem Commits.hasAdmin {commit : AccountCommit}
    (h : Commits m AccountCall.OfDirectory s label s' commit) (leaves : LeavesAdmin s label)
    (admin : HasAdmin s.rows) : HasAdmin commit.after := by
  have hpost := h.post
  have hcall := h.call
  have hphase := h.phase
  unfold Commit.after
  rw [h.before] at hpost ⊢
  generalize commit.call = call at hpost hcall hphase
  generalize commit.result = result at hpost hphase
  generalize commit.changes = changes at hpost
  have caller : ∀ {callerId callerTv}, call.caller? = some (callerId, callerTv) →
      HasAdmin (overlay changes s.rows) := fun hcaller =>
    ⟨_, (activeAdmin_of_post hpost hcaller).2.isAdmin⟩
  unfold AccountModule.post at hpost
  split at hpost
  case h_9 id signIn refusal =>
    rcases hpost with rfl | ⟨a, data, audit, decided, rfl, wrote⟩
    · exact admin
    · rw [wrote.changes]
      obtain ⟨other, hother⟩ := admin
      by_cases hne : other = id
      · subst hne
        by_cases demoted : signIn.demotes a = true
        · obtain ⟨another, hanother, left⟩ :=
            leaves _ other signIn a h.label hphase wrote.found demoted
          exact ⟨another, left.only_of_ne hanother⟩
        · obtain ⟨b, found, isAdmin⟩ := hother
          rw [wrote.found] at found
          cases found
          have still : (a.withUpdate data).isActiveAdmin = true := by
            simpa [RoleSignIn.demotes, decided, isAdmin] using demoted
          exact ⟨other, isAdmin_only_self still⟩
      · exact ⟨other, hother.only_of_ne hne⟩
  all_goals first | exact caller rfl | exact hpost.elim | exact hcall.elim

/-! ## Along a run -/

def DirectoryStep (m : AccountModule) (s : AccountDatabase) (label : AccountLabel)
    (s' : AccountDatabase) : Prop :=
  Step m s label s' ∧ LeavesAdmin s label

/-- What every run of the directory's writers keeps. -/
structure Manned (m : AccountModule) (first : Rows) (s : AccountDatabase) : Prop where
  kept : Kept m AccountCall.OfDirectory first s
  admin : HasAdmin s.rows
  after : ∀ commit ∈ s.log, HasAdmin commit.after

theorem Manned.step (h : Manned m first s) (hs : DirectoryStep m s label s')
    (begins : label.Begins AccountCall.OfDirectory) : Manned m first s' := by
  obtain ⟨kept, hcases⟩ := h.kept.step_cases hs.1 begins
  rcases hcases with ⟨hrows, hlog⟩ | ⟨commit, hcommit⟩
  · refine ⟨kept, ?_, ?_⟩
    · rw [hrows]
      exact h.admin
    · rw [hlog]
      exact h.after
  · have left := hcommit.hasAdmin hs.2 h.admin
    refine ⟨kept, ?_, ?_⟩
    · rw [hcommit.rows]
      exact left
    · rw [hcommit.log, List.forall_mem_cons]
      exact ⟨left, h.after⟩

/-- From an unblocked admin on there is one after every commit of the user
administration, of anonymisations and of sign-ins that write roles, as long as no
sign-in takes the role of the last one. -/
theorem last_admin_stays (m : AccountModule) {first last : AccountDatabase}
    {labels : List AccountLabel} (fresh : Fresh first) (h : Run (DirectoryStep m) first labels last)
    (begins : ∀ label ∈ labels, label.Begins AccountCall.OfDirectory) (admin : HasAdmin first.rows) :
    HasAdmin last.rows ∧ ∀ commit ∈ last.log, HasAdmin commit.after := by
  have start : Manned m first.rows first := by
    refine ⟨fresh.kept m _, admin, ?_⟩
    intro commit hc
    rw [fresh.started.log] at hc
    cases hc
  have manned : Manned m first.rows last :=
    h.invariant_of_labels (fun _ _ _ hlabel hs hm => hm.step hs hlabel) begins start
  exact ⟨manned.admin, manned.after⟩

/-! ## The only admin signs in -/

/-- An admin whose role the identity provider set. -/
def sampleSynced : Account :=
  { sampleAdmin with
    entraTenantId := some "t", microsoftOid := some "o", roleSource := some "entra",
    entraAppliedRole := some "admin_role" }

theorem sampleSynced_sane : sampleSynced.Sane := by
  intro v hv
  cases hv
  decide

/-- The provider now says that they are a member. -/
def demotion : List AccountLabel :=
  [.begin 0 (.writeRole 1 ⟨.role .member ["default"], .on, "entra", true⟩)] ++
  List.replicate 6 (.run 0 .directory) ++ [.commit 0]

def demotedEnd : AccountDatabase :=
  (Runs.follow (Database.next sampleModule.program) (sampleFirst sampleSynced).db demotion).getD
    (sampleFirst sampleSynced).db

theorem demotedEnd_run : Run (Step sampleModule) (sampleFirst sampleSynced).db demotion demotedEnd := by
  have hsome : (Runs.follow (Database.next sampleModule.program) (sampleFirst sampleSynced).db
      demotion).isSome = true := by decide +kernel
  obtain ⟨s, hs⟩ := Option.isSome_iff_exists.mp hsome
  have hend : demotedEnd = s := by
    unfold demotedEnd
    rw [hs]
    rfl
  rw [hend]
  exact Runs.run_of_follow hs

theorem demotion_begins : ∀ label ∈ demotion, label.Begins AccountCall.OfDirectory := by
  intro label hlabel t call heq
  rw [heq] at hlabel
  simp only [demotion, List.mem_append, List.mem_cons, List.mem_replicate, reduceCtorEq,
    List.not_mem_nil, or_false, and_false, TxnLabel.begin.injEq] at hlabel
  rw [hlabel.2]
  trivial

/-- A user who was never there is not there without an invitation. -/
theorem linked_empty {log : List AccountCommit} (linked : Database.Linked first log rows)
    (posted : ∀ commit ∈ log, m.post commit.call commit.result commit.before commit.changes)
    (calls : ∀ commit ∈ log, commit.call.OfDirectory) (hempty : first (.user id) = .empty) :
    rows (.user id) = .empty := by
  induction log generalizing rows with
  | nil =>
      cases linked
      exact hempty
  | cons commit earlier ih =>
      obtain ⟨rfl, hrest⟩ := linked
      rw [List.forall_mem_cons] at posted calls
      have change := commit_rowChange posted.1 id
      rw [ih hrest posted.2 calls.2] at change
      generalize hafter : commit.after (.user id) = after at change
      cases change with
      | same _ => rfl
      | invited hcall =>
          have hinvite := calls.1
          rw [hcall] at hinvite
          exact hinvite.elim

/-- The run starts with an admin and ends without one. -/
theorem last_admin_demoted :
    Fresh (sampleFirst sampleSynced).db ∧
      Run (Step sampleModule) (sampleFirst sampleSynced).db demotion demotedEnd ∧
      (∀ label ∈ demotion, label.Begins AccountCall.OfDirectory) ∧
      HasAdmin (sampleFirst sampleSynced).db.rows ∧ ¬ HasAdmin demotedEnd.rows := by
  refine ⟨(sampleFirst_fresh sampleSynced_sane).db, demotedEnd_run, demotion_begins, ?_, ?_⟩
  · exact ⟨1, sampleSynced, rfl, by decide +kernel⟩
  · have hkept : Kept sampleModule AccountCall.OfDirectory (sampleFirst sampleSynced).db.rows
        demotedEnd := demotedEnd_run.invariant_of_labels (fun _ _ _ hl hs hk => hk.step hs hl)
      demotion_begins ((sampleFirst_fresh sampleSynced_sane).db.kept _ _)
    rintro ⟨id, a, found, active⟩
    by_cases hone : id = 1
    · have demoted : (account? demotedEnd.rows 1).map Account.isActiveAdmin = some false := by
        decide +kernel
      rw [hone] at found
      rw [account?_eq_some.mpr found] at demoted
      exact Bool.false_ne_true ((Option.some.inj demoted).symm.trans active)
    · have hempty : (sampleFirst sampleSynced).db.rows (.user id) = .empty :=
        if_neg fun heq => hone (RowKey.user.inj heq)
      rw [linked_empty hkept.linked (fun commit hc => hkept.posted hc) hkept.calls.committed hempty]
        at found
      cases found

/-- Where no call is a sign-in's role write, every step leaves an admin. -/
theorem directoryRun {P : AccountCall → Prop} {labels : List AccountLabel}
    (h : Run (Step m) s labels s') (kept : Kept m P first s)
    (begins : ∀ label ∈ labels, label.Begins P) (others : ∀ id signIn, ¬ P (.writeRole id signIn)) :
    Run (DirectoryStep m) s labels s' := by
  induction h with
  | refl s => exact .refl s
  | @cons s t r label labels hs _ ih =>
      rw [List.forall_mem_cons] at begins
      refine .cons ⟨hs, ?_⟩ (ih (kept.step hs begins.1) begins.2)
      intro t id signIn a _ hphase _ _
      rcases hphase with hp | hp
      · exact absurd (kept.calls.underWay t _ _ hp) (others id signIn)
      · exact absurd (kept.calls.underWay t _ _ hp) (others id signIn)

/-- The admin 2 blocks the user 1. -/
def blockade : List AccountLabel :=
  [.begin 0 (.updateUser 2 (some 0) 1 (setBlocked true))] ++
  List.replicate 8 (.run 0 .directory) ++ [.commit 0]

/-- The admin 2 is left. -/
theorem last_admin_stays_sample : ∃ last,
    Runs.follow (Database.next sampleModule.program) (sampleTwo sampleAccount).db blockade =
      some last ∧ HasAdmin last.rows ∧ ∀ commit ∈ last.log, HasAdmin commit.after := by
  have hsome : (Runs.follow (Database.next sampleModule.program) (sampleTwo sampleAccount).db
      blockade).isSome = true := by decide +kernel
  obtain ⟨last, hlast⟩ := Option.isSome_iff_exists.mp hsome
  have fresh : Fresh (sampleTwo sampleAccount).db := (sampleTwo_fresh sampleAccount_sane).db
  have begins : ∀ label ∈ blockade, label.Begins fun call =>
      call = .updateUser 2 (some 0) 1 (setBlocked true) := by
    intro label hlabel t call heq
    rw [heq] at hlabel
    simp only [blockade, List.mem_append, List.mem_cons, List.mem_replicate, reduceCtorEq,
      List.not_mem_nil, or_false, and_false, TxnLabel.begin.injEq] at hlabel
    exact hlabel.2
  have hrun := directoryRun (Runs.run_of_follow hlast) (fresh.kept sampleModule _) begins
    (by simp)
  refine ⟨last, hlast, last_admin_stays sampleModule fresh hrun ?_ ?_⟩
  · intro label hlabel t call heq
    rw [begins label hlabel t call heq]
    trivial
  · exact ⟨2, sampleAdmin, rfl, by decide +kernel⟩

/-! ## Who administers -/

/-- Whatever ran since a request was let in: at the commit of its write the caller
is an unblocked admin, at the version of the request, and the write leaves them so. -/
theorem administration_is_authorised (m : AccountModule) {first last : AccountDatabase}
    {labels : List AccountLabel} {commit : AccountCommit} {callerId : Nat} {callerTv : Option Int}
    (fresh : Fresh first) (h : Run (Step m) first labels last) (hc : commit ∈ last.log)
    (hcaller : commit.call.caller? = some (callerId, callerTv)) :
    ActiveAdmin callerId callerTv commit.before ∧ ActiveAdmin callerId callerTv commit.after :=
  activeAdmin_of_post ((fresh.keeps h).posted hc) hcaller

theorem administration_is_authorised_sample : ∃ last commit,
    Runs.follow (Database.next sampleModule.program) (sampleTwo sampleAccount).db blockade =
      some last ∧ last.log = [commit] ∧ ActiveAdmin 2 (some 0) commit.before ∧
      ActiveAdmin 2 (some 0) commit.after := by
  have hcalls : (Runs.follow (Database.next sampleModule.program) (sampleTwo sampleAccount).db
      blockade).map (fun last => last.log.map Commit.call) =
        some [.updateUser 2 (some 0) 1 (setBlocked true)] := by
    rfl
  obtain ⟨last, hlast, hlog⟩ := Option.map_eq_some_iff.mp hcalls
  obtain ⟨commit, hone, hcall⟩ := List.map_eq_singleton_iff.mp hlog
  refine ⟨last, commit, hlast, hone, administration_is_authorised sampleModule
    (sampleTwo_fresh sampleAccount_sane).db (Runs.run_of_follow hlast) (by simp [hone]) ?_⟩
  rw [hcall]
  rfl

end Sinnlos.Cms.Accounts

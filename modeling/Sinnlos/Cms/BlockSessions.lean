import Sinnlos.Cms.PasswordSessions

/-! # Sessions across blocks

A block raises the token version with the state it stores, so it ends the
sign-ins it overtakes: those of the password, which read the version before they
check the state, and those of an identity provider as long as their token is
stamped before the block. A block that `updateUser` decides on a row that was
unblocked in the meantime raises nothing. Who is blocked can be anonymised, once.
-/

namespace Sinnlos.Cms.Accounts

open Runs (Run)

/-- The user is not deleted. -/
def AccountCall.Stays (call : AccountCall) : Prop := call.deletes = false

def Record.isBlocked : Record → Bool
  | .user a => decide (a.blocked = some true)
  | .empty | .removed => false

/-- The commit left the user blocked. -/
def Blocks (commit : AccountCommit) (id : Nat) : Prop :=
  (commit.after (.user id)).isBlocked = true

instance (commit : AccountCommit) (id : Nat) : Decidable (Blocks commit id) :=
  inferInstanceAs (Decidable (_ = true))

variable {a : Account}

theorem blocks_iff {commit : AccountCommit} {id : Nat} (after : commit.after (.user id) = .user a) :
    Blocks commit id ↔ a.blocked = some true := by
  unfold Blocks
  rw [after]
  exact decide_eq_true_iff

/-- The commits since a check at that length of the log. -/
def since (db : AccountDatabase) (checkedAt : Nat) : List AccountCommit :=
  db.log.take (db.log.length - checkedAt)

/-- The blocked check that a token rests on. -/
def Issuer.checkedAt? : Issuer → Option Nat
  | .signIn _ checkedAt => some checkedAt
  | .provider checkedAt => some checkedAt
  | .changePassword _ => none

/-- The order in which no block is overtaken: a token is stamped for an identity
provider only where no block came since its check, and an `updateUser` that blocks
a user it read as blocked commits only where the user still is. -/
def World.inOrder (w : World) : Act → Bool
  | .issueSession s =>
      match w.providers s with
      | some (.admitted id checkedAt) =>
          (since w.db checkedAt).all fun commit => decide (¬ Blocks commit id)
      | _ => true
  | .db (.commit t) =>
      match w.db.phase t with
      | some (.updateUser _ _ id change, .committing (.updated true)) =>
          decide (change.blocked ≠ some true) || (w.db.rows (.user id)).isBlocked
      | some (.updateUser _ _ id change, .abandoned (.updated true)) =>
          decide (change.blocked ≠ some true) || (w.db.rows (.user id)).isBlocked
      | _ => true
  | _ => true

/-! ## What a check leaves -/

/-- A user whose check found them unblocked is so until a commit blocks them. -/
structure Checked (id checkedAt : Nat) (db : AccountDatabase) : Prop where
  past : checkedAt ≤ db.log.length
  unblocked : (∀ commit ∈ since db checkedAt, ¬ Blocks commit id) →
    ∃ a, db.rows (.user id) = .user a ∧ a.blocked ≠ some true

/-- The user was at version `v` before, and as long as they are no block came since
the check. -/
structure Unbroken (id : Nat) (v : Int) (checkedAt : Nat) (db : AccountDatabase) : Prop where
  past : checkedAt ≤ db.log.length
  reached : Reached id v db.rows
  unblocked : ∀ a, db.rows (.user id) = .user a → a.version = v →
    a.blocked ≠ some true ∧ ∀ commit ∈ since db checkedAt, ¬ Blocks commit id

theorem since_now (db : AccountDatabase) : since db db.log.length = [] := by
  simp [since]

section Database
variable {m : AccountModule} {first : Rows} {s s' : AccountDatabase} {label : AccountLabel}
  {id checkedAt : Nat}

theorem since_same (hlog : s'.log = s.log) : since s' checkedAt = since s checkedAt := by
  unfold since
  rw [hlog]

variable {commit : AccountCommit} {a : Account}

theorem since_cons (hlog : s'.log = commit :: s.log) (past : checkedAt ≤ s.log.length) :
    since s' checkedAt = commit :: since s checkedAt := by
  unfold since
  have hlength : s.log.length + 1 - checkedAt = s.log.length - checkedAt + 1 := by omega
  rw [hlog, List.length_cons, hlength, List.take_succ_cons]

theorem checked_now (found : s.rows (.user id) = .user a) (unblocked : a.blocked ≠ some true) :
    Checked id s.log.length s :=
  ⟨Nat.le_refl _, fun _ => ⟨a, found, unblocked⟩⟩

variable {v : Int} {w : World}

theorem unbroken_now (reached : Reached id v s.rows) (found : s.rows (.user id) = .user a)
    (unblocked : a.blocked ≠ some true) : Unbroken id v s.log.length s := by
  refine ⟨Nat.le_refl _, reached, ?_⟩
  intro b hb _
  rw [found] at hb
  cases hb
  refine ⟨unblocked, ?_⟩
  rw [since_now]
  intro commit hc
  cases hc

theorem Checked.unbroken (h : Checked id checkedAt s) (found : s.rows (.user id) = .user a)
    (none : ∀ commit ∈ since s checkedAt, ¬ Blocks commit id) :
    Unbroken id a.version checkedAt s := by
  refine ⟨h.past, ⟨a, found, Int.le_refl _⟩, ?_⟩
  intro b hb _
  obtain ⟨c, hc, unblocked⟩ := h.unblocked none
  rw [found] at hb hc
  cases hb
  cases hc
  exact ⟨unblocked, none⟩

/-- A commit of a user who stays, as the user's row passes it. -/
theorem Commits.live (h : Commits m AccountCall.Stays s label s' commit)
    (found : s.rows (.user id) = .user a) :
    ∃ b, s'.rows (.user id) = .user b ∧ commit.after (.user id) = .user b ∧
      (b = a ∨ Rewrites m commit.call commit.result id a b) := by
  have change := commit_rowChange h.post id
  rw [h.before, found] at change
  obtain ⟨b, hb, hrewrites⟩ := change.live h.call
  exact ⟨b, by rw [h.rows]; exact hb, hb, hrewrites⟩

theorem Checked.step (h : Checked id checkedAt s) (kept : Kept m AccountCall.Stays first s)
    (hs : Step m s label s') (begins : label.Begins AccountCall.Stays) : Checked id checkedAt s' := by
  rcases (kept.step_cases hs begins).2 with ⟨hrows, hlog⟩ | ⟨commit, hcommit⟩
  · refine ⟨by rw [hlog]; exact h.past, ?_⟩
    rw [since_same hlog, hrows]
    exact h.unblocked
  · have past := h.past
    refine ⟨by rw [hcommit.log, List.length_cons]; omega, ?_⟩
    rw [since_cons hcommit.log h.past, List.forall_mem_cons]
    intro none
    obtain ⟨a, found, _⟩ := h.unblocked none.2
    obtain ⟨b, hb, hafter, _⟩ := hcommit.live found
    exact ⟨b, hb, fun blocked => none.1 ((blocks_iff hafter).mpr blocked)⟩

/-- The commit of a step in order blocks a user with the next version only. -/
theorem Commits.block {b : Account} (h : Commits m AccountCall.Stays w.db label s' commit)
    (ordered : w.inOrder (.db label) = true) (found : w.db.rows (.user id) = .user a)
    (sane : a.Sane) (rewrites : Rewrites m commit.call commit.result id a b)
    (unblocked : a.blocked ≠ some true) (blocked : b.blocked = some true) :
    b.version = a.version + 1 := by
  rcases rewrites.block sane unblocked blocked with hnext | ⟨hresult, callerId, callerTv, change, hcall, hset⟩
  · exact hnext
  · -- the row would have to be blocked already
    have still : (w.db.rows (.user id)).isBlocked = true := by
      rw [h.label] at ordered
      rcases h.phase with phase | phase
      · rw [hcall, hresult] at phase
        simpa [World.inOrder, phase, hset] using ordered
      · rw [hcall, hresult] at phase
        simpa [World.inOrder, phase, hset] using ordered
    rw [found] at still
    exact absurd (of_decide_eq_true still) unblocked

theorem Unbroken.step (h : Unbroken id v checkedAt w.db)
    (kept : Kept m AccountCall.Stays first w.db) (hs : Step m w.db label s')
    (begins : label.Begins AccountCall.Stays) (ordered : w.inOrder (.db label) = true) :
    Unbroken id v checkedAt s' := by
  have reached := h.reached.step kept hs begins fun _ hc => hc
  rcases (kept.step_cases hs begins).2 with ⟨hrows, hlog⟩ | ⟨commit, hcommit⟩
  · refine ⟨by rw [hlog]; exact h.past, reached, ?_⟩
    rw [since_same hlog, hrows]
    exact h.unblocked
  · have past := h.past
    refine ⟨by rw [hcommit.log, List.length_cons]; omega, reached, ?_⟩
    rw [since_cons hcommit.log h.past]
    intro b hb hv
    obtain ⟨a, found, hle⟩ := h.reached
    have sane := kept.sane id a found
    obtain ⟨b', hb', hafter, hrewrites⟩ := hcommit.live found
    rw [hb] at hb'
    cases hb'
    have still : b.blocked ≠ some true ∧ ∀ commit ∈ since w.db checkedAt, ¬ Blocks commit id := by
      rcases hrewrites with rfl | rewrites
      · exact h.unblocked b found hv
      · have hversion := (rewrites.version sane).2
        have hva : a.version = v := by omega
        obtain ⟨unblocked, none⟩ := h.unblocked a found hva
        refine ⟨?_, none⟩
        intro blocked
        have hnext := hcommit.block ordered found sane rewrites unblocked blocked
        omega
    refine ⟨still.1, ?_⟩
    rw [List.forall_mem_cons]
    exact ⟨fun blocks => still.1 ((blocks_iff hafter).mp blocks), still.2⟩

end Database

/-! ## Along a run in order -/

def LocalSignIn.Holds (db : AccountDatabase) : LocalSignIn → Prop
  | .known id v => Reached id v db.rows
  | .accepted id v _ checkedAt => Unbroken id v checkedAt db

def ProviderSignIn.Holds (db : AccountDatabase) : ProviderSignIn → Prop
  | .unblocked id checkedAt => Checked id checkedAt db
  | .writing id checkedAt _ => Checked id checkedAt db
  | .admitted id checkedAt => Checked id checkedAt db
  | .issued => True

def Jwt.Holds (db : AccountDatabase) (jwt : Jwt) : Prop :=
  ∀ checkedAt, jwt.issuer.checkedAt? = some checkedAt → Unbroken jwt.userId jwt.tv checkedAt db

/-- What every run in order keeps. -/
structure Watched (m : AccountModule) (first : Rows) (w : World) : Prop where
  kept : Kept m AccountCall.Stays first w.db
  locals : ∀ s signIn, w.locals s = some signIn → signIn.Holds w.db
  providers : ∀ s signIn, w.providers s = some signIn → signIn.Holds w.db
  jwts : ∀ jwt ∈ w.jwts, jwt.Holds w.db

section Steps
variable {m : AccountModule} {first : Rows} {w w' : World} {act : Act}

theorem World.Fresh.watched (h : w.Fresh) : Watched m w.db.rows w := by
  refine ⟨h.db.kept m _, ?_, ?_, ?_⟩
  · intro s signIn hsignIn
    rw [h.locals] at hsignIn
    cases hsignIn
  · intro s signIn hsignIn
    rw [h.providers] at hsignIn
    cases hsignIn
  · intro jwt hjwt
    rw [h.jwts] at hjwt
    cases hjwt

theorem Watched.setLocal (h : Watched m first w) (s : Nat) {signIn : LocalSignIn}
    (holds : signIn.Holds w.db) : Watched m first (w.setLocal s signIn) := by
  refine ⟨h.kept, ?_, h.providers, h.jwts⟩
  intro s' signIn' hlocal
  by_cases heq : s' = s
  · have hself : signIn = signIn' := by simpa [World.setLocal, heq] using hlocal
    rw [← hself]
    exact holds
  · have hother : w.locals s' = some signIn' := by simpa [World.setLocal, heq] using hlocal
    exact h.locals s' signIn' hother

theorem Watched.setProvider (h : Watched m first w) (s : Nat) {signIn : ProviderSignIn}
    (holds : signIn.Holds w.db) : Watched m first (w.setProvider s signIn) := by
  refine ⟨h.kept, h.locals, ?_, h.jwts⟩
  intro s' signIn' hprovider
  by_cases heq : s' = s
  · have hself : signIn = signIn' := by simpa [World.setProvider, heq] using hprovider
    rw [← hself]
    exact holds
  · have hother : w.providers s' = some signIn' := by simpa [World.setProvider, heq] using hprovider
    exact h.providers s' signIn' hother

variable {jwt : Jwt} {db : AccountDatabase}

theorem Watched.issue (h : Watched m first w) (holds : jwt.Holds w.db) :
    Watched m first (w.issue jwt) := by
  refine ⟨h.kept, h.locals, h.providers, ?_⟩
  intro other ho
  rcases List.mem_cons.mp ho with rfl | hold
  · exact holds
  · exact h.jwts other hold

theorem holds_of_unbroken {checkedAt : Nat} (hchecked : jwt.issuer.checkedAt? = some checkedAt)
    (h : Unbroken jwt.userId jwt.tv checkedAt db) : jwt.Holds db := by
  intro c hc
  rw [hchecked] at hc
  cases hc
  exact h

theorem Watched.database {label : AccountLabel} (h : Watched m first w)
    (hs : Step m w.db label db) (begins : label.Begins AccountCall.Stays)
    (ordered : w.inOrder (.db label) = true) : Watched m first { w with db } := by
  refine ⟨h.kept.step hs begins, ?_, ?_, ?_⟩
  · intro s signIn hsignIn
    have holds := h.locals s signIn hsignIn
    cases signIn with
    | known id v => exact Reached.step holds h.kept hs begins fun _ hc => hc
    | accepted id v password checkedAt => exact Unbroken.step holds h.kept hs begins ordered
  · intro s signIn hsignIn
    have holds := h.providers s signIn hsignIn
    cases signIn with
    | unblocked id checkedAt | writing id checkedAt t | admitted id checkedAt =>
        exact Checked.step holds h.kept hs begins
    | issued => trivial
  · intro jwt hjwt checkedAt hchecked
    exact (h.jwts jwt hjwt checkedAt hchecked).step h.kept hs begins ordered

theorem Watched.step (h : Watched m first w) (hs : WorldStep m w act w')
    (begins : act.Begins AccountCall.Stays) (ordered : w.inOrder act = true) : Watched m first w' := by
  have happens := hs.happens
  cases happens with
  | db hdb => exact h.database hdb begins ordered
  | readVersion free found => exact h.setLocal _ ⟨_, found, Int.le_refl _⟩
  | @checkPassword s userId version password a known found accepted =>
      have unblocked : a.blocked ≠ some true := by
        simp only [AccountModule.accepts, Bool.and_eq_true, decide_eq_true_eq] at accepted
        exact accepted.1.2
      exact h.setLocal _ (unbroken_now (h.locals _ _ known) found unblocked)
  | issueLocal accepted => exact h.issue (holds_of_unbroken rfl (h.locals _ _ accepted))
  | admitIdentity free found unblocked => exact h.setProvider _ (checked_now found unblocked)
  | @writeRole s t userId checkedAt signIn db unblocked hdb =>
      have hbegins : TxnLabel.Begins AccountCall.Stays
          (.begin t (.writeRole userId signIn) : AccountLabel) := by
        intro t' call hlabel
        cases hlabel
        rfl
      have checked : Checked userId checkedAt w.db := h.providers _ _ unblocked
      have writing : ProviderSignIn.Holds w.db (.writing userId checkedAt t) := checked
      exact (h.setProvider s writing).database hdb hbegins rfl
  | @admitted s t userId checkedAt writing =>
      have checked : Checked userId checkedAt w.db := h.providers _ _ writing
      have admitted : ProviderSignIn.Holds w.db (.admitted userId checkedAt) := checked
      exact h.setProvider s admitted
  | @issueSession s userId checkedAt a admitted found =>
      have checked : Checked userId checkedAt w.db := h.providers _ _ admitted
      have none : ∀ commit ∈ since w.db checkedAt, ¬ Blocks commit userId := by
        simpa [World.inOrder, admitted] using ordered
      have unbroken := checked.unbroken found none
      have issued : ProviderSignIn.Holds w.db .issued := trivial
      exact (h.setProvider s issued).issue (holds_of_unbroken rfl unbroken)
  | answer changer replied =>
      apply h.issue
      intro checkedAt hchecked
      cases hchecked

/-- A step in order. -/
def OrderedStep (m : AccountModule) (w : World) (act : Act) (w' : World) : Prop :=
  WorldStep m w act w' ∧ w.inOrder act = true

theorem Watched.run {acts : List Act} (h : Watched m first w) (hr : Run (OrderedStep m) w acts w')
    (begins : ∀ act ∈ acts, act.Begins AccountCall.Stays) : Watched m first w' :=
  hr.invariant_of_labels (fun _ _ _ hact hs hw => hw.step hs.1 hact hs.2) begins h

end Steps

/-- A token whose check a block overtook is no longer the user's. -/
def BlocksEnd (w : World) : Prop :=
  ∀ jwt ∈ w.jwts, ∀ checkedAt ∈ jwt.issuer.checkedAt?, ∀ commit ∈ since w.db checkedAt,
    Blocks commit jwt.userId → verifies w.db.rows jwt = false

instance (w : World) : Decidable (BlocksEnd w) :=
  inferInstanceAs (Decidable (∀ jwt ∈ w.jwts, ∀ checkedAt ∈ jwt.issuer.checkedAt?,
    ∀ commit ∈ since w.db checkedAt, Blocks commit jwt.userId → verifies w.db.rows jwt = false))

def sampleAdmin : Account :=
  { (Invite.account ⟨"admin@example.org", "admin", "doc-admin", some .admin_role, none⟩) with
    provider := some "entra" }

/-- The user 1, and the admin 2. -/
def sampleTwo (a : Account) : World where
  db :=
    { (sampleFirst a).db with
      rows := fun key =>
        if key = .user 1 then .user a else if key = .user 2 then .user sampleAdmin else .empty
      keys := [.directory, .user 1, .user 2] }
  locals := fun _ => none
  providers := fun _ => none
  jwts := []

theorem sampleTwo_fresh (sane : a.Sane) : (sampleTwo a).Fresh := by
  refine ⟨⟨⟨?_, fun _ => rfl, fun _ _ => rfl, fun _ => rfl, rfl, rfl⟩, ?_⟩, rfl, rfl, rfl⟩
  · intro key hkey
    have hone : key ≠ .user 1 := fun heq => hkey (by simp [sampleTwo, heq])
    have htwo : key ≠ .user 2 := fun heq => hkey (by simp [sampleTwo, heq])
    simp [sampleTwo, hone, htwo]
  · intro id b hb
    by_cases hone : id = 1
    · rw [hone] at hb
      cases hb
      exact sane
    · by_cases htwo : id = 2
      · rw [htwo] at hb
        cases hb
        intro v hv
        cases hv
        decide
      · simp [sampleTwo, hone, htwo] at hb

def sampleEntra : Account :=
  { sampleAccount with
    provider := some "entra", password := none, entraTenantId := some "t", microsoftOid := some "o",
    roleSource := some "entra" }

def sampleSignIn : RoleSignIn := ⟨.role .member [], .on, "entra", true⟩

def setBlocked (value : Bool) : UserAdminUpdate := ⟨none, none, none, some value⟩

/-- So many statements of transaction `t`. -/
def runs (t count : Nat) : List Act := List.replicate count (.db (.run t .directory))

/-- Transaction `t`, in which the admin blocks user 1 whom it reads as unblocked. -/
def blocking (t : Nat) : List Act :=
  [.db (.begin t (.updateUser 2 (some 0) 1 (setBlocked true)))] ++ runs t 8 ++ [.db (.commit t)]

def unblocking (t : Nat) : List Act :=
  [.db (.begin t (.updateUser 2 (some 0) 1 (setBlocked false)))] ++ runs t 6 ++ [.db (.commit t)]

/-- The admission of user 1 by the identity provider. -/
def sampleAdmission : List Act :=
  [.admitIdentity 0 1, .writeRole 0 0 sampleSignIn] ++ runs 0 6 ++
  [.db (.commit 0), .db (.confirm 0), .admitted 0]

/-- The block comes between the check and the stamp. -/
def blockedBeforeStamp : List Act :=
  sampleAdmission ++ blocking 1 ++ [.issueSession 0] ++ unblocking 2

/-- The block comes after the stamp. -/
def blockedAfterStamp : List Act :=
  sampleAdmission ++ [.issueSession 0] ++ blocking 1 ++ unblocking 2

/-- The admin reads user 1 as blocked; the user is unblocked and signs in; then the
admin's block is written. -/
def blockedAsRead : List Act :=
  [.db (.begin 0 (.updateUser 2 (some 0) 1 (setBlocked true)))] ++ runs 0 4 ++
  [.db (.begin 1 (.documentUpdate 1 { noData with blocked := some (.bool false) }))] ++ runs 1 5 ++
  [.db (.commit 1), .readVersion 0 1, .checkPassword 0 "abcdefghijklmnopqrstuvwxyz", .issueLocal 0] ++
  runs 0 2 ++ [.db (.commit 0)] ++ unblocking 2

def sampleTwoEnd (a : Account) (acts : List Act) : World :=
  (Runs.follow (World.next sampleModule) (sampleTwo a) acts).getD (sampleTwo a)

variable {acts : List Act}

theorem sampleTwoEnd_run
    (h : (Runs.follow (World.next sampleModule) (sampleTwo a) acts).isSome = true) :
    Run (WorldStep sampleModule) (sampleTwo a) acts (sampleTwoEnd a acts) := by
  obtain ⟨w, hw⟩ := Option.isSome_iff_exists.mp h
  have hend : sampleTwoEnd a acts = w := by
    unfold sampleTwoEnd
    rw [hw]
    rfl
  rw [hend]
  exact Runs.run_of_follow hw

def sampleBlocked : Account := { sampleAccount with blocked := some true }

def orderedNext (w : World) (act : Act) : Option World :=
  if w.inOrder act then w.next sampleModule act else none

theorem orderedStep_of_next {w w' : World} {act : Act} (h : orderedNext w act = some w') :
    OrderedStep sampleModule w act w' := by
  unfold orderedNext at h
  split at h
  · rename_i ordered
    exact ⟨h, ordered⟩
  · cases h

/-- The call that an act of the database begins. -/
def Act.begun? : Act → Option AccountCall
  | .db (.begin _ call) => some call
  | _ => none

theorem begins_stays (h : (acts.all fun act => act.begun?.all fun call => !call.deletes) = true) :
    ∀ act ∈ acts, act.Begins AccountCall.Stays := by
  intro act hact
  have hbegun := List.all_eq_true.mp h act hact
  cases act with
  | db label =>
      intro t call hlabel
      rw [hlabel] at hbegun
      simpa [Act.begun?, AccountCall.Stays] using hbegun
  | writeRole s t signIn =>
      intro userId
      rfl
  | _ => trivial

/-- Whom a row stands for, and since when for nobody. -/
def Account.identity (a : Account) :=
  (a.anonymisedAt, a.documentId, a.username, a.email, a.provider, a.entraTenantId, a.microsoftOid,
    a.oidcIssuer, a.oidcSubject)

/-- A user who was anonymised stays, with the identity that left. -/
def tombstones : Guarantee Record where
  blank := .empty
  moves before after := ∀ a, before = .user a → a.anonymisedAt ≠ none →
    ∃ b, after = .user b ∧ b.identity = a.identity
  refl _ a h _ := ⟨a, h, rfl⟩
  trans _ _ _ h₁ h₂ a h stamped := by
    obtain ⟨b, hb, hsame⟩ := h₁ a h stamped
    obtain ⟨c, hc, hsame'⟩ := h₂ b hb fun hnone => stamped ((congrArg Prod.fst hsame).symm.trans hnone)
    exact ⟨c, hc, hsame'.trans hsame⟩

variable {m : AccountModule} {id : Nat} {commit : AccountCommit}

theorem Rewrites.identity {call : AccountCall} {result : AccountResult} {a b : Account}
    (h : Rewrites m call result id a b) (stamped : a.anonymisedAt ≠ none) :
    b.identity = a.identity := by
  cases h with
  | saved _ _ live _ _ | anonymised live _ => exact absurd live stamped
  | updated _ _ =>
      unfold UserAdminUpdate.saved
      split <;> rfl
  | handed _ _ | cleared _ _ | role _ | sent _ _ | requested _ _ _ | redeemed _ | raised _ => rfl

theorem RowChange.tombstones {call : AccountCall} {result : AccountResult} {before after : Record}
    (h : RowChange m call result id before after) : tombstones.moves before after := by
  rintro a rfl stamped
  cases h with
  | same _ => exact ⟨a, rfl, rfl⟩
  | rewrote rewrites => exact ⟨_, rfl, rewrites.identity stamped⟩
  | removed _ live => exact absurd live stamped

variable {callerId : Nat} {callerTv : Option Int} {confirm : Option String} {at_ : Int}

theorem anonymises_post (hpost : m.post commit.call commit.result commit.before commit.changes)
    (hcall : commit.call = .anonymiseUser callerId callerTv id confirm at_) :
    ∃ a, commit.before (.user id) = .user a ∧ a.anonymisedAt = none ∧ a.blocked = some true ∧
      commit.after (.user id) = .user (a.tombstone at_) := by
  rw [hcall] at hpost
  cases hresult : commit.result <;> rw [hresult] at hpost
  case done =>
    obtain ⟨_, a, live, blocked, wrote⟩ := hpost
    refine ⟨a, wrote.found, live, blocked, ?_⟩
    unfold Commit.after
    rw [wrote.changes, overlay_only_self]
  all_goals exact hpost.elim

/-- An anonymisation is final: whatever transactions ran since, the user is there
under the name and the address it wrote, bound as before, and was not anonymised
again. -/
theorem anonymisations_are_final (m : AccountModule) {first last : AccountDatabase}
    {labels : List AccountLabel} {newer older : List AccountCommit} (fresh : Fresh first)
    (h : Run (Step m) first labels last) (hlog : last.log = newer ++ commit :: older)
    (hcall : commit.call = .anonymiseUser callerId callerTv id confirm at_) :
    ∃ a b, commit.before (.user id) = .user a ∧ a.blocked = some true ∧
      last.rows (.user id) = .user b ∧ b.identity = (a.tombstone at_).identity ∧
      ∀ other ∈ newer, ∀ callerId callerTv confirm at_,
        other.call ≠ .anonymiseUser callerId callerTv id confirm at_ := by
  have kept := fresh.keeps h
  have hself : commit ∈ last.log := by simp [hlog]
  obtain ⟨-, since, ordered⟩ := kept.linked.moves fun commit hc =>
    commit_moves (fun change _ => change.tombstones) (kept.posted hc) (kept.saneLog commit hc)
  obtain ⟨a, before, -, blocked, after⟩ := anonymises_post (kept.posted hself) hcall
  have stamped : (a.tombstone at_).anonymisedAt ≠ none := Option.some_ne_none at_
  obtain ⟨b, found, same⟩ := since commit hself (.user id) _ after stamped
  refine ⟨a, b, before, blocked, found, same, ?_⟩
  intro other hother callerId' callerTv' confirm' at' hcall'
  obtain ⟨c, before', live, -⟩ :=
    anonymises_post (kept.posted (hlog ▸ List.mem_append_left _ hother)) hcall'
  rw [hlog] at ordered
  obtain ⟨d, found', same'⟩ := (List.pairwise_append.mp ordered).2.2 other hother commit
    List.mem_cons_self (.user id) _ after stamped
  cases found'.symm.trans before'
  cases (congrArg Prod.fst same').symm.trans live

/-- The admin anonymises user 1, who is signed out once more. -/
def erased : List AccountLabel :=
  [.begin 0 (.anonymiseUser 2 (some 0) 1 (some "a") 1792890000000)] ++
  List.replicate 7 (.run 0 .directory) ++ [.commit 0, .begin 1 (.raiseVersion 1)] ++
  List.replicate 3 (.run 1 .directory) ++ [.commit 1]

theorem anonymisations_are_final_sample : ∃ last newer commit older a b,
    Runs.follow (Database.next sampleModule.program) (sampleTwo sampleBlocked).db erased =
      some last ∧ last.log = newer ++ commit :: older ∧ commit.before (.user 1) = .user a ∧
      last.rows (.user 1) = .user b ∧ b.identity = (a.tombstone 1792890000000).identity := by
  have hcalls : (Runs.follow (Database.next sampleModule.program) (sampleTwo sampleBlocked).db
      erased).map (fun last => last.log.map Commit.call) =
        some ([.raiseVersion 1] ++ [.anonymiseUser 2 (some 0) 1 (some "a") 1792890000000]) := by
    rfl
  obtain ⟨last, hlast, hlog⟩ := Option.map_eq_some_iff.mp hcalls
  obtain ⟨newer, rest, hsplit, -, hrest⟩ := List.map_eq_append_iff.mp hlog
  obtain ⟨commit, older, rfl, hcall, -⟩ := List.map_eq_cons_iff.mp hrest
  have sane : sampleBlocked.Sane := sampleAccount_sane
  obtain ⟨a, b, before, -, found, same, -⟩ := anonymisations_are_final sampleModule
    (sampleTwo_fresh sane).db (Runs.run_of_follow hlast) hsplit hcall
  exact ⟨last, newer, commit, older, a, b, hlast, hsplit, before, found, same⟩

end Sinnlos.Cms.Accounts

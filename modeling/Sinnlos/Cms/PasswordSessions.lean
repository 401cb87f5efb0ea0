import Sinnlos.Cms.AccountSessions

/-! # Sessions across password changes

Every password change raises the token version with the password it stores, so
the version a sign-in has read tells which password it was checked against: a
token that is accepted opened with the password of its version.
-/

namespace Sinnlos.Cms.Accounts

open Runs (Run)

/-- The user is neither deleted nor anonymised. -/
def AccountCall.KeepsUser (call : AccountCall) : Prop :=
  call.deletes = false ∧ call.anonymises = false

/-- The commit wrote the row of `id` with a password of its own. -/
def ChangesPassword (commit : AccountCommit) (id : Nat) : Prop :=
  commit.call.newPassword?.isSome = true ∧ (commit.changes (.user id)).isSome = true

/-! ## Across one commit -/

/-- What a commit makes of the row `a` of a user who stays. -/
structure Passes (commit : AccountCommit) (id : Nat) (a b : Account) : Prop where
  before : commit.before (.user id) = .user a
  after : commit.after (.user id) = .user b
  version : b.version = a.version ∨ b.version = a.version + 1
  /-- A change stores its password under the next version. -/
  change : ChangesPassword commit id →
    commit.call.newPassword? = some b.password ∧ b.version = a.version + 1
  other : ¬ ChangesPassword commit id → b.password = a.password

variable {commit : AccountCommit} {id : Nat} {a : Account} {m : AccountModule}

theorem Passes.version_le {b : Account} (h : Passes commit id a b) : a.version ≤ b.version := by
  have hversion := h.version
  omega

/-- A commit that leaves the row of the user alone. -/
theorem passes_of_untouched (found : commit.before (.user id) = .user a)
    (same : commit.changes (.user id) = none) : Passes commit id a a := by
  have after : commit.after (.user id) = .user a := by
    unfold Commit.after overlay
    rw [same]
    exact found
  refine ⟨found, after, Or.inl rfl, ?_, fun _ => rfl⟩
  intro change
  have written := change.2
  rw [same] at written
  cases written

theorem only_of_ne {target : Nat} (record : Record) (h : id ≠ target) :
    only target record (.user id) = none := by
  have hkey : RowKey.user id ≠ RowKey.user target := fun heq => h (RowKey.user.inj heq)
  simp [only, hkey, untouched]

theorem commit_passes (hpost : m.post commit.call commit.result commit.before commit.changes)
    (sane : SaneRows commit.before) (stays : commit.call.KeepsUser)
    (found : commit.before (.user id) = .user a) : ∃ b, Passes commit id a b := by
  have effect := post_effect hpost
  generalize hchanges : commit.changes = changes at effect
  cases effect with
  | nothing => exact ⟨a, passes_of_untouched found (congrFun hchanges _)⟩
  | @rewrote target x b hx rewrites =>
      by_cases heq : id = target
      · subst heq
        rw [found] at hx
        cases hx
        have written : commit.changes (.user id) = some (.user b) := by
          rw [hchanges]
          simp [only]
        have after : commit.after (.user id) = .user b := by
          unfold Commit.after overlay
          rw [written]
          rfl
        have version := (rewrites.version (sane id a found)).2
        refine ⟨b, found, after, version, ?_, ?_⟩
        · intro change
          rcases rewrites.password (sane id a found) stays.2 with ⟨hnone, _⟩ | hchanged
          · have hsome := change.1
            rw [hnone] at hsome
            cases hsome
          · exact hchanged
        · intro unchanged
          rcases rewrites.password (sane id a found) stays.2 with ⟨_, hsame⟩ | hchanged
          · exact hsame
          · refine absurd ⟨?_, ?_⟩ unchanged
            · rw [hchanged.1]
              rfl
            · rw [written]
              rfl
      · refine ⟨a, passes_of_untouched found ?_⟩
        rw [hchanges]
        exact only_of_ne _ heq
  | removed hcall hx live =>
      have hdeletes := stays.1
      rw [hcall] at hdeletes
      cases hdeletes
  | @invited callerId callerTv invite secret now target hcall fresh =>
      have hne : id ≠ target := by
        intro heq
        rw [heq, fresh] at found
        cases found
      refine ⟨a, passes_of_untouched found ?_⟩
      rw [hchanges]
      exact only_of_ne _ hne

/-! ## Along the log -/

/-- What the commits so far made of a user: the row they left, and the change
that its password is of. -/
structure Trail (id : Nat) (a : Account) (log : List AccountCommit) (b : Account) : Prop where
  passed : ∀ commit ∈ log, ∃ x y, Passes commit id x y ∧ a.version ≤ x.version ∧
    y.version ≤ b.version
  started : a.version ≤ b.version
  password :
    ((∀ commit ∈ log, ¬ ChangesPassword commit id) ∧ b.password = a.password) ∨
      ∃ later commit earlier x y, log = later ++ commit :: earlier ∧ Passes commit id x y ∧
        ChangesPassword commit id ∧ b.password = y.password ∧
        (∀ other ∈ later, ¬ ChangesPassword other id) ∧
        ∀ other ∈ earlier, ∀ z, other.after (.user id) = .user z → z.version < y.version

theorem Trail.nil (id : Nat) (a : Account) : Trail id a [] a := by
  refine ⟨?_, Int.le_refl _, Or.inl ⟨?_, rfl⟩⟩
  · intro commit hc
    cases hc
  · intro commit hc
    cases hc

theorem Trail.cons {id : Nat} {a b b' : Account} {log : List AccountCommit} {commit : AccountCommit}
    (h : Trail id a log b) (hpass : Passes commit id b b') : Trail id a (commit :: log) b' := by
  have hle := hpass.version_le
  have hstart := h.started
  refine ⟨?_, Int.le_trans hstart hle, ?_⟩
  · intro other ho
    rcases List.mem_cons.mp ho with rfl | hold
    · exact ⟨b, b', hpass, hstart, Int.le_refl _⟩
    · obtain ⟨x, y, hp, hx, hy⟩ := h.passed other hold
      exact ⟨x, y, hp, hx, Int.le_trans hy hle⟩
  by_cases change : ChangesPassword commit id
  · -- the commits before it left at most the version it found
    have hnext := (hpass.change change).2
    refine Or.inr ⟨[], commit, log, b, b', rfl, hpass, change, rfl, ?_, ?_⟩
    · intro other ho
      cases ho
    · intro other ho z hz
      obtain ⟨x, y, hp, _, hy⟩ := h.passed other ho
      rw [hp.after] at hz
      cases hz
      omega
  · have hsame := hpass.other change
    rcases h.password with ⟨none, hpw⟩ | ⟨later, last, earlier, x, y, rfl, hp, hlast, hpw, since, before⟩
    · refine Or.inl ⟨?_, hsame.trans hpw⟩
      rw [List.forall_mem_cons]
      exact ⟨change, none⟩
    · refine Or.inr ⟨commit :: later, last, earlier, x, y, rfl, hp, hlast, hsame.trans hpw, ?_, before⟩
      rw [List.forall_mem_cons]
      exact ⟨change, since⟩

theorem linked_trail {first rows : Rows} {log : List AccountCommit}
    (linked : Database.Linked first log rows)
    (posted : ∀ commit ∈ log, m.post commit.call commit.result commit.before commit.changes)
    (sane : ∀ commit ∈ log, SaneRows commit.before)
    (stays : ∀ commit ∈ log, commit.call.KeepsUser) (found : first (.user id) = .user a) :
    ∃ b, rows (.user id) = .user b ∧ Trail id a log b := by
  induction log generalizing rows with
  | nil =>
      cases linked
      exact ⟨a, found, .nil id a⟩
  | cons commit earlier ih =>
      obtain ⟨rfl, hrest⟩ := linked
      rw [List.forall_mem_cons] at posted sane stays
      obtain ⟨b, hb, trail⟩ := ih hrest posted.2 sane.2 stays.2
      obtain ⟨b', hpass⟩ := commit_passes posted.1 sane.1 stays.1 hb
      exact ⟨b', hpass.after, trail.cons hpass⟩

/-! ## Along a run of sign-ins and changes -/

/-- Acts of local sign-ins and of transactions that keep their users. -/
def Act.IsLocal : Act → Prop
  | .db label => label.Begins AccountCall.KeepsUser
  | .readVersion _ _ | .checkPassword _ _ | .issueLocal _ | .answer _ _ => True
  | .admitIdentity _ _ | .writeRole _ _ _ | .admitted _ | .issueSession _ => False

/-- At some moment the user had version `v` and a password that lets this one in. -/
def Matched (m : AccountModule) (id : Nat) (v : Int) (password : String) (db : AccountDatabase) :
    Prop :=
  ∃ rows ∈ db.moments, ∃ b, rows (.user id) = .user b ∧ b.version = v ∧
    m.accepts b password = true

/-- The user was at version `v` before, and as long as they are the password
opened at that version. -/
structure Opened (m : AccountModule) (id : Nat) (v : Int) (password : String)
    (db : AccountDatabase) : Prop where
  reached : Reached id v db.rows
  matched : ∀ b, db.rows (.user id) = .user b → b.version = v → Matched m id v password db

/-- The token answers a change that committed its version. -/
def Answered (jwt : Jwt) (t : Nat) (db : AccountDatabase) : Prop :=
  ∃ tv password, db.Committed t (.changePassword jwt.userId tv password) (.saved (some jwt.tv))

def LocalSignIn.Stands (m : AccountModule) (db : AccountDatabase) : LocalSignIn → Prop
  | .known id v => Reached id v db.rows
  | .accepted id v password _ => Opened m id v password db

def Jwt.Stands (m : AccountModule) (db : AccountDatabase) (jwt : Jwt) : Prop :=
  match jwt.issuer with
  | .signIn password _ => Opened m jwt.userId jwt.tv password db
  | .provider _ => False
  | .changePassword t => Answered jwt t db

/-- What every run of local sign-ins keeps. -/
structure Signed (m : AccountModule) (first : Rows) (w : World) : Prop where
  kept : Kept m AccountCall.KeepsUser first w.db
  locals : ∀ s signIn, w.locals s = some signIn → signIn.Stands m w.db
  jwts : ∀ jwt ∈ w.jwts, jwt.Stands m w.db

/-! ### What a step of the database keeps -/

section Database
variable {m : AccountModule} {first : Rows} {s s' : AccountDatabase} {label : AccountLabel}

theorem Opened.step {v : Int} {password : String} (h : Opened m id v password s)
    (kept : Kept m AccountCall.KeepsUser first s) (hs : Step m s label s')
    (begins : label.Begins AccountCall.KeepsUser) : Opened m id v password s' := by
  refine ⟨h.reached.step kept hs begins fun _ hc => hc.1, ?_⟩
  intro b hb hv
  obtain ⟨a, found, hreached⟩ := h.reached
  obtain ⟨moments, b', hb', hle⟩ := kept.user_step hs begins (fun _ hc => hc.1) found
  rw [hb] at hb'
  cases hb'
  -- the version did not go down, so it was `v` before the step
  have hva : a.version = v := by omega
  obtain ⟨rows, hrows, matched⟩ := h.matched a found hva
  exact ⟨rows, moments rows hrows, matched⟩

variable {jwt : Jwt}

theorem Answered.step {t : Nat} (h : Answered jwt t s)
    (kept : Kept m AccountCall.KeepsUser first s) (hs : Step m s label s')
    (begins : label.Begins AccountCall.KeepsUser) : Answered jwt t s' := by
  obtain ⟨tv, password, commit, hc, hcommit⟩ := h
  refine ⟨tv, password, commit, ?_, hcommit⟩
  rcases (kept.step_cases hs begins).2 with ⟨_, hlog⟩ | ⟨_, hcommit⟩
  · rw [hlog]
    exact hc
  · rw [hcommit.log]
    exact List.mem_cons_of_mem _ hc

theorem LocalSignIn.Stands.step {signIn : LocalSignIn} (h : signIn.Stands m s)
    (kept : Kept m AccountCall.KeepsUser first s) (hs : Step m s label s')
    (begins : label.Begins AccountCall.KeepsUser) : signIn.Stands m s' := by
  cases signIn with
  | known id v => exact Reached.step h kept hs begins fun _ hc => hc.1
  | accepted id v password checkedAt => exact Opened.step h kept hs begins

theorem Jwt.Stands.step (h : jwt.Stands m s) (kept : Kept m AccountCall.KeepsUser first s)
    (hs : Step m s label s') (begins : label.Begins AccountCall.KeepsUser) : jwt.Stands m s' := by
  unfold Jwt.Stands at h ⊢
  cases hissuer : jwt.issuer with
  | signIn password checkedAt =>
      rw [hissuer] at h
      exact Opened.step h kept hs begins
  | provider checkedAt =>
      rw [hissuer] at h
      exact h
  | changePassword t =>
      rw [hissuer] at h
      exact Answered.step h kept hs begins

end Database

section Steps
variable {m : AccountModule} {first : Rows} {w w' : World} {act : Act}

theorem Signed.setLocal (h : Signed m first w) (s : Nat) {signIn : LocalSignIn}
    (stands : signIn.Stands m w.db) : Signed m first (w.setLocal s signIn) := by
  refine ⟨h.kept, ?_, h.jwts⟩
  intro s' signIn' hlocal
  by_cases heq : s' = s
  · have hself : signIn = signIn' := by simpa [World.setLocal, heq] using hlocal
    rw [← hself]
    exact stands
  · have hother : w.locals s' = some signIn' := by simpa [World.setLocal, heq] using hlocal
    exact h.locals s' signIn' hother

theorem Signed.issue (h : Signed m first w) {jwt : Jwt} (stands : jwt.Stands m w.db) :
    Signed m first (w.issue jwt) := by
  refine ⟨h.kept, h.locals, ?_⟩
  intro other ho
  rcases List.mem_cons.mp ho with rfl | hold
  · exact stands
  · exact h.jwts other hold

theorem opened_of_matched {db : AccountDatabase} {v : Int} {password : String}
    (reached : Reached id v db.rows) (found : db.rows (.user id) = .user a)
    (accepted : m.accepts a password = true) : Opened m id v password db := by
  refine ⟨reached, ?_⟩
  intro b hb hv
  rw [found] at hb
  cases hb
  exact ⟨db.rows, List.mem_cons_self, a, found, hv, accepted⟩

theorem Signed.step (h : Signed m first w) (hs : WorldStep m w act w') (hlocal : act.IsLocal) :
    Signed m first w' := by
  have happens := hs.happens
  cases happens with
  | db hdb =>
      refine ⟨h.kept.step hdb hlocal, ?_, ?_⟩
      · intro s signIn hsignIn
        exact (h.locals s signIn hsignIn).step h.kept hdb hlocal
      · intro jwt hjwt
        exact (h.jwts jwt hjwt).step h.kept hdb hlocal
  | readVersion free found => exact h.setLocal _ ⟨_, found, Int.le_refl _⟩
  | checkPassword known found accepted =>
      exact h.setLocal _ (opened_of_matched (h.locals _ _ known) found accepted)
  | issueLocal accepted => exact h.issue (h.locals _ _ accepted)
  | @answer t callerId version changer replied =>
      apply h.issue
      obtain ⟨call, phase, hphase, committed⟩ := h.kept.sound.answered t _ replied
      unfold World.changer? at changer
      split at changer
      · rename_i caller tv password phase' hcaller
        cases changer
        rw [hcaller] at hphase
        cases hphase
        exact ⟨tv, password, committed⟩
      · cases changer
  | admitIdentity _ _ _ | writeRole _ _ | admitted _ | issueSession _ _ => exact hlocal.elim

theorem World.Fresh.signed (h : w.Fresh) : Signed m w.db.rows w := by
  refine ⟨h.db.kept m _, ?_, ?_⟩
  · intro s signIn hsignIn
    rw [h.locals] at hsignIn
    cases hsignIn
  · intro jwt hjwt
    rw [h.jwts] at hjwt
    cases hjwt

theorem Signed.run {labels : List Act} (h : Signed m first w) (hr : Run (WorldStep m) w labels w')
    (hlocal : ∀ act ∈ labels, act.IsLocal) : Signed m first w' :=
  hr.invariant_of_labels (fun _ _ _ hact hs hw => hw.step hs hact) hlocal h

end Steps

/-! ## The rule of the sessions -/

/-- A committed write of a password was a change. -/
theorem changesPassword_of_data {data : UserData}
    (hpost : m.post commit.call commit.result commit.before commit.changes)
    (hdata : commit.call.data? = some (id, data)) (sets : data.setsPassword = true) :
    ChangesPassword commit id := by
  have isNew : commit.call.newPassword?.isSome = true := by
    rw [newPassword?_of_data hdata, Option.isSome_map]
    exact sets
  have written : ∀ version, Saved id data version commit.before commit.changes →
      ChangesPassword commit id := by
    intro version saved
    rcases saved with ⟨hnone, _⟩ | ⟨a, blocked, _, _, wrote, _⟩
    · rw [sets] at hnone
      cases hnone
    · refine ⟨isNew, ?_⟩
      rw [wrote.changes]
      simp [only]
  unfold AccountModule.post at hpost
  split at hpost
  · rename_i hcall hresult
    rw [hcall] at hdata
    cases hdata
    exact written _ hpost.1
  · rename_i hcall hresult
    rw [hcall] at hdata
    cases hdata
    exact written _ hpost
  · rename_i hcall hresult
    rw [hcall] at hdata
    cases hdata
    exact written _ hpost
  all_goals
    first
    | (rename_i hcall _; rw [hcall] at hdata; cases hdata)
    | exact hpost.elim

/-- A password action committed the version after that of its request. -/
theorem changePassword_version {tv : Int} {password : NewPassword} {version : Option Int}
    (hpost : m.post commit.call commit.result commit.before commit.changes)
    (hcall : commit.call = .changePassword id tv password)
    (hresult : commit.result = .saved version) :
    version = some (tv + 1) ∧
      ∃ a, commit.before (.user id) = .user a ∧ a.nextVersion = tv + 1 := by
  rw [hcall, hresult] at hpost
  cases version with
  | none => exact hpost.elim
  | some v =>
      obtain ⟨saved, rfl⟩ := hpost
      refine ⟨rfl, ?_⟩
      rcases saved with ⟨_, hnone, _⟩ | ⟨a, blocked, _, _, wrote, hversion, _⟩
      · cases hnone
      · have hset : some (tv + 1) = some a.nextVersion := hversion
        exact ⟨a, wrote.found, (Option.some.inj hset).symm⟩

/-- What opened a token of the user that is accepted. -/
def OpenedBy (m : AccountModule) (id : Nat) (jwt : Jwt) (db : AccountDatabase) : Prop :=
  (∃ password checkedAt, jwt.issuer = .signIn password checkedAt ∧
    Matched m id jwt.tv password db) ∨
  ∃ t commit x y, jwt.issuer = .changePassword t ∧ commit ∈ db.log ∧ commit.writer = t ∧
    ChangesPassword commit id ∧ Passes commit id x y ∧ y.version = jwt.tv

/-- How the password, the versions and the tokens of a user go together after a
run from `first`, where the user's row was `a`. -/
structure SessionsFollow (m : AccountModule) (id : Nat) (a : Account) (first : Rows) (w : World) :
    Prop where
  trail : ∃ b, w.db.rows (.user id) = .user b ∧ Trail id a w.db.log b
  /-- Every committed write of a password is a change. -/
  changes : ∀ commit ∈ w.db.log, ∀ data, commit.call.data? = some (id, data) →
    data.setsPassword = true → ChangesPassword commit id
  tokens : ∀ jwt ∈ w.jwts, jwt.userId = id → verifies w.db.rows jwt = true → OpenedBy m id jwt w.db
  /-- What failed or was refused changed nothing: only commits do. -/
  linked : Database.Linked first w.db.log w.db.rows
  failed : ∀ t reply, (t, reply) ∈ w.db.replies → (reply = .failed ∨ ∃ e, reply = .refused e) →
    ∀ commit ∈ w.db.log, commit.writer ≠ t
  /-- A password action commits the version after the one of its request. -/
  action : ∀ commit ∈ w.db.log, ∀ tv password, commit.call = .changePassword id tv password →
    commit.result = .saved (some (tv + 1)) ∧ ∃ x y, Passes commit id x y ∧ x.version = tv ∧
      y.version = tv + 1

/-- bcrypt on the two passwords of the sample. -/
def sampleModule : AccountModule where
  sha256 := fun text => text
  toLowerCase := String.toLower
  COMMON_PASSWORDS := fun _ => false
  validatePassword := fun password hash =>
    (password, hash) ∈ [("abcdefghijklmnopqrstuvwxyz",
        "$2a$06$.rCVZVOThsIa97pEDOxvGuRRgzG64bvtJ0938xuqzv18d3ZpQhstC"),
      ("a sehr langer satz", "$2a$10$.rCVZVOThsIa97pEDOxvGukKWMyQhaM9evNCCt6e3V5CyHg2SQkvy")]
  localSignInEnabled := true
  accountMailReady := false
  emailIndexReady := true
  entra := none
  oidc := none

def sampleAccount : Account :=
  { (Invite.account ⟨"a@example.org", "a", "doc-a", none, none⟩) with
    password := some "$2a$06$.rCVZVOThsIa97pEDOxvGuRRgzG64bvtJ0938xuqzv18d3ZpQhstC" }

/-- One user. -/
def sampleFirst (a : Account) : World where
  db :=
    { rows := fun key => if key = .user 1 then .user a else .empty
      keys := [.directory, .user 1]
      holder := fun _ => none
      draft := fun _ _ => none
      phase := fun _ => none
      env := ⟨[.admin_role, .member], []⟩
      log := []
      replies := [] }
  locals := fun _ => none
  providers := fun _ => none
  jwts := []

theorem sampleFirst_fresh (sane : a.Sane) : (sampleFirst a).Fresh := by
  refine ⟨⟨⟨?_, fun _ => rfl, fun _ _ => rfl, fun _ => rfl, rfl, rfl⟩, ?_⟩, rfl, rfl, rfl⟩
  · intro key hkey
    apply if_neg
    intro heq
    exact hkey (heq ▸ by simp [sampleFirst])
  · intro id b hb
    by_cases hid : id = 1
    · rw [hid] at hb
      cases hb
      exact sane
    · have hempty : (sampleFirst a).db.rows (.user id) = .empty :=
        if_neg fun heq => hid (RowKey.user.inj heq)
      rw [hempty] at hb
      cases hb

/-- A sign-in with the old password, and the change it belongs to. -/
def sampleChange : List Act :=
  [.readVersion 0 1, .checkPassword 0 "abcdefghijklmnopqrstuvwxyz", .issueLocal 0,
    .db (.begin 0 (.changePassword 1 0 ⟨"a sehr langer satz",
      "$2a$10$.rCVZVOThsIa97pEDOxvGukKWMyQhaM9evNCCt6e3V5CyHg2SQkvy"⟩))] ++
  List.replicate 8 (.db (.run 0 .directory)) ++
  [.db (.commit 0), .db (.confirm 0), .answer 0 1]

def sampleEnd (a : Account) (acts : List Act) : World :=
  (Runs.follow (World.next sampleModule) (sampleFirst a) acts).getD (sampleFirst a)

theorem sampleEnd_run {acts : List Act}
    (h : (Runs.follow (World.next sampleModule) (sampleFirst a) acts).isSome = true) :
    Run (WorldStep sampleModule) (sampleFirst a) acts (sampleEnd a acts) := by
  obtain ⟨w, hw⟩ := Option.isSome_iff_exists.mp h
  have hend : sampleEnd a acts = w := by
    unfold sampleEnd
    rw [hw]
    rfl
  rw [hend]
  exact Runs.run_of_follow hw

theorem sampleAccount_sane : sampleAccount.Sane := by
  intro v hv
  cases hv
  decide

/-- A user raises their version or keeps it, and who was removed stays so. -/
def Record.Onward : Record → Record → Prop
  | .empty, _ => True
  | .user a, .user b => a.version ≤ b.version
  | .user _, .removed => True
  | .removed, .removed => True
  | _, _ => False

theorem Record.Onward.refl (record : Record) : record.Onward record := by
  cases record with
  | user a => exact Int.le_refl a.version
  | _ => trivial

theorem Record.Onward.trans {x y z : Record} (h : x.Onward y) (h' : y.Onward z) : x.Onward z := by
  cases x <;> cases y <;> cases z <;>
    first | trivial | exact h.elim | exact h'.elim | exact Int.le_trans h h'

theorem RowChange.onward {call : AccountCall} {result : AccountResult} {before after : Record}
    (h : RowChange m call result id before after) (sane : ∀ a, before = .user a → a.Sane) :
    before.Onward after := by
  cases h with
  | same _ => exact .refl _
  | removed _ _ => trivial
  | invited _ => trivial
  | @rewrote a b rewrites =>
      have hversion := (rewrites.version (sane a rfl)).2
      show a.version ≤ b.version
      omega

def onwards : Guarantee Record := ⟨.empty, Record.Onward, .refl, fun _ _ _ => .trans⟩

theorem Kept.onward {P : AccountCall → Prop} {first : Rows} {s s' : AccountDatabase}
    {labels : List AccountLabel} (h : Kept m P first s') (hr : Run (Step m) s labels s') (id : Nat) :
    (s.rows (.user id)).Onward (s'.rows (.user id)) := by
  obtain ⟨new, hlog, linked⟩ := Database.run_linked hr
  have moved : ∀ commit ∈ new, ∀ k, onwards.moves (commit.before k) (commit.after k) := by
    intro commit hc
    have within : commit ∈ s'.log := by
      rw [hlog]
      exact List.mem_append_left _ hc
    exact commit_moves RowChange.onward (h.posted within) (h.saneLog commit within)
  exact (linked.moves moved).1 (.user id)

/-- The token's user is there, at its version. -/
def Admits (rows : Rows) (jwt : Jwt) : Prop :=
  ∃ a, rows (.user jwt.userId) = .user a ∧ verifies rows jwt = true

theorem admits_iff {rows : Rows} {jwt : Jwt} :
    Admits rows jwt ↔ ∃ a, rows (.user jwt.userId) = .user a ∧ jwt.tv = a.version := by
  unfold Admits
  refine exists_congr fun a => and_congr_right fun found => ?_
  unfold verifies
  rw [account?_eq_some.mpr found]
  exact decide_eq_true_iff

/-- A token that is accepted at two moments of a run is accepted at every moment in
between, whatever transactions ran: a session that has ended stays so. -/
theorem ended_sessions_stay_ended (m : AccountModule) {first opened between last : AccountDatabase}
    {before acts later : List AccountLabel} (fresh : Fresh first)
    (h : Run (Step m) first before opened) (hacts : Run (Step m) opened acts between)
    (hlater : Run (Step m) between later last) {jwt : Jwt} (open_ : Admits opened.rows jwt)
    (accepted : Admits last.rows jwt) : Admits between.rows jwt := by
  have hbetween := h.append hacts
  have onward := (fresh.keeps hbetween).onward hacts jwt.userId
  have onwardLast := (fresh.keeps (hbetween.append hlater)).onward hlater jwt.userId
  obtain ⟨a, found, hversion⟩ := admits_iff.mp open_
  obtain ⟨c, foundLast, hversionLast⟩ := admits_iff.mp accepted
  rw [found] at onward
  rw [foundLast] at onwardLast
  cases hrow : between.rows (.user jwt.userId) with
  | user b =>
      rw [hrow] at onward onwardLast
      have hab : a.version ≤ b.version := onward
      have hbc : b.version ≤ c.version := onwardLast
      exact admits_iff.mpr ⟨b, hrow, by omega⟩
  | empty =>
      rw [hrow] at onward
      exact onward.elim
  | removed =>
      rw [hrow] at onwardLast
      exact onwardLast.elim

/-- A write without data: the token that was accepted before it is accepted after it. -/
def unchanged (t : Nat) : List AccountLabel :=
  [.begin t (.edit 1 noData)] ++ List.replicate 5 (.run t .directory) ++ [.commit t]

theorem ended_sessions_stay_ended_sample : ∃ between last,
    Runs.follow (Database.next sampleModule.program) (sampleFirst sampleAccount).db (unchanged 0) =
      some between ∧
    Runs.follow (Database.next sampleModule.program) between (unchanged 1) = some last ∧
    Admits between.rows ⟨1, 0, .signIn "" 0⟩ := by
  have hversion : ((Runs.follow (Database.next sampleModule.program) (sampleFirst sampleAccount).db
      (unchanged 0)).bind fun between =>
        (Runs.follow (Database.next sampleModule.program) between (unchanged 1)).bind fun last =>
          (account? last.rows 1).map Account.version) = some 0 := by
    decide +kernel
  obtain ⟨between, hbetween, hrest⟩ := Option.bind_eq_some_iff.mp hversion
  obtain ⟨last, hlast, haccount⟩ := Option.bind_eq_some_iff.mp hrest
  obtain ⟨c, hc, hv⟩ := Option.map_eq_some_iff.mp haccount
  refine ⟨between, last, hbetween, hlast, ?_⟩
  exact ended_sessions_stay_ended sampleModule (sampleFirst_fresh sampleAccount_sane).db (.refl _)
    (Runs.run_of_follow hbetween) (Runs.run_of_follow hlast)
    (admits_iff.mpr ⟨sampleAccount, rfl, rfl⟩) (admits_iff.mpr ⟨c, account?_eq_some.mp hc, hv.symm⟩)

end Sinnlos.Cms.Accounts

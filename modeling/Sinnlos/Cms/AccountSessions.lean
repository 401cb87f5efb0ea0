import Sinnlos.Cms.AccountHistory

/-! # Sessions

The tokens that sign-ins and password changes are answered with, next to the
database: `issue` and `verify` (`extensions/users-permissions/strapi-server.ts`)
and the sign-in of an identity provider (`idp/exchange-core.ts`). A sign-in takes
its steps one by one while transactions of others commit. Its identifier names
the same user at every step, and whether its second factor was asked for is not
told apart: every sign-in past its password may be answered.
-/

namespace Sinnlos.Cms.Accounts

/-- What a token was issued for. Sign-ins are told with the number of commits at
their blocked check. -/
inductive Issuer
  | signIn (password : String) (checkedAt : Nat)
  | provider (checkedAt : Nat)
  /-- The answer to the password change of transaction `t`. -/
  | changePassword (t : Nat)
deriving DecidableEq

structure Jwt where
  userId : Nat
  tv : Int
  issuer : Issuer
deriving DecidableEq

/-- A local sign-in under way. -/
inductive LocalSignIn
  /-- The version was read (`signInTokenVersion`). -/
  | known (userId : Nat) (version : Int)
  /-- The plugin has read the row and accepted the password. -/
  | accepted (userId : Nat) (version : Int) (password : String) (checkedAt : Nat)
deriving DecidableEq

/-- A sign-in of an identity provider under way. -/
inductive ProviderSignIn
  /-- The row was read and is not blocked. -/
  | unblocked (userId : Nat) (checkedAt : Nat)
  /-- The role is being written by transaction `t`. -/
  | writing (userId : Nat) (checkedAt : Nat) (t : Nat)
  | admitted (userId : Nat) (checkedAt : Nat)
  | issued
deriving DecidableEq

structure World where
  db : AccountDatabase
  locals : Nat → Option LocalSignIn
  providers : Nat → Option ProviderSignIn
  /-- Every token that was issued, the latest first. -/
  jwts : List Jwt

inductive Act
  | db (label : AccountLabel)
  | readVersion (s userId : Nat)
  | checkPassword (s : Nat) (password : String)
  | issueLocal (s : Nat)
  | admitIdentity (s userId : Nat)
  | writeRole (s t : Nat) (signIn : RoleSignIn)
  | admitted (s : Nat)
  | issueSession (s : Nat)
  /-- `changePassword` answers with the version that its transaction committed. -/
  | answer (t : Nat) (version : Int)

/-- The plugin lets the password in. -/
def AccountModule.accepts (m : AccountModule) (a : Account) (password : String) : Bool :=
  decide (a.provider = some "local") && decide (a.blocked ≠ some true) &&
    match a.password with
    | some hash => m.validatePassword password hash
    | none => false

/-- `verify`: the token carries the user's version; without a user the strategy
refuses. -/
def verifies (rows : Rows) (jwt : Jwt) : Bool :=
  match account? rows jwt.userId with
  | some a => jwt.tv = a.version
  | none => true

def World.issue (w : World) (jwt : Jwt) : World := { w with jwts := jwt :: w.jwts }

def World.setLocal (w : World) (s : Nat) (signIn : LocalSignIn) : World :=
  { w with locals := Function.update w.locals s (some signIn) }

def World.setProvider (w : World) (s : Nat) (signIn : ProviderSignIn) : World :=
  { w with providers := Function.update w.providers s (some signIn) }

/-- The user whose password a transaction changes as an action of their own. -/
def World.changer? (w : World) (t : Nat) : Option Nat :=
  match w.db.phase t with
  | some (.changePassword callerId _ _, _) => some callerId
  | _ => none

/-- `admitIdentity`, up to its role write: the row is there and not blocked. -/
def World.admitIdentity (w : World) (s userId : Nat) : Option World :=
  match w.providers s, account? w.db.rows userId with
  | none, some a =>
      if a.blocked = some true then none
      else some (w.setProvider s (.unblocked userId w.db.log.length))
  | _, _ => none

def World.next (m : AccountModule) (w : World) : Act → Option World
  | .db label => (w.db.next m.program label).map fun db => { w with db }
  | .readVersion s userId =>
      match w.locals s, account? w.db.rows userId with
      | none, some a =>
          if a.provider = some "local" then some (w.setLocal s (.known userId a.version)) else none
      | _, _ => none
  | .checkPassword s password =>
      match w.locals s with
      | some (.known userId version) =>
          match account? w.db.rows userId with
          | some a =>
              if m.accepts a password then
                some (w.setLocal s (.accepted userId version password w.db.log.length))
              else none
          | none => none
      | _ => none
  | .issueLocal s =>
      match w.locals s with
      | some (.accepted userId version password checkedAt) =>
          some (w.issue ⟨userId, version, .signIn password checkedAt⟩)
      | _ => none
  | .admitIdentity s userId => w.admitIdentity s userId
  | .writeRole s t signIn =>
      match w.providers s with
      | some (.unblocked userId checkedAt) =>
          (w.db.next m.program (.begin t (.writeRole userId signIn))).map fun db =>
            { w.setProvider s (.writing userId checkedAt t) with db }
      | _ => none
  | .admitted s =>
      match w.providers s with
      | some (.writing userId checkedAt t) =>
          if w.db.replies.contains (t, .ok (.role none)) then
            some (w.setProvider s (.admitted userId checkedAt))
          else none
      | _ => none
  | .issueSession s =>
      match w.providers s with
      | some (.admitted userId checkedAt) =>
          match account? w.db.rows userId with
          | some a =>
              some ((w.setProvider s .issued).issue ⟨userId, a.version, .provider checkedAt⟩)
          | none => none
      | _ => none
  | .answer t version =>
      match w.changer? t with
      | some callerId =>
          if w.db.replies.contains (t, .ok (.saved (some version))) then
            some (w.issue ⟨callerId, version, .changePassword t⟩)
          else none
      | none => none

def WorldStep (m : AccountModule) (w : World) (act : Act) (w' : World) : Prop :=
  w.next m act = some w'

/-- No call has been made, nobody signs in and no token is out. -/
structure World.Fresh (w : World) : Prop where
  db : Accounts.Fresh w.db
  locals : w.locals = fun _ => none
  providers : w.providers = fun _ => none
  jwts : w.jwts = []

/-- The transactions that an act begins have a call of the kind `P`. -/
def Act.Begins (P : AccountCall → Prop) : Act → Prop
  | .db label => label.Begins P
  | .writeRole _ _ signIn => ∀ userId, P (.writeRole userId signIn)
  | _ => True

/-! ## What a step does -/

/-- The cases of a step, with what each has checked. -/
inductive Happens (m : AccountModule) (w : World) : Act → World → Prop
  | db {label : AccountLabel} {db : AccountDatabase} (hdb : Step m w.db label db) :
      Happens m w (.db label) { w with db }
  | readVersion {s userId : Nat} {a : Account} (free : w.locals s = none)
      (found : w.db.rows (.user userId) = .user a) :
      Happens m w (.readVersion s userId) (w.setLocal s (.known userId a.version))
  | checkPassword {s userId : Nat} {version : Int} {password : String} {a : Account}
      (known : w.locals s = some (.known userId version))
      (found : w.db.rows (.user userId) = .user a) (accepted : m.accepts a password = true) :
      Happens m w (.checkPassword s password)
        (w.setLocal s (.accepted userId version password w.db.log.length))
  | issueLocal {s userId : Nat} {version : Int} {password : String} {checkedAt : Nat}
      (accepted : w.locals s = some (.accepted userId version password checkedAt)) :
      Happens m w (.issueLocal s) (w.issue ⟨userId, version, .signIn password checkedAt⟩)
  | admitIdentity {s userId : Nat} {a : Account} (free : w.providers s = none)
      (found : w.db.rows (.user userId) = .user a) (unblocked : a.blocked ≠ some true) :
      Happens m w (.admitIdentity s userId) (w.setProvider s (.unblocked userId w.db.log.length))
  | writeRole {s t userId checkedAt : Nat} {signIn : RoleSignIn} {db : AccountDatabase}
      (unblocked : w.providers s = some (.unblocked userId checkedAt))
      (hdb : Step m w.db (.begin t (.writeRole userId signIn)) db) :
      Happens m w (.writeRole s t signIn) { w.setProvider s (.writing userId checkedAt t) with db }
  | admitted {s t userId checkedAt : Nat} (writing : w.providers s = some (.writing userId checkedAt t)) :
      Happens m w (.admitted s) (w.setProvider s (.admitted userId checkedAt))
  | issueSession {s userId checkedAt : Nat} {a : Account}
      (admitted : w.providers s = some (.admitted userId checkedAt))
      (found : w.db.rows (.user userId) = .user a) :
      Happens m w (.issueSession s)
        ((w.setProvider s .issued).issue ⟨userId, a.version, .provider checkedAt⟩)
  | answer {t callerId : Nat} {version : Int} (changer : w.changer? t = some callerId)
      (replied : (t, .ok (.saved (some version))) ∈ w.db.replies) :
      Happens m w (.answer t version) (w.issue ⟨callerId, version, .changePassword t⟩)

variable {m : AccountModule} {id : Nat} {s s' : AccountDatabase}

theorem WorldStep.happens {w w' : World} {act : Act} (h : WorldStep m w act w') :
    Happens m w act w' := by
  unfold WorldStep at h
  cases act with
  | db label =>
      obtain ⟨db, hdb, rfl⟩ := Option.map_eq_some_iff.mp h
      exact .db hdb
  | readVersion s userId =>
      simp only [World.next] at h
      split at h
      · rename_i a free found
        split at h
        · cases h
          exact .readVersion free (account?_eq_some.mp found)
        · cases h
      · cases h
  | checkPassword s password =>
      simp only [World.next] at h
      split at h
      · rename_i userId version known
        split at h
        · rename_i a found
          split at h
          · rename_i accepted
            cases h
            exact .checkPassword known (account?_eq_some.mp found) accepted
          · cases h
        · cases h
      · cases h
  | issueLocal s =>
      simp only [World.next] at h
      split at h
      · rename_i accepted
        cases h
        exact .issueLocal accepted
      · cases h
  | admitIdentity s userId =>
      simp only [World.next, World.admitIdentity] at h
      split at h
      · rename_i a free found
        split at h
        · cases h
        · rename_i unblocked
          cases h
          exact .admitIdentity free (account?_eq_some.mp found) unblocked
      · cases h
  | writeRole s t signIn =>
      simp only [World.next] at h
      split at h
      · rename_i unblocked
        obtain ⟨db, hdb, rfl⟩ := Option.map_eq_some_iff.mp h
        exact .writeRole unblocked hdb
      · cases h
  | admitted s =>
      simp only [World.next] at h
      split at h
      · rename_i writing
        split at h
        · cases h
          exact .admitted writing
        · cases h
      · cases h
  | issueSession s =>
      simp only [World.next] at h
      split at h
      · rename_i admitted
        split at h
        · rename_i a found
          cases h
          exact .issueSession admitted (account?_eq_some.mp found)
        · cases h
      · cases h
  | answer t version =>
      simp only [World.next] at h
      split at h
      · rename_i callerId changer
        split at h
        · rename_i replied
          cases h
          exact .answer changer (by simpa using replied)
        · cases h
      · cases h

/-! ## A user who is not removed -/

def AccountCall.deletes : AccountCall → Bool
  | .documentDelete _ => true
  | _ => false

variable {a : Account} {P : AccountCall → Prop} {first : Rows} {label : AccountLabel}

/-- Where nothing is deleted, a user stays and their version does not go down. -/
theorem RowChange.live {call : AccountCall} {result : AccountResult} {after : Record}
    (h : RowChange m call result id (.user a) after) (hcall : call.deletes = false) :
    ∃ b, after = .user b ∧ (b = a ∨ Rewrites m call result id a b) := by
  cases h with
  | same _ => exact ⟨a, rfl, Or.inl rfl⟩
  | rewrote rewrites => exact ⟨_, rfl, Or.inr rewrites⟩
  | removed hdelete live =>
      rw [hdelete] at hcall
      cases hcall

/-- The user is there, at version `v` at least. -/
def Reached (id : Nat) (v : Int) (rows : Rows) : Prop :=
  ∃ a, rows (.user id) = .user a ∧ v ≤ a.version

theorem moments_of_log {commit : AccountCommit} (hlog : s'.log = commit :: s.log)
    (hbefore : commit.before = s.rows) : s'.moments = s'.rows :: s.moments := by
  unfold Database.moments
  rw [hlog, List.map_cons, hbefore]

theorem moments_of_same (hrows : s'.rows = s.rows) (hlog : s'.log = s.log) :
    s'.moments = s.moments := by
  unfold Database.moments
  rw [hrows, hlog]

/-- A step of the database, for one user who is there. -/
theorem Kept.user_step (h : Kept m P first s) (hs : Step m s label s') (begins : label.Begins P)
    (stays : ∀ call, P call → call.deletes = false) (found : s.rows (.user id) = .user a) :
    (∀ rows ∈ s.moments, rows ∈ s'.moments) ∧ ∃ b, s'.rows (.user id) = .user b ∧
      a.version ≤ b.version := by
  rcases (h.step_cases hs begins).2 with ⟨hrows, hlog⟩ | ⟨commit, hcommit⟩
  · rw [moments_of_same hrows hlog, hrows]
    exact ⟨fun _ hm => hm, a, found, Int.le_refl _⟩
  · rw [moments_of_log hcommit.log hcommit.before]
    refine ⟨fun _ hm => List.mem_cons_of_mem _ hm, ?_⟩
    have change := commit_rowChange hcommit.post id
    rw [hcommit.before, found] at change
    obtain ⟨b, hb, hrewrites⟩ := change.live (stays _ hcommit.call)
    refine ⟨b, by rw [hcommit.rows]; exact hb, ?_⟩
    rcases hrewrites with rfl | rewrites
    · exact Int.le_refl _
    · have hversion := (rewrites.version (h.sane id a found)).2
      omega

theorem Reached.step {v : Int} (h : Reached id v s.rows) (kept : Kept m P first s)
    (hs : Step m s label s') (begins : label.Begins P)
    (stays : ∀ call, P call → call.deletes = false) : Reached id v s'.rows := by
  obtain ⟨a, found, hv⟩ := h
  obtain ⟨_, b, hb, hle⟩ := kept.user_step hs begins stays found
  exact ⟨b, hb, Int.le_trans hv hle⟩

end Sinnlos.Cms.Accounts

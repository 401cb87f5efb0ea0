import Sinnlos.Cms.PasswordSessions

/-! # Set-password links over a run

A link is redeemed once: the row it opens still carries the text it was issued
with, at the version, for the address and before the hour it was issued for, and
redeeming it takes that text away.
-/

namespace Sinnlos.Cms.Accounts

open Runs (Run)

/-! ## The column across one commit -/

/-- The stored link of a user. -/
def linkColumn (record : Record) : Option String :=
  record.account?.bind Account.resetPasswordToken

def KeepsLink (commit : AccountCommit) (id : Nat) : Prop :=
  linkColumn (commit.after (.user id)) = linkColumn (commit.before (.user id))

/-- The random part and the time of a call that issues a link. -/
def AccountCall.link? : AccountCall → Option (LinkSecret × Int)
  | .sendLink _ _ _ secret now => some (secret, now)
  | .inviteUser _ _ _ secret now => some (secret, now)
  | .requestReset _ secret now => some (secret, now)
  | _ => none

/-- The commit gave the row `b` of `id` its link. -/
structure Issues (m : AccountModule) (commit : AccountCommit) (id : Nat) (purpose : LinkPurpose)
    (secret : LinkSecret) (issuedAt : Int) (b : Account) : Prop where
  call : commit.call.link? = some (secret, issuedAt)
  after : commit.after (.user id) = .user b
  stored : b.resetPasswordToken = some (m.storedLink purpose b secret issuedAt)

/-- The commit is a redemption of the link of `id`. -/
def Redeems (commit : AccountCommit) (id : Nat) : Prop :=
  ∃ token password now, commit.call = .redeemLink token password now ∧ linkUserId token = some id

variable {m : AccountModule} {commit : AccountCommit} {id : Nat}

/-- A commit leaves the column, empties it or issues a link. -/
theorem commit_link (hpost : m.post commit.call commit.result commit.before commit.changes)
    (id : Nat) :
    KeepsLink commit id ∨ linkColumn (commit.after (.user id)) = none ∨
      ∃ purpose secret issuedAt b, Issues m commit id purpose secret issuedAt b := by
  have change := commit_rowChange hpost id
  generalize hbefore : commit.before (.user id) = before at change
  generalize hafter : commit.after (.user id) = after at change
  have kept (h : linkColumn after = linkColumn before) : KeepsLink commit id := by
    unfold KeepsLink
    rw [hbefore, hafter, h]
  cases change with
  | same _ => exact Or.inl (kept rfl)
  | removed _ _ => exact Or.inr (Or.inl rfl)
  | @invited callerId callerTv invite secret now hcall =>
      exact Or.inr (Or.inr ⟨.invite, secret, now, _, by rw [hcall]; rfl, hafter, rfl⟩)
  | @rewrote a b rewrites =>
      generalize hcall : commit.call = call at rewrites
      generalize commit.result = result at rewrites
      cases rewrites with
      | saved _ _ _ _ _ => exact Or.inl (kept (saved_resetPasswordToken _ _ _))
      | updated _ _ => exact Or.inl (kept (updated_resetPasswordToken _ _ _))
      | handed _ _ | cleared _ _ | role _ | raised _ => exact Or.inl (kept rfl)
      | anonymised _ _ | redeemed _ => exact Or.inr (Or.inl rfl)
      | @sent callerId callerTv _ secret now _ _ _ _ =>
          exact Or.inr (Or.inr ⟨linkPurpose a, secret, now, _, by rw [hcall]; rfl, hafter, rfl⟩)
      | @requested email _ secret now _ _ _ _ _ =>
          exact Or.inr (Or.inr ⟨.reset, secret, now, _, by rw [hcall]; rfl, hafter, rfl⟩)

variable {token : Option String} {password : Option NewPassword} {now : Int} {first rows : Rows}
  {newer older : List AccountCommit} {secret : String}

/-- What a redemption found and left. -/
theorem redeems_post (hpost : m.post commit.call commit.result commit.before commit.changes)
    (hcall : commit.call = .redeemLink token password now) :
    ∃ text new id a, token = some text ∧ password = some new ∧ m.linkMatches id a text now = true ∧
      commit.before (.user id) = .user a ∧ commit.after (.user id) = .user (a.redeemed new.hash) := by
  rw [hcall] at hpost
  cases token with
  | none => exact hpost.elim
  | some text =>
      cases password with
      | none => exact hpost.elim
      | some new =>
          cases hresult : commit.result <;> rw [hresult] at hpost
          case done =>
            obtain ⟨id, a, matched, wrote⟩ := hpost
            refine ⟨text, new, id, a, rfl, rfl, matched, wrote.found, ?_⟩
            unfold Commit.after
            rw [wrote.changes, overlay_only_self]
          all_goals exact hpost.elim

/-- A redemption takes the link away. -/
theorem Redeems.not_keeps (h : Redeems commit id)
    (hpost : m.post commit.call commit.result commit.before commit.changes) :
    ¬ KeepsLink commit id := by
  obtain ⟨token, password, now, hcall, huser⟩ := h
  obtain ⟨text, new, target, a, rfl, _, matched, before, after⟩ := redeems_post hpost hcall
  obtain ⟨secret, stored, hmatch⟩ := linkMatches_iff.mp matched
  have htarget : id = target := by
    simpa [linkUserId, hmatch.link] using huser.symm
  obtain ⟨column, hcolumn, _⟩ := Option.bind_eq_some_iff.mp hmatch.column
  intro keeps
  unfold KeepsLink at keeps
  rw [htarget, before, after] at keeps
  have hsome : none = a.resetPasswordToken := keeps
  rw [hcolumn] at hsome
  cases hsome

/-! ## Along the log -/

/-- Where the text in the column of `id` comes from, after these commits: the
first rows had it, or one of the commits issued it, and no other has touched the
column or redeemed a link since. -/
inductive LinkOrigin (m : AccountModule) (first : Rows) (id : Nat) (text : String) :
    List AccountCommit → Prop
  | first {log : List AccountCommit} (found : linkColumn (first (.user id)) = some text)
      (kept : ∀ commit ∈ log, KeepsLink commit id ∧ ¬ Redeems commit id) :
      LinkOrigin m first id text log
  | issued {since before : List AccountCommit} {issue : AccountCommit} {purpose : LinkPurpose}
      {secret : LinkSecret} {issuedAt : Int} {b : Account}
      (issues : Issues m issue id purpose secret issuedAt b)
      (column : b.resetPasswordToken = some text)
      (kept : ∀ commit ∈ since, KeepsLink commit id ∧ ¬ Redeems commit id) :
      LinkOrigin m first id text (since ++ issue :: before)

theorem linked_origin {text : String} {log : List AccountCommit}
    (linked : Database.Linked first log rows)
    (posted : ∀ commit ∈ log, m.post commit.call commit.result commit.before commit.changes)
    (column : linkColumn (rows (.user id)) = some text) : LinkOrigin m first id text log := by
  induction log generalizing rows with
  | nil =>
      cases linked
      exact .first column fun _ hc => absurd hc List.not_mem_nil
  | cons commit earlier ih =>
      obtain ⟨rfl, hrest⟩ := linked
      rw [List.forall_mem_cons] at posted
      rcases commit_link posted.1 id with keeps | hnone | ⟨purpose, secret, issuedAt, b, issues⟩
      · have alone : KeepsLink commit id ∧ ¬ Redeems commit id :=
          ⟨keeps, fun redeems => redeems.not_keeps posted.1 keeps⟩
        cases ih hrest posted.2 (keeps.symm.trans column) with
        | first found kept => exact .first found (List.forall_mem_cons.mpr ⟨alone, kept⟩)
        | issued issues hb kept =>
            rw [← List.cons_append]
            exact .issued issues hb (List.forall_mem_cons.mpr ⟨alone, kept⟩)
      · rw [hnone] at column
        cases column
      · rw [issues.after] at column
        rw [← List.nil_append (commit :: earlier)]
        exact .issued issues column fun _ hc => absurd hc List.not_mem_nil

/-- The log before a commit leads to the rows it found. -/
theorem linked_before (linked : Database.Linked first (newer ++ commit :: older) rows) :
    Database.Linked first older commit.before := by
  induction newer generalizing rows with
  | nil => exact linked.2
  | cons last newer ih => exact ih linked.2

/-! ## Redemptions -/

theorem secret_length {secret : List Char} (h : isSecretText secret = true) : secret.length = 43 := by
  simp only [isSecretText, Bool.and_eq_true, decide_eq_true_eq] at h
  exact h.1

theorem length_of_readLink {token : String} (h : readLink token = some (id, secret)) :
    secret.toList.length = 43 := by
  unfold readLink at h
  split at h
  · split at h
    · next hsecret =>
        obtain ⟨n, _, hpair⟩ := Option.map_eq_some_iff.mp h
        cases hpair
        rw [String.toList_ofList, secret_length hsecret]
    · cases h
  · cases h

/-- The random part has one length, so the digested text tells it from the address. -/
theorem digested_injective (mailed : LinkSecret) {email email' : Option String}
    (hlength : secret.toList.length = 43)
    (h : m.digested secret email = m.digested mailed.val email') :
    secret = mailed.val ∧ m.boundEmail email = m.boundEmail email' := by
  have hchars := congrArg String.toList h
  simp only [AccountModule.digested, String.toList_append, List.append_assoc] at hchars
  have hparts := List.append_inj hchars (hlength.trans (secret_length mailed.property).symm)
  exact ⟨String.toList_injective hparts.1,
    String.toList_injective (List.append_cancel_left hparts.2)⟩

/-- The link opened with `secret` at the row `a` is the one issued to the row `b`. -/
structure IssuedLink (m : AccountModule) (secret : String) (now : Int) (a : Account)
    (purpose : LinkPurpose) (mailed : LinkSecret) (issuedAt : Int) (b : Account) : Prop where
  unexpired : now / 1000 < expiryOf purpose issuedAt
  /-- No password change, block or reset of the second factor came between. -/
  version : a.version = b.version
  purpose : purpose = linkPurpose a
  digest : m.linkDigest secret a.email = m.linkDigest mailed.val b.email
  /-- Where the digest tells the two texts apart. -/
  same : (m.linkDigest secret a.email = m.linkDigest mailed.val b.email →
      m.digested secret a.email = m.digested mailed.val b.email) →
    secret = mailed.val ∧ m.boundEmail a.email = m.boundEmail b.email

/-- What a redemption was, given the commits before it. -/
structure Redemption (m : AccountModule) (first : Rows) (older : List AccountCommit)
    (commit : AccountCommit) (token hash : String) (now : Int) (id : Nat) (secret text : String)
    (a : Account) : Prop where
  link : readLink token = some (id, secret)
  before : commit.before (.user id) = .user a
  after : commit.after (.user id) = .user (a.redeemed hash)
  version : (a.redeemed hash).version = a.version + 1
  unbound : a.isLocalUnbound = true
  unblocked : a.blocked ≠ some true
  column : a.resetPasswordToken = some text
  origin : LinkOrigin m first id text older
  issued : ∀ issue purpose mailed issuedAt b, Issues m issue id purpose mailed issuedAt b →
    b.resetPasswordToken = some text → IssuedLink m secret now a purpose mailed issuedAt b

/-- SHA-256 on the text of the sample. -/
def linkModule : AccountModule :=
  { sampleModule with
    sha256 := fun text =>
      if text = "AAAAAAAAAAAAAAAAAAAAAAAAAAAAAAAAAAAAAAAAAAA:a@example.org" then
        "2fd5e22acb451ac44e5d2d08cae2445d08a35d29d30f2c0abc7306fb729e87f6"
      else ""
    toLowerCase := fun text => String.ofList (text.toList.map Char.toLower) }

theorem resetSecret_isSecret :
    isSecretText "AAAAAAAAAAAAAAAAAAAAAAAAAAAAAAAAAAAAAAAAAAA".toList = true := by
  decide +kernel

def resetSecret : LinkSecret := ⟨_, resetSecret_isSecret⟩

def resetPassword : NewPassword :=
  ⟨"a sehr langer satz", "$2a$10$.rCVZVOThsIa97pEDOxvGukKWMyQhaM9evNCCt6e3V5CyHg2SQkvy"⟩

/-- A link is mailed, and redeemed a minute later. -/
def forgotten : List AccountLabel :=
  [.begin 0 (.requestReset "a@example.org" resetSecret 1792890000000)] ++
  List.replicate 5 (.run 0 .directory) ++
  [.commit 0, .begin 1 (.redeemLink (some (linkToken 1 resetSecret)) (some resetPassword)
    1792890060000)] ++
  List.replicate 4 (.run 1 .directory) ++ [.commit 1]

end Sinnlos.Cms.Accounts

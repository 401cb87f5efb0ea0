import Sinnlos.Cms.Accounts
import Sinnlos.Lib.Digits

/-! # Set-password links

What a link carries, what the row stores of it and when the two match
(`apps/cms/src/utils/password-link.ts`). The clock counts milliseconds.
-/

namespace Sinnlos.Cms.Accounts

open Mfa (versionOf)

/-! ## Links -/

inductive LinkPurpose
  | invite
  | reset
deriving DecidableEq

def LinkPurpose.text : LinkPurpose → String
  | .invite => "invite"
  | .reset => "reset"

def LINK_TTL_SECONDS : LinkPurpose → Int
  | .invite => 7 * 24 * 60 * 60
  | .reset => 60 * 60

/-- `[A-Za-z0-9_-]`. -/
def isBase64Url (c : Char) : Bool :=
  ('A' ≤ c && c ≤ 'Z') || ('a' ≤ c && c ≤ 'z') || c.isDigit || c = '_' || c = '-'

def isHexDigit (c : Char) : Bool := c.isDigit || ('a' ≤ c && c ≤ 'f')

def isSecretText (text : List Char) : Bool := text.length = 43 && text.all isBase64Url

/-- 32 random bytes, as text. -/
abbrev LinkSecret : Type := { text : String // isSecretText text.toList = true }

/-- An address as a link is bound to it. -/
def AccountModule.boundEmail (m : AccountModule) (email : Option String) : String :=
  match email with
  | some text => m.toLowerCase (Text.trim text)
  | none => ""

/-- The text that is digested for a link. -/
def AccountModule.digested (m : AccountModule) (secret : String) (email : Option String) : String :=
  secret ++ ":" ++ m.boundEmail email

def AccountModule.linkDigest (m : AccountModule) (secret : String) (email : Option String) :
    String :=
  m.sha256 (m.digested secret email)

/-- The purpose a link for `row` has: an invitation without a password, else a reset. -/
def linkPurpose (row : Account) : LinkPurpose := if isSet row.password then .reset else .invite

def expiryOf (purpose : LinkPurpose) (now : Int) : Int := now / 1000 + LINK_TTL_SECONDS purpose

/-- What `issueLink` stores. -/
def AccountModule.storedLink (m : AccountModule) (purpose : LinkPurpose) (row : Account)
    (secret : LinkSecret) (now : Int) : String :=
  purpose.text ++ ":" ++ toString (expiryOf purpose now) ++ ":" ++
    toString (versionOf row.tokenVersion) ++ ":" ++ m.linkDigest secret.val row.email

/-- What `issueLink` returns for the mail. -/
def linkToken (id : Nat) (secret : LinkSecret) : String := toString id ++ "." ++ secret.val

/-! ## Reading them -/

structure StoredLink where
  purpose : LinkPurpose
  expires : Nat
  version : Nat
  digest : String
deriving DecidableEq

def readPurpose (text : List Char) : Option LinkPurpose :=
  if text = LinkPurpose.invite.text.toList then some .invite
  else if text = LinkPurpose.reset.text.toList then some .reset
  else none

/-- `\d{1,width}` -/
def readDigits (width : Nat) (text : List Char) : Option Nat :=
  if text.length ≤ width then Text.readNat text else none

/-- `STORED.exec` -/
def readStored (text : String) : Option StoredLink :=
  match Text.split ':' text.toList with
  | [purpose, expires, version, digest] =>
      if digest.length = 64 ∧ digest.all isHexDigit then do
        return ⟨← readPurpose purpose, ← readDigits 12 expires, ← readDigits 10 version,
          String.ofList digest⟩
      else none
  | _ => none

/-- `LINK.exec`: the user id and the random part. -/
def readLink (token : String) : Option (Nat × String) :=
  match Text.split '.' token.toList with
  | [id, secret] =>
      if isSecretText secret then (readDigits 10 id).map fun n => (n, String.ofList secret) else none
  | _ => none

/-- Whether `token` is the valid link of `row`. Two digests of 64 digits are the
same bytes where they are the same text. -/
def AccountModule.linkMatches (m : AccountModule) (id : Nat) (row : Account) (token : String)
    (now : Int) : Bool :=
  match readLink token, row.resetPasswordToken.bind readStored with
  | some (linkId, secret), some stored =>
      decide (linkId = id) && decide (m.linkDigest secret row.email = stored.digest) &&
        decide (now / 1000 < stored.expires) &&
        decide ((stored.version : Int) = versionOf row.tokenVersion) &&
        decide (stored.purpose = linkPurpose row) && row.isLocalUnbound &&
        decide (row.blocked ≠ some true)
  | _, _ => false

/-! ## What a match says -/

theorem LinkPurpose.not_mem_text (purpose : LinkPurpose) : ':' ∉ purpose.text.toList := by
  cases purpose <;> decide

theorem readPurpose_text (purpose : LinkPurpose) :
    readPurpose purpose.text.toList = some purpose := by
  cases purpose <;> decide

variable {width k id : Nat} {m : AccountModule} {row : Account} {now : Int}

theorem readNat_of_readDigits {text : List Char} (h : readDigits width text = some k) :
    Text.readNat text = some k := by
  unfold readDigits at h
  split at h
  · exact h
  · cases h

theorem lt_of_readDigits {text : List Char} (h : readDigits width text = some k) :
    k < 10 ^ width := by
  unfold readDigits at h
  split at h
  · rename_i hlen
    exact Nat.lt_of_lt_of_le (Text.digits_of_readNat h).1 (Nat.pow_le_pow_right (by decide) hlen)
  · cases h

/-- The four pieces of a stored link. -/
theorem readStored_eq_some {text : String} {stored : StoredLink} (h : readStored text = some stored) :
    ∃ purpose expires version digest,
      Text.split ':' text.toList = [purpose, expires, version, digest] ∧
      readPurpose purpose = some stored.purpose ∧ readDigits 12 expires = some stored.expires ∧
      readDigits 10 version = some stored.version ∧ String.ofList digest = stored.digest := by
  unfold readStored at h
  split at h
  · rename_i purpose expires version digest hsplit
    split at h
    · simp only [Option.pure_def, Option.bind_eq_bind, Option.bind_eq_some_iff,
        Option.some.injEq] at h
      obtain ⟨_, hpurpose, _, hexpires, _, hversion, rfl⟩ := h
      exact ⟨_, _, _, _, hsplit, hpurpose, hexpires, hversion, rfl⟩
    · cases h
  · cases h

/-- What is read of a stored link is what was stored. -/
theorem readStored_storedLink {purpose : LinkPurpose} {secret : LinkSecret} {stored : StoredLink}
    (h : readStored (m.storedLink purpose row secret now) = some stored) :
    stored.purpose = purpose ∧ (stored.expires : Int) = expiryOf purpose now ∧
      (stored.version : Int) = versionOf row.tokenVersion ∧
      stored.digest = m.linkDigest secret.val row.email := by
  have hchars : (m.storedLink purpose row secret now).toList =
      purpose.text.toList ++ ':' :: ((toString (expiryOf purpose now)).toList ++
        ':' :: ((toString (versionOf row.tokenVersion)).toList ++
          ':' :: (m.linkDigest secret.val row.email).toList)) := by
    simp [AccountModule.storedLink, String.toList_append]
  have hcolon := @Text.not_mem_toString_int ':' (by decide) (by decide)
  obtain ⟨_, _, _, digest, hsplit, hpurpose, hexpires, hversion, hstored⟩ := readStored_eq_some h
  rw [hchars, Text.split_append purpose.not_mem_text, Text.split_append (hcolon _),
    Text.split_append (hcolon _)] at hsplit
  simp only [List.cons.injEq] at hsplit
  obtain ⟨rfl, rfl, rfl, hdigest⟩ := hsplit
  rw [readPurpose_text] at hpurpose
  refine ⟨(Option.some.inj hpurpose).symm, Text.readNat_of_toString (readNat_of_readDigits hexpires),
    Text.readNat_of_toString (readNat_of_readDigits hversion), ?_⟩
  rw [← hstored, ← Text.eq_of_split_singleton hdigest, String.ofList_toList]

/-- A link that was mailed names its user and its random part. -/
theorem readLink_linkToken (secret : LinkSecret) (h : (toString id).length ≤ 10) :
    readLink (linkToken id secret) = some (id, secret.val) := by
  have hchars : (linkToken id secret).toList = (toString id).toList ++ '.' :: secret.val.toList := by
    simp [linkToken, String.toList_append]
  have hsecret : '.' ∉ secret.val.toList := by
    intro hmem
    have hall := (Bool.and_eq_true_iff.mp secret.property).2
    exact absurd (List.all_eq_true.mp hall '.' hmem) (by decide)
  unfold readLink
  rw [hchars, Text.split_append (Text.not_mem_toString (by decide) id),
    Text.split_of_not_mem hsecret]
  have hread : readDigits 10 (toString id).toList = some id := by
    unfold readDigits
    rw [if_pos (String.length_toList ▸ h), Text.readNat_toString]
  dsimp only
  rw [if_pos secret.property, hread]
  simp

/-- Everything that a match says of the row and of the link. -/
structure LinkMatch (m : AccountModule) (id : Nat) (row : Account) (token : String) (now : Int)
    (secret : String) (stored : StoredLink) : Prop where
  link : readLink token = some (id, secret)
  column : row.resetPasswordToken.bind readStored = some stored
  digest : m.linkDigest secret row.email = stored.digest
  unexpired : now / 1000 < stored.expires
  version : (stored.version : Int) = versionOf row.tokenVersion
  purpose : stored.purpose = linkPurpose row
  unbound : row.isLocalUnbound = true
  unblocked : row.blocked ≠ some true

theorem linkMatches_iff {token : String} :
    m.linkMatches id row token now = true ↔
      ∃ secret stored, LinkMatch m id row token now secret stored := by
  unfold AccountModule.linkMatches
  constructor
  · intro h
    split at h
    · rename_i linkId secret stored hlink hstored
      simp only [Bool.and_eq_true, decide_eq_true_eq] at h
      obtain ⟨⟨⟨⟨⟨⟨hid, hdigest⟩, hexp⟩, hversion⟩, hpurpose⟩, hlocal⟩, hblocked⟩ := h
      exact ⟨secret, stored, hid ▸ hlink, hstored, hdigest, hexp, hversion, hpurpose, hlocal, hblocked⟩
    · cases h
  · rintro ⟨secret, stored, h⟩
    rw [h.link, h.column]
    simp only [Bool.and_eq_true, decide_eq_true_eq, true_and]
    exact ⟨⟨⟨⟨⟨h.digest, h.unexpired⟩, h.version⟩, h.purpose⟩, h.unbound⟩, h.unblocked⟩

/-- The user a link names, or none where it is no link. -/
def linkUserId (token : Option String) : Option Nat := (token.bind readLink).map Prod.fst

end Sinnlos.Cms.Accounts

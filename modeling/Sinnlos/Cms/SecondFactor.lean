import Sinnlos.Cms.Totp
import Sinnlos.Lib.Json
import Sinnlos.Lib.Transaction

/-! # The second factor

Checking and consuming one code of a local account, in a transaction with the
user's row locked (`apps/cms/src/utils/mfa-core.ts`), and the transactions that
activate, turn off or reset the second factor or raise the token version
(`apps/cms/src/utils/mfa.ts`). What a request computes before its transaction
(its password check, the opened enrollment, the new codes) comes with the call.
-/

namespace Sinnlos.Cms.Mfa

/-- The columns of a user row that the second factor reads or writes. -/
structure MfaRow where
  roleType : Option String
  tokenVersion : Option Int
  totpSecret : Option String
  totpEnabledAt : Option Int
  totpLastStep : Option Int
  totpRecoveryCodes : Json
deriving DecidableEq

/-- The user rows by id; none is no such user. -/
abbrev MfaView : Type := View Nat (Option MfaRow)

/-- The clock is an argument of the calls that read it. -/
abbrev MfaTxn : Type → Type := Txn Nat (Option MfaRow) Unit MfaRefusal

/-! ## Rows and codes -/

def MAX_SAFE_INTEGER : Int := 2 ^ 53 - 1

/-- A stored version: a non-negative integer, anything else is 0. -/
def versionOf (value : Option Int) : Int :=
  match value with
  | some number => if 0 ≤ number ∧ number ≤ MAX_SAFE_INTEGER then number else 0
  | none => 0

def isEnrolled (row : MfaRow) : Bool := row.totpEnabledAt.isSome

def roleRequiresMfa (row : Option MfaRow) (roles : List String) : Bool :=
  match row.bind MfaRow.roleType with
  | some role => roles.contains role
  | none => false

/-- `decrypt` that never throws. -/
def Crypto.unseal (m : Crypto) (value : Option String) : Option String :=
  match value with
  | some sealed => if sealed = "" then none else m.decrypt sealed
  | none => none

inductive FactorKind
  | totp
  | recovery
deriving DecidableEq

/-- White space and hyphens, which a recovery code may be written with. -/
def isBlankOrHyphen (c : Char) : Bool := Text.isTrimmed c || c = '-'

/-- A letter or a digit of a recovery code, in either case. -/
def isRecoveryChar (c : Char) : Bool :=
  ('a' ≤ c && c ≤ 'z') || ('A' ≤ c && c ≤ 'Z') || ('2' ≤ c && c ≤ '7')

/-- What kind of code the input is, by its shape alone. -/
def secondFactorKind (input : String) : Option FactorKind :=
  let value := Text.trimChars input.toList
  let compact := value.filter fun c => !isBlankOrHyphen c
  if isSixDigits value then some .totp
  else if compact.length = 16 ∧ compact.all isRecoveryChar then some .recovery
  else none

def hexDigit (n : Nat) : Char := if n < 10 then Char.ofNat (48 + n) else Char.ofNat (87 + n)

/-- `digest("hex")`. -/
def hexText (bytes : List UInt8) : List Char :=
  bytes.flatMap fun b => [hexDigit (b.toNat / 16), hexDigit (b.toNat % 16)]

def hexValue (c : Char) : Option Nat :=
  if '0' ≤ c ∧ c ≤ '9' then some (c.toNat - 48)
  else if 'a' ≤ c ∧ c ≤ 'f' then some (c.toNat - 87)
  else if 'A' ≤ c ∧ c ≤ 'F' then some (c.toNat - 55)
  else none

/-- `Buffer.from(text, "hex")`, which stops at the first pair that is none. -/
def hexBytes : List Char → List UInt8
  | a :: b :: rest =>
      match hexValue a, hexValue b with
      | some x, some y => UInt8.ofNat (16 * x + y) :: hexBytes rest
      | _, _ => []
  | _ => []

/-- The stored form of a recovery code: the hash of its normalised spelling. -/
def hashRecoveryCode (m : Crypto) (code : String) : String :=
  let normal := (code.toList.filter fun c => !isBlankOrHyphen c).map Char.toLower
  String.ofList (hexText (m.sha256 (String.ofList normal)))

/-- The codes a row lists; what is no text does not count. -/
def recoveryCodes (row : MfaRow) : List String :=
  match row.totpRecoveryCodes with
  | .arr items => items.filterMap Json.str?
  | _ => []

/-- What two stored codes are compared by. -/
def codeBytes (code : String) : List UInt8 := hexBytes code.toList

/-- Where `hash` is in the list: the last place. -/
def indexOfHash (codes : List String) (hash : String) : Option Nat :=
  let given := codeBytes hash
  codes.zipIdx.foldl (fun index entry =>
    if codeBytes entry.1 = given then some entry.2 else index) none

/-! ## Consuming a code -/

/-- The answer to a code. -/
structure Consumed where
  ok : Bool
  via : Option FactorKind
  remaining : Option Nat
deriving DecidableEq

def notConsumed : Consumed := ⟨false, none, none⟩

def lockUserRow (userId : Nat) : MfaTxn Bool := Txn.forUpdate userId Option.isSome

/-- The steps that may be accepted on this row: later than the last one. -/
def acceptsStep (step : Int) (row : Option MfaRow) : Bool :=
  match row with
  | some row =>
      row.totpEnabledAt.isSome &&
        match row.totpLastStep with
        | none => true
        | some last => last < step
  | none => false

def MfaRow.withStep (step : Int) (row : MfaRow) : MfaRow := { row with totpLastStep := some step }

def MfaRow.withCodes (codes : List String) (row : MfaRow) : MfaRow :=
  { row with totpRecoveryCodes := .arr (codes.map Json.str) }

/-- The secret of a row, opened and decoded. -/
def secretOf (m : Crypto) (row : MfaRow) : Option (List UInt8) :=
  (m.unseal row.totpSecret).bind base32Decode

def consumeTotp (m : Crypto) (userId : Nat) (row : MfaRow) (input : String) (now : Int) :
    MfaTxn Consumed :=
  match secretOf m row with
  | none => return notConsumed
  | some secret =>
      match matchTotp m secret (Text.trimChars input.toList) now with
      | .error refusal => .refuse refusal
      | .ok none => return notConsumed
      | .ok (some step) => do
          let changed ← Txn.updateWhere userId (acceptsStep step) (Option.map (MfaRow.withStep step))
          return if changed then ⟨true, some .totp, none⟩ else notConsumed

def consumeRecovery (m : Crypto) (userId : Nat) (row : MfaRow) (input : String) :
    MfaTxn Consumed :=
  let codes := recoveryCodes row
  match indexOfHash codes (hashRecoveryCode m input) with
  | none => return notConsumed
  | some index => do
      let remaining := codes.eraseIdx index
      let _ ← Txn.updateWhere userId Option.isSome (Option.map (MfaRow.withCodes remaining))
      return ⟨true, some .recovery, some remaining.length⟩

/-- Check and consume one code of an enrolled user at version `tv`. -/
def consumeSecondFactor (m : Crypto) (userId : Nat) (tv : Int) (input : String) (now : Int) :
    MfaTxn Consumed :=
  match secondFactorKind input with
  | none => return notConsumed
  | some kind => do
      let _ ← lockUserRow userId
      let view ← Txn.select
      match view.row userId with
      | none => return notConsumed
      | some row =>
          if versionOf row.tokenVersion ≠ tv ∨ isEnrolled row = false then return notConsumed
          else
            match kind with
            | .totp => consumeTotp m userId row input now
            | .recovery => consumeRecovery m userId row input

/-! ## Turning the second factor on and off -/

def MfaRow.cleared (row : MfaRow) : MfaRow :=
  { row with
    totpSecret := none
    totpEnabledAt := none
    totpLastStep := none
    totpRecoveryCodes := .null }

def MfaRow.bumped (row : MfaRow) : MfaRow :=
  { row with tokenVersion := some (row.tokenVersion.getD 0 + 1) }

/-- `UPDATE … RETURNING`: the version this call committed. -/
def bumpTokenVersion (userId : Nat) : MfaTxn Int := do
  let _ ← Txn.updateWhere userId Option.isSome (Option.map MfaRow.bumped)
  let view ← Txn.select
  match (view.row userId).bind MfaRow.tokenVersion with
  | some version =>
      if 0 < version ∧ version ≤ MAX_SAFE_INTEGER then return version else .refuse .noSuchUser
  | none => .refuse .noSuchUser

/-- What a request has checked and made before it stores an enrollment. -/
structure Activation where
  /-- The version the request was verified at; none without a verified request. -/
  callerVersion : Option Int
  enrollmentVersion : Int
  sealed : String
  /-- The step of the code the user entered. -/
  step : Int
  /-- The hashes of the new recovery codes. -/
  codes : List String
  now : Int

def assertSameVersion (callerVersion : Option Int) (row : Option MfaRow) : MfaTxn Int :=
  let tv := versionOf (row.bind MfaRow.tokenVersion)
  if callerVersion = some tv then return tv else .refuse .sessionOutdated

def MfaRow.activated (a : Activation) (row : MfaRow) : MfaRow :=
  { row with
    totpSecret := some a.sealed
    totpEnabledAt := some a.now
    totpLastStep := some a.step
    totpRecoveryCodes := .arr (a.codes.map Json.str) }

/-- The transaction of `mfaActivate`. -/
def mfaActivate (userId : Nat) (a : Activation) : MfaTxn Int := do
  let _ ← lockUserRow userId
  let view ← Txn.select
  match view.row userId with
  | none => .refuse .unauthorized
  | some current =>
      if isEnrolled current then .refuse .alreadyEnabled
      else do
        let tv ← assertSameVersion a.callerVersion current
        if tv ≠ a.enrollmentVersion then .refuse .enrollmentInvalid
        else do
          let _ ← Txn.updateWhere userId Option.isSome (Option.map (MfaRow.activated a))
          return tv

/-- MFA_CLEARED and a new token version, with the row locked. -/
def clearMfa (userId : Nat) : MfaTxn Int := do
  let _ ← lockUserRow userId
  let _ ← Txn.updateWhere userId Option.isSome (Option.map MfaRow.cleared)
  bumpTokenVersion userId

/-- The transaction of `mfaDisable`. -/
def mfaDisable (m : Crypto) (requiredRoles : List String) (userId : Nat)
    (callerVersion : Option Int) (code : String) (now : Int) : MfaTxn Int := do
  let _ ← lockUserRow userId
  let view ← Txn.select
  if roleRequiresMfa (view.row userId) requiredRoles then .refuse .mfaRequiredByRole
  else do
    let tv ← assertSameVersion callerVersion (view.row userId)
    let consumed ← consumeSecondFactor m userId tv code now
    if consumed.ok = false then .refuse .mfaInvalid
    else do
      let _ ← Txn.updateWhere userId Option.isSome (Option.map MfaRow.cleared)
      bumpTokenVersion userId

/-! ## The calls -/

inductive MfaCall
  | consume (userId : Nat) (tv : Int) (input : String) (now : Int)
  | activate (userId : Nat) (activation : Activation)
  | disable (userId : Nat) (callerVersion : Option Int) (code : String) (now : Int)
  | clear (userId : Nat)
  /-- A password change, a block: the version goes up. -/
  | bump (userId : Nat)

inductive MfaResult
  | factor (consumed : Consumed)
  | version (tokenVersion : Int)
deriving DecidableEq

/-- The transaction of a call. -/
def program (m : Crypto) (requiredRoles : List String) : MfaCall → MfaTxn MfaResult
  | .consume userId tv input now => do
      return .factor (← consumeSecondFactor m userId tv input now)
  | .activate userId activation => do
      return .version (← mfaActivate userId activation)
  | .disable userId callerVersion code now => do
      return .version (← mfaDisable m requiredRoles userId callerVersion code now)
  | .clear userId => do return .version (← clearMfa userId)
  | .bump userId => do return .version (← bumpTokenVersion userId)

end Sinnlos.Cms.Mfa

import Sinnlos.Lib.Json
import Sinnlos.Lib.Text

/-! # Refusals and relation payloads

The refusals that name the keys of a payload, and the shapes in which a payload
names the target of a to-one relation (`apps/cms/src/utils/write-allowlist.ts`,
`packages/domain/src/entry-id.ts`).
-/

namespace Sinnlos.Cms

open Text

/-! ## Refusals -/

structure ValidationError where
  message : String
  keys : List String
  codes : List (String × String)
deriving DecidableEq

def ValidationError.plain (message : String) : ValidationError := ⟨message, [], []⟩

def FORM_KEY : String := "_form"

def writeAllowlistMessage (keys : List String) : String :=
  "Invalid or disallowed data field(s): " ++ ", ".intercalate keys

/-- `refuseKeys` of one key, without a reason. -/
def refuseKey (key : String) : ValidationError := ⟨writeAllowlistMessage [key], [key], []⟩

/-! ## References -/

def MAX_ROW_ID : Nat := 2147483647

inductive RelationRef
  | id (id : Nat)
  | documentId (documentId : String)
deriving DecidableEq

/-- An integer value, where it is one. -/
def integer? (value : Rat) : Option Int := if value.den = 1 then some value.num else none

/-- A positive id that an int4 column can hold, as a number or in canonical
decimal digits. -/
def parseRowId : Json → Option Nat
  | .num value =>
      (integer? value).bind fun n =>
        if 1 ≤ n ∧ n ≤ MAX_ROW_ID then some n.toNat else none
  | .str text =>
      let digits := text.toList
      if digits.length ≤ 10 ∧ digits.head? ≠ some '0' then
        (readNat digits).bind fun n => if n ≤ MAX_ROW_ID then some n else none
      else none
  | _ => none

/-- `/^[A-Za-z_][A-Za-z0-9_-]{0,63}$/`. -/
def isReferenceText (text : String) : Bool :=
  match text.toList with
  | [] => false
  | first :: rest => (first.isAlpha || first = '_') && rest.length ≤ 63 &&
      rest.all fun c => c.isAlphanum || c = '_' || c = '-'

def parseText (text : String) : Option RelationRef :=
  if isReferenceText text then some (.documentId text) else none

def parseRef : Json → Option RelationRef
  | .obj [("id", value)] => (parseRowId value).map RelationRef.id
  | .obj [("documentId", .str text)] => parseText text
  | .obj _ => none
  | .str text =>
      match parseRowId (.str text) with
      | some id => some (.id id)
      | none => parseText text
  | value => (parseRowId value).map RelationRef.id

def parseRefList : Json → Option (List RelationRef)
  | .arr items => items.mapM parseRef
  | value => (parseRef value).map fun ref => [ref]

/-- What a payload says of a to-one relation: the row it should point at, where
it says one, and the rows named for disconnection only. -/
structure ToOneRelationInput where
  /-- None: unchanged; none inside: cleared. -/
  target : Option (Option RelationRef)
  disconnect : List RelationRef
deriving DecidableEq

/-- At most one row; none clears the relation. -/
def fromSet (value : Json) : Option ToOneRelationInput :=
  match parseRefList value with
  | some [] => some ⟨some none, []⟩
  | some [ref] => some ⟨some (some ref), []⟩
  | _ => none

/-- The references under a key, none at all where the key is missing. -/
def refsUnder (fields : List (String × Json)) (key : String) : Option (List RelationRef) :=
  match Json.field? key fields with
  | none => some []
  | some value => parseRefList value

def parseToOneRelation (value : Json) : Option ToOneRelationInput :=
  match value with
  | .null => some ⟨some none, []⟩
  | .arr _ => fromSet value
  | .obj fields =>
      let keys := fields.map Prod.fst
      if "id" ∈ keys ∨ "documentId" ∈ keys then
        (parseRef value).map fun ref => ⟨some (some ref), []⟩
      else if "set" ∈ keys then
        if keys.length = 1 then (Json.field? "set" fields).bind fromSet else none
      else if keys = [] ∨ keys.any (fun key => key ≠ "connect" && key ≠ "disconnect") then none
      else
        match refsUnder fields "connect", refsUnder fields "disconnect" with
        | some connect, some disconnect =>
            if 1 < connect.length then none else some ⟨connect.head?.map some, disconnect⟩
        | _, _ => none
  | value => (parseRef value).map fun ref => ⟨some (some ref), []⟩

end Sinnlos.Cms

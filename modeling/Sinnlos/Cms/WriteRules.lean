import Mathlib.Data.List.Sort
import Mathlib.Data.String.Basic
import Sinnlos.Cms.RelationInput
import Sinnlos.Lib.OrderedMap

/-!
# Write rules

The fields that a class of callers may write, what the server derives, and the
enforcement of such a rule on a payload. Everything that a check is asked is
recorded in order.
-/

namespace Sinnlos.Cms.Write

abbrev Record := OrderedMap String Json

/-! ## Rules -/

/-- What a value check answers; a refusal may carry a code. -/
inductive Verdict where
  | accepted
  | refused (code : Option String)
deriving DecidableEq

abbrev ValueCheck := Json → Verdict

inductive FrozenCheckName where
  | pollHasVotes
deriving DecidableEq

def FrozenCheckName.name : FrozenCheckName → String
  | .pollHasVotes => "pollHasVotes"

inductive RelationCheckName where
  | wikiSpace
  | wikiParent
  | department
  | team
  | callerDepartment
  | teamOfCallerDepartment
  | course
  | user
deriving DecidableEq

def RelationCheckName.name : RelationCheckName → String
  | .wikiSpace => "wikiSpace"
  | .wikiParent => "wikiParent"
  | .department => "department"
  | .team => "team"
  | .callerDepartment => "callerDepartment"
  | .teamOfCallerDepartment => "teamOfCallerDepartment"
  | .course => "course"
  | .user => "user"

inductive RelationListCheckName where
  | departments
  | callerDepartments
  | users
deriving DecidableEq

def RelationListCheckName.name : RelationListCheckName → String
  | .departments => "departments"
  | .callerDepartments => "callerDepartments"
  | .users => "users"

inductive MediaCheckName where
  | ownUpload
deriving DecidableEq

def MediaCheckName.name : MediaCheckName → String
  | .ownUpload => "ownUpload"

/-- A value is refused once it differs from the published one and the check answers true. -/
structure FrozenWhen where
  check : FrozenCheckName
  same : Option Json → Option Json → Bool

inductive FieldSpec where
  | value (check : ValueCheck) (frozenWhen : Option FrozenWhen)
  | controller (check : ValueCheck)
  | relation (check : RelationCheckName) (required callerDepartmentOnCreate : Bool)
  | relationList (check : RelationListCheckName) (max : Nat)
      (callerDepartmentOnCreate delta : Bool)
  | roleTypes (allowed : List String) (max : Nat)
  | media (check : MediaCheckName)

/-- Resolves and authorizes every row of an input, given the relations resolved before. -/
abbrev RelationCheck := ToOneRelationInput → List (String × ResolvedToOne) → Option ResolvedToOne

abbrev RelationListCheck := List RelationRef → Option (List String)

abbrev RoleTypesCheck := List String → Option (List String)

abbrev MediaCheck := Nat → String → Option Nat

structure CallerDepartment where
  id : Nat
  documentId : String
deriving DecidableEq

inductive WriteAction where
  | create
  | update
deriving DecidableEq

/-- What the policy supplies for one request. -/
structure WriteRuleEnvironment where
  callerId : Nat
  action : Option WriteAction
  relationChecks : RelationCheckName → Option RelationCheck
  relationListChecks : RelationListCheckName → Option RelationListCheck
  roleTypesCheck : Option RoleTypesCheck
  mediaChecks : MediaCheckName → Option MediaCheck
  frozenChecks : FrozenCheckName → Option Bool
  /-- The stored draft, its relations as documentIds. -/
  existing : Option Record
  published : Option Record
  callerDepartment : Option CallerDepartment
  readiness : Option (Record → List String)
  now : Option Int

/-- Why a write fails; only `refused` is the caller's. -/
inductive Failure where
  | missingData
  | refused (keys : List String) (codes : List (String × String))
  | missingCheck (kind name : String)
  | noCallerDepartment
deriving DecidableEq

/-- Computed from the stored draft and the payload, when the payload carries one of `when`. -/
structure MergedDerivation where
  «when» : List String
  derive : Record → Json

structure WriteRule where
  fields : OrderedMap String FieldSpec
  callerFields : List String
  derivedFields : OrderedMap String (Record → Json)
  derivedFromMerged : OrderedMap String MergedDerivation
  derivedOnCreate : OrderedMap String (WriteRuleEnvironment → Except Failure Json)
  crossCheck : Option (Record → List String → WriteRuleEnvironment → List (String × String))
  readinessWhenScheduled : Bool

/-! ## Asking the checks -/

/-- What a check is asked about. -/
inductive Asked where
  | relation (key : String)
  | relationList (key : String)
  | roleTypes (key : String)
  | media (key : String)
  | frozen (name : FrozenCheckName)
  | readiness
deriving DecidableEq

/-- A result, and what was asked on the way to it. -/
structure Gate (α : Type) where
  result : Except Failure α
  asked : List Asked

namespace Gate

def bind {α β : Type} (g : Gate α) (f : α → Gate β) : Gate β :=
  match g.result with
  | .ok a => ⟨(f a).result, g.asked ++ (f a).asked⟩
  | .error e => ⟨.error e, g.asked⟩

instance : Monad Gate where
  pure a := ⟨.ok a, []⟩
  bind := bind

def lift {α : Type} (result : Except Failure α) : Gate α := ⟨result, []⟩

def fail {α : Type} (e : Failure) : Gate α := lift (.error e)

/-- Ask a check that was supplied. -/
def ask {α : Type} (about : Asked) (answer : α) : Gate α := ⟨.ok answer, [about]⟩

end Gate

/-- Refuse keys, sorted, with the codes known of them. -/
def refuseKeys (keys : List String) (codes : List (String × String)) : Failure :=
  let sorted := keys.eraseDups.insertionSort (· ≤ ·)
  .refused sorted (sorted.filterMap fun key => (codes.lookup key).map fun code => (key, code))

/-! ## Reading the payload -/

/-- A field of the payload as its spec reads it. -/
inductive Reading where
  | refused (code : Option String)
  | value (raw : Json)
  | relation (input : ToOneRelationInput)
  | list (refs : List RelationRef)
  | delta (changes : RelationDelta)
  | roles (types : List String)
  | media (fileId : Option Nat)
deriving DecidableEq

/-- The input names exactly one target and nothing to disconnect. -/
def ToOneRelationInput.singleTarget (input : ToOneRelationInput) : Bool :=
  decide ((∃ ref ∈ input.target, ref ≠ none) ∧ input.disconnect = [])

def readField (spec : FieldSpec) (raw : Json) : Reading :=
  match spec with
  | .relation _ required _ =>
      match parseToOneRelation raw with
      | none => .refused none
      | some input => if required && !input.singleTarget then .refused none else .relation input
  | .relationList _ max _ delta =>
      if delta then (parseRelationDelta raw max).elim (.refused none) .delta
      else (parseRelationList raw max).elim (.refused none) .list
  | .roleTypes allowed max => (parseRoleTypes raw allowed max).elim (.refused none) .roles
  | .media _ => (parseMedia raw).elim (.refused none) .media
  | .value check _ | .controller check =>
      match check raw with
      | .accepted => .value raw
      | .refused code => .refused code

/-- A key that the rule does not list is refused. -/
def readKey (rule : WriteRule) (key : String) (raw : Json) : Reading :=
  match rule.fields.get? key with
  | none => .refused none
  | some spec => readField spec raw

def FieldSpec.isRequired : FieldSpec → Bool
  | .relation _ required _ => required
  | _ => false

/-- The caller's department as a new row gets it; `none` where the field is not pinned to it. -/
def FieldSpec.pinned : FieldSpec → Option (String → Json)
  | .relation _ _ true => some fun documentId => .str documentId
  | .relationList _ _ true _ => some fun documentId => .arr [.str documentId]
  | _ => none

def isCreate (env : WriteRuleEnvironment) : Bool := decide (env.action = some .create)

/-- A pinned key that is missing is the caller's department. -/
def pinField (env : WriteRuleEnvironment) (payload : Record) (field : String × FieldSpec) :
    Except Failure Record :=
  match field.2.pinned with
  | none => .ok payload
  | some render =>
      if field.1 ∈ payload.keys then .ok payload
      else
        match env.callerDepartment with
        | none => .error (.missingCheck "caller department" field.1)
        | some department => .ok (payload.set field.1 (render department.documentId))

def pinCallerDepartment (rule : WriteRule) (env : WriteRuleEnvironment) (payload : Record) :
    Except Failure Record :=
  rule.fields.entries.foldlM (pinField env) payload

/-- The payload that the rule is applied to. -/
def payloadOf (data : Json) (rule : WriteRule) (env : WriteRuleEnvironment) :
    Except Failure Record :=
  match data with
  | .obj fields =>
      if isCreate env then pinCallerDepartment rule env (.ofList fields) else .ok (.ofList fields)
  | _ => .error .missingData

abbrev Readings := OrderedMap String Reading

def readings (rule : WriteRule) (payload : Record) : Readings :=
  payload.filterMap fun key raw => some (readKey rule key raw)

def Reading.refusal : Reading → Option (Option String)
  | .refused code => some code
  | _ => none

/-- Required relations that the payload does not name. -/
def missingRequired (rule : WriteRule) (payload : Record) : List String :=
  (rule.fields.entries.filter fun field =>
    field.2.isRequired && decide (field.1 ∉ payload.keys)).map Prod.fst

/-- Read every key, and refuse all that are not in order at once. -/
def readPayload (rule : WriteRule) (payload : Record) : Except Failure Readings :=
  let read := readings rule payload
  let refused := read.filterMap fun _ reading => reading.refusal
  let missing := missingRequired rule payload
  if refused.keys ++ missing = [] then .ok read
  else
    .error (refuseKeys (refused.keys ++ missing)
      (refused.filterMap fun _ code => code.filter fun text => text ≠ "").entries)

/-! ## The checks, one by one -/

/-- What has been accepted so far. -/
structure Accepted where
  out : Record
  /-- The accepted values as the rules across fields read them. -/
  merged : Record
  resolved : List (String × ResolvedToOne)
  /-- Relations whose input named no target. -/
  noTarget : List String

def Accepted.set (acc : Accepted) (key : String) (out merged : Json) : Accepted :=
  { acc with out := acc.out.set key out, merged := acc.merged.set key merged }

def Reading.plain : Reading → Option Json
  | .value raw => some raw
  | _ => none

/-- The plain values of the payload. -/
def acceptValues (read : Readings) : Accepted :=
  let values := read.filterMap fun _ reading => reading.plain
  { out := values, merged := values, resolved := [], noTarget := [] }

/-- The accepted parts with what a relation resolved to. -/
def Accepted.resolve (acc : Accepted) (key : String) (result : ResolvedToOne) : Accepted where
  out := (toStrapiRelation result).elim acc.out fun relation => acc.out.set key relation
  merged :=
    match result.target with
    | none => acc.merged
    | some none => acc.merged.set key .null
    | some (some documentId) => acc.merged.set key (.str documentId)
  resolved := acc.resolved ++ [(key, result)]
  noTarget := if result.target = none then acc.noTarget ++ [key] else acc.noTarget

def checkRelation (env : WriteRuleEnvironment) (acc : Accepted) (key : String)
    (name : RelationCheckName) (input : ToOneRelationInput) : Gate Accepted :=
  match env.relationChecks name with
  | none => .fail (.missingCheck "relation" name.name)
  | some check => do
      let answer ← Gate.ask (.relation key) (check input acc.resolved)
      match answer with
      | none => .fail (refuseKeys [key] [])
      | some result => pure (acc.resolve key result)

/-- To-one relations, in rule order; the first refusal answers alone. -/
def checkRelations (env : WriteRuleEnvironment) (read : Readings)
    (fields : List (String × FieldSpec)) (acc : Accepted) : Gate Accepted :=
  fields.foldlM (fun acc field =>
    match field.2, read.get? field.1 with
    | .relation name _ _, some (.relation input) => checkRelation env acc field.1 name input
    | _, _ => pure acc) acc

def setOf (documentIds : List String) : Json := .obj [("set", documentsJson documentIds)]

def stringsJson (values : List String) : Json := .arr (values.map .str)

def checkList (env : WriteRuleEnvironment) (acc : Accepted) (key : String)
    (name : RelationListCheckName) (refs : List RelationRef) : Gate Accepted :=
  match env.relationListChecks name with
  | none => .fail (.missingCheck "relation list" name.name)
  | some check => do
      let answer ← Gate.ask (.relationList key) (check refs)
      match answer with
      | none => .fail (refuseKeys [key] [])
      | some documentIds => pure (acc.set key (setOf documentIds) (stringsJson documentIds))

/-- Changes of a list have no merged value. -/
def checkDelta (env : WriteRuleEnvironment) (acc : Accepted) (key : String)
    (name : RelationListCheckName) (changes : RelationDelta) : Gate Accepted :=
  match env.relationListChecks name with
  | none => .fail (.missingCheck "relation list" name.name)
  | some check => do
      let connect ← Gate.ask (.relationList key) (check changes.connect)
      let disconnect ← Gate.ask (.relationList key) (check changes.disconnect)
      match connect, disconnect with
      | some connect, some disconnect =>
          -- one target on both sides says nothing clear
          if ∃ id ∈ connect, id ∈ disconnect then .fail (refuseKeys [key] [])
          else
            pure { acc with
              out := acc.out.set key (.obj [("connect", documentsJson connect),
                ("disconnect", documentsJson disconnect)]) }
      | _, _ => .fail (refuseKeys [key] [])

def checkRoles (env : WriteRuleEnvironment) (acc : Accepted) (key : String)
    (types : List String) : Gate Accepted :=
  if types = [] then pure (acc.set key (setOf []) (stringsJson []))
  else
    match env.roleTypesCheck with
    | none => .fail (.missingCheck "role types" key)
    | some check => do
        let answer ← Gate.ask (.roleTypes key) (check types)
        match answer with
        | none => .fail (refuseKeys [key] [])
        | some documentIds => pure (acc.set key (setOf documentIds) (stringsJson types))

/-- The file that the stored draft links under a key. -/
def currentFile (env : WriteRuleEnvironment) (key : String) : Option Json :=
  (env.existing.bind fun existing => existing.get? key).bind fun current =>
    match current with
    | .obj fields => Json.field? "id" fields
    | value => some value

def checkMedia (env : WriteRuleEnvironment) (acc : Accepted) (key : String)
    (name : MediaCheckName) (fileId : Option Nat) : Gate Accepted :=
  match fileId with
  | none => pure (acc.set key .null .null)
  | some fileId =>
      -- keeping the stored file is not attaching it
      if currentFile env key = some (.num fileId) then
        pure (acc.set key (.num fileId) (.num fileId))
      else
        match env.mediaChecks name with
        | none => .fail (.missingCheck "media" name.name)
        | some check => do
            let answer ← Gate.ask (.media key) (check fileId key)
            match answer with
            | none => .fail (refuseKeys [key] [])
            | some authorized => pure (acc.set key (.num authorized) (.num authorized))

/-- The four kinds that are checked in the payload's order, one kind after the other. -/
inductive LaterKind where
  | list
  | delta
  | roles
  | media
deriving DecidableEq

/-- Check one entry of the payload, if it is of this kind. -/
def checkEntry (rule : WriteRule) (env : WriteRuleEnvironment) (kind : LaterKind) (acc : Accepted)
    (entry : String × Reading) : Gate Accepted :=
  match kind, entry.2, rule.fields.get? entry.1 with
  | .list, .list refs, some (.relationList name _ _ _) => checkList env acc entry.1 name refs
  | .delta, .delta changes, some (.relationList name _ _ _) =>
      checkDelta env acc entry.1 name changes
  | .roles, .roles types, _ => checkRoles env acc entry.1 types
  | .media, .media fileId, some (.media name) => checkMedia env acc entry.1 name fileId
  | _, _, _ => pure acc

def checkEntries (rule : WriteRule) (env : WriteRuleEnvironment) (read : Readings)
    (kind : LaterKind) (acc : Accepted) : Gate Accepted :=
  read.entries.foldlM (checkEntry rule env kind) acc

/-! ## Rules across fields -/

/-- A frozen value of the payload that differs from the published one. -/
def changedFrozen (rule : WriteRule) (env : WriteRuleEnvironment) (acc : Accepted)
    (read : Readings) : List (String × FrozenCheckName) :=
  read.entries.filterMap fun entry =>
    match entry.2, rule.fields.get? entry.1, env.published with
    | .value _, some (.value _ (some frozen)), some published =>
        if frozen.same (acc.out.get? entry.1) (published.get? entry.1) then none
        else some (entry.1, frozen.check)
    | _, _, _ => none

def checkFrozen (rule : WriteRule) (env : WriteRuleEnvironment) (acc : Accepted)
    (read : Readings) : Gate Unit :=
  match changedFrozen rule env acc read with
  | [] => pure ()
  | first :: rest =>
      match env.frozenChecks first.2 with
      | none => .fail (.missingCheck "frozen" first.2.name)
      | some holds => do
          let frozen ← Gate.ask (.frozen first.2) holds
          if frozen then
            .fail (refuseKeys ((first :: rest).map Prod.fst)
              ((first :: rest).map fun entry => (entry.1, "frozenAfterVotes")))
          else pure ()

/-- What the payload explicitly sets. -/
def carriedKeys (payload : Record) (acc : Accepted) : List String :=
  payload.keys.filter fun key => key ∉ acc.noTarget

/-- The stored draft with the accepted values over it. -/
def mergedRecord (env : WriteRuleEnvironment) (acc : Accepted) : Record :=
  (env.existing.getD OrderedMap.empty).overlay acc.merged

def checkAcross (rule : WriteRule) (env : WriteRuleEnvironment) (merged : Record)
    (carried : List String) : Except Failure Unit :=
  match rule.crossCheck with
  | none => .ok ()
  | some check =>
      match check merged carried env with
      | [] => .ok ()
      | codes => .error (refuseKeys (codes.map Prod.fst) codes)

def derivedValues (rule : WriteRule) (accepted : Record) : Record :=
  rule.derivedFields.filterMap fun _ derive => some (derive accepted)

/-- A schedule needs a draft that can be published. -/
def isScheduled (rule : WriteRule) (merged : Record) (carried : List String) : Bool :=
  rule.readinessWhenScheduled && decide ("publishAt" ∈ carried) &&
    (merged.get? "publishAt").any fun value => value ≠ .null

def checkReadiness (rule : WriteRule) (env : WriteRuleEnvironment) (merged : Record)
    (carried : List String) (derived : Record) : Gate Unit :=
  if isScheduled rule merged carried then
    match env.readiness with
    | none => .fail (.missingCheck "readiness" "publishBlockers")
    | some readiness => do
        let blockers ← Gate.ask .readiness (readiness (merged.overlay derived))
        if blockers = [] then pure ()
        else .fail (refuseKeys blockers (blockers.map fun key => (key, "notPublishable")))
  else pure ()

/-- The flags derived from the stored draft and the payload. -/
def mergedValues (rule : WriteRule) (merged : Record) (carried : List String) : Record :=
  rule.derivedFromMerged.filterMap fun _ derivation =>
    if derivation.when.any fun key => key ∈ carried then some (derivation.derive merged) else none

/-- What the server sets of the caller on create. -/
def createValues (rule : WriteRule) (env : WriteRuleEnvironment) : Except Failure Record :=
  if isCreate env then
    rule.derivedOnCreate.entries.foldlM (fun record field =>
      (field.2 env).map fun value => record.set field.1 value) OrderedMap.empty
  else .ok OrderedMap.empty

def callerValues (rule : WriteRule) (env : WriteRuleEnvironment) : Record :=
  .ofList (rule.callerFields.map fun field => (field, .num env.callerId))

/-- Every check of the relations, roles and media. -/
def checkTargets (rule : WriteRule) (env : WriteRuleEnvironment)
    (read : Readings) : Gate Accepted := do
  let acc ← checkRelations env read rule.fields.entries (acceptValues read)
  let acc ← checkEntries rule env read .list acc
  let acc ← checkEntries rule env read .delta acc
  let acc ← checkEntries rule env read .roles acc
  checkEntries rule env read .media acc

/-- Check `data` against `rule`, for the payload to hand on. -/
def applyWriteRule (data : Json) (rule : WriteRule) (env : WriteRuleEnvironment) :
    Gate Record := do
  let payload ← Gate.lift (payloadOf data rule env)
  let read ← Gate.lift (readPayload rule payload)
  let acc ← checkTargets rule env read
  checkFrozen rule env acc read
  let carried := carriedKeys payload acc
  let merged := mergedRecord env acc
  Gate.lift (checkAcross rule env merged carried)
  let derived := derivedValues rule acc.out
  checkReadiness rule env merged carried derived
  let created ← Gate.lift (createValues rule env)
  pure ((((acc.out.overlay derived).overlay (mergedValues rule merged carried)).overlay
    created).overlay (callerValues rule env))

end Sinnlos.Cms.Write

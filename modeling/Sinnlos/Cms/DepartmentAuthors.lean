import Sinnlos.Cms.WriteAllowlist
import Sinnlos.Lib.Runs

/-!
# Department authors

The checks that a department author's payloads are given, the scope of a stored
row, and what an author's actions do to the stored documents.
-/

namespace Sinnlos.Cms.Write

open Runs

/-! ## The rows that payloads name -/

inductive Table where
  | departments
  | teams
  | courses
  | users
deriving DecidableEq

/-- A row that a relation can name; a team also has the department it belongs to. -/
structure TargetRow where
  id : Nat
  documentId : String
  department : Option Nat
deriving DecidableEq

structure RoleRow where
  documentId : String
  type : String
deriving DecidableEq

/-- The tables that payloads name rows of; a document is a single row. -/
structure Directory where
  rows : Table → List TargetRow
  roles : List RoleRow
  unique : ∀ table, ((rows table).map TargetRow.documentId).Nodup
  uniqueRoles : (roles.map RoleRow.documentId).Nodup

def RelationRef.names (ref : RelationRef) (row : TargetRow) : Bool :=
  match ref with
  | .id n => decide (row.id = n)
  | .documentId text => decide (row.documentId = text)

/-- The row that a ref names. -/
def rowOf (dir : Directory) (table : Table) (ref : RelationRef) : Option TargetRow :=
  (dir.rows table).find? ref.names

/-! ## Authoring checks -/

structure ToOneOptions where
  allowClear : Bool
  allowDisconnect : Bool
  requireTarget : Bool

/-- Every target and disconnect resolves, and the target is accepted. -/
def toOneCheck (dir : Directory) (table : Table) (accept : TargetRow → Bool)
    (options : ToOneOptions) : RelationCheck := fun input _ =>
  if input.target = some none ∧ options.allowClear = false then none
  else if input.disconnect ≠ [] ∧ options.allowDisconnect = false then none
  else if input.target = none ∧ options.requireTarget = true then none
  else
    let target : Option (Option (Option String)) :=
      match input.target with
      | none => some none
      | some none => some (some none)
      | some (some ref) =>
          ((rowOf dir table ref).filter accept).map fun row => some (some row.documentId)
    target.bind fun target =>
      (input.disconnect.mapM fun ref => (rowOf dir table ref).map TargetRow.documentId).map
        fun disconnect => ⟨target, disconnect⟩

/-- Every ref resolves and is accepted; duplicates collapse. -/
def listCheck (dir : Directory) (table : Table) (accept : TargetRow → Bool) :
    RelationListCheck := fun refs =>
  (refs.mapM fun ref =>
    ((rowOf dir table ref).filter accept).map TargetRow.documentId).map List.eraseDups

/-- The roles of the given types. -/
def roleTypesCheck (dir : Directory) : RoleTypesCheck := fun types =>
  if types.all fun type => type ∈ ROLE_PRIVILEGE_ORDER then
    types.mapM fun type =>
      (dir.roles.find? fun row => row.type = type).map RoleRow.documentId
  else none

/-- One target or null, never a disconnect or a shape that names nothing. -/
def EXACTLY_ONE_OR_CLEAR : ToOneOptions := ⟨true, false, true⟩

def EXACTLY_ONE : ToOneOptions := { EXACTLY_ONE_OR_CLEAR with allowClear := false }

def isMine (mine : Option CallerDepartment) (row : TargetRow) : Bool :=
  mine.any fun department => row.id = department.id

def inMine (mine : Option CallerDepartment) (row : TargetRow) : Bool :=
  mine.any fun department => row.department = some department.id

/-- Exactly the caller's department. -/
def callerDepartments (dir : Directory) (mine : Option CallerDepartment) : RelationListCheck :=
  fun refs =>
    if mine = none ∨ refs = [] then none
    else (listCheck dir .departments (isMine mine) refs).filter fun documentIds =>
      documentIds.length = 1

def authoringRelationChecks (dir : Directory) (mine : Option CallerDepartment) :
    RelationCheckName → Option RelationCheck
  | .course => some (toOneCheck dir .courses (fun _ => true) EXACTLY_ONE)
  | .department => some (toOneCheck dir .departments (fun _ => true) EXACTLY_ONE_OR_CLEAR)
  | .team => some (toOneCheck dir .teams (fun _ => true) EXACTLY_ONE_OR_CLEAR)
  | .callerDepartment =>
      if mine = none then some fun _ _ => none
      else some (toOneCheck dir .departments (isMine mine) EXACTLY_ONE)
  | .teamOfCallerDepartment =>
      if mine = none then some fun _ _ => none
      else some (toOneCheck dir .teams (inMine mine) EXACTLY_ONE_OR_CLEAR)
  | .user => some (toOneCheck dir .users (fun _ => true) EXACTLY_ONE_OR_CLEAR)
  | .wikiSpace | .wikiParent => none

def authoringListChecks (dir : Directory) (mine : Option CallerDepartment) :
    RelationListCheckName → Option RelationListCheck
  | .departments => some (listCheck dir .departments fun _ => true)
  | .users => some (listCheck dir .users fun _ => true)
  | .callerDepartments => some (callerDepartments dir mine)

/-- The table in which a relation check looks rows up; the wiki checks are another gate's. -/
def RelationCheckName.table : RelationCheckName → Option Table
  | .course => some .courses
  | .department | .callerDepartment => some .departments
  | .team | .teamOfCallerDepartment => some .teams
  | .user => some .users
  | .wikiSpace | .wikiParent => none

def RelationListCheckName.table : RelationListCheckName → Table
  | .departments | .callerDepartments => .departments
  | .users => .users

/-! ## Stored documents -/

/-- The types that department authors write. -/
inductive DepartmentAuthored where
  | announcement
  | event
  | document
  | dutyPlan
  | kpi
deriving DecidableEq

/-- The documents that a stored row links under each of its relations. -/
abbrev Row := String → List String

/-- The rows of a document: its draft and, when published, its twin. -/
structure DocumentRows where
  draft : Row
  published : Option Row

/-- The id of the row that a to-one relation links. -/
def relationId (dir : Directory) (table : Table) (links : List String) : Option Nat :=
  (links.head?.bind fun documentId => rowOf dir table (.documentId documentId)).map TargetRow.id

def relationIds (dir : Directory) (table : Table) (links : List String) : List Nat :=
  links.filterMap fun documentId => (rowOf dir table (.documentId documentId)).map TargetRow.id

/-- The team that a row links, if any, belongs to the department. -/
def teamInScope (dir : Directory) (row : Row) (department : CallerDepartment) : Bool :=
  match (row "team").head?.bind fun documentId => rowOf dir .teams (.documentId documentId) with
  | none => true
  | some team => decide (team.department = some department.id)

/-- The audience roles that a row links are staff roles. -/
def rolesInScope (dir : Directory) (row : Row) : Bool :=
  (row "audienceRoles").all fun documentId =>
    match dir.roles.find? fun role => role.documentId = documentId with
    | none => true
    | some role => decide (role.type ∈ STAFF_ROLES)

/-- A row lies in a department's scope and is owned by it. -/
def rowInDepartmentScope (dir : Directory) (uid : DepartmentAuthored) (row : Row)
    (department : CallerDepartment) : Bool :=
  decide (relationId dir .departments (row "ownerDepartment") = some department.id) &&
    match uid with
    | .announcement =>
        decide (relationId dir .departments (row "department") = some department.id) &&
          teamInScope dir row department && rolesInScope dir row
    | .event | .document =>
        decide (relationIds dir .departments (row "departments") = [department.id])
    | .dutyPlan | .kpi =>
        decide (relationId dir .departments (row "department") = some department.id)

/-- Every row of the document is owned and in scope. -/
def departmentAuthorOwns (dir : Directory) (uid : DepartmentAuthored) (doc : DocumentRows)
    (department : CallerDepartment) : Bool :=
  rowInDepartmentScope dir uid doc.draft department &&
    doc.published.all fun row => rowInDepartmentScope dir uid row department

/-! ## What an author does -/

/-- A caller with the department that the directory lists for them. -/
structure DepartmentAuthor (dir : Directory) where
  callerId : Nat
  department : CallerDepartment
  listed : ∃ row ∈ dir.rows .departments,
    row.id = department.id ∧ row.documentId = department.documentId

/-- The rule of department authors for a type. -/
def departmentAuthorRule (v : Validators) : DepartmentAuthored → WriteAction → WriteRule
  | .announcement, .create => createOf (ANNOUNCEMENT_DEPARTMENT_AUTHOR v) "author" true
  | .announcement, .update => ANNOUNCEMENT_DEPARTMENT_AUTHOR v
  | .event, .create => createOf (EVENT_DEPARTMENT_AUTHOR v) "organizer" true
  | .event, .update => EVENT_DEPARTMENT_AUTHOR v
  | .document, .create => createOf (DOCUMENT_DEPARTMENT_AUTHOR v) "uploadedBy" true
  | .document, .update => DOCUMENT_DEPARTMENT_AUTHOR v
  | .dutyPlan, .create => createOf (DUTY_PLAN_DEPARTMENT_AUTHOR v) "author" true
  | .dutyPlan, .update => DUTY_PLAN_DEPARTMENT_AUTHOR v
  | .kpi, .create => createOf (KPI_DEPARTMENT_AUTHOR v) "author" true
  | .kpi, .update => KPI_DEPARTMENT_AUTHOR v

/-- A request's environment with the checks that the gate supplies for the author. -/
def authorEnv {dir : Directory} (author : DepartmentAuthor dir) (action : WriteAction)
    (request : WriteRuleEnvironment) : WriteRuleEnvironment :=
  { request with
    callerId := author.callerId
    action := some action
    callerDepartment := some author.department
    relationChecks := authoringRelationChecks dir (some author.department)
    relationListChecks := authoringListChecks dir (some author.department)
    roleTypesCheck := some (roleTypesCheck dir) }

inductive AuthorAction where
  | create (data : Json) (request : WriteRuleEnvironment) (published : Bool)
  | update (data : Json) (request : WriteRuleEnvironment) (published : Bool)
  | publish
  | unpublish
  | discardDraft

/-- The stored documents of every type. -/
abbrev Documents := DepartmentAuthored → String → Option DocumentRows

def Documents.put (docs : Documents) (uid : DepartmentAuthored) (documentId : String)
    (doc : DocumentRows) : Documents := fun uid' documentId' =>
  if uid' = uid ∧ documentId' = documentId then some doc else docs uid' documentId'

/-- The links of a row once a payload is written over it. -/
def writeRow (row : Row) (out : Record) : Row := fun key => linksAfter (row key) (out.get? key)

/-- A document whose draft is this row, published with it or as before. -/
def writeDraft (row : Row) (publishedBefore : Option Row) (published : Bool) : DocumentRows :=
  ⟨row, if published then some row else publishedBefore⟩

structure AuthorStep (dir : Directory) where
  author : DepartmentAuthor dir
  uid : DepartmentAuthored
  documentId : String
  action : AuthorAction

/-- What an author's request leaves of the stored documents; `none` where it is refused. -/
def authorStep {dir : Directory} (v : Validators) (docs : Documents) (step : AuthorStep dir) :
    Option Documents :=
  match docs step.uid step.documentId, step.action with
  | none, .create data request published =>
      match (applyWriteRule data (departmentAuthorRule v step.uid .create)
          (authorEnv step.author .create request)).result with
      | .error _ => none
      | .ok out =>
          some (docs.put step.uid step.documentId
            (writeDraft (writeRow (fun _ => []) out) none published))
  | none, _ => none
  | some _, .create _ _ _ => none
  | some doc, action =>
      if departmentAuthorOwns dir step.uid doc step.author.department = false then none
      else
        match action with
        | .create _ _ _ => none
        | .update data request published =>
            match (applyWriteRule data (departmentAuthorRule v step.uid .update)
                (authorEnv step.author .update request)).result with
            | .error _ => none
            | .ok out =>
                some (docs.put step.uid step.documentId
                  (writeDraft (writeRow doc.draft out) doc.published published))
        | .publish => some (docs.put step.uid step.documentId ⟨doc.draft, some doc.draft⟩)
        | .unpublish => some (docs.put step.uid step.documentId ⟨doc.draft, none⟩)
        | .discardDraft =>
            -- without a published row a discard would delete the document
            match doc.published with
            | none => none
            | some row => some (docs.put step.uid step.documentId ⟨row, some row⟩)

/-- Runs of department authors' requests that are carried out. -/
def AuthorRun {dir : Directory} (v : Validators) :
    Documents → List (AuthorStep dir) → Documents → Prop :=
  Run fun docs step docs' => authorStep v docs step = some docs'

end Sinnlos.Cms.Write

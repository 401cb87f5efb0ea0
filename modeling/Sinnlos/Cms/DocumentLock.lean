import Sinnlos.Lib.Transaction

/-! # The document lock

The Document Service middleware of `apps/cms/src/utils/document-lock.ts`: every
mutation of a guarded document locks its version row, compares the revision
with the tokens of the authoring scope, runs the action inside the lock and
advances the revision, or removes the version row with the last row of the
document. What the action and the inner middlewares do to the rows is arbitrary.
-/

namespace Sinnlos.Cms

structure DocumentRef where
  uid : String
  documentId : String
deriving DecidableEq

/-- The rows of one document and the revision in its version row, if it has one. -/
structure Doc (Row : Type) where
  rows : List Row
  version : Option Nat
deriving DecidableEq

/-- A document without a version row has revision 0. -/
def Doc.revision {Row : Type} (doc : Doc Row) : Nat := doc.version.getD 0

def Doc.mapRows {Row : Type} (change : List Row → List Row) (doc : Doc Row) : Doc Row :=
  { doc with rows := change doc.rows }

def Doc.withVersion {Row : Type} (version : Option Nat) (doc : Doc Row) : Doc Row :=
  { doc with version := version }

/-- A document that does not exist. -/
def Doc.absent {Row : Type} : Doc Row := ⟨[], none⟩

/-- Why a mutation throws. -/
inductive LockRefusal
  /-- A scope or a call that no caller should build. -/
  | wiring
  | classLost (status : Nat)
  | revisionStale (current : Nat)
  /-- The action or an inner middleware threw. -/
  | thrown
deriving DecidableEq

def LockRefusal.status : LockRefusal → Nat
  | .wiring => 500
  | .classLost status => status
  | .revisionStale _ => 412
  | .thrown => 500

section Lock
variable (Row : Type)

abbrev DocView : Type := View DocumentRef (Doc Row)

/-- The transactions of the document lock; the clock plays no part in them. -/
abbrev DocTxn : Type → Type := Txn DocumentRef (Doc Row) Unit LockRefusal

/-- What a request tells the lock about itself. -/
structure AuthoringScope where
  uid : Option String
  documentId : Option String
  /-- The client's token. -/
  expectedRevision : Option Nat
  /-- The revision the write gate read. -/
  observedRevision : Option Nat
  classify : Option (DocView Row → Option String)
  missingClass : Option Nat
  committedRevision : Option Nat

/-- One finished mutation, with what it compared and what it committed. -/
structure MutationRecord where
  ref : DocumentRef
  /-- The scope names this document. -/
  target : Bool
  expected : Option Nat
  observed : Option Nat
  /-- The document under the lock; none for a create. -/
  locked : Option (Doc Row)
  /-- The transaction had not locked the document before. -/
  first : Bool
  classifiedOn : Option (DocView Row)
  /-- The revision before it was advanced, and the rows there were then. -/
  prior : Nat
  remaining : Nat
  /-- The new revision; none where the version row was removed. -/
  committed : Option Nat

/-- What a transaction carries from one mutation to the next. -/
structure Session where
  scope : Option (AuthoringScope Row)
  /-- The documents it has locked or created. -/
  held : List DocumentRef
  records : List (MutationRecord Row)

/-- What a transaction does inside the Document Service. A write belongs to the
document of the innermost mutation around it; outside one there is none. -/
inductive Action
  | done
  | throw
  | read (next : DocView Row → Action)
  | write (change : List Row → List Row) (next : Action)
  /-- An update, delete, publish, unpublish or discardDraft of `ref`. -/
  | mutate (ref : DocumentRef) (inner : Action) (next : Action)
  /-- A create or clone; the new document has at least one row. -/
  | create (uid : String) (row : Row) (more : List Row) (next : Action)

end Lock

variable {Row : Type}

/-! ## The version row -/

def ensureRow (ref : DocumentRef) : DocTxn Row Bool :=
  Txn.updateWhere ref (fun doc => doc.version.isNone) (Doc.withVersion (some 0))

def selectRevision (ref : DocumentRef) : DocTxn Row Nat := do
  let view ← Txn.select
  return (view.row ref).revision

/-- Ensure the version row, lock it and read its revision. -/
def lockDocument (ref : DocumentRef) : DocTxn Row Nat := do
  let _ ← ensureRow ref
  let _ ← Txn.forUpdate ref fun _ => true
  selectRevision ref

def advanceRevision (ref : DocumentRef) : DocTxn Row Nat := do
  let _ ← ensureRow ref
  let _ ← Txn.updateWhere ref (fun _ => true) fun doc => doc.withVersion (some (doc.revision + 1))
  selectRevision ref

def removeRevision (ref : DocumentRef) : DocTxn Row Bool :=
  Txn.updateWhere ref (fun doc => doc.version.isSome) (Doc.withVersion none)

/-! ## The scope -/

/-- Tokens need a named document, and the observed revision its classifier. -/
def assertScope (scope : AuthoringScope Row) : Bool :=
  let hasToken := scope.expectedRevision.isSome || scope.observedRevision.isSome
  let named := scope.uid.isSome && scope.documentId.any fun id => id ≠ ""
  (!hasToken || named) && scope.observedRevision.isSome == scope.classify.isSome

def isTarget (scope : AuthoringScope Row) (ref : DocumentRef) : Bool :=
  decide (scope.uid = some ref.uid) && decide (scope.documentId = some ref.documentId)

def tokensMatch (scope : AuthoringScope Row) (locked : Nat) : Bool :=
  scope.expectedRevision.all (· == locked) && scope.observedRevision.all (· == locked)

/-- Accept only the revision of every token. -/
def acceptTokens (scope : AuthoringScope Row) (locked : Nat)
    (classifiedOn : Option (DocView Row)) : DocTxn Row (Option (DocView Row)) :=
  if tokensMatch scope locked then return classifiedOn else .refuse (.revisionStale locked)

/-- Classify again under the lock, then compare the tokens. Returns what the
classifier read. -/
def compareScope (scope : AuthoringScope Row) (locked : Nat) :
    DocTxn Row (Option (DocView Row)) :=
  match scope.classify with
  | none => acceptTokens scope locked none
  | some classify => do
      let view ← Txn.select
      match classify view with
      | none => .refuse (.classLost (scope.missingClass.getD 404))
      | some _ => acceptTokens scope locked (some view)

/-- After a mutation of the scope's document: the tokens move on. -/
def AuthoringScope.advance (scope : AuthoringScope Row) (revision : Nat) : AuthoringScope Row :=
  { scope with
    committedRevision := some revision
    expectedRevision := scope.expectedRevision.map fun _ => revision
    observedRevision := scope.observedRevision.map fun _ => revision }

/-- A create of the scope's type binds a scope that names no document. -/
def AuthoringScope.bindCreated (scope : AuthoringScope Row) (ref : DocumentRef) (revision : Nat) :
    AuthoringScope Row :=
  if scope.uid = some ref.uid ∧ scope.documentId = none then
    { scope with
      documentId := some ref.documentId
      committedRevision := some revision }
  else scope

/-! ## The middleware -/

def Session.wired (st : Session Row) : Bool := st.scope.all assertScope

def Session.targets (st : Session Row) (ref : DocumentRef) : Bool := st.scope.any (isTarget · ref)

def Session.lock (st : Session Row) (ref : DocumentRef) : Session Row :=
  { st with held := ref :: st.held }

/-- The document the transaction sees, read under the lock. -/
def currentDoc (ref : DocumentRef) : DocTxn Row (Doc Row) := do
  let view ← Txn.select
  return view.row ref

/-- Only the scope's own document is compared. -/
def compareTarget (st : Session Row) (ref : DocumentRef) (locked : Nat) :
    DocTxn Row (Option (DocView Row)) :=
  match st.scope with
  | none => return none
  | some scope => if isTarget scope ref then compareScope scope locked else return none

/-- The version row goes with the last row; otherwise its revision advances. -/
def settleRevision (ref : DocumentRef) (left : Doc Row) : DocTxn Row (Option Nat) :=
  if left.rows.isEmpty then do
    let _ ← removeRevision ref
    return none
  else do
    let revision ← advanceRevision ref
    return some revision

/-- A create or clone: nothing to lock or compare, the revision starts at 1. -/
def onCreate (uid : String) (row : Row) (more : List Row) (st : Session Row) :
    DocTxn Row (Session Row) :=
  if !st.wired then .refuse .wiring
  else do
    let ref ← Txn.insert (fun ref => decide (ref.uid = uid)) ⟨row :: more, none⟩
    let doc ← currentDoc ref
    let revision ← advanceRevision ref
    let record : MutationRecord Row :=
      { ref, target := false, expected := none, observed := none, locked := none, first := true
        classifiedOn := none, prior := doc.revision, remaining := doc.rows.length
        committed := some revision }
    return { scope := st.scope.map fun scope => scope.bindCreated ref revision
             held := ref :: st.held
             records := st.records ++ [record] }

/-- A mutation of an existing document: lock, compare, run the action, advance. -/
def onDocument (ref : DocumentRef) (next : Session Row → DocTxn Row (Session Row))
    (st : Session Row) : DocTxn Row (Session Row) :=
  if !st.wired then .refuse .wiring
  else if ref.documentId = "" then .refuse .wiring
  else do
    let locked ← lockDocument ref
    let doc ← currentDoc ref
    let target := st.targets ref
    let classifiedOn ← compareTarget st ref locked
    let after ← next (st.lock ref)
    let left ← currentDoc ref
    let committed ← settleRevision ref left
    let record : MutationRecord Row :=
      { ref, target, expected := st.scope.bind AuthoringScope.expectedRevision
        observed := st.scope.bind AuthoringScope.observedRevision, locked := some doc
        first := !st.held.contains ref, classifiedOn, prior := left.revision
        remaining := left.rows.length, committed }
    return { scope :=
               if target then after.scope.map fun scope => scope.advance (committed.getD (locked + 1))
               else after.scope
             held := after.held
             records := after.records ++ [record] }

def Action.run : Option DocumentRef → Action Row → Session Row → DocTxn Row (Session Row)
  | _, .done, st => return st
  | _, .throw, _ => .refuse .thrown
  | current, .read next, st => do
      let view ← Txn.select
      (next view).run current st
  | some ref, .write change next, st => do
      let _ ← Txn.updateWhere ref (fun _ => true) (Doc.mapRows change)
      next.run (some ref) st
  | none, .write _ next, st => next.run none st
  | current, .mutate ref inner next, st => do
      let st ← onDocument ref (inner.run (some ref)) st
      next.run current st
  | current, .create uid row more next, st => do
      let st ← onCreate uid row more st
      next.run current st

/-- One transaction of a request or a task, inside its scope or without one. -/
structure DocCall (Row : Type) where
  scope : Option (AuthoringScope Row)
  action : Action Row

def DocCall.program (call : DocCall Row) : DocTxn Row (Session Row) :=
  call.action.run none ⟨call.scope, [], []⟩

end Sinnlos.Cms

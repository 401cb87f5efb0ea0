import Sinnlos.Lib.RoundRobin

/-!
# Failing withdrawals

The retry tier of the scheduled unpublishes (`apps/cms/src/cron/scheduled-publish.ts`):
one run reads the failed drafts of a type from the cursor of the run before, in
pages that wrap once at the end, and picks those whose backoff is over.
-/

namespace Sinnlos.Cms.WithdrawalRetries

/-- Failed withdrawals each unpublish pass attempts at most. -/
def WITHDRAWAL_RETRY_QUOTA : Nat := 10

/-- Failed withdrawals the retry tier examines in a run, at most. -/
def WITHDRAWAL_RETRY_SCAN : Nat := 200

/-- A draft row of a failed withdrawal; a `none` of its document is any value but a text. -/
structure FailedDraft where
  id : Nat
  documentId : Option String
  /-- A publish is planned as well. -/
  publishAt : Bool
deriving DecidableEq

/-- The drafts of a type whose withdrawal is due and has failed, in the order of their ids. -/
structure FailedDrafts where
  rows : List FailedDraft
  sorted : rows.Pairwise fun a b => a.id < b.id
  positive : ∀ row ∈ rows, 0 < row.id

/-- A withdrawal that was deferred. -/
structure Withdrawal where
  failures : Nat
  /-- When it is due again. -/
  dueAt : Int
  revision : Int

/-- What a run reads beside the failed drafts. -/
structure Readings where
  now : Int
  /-- The documents with a published row. -/
  published : String → Bool
  withdrawals : String → Option Withdrawal
  revision : String → Int

section Run
variable (readings : Readings)

def withdrawalFailures (documentId : String) : Nat :=
  match readings.withdrawals documentId with
  | none => 0
  | some record => record.failures

def withdrawalReady (documentId : String) : Bool :=
  match readings.withdrawals documentId with
  | none => true
  | some record =>
      record.revision ≠ readings.revision documentId || record.dueAt ≤ readings.now

def backoffOver (documentId : String) : Bool :=
  if withdrawalFailures readings documentId = 0 then true else withdrawalReady readings documentId

def isDocumentId (documentId : String) : Bool := documentId ≠ ""

/-- The documents of a page that have a published row. -/
def publishedOf (rows : List FailedDraft) : List String :=
  ((rows.filterMap FailedDraft.documentId).filter isDocumentId).filter readings.published

/-- What a row gives to attempt: nothing while its document has no published row and waits to be
published, or while its backoff runs. -/
def pick (published : List String) (row : FailedDraft) : Option String :=
  match row.documentId with
  | none => none
  | some documentId =>
      if isDocumentId documentId = false then none
      else if documentId ∉ published ∧ row.publishAt = true then none
      else if backoffOver readings documentId = false then none
      else some documentId

structure Scan where
  cursor : Nat
  examined : Nat
  wrapped : Bool
  picked : List String
deriving DecidableEq

/-- The rows of one page, until the quota is full. -/
def examine (published : List String) : List FailedDraft → Scan → Scan
  | [], scan => scan
  | row :: rows, scan =>
      let next := { scan with examined := scan.examined + 1, cursor := row.id }
      match pick readings published row with
      | none => examine published rows next
      | some documentId =>
          let next := { next with picked := next.picked ++ [documentId] }
          if WITHDRAWAL_RETRY_QUOTA ≤ next.picked.length then next
          else examine published rows next

variable (drafts : FailedDrafts) (start : Nat)

/-- A page behind the cursor; after the wrap it ends where the run started. -/
def FailedDrafts.findMany (scan : Scan) (limit : Nat) : List FailedDraft :=
  (drafts.rows.filter fun row =>
    scan.cursor < row.id && (!scan.wrapped || row.id ≤ start)).take limit

/-- The pages of a run; `none` when the fuel is not enough. -/
def retryPages : Nat → Scan → Option Scan
  | 0, _ => none
  | fuel + 1, scan =>
      if scan.examined < WITHDRAWAL_RETRY_SCAN ∧ scan.picked.length < WITHDRAWAL_RETRY_QUOTA then
        let limit := WITHDRAWAL_RETRY_SCAN - scan.examined
        let rows := drafts.findMany start scan limit
        let next := examine readings (publishedOf readings rows) rows scan
        if WITHDRAWAL_RETRY_QUOTA ≤ next.picked.length ∨ rows.length = limit then
          retryPages fuel next
        else if scan.wrapped = true ∨ start = 0 then some { next with cursor := 0 }
        else retryPages fuel { next with cursor := 0, wrapped := true }
      else some scan

/-- A run before its first page. -/
def beginScan : Scan where
  cursor := start
  examined := 0
  wrapped := false
  picked := []

/-- One run: the documents it attempts, and the cursor it leaves. It reads a page, wraps to another
at most, and then ends. -/
def retryWithdrawals : Option Scan := retryPages readings drafts start 3 (beginScan start)

/-- One run after another: each starts at the cursor that the one before has stored. -/
def RetryStep (cursor : Nat) (run : Readings × Scan) (cursor' : Nat) : Prop :=
  retryWithdrawals run.1 drafts cursor = some run.2 ∧ cursor' = run.2.cursor

end Run

end Sinnlos.Cms.WithdrawalRetries

import Sinnlos.Lib.Runs

/-! # Transactions on locked rows

Programs of database statements, and a database that interleaves them. Reads
see the last committed rows and the transaction's own changes; a statement that
locks or changes a row waits for the transaction that holds it and looks at the
row again once it is free; a changed row stays locked until the transaction
ends. A transaction can fail at any statement, and the client can lose sight of
its COMMIT on either side of it. Rows, keys, results and refusals are
parameters.
-/

namespace Sinnlos


/-- What a statement reads: the keys there ever were, and the row under each. -/
structure View (κ ν : Type) where
  keys : List κ
  row : κ → ν

/-- The first row, in the order of the keys, of which `f` makes something. -/
def View.find? {κ ν β : Type} (view : View κ ν) (f : κ → ν → Option β) : Option β :=
  view.keys.findSome? fun k => f k (view.row k)

/-- A program of statements with results in `α` and refusals in `ρ`. -/
inductive Txn (κ ν ε ρ : Type) (α : Type)
  | ret (result : α)
  | refuse (refusal : ρ)
  /-- `SELECT … WHERE … FOR UPDATE` of one row: whether the row was found. -/
  | lock (key : κ) (found : ν → Bool) (next : Bool → Txn κ ν ε ρ α)
  | read (next : View κ ν → Txn κ ν ε ρ α)
  /-- `UPDATE … SET … WHERE …` of one row: whether it changed. -/
  | update (key : κ) (found : ν → Bool) (set : ν → ν) (next : Bool → Txn κ ν ε ρ α)
  /-- An `INSERT` under a key of this kind that had no row before. -/
  | create (kind : κ → Bool) (row : ν) (next : κ → Txn κ ν ε ρ α)
  /-- What is no part of the database, such as the clock. -/
  | observe (next : ε → Txn κ ν ε ρ α)

namespace Txn

variable {κ ν ε ρ α β : Type}

def bind : Txn κ ν ε ρ α → (α → Txn κ ν ε ρ β) → Txn κ ν ε ρ β
  | .ret result, f => f result
  | .refuse refusal, _ => .refuse refusal
  | .lock key found next, f => .lock key found fun b => (next b).bind f
  | .read next, f => .read fun view => (next view).bind f
  | .update key found set next, f => .update key found set fun b => (next b).bind f
  | .create kind row next, f => .create kind row fun k => (next k).bind f
  | .observe next, f => .observe fun e => (next e).bind f

instance : Monad (Txn κ ν ε ρ) where
  pure := .ret
  bind := bind

theorem bind_ret (p : Txn κ ν ε ρ α) : (p >>= Txn.ret) = p := by
  show p.bind .ret = p
  induction p with
  | ret _ => rfl
  | refuse _ => rfl
  | lock key found next ih => exact congrArg (Txn.lock key found) (funext ih)
  | read next ih => exact congrArg Txn.read (funext ih)
  | update key found set next ih => exact congrArg (Txn.update key found set) (funext ih)
  | create kind row next ih => exact congrArg (Txn.create kind row) (funext ih)
  | observe next ih => exact congrArg Txn.observe (funext ih)

def select : Txn κ ν ε ρ (View κ ν) := .read .ret
def forUpdate (key : κ) (found : ν → Bool) : Txn κ ν ε ρ Bool := .lock key found .ret
def updateWhere (key : κ) (found : ν → Bool) (set : ν → ν) : Txn κ ν ε ρ Bool :=
  .update key found set .ret
def insert (kind : κ → Bool) (row : ν) : Txn κ ν ε ρ κ := .create kind row .ret
def ask : Txn κ ν ε ρ ε := .observe .ret

end Txn

/-- Where a transaction is, with what it still has to do or to answer. -/
inductive Phase (κ ν ε ρ α : Type)
  | working (rest : Txn κ ν ε ρ α)
  /-- The work is done and COMMIT was sent. -/
  | committing (result : α)
  /-- The caller was answered while the outcome of COMMIT was still open. -/
  | abandoned (result : α)
  /-- COMMIT took effect; the client does not know yet. -/
  | applied (result : α)
  | finished

inductive Reply (ρ α : Type)
  | ok (result : α)
  | refused (refusal : ρ)
  /-- The transaction rolled back on an error of the database. -/
  | failed
  /-- COMMIT was not confirmed: it took effect or it did not. -/
  | unknown
deriving DecidableEq

/-- One COMMIT that took effect: its call and result, the rows before it and the
rows it changed. -/
structure Commit (τ κ ν α γ : Type) where
  writer : τ
  call : γ
  result : α
  before : κ → ν
  changes : κ → Option ν

/-- The rows under the changes of a transaction. -/
def overlay {κ ν : Type} (changes : κ → Option ν) (rows : κ → ν) (k : κ) : ν :=
  (changes k).getD (rows k)

def Commit.after {τ κ ν α γ : Type} (commit : Commit τ κ ν α γ) : κ → ν :=
  overlay commit.changes commit.before

/-- The database, its clients and what surrounds both. `γ` names the calls. -/
structure Database (τ κ ν ε ρ α γ : Type) where
  /-- The committed rows. -/
  rows : κ → ν
  /-- Every key a row was ever put under, also by a transaction that failed. -/
  keys : List κ
  holder : κ → Option τ
  draft : τ → κ → Option ν
  phase : τ → Option (γ × Phase κ ν ε ρ α)
  env : ε
  /-- The commits, the latest first. -/
  log : List (Commit τ κ ν α γ)
  replies : List (τ × Reply ρ α)

inductive TxnLabel (τ κ ε γ : Type)
  | begin (t : τ) (call : γ)
  /-- The next statement of `t`; an insert takes `key`. -/
  | run (t : τ) (key : κ)
  /-- The transaction rolls back and its caller is told to try again. -/
  | fail (t : τ)
  /-- The client gives up waiting for COMMIT. -/
  | abandon (t : τ)
  /-- COMMIT takes effect. -/
  | commit (t : τ)
  /-- An abandoned transaction rolls back. -/
  | drop (t : τ)
  | confirm (t : τ)
  /-- COMMIT took effect but its confirmation is lost. -/
  | lose (t : τ)
  | move (env : ε)

namespace Database

variable {τ κ ν ε ρ α γ : Type} [DecidableEq τ] [DecidableEq κ]

/-- The rows as the transaction sees them. -/
def current (s : Database τ κ ν ε ρ α γ) (t : τ) : κ → ν := overlay (s.draft t) s.rows

def view (s : Database τ κ ν ε ρ α γ) (t : τ) : View κ ν := ⟨s.keys, s.current t⟩

def free (s : Database τ κ ν ε ρ α γ) (t : τ) (k : κ) : Bool :=
  decide (s.holder k = none) || decide (s.holder k = some t)

def enter (s : Database τ κ ν ε ρ α γ) (t : τ) (call : γ) (phase : Phase κ ν ε ρ α) :
    Database τ κ ν ε ρ α γ :=
  { s with phase := Function.update s.phase t (some (call, phase)) }

def hold (s : Database τ κ ν ε ρ α γ) (t : τ) (k : κ) : Database τ κ ν ε ρ α γ :=
  { s with holder := Function.update s.holder k (some t) }

def put (s : Database τ κ ν ε ρ α γ) (t : τ) (k : κ) (row : ν) : Database τ κ ν ε ρ α γ :=
  { s.hold t k with
    keys := if s.keys.contains k then s.keys else s.keys ++ [k]
    draft := Function.update s.draft t (Function.update (s.draft t) k (some row)) }

/-- Forget what the transaction changed and let its rows go. -/
def release (s : Database τ κ ν ε ρ α γ) (t : τ) : Database τ κ ν ε ρ α γ :=
  { s with
    holder := fun k => if s.holder k = some t then none else s.holder k
    draft := Function.update s.draft t fun _ => none }

def reply (s : Database τ κ ν ε ρ α γ) (t : τ) (r : Reply ρ α) : Database τ κ ν ε ρ α γ :=
  { s with replies := s.replies ++ [(t, r)] }

/-- COMMIT takes effect: the changes become the committed rows. -/
def apply (s : Database τ κ ν ε ρ α γ) (t : τ) (call : γ) (result : α) :
    Database τ κ ν ε ρ α γ :=
  { s.release t with
    rows := s.current t
    log := ⟨t, call, result, s.rows, s.draft t⟩ :: s.log }

/-- Run one statement of `t`, if it does not have to wait. -/
def statement (s : Database τ κ ν ε ρ α γ) (t : τ) (call : γ) (key : κ) :
    Txn κ ν ε ρ α → Option (Database τ κ ν ε ρ α γ)
  | .ret result => some (s.enter t call (.committing result))
  | .refuse refusal => some (((s.release t).enter t call .finished).reply t (.refused refusal))
  | .lock k found next =>
      if found (s.current t k) then
        if s.free t k then some ((s.hold t k).enter t call (.working (next true))) else none
      else some (s.enter t call (.working (next false)))
  | .read next => some (s.enter t call (.working (next (s.view t))))
  | .update k found set next =>
      if found (s.current t k) then
        if s.free t k then
          some ((s.put t k (set (s.current t k))).enter t call (.working (next true)))
        else none
      else some (s.enter t call (.working (next false)))
  | .create kind row next =>
      if kind key && !s.keys.contains key && s.free t key then
        some ((s.put t key row).enter t call (.working (next key)))
      else none
  | .observe next => some (s.enter t call (.working (next s.env)))

def next (program : γ → Txn κ ν ε ρ α) (s : Database τ κ ν ε ρ α γ) :
    TxnLabel τ κ ε γ → Option (Database τ κ ν ε ρ α γ)
  | .begin t call =>
      match s.phase t with
      | none => some (s.enter t call (.working (program call)))
      | some _ => none
  | .run t key =>
      match s.phase t with
      | some (call, .working rest) => s.statement t call key rest
      | _ => none
  | .fail t =>
      match s.phase t with
      | some (call, .working _) => some (((s.release t).enter t call .finished).reply t .failed)
      | some (call, .committing _) => some (((s.release t).enter t call .finished).reply t .failed)
      | _ => none
  | .abandon t =>
      match s.phase t with
      | some (call, .committing result) =>
          some ((s.enter t call (.abandoned result)).reply t .unknown)
      | _ => none
  | .commit t =>
      match s.phase t with
      | some (call, .committing result) =>
          some ((s.apply t call result).enter t call (.applied result))
      | some (call, .abandoned result) => some ((s.apply t call result).enter t call .finished)
      | _ => none
  | .drop t =>
      match s.phase t with
      | some (call, .abandoned _) => some ((s.release t).enter t call .finished)
      | _ => none
  | .confirm t =>
      match s.phase t with
      | some (call, .applied result) => some ((s.enter t call .finished).reply t (.ok result))
      | _ => none
  | .lose t =>
      match s.phase t with
      | some (call, .applied _) => some ((s.enter t call .finished).reply t .unknown)
      | _ => none
  | .move env => some { s with env := env }

/-- One step of the database or of one of its clients. -/
def Step (program : γ → Txn κ ν ε ρ α) (s : Database τ κ ν ε ρ α γ) (label : TxnLabel τ κ ε γ)
    (s' : Database τ κ ν ε ρ α γ) : Prop :=
  s.next program label = some s'

end Database

end Sinnlos

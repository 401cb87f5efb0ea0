import Sinnlos.Lib.Json
import Sinnlos.Lib.OrderedMap
import Sinnlos.Lib.Text

/-! # The upload revocation cache

`apps/web/src/lib/upload-block-cache.ts`: whether a session may still read
files, remembered per user and token tag, with one probe in flight for each. A
request runs up to the answer of its probe in one piece; the probe's answer, the
removal of the probe and the answers of the requests that wait for it are pieces
of their own, in any order. `tokenTag` is the hash of a token.
-/

namespace Sinnlos.Web

def BLOCK_STATUS_TTL_MS : Int := 60000
def BLOCK_STATUS_MAX_ENTRIES : Nat := 1000

inductive AccountStatus
  | active
  | blocked
deriving DecidableEq

inductive UploadAccess
  | status (status : AccountStatus)
  | unavailable
deriving DecidableEq

def entryKey (userId : Nat) (tag : String) : String := toString userId ++ ":" ++ tag

/-! ## The cache -/

structure Entry where
  status : AccountStatus
  expiresAt : Int
deriving DecidableEq

abbrev Entries := OrderedMap String Entry

structure BlockStatusCache where
  ttlMs : Int
  maxEntries : Nat
deriving DecidableEq

namespace BlockStatusCache
variable (cache : BlockStatusCache)

/-- The status of a fresh entry; an expired one is dropped. -/
def get (entries : Entries) (key : String) (now : Int) : Option AccountStatus × Entries :=
  match entries.get? key with
  | none => (none, entries)
  | some entry =>
      if entry.expiresAt ≤ now then (none, entries.erase key) else (some entry.status, entries)

/-- Drop the oldest entries while there are more than the maximum. -/
def bounded : Nat → Entries → Entries
  | 0, entries => entries
  | fuel + 1, entries =>
      if cache.maxEntries < entries.size then
        match entries.keys.head? with
        | none => entries
        | some oldest => bounded fuel (entries.erase oldest)
      else entries

/-- Every round drops one entry, so the size is enough fuel. -/
def set (entries : Entries) (key : String) (status : AccountStatus) (checkedAt : Int) : Entries :=
  let entries := (entries.erase key).set key ⟨status, checkedAt + cache.ttlMs⟩
  cache.bounded entries.size entries

end BlockStatusCache

/-! ## The probe -/

/-- What came back from the account's own profile: nothing, or a response with
its body, where that could be read. -/
inductive Reply
  | failed
  | response (status : Nat) (body : Option Json)
deriving DecidableEq

/-- `probeAccountStatus`, from its reply. -/
def Reply.access : Reply → UploadAccess
  | .failed => .unavailable
  | .response status body =>
      if status = 401 then .status .blocked
      else if status < 200 ∨ 299 < status then .unavailable
      else
        match body.bind (·.get? "data") with
        | none => .unavailable
        | some me =>
            if me.fields? = none then .unavailable
            else if me.get? "blocked" = some (.bool true) ∨
                (me.get? "mfa").bind (·.get? "restricted") = some (.bool true) then
              .status .blocked
            else .status .active

/-- Sent and not answered, answered but still in the way of the next probe, or
out of the way. -/
inductive Phase
  | sent
  | answered (access : UploadAccess)
  | done (access : UploadAccess)
deriving DecidableEq

structure Probe where
  userId : Option Nat
  jwt : String
  startedAt : Int
  phase : Phase
deriving DecidableEq

def Phase.inFlight : Phase → Bool
  | .done _ => false
  | _ => true

def Phase.access? : Phase → Option UploadAccess
  | .sent => none
  | .answered access => some access
  | .done access => some access

/-! ## Requests -/

/-- A request waits for the probe it joined, seen in this phase. -/
structure Waiting where
  userId : Option Nat
  jwt : String
  probe : Nat
  phase : Phase
deriving DecidableEq

/-- An answer of `checkUploadAccess`: out of the cache where it joined no probe. -/
structure Answer where
  userId : Option Nat
  jwt : String
  access : UploadAccess
  time : Int
  joined : Option (Nat × Phase)
deriving DecidableEq

structure Gate where
  entries : Entries
  inflight : OrderedMap String Nat
  /-- Every probe ever sent. -/
  probes : List Probe
  waiting : List Waiting
  answers : List Answer
  clock : Int

def Gate.start (clock : Int) : Gate := ⟨.empty, .empty, [], [], [], clock⟩

inductive GateEvent
  /-- The clock is read once for the cache and once for a new probe. -/
  | request (userId : Option Nat) (jwt : String) (now stamp : Int)
  | reply (probe : Nat) (reply : Reply)
  | finished (probe : Nat)
  | answer (waiting : Nat) (now : Int)
deriving DecidableEq

section
variable (cache : BlockStatusCache) (tokenTag : String → String)

/-- Send a probe and wait for it. -/
def Gate.send (gate : Gate) (userId : Option Nat) (jwt : String) (stamp : Int) : Gate :=
  { gate with
    probes := gate.probes ++ [⟨userId, jwt, stamp, .sent⟩]
    waiting := gate.waiting ++ [⟨userId, jwt, gate.probes.length, .sent⟩] }

/-- `checkUploadAccess` up to its probe's answer. Without a user id nothing is
cached and no probe is shared. -/
def checkUploadAccess (gate : Gate) (userId : Option Nat) (jwt : String) (now stamp : Int) :
    Gate :=
  match userId with
  | none => gate.send none jwt stamp
  | some user =>
      let key := entryKey user (tokenTag jwt)
      match BlockStatusCache.get gate.entries key now with
      | (some status, entries) =>
          { gate with
            entries := entries
            answers := gate.answers ++ [⟨some user, jwt, .status status, now, none⟩] }
      | (none, entries) =>
          let gate := { gate with entries := entries }
          match gate.inflight.get? key with
          | some running =>
              { gate with waiting := gate.waiting ++ [⟨some user, jwt, running,
                  (gate.probes[running]?.map Probe.phase).getD .sent⟩] }
          | none =>
              { gate.send (some user) jwt stamp with
                inflight := gate.inflight.set key gate.probes.length }

/-- The probe's answer is remembered under the time at which it was sent. -/
def Gate.replied (gate : Gate) (number : Nat) (probe : Probe) (access : UploadAccess) : Gate :=
  match probe.userId with
  | none =>
      { gate with probes := gate.probes.set number { probe with phase := .done access } }
  | some user =>
      { gate with
        probes := gate.probes.set number { probe with phase := .answered access }
        entries :=
          match access with
          | .status status =>
              cache.set gate.entries (entryKey user (tokenTag probe.jwt)) status probe.startedAt
          | .unavailable => gate.entries }

/-- One event; none where it cannot happen. -/
def Gate.after (gate : Gate) : GateEvent → Option Gate
  | .request userId jwt now stamp =>
      if gate.clock ≤ now ∧ now ≤ stamp then
        some { checkUploadAccess tokenTag gate userId jwt now stamp with clock := stamp }
      else none
  | .reply number reply =>
      match gate.probes[number]? with
      | none => none
      | some probe =>
          if probe.phase = .sent then some (gate.replied cache tokenTag number probe reply.access)
          else none
  | .finished number =>
      match gate.probes[number]? with
      | some ⟨some user, jwt, startedAt, .answered access⟩ =>
          some { gate with
            probes := gate.probes.set number ⟨some user, jwt, startedAt, .done access⟩
            inflight := gate.inflight.erase (entryKey user (tokenTag jwt)) }
      | _ => none
  | .answer number now =>
      match gate.waiting[number]? with
      | none => none
      | some waiting =>
          match gate.probes[waiting.probe]?.map Probe.phase with
          | some (.done access) =>
              if gate.clock ≤ now then
                some { gate with
                  waiting := gate.waiting.eraseIdx number
                  answers := gate.answers ++ [⟨waiting.userId, waiting.jwt, access, now,
                    some (waiting.probe, waiting.phase)⟩]
                  clock := now }
              else none
          | _ => none

end

end Sinnlos.Web

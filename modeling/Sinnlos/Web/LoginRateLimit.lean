import Sinnlos.Lib.OrderedMap
import Sinnlos.Lib.Text

/-! # The login rate limiter

`apps/web/src/lib/login-rate-limit.ts`: attempts reserve a place in the bucket
of their client IP and in the bucket of their identifier, and are settled later.
Times are epoch milliseconds. `toLowerCase` is the language's own.
-/

namespace Sinnlos.Web

open Text

def IP_WINDOW_MS : Int := 60000
def IP_MAX_FAILURES : Nat := 10
def IDENTIFIER_WINDOW_MS : Int := 15 * 60000
def IDENTIFIER_MAX_FAILURES : Nat := 10
def MAX_TRACKED_KEYS : Nat := 10000
def EVICTION_SCAN_LIMIT : Nat := 100

/-! ## Keys -/

def normalizeIdentifier (toLowerCase : String → String) (identifier : String) : String :=
  toLowerCase (trim identifier)

def hextets (text : List Char) : List (List Char) := if text = [] then [] else split ':' text

/-- The bucket key of a client IP: IPv4 as it is, IPv6 by its /64. -/
def rateLimitKeyForIp (toLowerCase : String → String) (ip : String) : String :=
  let chars := ip.toList
  if ':' ∉ chars then ip
  else if '.' ∈ chars then String.ofList (afterLast ':' chars)
  else
    let parts := cut [':', ':'] chars
    let headParts := hextets parts.1
    let tailParts := hextets (parts.2.elim [] fun rest => (cut [':', ':'] rest).1)
    let zeros := List.replicate (8 - headParts.length - tailParts.length) ['0']
    let groups := if parts.2.isSome then headParts ++ zeros ++ tailParts else headParts
    ":".intercalate ((groups.take 4).map fun part =>
      String.ofList (padStart 4 '0' (toLowerCase (String.ofList part)).toList))

/-! ## Buckets -/

/-- One attempt in a bucket. The ticket says which reservation it is; a failure
counted afresh belongs to none. -/
structure Attempt where
  ticket : Option Nat
  time : Int
  pending : Bool
deriving DecidableEq

/-- Buckets in the order they were last touched, attempts oldest first. -/
abbrev Store := OrderedMap String (List Attempt)

/-- The window and the limit of one of the two stores. -/
structure Dimension where
  windowMs : Int
  maxFailures : Nat

def ipDimension : Dimension := ⟨IP_WINDOW_MS, IP_MAX_FAILURES⟩
def identifierDimension : Dimension := ⟨IDENTIFIER_WINDOW_MS, IDENTIFIER_MAX_FAILURES⟩

def Store.bucket (store : Store) (key : String) : List Attempt := (store.get? key).getD []

def Attempt.live (dim : Dimension) (now : Int) (attempt : Attempt) : Bool :=
  now - attempt.time < dim.windowMs

def Attempt.reservedBy (ticket : Nat) (attempt : Attempt) : Bool := attempt.ticket = some ticket

/-- Drop expired attempts of one key, and the bucket when it is empty. -/
def liveAttempts (dim : Dimension) (store : Store) (key : String) (now : Int) :
    List Attempt × Store :=
  match store.get? key with
  | none => ([], store)
  | some attempts =>
      let live := attempts.filter (·.live dim now)
      if live = [] then (live, store.erase key)
      else if live.length ≠ attempts.length then (live, store.set key live)
      else (live, store)

/-- The first of the probed buckets that is not blocked, else the oldest one. -/
def victim (dim : Dimension) (store : Store) (now : Int) : Option String :=
  let probed := store.entries.take EVICTION_SCAN_LIMIT
  let open_ := probed.find? fun entry =>
    (entry.2.filter (·.live dim now)).length < dim.maxFailures
  (open_.or store.entries.head?).map Prod.fst

def evictOne (dim : Dimension) (store : Store) (now : Int) : Store :=
  match victim dim store now with
  | none => store
  | some key => store.erase key

def append (dim : Dimension) (store : Store) (key : String) (attempt : Attempt) (now : Int) :
    Store :=
  let (live, store) := liveAttempts dim store key now
  let store := store.erase key
  let store := if MAX_TRACKED_KEYS ≤ store.size then evictOne dim store now else store
  store.set key (live ++ [attempt])

def Attempt.settled (ticket : Nat) (attempt : Attempt) : Attempt :=
  if attempt.reservedBy ticket then { attempt with pending := false } else attempt

/-- Turn a reservation into a failure, counted afresh where its place is gone. -/
def confirm (dim : Dimension) (store : Store) (key : String) (ticket : Nat) (now : Int) :
    Bool × Store :=
  let (live, store) := liveAttempts dim store key now
  let store :=
    if live.any (·.reservedBy ticket) then store.set key (live.map (·.settled ticket))
    else append dim store key ⟨none, now, false⟩ now
  let (live, store) := liveAttempts dim store key now
  ((live.filter fun attempt => !attempt.pending).length = dim.maxFailures, store)

/-- Give a reservation back. -/
def refund (store : Store) (key : String) (ticket : Nat) : Store :=
  match store.get? key with
  | none => store
  | some attempts =>
      if attempts.any (·.reservedBy ticket) then
        let rest := attempts.eraseP (·.reservedBy ticket)
        if rest = [] then store.erase key else store.set key rest
      else store

/-! ## The limiter -/

inductive Outcome
  | success
  | failure
  | neutral
deriving DecidableEq

/-- What a ticket reserved. -/
structure Reservation where
  ipKey : String
  identifierKey : String
  time : Int
deriving DecidableEq

structure Limiter where
  ipAttempts : Store
  identifierAttempts : Store
  /-- The tickets that are not settled. -/
  openTickets : OrderedMap Nat Reservation
  /-- Tickets are numbered in the order they are given out. -/
  nextTicket : Nat
deriving DecidableEq

def createLoginRateLimiter : Limiter := ⟨.empty, .empty, .empty, 0⟩

section
variable (toLowerCase : String → String)

/-- Whether an attempt now would be refused; a blocked IP spares the look at the
identifier. -/
def isBlocked (limiter : Limiter) (ip identifier : String) (now : Int) : Bool × Limiter :=
  let (live, ipAttempts) :=
    liveAttempts ipDimension limiter.ipAttempts (rateLimitKeyForIp toLowerCase ip) now
  let limiter := { limiter with ipAttempts := ipAttempts }
  if ipDimension.maxFailures ≤ live.length then (true, limiter)
  else
    let (live, identifierAttempts) := liveAttempts identifierDimension limiter.identifierAttempts
      (normalizeIdentifier toLowerCase identifier) now
    (identifierDimension.maxFailures ≤ live.length,
      { limiter with identifierAttempts := identifierAttempts })

/-- A ticket, or none where the attempt is blocked. -/
def tryAcquire (limiter : Limiter) (ip identifier : String) (now : Int) :
    Option Nat × Limiter :=
  let (blocked, limiter) := isBlocked toLowerCase limiter ip identifier now
  if blocked then (none, limiter)
  else
    let reservation : Reservation :=
      ⟨rateLimitKeyForIp toLowerCase ip, normalizeIdentifier toLowerCase identifier, now⟩
    let ticket := limiter.nextTicket
    let attempt : Attempt := ⟨some ticket, now, true⟩
    (some ticket,
      { ipAttempts := append ipDimension limiter.ipAttempts reservation.ipKey attempt now
        identifierAttempts := append identifierDimension limiter.identifierAttempts
          reservation.identifierKey attempt now
        openTickets := limiter.openTickets.set ticket reservation
        nextTicket := ticket + 1 })

end

/-- Settle a ticket; true where this failure tips a bucket into the block. -/
def settle (limiter : Limiter) (ticket : Nat) (outcome : Outcome) (now : Int) : Bool × Limiter :=
  match limiter.openTickets.get? ticket with
  | none => (false, limiter)
  | some reservation =>
      let openTickets := limiter.openTickets.erase ticket
      if outcome = .failure then
        let (ipTipped, ipAttempts) :=
          confirm ipDimension limiter.ipAttempts reservation.ipKey ticket now
        let (identifierTipped, identifierAttempts) := confirm identifierDimension
          limiter.identifierAttempts reservation.identifierKey ticket now
        (ipTipped || identifierTipped, { limiter with
          ipAttempts := ipAttempts
          identifierAttempts := identifierAttempts
          openTickets := openTickets })
      else
        let ipAttempts := refund limiter.ipAttempts reservation.ipKey ticket
        let identifierAttempts :=
          refund limiter.identifierAttempts reservation.identifierKey ticket
        (false, { limiter with
          ipAttempts := ipAttempts
          identifierAttempts :=
            if outcome = .success then identifierAttempts.erase reservation.identifierKey
            else identifierAttempts
          openTickets := openTickets })

/-! ## Runs -/

inductive LimiterCall
  | isBlocked (ip identifier : String) (now : Int)
  | tryAcquire (ip identifier : String) (now : Int)
  | settle (ticket : Nat) (outcome : Outcome) (now : Int)

def LimiterCall.now : LimiterCall → Int
  | .isBlocked _ _ now => now
  | .tryAcquire _ _ now => now
  | .settle _ _ now => now

end Sinnlos.Web

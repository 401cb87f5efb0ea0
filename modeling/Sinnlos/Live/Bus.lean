import Mathlib.Data.List.Sort
import Sinnlos.Lib.OrderedMap
import Sinnlos.Lib.Runs
import Sinnlos.Live.Contract

/-! # The live bus

The in-memory fan-out bus of the web process (`apps/web/src/lib/live-bus.ts`):
its connection table, the two connection caps, the channel sets and the
delivery loops. Whether a stream still takes a write is decided outside the
bus; `publish` is given that answer for every write it attempts.
-/

namespace Sinnlos.Live

structure Connection where
  id : ConnId
  userId : UserId
  channels : Finset Channel
  /-- The revision of `channels`; a new connection has none. -/
  rev : Option Nat
  openedAt : Nat
  /-- Whether the connection takes heartbeats. -/
  beat : Bool
deriving DecidableEq

/-- `conn.rev ?? 0`. -/
def Connection.currentRev (conn : Connection) : Nat := conn.rev.getD 0

/-- What the stream route registers. -/
def streamConnection (id : ConnId) (userId : UserId) (now : Nat) : Connection :=
  { id, userId, channels := ∅, rev := none, openedAt := now, beat := true }

def maxConnectionsTotal : Nat := 500
def maxConnectionsPerUser : Nat := 5
def maxChannelsPerConnection : Nat := 200

inductive SyncResult
  | unknown
  | stale (rev : Nat)
  | applied (rev channels dropped : Nat)
deriving DecidableEq

structure Counters where
  emitsReceived : Nat
  pingsSent : Nat
  evictions : Nat
deriving DecidableEq

structure LiveBus where
  connections : OrderedMap ConnId Connection
  counters : Counters
  /-- When the cms last posted anything; 0 means never. -/
  lastEmitAt : Nat
deriving DecidableEq

/-- What the bus does to a stream, in the order it does it. -/
inductive Output
  | beat (connId : ConnId) (emitFresh : Bool)
  | frame (connId : ConnId) (frame : LiveFrame)
  | close (connId : ConnId) (reason : ByeReason)
deriving DecidableEq

namespace LiveBus

def initial : LiveBus := ⟨.empty, ⟨0, 0, 0⟩, 0⟩

/-- Whether the cms leg is alive. -/
def emitFresh (bus : LiveBus) (now : Nat) : Bool :=
  0 < bus.lastEmitAt && now - bus.lastEmitAt ≤ emitFreshMs

def drop (bus : LiveBus) (connId : ConnId) : LiveBus :=
  { bus with connections := bus.connections.erase connId }

/-! ## Registering -/

/-- `sort((a, b) => a.openedAt - b.openedAt)`, which is stable. -/
def byAge (conns : List Connection) : List Connection :=
  conns.insertionSort fun a b => a.openedAt ≤ b.openedAt

def mine (bus : LiveBus) (userId : UserId) : List Connection :=
  byAge (bus.connections.values.filter fun c => c.userId = userId)

def evict (bus : LiveBus) (conn : Connection) : LiveBus × List Output :=
  let dropped := bus.drop conn.id
  ({ dropped with counters.evictions := dropped.counters.evictions + 1 },
    [.close conn.id .evicted])

/-- The loop over `mine`: evict from the front while the user is at the cap. -/
def evictMine (bus : LiveBus) : List Connection → LiveBus × List Output
  | [] => (bus, [])
  | oldest :: rest =>
      if maxConnectionsPerUser ≤ (oldest :: rest).length then
        let first := bus.evict oldest
        let others := first.1.evictMine rest
        (others.1, first.2 ++ others.2)
      else (bus, [])

/-- One eviction when the whole bus is full. -/
def evictOldest (bus : LiveBus) : LiveBus × List Output :=
  if maxConnectionsTotal ≤ bus.connections.size then
    match byAge bus.connections.values with
    | [] => (bus, [])
    | oldest :: _ => bus.evict oldest
  else (bus, [])

def register (bus : LiveBus) (conn : Connection) : LiveBus × List Output :=
  let own := bus.evictMine (bus.mine conn.userId)
  let total := own.1.evictOldest
  ({ total.1 with connections := total.1.connections.set conn.id conn }, own.2 ++ total.2)

/-! ## Subscribing -/

/-- The loop of `sync`: add up to the cap, count what does not fit. -/
def addCounted (held : Finset Channel) : List Channel → Finset Channel × Nat
  | [] => (held, 0)
  | channel :: rest =>
      if channel ∈ held then addCounted held rest
      else if maxChannelsPerConnection ≤ held.card then
        let added := addCounted held rest
        (added.1, added.2 + 1)
      else addCounted (insert channel held) rest

/-- The connection at revision `rev`, cleared when that is a newer one. -/
def advanceTo (conn : Connection) (rev : Nat) : Connection :=
  if conn.currentRev < rev then { conn with channels := ∅, rev := some rev } else conn

def sync (bus : LiveBus) (connId : ConnId) (userId : UserId) (rev : Nat)
    (channels : List Channel) : LiveBus × SyncResult :=
  match bus.connections.get? connId with
  | none => (bus, .unknown)
  | some conn =>
      if conn.userId ≠ userId then (bus, .unknown)
      else if rev < conn.currentRev then (bus, .stale conn.currentRev)
      else
        let at_ := advanceTo conn rev
        let added := addCounted at_.channels channels
        ({ bus with
            connections := bus.connections.set connId { at_ with channels := added.1 } },
          .applied rev added.1.card added.2)

/-- The loop of `subscribe`: add until the cap is reached. -/
def addUntilFull (held : Finset Channel) : List Channel → Finset Channel
  | [] => held
  | channel :: rest =>
      if maxChannelsPerConnection ≤ held.card then held
      else addUntilFull (insert channel held) rest

/-- The add/remove form of the previous client bundle. -/
def subscribe (bus : LiveBus) (connId : ConnId) (userId : UserId)
    (add remove : List Channel) : LiveBus × Bool :=
  match bus.connections.get? connId with
  | none => (bus, false)
  | some conn =>
      if conn.userId ≠ userId then (bus, false)
      else
        let kept := conn.channels \ remove.toFinset
        ({ bus with connections :=
            bus.connections.set connId { conn with channels := addUntilFull kept add } }, true)

/-! ## Publishing -/

/-- Whether a stream takes the write that was just logged. -/
abbrev Accepts := List Output → ConnId → Bool

/-- The heartbeats of a recovered cms leg, over a copy of the table. -/
def beatAll (accepts : Accepts) :
    List Connection → LiveBus → List Output → LiveBus × List Output
  | [], bus, log => (bus, log)
  | conn :: rest, bus, log =>
      if conn.beat then
        let log := log ++ [.beat conn.id true]
        if accepts log conn.id then beatAll accepts rest bus log
        else beatAll accepts rest (bus.drop conn.id) log
      else beatAll accepts rest bus log

/-- The frame of `event` for `conn`, when it is owed one. -/
def frameFor (event : LiveEvent) (conn : Connection) : Option LiveFrame :=
  match event with
  | .content targetType targetDocumentId =>
      match channelFor targetType targetDocumentId with
      | some channel => if channel ∈ conn.channels then some (.content channel) else none
      | none => none
  | .notification recipientId =>
      if conn.userId = recipientId then some .notification else none
  | .announcements => some .announcements
  | .keepalive => none

def countPing (bus : LiveBus) : LiveBus :=
  { bus with counters.pingsSent := bus.counters.pingsSent + 1 }

/-- The delivery loop of one event. The iterator walks the table itself: it
skips what was deleted before it got there. -/
def deliver (accepts : Accepts) (event : LiveEvent) :
    List ConnId → LiveBus → List Output → LiveBus × List Output
  | [], bus, log => (bus, log)
  | connId :: rest, bus, log =>
      match bus.connections.get? connId with
      | none => deliver accepts event rest bus log
      | some conn =>
          match frameFor event conn with
          | none => deliver accepts event rest bus log
          | some frame =>
              let log := log ++ [.frame conn.id frame]
              if accepts log conn.id then deliver accepts event rest bus.countPing log
              else deliver accepts event rest (bus.drop conn.id) log

def publishEvents (accepts : Accepts) :
    List LiveEvent → LiveBus → List Output → LiveBus × List Output
  | [], bus, log => (bus, log)
  | .keepalive :: rest, bus, log => publishEvents accepts rest bus log
  | event :: rest, bus, log =>
      let delivered := deliver accepts event bus.connections.keys bus log
      publishEvents accepts rest delivered.1 delivered.2

/-- The recovery heartbeats that open a publish. -/
def openPublish (bus : LiveBus) (now : Nat) (accepts : Accepts) : LiveBus × List Output :=
  let recovered := !bus.emitFresh now
  let bus := { bus with lastEmitAt := now }
  if recovered then beatAll accepts bus.connections.values bus [] else (bus, [])

def publish (bus : LiveBus) (now : Nat) (events : List LiveEvent) (accepts : Accepts) :
    LiveBus × List Output :=
  let opened := bus.openPublish now accepts
  if events.all (· = .keepalive) then opened
  else
    let received := { opened.1 with
      counters.emitsReceived := opened.1.counters.emitsReceived + 1 }
    publishEvents accepts events received opened.2

/-! ## Shutdown and statistics -/

def closeEach : List Connection → LiveBus → LiveBus × List Output
  | [], bus => (bus, [])
  | conn :: rest, bus =>
      let others := closeEach rest (bus.drop conn.id)
      (others.1, .close conn.id .shutdown :: others.2)

def closeAll (bus : LiveBus) : LiveBus × List Output :=
  closeEach bus.connections.values bus

/-- The statistics timer: report and start counting anew. -/
def resetCounters (bus : LiveBus) : LiveBus := { bus with counters := ⟨0, 0, 0⟩ }

end LiveBus

/-! ## The operations as steps -/

inductive BusOp
  | register (conn : Connection)
  | drop (connId : ConnId)
  | sync (connId : ConnId) (userId : UserId) (rev : Nat) (channels : List Channel)
  | subscribe (connId : ConnId) (userId : UserId) (add remove : List Channel)
  | publish (now : Nat) (events : List LiveEvent) (accepts : LiveBus.Accepts)
  | closeAll
  | statistics

def LiveBus.apply (bus : LiveBus) : BusOp → LiveBus
  | .register conn => (bus.register conn).1
  | .drop connId => bus.drop connId
  | .sync connId userId rev channels => (bus.sync connId userId rev channels).1
  | .subscribe connId userId add remove => (bus.subscribe connId userId add remove).1
  | .publish now events accepts => (bus.publish now events accepts).1
  | .closeAll => bus.closeAll.1
  | .statistics => bus.resetCounters

/-- The stream route registers a connection without channels; `register`
itself only needs it not to be over the cap already. -/
def BusOp.WithinCap : BusOp → Prop
  | .register conn => conn.channels.card ≤ maxChannelsPerConnection
  | _ => True

def BusStep (bus : LiveBus) (op : BusOp) (bus' : LiveBus) : Prop :=
  op.WithinCap ∧ bus' = bus.apply op

end Sinnlos.Live

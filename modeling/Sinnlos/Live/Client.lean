import Mathlib.Data.List.Sort
import Sinnlos.Lib.OrderedMap
import Sinnlos.Live.Contract

/-! # The live client

The browser's side of the live stream (`apps/web/src/lib/live-client.ts`): its
connection state machine, the coalesced and bounded dispatch to the channel
listeners, and the subscription sync. The clock and the tab's visibility are
arguments where the source asks its `deps` for them; timers are fields that
say what is armed.
-/

namespace Sinnlos.Live

abbrev ListenerId := Nat
abbrev SetId := Nat
abbrev LoopId := Nat
abbrev SentId := Nat

def heartbeatTimeoutMs : Nat := 65000
def backoffBaseMs : Nat := 1500
def backoffCapMs : Nat := 60000
def backoffMaxAttempt : Nat := 8
def stableStreamMs : Nat := 60000
def reopenSpreadMs : Nat := 15000
def instantCloseMs : Nat := 2000
def terminalInstantCloses : Nat := 5
def stoppedRetryMs : Nat := 5 * 60000
def catchupConcurrency : Nat := 2
def subscribeRetryMs : List Nat := [2000, 4000, 8000]

/-! ## State -/

/-- The listener sets by channel. A set is an object of its own: the removals
handed out keep it when the map no longer does. -/
structure Listeners where
  map : OrderedMap Channel SetId
  sets : OrderedMap SetId (List ListenerId)
  nextSet : SetId
deriving DecidableEq

/-- The removal that a registration returns. -/
structure Removal where
  channel : Channel
  set : SetId
  listener : ListenerId
deriving DecidableEq

/-- An armed reconnect timer: its backoff and the extra spread. -/
structure Reconnect where
  base : Nat
  extraSpreadMs : Nat
deriving DecidableEq

structure Stream where
  source : Option Nat
  sources : Nat
  connId : Option ConnId
  lastBeat : Nat
  openedAt : Nat
  attempt : Nat
  instantCloses : Nat
  stopped : Bool
  stoppedAt : Nat
  /-- Whether the watchdog may end the stop. -/
  selfHeal : Bool
  reconnectTimer : Option Reconnect
  watchdog : Bool
  watchesVisibility : Bool
  everOpened : Bool
  started : Bool
  streamFresh : Bool
deriving DecidableEq

/-- One run of `runChannel`'s loop and the listeners of its round that have
not settled. -/
structure Loop where
  channel : Channel
  dirty : Bool
  running : Nat
  catchup : Bool
deriving DecidableEq

/-- What the dispatch did, for statements about runs; nothing reads it. -/
inductive Happening
  | registered (channel : Channel) (listener : ListenerId)
  | round (channel : Channel) (started : List ListenerId)
  | taken (channel : Channel)
deriving DecidableEq

structure Dispatch where
  coalesceTimers : Finset Channel
  inflight : OrderedMap Channel LoopId
  loops : OrderedMap LoopId Loop
  nextLoop : LoopId
  catchupQueue : List Channel
  catchupActive : Nat
  /-- Finished catch-up dispatches whose slot is not released yet. -/
  releases : Nat
  history : List Happening
deriving DecidableEq

/-- A channel set sent to one connection; `id` stands for the object. -/
structure SentSet where
  id : SentId
  connId : ConnId
  key : String
  channels : List Channel
  pending : Nat
deriving DecidableEq

/-- The body of a web from before the full-set sync. -/
structure AddRemoveSubscribeRequest where
  connId : ConnId
  add : List Channel
  remove : List Channel
deriving DecidableEq

inductive SubscribeBody
  | set (request : LiveSubscribeRequest)
  | addRemove (request : AddRemoveSubscribeRequest)
deriving DecidableEq

/-- A POST and the set whose answer it brings. -/
structure Post where
  sent : SentSet
  body : SubscribeBody
deriving DecidableEq

structure Subscriptions where
  rev : Nat
  sent : Option SentSet
  nextSent : SentId
  legacy : Bool
  failed : Bool
  retries : Nat
  retryTimer : Option Nat
  syncScheduled : Bool
  /-- Every POST so far, in order. -/
  posts : List Post
deriving DecidableEq

structure LiveClient where
  listeners : Listeners
  stream : Stream
  dispatch : Dispatch
  subs : Subscriptions
  /-- The last values given to `onHealth` and `onRevision`. -/
  health : Option Bool
  revision : Option (Option String)
deriving DecidableEq

def LiveClient.new : LiveClient where
  listeners := ⟨.empty, .empty, 0⟩
  stream := {
    source := none, sources := 0, connId := none, lastBeat := 0, openedAt := 0, attempt := 0,
    instantCloses := 0, stopped := false, stoppedAt := 0, selfHeal := true,
    reconnectTimer := none, watchdog := false, watchesVisibility := false,
    everOpened := false, started := false, streamFresh := false }
  dispatch := {
    coalesceTimers := ∅, inflight := .empty, loops := .empty, nextLoop := 0, catchupQueue := [],
    catchupActive := 0, releases := 0, history := [] }
  subs := {
    rev := 0, sent := none, nextSent := 0, legacy := false, failed := false, retries := 0,
    retryTimer := none, syncScheduled := false, posts := [] }
  health := none
  revision := none

/-! ## Listeners -/

/-- The members of a set object. -/
def Listeners.members (listeners : Listeners) (set : SetId) : List ListenerId :=
  (listeners.sets.get? set).getD []

/-- The listeners of a channel, in their order. -/
def Listeners.on (listeners : Listeners) (channel : Channel) : List ListenerId :=
  match listeners.map.get? channel with
  | none => []
  | some set => listeners.members set

/-- `set.add(listener)`. -/
def Listeners.add (listeners : Listeners) (set : SetId) (listener : ListenerId) : Listeners :=
  let members := listeners.members set
  let added := if listener ∈ members then members else members ++ [listener]
  { listeners with sets := listeners.sets.set set added }

/-- The channel's set, made when there is none. -/
def Listeners.ensure (listeners : Listeners) (channel : Channel) : Listeners × SetId :=
  match listeners.map.get? channel with
  | some set => (listeners, set)
  | none =>
      ({ map := listeners.map.set channel listeners.nextSet
         sets := listeners.sets.set listeners.nextSet []
         nextSet := listeners.nextSet + 1 }, listeners.nextSet)

def Listeners.delete (listeners : Listeners) (removal : Removal) : Listeners :=
  let rest := (listeners.members removal.set).filter (· ≠ removal.listener)
  let listeners := { listeners with sets := listeners.sets.set removal.set rest }
  if rest = [] then { listeners with map := listeners.map.erase removal.channel } else listeners

/-! ## Dispatch -/

namespace Dispatch

def markDirty (d : Dispatch) (id : LoopId) : Dispatch :=
  match d.loops.get? id with
  | none => d
  | some loop => { d with loops := d.loops.set id { loop with dirty := true } }

/-- The `finally` of `runChannel`, and its promise when a slot waits for it. -/
def finish (d : Dispatch) (id : LoopId) (loop : Loop) : Dispatch :=
  { d with
    inflight := d.inflight.erase loop.channel
    loops := d.loops.erase id
    releases := if loop.catchup then d.releases + 1 else d.releases }

/-- One turn of the `do` loop: read the listeners, start them all. -/
def round (listeners : Listeners) (d : Dispatch) (id : LoopId) (loop : Loop) : Dispatch :=
  let started := listeners.on loop.channel
  let d := { d with history := d.history ++ [Happening.round loop.channel started] }
  if started = [] then d.finish id loop
  else
    { d with loops := d.loops.set id { loop with dirty := false, running := started.length } }

/-- `this.inflight.set(channel, state)`. -/
def enter (d : Dispatch) (channel : Channel) : Dispatch :=
  { d with inflight := d.inflight.set channel d.nextLoop, nextLoop := d.nextLoop + 1 }

/-- Single-flight refetch with a dirty flag per channel. -/
def runChannel (listeners : Listeners) (d : Dispatch) (channel : Channel) (catchup : Bool) :
    Dispatch :=
  match d.inflight.get? channel with
  | some id =>
      let d := d.markDirty id
      { d with releases := if catchup then d.releases + 1 else d.releases }
  | none =>
      (d.enter channel).round listeners d.nextLoop
        { channel, dirty := false, running := 0, catchup }

/-- One listener of the loop's round settled. -/
def settle (d : Dispatch) (id : LoopId) : Dispatch :=
  match d.loops.get? id with
  | none => d
  | some loop => { d with loops := d.loops.set id { loop with running := loop.running - 1 } }

/-- All of them did: the loop goes on where it awaited them. -/
def resume (listeners : Listeners) (d : Dispatch) (id : LoopId) : Dispatch :=
  match d.loops.get? id with
  | none => d
  | some loop => if loop.dirty then d.round listeners id loop else d.finish id loop

/-- A queued channel gets a slot. -/
def take (d : Dispatch) (channel : Channel) : Dispatch :=
  { d with
    catchupActive := d.catchupActive + 1
    history := d.history ++ [.taken channel] }

/-- The loop of `pumpCatchup` over the queue. -/
def pump (listeners : Listeners) : List Channel → Dispatch → Dispatch
  | [], d => { d with catchupQueue := [] }
  | channel :: rest, d =>
      if d.catchupActive < catchupConcurrency then
        pump listeners rest ((d.take channel).runChannel listeners channel true)
      else { d with catchupQueue := channel :: rest }

def pumpCatchup (listeners : Listeners) (d : Dispatch) : Dispatch :=
  pump listeners d.catchupQueue d

/-- The `finally` of a catch-up dispatch. -/
def release (listeners : Listeners) (d : Dispatch) : Dispatch :=
  let d := { d with releases := d.releases - 1, catchupActive := d.catchupActive - 1 }
  d.pumpCatchup listeners

/-- The registered channels, notifications first. -/
def catchupChannels (listeners : Listeners) : List Channel :=
  (listeners.map.keys.filter fun channel => 0 < (listeners.on channel).length).insertionSort
    fun a b => a = notificationsChannel ∨ b ≠ notificationsChannel

/-- `if (!queue.includes(channel)) queue.push(channel)`. -/
def enqueue (queue : List Channel) (channel : Channel) : List Channel :=
  if channel ∈ queue then queue else queue ++ [channel]

def enqueueCatchup (listeners : Listeners) (d : Dispatch) : Dispatch :=
  let d := { d with catchupQueue := (catchupChannels listeners).foldl enqueue d.catchupQueue }
  d.pumpCatchup listeners

/-- A channel that is already coalescing folds the ping in. -/
def scheduleChannel (d : Dispatch) (channel : Channel) : Dispatch :=
  { d with coalesceTimers := insert channel d.coalesceTimers }

def coalesceFired (listeners : Listeners) (d : Dispatch) (channel : Channel) : Dispatch :=
  let d := { d with coalesceTimers := d.coalesceTimers.erase channel }
  d.runChannel listeners channel false

/-- `clearCoalescing` and `clearCatchup`. -/
def clear (d : Dispatch) : Dispatch := { d with coalesceTimers := ∅, catchupQueue := [] }

end Dispatch

/-! ## Subscriptions -/

/-- `slice(i, i + n)` for every multiple `i` of `n` below the length. -/
def slicesFuel (n : Nat) : Nat → List Channel → List (List Channel)
  | 0, _ => []
  | _, [] => []
  | fuel + 1, channels => channels.take n :: slicesFuel n fuel (channels.drop n)

def slices (n : Nat) (channels : List Channel) : List (List Channel) :=
  slicesFuel n channels.length channels

/-- The change from `previous` to `desired` in bodies of at most
`maxSubscribeList` channels each. -/
def addRemoveRequests (connId : ConnId) (previous desired : List Channel) :
    List AddRemoveSubscribeRequest :=
  let add := desired.filter (· ∉ previous)
  let remove := previous.filter (· ∉ desired)
  (List.range (max (slices maxSubscribeList add).length (slices maxSubscribeList remove).length)).map
    fun i => ⟨connId, (slices maxSubscribeList add).getD i [],
      (slices maxSubscribeList remove).getD i []⟩

/-- The full set under `rev`; the empty set is one POST with no channels. -/
def setRequests (connId : ConnId) (rev : Nat) (channels : List Channel) :
    List LiveSubscribeRequest :=
  let requests := (slices maxSubscribeList channels).map fun part => ⟨connId, rev, part⟩
  if requests = [] then [⟨connId, rev, []⟩] else requests

/-- The sorted, joined channels. -/
def setKey (channels : List Channel) : String :=
  "\n".intercalate (channels.insertionSort (· ≤ ·))

namespace Subscriptions

def scheduleSync (s : Subscriptions) : Subscriptions := { s with syncScheduled := true }

def clearSubscribeRetry (s : Subscriptions) : Subscriptions := { s with retryTimer := none }

def scheduleSubscribeRetry (s : Subscriptions) : Subscriptions :=
  if s.retryTimer.isSome then s
  else
    match subscribeRetryMs[s.retries]? with
    | none => s
    | some delay => { s with retries := s.retries + 1, retryTimer := some delay }

/-- A new connection starts with no channels. -/
def openSent (s : Subscriptions) (connId : Option ConnId) : Subscriptions :=
  match connId with
  | none => s
  | some connId =>
      { s with sent := some ⟨s.nextSent, connId, "", [], 0⟩, nextSent := s.nextSent + 1 }

/-- The next set and its POSTs. -/
def send (s : Subscriptions) (connId : ConnId) (channels : List Channel) (rev : Nat)
    (bodies : List SubscribeBody) : Subscriptions :=
  let sent : SentSet :=
    ⟨s.nextSent, connId, setKey channels, channels, bodies.length⟩
  { s with
    rev
    sent := some sent
    nextSent := s.nextSent + 1
    posts := s.posts ++ bodies.map (Post.mk sent) }

/-- `sendSubscriptions` for the desired `channels`. -/
def sendSubscriptions (s : Subscriptions) (connId : Option ConnId) (channels : List Channel) :
    Subscriptions :=
  match connId with
  | none => s
  | some connId =>
      let previous := s.sent.filter fun sent => sent.connId = connId
      if previous.map SentSet.key = some (setKey channels) then s
      else if s.legacy then
        let had := (previous.map SentSet.channels).getD []
        s.send connId channels s.rev ((addRemoveRequests connId had channels).map .addRemove)
      else
        s.send connId channels (s.rev + 1) ((setRequests connId (s.rev + 1) channels).map .set)

end Subscriptions

/-! ## The machine -/

namespace LiveClient

def reportHealth (c : LiveClient) : LiveClient :=
  { c with health := some (c.stream.streamFresh && !c.subs.failed) }

def register (c : LiveClient) (channel : Channel) (listener : ListenerId) :
    LiveClient × Removal :=
  let isNewChannel := (c.listeners.on channel).isEmpty
  let ensured := c.listeners.ensure channel
  let c := { c with
    listeners := ensured.1.add ensured.2 listener
    dispatch.history := c.dispatch.history ++ [.registered channel listener] }
  let c := if isNewChannel && isContentChannel channel then
      { c with subs := c.subs.scheduleSync } else c
  (c, ⟨channel, ensured.2, listener⟩)

def remove (c : LiveClient) (removal : Removal) : LiveClient :=
  let listeners := c.listeners.delete removal
  let c := { c with listeners }
  if (listeners.members removal.set).isEmpty && isContentChannel removal.channel then
    { c with subs := c.subs.scheduleSync }
  else c

def connect (c : LiveClient) (visible : Bool) (now : Nat) : LiveClient :=
  if !c.stream.started || c.stream.stopped then c
  else if !visible then c
  else if c.stream.source.isSome then c
  else
    { c with stream := { c.stream with
        source := some c.stream.sources
        sources := c.stream.sources + 1
        openedAt := now
        lastBeat := now } }

def teardown (c : LiveClient) : LiveClient :=
  reportHealth { c with
    stream := { c.stream with source := none, connId := none, streamFresh := false }
    subs := { c.subs with failed := false, retryTimer := none } }

def scheduleReconnect (c : LiveClient) (extraSpreadMs : Nat) : LiveClient :=
  if c.stream.stopped || c.stream.reconnectTimer.isSome then c
  else
    let attempt := c.stream.attempt
    { c with stream := { c.stream with
        attempt := min (attempt + 1) backoffMaxAttempt
        reconnectTimer := some ⟨min backoffCapMs (backoffBaseMs * Nat.pow 2 attempt), extraSpreadMs⟩ } }

def reconnectFired (c : LiveClient) (visible : Bool) (now : Nat) : LiveClient :=
  connect { c with stream := { c.stream with reconnectTimer := none } } visible now

def stopRetrying (c : LiveClient) (selfHeal : Bool) (now : Nat) : LiveClient :=
  { c with stream := { c.stream with stopped := true, selfHeal, stoppedAt := now } }

def start (c : LiveClient) (visible : Bool) (now : Nat) : LiveClient :=
  if c.stream.started then c
  else
    connect { c with stream := { c.stream with
      started := true, watchesVisibility := true, watchdog := true } } visible now

def stop (c : LiveClient) : LiveClient :=
  if !c.stream.started then c
  else
    teardown { c with
      stream := { c.stream with
        started := false, watchesVisibility := false, watchdog := false,
        reconnectTimer := none }
      dispatch := c.dispatch.clear }

/-- A hello without `emitFresh` is a web from before the full-set sync. -/
def helloIsLegacy (data : Option Json) : Bool :=
  match data with
  | none => false
  | some value => value.fields?.isSome && (value.get? "emitFresh").isNone

def onHello (c : LiveClient) (now : Nat) (data : Option Json) : LiveClient :=
  let hello := data.bind parseHelloFrame
  let connId := hello.map HelloFrame.connId
  let c := { c with
    stream := { c.stream with
      attempt := 0
      instantCloses := 0
      lastBeat := now
      connId
      streamFresh := (hello.map HelloFrame.emitFresh).getD true }
    revision := (hello.map HelloFrame.revision).or c.revision
    subs := { c.subs with
      legacy := helloIsLegacy data, failed := false, retries := 0, retryTimer := none } }
  let c := c.reportHealth
  { c with
    stream := { c.stream with everOpened := true }
    subs := (c.subs.openSent connId).scheduleSync
    dispatch :=
      if c.stream.everOpened then c.dispatch.enqueueCatchup c.listeners else c.dispatch }

def onHeartbeat (c : LiveClient) (now : Nat) (data : Option Json) : LiveClient :=
  reportHealth { c with stream := { c.stream with
    lastBeat := now, streamFresh := (data.map parseHeartbeatFrame).getD true } }

def onBye (c : LiveClient) (now : Nat) (reason : ByeReason) : LiveClient :=
  let c := c.teardown
  let c := { c with stream := { c.stream with instantCloses := 0 } }
  match reason with
  | .evicted | .expired => c.stopRetrying false now
  | .shutdown => c.scheduleReconnect reopenSpreadMs
  | .rotate => c.scheduleReconnect 0

/-- An unknown or malformed reason is treated as a rotation. -/
def onByeEvent (c : LiveClient) (now : Nat) (data : Option Json) : LiveClient :=
  c.onBye now ((data.bind parseByeFrame).getD .rotate)

def onPing (c : LiveClient) (now : Nat) (data : Option Json) : LiveClient :=
  let c := { c with stream := { c.stream with lastBeat := now } }
  match data.bind parseLiveFrame with
  | none => c
  | some frame => { c with dispatch := c.dispatch.scheduleChannel (frameChannel frame) }

/-- `source.onerror`; `closed` says that the browser gave the source up. -/
def onError (c : LiveClient) (now : Nat) (closed : Bool) : LiveClient :=
  if !closed then
    reportHealth { c with stream := { c.stream with streamFresh := false } }
  else
    let lifetime := now - c.stream.openedAt
    let spread := if stableStreamMs < lifetime then reopenSpreadMs else 0
    let c := c.teardown
    if lifetime < instantCloseMs then
      let c := { c with stream := { c.stream with instantCloses := c.stream.instantCloses + 1 } }
      if terminalInstantCloses ≤ c.stream.instantCloses then c.stopRetrying true now
      else c.scheduleReconnect spread
    else
      scheduleReconnect { c with stream := { c.stream with instantCloses := 0 } } spread

def onVisibilityChange (c : LiveClient) (visible : Bool) (now : Nat) : LiveClient :=
  if visible then
    let c := { c with stream := { c.stream with
      stopped := false, instantCloses := 0, attempt := 0 } }
    if c.stream.source.isNone then c.connect visible now else c
  else
    teardown { c with
      stream := { c.stream with reconnectTimer := none }
      dispatch := c.dispatch.clear }

def watchdogTick (c : LiveClient) (visible : Bool) (now : Nat) : LiveClient :=
  if c.stream.stopped then
    if c.stream.selfHeal && visible && stoppedRetryMs < now - c.stream.stoppedAt then
      connect { c with stream := { c.stream with
        stopped := false, instantCloses := 0, attempt := 0 } } visible now
    else c
  else if c.stream.source.isNone then c
  else if heartbeatTimeoutMs < now - c.stream.lastBeat then
    c.teardown.scheduleReconnect reopenSpreadMs
  else c

/-- The channels the tab wants of the bus. -/
def desired (c : LiveClient) : List Channel := c.listeners.map.keys.filter isContentChannel

def sendSubscriptions (c : LiveClient) : LiveClient :=
  { c with subs := c.subs.sendSubscriptions c.stream.connId c.desired }

def syncMicrotask (c : LiveClient) : LiveClient :=
  sendSubscriptions { c with subs := { c.subs with syncScheduled := false } }

def subscribeRetryFired (c : LiveClient) : LiveClient :=
  sendSubscriptions { c with subs := { c.subs with retryTimer := none } }

def onSubscribeAnswer (c : LiveClient) (sent : SentId) (taken : Bool) : LiveClient :=
  match c.subs.sent with
  | none => c
  | some current =>
      if current.id ≠ sent then c
      else if taken then
        let pending := current.pending - 1
        let c := { c with subs := { c.subs with sent := some { current with pending } } }
        if 0 < pending then c
        else
          let c := { c with subs := { c.subs with retries := 0 } }
          if c.subs.failed then
            reportHealth { c with subs := { c.subs with failed := false } }
          else c
      else
        let c := { c with subs := { c.subs with sent := none } }
        let c := if !c.subs.failed then
            reportHealth { c with subs := { c.subs with failed := true } } else c
        { c with subs := c.subs.scheduleSubscribeRetry }

end LiveClient

end Sinnlos.Live

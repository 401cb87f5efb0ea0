import Sinnlos.Live.Bus
import Sinnlos.Live.Tab

/-! # One tab and the bus

The stream and subscribe routes between a live client and the live bus. A POST
may reach the route any number of times and at any later time, under whatever
session the browser then has; its answer may come late, and may be a failure
although the route applied it. Everything else that happens on the bus happens
to connections of other tabs, except that any connection can be dropped.
-/

namespace Sinnlos.Live
open Sinnlos.Runs

/-! ## The routes -/

inductive UploadAccess
  | active
  | blocked
  | unavailable
deriving DecidableEq

/-- What the subscribe route finds out about a request before its body. -/
structure RequestContext where
  sessionUser : Option UserId
  disabled : Bool
  hasToken : Bool
  access : UploadAccess
deriving DecidableEq

inductive SubscribeAnswer
  | unauthorized
  | disabled
  | unavailable
  | invalidPayload
  | unknownConnection
  | stale (rev : Nat)
  | applied (rev channels dropped : Nat)
  | ok
deriving DecidableEq

/-- The 2xx answers. -/
def SubscribeAnswer.isOk : SubscribeAnswer → Bool
  | .stale _ => true
  | .applied _ _ _ => true
  | .ok => true
  | _ => false

/-- A channel list of the add/remove body, or none when malformed. -/
def parseChannels (value : List Channel) : Option (List Channel) :=
  if maxSubscribeList < value.length then none
  else if value.all isContentChannel then some value else none

def subscribeSet (bus : LiveBus) (userId : UserId) (body : LiveSubscribeRequest) :
    LiveBus × SubscribeAnswer :=
  match parseSubscribeRequest body with
  | none => (bus, .invalidPayload)
  | some request =>
      let synced := bus.sync request.connId userId request.rev request.channels
      match synced.2 with
      | .unknown => (synced.1, .unknownConnection)
      | .stale rev => (synced.1, .stale rev)
      | .applied rev channels dropped => (synced.1, .applied rev channels dropped)

def subscribeAddRemove (bus : LiveBus) (userId : UserId) (body : AddRemoveSubscribeRequest) :
    LiveBus × SubscribeAnswer :=
  if body.connId = "" then (bus, .invalidPayload)
  else
    match parseChannels body.add, parseChannels body.remove with
    | some add, some remove =>
        let subscribed := bus.subscribe body.connId userId add remove
        (subscribed.1, if subscribed.2 then .ok else .unknownConnection)
    | _, _ => (bus, .invalidPayload)

/-- `POST /live/subscribe`. -/
def subscribeRoute (bus : LiveBus) (context : RequestContext) (body : SubscribeBody) :
    LiveBus × SubscribeAnswer :=
  match context.sessionUser with
  | none => (bus, .unauthorized)
  | some userId =>
      if context.disabled then (bus, .disabled)
      else if !context.hasToken then (bus, .unauthorized)
      else if context.access = .blocked then (bus, .unauthorized)
      else if context.access = .unavailable then (bus, .unavailable)
      else
        match body with
        | .set request => subscribeSet bus userId request
        | .addRemove request => subscribeAddRemove bus userId request

/-- The data of the hello that the stream route writes. -/
def helloJson (frame : HelloFrame) : Json :=
  .obj [("connId", .str frame.connId), ("emitFresh", .bool frame.emitFresh),
    ("revision", (frame.revision.map Json.str).getD .null)]

/-! ## The system -/

structure Net where
  tab : Tab
  bus : LiveBus
  /-- Every connection id registered so far. -/
  used : Finset ConnId
  /-- Those of this tab's streams. -/
  own : Finset ConnId
  /-- Those of them whose hello the tab has not received. -/
  hellos : Finset ConnId
  /-- The POSTs (by position) that some delivery answered with 2xx. -/
  accepted : Finset Nat
  /-- The answers the client got, by POST. -/
  answers : OrderedMap Nat Bool
deriving DecidableEq

inductive NetEvent
  | tab (event : TabEvent)
  | openStream (connId : ConnId) (userId : UserId) (now : Nat)
  | hello (connId : ConnId) (now : Nat) (emitFresh : Bool) (revision : Option String)
  | foreign (op : BusOp)
  | deliver (post : Nat) (context : RequestContext)
  | answer (post : Nat) (taken : Bool)

def Net.initial (visible : Bool) : Net :=
  ⟨.loaded visible, .initial, ∅, ∅, ∅, ∅, .empty⟩

/-- Hellos and answers come from the routes, not by themselves. -/
def TabEvent.isOwn : TabEvent → Bool
  | .source _ (.hello _) => false
  | .answer _ _ => false
  | _ => true

/-- An operation on the bus that this tab's streams have no part in: a fresh
connection, an update of another one, or whatever drops connections. -/
def BusOp.isForeign (used own : Finset ConnId) : BusOp → Bool
  | .register conn => conn.id ∉ used
  | .sync connId _ _ _ => connId ∉ own
  | .subscribe connId _ _ _ => connId ∉ own
  | _ => true

def BusOp.registers : BusOp → Finset ConnId
  | .register conn => {conn.id}
  | _ => ∅

/-- What an event does, or none when it cannot happen now. Connection ids are
random UUIDs: never empty and never used before. -/
def Net.step (n : Net) : NetEvent → Option Net
  | .tab event =>
      if !event.isOwn then none
      else (n.tab.step event).map fun tab => { n with tab }
  | .openStream connId userId now =>
      if connId = "" ∨ connId ∈ n.used then none
      else some { n with
        bus := (n.bus.register (streamConnection connId userId now)).1
        used := insert connId n.used
        own := insert connId n.own
        hellos := insert connId n.hellos }
  | .hello connId now emitFresh revision =>
      if connId ∉ n.hellos then none
      else
        let data := helloJson ⟨connId, emitFresh, revision⟩
        (n.tab.step (.source now (.hello (some data)))).map fun tab =>
          { n with tab, hellos := n.hellos.erase connId }
  | .foreign op =>
      if !op.isForeign n.used n.own then none
      else some { n with bus := n.bus.apply op, used := n.used ∪ op.registers }
  | .deliver post context =>
      match n.tab.client.subs.posts[post]? with
      | none => none
      | some sent =>
          let routed := subscribeRoute n.bus context sent.body
          some { n with
            bus := routed.1
            accepted := if routed.2.isOk then insert post n.accepted else n.accepted }
  | .answer post taken =>
      match n.tab.client.subs.posts[post]? with
      | none => none
      | some sent =>
          if (n.answers.get? post).isSome ∨ taken = true ∧ post ∉ n.accepted then none
          else (n.tab.step (.answer sent.sent.id taken)).map fun tab =>
            { n with tab, answers := n.answers.set post taken }

def NetStep (n : Net) (event : NetEvent) (n' : Net) : Prop := n.step event = some n'

def Net.Initial (n : Net) : Prop := ∃ visible, n = .initial visible

end Sinnlos.Live

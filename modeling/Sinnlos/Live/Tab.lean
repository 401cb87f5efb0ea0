import Sinnlos.Lib.Runs
import Sinnlos.Live.Client

/-! # The client in its tab

Everything that can happen to a live client, in any order: the provider's
calls, the events of its open source, timers, the tab's visibility and the
continuations of its dispatches and POSTs. A closed source delivers nothing, a
cleared timer does not fire, and each change of the visibility is followed by
one event, at any later time.
-/

namespace Sinnlos.Live
open Sinnlos.Runs

structure Tab where
  client : LiveClient
  visible : Bool
  /-- Visibility changes whose event is not handled yet. -/
  pendingVisibility : Nat
  /-- The removals that registrations returned. -/
  removals : List Removal
deriving DecidableEq

/-- A freshly loaded tab. -/
def Tab.loaded (visible : Bool) : Tab := ⟨.new, visible, 0, []⟩

inductive SourceEvent
  | hello (data : Option Json)
  | heartbeat (data : Option Json)
  | bye (data : Option Json)
  | ping (data : Option Json)
  | error (closed : Bool)
deriving DecidableEq

inductive TabEvent
  | start (now : Nat)
  | stop
  | changeVisibility
  | visibilityEvent (now : Nat)
  | source (now : Nat) (event : SourceEvent)
  | reconnectTimer (now : Nat)
  | watchdog (now : Nat)
  | coalesceTimer (channel : Channel)
  | settle (loop : LoopId)
  | resume (loop : LoopId)
  | release
  | register (channel : Channel) (listener : ListenerId)
  | remove (removal : Removal)
  | syncMicrotask
  | subscribeRetryTimer
  | answer (sent : SentId) (taken : Bool)
deriving DecidableEq

def LiveClient.onSourceEvent (c : LiveClient) (now : Nat) : SourceEvent → LiveClient
  | .hello data => c.onHello now data
  | .heartbeat data => c.onHeartbeat now data
  | .bye data => c.onByeEvent now data
  | .ping data => c.onPing now data
  | .error closed => c.onError now closed

/-- The loop exists and `p` holds of it. -/
def Dispatch.loopIs (d : Dispatch) (id : LoopId) (p : Loop → Bool) : Bool :=
  (d.loops.get? id).any p

def LiveClient.onDispatch (c : LiveClient) (d : Dispatch) : LiveClient := { c with dispatch := d }

namespace Tab

def withClient (t : Tab) (client : LiveClient) : Tab := { t with client }

/-- What an event does, or none when it cannot happen now. -/
def step (t : Tab) : TabEvent → Option Tab
  | .start now => some (t.withClient (t.client.start t.visible now))
  | .stop => some (t.withClient t.client.stop)
  | .changeVisibility =>
      some { t with visible := !t.visible, pendingVisibility := t.pendingVisibility + 1 }
  | .visibilityEvent now =>
      if t.pendingVisibility = 0 then none
      else
        let client := if t.client.stream.watchesVisibility then
          t.client.onVisibilityChange t.visible now else t.client
        some { t with client, pendingVisibility := t.pendingVisibility - 1 }
  | .source now event =>
      if t.client.stream.source.isNone then none
      else some (t.withClient (t.client.onSourceEvent now event))
  | .reconnectTimer now =>
      if t.client.stream.reconnectTimer.isNone then none
      else some (t.withClient (t.client.reconnectFired t.visible now))
  | .watchdog now =>
      if !t.client.stream.watchdog then none
      else some (t.withClient (t.client.watchdogTick t.visible now))
  | .coalesceTimer channel =>
      if channel ∉ t.client.dispatch.coalesceTimers then none
      else some (t.withClient (t.client.onDispatch
        (t.client.dispatch.coalesceFired t.client.listeners channel)))
  | .settle loop =>
      if !t.client.dispatch.loopIs loop (fun l => 0 < l.running) then none
      else some (t.withClient (t.client.onDispatch (t.client.dispatch.settle loop)))
  | .resume loop =>
      if !t.client.dispatch.loopIs loop (fun l => l.running = 0) then none
      else some (t.withClient (t.client.onDispatch
        (t.client.dispatch.resume t.client.listeners loop)))
  | .release =>
      if t.client.dispatch.releases = 0 then none
      else some (t.withClient (t.client.onDispatch
        (t.client.dispatch.release t.client.listeners)))
  | .register channel listener =>
      let registered := t.client.register channel listener
      some { t with client := registered.1, removals := t.removals ++ [registered.2] }
  | .remove removal =>
      if removal ∉ t.removals then none else some (t.withClient (t.client.remove removal))
  | .syncMicrotask =>
      if !t.client.subs.syncScheduled then none
      else some (t.withClient t.client.syncMicrotask)
  | .subscribeRetryTimer =>
      if t.client.subs.retryTimer.isNone then none
      else some (t.withClient t.client.subscribeRetryFired)
  | .answer sent taken => some (t.withClient (t.client.onSubscribeAnswer sent taken))

end Tab

def TabStep (t : Tab) (event : TabEvent) (t' : Tab) : Prop := t.step event = some t'

/-- An event that happened could happen, and this is what it did. -/
theorem of_guard {p : Prop} [Decidable p] {a b : Tab} (h : (if p then none else some a) = some b) :
    ¬p ∧ a = b := by
  obtain ⟨hguard, heq⟩ := Option.ite_none_left_eq_some.mp h
  exact ⟨hguard, Option.some.inj heq⟩

def Tab.Initial (t : Tab) : Prop := ∃ visible, t = .loaded visible

/-! ## What the handlers leave alone -/

namespace Dispatch

/-- The timers and the queue: what a hidden tab must not have. -/
structure SameWaiting (d d' : Dispatch) : Prop where
  timers : d'.coalesceTimers = d.coalesceTimers
  queue : d'.catchupQueue = d.catchupQueue

theorem markDirty_waiting (d : Dispatch) (id : LoopId) : SameWaiting d (d.markDirty id) := by
  rw [markDirty]
  split <;> exact ⟨rfl, rfl⟩

theorem round_waiting (listeners : Listeners) (d : Dispatch) (id : LoopId) (loop : Loop) :
    SameWaiting d (d.round listeners id loop) := by
  simp only [round]
  split <;> exact ⟨rfl, rfl⟩

theorem runChannel_waiting (listeners : Listeners) (d : Dispatch) (channel : Channel)
    (catchup : Bool) : SameWaiting d (d.runChannel listeners channel catchup) := by
  simp only [runChannel]
  split
  · have h := markDirty_waiting d (by assumption)
    exact ⟨h.timers, h.queue⟩
  · have h := round_waiting listeners (d.enter channel) d.nextLoop ⟨channel, false, 0, catchup⟩
    exact ⟨h.timers, h.queue⟩

theorem settle_waiting (d : Dispatch) (id : LoopId) : SameWaiting d (d.settle id) := by
  rw [settle]
  split <;> exact ⟨rfl, rfl⟩

theorem resume_waiting (listeners : Listeners) (d : Dispatch) (id : LoopId) :
    SameWaiting d (d.resume listeners id) := by
  simp only [resume]
  split
  · exact ⟨rfl, rfl⟩
  · split
    · exact round_waiting _ _ _ _
    · exact ⟨rfl, rfl⟩

theorem pump_timers (listeners : Listeners) (queue : List Channel) (d : Dispatch) :
    (pump listeners queue d).coalesceTimers = d.coalesceTimers := by
  induction queue generalizing d with
  | nil => rfl
  | cons channel rest ih =>
      rw [pump]
      split
      · rw [ih, (runChannel_waiting _ _ _ _).timers]
        rfl
      · rfl

theorem pumpCatchup_empty (listeners : Listeners) (d : Dispatch) (h : d.catchupQueue = []) :
    d.pumpCatchup listeners = d := by
  rw [pumpCatchup, h, pump, ← h]

end Dispatch

namespace LiveClient

@[simp] theorem register_stream (c : LiveClient) (channel : Channel) (listener : ListenerId) :
    (c.register channel listener).1.stream = c.stream := by
  simp only [register]
  split <;> rfl

@[simp] theorem remove_stream (c : LiveClient) (removal : Removal) :
    (c.remove removal).stream = c.stream := by
  simp only [remove]
  split <;> rfl

@[simp] theorem register_waiting (c : LiveClient) (channel : Channel) (listener : ListenerId) :
    Dispatch.SameWaiting c.dispatch (c.register channel listener).1.dispatch := by
  simp only [register]
  split <;> exact ⟨rfl, rfl⟩

@[simp] theorem remove_dispatch (c : LiveClient) (removal : Removal) :
    (c.remove removal).dispatch = c.dispatch := by
  simp only [remove]
  split <;> rfl

@[simp] theorem onSubscribeAnswer_stream (c : LiveClient) (sent : SentId) (taken : Bool) :
    (c.onSubscribeAnswer sent taken).stream = c.stream := by
  simp only [onSubscribeAnswer, reportHealth]
  repeat' split
  all_goals rfl

@[simp] theorem onSubscribeAnswer_dispatch (c : LiveClient) (sent : SentId) (taken : Bool) :
    (c.onSubscribeAnswer sent taken).dispatch = c.dispatch := by
  simp only [onSubscribeAnswer, reportHealth]
  repeat' split
  all_goals rfl

end LiveClient

end Sinnlos.Live

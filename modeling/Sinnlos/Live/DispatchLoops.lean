import Sinnlos.Live.Tab

/-! # The dispatch loops

`inflight` and the running loops name each other, so a channel has at most one
loop, and the catch-up slots in use are the catch-up loops and the finished
ones that wait for their release: never more than the limit. A queue that is
not empty finds every slot in use.
-/

namespace Sinnlos.Live
open Sinnlos.Runs

namespace Dispatch

/-- `owed` slots are taken for dispatches that have not begun. -/
structure LoopsAgree (d : Dispatch) (owed : Nat) : Prop where
  loopOf : ∀ channel id, d.inflight.get? channel = some id →
    ∃ loop, d.loops.get? id = some loop ∧ loop.channel = channel
  inflightOf : ∀ id loop, d.loops.get? id = some loop → d.inflight.get? loop.channel = some id
  fresh : ∀ id loop, d.loops.get? id = some loop → id < d.nextLoop
  slots : d.catchupActive = d.loops.count Loop.catchup + d.releases + owed
  bounded : d.catchupActive ≤ catchupConcurrency

/-- Nobody waits while a slot is free. -/
def Pumped (d : Dispatch) : Prop := d.catchupQueue ≠ [] → d.catchupActive = catchupConcurrency

variable {d : Dispatch} {owed : Nat} {id : LoopId} {loop : Loop}

/-- One loop per channel. -/
theorem LoopsAgree.unique (h : d.LoopsAgree owed) {id' : LoopId} {loop' : Loop}
    (hl : d.loops.get? id = some loop) (hl' : d.loops.get? id' = some loop')
    (same : loop.channel = loop'.channel) : id = id' := by
  have h₁ := h.inflightOf id loop hl
  have h₂ := h.inflightOf id' loop' hl'
  rw [same, h₂] at h₁
  exact (Option.some.inj h₁).symm

/-- Agreement is about the loops and the slots. -/
theorem LoopsAgree.of_same {d' : Dispatch} (h : d.LoopsAgree owed)
    (inflight : d'.inflight = d.inflight) (loops : d'.loops = d.loops)
    (next : d'.nextLoop = d.nextLoop) (active : d'.catchupActive = d.catchupActive)
    (releases : d'.releases = d.releases) : d'.LoopsAgree owed := by
  obtain ⟨h₁, h₂, h₃, h₄, h₅⟩ := h
  refine ⟨?_, ?_, ?_, ?_, ?_⟩
  · rw [inflight, loops]
    exact h₁
  · rw [inflight, loops]
    exact h₂
  · rw [loops, next]
    exact h₃
  · rw [active, loops, releases]
    exact h₄
  · rw [active]
    exact h₅

/-- Replacing a loop by one of the same channel and kind. -/
theorem LoopsAgree.replace (h : d.LoopsAgree owed) (hl : d.loops.get? id = some loop)
    (loop' : Loop) (channel : loop'.channel = loop.channel)
    (catchup : loop'.catchup = loop.catchup) :
    LoopsAgree { d with loops := d.loops.set id loop' } owed := by
  obtain ⟨h₁, h₂, h₃, h₄, h₅⟩ := h
  refine ⟨?_, ?_, ?_, ?_, h₅⟩
  · intro ch j hj
    by_cases hji : j = id
    · obtain ⟨old, hold, hch⟩ := h₁ ch j hj
      rw [hji, hl] at hold
      cases hold
      exact ⟨loop', by simp [hji], channel.trans hch⟩
    · obtain ⟨old, hold, hch⟩ := h₁ ch j hj
      exact ⟨old, by simp [OrderedMap.get?_set, hji, hold], hch⟩
  · intro j found hj
    simp only [OrderedMap.get?_set] at hj
    split at hj
    · rename_i hji
      cases hj
      rw [channel, hji]
      exact h₂ id loop hl
    · exact h₂ j found hj
  · intro j found hj
    simp only [OrderedMap.get?_set] at hj
    split at hj
    · rename_i hji
      rw [hji]
      exact h₃ id loop hl
    · exact h₃ j found hj
  · have hcount := OrderedMap.count_set_of_get? Loop.catchup hl (v := loop') catchup
    show d.catchupActive = (d.loops.set id loop').count Loop.catchup + d.releases + owed
    rw [hcount]
    exact h₄

/-- The end of a loop frees its channel and keeps its slot for the release. -/
theorem LoopsAgree.finish (h : d.LoopsAgree owed) (hl : d.loops.get? id = some loop) :
    (d.finish id loop).LoopsAgree owed := by
  have hunique : ∀ j other, d.loops.get? j = some other → j ≠ id →
      other.channel ≠ loop.channel := by
    intro j other hj hne hsame
    exact hne (h.unique hj hl hsame)
  have hcount := OrderedMap.count_erase Loop.catchup hl
  have hslots := h.slots
  obtain ⟨h₁, h₂, h₃, _, h₅⟩ := h
  refine ⟨?_, ?_, ?_, ?_, h₅⟩
  · intro ch j hj
    simp only [Dispatch.finish, OrderedMap.get?_erase] at hj ⊢
    split at hj
    · cases hj
    · rename_i hne
      obtain ⟨other, hother, hch⟩ := h₁ ch j hj
      have hji : j ≠ id := by
        intro heq
        rw [heq, hl] at hother
        cases hother
        exact hne hch.symm
      exact ⟨other, by simp [hji, hother], hch⟩
  · intro j other hj
    simp only [Dispatch.finish, OrderedMap.get?_erase] at hj ⊢
    split at hj
    · cases hj
    · rename_i hne
      simp only [hunique j other hj hne, if_false]
      exact h₂ j other hj
  · intro j other hj
    simp only [Dispatch.finish, OrderedMap.get?_erase] at hj
    split at hj
    · cases hj
    · exact h₃ j other hj
  · simp only [Dispatch.finish]
    cases hkind : loop.catchup with
    | false =>
        rw [hkind] at hcount
        simp only [Bool.false_eq_true, if_false, Nat.add_zero] at hcount ⊢
        omega
    | true =>
        rw [hkind] at hcount
        simp only [if_true] at hcount ⊢
        omega

/-- A turn of the loop, given that the loops agree with it among them. -/
theorem LoopsAgree.round (h : LoopsAgree { d with loops := d.loops.set id loop } owed)
    (listeners : Listeners) : (d.round listeners id loop).LoopsAgree owed := by
  have hl : (d.loops.set id loop).get? id = some loop := OrderedMap.get?_set_self _ _ _
  simp only [Dispatch.round]
  split
  · have hfin := h.finish hl
    obtain ⟨h₁, h₂, h₃, h₄, h₅⟩ := hfin
    have hget : ∀ j, ((d.loops.set id loop).erase id).get? j = (d.loops.erase id).get? j := by
      intro j
      simp only [OrderedMap.get?_erase, OrderedMap.get?_set]
      split <;> rfl
    have hcount : ((d.loops.set id loop).erase id).count Loop.catchup =
        (d.loops.erase id).count Loop.catchup := by
      have hset := OrderedMap.count_set d.loops id loop Loop.catchup
      have herase := OrderedMap.count_erase Loop.catchup hl
      omega
    simp only [Dispatch.finish, hget, hcount] at h₁ h₂ h₃ h₄ h₅
    exact ⟨h₁, h₂, h₃, h₄, h₅⟩
  · have hrep := h.replace hl { loop with
      dirty := false, running := (listeners.on loop.channel).length } rfl rfl
    obtain ⟨h₁, h₂, h₃, h₄, h₅⟩ := hrep
    have hget : ∀ j l, ((d.loops.set id loop).set id l).get? j = (d.loops.set id l).get? j := by
      intro j l
      simp only [OrderedMap.get?_set]
      split <;> rfl
    have hcount : ∀ l, ((d.loops.set id loop).set id l).count Loop.catchup =
        (d.loops.set id l).count Loop.catchup := by
      intro l
      have h₁ := OrderedMap.count_set d.loops id loop Loop.catchup
      have h₂ := OrderedMap.count_erase Loop.catchup hl
      rw [OrderedMap.count_set, OrderedMap.count_set d.loops]
      omega
    simp only [hget, hcount] at h₁ h₂ h₃ h₄ h₅
    exact ⟨h₁, h₂, h₃, h₄, h₅⟩

/-- A fresh loop beside the others. -/
theorem LoopsAgree.enter (loop : Loop)
    (h : d.LoopsAgree (if loop.catchup then owed + 1 else owed))
    (free : d.inflight.get? loop.channel = none) :
    LoopsAgree { d.enter loop.channel with loops := (d.enter loop.channel).loops.set d.nextLoop loop }
      owed := by
  obtain ⟨h₁, h₂, h₃, h₄, h₅⟩ := h
  have hnew : d.nextLoop ∉ d.loops.keys := by
    intro hmem
    obtain ⟨old, hold⟩ := OrderedMap.mem_keys.mp hmem
    exact Nat.lt_irrefl _ (h₃ _ _ hold)
  refine ⟨?_, ?_, ?_, ?_, h₅⟩
  · intro ch j hj
    simp only [Dispatch.enter, OrderedMap.get?_set] at hj ⊢
    split at hj
    · rename_i hch
      cases hj
      exact ⟨loop, by simp, hch.symm⟩
    · obtain ⟨old, hold, hch⟩ := h₁ ch j hj
      have hne : j ≠ d.nextLoop := by
        intro heq
        exact hnew (heq ▸ OrderedMap.mem_keys_of_get? hold)
      exact ⟨old, by simp [hne, hold], hch⟩
  · intro j found hj
    simp only [Dispatch.enter, OrderedMap.get?_set] at hj ⊢
    split at hj
    · rename_i hji
      cases hj
      simp [hji]
    · have hfound := h₂ j found hj
      have hch : found.channel ≠ loop.channel := by
        intro heq
        rw [heq, free] at hfound
        cases hfound
      simp only [hch, if_false]
      exact hfound
  · intro j found hj
    simp only [Dispatch.enter, OrderedMap.get?_set] at hj ⊢
    split at hj
    · rename_i hji
      rw [hji]
      exact Nat.lt_succ_self _
    · exact Nat.lt_succ_of_lt (h₃ j found hj)
  · show d.catchupActive = (d.loops.set d.nextLoop loop).count Loop.catchup + d.releases + owed
    rw [OrderedMap.count_set, OrderedMap.erase_of_not_mem hnew]
    cases hkind : loop.catchup with
    | false =>
        simp only [hkind, Bool.false_eq_true, if_false] at h₄ ⊢
        omega
    | true =>
        simp only [hkind, if_true] at h₄ ⊢
        omega

theorem LoopsAgree.markDirty (h : d.LoopsAgree owed) (id : LoopId) :
    (d.markDirty id).LoopsAgree owed := by
  rw [Dispatch.markDirty]
  split
  · exact h
  · rename_i loop hl
    exact h.replace hl _ rfl rfl

theorem markDirty_releases (d : Dispatch) (id : LoopId) : (d.markDirty id).releases = d.releases := by
  rw [markDirty]
  split <;> rfl

theorem LoopsAgree.runChannel (catchup : Bool)
    (h : d.LoopsAgree (if catchup then owed + 1 else owed)) (listeners : Listeners)
    (channel : Channel) : (d.runChannel listeners channel catchup).LoopsAgree owed := by
  simp only [Dispatch.runChannel]
  split
  · rename_i id hid
    obtain ⟨h₁, h₂, h₃, h₄, h₅⟩ := h.markDirty id
    refine ⟨h₁, h₂, h₃, ?_, h₅⟩
    rw [markDirty_releases] at h₄ ⊢
    cases catchup with
    | false => simpa using h₄
    | true =>
        simp only [if_true] at h₄ ⊢
        omega
  · rename_i hfree
    exact LoopsAgree.round (LoopsAgree.enter ⟨channel, false, 0, catchup⟩ h hfree)
      listeners

theorem LoopsAgree.settle (h : d.LoopsAgree owed) (id : LoopId) :
    (d.settle id).LoopsAgree owed := by
  rw [Dispatch.settle]
  split
  · exact h
  · rename_i loop hl
    exact h.replace hl _ rfl rfl

theorem LoopsAgree.resume (h : d.LoopsAgree owed) (listeners : Listeners) (id : LoopId) :
    (d.resume listeners id).LoopsAgree owed := by
  rw [Dispatch.resume]
  split
  · exact h
  · rename_i loop hl
    split
    · exact LoopsAgree.round (h.replace hl _ rfl rfl) listeners
    · exact h.finish hl

theorem runChannel_active (listeners : Listeners) (d : Dispatch) (channel : Channel)
    (catchup : Bool) :
    (d.runChannel listeners channel catchup).catchupActive = d.catchupActive := by
  simp only [runChannel, markDirty, round]
  repeat' split
  all_goals rfl

theorem LoopsAgree.take (h : d.LoopsAgree 0) (room : d.catchupActive < catchupConcurrency)
    (channel : Channel) : (d.take channel).LoopsAgree 1 := by
  obtain ⟨h₁, h₂, h₃, h₄, h₅⟩ := h
  refine ⟨h₁, h₂, h₃, ?_, room⟩
  show d.catchupActive + 1 = d.loops.count Loop.catchup + d.releases + 1
  omega

/-- The loop of `pumpCatchup` fills the free slots from the queue. -/
theorem pump_agrees (listeners : Listeners) (queue : List Channel) (h : d.LoopsAgree 0) :
    (pump listeners queue d).LoopsAgree 0 ∧ (pump listeners queue d).Pumped := by
  induction queue generalizing d with
  | nil => exact ⟨h.of_same rfl rfl rfl rfl rfl, fun hne => absurd rfl hne⟩
  | cons channel rest ih =>
      rw [pump]
      split
      · rename_i hroom
        exact ih (LoopsAgree.runChannel true (h.take hroom channel) listeners channel)
      · rename_i hfull
        refine ⟨h.of_same rfl rfl rfl rfl rfl, fun _ => ?_⟩
        exact Nat.le_antisymm h.bounded (Nat.not_lt.mp hfull)

end Dispatch

/-! ## What an event does to the dispatch -/

/-- The moves of the dispatch and its listeners, by the event that makes them;
`hidden` says that the tab is hidden. -/
inductive Moves (l : Listeners) (d : Dispatch) (hidden : Prop) :
    TabEvent → Listeners → Dispatch → Prop
  | same (event : TabEvent) : event ≠ .release → Moves l d hidden event l d
  | cleared (event : TabEvent) :
      (event = .stop ∨ hidden ∧ ∃ now, event = .visibilityEvent now) →
      Moves l d hidden event l d.clear
  | scheduled (now : Nat) (data : Option Json) (frame : LiveFrame) :
      data.bind parseLiveFrame = some frame →
      Moves l d hidden (.source now (.ping data)) l (d.scheduleChannel (frameChannel frame))
  | caughtUp (now : Nat) (data : Option Json) :
      Moves l d hidden (.source now (.hello data)) l (d.enqueueCatchup l)
  | fired (channel : Channel) : channel ∈ d.coalesceTimers →
      Moves l d hidden (.coalesceTimer channel) l (d.coalesceFired l channel)
  | settled (id : LoopId) : Moves l d hidden (.settle id) l (d.settle id)
  | resumed (id : LoopId) : Moves l d hidden (.resume id) l (d.resume l id)
  | released : d.releases ≠ 0 → Moves l d hidden .release l (d.release l)
  | registered (channel : Channel) (listener : ListenerId) :
      Moves l d hidden (.register channel listener)
        ((l.ensure channel).1.add (l.ensure channel).2 listener)
        { d with history := d.history ++ [.registered channel listener] }
  | removed (removal : Removal) : Moves l d hidden (.remove removal) (l.delete removal) d

/-- A handler that touches neither the listeners nor the dispatch. -/
def LiveClient.SameDispatch (c c' : LiveClient) : Prop :=
  c'.listeners = c.listeners ∧ c'.dispatch = c.dispatch

namespace LiveClient

theorem connect_same (c : LiveClient) (visible : Bool) (now : Nat) :
    c.SameDispatch (c.connect visible now) := by
  simp only [connect, SameDispatch]
  repeat' split
  all_goals exact ⟨rfl, rfl⟩

theorem scheduleReconnect_same (c : LiveClient) (extraSpreadMs : Nat) :
    c.SameDispatch (c.scheduleReconnect extraSpreadMs) := by
  simp only [scheduleReconnect, SameDispatch]
  split <;> exact ⟨rfl, rfl⟩

theorem onSubscribeAnswer_same (c : LiveClient) (sent : SentId) (taken : Bool) :
    c.SameDispatch (c.onSubscribeAnswer sent taken) := by
  simp only [onSubscribeAnswer, reportHealth, SameDispatch]
  repeat' split
  all_goals exact ⟨rfl, rfl⟩

theorem start_same (c : LiveClient) (visible : Bool) (now : Nat) :
    c.SameDispatch (c.start visible now) := by
  simp only [start]
  split
  · exact ⟨rfl, rfl⟩
  · exact connect_same { c with stream := { c.stream with
      started := true, watchesVisibility := true, watchdog := true } } visible now

theorem reconnectFired_same (c : LiveClient) (visible : Bool) (now : Nat) :
    c.SameDispatch (c.reconnectFired visible now) :=
  connect_same { c with stream := { c.stream with reconnectTimer := none } } visible now

theorem watchdogTick_same (c : LiveClient) (visible : Bool) (now : Nat) :
    c.SameDispatch (c.watchdogTick visible now) := by
  simp only [watchdogTick]
  split
  · split
    · exact connect_same { c with stream := { c.stream with
        stopped := false, instantCloses := 0, attempt := 0 } } visible now
    · exact ⟨rfl, rfl⟩
  · split
    · exact ⟨rfl, rfl⟩
    · split
      · exact scheduleReconnect_same c.teardown reopenSpreadMs
      · exact ⟨rfl, rfl⟩

theorem onHello_dispatch (c : LiveClient) (now : Nat) (data : Option Json) :
    (c.onHello now data).dispatch =
      if c.stream.everOpened then c.dispatch.enqueueCatchup c.listeners else c.dispatch := rfl

theorem onByeEvent_same (c : LiveClient) (now : Nat) (data : Option Json) :
    c.SameDispatch (c.onByeEvent now data) := by
  simp only [onByeEvent, onBye]
  split
  · exact ⟨rfl, rfl⟩
  · exact ⟨rfl, rfl⟩
  · exact scheduleReconnect_same { c.teardown with
      stream := { c.teardown.stream with instantCloses := 0 } } reopenSpreadMs
  · exact scheduleReconnect_same { c.teardown with
      stream := { c.teardown.stream with instantCloses := 0 } } 0

theorem onError_same (c : LiveClient) (now : Nat) (closed : Bool) :
    c.SameDispatch (c.onError now closed) := by
  simp only [onError]
  split
  · exact ⟨rfl, rfl⟩
  · split
    · split
      · exact ⟨rfl, rfl⟩
      · exact scheduleReconnect_same _ _
    · exact scheduleReconnect_same _ _

end LiveClient

variable {t : Tab} {event : TabEvent}

theorem moves_of_same (t' : Tab) {hidden : Prop} (hne : event ≠ .release)
    (h : t.client.SameDispatch t'.client) :
    Moves t.client.listeners t.client.dispatch hidden event t'.client.listeners
      t'.client.dispatch := by
  rw [h.1, h.2]
  exact .same event hne

theorem moves_source (now : Nat) (event : SourceEvent) :
    Moves t.client.listeners t.client.dispatch (t.visible = false) (.source now event)
      (t.client.onSourceEvent now event).listeners (t.client.onSourceEvent now event).dispatch := by
  cases event with
  | hello data =>
      show Moves _ _ _ _ t.client.listeners (t.client.onHello now data).dispatch
      rw [LiveClient.onHello_dispatch]
      split
      · exact .caughtUp now data
      · exact .same _ (by intro h; cases h)
  | heartbeat data => exact .same _ (by intro h; cases h)
  | bye data =>
      exact moves_of_same (t.withClient (t.client.onByeEvent now data))
        (by intro h; cases h) (LiveClient.onByeEvent_same t.client now data)
  | ping data =>
      simp only [LiveClient.onSourceEvent, LiveClient.onPing]
      cases hframe : data.bind parseLiveFrame with
      | none => exact .same _ (by intro h; cases h)
      | some frame => exact .scheduled now data frame hframe
  | error closed =>
      exact moves_of_same (t.withClient (t.client.onError now closed))
        (by intro h; cases h) (LiveClient.onError_same t.client now closed)

theorem moves_of_step {t' : Tab} (hs : TabStep t event t') :
    Moves t.client.listeners t.client.dispatch (t.visible = false) event t'.client.listeners
      t'.client.dispatch := by
  cases event with
  | start now =>
      cases hs
      exact moves_of_same _ (by intro h; cases h) (LiveClient.start_same _ _ _)
  | stop =>
      cases hs
      simp only [Tab.withClient, LiveClient.stop]
      split
      · exact .same _ (by intro h; cases h)
      · exact .cleared _ (Or.inl rfl)
  | changeVisibility =>
      cases hs
      exact .same _ (by intro h; cases h)
  | visibilityEvent now =>
      obtain ⟨_, rfl⟩ := of_guard hs
      dsimp only
      split
      · simp only [LiveClient.onVisibilityChange]
        split
        · split
          · obtain ⟨hl, hd⟩ := LiveClient.connect_same { t.client with
              stream := { t.client.stream with
                stopped := false, instantCloses := 0, attempt := 0 } } t.visible now
            rw [hl, hd]
            exact .same _ (by intro h; cases h)
          · exact .same _ (by intro h; cases h)
        · rename_i hv
          exact .cleared _ (Or.inr ⟨Bool.eq_false_of_not_eq_true hv, now, rfl⟩)
      · exact .same _ (by intro h; cases h)
  | source now event =>
      obtain ⟨_, rfl⟩ := of_guard hs
      exact moves_source now event
  | reconnectTimer now =>
      obtain ⟨_, rfl⟩ := of_guard hs
      exact moves_of_same _ (by intro h; cases h) (LiveClient.reconnectFired_same _ _ _)
  | watchdog now =>
      obtain ⟨_, rfl⟩ := of_guard hs
      exact moves_of_same _ (by intro h; cases h) (LiveClient.watchdogTick_same _ _ _)
  | coalesceTimer channel =>
      obtain ⟨harmed, rfl⟩ := of_guard hs
      exact .fired channel (Decidable.not_not.mp harmed)
  | settle loop =>
      obtain ⟨_, rfl⟩ := of_guard hs
      exact .settled loop
  | resume loop =>
      obtain ⟨_, rfl⟩ := of_guard hs
      exact .resumed loop
  | release =>
      obtain ⟨hwaiting, rfl⟩ := of_guard hs
      exact .released hwaiting
  | register channel listener =>
      cases hs
      simp only [LiveClient.register]
      split <;> exact .registered channel listener
  | remove removal =>
      obtain ⟨_, rfl⟩ := of_guard hs
      simp only [Tab.withClient, LiveClient.remove]
      split <;> exact .removed removal
  | syncMicrotask | subscribeRetryTimer =>
      obtain ⟨_, rfl⟩ := of_guard hs
      exact .same _ (by intro h; cases h)
  | answer sent taken =>
      cases hs
      exact moves_of_same _ (by intro h; cases h) (LiveClient.onSubscribeAnswer_same _ _ _)

/-! ## Over runs -/

namespace Dispatch

/-- The dispatch of a client between two events. -/
structure Sound (d : Dispatch) : Prop where
  loops : d.LoopsAgree 0
  pumped : d.Pumped

variable {d : Dispatch} {d' : Dispatch}

theorem Sound.sameQueue (h : d.Sound) (loops : d'.LoopsAgree 0)
    (queue : d'.catchupQueue = d.catchupQueue) (active : d'.catchupActive = d.catchupActive) :
    d'.Sound := by
  refine ⟨loops, ?_⟩
  rw [Pumped, queue, active]
  exact h.pumped

theorem Sound.enqueueCatchup (h : d.Sound) (listeners : Listeners) :
    (d.enqueueCatchup listeners).Sound := by
  have hp := pump_agrees listeners ((catchupChannels listeners).foldl enqueue d.catchupQueue)
    (d := { d with catchupQueue := (catchupChannels listeners).foldl enqueue d.catchupQueue })
    (h.loops.of_same rfl rfl rfl rfl rfl)
  exact ⟨hp.1, hp.2⟩

theorem Sound.release (h : d.Sound) (waiting : d.releases ≠ 0) (listeners : Listeners) :
    (d.release listeners).Sound := by
  obtain ⟨h₁, h₂, h₃, h₄, h₅⟩ := h.loops
  have hless : LoopsAgree { d with
      releases := d.releases - 1, catchupActive := d.catchupActive - 1 } 0 := by
    refine ⟨h₁, h₂, h₃, ?_, ?_⟩
    · show d.catchupActive - 1 = d.loops.count Loop.catchup + (d.releases - 1) + 0
      omega
    · show d.catchupActive - 1 ≤ catchupConcurrency
      omega
  have hp := pump_agrees listeners d.catchupQueue hless
  exact ⟨hp.1, hp.2⟩

theorem resume_active (listeners : Listeners) (d : Dispatch) (id : LoopId) :
    (d.resume listeners id).catchupActive = d.catchupActive := by
  simp only [resume, round]
  repeat' split
  all_goals rfl

theorem settle_active (d : Dispatch) (id : LoopId) :
    (d.settle id).catchupActive = d.catchupActive := by
  rw [settle]
  split <;> rfl

theorem Sound.move {l l' : Listeners} {hidden : Prop} {event : TabEvent}
    (hm : Moves l d hidden event l' d') (h : d.Sound) : d'.Sound := by
  cases hm with
  | same event hne => exact h
  | cleared event how =>
      exact ⟨h.loops.of_same rfl rfl rfl rfl rfl, fun hne => absurd rfl hne⟩
  | scheduled now data frame hframe =>
      exact h.sameQueue (h.loops.of_same rfl rfl rfl rfl rfl) rfl rfl
  | caughtUp now data => exact h.enqueueCatchup l
  | fired channel armed =>
      have hcleared : LoopsAgree { d with
          coalesceTimers := d.coalesceTimers.erase channel } 0 :=
        h.loops.of_same rfl rfl rfl rfl rfl
      refine h.sameQueue (LoopsAgree.runChannel false hcleared l channel) ?_ ?_
      · rw [coalesceFired, (runChannel_waiting _ _ _ _).queue]
      · rw [coalesceFired, runChannel_active]
  | settled id =>
      exact h.sameQueue (h.loops.settle id) (settle_waiting d id).queue (settle_active d id)
  | resumed id =>
      exact h.sameQueue (h.loops.resume l id) (resume_waiting l d id).queue
        (resume_active l d id)
  | released waiting => exact h.release waiting l
  | registered channel listener =>
      exact h.sameQueue (h.loops.of_same rfl rfl rfl rfl rfl) rfl rfl
  | removed removal => exact h

end Dispatch

theorem sound_reachable (h : Reachable Tab.Initial TabStep t) : t.client.dispatch.Sound := by
  refine h.invariant (P := fun t => t.client.dispatch.Sound) ?_ ?_
  · intro t h
    obtain ⟨visible, ht⟩ := h
    rw [ht]
    refine ⟨⟨?_, ?_, ?_, rfl, Nat.zero_le _⟩, fun hne => absurd rfl hne⟩
    · intro channel id hid
      cases hid
    · intro id loop hl
      cases hl
    · intro id loop hl
      cases hl
  · intro t event t' hs hd
    exact hd.move (moves_of_step hs)

end Sinnlos.Live

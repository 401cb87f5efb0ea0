import Sinnlos.Live.Tab

/-! # The live client is never stuck disconnected

One invariant over everything that can happen to the tab: an unstopped client
of a visible tab holds a source or an armed reconnect, a hidden one holds
nothing, and a stopped one has no source. A handler of the open source ends in
one of two ways, and no other event can close it for good.
-/

namespace Sinnlos.Live
open Sinnlos.Runs

/-- Nothing runs or waits on behalf of the tab. -/
structure LiveClient.Asleep (c : LiveClient) : Prop where
  source : c.stream.source = none
  reconnect : c.stream.reconnectTimer = none
  timers : c.dispatch.coalesceTimers = ∅
  queue : c.dispatch.catchupQueue = []

/-- The stream part of a client whose tab is `visible`; `settled` says that no
visibility event is outstanding. -/
structure LiveClient.Connected (c : LiveClient) (visible : Bool) (settled : Prop) : Prop where
  watches : c.stream.watchesVisibility = c.stream.started
  idle : c.stream.started = false → c.Asleep
  stopped : c.stream.stopped = true → c.stream.source = none
  alive : c.stream.started = true → visible = true → settled → c.stream.stopped = false →
    c.stream.source.isSome ∨ c.stream.reconnectTimer.isSome
  hidden : visible = false → settled → c.Asleep

def Tab.Connected (t : Tab) : Prop := t.client.Connected t.visible (t.pendingVisibility = 0)

namespace LiveClient

variable {c c' : LiveClient} {visible : Bool} {settled : Prop}

theorem Asleep.of_stream (h : c.Asleep) (stream : c'.stream = c.stream)
    (timers : c'.dispatch.coalesceTimers = ∅) (queue : c'.dispatch.catchupQueue = []) : c'.Asleep :=
  ⟨stream ▸ h.source, stream ▸ h.reconnect, timers, queue⟩

/-- A change that leaves the stream alone and wakes nobody. -/
theorem Connected.of_stream (h : c.Connected visible settled) (stream : c'.stream = c.stream)
    (sleeps : c.Asleep → c'.Asleep) : c'.Connected visible settled := by
  obtain ⟨watches, idle, stopped, alive, hidden⟩ := h
  refine ⟨?_, ?_, ?_, ?_, fun hv hs => sleeps (hidden hv hs)⟩
  · rw [stream]
    exact watches
  · rw [stream]
    exact fun hn => sleeps (idle hn)
  · rw [stream]
    exact stopped
  · rw [stream]
    exact alive

/-- How a handler of the open source can leave the client. -/
def Handled (c c' : LiveClient) : Prop :=
  c'.stream.started = c.stream.started ∧
  c'.stream.watchesVisibility = c.stream.watchesVisibility ∧
  ((c'.stream.source.isSome ∧ c'.stream.stopped = c.stream.stopped) ∨
    (c'.stream.source = none ∧
      (c'.stream.stopped = true ∨ c'.stream.reconnectTimer.isSome)))

theorem Connected.handled (h : c.Connected visible settled) (isOpen : c.stream.source.isSome)
    (hc : Handled c c') : c'.Connected visible settled := by
  obtain ⟨hstarted, hwatches, hend⟩ := hc
  have awake : ¬ c.Asleep := by
    intro hsleep
    rw [hsleep.source] at isOpen
    cases isOpen
  have running : c.stream.stopped = false := by
    cases hstop : c.stream.stopped with
    | false => rfl
    | true =>
        rw [h.stopped hstop] at isOpen
        cases isOpen
  refine ⟨?_, ?_, ?_, ?_, fun hv hs => absurd (h.hidden hv hs) awake⟩
  · rw [hstarted, hwatches]
    exact h.watches
  · rw [hstarted]
    exact fun hn => absurd (h.idle hn) awake
  · intro hstop
    rcases hend with ⟨_, hsame⟩ | ⟨hnone, _⟩
    · rw [hsame, running] at hstop
      cases hstop
    · exact hnone
  · intro _ _ _ hgo
    rcases hend with ⟨hsome, _⟩ | ⟨_, hstop | htimer⟩
    · exact Or.inl hsome
    · rw [hstop] at hgo
      cases hgo
    · exact Or.inr htimer

/-! ## The handlers of the open source -/

theorem scheduleReconnect_spec (c : LiveClient) (extraSpreadMs : Nat) :
    (c.scheduleReconnect extraSpreadMs).stream.started = c.stream.started ∧
    (c.scheduleReconnect extraSpreadMs).stream.watchesVisibility = c.stream.watchesVisibility ∧
    (c.scheduleReconnect extraSpreadMs).stream.source = c.stream.source ∧
    (c.scheduleReconnect extraSpreadMs).stream.stopped = c.stream.stopped ∧
    (c.stream.stopped = true ∨
      (c.scheduleReconnect extraSpreadMs).stream.reconnectTimer.isSome) := by
  simp only [scheduleReconnect]
  split
  · rename_i hskip
    refine ⟨rfl, rfl, rfl, rfl, ?_⟩
    simpa using hskip
  · exact ⟨rfl, rfl, rfl, rfl, Or.inr rfl⟩

/-- Closing the source and scheduling the next attempt is an end. -/
theorem handled_of_closed {c₁ : LiveClient} {extraSpreadMs : Nat}
    (started : c₁.stream.started = c.stream.started)
    (watches : c₁.stream.watchesVisibility = c.stream.watchesVisibility)
    (closed : c₁.stream.source = none) : Handled c (c₁.scheduleReconnect extraSpreadMs) := by
  obtain ⟨h₁, h₂, h₃, h₄, h₅⟩ := scheduleReconnect_spec c₁ extraSpreadMs
  refine ⟨h₁.trans started, h₂.trans watches, Or.inr ⟨h₃.trans closed, ?_⟩⟩
  rw [h₄]
  exact h₅

theorem onHello_handled (c : LiveClient) (now : Nat) (data : Option Json)
    (isOpen : c.stream.source.isSome) : Handled c (c.onHello now data) :=
  ⟨rfl, rfl, Or.inl ⟨isOpen, rfl⟩⟩

theorem onPing_stream (c : LiveClient) (now : Nat) (data : Option Json) :
    (c.onPing now data).stream = { c.stream with lastBeat := now } := by
  simp only [onPing]
  split <;> rfl

theorem onPing_handled (c : LiveClient) (now : Nat) (data : Option Json)
    (isOpen : c.stream.source.isSome) : Handled c (c.onPing now data) := by
  rw [Handled, onPing_stream]
  exact ⟨rfl, rfl, Or.inl ⟨isOpen, rfl⟩⟩

theorem onByeEvent_handled (c : LiveClient) (now : Nat) (data : Option Json) :
    Handled c (c.onByeEvent now data) := by
  simp only [onByeEvent, onBye]
  split
  · exact ⟨rfl, rfl, Or.inr ⟨rfl, Or.inl rfl⟩⟩
  · exact ⟨rfl, rfl, Or.inr ⟨rfl, Or.inl rfl⟩⟩
  · exact handled_of_closed rfl rfl rfl
  · exact handled_of_closed rfl rfl rfl

theorem onError_handled (c : LiveClient) (now : Nat) (closed : Bool)
    (isOpen : c.stream.source.isSome) : Handled c (c.onError now closed) := by
  simp only [onError]
  split
  · exact ⟨rfl, rfl, Or.inl ⟨isOpen, rfl⟩⟩
  · split
    · split
      · exact ⟨rfl, rfl, Or.inr ⟨rfl, Or.inl rfl⟩⟩
      · exact handled_of_closed rfl rfl rfl
    · exact handled_of_closed rfl rfl rfl

theorem onSourceEvent_handled (c : LiveClient) (now : Nat) (event : SourceEvent)
    (isOpen : c.stream.source.isSome) : Handled c (c.onSourceEvent now event) := by
  cases event with
  | hello data => exact onHello_handled c now data isOpen
  | heartbeat data => exact ⟨rfl, rfl, Or.inl ⟨isOpen, rfl⟩⟩
  | bye data => exact onByeEvent_handled c now data
  | ping data => exact onPing_handled c now data isOpen
  | error closed => exact onError_handled c now closed isOpen

/-! ## Connecting -/

/-- An attempt changes nothing, or there is a source. -/
theorem connect_cases (c : LiveClient) (visible : Bool) (now : Nat) :
    (c.connect visible now = c ∧
      (c.stream.started = true → visible = true → c.stream.stopped = false →
        c.stream.source.isSome)) ∨
    (c.stream.started = true ∧ visible = true ∧ c.stream.stopped = false ∧
      (c.connect visible now).stream.source.isSome ∧
      (c.connect visible now).stream.started = c.stream.started ∧
      (c.connect visible now).stream.watchesVisibility = c.stream.watchesVisibility ∧
      (c.connect visible now).stream.stopped = c.stream.stopped) := by
  simp only [connect]
  split
  · rename_i hoff
    left
    refine ⟨rfl, ?_⟩
    intro hstarted _ hgo
    simp [hstarted, hgo] at hoff
  · rename_i hon
    split
    · rename_i hhidden
      left
      refine ⟨rfl, ?_⟩
      intro _ hvisible _
      simp [hvisible] at hhidden
    · rename_i hvisible
      split
      · rename_i hsource
        exact Or.inl ⟨rfl, fun _ _ _ => hsource⟩
      · simp only [Bool.or_eq_true, Bool.not_eq_true', not_or, Bool.not_eq_false,
          Bool.not_eq_true] at hon hvisible
        exact Or.inr ⟨hon.1, hvisible, hon.2, rfl, rfl, rfl, rfl⟩

/-- An attempt of a client that is asleep where the tab is hidden. -/
theorem connected_connect (now : Nat) (watches : c.stream.watchesVisibility = c.stream.started)
    (idle : c.stream.started = false → c.Asleep)
    (stopped : c.stream.stopped = true → c.stream.source = none)
    (hidden : visible = false → settled → c.Asleep) :
    (c.connect visible now).Connected visible settled := by
  rcases connect_cases c visible now with ⟨hsame, hopen⟩ | hnew
  · rw [hsame]
    exact ⟨watches, idle, stopped,
      fun hstarted hvisible _ hgo => Or.inl (hopen hstarted hvisible hgo), hidden⟩
  · obtain ⟨hstarted, hvisible, hgo, hsource, hstarted', hwatches', hstopped'⟩ := hnew
    refine ⟨?_, ?_, ?_, fun _ _ _ _ => Or.inl hsource, ?_⟩
    · rw [hwatches', hstarted']
      exact watches
    · intro hn
      rw [hstarted', hstarted] at hn
      cases hn
    · intro hs
      rw [hstopped', hgo] at hs
      cases hs
    · intro hv
      rw [hvisible] at hv
      cases hv

theorem Connected.reconnectFired (h : c.Connected visible settled)
    (armed : c.stream.reconnectTimer.isSome) (now : Nat) :
    (c.reconnectFired visible now).Connected visible settled := by
  have awake : ¬ c.Asleep := by
    intro hsleep
    rw [hsleep.reconnect] at armed
    cases armed
  rw [LiveClient.reconnectFired]
  exact connected_connect now h.watches (fun hn => absurd (h.idle hn) awake) h.stopped
    (fun hv hs => absurd (h.hidden hv hs) awake)

theorem Connected.watchdogTick (h : c.Connected visible settled) (now : Nat) :
    (c.watchdogTick visible now).Connected visible settled := by
  simp only [LiveClient.watchdogTick]
  split
  · rename_i hstop
    split
    · refine connected_connect now h.watches (fun hn => ?_) (fun _ => h.stopped hstop)
        (fun hv hs => ?_)
      · obtain ⟨h₁, h₂, h₃, h₄⟩ := h.idle hn
        exact ⟨h₁, h₂, h₃, h₄⟩
      · obtain ⟨h₁, h₂, h₃, h₄⟩ := h.hidden hv hs
        exact ⟨h₁, h₂, h₃, h₄⟩
    · exact h
  · split
    · exact h
    · rename_i hsource
      split
      · refine h.handled ?_ (handled_of_closed rfl rfl rfl)
        rw [← Option.not_isNone, Bool.not_eq_true']
        exact Bool.eq_false_of_not_eq_true hsource
      · exact h

theorem Connected.start (h : c.Connected visible settled) (now : Nat) :
    (c.start visible now).Connected visible settled := by
  simp only [LiveClient.start]
  split
  · exact h
  · rename_i hoff
    obtain ⟨h₁, h₂, h₃, h₄⟩ := h.idle (Bool.eq_false_of_not_eq_true hoff)
    exact connected_connect now rfl (fun hn => by cases hn) (fun _ => h₁)
      (fun _ _ => ⟨h₁, h₂, h₃, h₄⟩)

theorem Connected.stop (h : c.Connected visible settled) : c.stop.Connected visible settled := by
  simp only [LiveClient.stop]
  split
  · exact h
  · exact ⟨rfl, fun _ => ⟨rfl, rfl, rfl, rfl⟩, fun _ => rfl, fun hn => (by cases hn),
      fun _ _ => ⟨rfl, rfl, rfl, rfl⟩⟩

variable {after : Prop}

/-- The handled event settles the visibility it finds. -/
theorem Connected.onVisibilityChange (h : c.Connected visible settled)
    (watching : c.stream.watchesVisibility = true) (now : Nat) :
    (c.onVisibilityChange visible now).Connected visible after := by
  have hstarted : c.stream.started = true := h.watches ▸ watching
  cases visible with
  | false =>
      refine ⟨h.watches, ?_, fun _ => rfl, fun _ hv => (by cases hv),
        fun _ _ => ⟨rfl, rfl, rfl, rfl⟩⟩
      exact fun _ => ⟨rfl, rfl, rfl, rfl⟩
  | true =>
      simp only [LiveClient.onVisibilityChange, if_true]
      split
      · rename_i hnone
        refine connected_connect now h.watches (fun hn => ?_) (fun hs => by cases hs)
          (fun hv => by cases hv)
        have hoff : c.stream.started = false := hn
        rw [hstarted] at hoff
        cases hoff
      · rename_i hsome
        refine ⟨h.watches, fun hn => ?_, fun hs => (by cases hs), fun _ _ _ _ => Or.inl ?_,
          fun hv => by cases hv⟩
        · have hoff : c.stream.started = false := hn
          rw [hstarted] at hoff
          cases hoff
        · rw [← Option.not_isNone, Bool.not_eq_true']
          exact Bool.eq_false_of_not_eq_true hsome

/-- Without a subscription the event passes the client by: it sleeps. -/
theorem Connected.unwatched (h : c.Connected visible settled)
    (unwatched : c.stream.watchesVisibility = false) : c.Connected visible after := by
  have hoff : c.stream.started = false := h.watches ▸ unwatched
  refine ⟨h.watches, h.idle, h.stopped, fun hn => ?_, fun _ _ => h.idle hoff⟩
  rw [hoff] at hn
  cases hn

end LiveClient

/-! ## Every event -/

variable {c : LiveClient} {t t' : Tab} {visible : Bool} {settled : Prop} {event : TabEvent}

/-- A dispatch step that keeps an empty queue and no timers. -/
theorem connected_onDispatch (h : c.Connected visible settled) (d : Dispatch)
    (timers : c.dispatch.coalesceTimers = ∅ → d.coalesceTimers = ∅)
    (queue : c.dispatch.catchupQueue = [] → d.catchupQueue = []) :
    (c.onDispatch d).Connected visible settled :=
  h.of_stream rfl fun hs => ⟨hs.source, hs.reconnect, timers hs.timers, queue hs.queue⟩

theorem connected_sameWaiting (h : c.Connected visible settled) {d : Dispatch}
    (hd : c.dispatch.SameWaiting d) : (c.onDispatch d).Connected visible settled :=
  connected_onDispatch h d (fun ht => hd.timers.trans ht) (fun hq => hd.queue.trans hq)

theorem connected_step (hs : TabStep t event t') (h : t.Connected) : t'.Connected := by
  rw [Tab.Connected] at h
  cases event with
  | start now =>
      cases hs
      exact h.start now
  | stop =>
      cases hs
      exact h.stop
  | changeVisibility =>
      cases hs
      have never : ¬ t.pendingVisibility + 1 = 0 := Nat.succ_ne_zero _
      exact ⟨h.watches, h.idle, h.stopped, fun _ _ hp => absurd hp never,
        fun _ hp => absurd hp never⟩
  | visibilityEvent now =>
      obtain ⟨_, rfl⟩ := of_guard hs
      show LiveClient.Connected (if t.client.stream.watchesVisibility = true then _ else _) _ _
      split
      · exact h.onVisibilityChange (by assumption) now
      · exact h.unwatched (Bool.eq_false_of_not_eq_true (by assumption))
  | source now event =>
      obtain ⟨hopen, rfl⟩ := of_guard hs
      have isOpen : t.client.stream.source.isSome := by
        rw [← Option.not_isNone, Bool.not_eq_true']
        exact Bool.eq_false_of_not_eq_true hopen
      exact h.handled isOpen (LiveClient.onSourceEvent_handled _ now event isOpen)
  | reconnectTimer now =>
      obtain ⟨harmed, rfl⟩ := of_guard hs
      have armed : t.client.stream.reconnectTimer.isSome := by
        rw [← Option.not_isNone, Bool.not_eq_true']
        exact Bool.eq_false_of_not_eq_true harmed
      exact h.reconnectFired armed now
  | watchdog now =>
      obtain ⟨_, rfl⟩ := of_guard hs
      exact h.watchdogTick now
  | coalesceTimer channel =>
      obtain ⟨harmed, rfl⟩ := of_guard hs
      -- a sleeping client has no timer that could fire
      refine connected_onDispatch h _ (fun ht => ?_) (fun hq => ?_)
      · rw [ht] at harmed
        exact absurd (Finset.notMem_empty channel) harmed
      · rw [Dispatch.coalesceFired]
        exact (Dispatch.runChannel_waiting _ _ _ _).queue.trans hq
  | settle loop =>
      obtain ⟨_, rfl⟩ := of_guard hs
      exact connected_sameWaiting h (Dispatch.settle_waiting _ loop)
  | resume loop =>
      obtain ⟨_, rfl⟩ := of_guard hs
      exact connected_sameWaiting h (Dispatch.resume_waiting _ _ loop)
  | release =>
      obtain ⟨_, rfl⟩ := of_guard hs
      refine connected_onDispatch h _ (fun ht => ?_) (fun hq => ?_)
      · rw [Dispatch.release, Dispatch.pumpCatchup, Dispatch.pump_timers]
        exact ht
      · rw [Dispatch.release, Dispatch.pumpCatchup_empty]
        · exact hq
        · exact hq
  | register channel listener =>
      cases hs
      have hd := LiveClient.register_waiting t.client channel listener
      exact h.of_stream (LiveClient.register_stream _ _ _) fun hsleep =>
        hsleep.of_stream (LiveClient.register_stream _ _ _) (hd.timers.trans hsleep.timers)
          (hd.queue.trans hsleep.queue)
  | remove removal =>
      obtain ⟨_, rfl⟩ := of_guard hs
      have hd := LiveClient.remove_dispatch t.client removal
      exact h.of_stream (LiveClient.remove_stream _ _) fun hsleep =>
        hsleep.of_stream (LiveClient.remove_stream _ _) (hd ▸ hsleep.timers)
          (hd ▸ hsleep.queue)
  | syncMicrotask | subscribeRetryTimer =>
      obtain ⟨_, rfl⟩ := of_guard hs
      exact h.of_stream rfl fun hsleep => hsleep.of_stream rfl hsleep.timers hsleep.queue
  | answer sent taken =>
      cases hs
      have hd := LiveClient.onSubscribeAnswer_dispatch t.client sent taken
      exact h.of_stream (LiveClient.onSubscribeAnswer_stream _ _ _) fun hsleep =>
        hsleep.of_stream (LiveClient.onSubscribeAnswer_stream _ _ _) (hd ▸ hsleep.timers)
          (hd ▸ hsleep.queue)

theorem loaded_connected (visible : Bool) : (Tab.loaded visible).Connected :=
  ⟨rfl, fun _ => ⟨rfl, rfl, rfl, rfl⟩, fun hs => (by cases hs), fun hn => (by cases hn),
    fun _ _ => ⟨rfl, rfl, rfl, rfl⟩⟩

theorem connected_reachable (h : Reachable Tab.Initial TabStep t) : t.Connected := by
  refine h.invariant ?_ ?_
  · intro t h
    obtain ⟨visible, ht⟩ := h
    rw [ht]
    exact loaded_connected visible
  · intro t event t' hs hc
    exact connected_step hs hc

/-! ## A stop that the server asked for -/

/-- Stopped, and not for the watchdog to end. -/
def LiveClient.Parked (c : LiveClient) : Prop :=
  c.stream.stopped = true ∧ c.stream.selfHeal = false

theorem LiveClient.Parked.of_stream {c' : LiveClient} (h : c.Parked)
    (stream : c'.stream = c.stream) : c'.Parked := by
  rw [Parked, stream]
  exact h

theorem LiveClient.Parked.connect (h : c.Parked) (visible : Bool) (now : Nat) :
    (c.connect visible now).Parked := by
  have hsame : c.connect visible now = c := by
    simp only [LiveClient.connect, h.1, Bool.or_true, if_true]
  rw [hsame]
  exact h

theorem onByeEvent_parked (c : LiveClient) (now : Nat) {data : Option Json}
    (reason : data.bind parseByeFrame = some .evicted ∨ data.bind parseByeFrame = some .expired) :
    (c.onByeEvent now data).Parked := by
  rcases reason with hreason | hreason
  · rw [LiveClient.onByeEvent, hreason]
    exact ⟨rfl, rfl⟩
  · rw [LiveClient.onByeEvent, hreason]
    exact ⟨rfl, rfl⟩

/-- Only the event of a visible tab ends such a stop. -/
theorem parked_step (hs : TabStep t event t') (hc : t.Connected) (h : t.client.Parked) :
    t'.client.Parked ∨ ∃ now, event = .visibilityEvent now ∧ t.visible = true := by
  cases event with
  | visibilityEvent now =>
      obtain ⟨_, rfl⟩ := of_guard hs
      cases hv : t.visible with
      | true => exact Or.inr ⟨now, rfl, rfl⟩
      | false =>
          left
          show LiveClient.Parked (if t.client.stream.watchesVisibility = true then _ else _)
          split
          · exact h
          · exact h
  | start now =>
      cases hs
      left
      simp only [Tab.withClient, LiveClient.start]
      split
      · exact h
      · refine LiveClient.Parked.connect ?_ _ _
        exact ⟨h.1, h.2⟩
  | stop =>
      cases hs
      left
      simp only [Tab.withClient, LiveClient.stop]
      split
      · exact h
      · exact ⟨h.1, h.2⟩
  | changeVisibility =>
      cases hs
      exact Or.inl h
  | source now event =>
      simp only [TabStep, Tab.step, hc.stopped h.1, Option.isNone_none, if_true] at hs
      cases hs
  | reconnectTimer now =>
      obtain ⟨_, rfl⟩ := of_guard hs
      left
      refine LiveClient.Parked.connect ?_ _ _
      exact ⟨h.1, h.2⟩
  | watchdog now =>
      obtain ⟨_, rfl⟩ := of_guard hs
      left
      simp only [Tab.withClient, LiveClient.watchdogTick, h.1, h.2, Bool.false_and,
        Bool.false_eq_true, if_true, if_false]
      exact h
  | coalesceTimer channel | settle loop | resume loop | release =>
      obtain ⟨_, rfl⟩ := of_guard hs
      exact Or.inl h
  | register channel listener =>
      cases hs
      exact Or.inl (h.of_stream (LiveClient.register_stream _ _ _))
  | remove removal =>
      obtain ⟨_, rfl⟩ := of_guard hs
      exact Or.inl (h.of_stream (LiveClient.remove_stream _ _))
  | syncMicrotask | subscribeRetryTimer =>
      obtain ⟨_, rfl⟩ := of_guard hs
      exact Or.inl h
  | answer sent taken =>
      cases hs
      exact Or.inl (h.of_stream (LiveClient.onSubscribeAnswer_stream _ _ _))

/-- A parked client that is no longer parked met a visibility event of a
visible tab. -/
theorem exists_visible_of_unparked {labels : List TabEvent} (hr : Run TabStep t labels t')
    (hc : t.Connected) (h : t.client.Parked) (ended : t'.client.stream.stopped = false) :
    ∃ u now w, .visibilityEvent now ∈ labels ∧ TabStep u (.visibilityEvent now) w ∧
      u.visible = true ∧ u.client.Parked ∧ ¬ w.client.Parked := by
  have hend : ¬ (t'.Connected ∧ t'.client.Parked) := by
    intro hboth
    rw [hboth.2.1] at ended
    cases ended
  obtain ⟨u, event, w, hmem, hs, hu, hw⟩ :=
    hr.exists_ending_step (P := fun t => t.Connected ∧ t.client.Parked) ⟨hc, h⟩ hend
  have hfree : ¬ w.client.Parked := fun hp => hw ⟨connected_step hs hu.1, hp⟩
  rcases parked_step hs hu.1 hu.2 with hp | ⟨now, hevent, hvisible⟩
  · exact absurd hp hfree
  · subst hevent
    exact ⟨u, now, w, hmem, hs, hvisible, hu.2, hfree⟩

/-- In every reachable state an unstopped client of a visible tab has a source
or an armed reconnect, a hidden tab runs nothing, and the stop after an
eviction or an expired session ends by the tab becoming visible alone. -/
theorem never_stuck_disconnected {t : Tab} (h : Reachable Tab.Initial TabStep t) :
    (t.client.stream.started = true → t.visible = true → t.pendingVisibility = 0 →
      t.client.stream.stopped = false →
      t.client.stream.source.isSome ∨ t.client.stream.reconnectTimer.isSome) ∧
    (t.visible = false → t.pendingVisibility = 0 →
      t.client.stream.source = none ∧ t.client.stream.reconnectTimer = none ∧
      t.client.dispatch.coalesceTimers = ∅ ∧ t.client.dispatch.catchupQueue = []) ∧
    ∀ now data t₁ labels t₂,
      (data.bind parseByeFrame = some .evicted ∨ data.bind parseByeFrame = some .expired) →
      TabStep t (.source now (.bye data)) t₁ → Run TabStep t₁ labels t₂ →
      t₁.client.stream.stopped = true ∧
      (t₂.client.stream.stopped = false →
        ∃ u later w, .visibilityEvent later ∈ labels ∧ TabStep u (.visibilityEvent later) w ∧
          u.visible = true ∧ u.client.Parked ∧ ¬ w.client.Parked) := by
  have hc := connected_reachable h
  refine ⟨hc.alive, ?_, ?_⟩
  · intro hv hp
    obtain ⟨h₁, h₂, h₃, h₄⟩ := hc.hidden hv hp
    exact ⟨h₁, h₂, h₃, h₄⟩
  · intro now data t₁ labels t₂ reason hs hr
    have hc₁ := connected_step hs hc
    obtain ⟨_, rfl⟩ := of_guard hs
    have hp := onByeEvent_parked t.client now reason
    exact ⟨hp.1, fun ended => exists_visible_of_unparked hr hc₁ hp ended⟩

/-- A visible tab that was started holds its source. -/
theorem never_stuck_disconnected_started :
    ∃ t, Reachable Tab.Initial TabStep t ∧ t.client.stream.started = true ∧
      (t.client.stream.source.isSome ∨ t.client.stream.reconnectTimer.isSome) := by
  have hs : TabStep (.loaded true) (.start 0)
      ((Tab.loaded true).withClient (LiveClient.new.start true 0)) := rfl
  have hr := Reachable.next (Reachable.refl Tab.Initial ⟨true, rfl⟩) hs
  exact ⟨_, hr, rfl, (never_stuck_disconnected hr).1 rfl rfl rfl rfl⟩

end Sinnlos.Live

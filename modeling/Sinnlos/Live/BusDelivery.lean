import Sinnlos.Live.BusCaps

/-! # Delivery on the live bus

The frames of a publish, event by event: each event is written once to every
connection that is owed it at the event's turn, and a refused write drops that
connection and no other.
-/

namespace Sinnlos.Live.LiveBus
open Sinnlos.Runs

/-- One written frame. -/
abbrev Written := ConnId × LiveFrame

def frames (written : List Written) : List Output := written.map fun w => .frame w.1 w.2

/-- The frames of `event` on `bus`: to whom and which. -/
structure Delivers (bus : LiveBus) (event : LiveEvent) (written : List Written) : Prop where
  once : (written.map Prod.fst).Nodup
  content : ∀ targetType targetDocumentId, event = .content targetType targetDocumentId →
    ∀ connId frame, (connId, frame) ∈ written ↔
      ∃ conn channel, bus.connections.get? connId = some conn ∧
        channelFor targetType targetDocumentId = some channel ∧ channel ∈ conn.channels ∧
        frame = .content channel
  notification : ∀ recipientId, event = .notification recipientId →
    ∀ connId frame, (connId, frame) ∈ written ↔
      ∃ conn, bus.connections.get? connId = some conn ∧ conn.userId = recipientId ∧
        frame = .notification
  announcements : event = .announcements →
    ∀ connId frame, (connId, frame) ∈ written ↔
      (∃ conn, bus.connections.get? connId = some conn) ∧ frame = .announcements
  keepalive : event = .keepalive → written = []

/-- The stream of `connId` refused one of these writes. -/
def Refused (accepts : Accepts) (log : List Output) : List Written → ConnId → Prop
  | [], _ => False
  | w :: rest, connId =>
      (connId = w.1 ∧ accepts (log ++ [.frame w.1 w.2]) w.1 = false) ∨
        Refused accepts (log ++ [.frame w.1 w.2]) rest connId

/-- After the writes the table lacks the refusing connections and is otherwise
the one before. -/
def Survives (accepts : Accepts) (bus : LiveBus) (log : List Output) (written : List Written)
    (bus' : LiveBus) : Prop :=
  (∀ connId, bus'.connections.get? connId = none ↔
    bus.connections.get? connId = none ∨ Refused accepts log written connId) ∧
  ∀ connId conn, bus'.connections.get? connId = some conn →
    bus.connections.get? connId = some conn

/-- The events of a publish in turn, each on the table the one before left. -/
inductive Delivery (accepts : Accepts) :
    LiveBus → List Output → List LiveEvent → LiveBus → List Output → Prop
  | nil {bus bus' : LiveBus} {log : List Output} :
      bus'.connections = bus.connections → Delivery accepts bus log [] bus' log
  | cons {bus bus' last : LiveBus} {log logged : List Output} {event : LiveEvent}
      {events : List LiveEvent} {written : List Written} :
      Delivers bus event written → Survives accepts bus log written bus' →
      Delivery accepts bus' (log ++ frames written) events last logged →
      Delivery accepts bus log (event :: events) last logged

/-! ## One event -/

/-- What the loop writes at the place of `connId`. -/
def owed (bus : LiveBus) (event : LiveEvent) (connId : ConnId) : Option Written :=
  (bus.connections.get? connId).bind fun conn => (frameFor event conn).map (connId, ·)

variable {bus bus' last : LiveBus} {event : LiveEvent} {connId : ConnId} {w : Written}
  {accepts : Accepts} {log logged : List Output} {frame : LiveFrame} {events : List LiveEvent}

theorem owed_eq_some :
    owed bus event connId = some w ↔
      ∃ conn, bus.connections.get? connId = some conn ∧ frameFor event conn = some w.2 ∧
        w.1 = connId := by
  simp only [owed, Option.bind_eq_some_iff, Option.map_eq_some_iff]
  constructor
  · intro h
    obtain ⟨conn, hc, frame, hf, hw⟩ := h
    subst hw
    exact ⟨conn, hc, hf, rfl⟩
  · intro h
    obtain ⟨conn, hc, hf, hw⟩ := h
    exact ⟨conn, hc, w.2, hf, by rw [← hw]⟩

theorem owed_drop {id : ConnId} (h : connId ≠ id) :
    owed (bus.drop id) event connId = owed bus event connId := by
  rw [owed, owed, LiveBus.drop, OrderedMap.get?_erase_of_ne _ h]

theorem survives_nil (bus' : LiveBus) (h : bus'.connections = bus.connections) :
    Survives accepts bus log [] bus' := by
  rw [Survives, h]
  refine ⟨?_, fun _ _ hc => hc⟩
  intro connId
  simp only [Refused, or_false]

variable {rest : List Written} {ids : List ConnId} {conn : Connection}

/-- An accepted write leaves the table to the later ones. -/
theorem Survives.accepted (bus₁ : LiveBus) (same : bus₁.connections = bus.connections)
    (ok : accepts (log ++ [.frame w.1 w.2]) w.1 = true)
    (h : Survives accepts bus₁ (log ++ [.frame w.1 w.2]) rest bus') :
    Survives accepts bus log (w :: rest) bus' := by
  rw [Survives, same] at h
  refine ⟨?_, h.2⟩
  intro connId
  simp only [h.1 connId, Refused, ok, Bool.true_eq_false, and_false, false_or]

/-- A refused write drops its connection before the later ones. -/
theorem Survives.refused (no : accepts (log ++ [.frame w.1 w.2]) w.1 = false)
    (h : Survives accepts (bus.drop w.1) (log ++ [.frame w.1 w.2]) rest bus') :
    Survives accepts bus log (w :: rest) bus' := by
  obtain ⟨gone, kept⟩ := h
  constructor
  · intro connId
    rw [gone connId, LiveBus.drop, OrderedMap.get?_erase]
    by_cases hid : connId = w.1
    · simp only [hid, if_true, true_or, Refused, no, true_and, or_true]
    · simp only [hid, if_false, Refused, false_and, false_or]
  · intro connId conn hc
    have hbefore := kept connId conn hc
    rw [LiveBus.drop, OrderedMap.get?_erase] at hbefore
    split at hbefore
    · cases hbefore
    · exact hbefore

/-- The loop of one event writes what is owed, in table order. -/
theorem deliver_spec (accepts : Accepts) (event : LiveEvent) (log : List Output) (h : Capped bus)
    (distinct : ids.Nodup) :
    (deliver accepts event ids bus log).2 = log ++ frames (ids.filterMap (owed bus event)) ∧
      Survives accepts bus log (ids.filterMap (owed bus event))
        (deliver accepts event ids bus log).1 := by
  induction ids generalizing bus log with
  | nil => exact ⟨(List.append_nil _).symm, survives_nil _ rfl⟩
  | cons id rest ih =>
      obtain ⟨hfresh, hrest⟩ := List.nodup_cons.mp distinct
      rw [deliver]
      cases hc : bus.connections.get? id with
      | none =>
          have hno : owed bus event id = none := by rw [owed, hc]; rfl
          rw [List.filterMap_cons_none hno]
          exact ih log h hrest
      | some conn =>
          have hid : conn.id = id := h.keyed id conn hc
          cases hf : frameFor event conn with
          | none =>
              have hno : owed bus event id = none := by
                rw [owed, hc, Option.bind_some, hf, Option.map_none]
              rw [List.filterMap_cons_none hno]
              simp only [hf]
              exact ih log h hrest
          | some frame =>
              have hyes : owed bus event id = some (id, frame) :=
                owed_eq_some.mpr ⟨conn, hc, hf, rfl⟩
              rw [List.filterMap_cons_some hyes]
              simp only [hf, hid]
              split
              · rename_i ok
                have hcount : Capped bus.countPing := h.of_connections rfl
                obtain ⟨hlog, hsurv⟩ := ih (log ++ [.frame id frame]) hcount hrest
                refine ⟨?_, Survives.accepted bus.countPing rfl ok hsurv⟩
                rw [hlog, List.append_assoc]
                rfl
              · rename_i no
                have no := Bool.eq_false_of_not_eq_true no
                obtain ⟨hlog, hsurv⟩ := ih (log ++ [.frame id frame]) (h.drop id) hrest
                have hsame : rest.filterMap (owed (bus.drop id) event) =
                    rest.filterMap (owed bus event) := by
                  refine List.filterMap_congr fun j hj => owed_drop ?_
                  intro hji
                  exact hfresh (hji ▸ hj)
                rw [hsame] at hlog hsurv
                refine ⟨?_, Survives.refused no hsurv⟩
                rw [hlog, List.append_assoc]
                rfl

theorem mem_owed :
    (connId, frame) ∈ bus.connections.keys.filterMap (owed bus event) ↔
      ∃ conn, bus.connections.get? connId = some conn ∧ frameFor event conn = some frame := by
  rw [List.mem_filterMap]
  constructor
  · intro h
    obtain ⟨id, _, how⟩ := h
    obtain ⟨conn, hc, hf, hid⟩ := owed_eq_some.mp how
    subst hid
    exact ⟨conn, hc, hf⟩
  · intro h
    obtain ⟨conn, hc, hf⟩ := h
    exact ⟨connId, OrderedMap.mem_keys_of_get? hc, owed_eq_some.mpr ⟨conn, hc, hf, rfl⟩⟩

theorem owed_once (h : ids.Nodup) : ((ids.filterMap (owed bus event)).map Prod.fst).Nodup := by
  induction ids with
  | nil => exact List.nodup_nil
  | cons id rest ih =>
      obtain ⟨hfresh, hrest⟩ := List.nodup_cons.mp h
      cases how : owed bus event id with
      | none =>
          rw [List.filterMap_cons_none how]
          exact ih hrest
      | some w =>
          rw [List.filterMap_cons_some how, List.map_cons, List.nodup_cons]
          refine ⟨?_, ih hrest⟩
          intro hmem
          obtain ⟨w', hw', hfst⟩ := List.mem_map.mp hmem
          obtain ⟨j, hj, how'⟩ := List.mem_filterMap.mp hw'
          obtain ⟨_, _, _, hid⟩ := owed_eq_some.mp how
          obtain ⟨_, _, _, hjd⟩ := owed_eq_some.mp how'
          rw [hjd, hid] at hfst
          exact hfresh (hfst ▸ hj)

theorem frameFor_content {targetType targetDocumentId : String} :
    frameFor (.content targetType targetDocumentId) conn = some frame ↔
      ∃ channel, channelFor targetType targetDocumentId = some channel ∧
        channel ∈ conn.channels ∧ frame = .content channel := by
  simp only [frameFor]
  cases channelFor targetType targetDocumentId with
  | none => simp
  | some channel =>
      by_cases hmem : channel ∈ conn.channels
      · simp [hmem, eq_comm]
      · simp [hmem]

theorem owed_delivers (bus : LiveBus) (event : LiveEvent) :
    Delivers bus event (bus.connections.keys.filterMap (owed bus event)) := by
  refine ⟨owed_once bus.connections.keys_nodup, ?_, ?_, ?_, ?_⟩
  · intro targetType targetDocumentId hevent connId frame
    subst hevent
    rw [mem_owed]
    constructor
    · intro h
      obtain ⟨conn, hc, hf⟩ := h
      obtain ⟨channel, hch, hmem, hframe⟩ := frameFor_content.mp hf
      exact ⟨conn, channel, hc, hch, hmem, hframe⟩
    · intro h
      obtain ⟨conn, channel, hc, hch, hmem, hframe⟩ := h
      exact ⟨conn, hc, frameFor_content.mpr ⟨channel, hch, hmem, hframe⟩⟩
  · intro recipientId hevent connId frame
    subst hevent
    rw [mem_owed]
    simp only [frameFor, Option.ite_none_right_eq_some, Option.some.injEq,
      eq_comm (a := frame)]
  · intro hevent connId frame
    subst hevent
    rw [mem_owed]
    simp only [frameFor, Option.some.injEq, exists_and_right, eq_comm (a := frame)]
  · intro hevent
    subst hevent
    refine List.filterMap_eq_nil_iff.mpr fun connId _ => ?_
    cases hc : bus.connections.get? connId with
    | none | some conn => rw [owed, hc]; rfl

/-! ## A whole publish -/

/-- A keepalive writes nothing. -/
theorem Delivery.skip (h : Delivery accepts bus log events last logged) :
    Delivery accepts bus log (.keepalive :: events) last logged := by
  have hnone := owed_delivers bus .keepalive
  rw [hnone.keepalive rfl] at hnone
  have hlog : log ++ frames [] = log := List.append_nil log
  refine .cons hnone (survives_nil bus rfl) ?_
  rw [hlog]
  exact h

theorem delivery_deliver (h : Capped bus)
    (rest : Delivery accepts (deliver accepts event bus.connections.keys bus log).1
      (deliver accepts event bus.connections.keys bus log).2 events last logged) :
    Delivery accepts bus log (event :: events) last logged := by
  obtain ⟨hlog, hsurv⟩ := deliver_spec accepts event log h
    bus.connections.keys_nodup
  rw [hlog] at rest
  exact .cons (owed_delivers bus event) hsurv rest

theorem publishEvents_delivery (h : Capped bus) :
    Delivery accepts bus log events (publishEvents accepts events bus log).1
      (publishEvents accepts events bus log).2 := by
  induction events generalizing bus log with
  | nil => exact .nil rfl
  | cons event rest ih =>
      cases event with
      | keepalive => exact (ih h).skip
      | content targetType targetDocumentId | notification recipientId | announcements =>
          exact delivery_deliver h (ih h.deliver)

/-- The delivery reads the table only. -/
theorem Delivery.of_connections (same : bus'.connections = bus.connections)
    (h : Delivery accepts bus log events last logged) :
    Delivery accepts bus' log events last logged := by
  cases h with
  | nil hsame => exact .nil (hsame.trans same.symm)
  | cons hd hs hrest =>
      refine .cons ?_ ?_ hrest
      · obtain ⟨once, content, notification, announcements, keepalive⟩ := hd
        exact ⟨once, same ▸ content, same ▸ notification, same ▸ announcements, keepalive⟩
      · rw [Survives] at hs ⊢
        rw [same]
        exact hs

theorem keepalives_delivery (h : ∀ event ∈ events, event = .keepalive) :
    Delivery accepts bus log events bus log := by
  induction events with
  | nil => exact .nil rfl
  | cons event rest ih =>
      rw [List.forall_mem_cons] at h
      rw [h.1]
      exact (ih h.2).skip

theorem publish_delivery (h : Capped bus) (now : Nat) (events : List LiveEvent)
    (accepts : Accepts) :
    Delivery accepts (bus.openPublish now accepts).1 (bus.openPublish now accepts).2 events
      (bus.publish now events accepts).1 (bus.publish now events accepts).2 := by
  rw [publish]
  dsimp only
  split
  · rename_i hall
    refine keepalives_delivery fun event hevent => ?_
    simpa using List.all_eq_true.mp hall event hevent
  · refine Delivery.of_connections ?_
      (publishEvents_delivery ((h.openPublish now accepts).of_connections ?_))
    · rfl
    · rfl

/-- Opening a publish writes heartbeats only. -/
theorem beatAll_no_frames {conns : List Connection} (h : .frame connId frame ∉ log) :
    .frame connId frame ∉ (beatAll accepts conns bus log).2 := by
  induction conns generalizing bus log with
  | nil => exact h
  | cons conn rest ih =>
      have hbeat : Output.frame connId frame ∉ log ++ [.beat conn.id true] := by
        simp [h]
      rw [beatAll]
      split
      · dsimp only
        split
        · exact ih hbeat
        · exact ih hbeat
      · exact ih h

theorem openPublish_no_frames (bus : LiveBus) (now : Nat) (accepts : Accepts) (connId : ConnId)
    (frame : LiveFrame) : .frame connId frame ∉ (bus.openPublish now accepts).2 := by
  rw [openPublish]
  dsimp only
  split
  · exact beatAll_no_frames List.not_mem_nil
  · exact List.not_mem_nil

/-- A registration keeps everything but the evicted connection. -/
theorem registered_holds {gone : Option Connection} :
    (bus.registered conn gone).1.Holds conn ∧
      ∀ other, other.id ≠ conn.id → ((bus.registered conn gone).1.Holds other ↔
        bus.Holds other ∧ ∀ c, gone = some c → other.id ≠ c.id) := by
  cases gone with
  | none =>
      refine ⟨OrderedMap.get?_set_self _ _ _, ?_⟩
      intro other hne
      simp only [registered, Holds, OrderedMap.get?_set_of_ne _ _ hne, reduceCtorEq,
        false_implies, implies_true, and_true]
  | some oldest =>
      refine ⟨OrderedMap.get?_set_self _ _ _, ?_⟩
      intro other hne
      simp only [registered, evict, Holds, LiveBus.drop, OrderedMap.get?_set_of_ne _ _ hne,
        OrderedMap.get?_erase, Option.some.injEq, forall_eq']
      by_cases hold : other.id = oldest.id
      · simp [hold]
      · simp [hold]

/-- In every reachable state the caps hold, a registration makes room by the
oldest connection alone and is then present, and a publish delivers every event
to exactly its connections, once each. -/
theorem caps_and_delivery {bus : LiveBus} (h : Reachable (· = initial) BusStep bus) :
    (∀ userId, bus.userCount userId ≤ 5) ∧ bus.connections.size ≤ 500 ∧
    (∀ conn, bus.Holds conn → conn.channels.card ≤ 200) ∧
    (∀ conn, ∃ gone, Evicts bus conn.userId gone ∧ (bus.register conn).1.Holds conn ∧
      (bus.register conn).2 = gone.toList.map (fun c => .close c.id .evicted) ∧
      ∀ other, other.id ≠ conn.id → ((bus.register conn).1.Holds other ↔
        bus.Holds other ∧ ∀ c, gone = some c → other.id ≠ c.id)) ∧
    ∀ now events accepts,
      (∀ connId frame, .frame connId frame ∉ (bus.openPublish now accepts).2) ∧
      Delivery accepts (bus.openPublish now accepts).1 (bus.openPublish now accepts).2 events
        (bus.publish now events accepts).1 (bus.publish now events accepts).2 := by
  have hcap := capped_reachable h
  refine ⟨hcap.perUser, hcap.total, fun conn hc => hcap.perConnection _ _ hc, ?_, ?_⟩
  · intro conn
    obtain ⟨gone, hgone, heq⟩ := register_spec hcap conn
    refine ⟨gone, hgone, ?_, ?_, ?_⟩
    · rw [heq]
      exact registered_holds.1
    · rw [heq]
      cases gone <;> rfl
    · rw [heq]
      exact registered_holds.2
  · intro now events accepts
    exact ⟨openPublish_no_frames bus now accepts, publish_delivery hcap now events accepts⟩

/-- A tab registered by the stream route on the empty bus. -/
theorem caps_and_delivery_first_tab :
    Reachable (· = initial) BusStep (initial.apply (.register (streamConnection "a" 7 1000))) ∧
    (initial.apply (.register (streamConnection "a" 7 1000))).userCount 7 ≤ 5 := by
  have hs : BusStep initial (.register (streamConnection "a" 7 1000))
      (initial.apply (.register (streamConnection "a" 7 1000))) := ⟨Nat.zero_le _, rfl⟩
  have hr := Reachable.next (Reachable.refl (· = initial) rfl) hs
  exact ⟨hr, (caps_and_delivery hr).1 7⟩

end Sinnlos.Live.LiveBus

import Sinnlos.Live.Bus

/-! # The caps of the live bus

The table is keyed by the connections' own ids, and the three caps hold after
every operation. A registration evicts at most one connection: the user's
oldest at the user cap, else the bus's oldest at the total cap.
-/

namespace Sinnlos.Live.LiveBus
open Sinnlos.Runs

/-- How many connections `userId` has. -/
def userCount (bus : LiveBus) (userId : UserId) : Nat :=
  bus.connections.count fun c => c.userId = userId

/-- The connection is in the table, under its own id. -/
def Holds (bus : LiveBus) (conn : Connection) : Prop :=
  bus.connections.get? conn.id = some conn

structure Capped (bus : LiveBus) : Prop where
  keyed : ∀ id conn, bus.connections.get? id = some conn → conn.id = id
  perUser : ∀ userId, bus.userCount userId ≤ maxConnectionsPerUser
  total : bus.connections.size ≤ maxConnectionsTotal
  perConnection : ∀ id conn, bus.connections.get? id = some conn →
    conn.channels.card ≤ maxChannelsPerConnection

theorem initial_capped : Capped initial := by
  refine ⟨?_, ?_, by decide, ?_⟩
  · intro id conn h
    cases h
  · intro userId
    exact Nat.zero_le _
  · intro id conn h
    cases h

variable {bus : LiveBus} {conn : Connection} {conns : List Connection} {accepts : Accepts}
  {log : List Output} {bus' : LiveBus} {id : ConnId} {rest : List Connection} {oldest : Connection}
  {channels : List Channel} {held : Finset Channel}

theorem Capped.of_connections (h : Capped bus) (same : bus'.connections = bus.connections) :
    Capped bus' := by
  obtain ⟨keyed, perUser, total, perConnection⟩ := h
  refine ⟨?_, ?_, ?_, ?_⟩
  · rwa [same]
  · intro userId
    rw [userCount, same]
    exact perUser userId
  · rwa [same]
  · rwa [same]

theorem Capped.holds (h : Capped bus) (hc : bus.connections.get? id = some conn) :
    bus.Holds conn := by
  rw [Holds, h.keyed id conn hc]
  exact hc

theorem Capped.drop (h : Capped bus) (id : ConnId) : Capped (bus.drop id) := by
  have kept : ∀ j conn, (bus.drop id).connections.get? j = some conn →
      bus.connections.get? j = some conn := by
    intro j conn hj
    by_cases hji : j = id
    · simp [LiveBus.drop, hji] at hj
    · simpa [LiveBus.drop, OrderedMap.get?_erase, hji] using hj
  refine ⟨fun j conn hj => h.keyed j conn (kept j conn hj), ?_, ?_,
    fun j conn hj => h.perConnection j conn (kept j conn hj)⟩
  · intro userId
    have hle := OrderedMap.count_erase_le bus.connections id fun c => c.userId = userId
    exact Nat.le_trans hle (h.perUser userId)
  · have hle := OrderedMap.count_erase_le bus.connections id fun _ => true
    rw [← OrderedMap.size_eq_count, ← OrderedMap.size_eq_count] at hle
    exact Nat.le_trans hle h.total

/-- Putting a connection under its id keeps the caps where there is room. -/
theorem Capped.set (h : Capped bus)
    (room : (bus.drop conn.id).userCount conn.userId < maxConnectionsPerUser)
    (space : (bus.drop conn.id).connections.size < maxConnectionsTotal)
    (within : conn.channels.card ≤ maxChannelsPerConnection) :
    Capped { bus with connections := bus.connections.set conn.id conn } := by
  have kept : ∀ j c, (bus.connections.set conn.id conn).get? j = some c →
      (j = conn.id ∧ c = conn) ∨ bus.connections.get? j = some c := by
    intro j c hj
    rw [OrderedMap.get?_set] at hj
    split at hj
    · cases hj
      exact Or.inl ⟨by assumption, rfl⟩
    · exact Or.inr hj
  refine ⟨?_, ?_, ?_, ?_⟩
  · intro j c hj
    rcases kept j c hj with ⟨hji, hc⟩ | hold
    · rw [hc, hji]
    · exact h.keyed j c hold
  · intro userId
    have hother := (h.drop conn.id).perUser userId
    simp only [userCount, LiveBus.drop] at room hother ⊢
    rw [OrderedMap.count_set]
    by_cases hu : conn.userId = userId
    · subst hu
      simp only [decide_true, if_true]
      omega
    · simp only [hu, decide_false, Bool.false_eq_true, if_false, Nat.add_zero]
      exact hother
  · show (bus.connections.set conn.id conn).size ≤ maxConnectionsTotal
    simp only [LiveBus.drop, OrderedMap.size_eq_count] at space
    rw [OrderedMap.size_eq_count, OrderedMap.count_set]
    simp only [if_true]
    omega
  · intro j c hj
    rcases kept j c hj with ⟨_, hc⟩ | hold
    · rw [hc]
      exact within
    · exact h.perConnection j c hold

/-- An update of one connection that keeps its id and user keeps the caps. -/
theorem Capped.update (h : Capped bus) {conn' : Connection}
    (hc : bus.connections.get? id = some conn) (sameId : conn'.id = conn.id)
    (sameUser : conn'.userId = conn.userId)
    (within : conn'.channels.card ≤ maxChannelsPerConnection) :
    Capped { bus with connections := bus.connections.set id conn' } := by
  have hid : conn'.id = id := by
    rw [sameId]
    exact h.keyed id conn hc
  subst hid
  have hother := h.perUser conn.userId
  have htotal := h.total
  refine h.set ?_ ?_ within
  · simp only [userCount, LiveBus.drop, sameUser] at hother ⊢
    rw [OrderedMap.count_erase _ hc] at hother
    simp only [decide_true, if_true] at hother
    omega
  · rw [OrderedMap.size_eq_count, OrderedMap.count_erase _ hc] at htotal
    simp only [LiveBus.drop, OrderedMap.size_eq_count, if_true] at htotal ⊢
    omega

/-! ## What is evicted -/

theorem mem_byAge : conn ∈ byAge conns ↔ conn ∈ conns :=
  List.mem_insertionSort _

/-- The head of the sorted list is the oldest. -/
theorem byAge_head (h : byAge conns = oldest :: rest) :
    oldest ∈ conns ∧ ∀ conn ∈ conns, oldest.openedAt ≤ conn.openedAt := by
  have : Std.Total fun a b : Connection => a.openedAt ≤ b.openedAt :=
    ⟨fun a b => Nat.le_total _ _⟩
  have : IsTrans Connection fun a b => a.openedAt ≤ b.openedAt :=
    ⟨fun _ _ _ => Nat.le_trans⟩
  have sorted : (byAge conns).Pairwise fun a b => a.openedAt ≤ b.openedAt :=
    List.pairwise_insertionSort _ _
  rw [h, List.pairwise_cons] at sorted
  constructor
  · rw [← mem_byAge, h]
    exact List.mem_cons_self
  · intro conn hconn
    rw [← mem_byAge, h, List.mem_cons] at hconn
    rcases hconn with heq | hrest
    · rw [heq]
    · exact sorted.1 conn hrest

theorem length_mine (bus : LiveBus) (userId : UserId) :
    (bus.mine userId).length = bus.userCount userId := by
  simp only [mine, byAge, List.length_insertionSort, userCount, OrderedMap.count]
  rw [List.countP_eq_length_filter]

theorem mem_mine (h : Capped bus) {userId : UserId} :
    conn ∈ bus.connections.values.filter (fun c => c.userId = userId) ↔
      bus.Holds conn ∧ conn.userId = userId := by
  rw [List.mem_filter, OrderedMap.mem_values, decide_eq_true_iff]
  constructor
  · intro h
    obtain ⟨⟨id, hid⟩, hu⟩ := h
    exact ⟨h.holds hid, hu⟩
  · intro h
    obtain ⟨hid, hu⟩ := h
    exact ⟨⟨conn.id, hid⟩, hu⟩

theorem evictMine_of_room {own : List Connection} (h : own.length < maxConnectionsPerUser) :
    bus.evictMine own = (bus, []) := by
  cases own with
  | nil => rfl
  | cons oldest rest => rw [evictMine, if_neg (Nat.not_le.mpr h)]

/-- At the cap the loop evicts one connection, the first of the list. -/
theorem evictMine_at_cap (h : (oldest :: rest).length = maxConnectionsPerUser) :
    bus.evictMine (oldest :: rest) = bus.evict oldest := by
  have hrest : rest.length < maxConnectionsPerUser := by
    rw [← h]
    exact Nat.lt_succ_self _
  rw [evictMine, if_pos (Nat.le_of_eq h.symm)]
  simp only [evictMine_of_room hrest, List.append_nil]

theorem evictOldest_of_room (h : bus.connections.size < maxConnectionsTotal) :
    bus.evictOldest = (bus, []) := by
  rw [evictOldest, if_neg (Nat.not_le.mpr h)]

/-- The eviction of `oldest`, if any, and then the new connection. -/
def registered (bus : LiveBus) (conn : Connection) : Option Connection → LiveBus × List Output
  | none => ({ bus with connections := bus.connections.set conn.id conn }, [])
  | some oldest =>
      let evicted := bus.evict oldest
      ({ evicted.1 with connections := evicted.1.connections.set conn.id conn }, evicted.2)

/-- Who has to go for a new connection of `userId`, and why. -/
inductive Evicts (bus : LiveBus) (userId : UserId) : Option Connection → Prop
  | nobody : bus.userCount userId < maxConnectionsPerUser →
      bus.connections.size < maxConnectionsTotal → Evicts bus userId none
  | ofUser (oldest : Connection) : bus.userCount userId = maxConnectionsPerUser →
      bus.Holds oldest → oldest.userId = userId →
      (∀ conn, bus.Holds conn → conn.userId = userId → oldest.openedAt ≤ conn.openedAt) →
      Evicts bus userId (some oldest)
  | ofBus (oldest : Connection) : bus.userCount userId < maxConnectionsPerUser →
      bus.connections.size = maxConnectionsTotal → bus.Holds oldest →
      (∀ conn, bus.Holds conn → oldest.openedAt ≤ conn.openedAt) →
      Evicts bus userId (some oldest)

theorem size_drop_lt (h : bus.Holds conn) :
    (bus.drop conn.id).connections.size < bus.connections.size := by
  rw [OrderedMap.size_eq_count, OrderedMap.size_eq_count, OrderedMap.count_erase _ h]
  simp only [LiveBus.drop, if_true]
  omega

theorem register_spec (h : Capped bus) (conn : Connection) :
    ∃ gone, Evicts bus conn.userId gone ∧ bus.register conn = bus.registered conn gone := by
  by_cases hfull : bus.userCount conn.userId = maxConnectionsPerUser
  · -- the user is at the cap: one eviction, and then the bus has room
    cases hown : bus.mine conn.userId with
    | nil =>
        have hlen := length_mine bus conn.userId
        rw [hown, hfull] at hlen
        cases hlen
    | cons oldest rest =>
        obtain ⟨hmem, hmin⟩ := byAge_head hown
        obtain ⟨hold, huser⟩ := (mem_mine h).mp hmem
        have hlen : (oldest :: rest).length = maxConnectionsPerUser := by
          rw [← hown, length_mine, hfull]
        have hspace : (bus.evict oldest).1.connections.size < maxConnectionsTotal :=
          Nat.lt_of_lt_of_le (size_drop_lt hold) h.total
        refine ⟨some oldest, .ofUser oldest hfull hold huser ?_, ?_⟩
        · intro other hother hsame
          exact hmin other ((mem_mine h).mpr ⟨hother, hsame⟩)
        · rw [register, hown, evictMine_at_cap hlen]
          simp only [evictOldest_of_room hspace, List.append_nil, registered]
  · have hroom : bus.userCount conn.userId < maxConnectionsPerUser :=
      Nat.lt_of_le_of_ne (h.perUser _) hfull
    have hown : bus.evictMine (bus.mine conn.userId) = (bus, []) :=
      evictMine_of_room (by rw [length_mine]; exact hroom)
    by_cases hsize : bus.connections.size < maxConnectionsTotal
    · refine ⟨none, .nobody hroom hsize, ?_⟩
      rw [register, hown]
      simp only [evictOldest_of_room hsize, List.nil_append, registered]
    · have hcap : bus.connections.size = maxConnectionsTotal :=
        Nat.le_antisymm h.total (Nat.not_lt.mp hsize)
      cases hall : byAge bus.connections.values with
      | nil =>
          have hlen : (byAge bus.connections.values).length = bus.connections.size := by
            simp [byAge, OrderedMap.values, OrderedMap.size]
          rw [hall, hcap] at hlen
          cases hlen
      | cons oldest rest =>
          obtain ⟨hmem, hmin⟩ := byAge_head hall
          obtain ⟨id, hid⟩ := OrderedMap.mem_values.mp hmem
          refine ⟨some oldest, .ofBus oldest hroom hcap (h.holds hid) ?_, ?_⟩
          · intro other hother
            exact hmin other (OrderedMap.mem_values.mpr ⟨other.id, hother⟩)
          · have hevict : bus.evictOldest = bus.evict oldest := by
              rw [evictOldest, if_pos (Nat.le_of_eq hcap.symm), hall]
            rw [register, hown]
            simp only [hevict, List.nil_append, registered]

/-! ## The caps over runs -/

theorem Capped.register (h : Capped bus) (within : conn.channels.card ≤ maxChannelsPerConnection) :
    Capped (bus.register conn).1 := by
  obtain ⟨gone, hgone, heq⟩ := register_spec h conn
  rw [heq]
  cases hgone with
  | nobody hroom hsize =>
      have hcount := OrderedMap.count_erase_le bus.connections conn.id
        fun c => c.userId = conn.userId
      have hle := OrderedMap.count_erase_le bus.connections conn.id fun _ => true
      rw [← OrderedMap.size_eq_count, ← OrderedMap.size_eq_count] at hle
      exact h.set (Nat.lt_of_le_of_lt hcount hroom) (Nat.lt_of_le_of_lt hle hsize) within
  | ofUser oldest hfull hold huser hmin =>
      have hd : Capped (bus.evict oldest).1 := (h.drop oldest.id).of_connections rfl
      have hcount := OrderedMap.count_erase_le (bus.evict oldest).1.connections conn.id
        fun c => c.userId = conn.userId
      have hle := OrderedMap.count_erase_le (bus.evict oldest).1.connections conn.id
        fun _ => true
      rw [← OrderedMap.size_eq_count, ← OrderedMap.size_eq_count] at hle
      have hsize : (bus.evict oldest).1.connections.size < maxConnectionsTotal :=
        Nat.lt_of_lt_of_le (size_drop_lt hold) h.total
      have hroom : (bus.evict oldest).1.userCount conn.userId < maxConnectionsPerUser := by
        have hone := OrderedMap.count_erase (fun c => decide (c.userId = conn.userId)) hold
        simp only [huser, decide_true, if_true] at hone
        simp only [userCount] at hfull
        simp only [userCount, evict, LiveBus.drop]
        omega
      exact hd.set (Nat.lt_of_le_of_lt hcount hroom) (Nat.lt_of_le_of_lt hle hsize) within
  | ofBus oldest hroom hcap hold hmin =>
      have hd : Capped (bus.evict oldest).1 := (h.drop oldest.id).of_connections rfl
      have hcount := OrderedMap.count_erase_le (bus.evict oldest).1.connections conn.id
        fun c => c.userId = conn.userId
      have hbefore := OrderedMap.count_erase_le bus.connections oldest.id
        fun c => c.userId = conn.userId
      have hle := OrderedMap.count_erase_le (bus.evict oldest).1.connections conn.id
        fun _ => true
      rw [← OrderedMap.size_eq_count, ← OrderedMap.size_eq_count] at hle
      have hsize : (bus.evict oldest).1.connections.size < maxConnectionsTotal :=
        Nat.lt_of_lt_of_le (size_drop_lt hold) h.total
      exact hd.set (Nat.lt_of_le_of_lt hcount (Nat.lt_of_le_of_lt hbefore hroom))
        (Nat.lt_of_le_of_lt hle hsize) within

theorem card_addCounted (h : held.card ≤ maxChannelsPerConnection) :
    (addCounted held channels).1.card ≤ maxChannelsPerConnection := by
  induction channels generalizing held with
  | nil => exact h
  | cons channel rest ih =>
      rw [addCounted]
      split
      · exact ih h
      · split
        · exact ih h
        · rename_i hnew hroom
          refine ih ?_
          rw [Finset.card_insert_of_notMem hnew]
          omega

theorem card_addUntilFull (h : held.card ≤ maxChannelsPerConnection) :
    (addUntilFull held channels).card ≤ maxChannelsPerConnection := by
  induction channels generalizing held with
  | nil => exact h
  | cons channel rest ih =>
      rw [addUntilFull]
      split
      · exact h
      · rename_i hroom
        have hle := Finset.card_insert_le channel held
        exact ih (by omega)

theorem card_advanceTo {rev : Nat} (h : conn.channels.card ≤ maxChannelsPerConnection) :
    (advanceTo conn rev).channels.card ≤ maxChannelsPerConnection := by
  rw [advanceTo]
  split
  · exact Nat.zero_le _
  · exact h

theorem advanceTo_id (conn : Connection) (rev : Nat) : (advanceTo conn rev).id = conn.id := by
  rw [advanceTo]
  split <;> rfl

theorem advanceTo_userId (conn : Connection) (rev : Nat) :
    (advanceTo conn rev).userId = conn.userId := by
  rw [advanceTo]
  split <;> rfl

theorem Capped.sync (h : Capped bus) (connId : ConnId) (userId : UserId) (rev : Nat)
    (channels : List Channel) : Capped (bus.sync connId userId rev channels).1 := by
  rw [LiveBus.sync]
  split
  · exact h
  · rename_i conn hc
    split
    · exact h
    · split
      · exact h
      · exact h.update hc (advanceTo_id conn rev) (advanceTo_userId conn rev)
          (card_addCounted (card_advanceTo (h.perConnection _ _ hc)))

theorem Capped.subscribe (h : Capped bus) (connId : ConnId) (userId : UserId)
    (add remove : List Channel) : Capped (bus.subscribe connId userId add remove).1 := by
  rw [LiveBus.subscribe]
  split
  · exact h
  · rename_i conn hc
    split
    · exact h
    · have hkept : (conn.channels \ remove.toFinset).card ≤ maxChannelsPerConnection :=
        Nat.le_trans (Finset.card_le_card Finset.sdiff_subset) (h.perConnection _ _ hc)
      exact h.update hc rfl rfl (card_addUntilFull hkept)

theorem Capped.beatAll (h : Capped bus) : Capped (beatAll accepts conns bus log).1 := by
  induction conns generalizing bus log with
  | nil => exact h
  | cons conn rest ih =>
      rw [LiveBus.beatAll]
      split
      · dsimp only
        split
        · exact ih h
        · exact ih (h.drop conn.id)
      · exact ih h

theorem Capped.deliver {event : LiveEvent} {ids : List ConnId} (h : Capped bus) :
    Capped (deliver accepts event ids bus log).1 := by
  induction ids generalizing bus log with
  | nil => exact h
  | cons id rest ih =>
      rw [LiveBus.deliver]
      split
      · exact ih h
      · split
        · exact ih h
        · dsimp only
          split
          · exact ih (h.of_connections rfl)
          · exact ih (h.drop _)

theorem Capped.publishEvents {events : List LiveEvent} (h : Capped bus) :
    Capped (publishEvents accepts events bus log).1 := by
  induction events generalizing bus log with
  | nil => exact h
  | cons event rest ih =>
      cases event with
      | keepalive => exact ih h
      | content targetType targetDocumentId | notification recipientId | announcements =>
          exact ih h.deliver

theorem Capped.openPublish (h : Capped bus) (now : Nat) (accepts : Accepts) :
    Capped (bus.openPublish now accepts).1 := by
  have hstamped : Capped { bus with lastEmitAt := now } := h.of_connections rfl
  rw [LiveBus.openPublish]
  dsimp only
  split
  · exact hstamped.beatAll
  · exact hstamped

theorem Capped.publish (h : Capped bus) (now : Nat) (events : List LiveEvent) (accepts : Accepts) :
    Capped (bus.publish now events accepts).1 := by
  rw [LiveBus.publish]
  dsimp only
  split
  · exact h.openPublish now accepts
  · exact Capped.publishEvents ((h.openPublish now accepts).of_connections rfl)

theorem Capped.closeEach (h : Capped bus) : Capped (closeEach conns bus).1 := by
  induction conns generalizing bus with
  | nil => exact h
  | cons conn rest ih => exact ih (h.drop conn.id)

/-- One operation keeps the caps. -/
theorem capped_step {op : BusOp} (hs : BusStep bus op bus') (h : Capped bus) : Capped bus' := by
  obtain ⟨within, heq⟩ := hs
  subst heq
  cases op with
  | register conn => exact h.register within
  | drop connId => exact h.drop connId
  | sync connId userId rev channels => exact h.sync connId userId rev channels
  | subscribe connId userId add remove => exact h.subscribe connId userId add remove
  | publish now events accepts => exact h.publish now events accepts
  | closeAll => exact Capped.closeEach h
  | statistics => exact h.of_connections rfl

theorem capped_reachable (h : Reachable (· = initial) BusStep bus) : Capped bus := by
  refine h.invariant ?_ ?_
  · intro s hs
    rw [hs]
    exact initial_capped
  · intro s op s' hs hc
    exact capped_step hs hc

end Sinnlos.Live.LiveBus

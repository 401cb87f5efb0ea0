import Sinnlos.Live.Bus

/-! # What the bus leaves alone

Everything but a registration, a sync and a subscribe of its own id can only
take a connection out of the table, never change it.
-/

namespace Sinnlos.Live.LiveBus

/-- What is in `bus'` was in `bus` as it is. -/
def Shrinks (bus bus' : LiveBus) : Prop :=
  ∀ id conn, bus'.connections.get? id = some conn → bus.connections.get? id = some conn

theorem Shrinks.refl (bus : LiveBus) : Shrinks bus bus := fun _ _ h => h

variable {bus bus' : LiveBus}

theorem Shrinks.trans {bus'' : LiveBus} (h : Shrinks bus bus') (h' : Shrinks bus' bus'') :
    Shrinks bus bus'' :=
  fun id conn hc => h id conn (h' id conn hc)

theorem shrinks_of_connections (h : bus'.connections = bus.connections) : Shrinks bus bus' := by
  intro id conn hc
  rw [← h]
  exact hc

theorem drop_shrinks (bus : LiveBus) (connId : ConnId) : Shrinks bus (bus.drop connId) := by
  intro id conn hc
  rw [drop, OrderedMap.get?_erase] at hc
  split at hc
  · cases hc
  · exact hc

theorem evict_shrinks (bus : LiveBus) (conn : Connection) : Shrinks bus (bus.evict conn).1 :=
  (drop_shrinks bus conn.id).trans (shrinks_of_connections rfl)

theorem evictMine_shrinks (own : List Connection) (bus : LiveBus) :
    Shrinks bus (bus.evictMine own).1 := by
  induction own generalizing bus with
  | nil => exact Shrinks.refl bus
  | cons oldest rest ih =>
      rw [evictMine]
      split
      · exact (evict_shrinks bus oldest).trans (ih _)
      · exact Shrinks.refl bus

theorem evictOldest_shrinks (bus : LiveBus) : Shrinks bus bus.evictOldest.1 := by
  rw [evictOldest]
  split
  · split
    · exact Shrinks.refl bus
    · exact evict_shrinks bus _
  · exact Shrinks.refl bus

variable {id : ConnId}

/-- A registration adds its connection and otherwise takes out. -/
theorem register_frame (bus : LiveBus) (conn : Connection) {found : Connection}
    (h : (bus.register conn).1.connections.get? id = some found) :
    (id = conn.id ∧ found = conn) ∨ bus.connections.get? id = some found := by
  simp only [register, OrderedMap.get?_set] at h
  split at h
  · cases h
    exact Or.inl ⟨by assumption, rfl⟩
  · exact Or.inr (((evictMine_shrinks _ bus).trans (evictOldest_shrinks _)) id found h)

theorem beatAll_shrinks (accepts : Accepts) (conns : List Connection) (bus : LiveBus)
    (log : List Output) : Shrinks bus (beatAll accepts conns bus log).1 := by
  induction conns generalizing bus log with
  | nil => exact Shrinks.refl bus
  | cons conn rest ih =>
      rw [beatAll]
      split
      · dsimp only
        split
        · exact ih _ _
        · exact (drop_shrinks bus conn.id).trans (ih _ _)
      · exact ih _ _

theorem deliver_shrinks (accepts : Accepts) (event : LiveEvent) (ids : List ConnId)
    (bus : LiveBus) (log : List Output) : Shrinks bus (deliver accepts event ids bus log).1 := by
  induction ids generalizing bus log with
  | nil => exact Shrinks.refl bus
  | cons id rest ih =>
      rw [deliver]
      split
      · exact ih _ _
      · split
        · exact ih _ _
        · dsimp only
          split
          · exact (shrinks_of_connections rfl).trans (ih _ _)
          · exact (drop_shrinks bus _).trans (ih _ _)

theorem publishEvents_shrinks (accepts : Accepts) (events : List LiveEvent) (bus : LiveBus)
    (log : List Output) : Shrinks bus (publishEvents accepts events bus log).1 := by
  induction events generalizing bus log with
  | nil => exact Shrinks.refl bus
  | cons event rest ih =>
      cases event with
      | keepalive => exact ih _ _
      | content targetType targetDocumentId | notification recipientId | announcements =>
          exact (deliver_shrinks _ _ _ _ _).trans (ih _ _)

theorem publish_shrinks (bus : LiveBus) (now : Nat) (events : List LiveEvent)
    (accepts : Accepts) : Shrinks bus (bus.publish now events accepts).1 := by
  have hopen : Shrinks bus (bus.openPublish now accepts).1 := by
    rw [openPublish]
    dsimp only
    split
    · exact (shrinks_of_connections rfl).trans (beatAll_shrinks _ _ _ _)
    · exact shrinks_of_connections rfl
  rw [publish]
  dsimp only
  split
  · exact hopen
  · exact (hopen.trans (shrinks_of_connections rfl)).trans (publishEvents_shrinks _ _ _ _)

theorem closeEach_shrinks (conns : List Connection) (bus : LiveBus) :
    Shrinks bus (closeEach conns bus).1 := by
  induction conns generalizing bus with
  | nil => exact Shrinks.refl bus
  | cons conn rest ih => exact (drop_shrinks bus conn.id).trans (ih _)

theorem sync_other (bus : LiveBus) (connId : ConnId) (userId : UserId) (rev : Nat)
    (channels : List Channel) (h : id ≠ connId) :
    (bus.sync connId userId rev channels).1.connections.get? id = bus.connections.get? id := by
  rw [sync]
  split
  · rfl
  · split
    · rfl
    · split
      · rfl
      · exact OrderedMap.get?_set_of_ne _ _ h

theorem subscribe_other (bus : LiveBus) (connId : ConnId) (userId : UserId)
    (add remove : List Channel) (h : id ≠ connId) :
    (bus.subscribe connId userId add remove).1.connections.get? id =
      bus.connections.get? id := by
  rw [subscribe]
  split
  · rfl
  · split
    · rfl
    · exact OrderedMap.get?_set_of_ne _ _ h

/-! ## Adding within the cap -/

/-- Where everything fits, everything is added. -/
theorem addCounted_of_room (channels : List Channel) (held : Finset Channel)
    (room : (held ∪ channels.toFinset).card ≤ maxChannelsPerConnection) :
    (addCounted held channels).1 = held ∪ channels.toFinset := by
  induction channels generalizing held with
  | nil => simp [addCounted]
  | cons channel rest ih =>
      have hunion : held ∪ (channel :: rest).toFinset = insert channel held ∪ rest.toFinset := by
        ext x
        simp
      rw [hunion] at room ⊢
      rw [addCounted]
      split
      · rename_i hmem
        rw [Finset.insert_eq_of_mem hmem] at room ⊢
        exact ih _ room
      · rename_i hnew
        have hless : held.card < maxChannelsPerConnection := by
          have hsub : insert channel held ⊆ insert channel held ∪ rest.toFinset :=
            Finset.subset_union_left
          have hcard := Finset.card_le_card hsub
          rw [Finset.card_insert_of_notMem hnew] at hcard
          omega
        rw [if_neg (Nat.not_le.mpr hless)]
        exact ih _ room

/-- Nothing else is ever added. -/
theorem addCounted_subset (channels : List Channel) (held : Finset Channel) :
    (addCounted held channels).1 ⊆ held ∪ channels.toFinset := by
  induction channels generalizing held with
  | nil => simp [addCounted]
  | cons channel rest ih =>
      have hwide : ∀ h : Finset Channel, h ⊆ insert channel held →
          h ∪ rest.toFinset ⊆ held ∪ (channel :: rest).toFinset := by
        intro h hsub x hx
        rw [Finset.mem_union] at hx
        rcases hx with hheld | hrest
        · have := hsub hheld
          simp only [Finset.mem_insert] at this
          simp only [Finset.mem_union, List.mem_toFinset, List.mem_cons]
          rcases this with heq | hold
          · exact Or.inr (Or.inl heq)
          · exact Or.inl hold
        · simp only [Finset.mem_union, List.mem_toFinset, List.mem_cons] at hrest ⊢
          exact Or.inr (Or.inr hrest)
      rw [addCounted]
      split
      · exact (ih held).trans (hwide held (Finset.subset_insert _ _))
      · split
        · exact (ih held).trans (hwide held (Finset.subset_insert _ _))
        · exact (ih _).trans (hwide _ (Finset.Subset.refl _))

end Sinnlos.Live.LiveBus

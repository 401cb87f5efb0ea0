import Mathlib.Data.List.Permutation
import Sinnlos.Live.SubscriptionSync

/-! # The add/remove requests of the previous client

`addRemoveRequests` of `apps/web/src/lib/live-client.ts` against `LiveBus.subscribe`. Each
request removes before it adds, and a set within the bus's cap changes in two requests at
most, so no order of them ever asks for more channels than the connection may hold.
-/

namespace Sinnlos.Live

/-! ## Slices -/

variable {channels : List Channel} {n fuel : Nat} {held : Finset Channel} {connId : ConnId}
  {arrived : List AddRemoveSubscribeRequest}

theorem slicesFuel_getD (hn : 0 < n) (hfuel : channels.length ≤ fuel) (i : Nat) :
    (slicesFuel n fuel channels).getD i [] = (channels.drop (i * n)).take n := by
  induction fuel generalizing channels i with
  | zero =>
      have hnil : channels = [] := List.length_eq_zero_iff.mp (Nat.le_zero.mp hfuel)
      simp [hnil, slicesFuel]
  | succ fuel ih =>
      cases channels with
      | nil => simp [slicesFuel]
      | cons channel rest =>
          have hless : ((channel :: rest).drop n).length ≤ fuel := by
            rw [List.length_drop, List.length_cons]
            rw [List.length_cons] at hfuel
            omega
          rw [slicesFuel]
          · cases i with
            | zero => simp
            | succ i =>
                rw [List.getD_cons_succ, ih hless i, List.drop_drop, Nat.succ_mul, Nat.add_comm n]
          · intro hnil
            cases hnil

theorem slices_getD (channels : List Channel) (i : Nat) :
    (slices maxSubscribeList channels).getD i [] =
      (channels.drop (i * maxSubscribeList)).take maxSubscribeList :=
  slicesFuel_getD (by decide) (Nat.le_refl _) i

/-- A list of at most `count` slices is cut into no more. -/
theorem length_slicesFuel {count : Nat} (h : channels.length ≤ count * n) :
    (slicesFuel n fuel channels).length ≤ count := by
  induction fuel generalizing channels count with
  | zero => simp [slicesFuel]
  | succ fuel ih =>
      cases channels with
      | nil => simp [slicesFuel]
      | cons channel rest =>
          cases count with
          | zero => simp at h
          | succ count =>
              rw [slicesFuel]
              · rw [List.length_cons]
                apply Nat.succ_le_succ
                apply ih
                rw [List.length_drop]
                rw [Nat.succ_mul] at h
                omega
              · intro hnil
                cases hnil

/-! ## One request -/

theorem addUntilFull_of_room (add : List Channel) (held : Finset Channel)
    (room : (held ∪ add.toFinset).card ≤ maxChannelsPerConnection) :
    LiveBus.addUntilFull held add = held ∪ add.toFinset := by
  induction add generalizing held with
  | nil => simp [LiveBus.addUntilFull]
  | cons channel rest ih =>
      have hunion : held ∪ (channel :: rest).toFinset = insert channel held ∪ rest.toFinset := by
        ext x
        simp
      rw [LiveBus.addUntilFull]
      split
      · rename_i hfull
        have hsame : held = held ∪ (channel :: rest).toFinset :=
          Finset.eq_of_subset_of_card_le Finset.subset_union_left (by omega)
        exact hsame
      · rw [hunion] at room ⊢
        exact ih _ room

/-- What a request makes of the channels a connection holds. -/
def AddRemoveSubscribeRequest.change (request : AddRemoveSubscribeRequest)
    (held : Finset Channel) : Finset Channel :=
  LiveBus.addUntilFull (held \ request.remove.toFinset) request.add

theorem change_of_room {request : AddRemoveSubscribeRequest}
    (room : ((held \ request.remove.toFinset) ∪ request.add.toFinset).card ≤
      maxChannelsPerConnection) :
    request.change held = (held \ request.remove.toFinset) ∪ request.add.toFinset :=
  addUntilFull_of_room _ _ room

/-- The requests as they arrive, each of the connection's own user. -/
def LiveBus.subscribeAll (bus : LiveBus) (userId : UserId)
    (arrived : List AddRemoveSubscribeRequest) : LiveBus :=
  arrived.foldl (fun bus request =>
    (bus.subscribe request.connId userId request.add request.remove).1) bus

/-- Requests of one connection change its channels and nothing else of it. -/
theorem subscribeAll_connection {bus : LiveBus} {conn : Connection}
    (hconn : bus.connections.get? connId = some conn)
    (hown : ∀ request ∈ arrived, request.connId = connId) :
    (bus.subscribeAll conn.userId arrived).connections.get? connId =
      some { conn with
        channels := arrived.foldl (fun held request => request.change held) conn.channels } := by
  induction arrived generalizing bus conn with
  | nil => exact hconn
  | cons request rest ih =>
      have hid := hown request List.mem_cons_self
      have hstep : (bus.subscribe request.connId conn.userId request.add
          request.remove).1.connections.get? connId =
            some { conn with channels := request.change conn.channels } := by
        simp only [LiveBus.subscribe, hid, hconn, ne_eq, not_true_eq_false, if_false]
        rw [OrderedMap.get?_set_self]
        rfl
      have hrest := ih hstep fun other hmem => hown other (List.mem_cons_of_mem _ hmem)
      exact hrest

theorem subscribeAll_other (bus : LiveBus) {other : ConnId} {userId : UserId}
    (hne : other ≠ connId) (hown : ∀ request ∈ arrived, request.connId = connId) :
    (bus.subscribeAll userId arrived).connections.get? other = bus.connections.get? other := by
  induction arrived generalizing bus with
  | nil => rfl
  | cons request rest ih =>
      have hid := hown request List.mem_cons_self
      have hrest := ih (bus.subscribe request.connId userId request.add request.remove).1
        fun later hmem => hown later (List.mem_cons_of_mem _ hmem)
      have hstep : (bus.subscribe request.connId userId request.add
          request.remove).1.connections.get? other = bus.connections.get? other :=
        LiveBus.subscribe_other bus request.connId userId request.add request.remove (hid ▸ hne)
      exact hrest.trans hstep

/-! ## Two requests -/

/-- Two requests that add and remove what is missing and what is left over end at the
desired set, where the first one fits. -/
theorem change_pair {first second : AddRemoveSubscribeRequest} {previous desired : Finset Channel}
    (hadd : first.add.toFinset ∪ second.add.toFinset = desired \ previous)
    (hremove : first.remove.toFinset ∪ second.remove.toFinset = previous \ desired)
    (room : ((previous \ first.remove.toFinset) ∪ first.add.toFinset).card ≤
      maxChannelsPerConnection)
    (hdesired : desired.card ≤ maxChannelsPerConnection) :
    second.change (first.change previous) = desired := by
  have hend : (((previous \ first.remove.toFinset) ∪ first.add.toFinset) \
      second.remove.toFinset) ∪ second.add.toFinset = desired := by
    ext channel
    have hadd' := Finset.ext_iff.mp hadd channel
    have hremove' := Finset.ext_iff.mp hremove channel
    simp only [Finset.mem_union, Finset.mem_sdiff] at hadd' hremove' ⊢
    tauto
  rw [change_of_room room, change_of_room (by rw [hend]; exact hdesired), hend]

/-- What is held after a request, counted. -/
theorem card_changed (add : Finset Channel) {remove : Finset Channel} (h : remove ⊆ held) :
    ((held \ remove) ∪ add).card + remove.card ≤ held.card + add.card := by
  have hunion := Finset.card_union_le (held \ remove) add
  have hsdiff := Finset.card_sdiff_add_card_eq_card h
  omega

/-- The channels a slice takes, as many as it is long. -/
theorem card_slice (distinct : channels.Nodup) (i : Nat) :
    ((channels.drop (i * maxSubscribeList)).take maxSubscribeList).toFinset.card =
      min maxSubscribeList (channels.length - i * maxSubscribeList) := by
  have hnodup := distinct.sublist
    ((List.take_sublist maxSubscribeList _).trans (List.drop_sublist (i * maxSubscribeList) _))
  rw [List.toFinset_card_of_nodup hnodup, List.length_take, List.length_drop]

/-- Two slices hold a list of at most twice their length. -/
theorem slices_cover (channels : List Channel) (h : channels.length ≤ 2 * maxSubscribeList) :
    ((channels.drop (0 * maxSubscribeList)).take maxSubscribeList).toFinset ∪
      ((channels.drop (1 * maxSubscribeList)).take maxSubscribeList).toFinset =
        channels.toFinset := by
  have hrest : (channels.drop maxSubscribeList).take maxSubscribeList =
      channels.drop maxSubscribeList := by
    apply List.take_of_length_le
    rw [List.length_drop]
    omega
  rw [Nat.zero_mul, Nat.one_mul, List.drop_zero, hrest, ← List.toFinset_append,
    List.take_append_drop]

variable {connId : ConnId} {previous desired : List Channel}

/-- The request at place `i`, which may be empty. -/
def requestAt (connId : ConnId) (previous desired : List Channel) (i : Nat) :
    AddRemoveSubscribeRequest :=
  ⟨connId,
    ((desired.filter (· ∉ previous)).drop (i * maxSubscribeList)).take maxSubscribeList,
    ((previous.filter (· ∉ desired)).drop (i * maxSubscribeList)).take maxSubscribeList⟩

theorem addRemoveRequests_eq (connId : ConnId) (previous desired : List Channel) :
    addRemoveRequests connId previous desired =
      (List.range (max (slices maxSubscribeList (desired.filter (· ∉ previous))).length
        (slices maxSubscribeList (previous.filter (· ∉ desired))).length)).map
          (requestAt connId previous desired) := by
  simp only [addRemoveRequests, slices_getD]
  rfl

/-- A request past the last one changes nothing. -/
theorem requestAt_past (connId : ConnId) (previous desired : List Channel) {i : Nat}
    (hi : max (slices maxSubscribeList (desired.filter (· ∉ previous))).length
      (slices maxSubscribeList (previous.filter (· ∉ desired))).length ≤ i)
    (held : Finset Channel) : (requestAt connId previous desired i).change held = held := by
  have hadd := slices_getD (desired.filter (· ∉ previous)) i
  have hremove := slices_getD (previous.filter (· ∉ desired)) i
  rw [List.getD_eq_getElem?_getD, List.getElem?_eq_none (by omega), Option.getD_none]
    at hadd hremove
  simp only [AddRemoveSubscribeRequest.change, requestAt, ← hadd, ← hremove, List.toFinset_nil,
    Finset.sdiff_empty]
  rfl

section Orders
variable (distinct : previous.Nodup) (distinctDesired : desired.Nodup)
  (hprevious : previous.length ≤ maxChannelsPerConnection)
  (hdesired : desired.length ≤ maxChannelsPerConnection)
include distinct distinctDesired hprevious hdesired

/-- Either order of the two places ends at the desired set. -/
theorem change_orders (connId : ConnId) :
    (requestAt connId previous desired 1).change
        ((requestAt connId previous desired 0).change previous.toFinset) = desired.toFinset ∧
      (requestAt connId previous desired 0).change
        ((requestAt connId previous desired 1).change previous.toFinset) = desired.toFinset := by
  have hmax : maxChannelsPerConnection = 2 * maxSubscribeList := rfl
  have hlist : maxSubscribeList = 100 := rfl
  have haddLength : (desired.filter (· ∉ previous)).length ≤ desired.length :=
    List.length_filter_le _ _
  have hremoveLength : (previous.filter (· ∉ desired)).length ≤ previous.length :=
    List.length_filter_le _ _
  have hadd := slices_cover (desired.filter (· ∉ previous)) (by omega)
  have hremove := slices_cover (previous.filter (· ∉ desired)) (by omega)
  have haddSet : (desired.filter (· ∉ previous)).toFinset = desired.toFinset \ previous.toFinset := by
    ext channel
    simp
  have hremoveSet : (previous.filter (· ∉ desired)).toFinset =
      previous.toFinset \ desired.toFinset := by
    ext channel
    simp
  have haddNodup := distinctDesired.filter (· ∉ previous)
  have hremoveNodup := distinct.filter (· ∉ desired)
  have hkept : (previous.filter (· ∉ desired)).length + (previous.toFinset ∩ desired.toFinset).card =
      previous.length := by
    rw [← List.toFinset_card_of_nodup hremoveNodup, hremoveSet, Finset.card_sdiff_add_card_inter,
      List.toFinset_card_of_nodup distinct]
  have hwanted : (desired.filter (· ∉ previous)).length +
      (previous.toFinset ∩ desired.toFinset).card = desired.length := by
    rw [← List.toFinset_card_of_nodup haddNodup, haddSet, Finset.inter_comm,
      Finset.card_sdiff_add_card_inter, List.toFinset_card_of_nodup distinctDesired]
  have hcount := List.toFinset_card_of_nodup distinct
  have hcountDesired := List.toFinset_card_of_nodup distinctDesired
  rw [haddSet] at hadd
  rw [hremoveSet] at hremove
  have hroom (i : Nat) (hi : i ≤ 1) :
      ((previous.toFinset \ (requestAt connId previous desired i).remove.toFinset) ∪
        (requestAt connId previous desired i).add.toFinset).card ≤ maxChannelsPerConnection := by
    have hsubset : (requestAt connId previous desired i).remove.toFinset ⊆ previous.toFinset := by
      intro channel hmem
      have hin := List.mem_toFinset.mp hmem
      have hfilter := List.mem_of_mem_drop (List.mem_of_mem_take hin)
      exact List.mem_toFinset.mpr (List.mem_of_mem_filter hfilter)
    have hcard := card_changed (requestAt connId previous desired i).add.toFinset hsubset
    have haddCard : (requestAt connId previous desired i).add.toFinset.card = _ :=
      card_slice haddNodup i
    have hremoveCard : (requestAt connId previous desired i).remove.toFinset.card = _ :=
      card_slice hremoveNodup i
    rw [haddCard, hremoveCard, hlist] at hcard
    rw [hmax, hlist] at hprevious hdesired ⊢
    have hcases : i = 0 ∨ i = 1 := by omega
    rcases hcases with rfl | rfl
    · omega
    · omega
  constructor
  · exact change_pair hadd hremove (hroom 0 (by omega)) (by omega)
  · rw [Finset.union_comm] at hadd hremove
    exact change_pair hadd hremove (hroom 1 (by omega)) (by omega)

/-- The requests of a change, in whatever order they arrive, leave the connection with
exactly the desired set and every other connection as it was. -/
theorem addRemoveRequests_arrive {bus : LiveBus} {connId : ConnId} {conn : Connection}
    {arrived : List AddRemoveSubscribeRequest}
    (hconn : bus.connections.get? connId = some conn)
    (hheld : conn.channels = previous.toFinset)
    (order : arrived.Perm (addRemoveRequests connId previous desired)) :
    (bus.subscribeAll conn.userId arrived).connections.get? connId =
        some { conn with channels := desired.toFinset } ∧
      ∀ other, other ≠ connId →
        (bus.subscribeAll conn.userId arrived).connections.get? other =
          bus.connections.get? other := by
  have horders := change_orders distinct distinctDesired hprevious hdesired connId
  rw [addRemoveRequests_eq] at order
  have hown : ∀ request ∈ arrived, request.connId = connId := by
    intro request hmem
    obtain ⟨i, -, rfl⟩ := List.mem_map.mp (order.mem_iff.mp hmem)
    rfl
  constructor
  · have hfold : arrived.foldl (fun held request => request.change held) previous.toFinset =
        desired.toFinset := by
      have hadd : (slices maxSubscribeList (desired.filter (· ∉ previous))).length ≤ 2 :=
        length_slicesFuel (Nat.le_trans (List.length_filter_le _ _) hdesired)
      have hremove : (slices maxSubscribeList (previous.filter (· ∉ desired))).length ≤ 2 :=
        length_slicesFuel (Nat.le_trans (List.length_filter_le _ _) hprevious)
      have hpast (i : Nat) := @requestAt_past connId previous desired i
      have htwo := Nat.max_le.mpr ⟨hadd, hremove⟩
      generalize max (slices maxSubscribeList (desired.filter (· ∉ previous))).length
        (slices maxSubscribeList (previous.filter (· ∉ desired))).length = count
          at order hpast htwo
      have hcases : count = 0 ∨ count = 1 ∨ count = 2 := by omega
      rcases hcases with rfl | rfl | rfl
      · have hnone : arrived = [] := order.eq_nil
        have hsame := horders.1
        rw [hpast 0 (by omega), hpast 1 (by omega)] at hsame
        rw [hnone]
        exact hsame
      · have hone : arrived = [requestAt connId previous desired 0] :=
          List.perm_singleton.mp order
        have hsame := horders.1
        rw [hpast 1 (by omega)] at hsame
        rw [hone]
        exact hsame
      · rcases List.perm_pair.mp order with hsent | hswapped
        · rw [hsent]
          exact horders.1
        · rw [hswapped]
          exact horders.2
    rw [subscribeAll_connection hconn hown, hheld, hfold]
  · intro other hne
    exact subscribeAll_other bus hne hown

end Orders

def readerConnection (channels : List Channel) : Connection :=
  ⟨"c1", 7, channels.toFinset, none, 0, true⟩

def readerBus (channels : List Channel) : LiveBus :=
  ⟨OrderedMap.empty.set "c1" (readerConnection channels), ⟨0, 0, 0⟩, 0⟩

/-- One page left and one opened. -/
theorem addRemoveRequests_arrive_pages :
    ((readerBus ["wiki.page:a"]).subscribeAll 7
        [⟨"c1", ["wiki.page:b"], ["wiki.page:a"]⟩]).connections.get? "c1" =
      some (readerConnection ["wiki.page:b"]) := by
  have hconn : (readerBus ["wiki.page:a"]).connections.get? "c1" =
      some (readerConnection ["wiki.page:a"]) := rfl
  have hheld : (readerConnection ["wiki.page:a"]).channels = ["wiki.page:a"].toFinset := rfl
  have order : List.Perm [⟨"c1", ["wiki.page:b"], ["wiki.page:a"]⟩]
      (addRemoveRequests "c1" ["wiki.page:a"] ["wiki.page:b"]) := by decide
  have harrive := addRemoveRequests_arrive (by decide) (by decide) (by decide) (by decide)
    hconn hheld order
  exact harrive.1

end Sinnlos.Live

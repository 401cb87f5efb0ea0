import Sinnlos.Cms.RsvpSeats

/-! # The capacity gate

A request that is gated takes a seat only while one is free. The update of a row
that says yes is not gated; it takes a seat when a newer row of the same person
says something else.
-/

namespace Sinnlos.Cms.Rsvp

variable {dateParse : String → Option Int} {store after : RsvpStore} {reply : RsvpReply}
  {now : Int}

/-! ## The gate -/

variable {target : String} {userId : Nat} {status : Option String} {ref : RsvpEntry → Bool}

theorem isAtCapacity_congr {store' : RsvpStore} {userId : Option Nat} (event : PublishedEvent)
    (same : ∀ userId, store'.countedAnswer dateParse target userId =
      store.countedAnswer dateParse target userId) :
    isAtCapacity dateParse store' target event userId =
      isAtCapacity dateParse store target event userId := by
  unfold isAtCapacity
  rw [countYesUsers_eq, countYesUsers_eq, seats_congr same]

variable {event : PublishedEvent}

/-- An event that is not full has a seat left. -/
theorem seats_left {userId : Option Nat} {capacity : Int}
    (hcapacity : event.capacity = some capacity) (positive : 0 < capacity)
    (hopen : isAtCapacity dateParse store target event userId = false) :
    (countYesUsers dateParse store target userId : Int) < capacity := by
  have hle : capacity ≤ 2147483647 := event.capacity_le capacity (by rw [hcapacity]; rfl)
  have hlimited : capacityDecision event.capacity MAX_SAFE_INTEGER ≠ .open := by
    have hsafe : capacity ≤ ((MAX_SAFE_INTEGER : Nat) : Int) := by
      unfold MAX_SAFE_INTEGER
      omega
    rw [hcapacity, capacityDecision, if_neg (by omega), if_pos hsafe]
    decide
  unfold isAtCapacity at hopen
  rw [if_neg hlimited, decide_eq_false_iff_not, hcapacity, capacityDecision, if_neg (by omega)]
    at hopen
  by_contra hfull
  exact hopen (if_pos (by omega))

theorem availableEvent_eq_some (h : store.availableEvent (some target) = some event) :
    store.events target = some event := by
  unfold RsvpStore.availableEvent at h
  rw [Option.filter_eq_some_iff] at h
  exact h.1

/-! ## The requests -/

/-- The gate lets a switch into yes through. -/
def Gated (dateParse : String → Option Int) (store : RsvpStore) (target : String) (userId : Nat)
    (status : String) : Prop :=
  status = "yes" → store.countedAnswer dateParse target userId ≠ some "yes" →
    ∃ event, store.events target = some event ∧
      isAtCapacity dateParse store target event (some userId) = false

theorem heal_entries (dateParse : String → Option Int) (store : RsvpStore) (userId : Nat) (target : String) :
    ∃ keeps : RsvpEntry → Bool,
      store.heal dateParse userId target = { store with entries := store.entries.filter keeps } :=
  ⟨_, deleteAll_eq _ store⟩

theorem before_heal (hbefore : store.Before dateParse now) :
    (store.heal dateParse userId target).Before dateParse now := by
  obtain ⟨keeps, hheal⟩ := heal_entries dateParse store userId target
  intro entry hentry
  rw [hheal] at hentry
  exact hbefore entry (List.mem_of_mem_filter hentry)

theorem keyed_heal (keyed : store.Keyed) : (store.heal dateParse userId target).Keyed := by
  obtain ⟨keeps, hheal⟩ := heal_entries dateParse store userId target
  rw [hheal]
  exact {
    ids := keyed.ids.sublist (List.filter_sublist.map _)
    documentIds := keyed.documentIds.sublist (List.filter_sublist.map _) }

theorem create_spec (keyed : store.Keyed) (hbefore : store.Before dateParse now) {user : RsvpUser}
    {newId : Nat} {targetDocumentId : Option String} {newDocumentId : String}
    (h : create dateParse now store user userId targetDocumentId status newId newDocumentId =
      (reply, after)) :
    (reply.refused = true ∧ Unchanged dateParse store after) ∨
      ∃ target status', Answered dateParse store after target userId status' ∧
        Gated dateParse store target userId status' ∧
        (reply.refused = true → Unchanged dateParse store after) := by
  have hsame : Unchanged dateParse store store := fun _ _ => rfl
  unfold create at h
  split at h
  · cases h
    exact Or.inl ⟨rfl, hsame⟩
  · next target _ =>
      split at h
      · next status' _ =>
          split at h
          · cases h
            exact Or.inl ⟨rfl, hsame⟩
          · next event hevent =>
              have hhealed : Unchanged dateParse store (store.heal dateParse userId target) :=
                countedAnswer_heal keyed
              have hcounted : store.countedAnswer dateParse target userId =
                  (newestFirst dateParse (store.rowsOf userId target)).head?.bind
                    RsvpRow.status := rfl
              dsimp only at h
              split at h
              · cases h
                exact Or.inl ⟨rfl, hhealed⟩
              · next hgate =>
                  have hgated : Gated dateParse store target userId status' := by
                    intro hyes hother
                    refine ⟨event, availableEvent_eq_some hevent, ?_⟩
                    rw [← isAtCapacity_congr event (hhealed target)]
                    by_contra hfull
                    exact hgate ⟨hyes, hcounted ▸ hother, Bool.eq_true_of_not_eq_false hfull⟩
                  right
                  split at h
                  · next existing hexisting =>
                      cases h
                      refine ⟨target, status', hhealed.answered ?_, hgated, fun h => nomatch h⟩
                      have hrow := RsvpStore.mem_rowsOf.mp
                        ((rowsOf_heal_self keyed).mpr hexisting)
                      obtain ⟨⟨entry, hentry, hsurvivor⟩, hconcerns⟩ := hrow
                      rw [← hsurvivor] at hconcerns
                      rw [← hsurvivor, write_by_id (keyed_heal keyed) hentry]
                      exact answered_write (before_heal hbefore) hentry hconcerns
                  · cases h
                    refine ⟨target, status', hhealed.answered ?_, hgated, fun h => nomatch h⟩
                    exact answered_append (before_heal hbefore) ⟨rfl, rfl⟩ rfl rfl
      · cases h
        exact Or.inl ⟨rfl, hsame⟩

theorem update_spec (keyed : store.Keyed)
    (h : update dateParse now store ref status = (reply, after)) :
    (reply.refused = true ∧ after = store) ∨
      ∃ entity status', store.entries.find? ref = some entity ∧ status = some status' ∧
        reply = .sent ∧ after = store.write entity status' now ∧
        (status' = "yes" → entity.row.status ≠ some "yes" →
          ∃ target event, entity.row.targetDocumentId = some target ∧
            store.events target = some event ∧
            isAtCapacity dateParse store target event (rowUserId entity.row) = false) := by
  unfold update at h
  split at h
  · cases h
    exact Or.inl ⟨rfl, rfl⟩
  · next entity hentity =>
      have hmem := List.mem_of_find?_eq_some hentity
      split at h
      · next status' _ =>
          simp only [write_by_documentId keyed hmem] at h
          split at h
          · split at h
            · next target event htarget hevent =>
                split at h
                · cases h
                  exact Or.inl ⟨rfl, rfl⟩
                · next hopen =>
                    cases h
                    rw [htarget] at hevent
                    refine Or.inr ⟨entity, status', hentity, rfl, rfl, rfl, fun _ _ => ?_⟩
                    exact ⟨target, event, htarget, availableEvent_eq_some hevent,
                      Bool.eq_false_of_not_eq_true hopen⟩
            · cases h
              exact Or.inl ⟨rfl, rfl⟩
          · next hgate =>
              cases h
              refine Or.inr ⟨entity, status', hentity, rfl, rfl, rfl, fun hyes hother => ?_⟩
              exact absurd ⟨hyes, hother⟩ hgate
      · cases h
        exact Or.inl ⟨rfl, rfl⟩

/-! ## The capacity -/

/-- What the gate is for: no seat beyond the capacity is taken, and a refused request
leaves every answer. -/
structure CapacityHolds (dateParse : String → Option Int) (before after : RsvpStore)
    (reply : RsvpReply) : Prop where
  seats : ∀ target event capacity, before.events target = some event →
    event.capacity = some capacity → 0 < capacity →
    (countYesUsers dateParse after target none : Int) ≤
      max capacity (countYesUsers dateParse before target none)
  refused : reply.refused = true → ∀ target userId,
    after.countedAnswer dateParse target userId = before.countedAnswer dateParse target userId

theorem CapacityHolds.of_unchanged (unchanged : Unchanged dateParse store after) :
    CapacityHolds dateParse store after reply where
  seats := by
    intro target event capacity _ _ _
    rw [countYesUsers_all, countYesUsers_all, seats_congr (unchanged target)]
    exact le_max_right _ _
  refused := fun _ => unchanged

/-- The others leave a seat for one more person. -/
def HasRoom (dateParse : String → Option Int) (store : RsvpStore) (target : String)
    (userId : Nat) : Prop :=
  ∀ event capacity, store.events target = some event → event.capacity = some capacity →
    0 < capacity → (countYesUsers dateParse store target (some userId) : Int) < capacity

theorem hasRoom_of_open (h : ∃ event, store.events target = some event ∧
      isAtCapacity dateParse store target event (some userId) = false) :
    HasRoom dateParse store target userId := by
  intro event capacity hevent hcapacity positive
  obtain ⟨event', hevent', hopen⟩ := h
  rw [hevent] at hevent'
  rw [← Option.some.inj hevent'] at hopen
  exact seats_left hcapacity positive hopen

theorem countYesUsers_le (target : String) (userId : Option Nat) :
    countYesUsers dateParse store target userId ≤ countYesUsers dateParse store target none := by
  rw [countYesUsers_all, countYesUsers_eq]
  exact Finset.card_filter_le _ _

theorem CapacityHolds.of_answered {status : String}
    (answered : Answered dateParse store after target userId status)
    (room : status = "yes" → store.countedAnswer dateParse target userId ≠ some "yes" →
      HasRoom dateParse store target userId)
    (hrefused : reply.refused = true → Unchanged dateParse store after) :
    CapacityHolds dateParse store after reply where
  seats := by
    intro target' event capacity hevent hcapacity positive
    rw [countYesUsers_all, countYesUsers_all]
    by_cases heq : target' = target
    · subst heq
      by_cases hheld : status = "yes" → store.countedAnswer dateParse target' userId = some "yes"
      · have hkept := answered.seats_kept hheld
        omega
      · rw [Classical.not_imp] at hheld
        have hleft := room hheld.1 hheld.2 event capacity hevent hcapacity positive
        have htaken := answered.seats_le
        omega
    · have hother (id : Nat) : (target', id) ≠ (target, userId) :=
        fun h => heq (congrArg Prod.fst h)
      rw [seats_congr fun id => answered.others target' id (hother id)]
      exact le_max_right _ _
  refused := hrefused

/-- An update of a row that says yes, while the answer of its owner that counts is another
one and the event is full. -/
structure TakesSeatUnasked (dateParse : String → Option Int) (store : RsvpStore)
    (ref : RsvpEntry → Bool) (entity : RsvpEntry) (target : String) (userId : Nat)
    (event : PublishedEvent) (capacity : Int) : Prop where
  found : store.entries.find? ref = some entity
  saysYes : entity.row.status = some "yes"
  concerns : Concerns target userId entity.row
  published : store.events target = some event
  hasCapacity : event.capacity = some capacity
  limited : 0 < capacity
  full : capacity ≤ (countYesUsers dateParse store target none : Int)
  counted : store.countedAnswer dateParse target userId ≠ some "yes"

/-- The request is such an update. -/
def RsvpRequest.Unasked (dateParse : String → Option Int) (store : RsvpStore)
    (request : RsvpRequest) : Prop :=
  ∃ ref entity target userId event capacity, request = .update ref (some "yes") ∧
    TakesSeatUnasked dateParse store ref entity target userId event capacity

/-- The capacity holds after an update if it takes no seat unasked. -/
theorem update_capacityHolds (keyed : store.Keyed) (hbefore : store.Before dateParse now)
    (h : update dateParse now store ref status = (reply, after))
    (asked : ¬ RsvpRequest.Unasked dateParse store (.update ref status)) :
    CapacityHolds dateParse store after reply := by
  rcases update_spec keyed h with hrefused | hwritten
  · rw [hrefused.2]
    exact CapacityHolds.of_unchanged fun _ _ => rfl
  · obtain ⟨entity, status', hentity, hstatus, hreply, hafter, hgate⟩ := hwritten
    have hmem := List.mem_of_find?_eq_some hentity
    have hsent : reply.refused = true → Unchanged dateParse store after := by
      rw [hreply]
      exact fun h => nomatch h
    subst hafter
    by_cases hconcerns : ∃ target userId, Concerns target userId entity.row
    · obtain ⟨target, userId, hconcerns⟩ := hconcerns
      have hanswered : Answered dateParse store (store.write entity status' now) target userId
          status' := answered_write hbefore hmem hconcerns
      apply CapacityHolds.of_answered hanswered _ hsent
      intro hyes hcounted
      by_cases hrow : entity.row.status = some "yes"
      · intro event capacity hevent hcapacity positive
        have hle : countYesUsers dateParse store target (some userId) ≤
            countYesUsers dateParse store target none := countYesUsers_le _ _
        by_contra hfull
        apply asked
        rw [hstatus, hyes]
        refine ⟨ref, entity, target, userId, event, capacity, rfl, ?_⟩
        exact {
          found := hentity
          saysYes := hrow
          concerns := hconcerns
          published := hevent
          hasCapacity := hcapacity
          limited := positive
          full := by omega
          counted := hcounted }
      · obtain ⟨target', event, htarget, hevent, hopen⟩ := hgate hyes hrow
        rw [hconcerns.1] at htarget
        rw [hconcerns.2] at hopen
        rw [← Option.some.inj htarget] at hevent hopen
        exact hasRoom_of_open ⟨event, hevent, hopen⟩
    · apply CapacityHolds.of_unchanged
      intro target userId
      exact countedAnswer_write_other fun h => hconcerns ⟨target, userId, h⟩

/-- The update of a row that says yes is not gated. -/
theorem update_ungated (keyed : store.Keyed) {entity : RsvpEntry}
    (hfound : store.entries.find? ref = some entity) (saysYes : entity.row.status = some "yes") :
    update dateParse now store ref (some "yes") = (.sent, store.write entity "yes" now) := by
  have hmem := List.mem_of_find?_eq_some hfound
  have hgate : ¬ ("yes" = "yes" ∧ entity.row.status ≠ some "yes") := fun h => h.2 saysYes
  have hyes : rsvpStatus (some "yes") = some .yes := rfl
  rw [update, hfound, hyes]
  dsimp only
  rw [if_neg hgate, write_by_documentId keyed hmem]
  rfl

theorem update_unasked (keyed : store.Keyed) (hbefore : store.Before dateParse now)
    {request : RsvpRequest} (unasked : request.Unasked dateParse store) :
    ¬ CapacityHolds dateParse store (request.run dateParse now store).2
        (request.run dateParse now store).1 := by
  intro holds
  obtain ⟨ref, entity, target, userId, event, capacity, hrequest, takes⟩ := unasked
  rw [hrequest, RsvpRequest.run, update_ungated keyed takes.found takes.saysYes] at holds
  have hmem := List.mem_of_find?_eq_some takes.found
  have hanswered : Answered dateParse store (store.write entity "yes" now) target userId "yes" :=
    answered_write hbefore hmem takes.concerns
  have hseats := holds.seats target event capacity takes.published takes.hasCapacity takes.limited
  have htaken := hanswered.seats_taken takes.counted
  have hfull := takes.full
  rw [countYesUsers_all, countYesUsers_all] at hseats
  rw [countYesUsers_all] at hfull
  dsimp only at hseats
  omega

/-- A request keeps the capacity unless it updates a row that says yes, and does not count,
while the event is full. -/
theorem capacityHolds_iff (dateParse : String → Option Int) (now : Int) (store : RsvpStore)
    (request : RsvpRequest) (keyed : store.Keyed) (hbefore : store.Before dateParse now) :
    CapacityHolds dateParse store (request.run dateParse now store).2
        (request.run dateParse now store).1 ↔
      ¬ request.Unasked dateParse store := by
  constructor
  · intro holds unasked
    exact update_unasked keyed hbefore unasked holds
  · intro asked
    cases hrun : request.run dateParse now store with
    | mk reply after =>
        cases request with
        | update ref status => exact update_capacityHolds keyed hbefore hrun asked
        | create user userId targetDocumentId status newId newDocumentId =>
            rcases create_spec keyed hbefore hrun with hrefused | hanswered
            · exact CapacityHolds.of_unchanged hrefused.2
            · obtain ⟨target, status', hanswered, hgated, hsent⟩ := hanswered
              apply CapacityHolds.of_answered hanswered _ hsent
              exact fun hyes hother => hasRoom_of_open (hgated hyes hother)

def oneSeat : PublishedEvent where
  rsvpEnabled := true
  capacity := some 1
  capacity_le := by decide

/-- Two people with rows for one event of one seat: the first said yes, the second yes and
then no. -/
def crowdedStore : RsvpStore where
  entries :=
    let answer (id userId : Nat) (status : String) (time : Int) : RsvpRow := {
      id := id
      status := some status
      respondedAt := some (.date (some time))
      targetDocumentId := some "summer"
      user := some { id := some userId, displayName := none, blocked := false } }
    [⟨"first", answer 1 7 "yes" 100⟩, ⟨"second", answer 2 8 "yes" 200⟩,
      ⟨"third", answer 3 8 "no" 300⟩]
  events := fun target =>
    if target = "summer" then some oneSeat else none

theorem crowdedStore_keyed : crowdedStore.Keyed where
  ids := by decide
  documentIds := by decide

theorem crowdedStore_before : crowdedStore.Before (fun _ => none) 400 := by
  unfold RsvpStore.Before
  decide

/-- The second person says yes again by the older row and takes the second of one seats. -/
theorem update_overbooks :
    ¬ ∀ (dateParse : String → Option Int) (now : Int) (store : RsvpStore) (request : RsvpRequest),
      store.Keyed → store.Before dateParse now →
      CapacityHolds dateParse store (request.run dateParse now store).2
        (request.run dateParse now store).1 := by
  intro h
  have holds := h (fun _ => none) 400 crowdedStore
    (.update (fun entry => entry.documentId == "second") (some "yes")) crowdedStore_keyed
    crowdedStore_before
  have hseats := holds.seats "summer" oneSeat 1 rfl rfl (by decide)
  revert hseats
  decide +kernel

theorem capacityHolds_iff_sample :
    CapacityHolds (fun _ => none) crowdedStore
        ((RsvpRequest.update (fun entry => entry.documentId == "third") (some "yes")).run
          (fun _ => none) 400 crowdedStore).2
        ((RsvpRequest.update (fun entry => entry.documentId == "third") (some "yes")).run
          (fun _ => none) 400 crowdedStore).1 ↔
      ¬ (RsvpRequest.update (fun entry => entry.documentId == "third") (some "yes")).Unasked
        (fun _ => none) crowdedStore :=
  capacityHolds_iff _ _ _ _ crowdedStore_keyed crowdedStore_before

end Sinnlos.Cms.Rsvp

import Sinnlos.Cms.Rsvp

/-! # The capacity of an event

The answers of `apps/cms/src/api/event-rsvp/controllers/event-rsvp.ts`: the upsert
of a person's own answer and the update of one row, with the gate into "yes". A
request runs alone.
-/

namespace Sinnlos.Cms.Rsvp

/-- A stored answer with the id of its document. -/
structure RsvpEntry where
  documentId : String
  row : RsvpRow
deriving DecidableEq

/-- The published row of an event. -/
structure PublishedEvent where
  rsvpEnabled : Bool
  capacity : Option Int
  /-- The column has 32 bits. -/
  capacity_le : ∀ capacity' ∈ capacity, capacity' ≤ 2147483647

structure RsvpStore where
  entries : List RsvpEntry
  /-- The published event of a documentId. -/
  events : String → Option PublishedEvent

/-- Every row has its own id and its own document. -/
structure RsvpStore.Keyed (store : RsvpStore) : Prop where
  ids : (store.entries.map fun entry => entry.row.id).Nodup
  documentIds : (store.entries.map RsvpEntry.documentId).Nodup

/-! ## The seats -/

section Seats
variable (dateParse : String → Option Int)

/-- How many people hold a seat, by the row of each that counts. -/
def seatHolders (rows : List RsvpRow) (excludeUserId : Option Nat) : Nat :=
  (OrderedMap.collect (fun row => (rowUserId row).filter fun id => some id ≠ excludeUserId)
    rows).count fun list => (pickSurvivor dateParse list).any fun row => row.status == some "yes"

inductive CapacityDecision
  | «open»
  | full
deriving DecidableEq

def capacityDecision (capacity : Option Int) (yesUsers : Nat) : CapacityDecision :=
  match capacity with
  | none => .open
  | some capacity =>
      if capacity ≤ 0 then .open else if capacity ≤ (yesUsers : Int) then .full else .open

def MAX_SAFE_INTEGER : Nat := 9007199254740991

/-- The answers to an event. -/
def RsvpStore.rowsFor (store : RsvpStore) (targetDocumentId : String) : List RsvpRow :=
  (store.entries.map RsvpEntry.row).filter fun row => row.targetDocumentId == some targetDocumentId

def countYesUsers (store : RsvpStore) (targetDocumentId : String) (excludeUserId : Option Nat) :
    Nat :=
  seatHolders dateParse (store.rowsFor targetDocumentId) excludeUserId

def isAtCapacity (store : RsvpStore) (targetDocumentId : String) (event : PublishedEvent)
    (userId : Option Nat) : Bool :=
  -- Without a limit no count can fill the event.
  if capacityDecision event.capacity MAX_SAFE_INTEGER = .open then false
  else capacityDecision event.capacity (countYesUsers dateParse store targetDocumentId userId) = .full

/-! ## The requests -/

inductive RsvpReply
  | badRequest (message : String)
  | notFound
  | sent
deriving DecidableEq

def RsvpReply.refused : RsvpReply → Bool
  | .sent => false
  | .badRequest _ | .notFound => true

/-- A published event that takes answers. -/
def RsvpStore.availableEvent (store : RsvpStore) (targetDocumentId : Option String) :
    Option PublishedEvent :=
  (targetDocumentId.bind store.events).filter PublishedEvent.rsvpEnabled

/-- The rows of one person for one event. -/
def RsvpStore.rowsOf (store : RsvpStore) (userId : Nat) (targetDocumentId : String) :
    List RsvpRow :=
  (store.rowsFor targetDocumentId).filter fun row => rowUserId row == some userId

def RsvpStore.delete (store : RsvpStore) (id : Nat) : RsvpStore :=
  { store with entries := store.entries.filter fun entry => entry.row.id != id }

/-- The column gives back the instant that was written as text. -/
def RsvpRow.answered (row : RsvpRow) (status : String) (now : Int) : RsvpRow :=
  { row with status := some status, respondedAt := some (.date (some now)) }

/-- The store without the surplus rows of one person for one event; the newest stays. -/
def RsvpStore.heal (store : RsvpStore) (userId : Nat) (targetDocumentId : String) : RsvpStore :=
  ((newestFirst dateParse (store.rowsOf userId targetDocumentId)).drop 1).foldl
    (fun store stale => store.delete stale.id) store

/-- What a client asks for, with the ids that a new row gets. -/
inductive RsvpRequest
  | create (user : RsvpUser) (userId : Nat) (targetDocumentId status : Option String)
    (newId : Nat) (newDocumentId : String)
  /-- `ref` is the row that the route names, by its id or its document. -/
  | update (ref : RsvpEntry → Bool) (status : Option String)

/-- The upsert of the caller's answer. Of several rows the newest stays. -/
def create (now : Int) (store : RsvpStore) (user : RsvpUser) (userId : Nat)
    (targetDocumentId status : Option String) (newId : Nat) (newDocumentId : String) :
    RsvpReply × RsvpStore :=
  match targetDocumentId.filter (· ≠ "") with
  | none => (.badRequest "targetDocumentId required", store)
  | some target =>
      match rsvpStatus status, status with
      | some _, some status =>
          match store.availableEvent (some target) with
          | none => (.badRequest "Event not available for RSVP", store)
          | some event =>
              let existingRows := newestFirst dateParse (store.rowsOf userId target)
              let healed := store.heal dateParse userId target
              let existing := existingRows.head?
              if status = "yes" ∧ existing.bind RsvpRow.status ≠ some "yes" ∧
                  isAtCapacity dateParse healed target event (some userId) then
                (.badRequest "Event is at capacity", healed)
              else
                match existing with
                | some existing =>
                    (.sent, { healed with
                      entries := healed.entries.map fun entry =>
                        if entry.row.id = existing.id then
                          { entry with row := entry.row.answered status now }
                        else entry })
                | none =>
                    let row : RsvpRow := {
                      id := newId
                      status := none
                      respondedAt := none
                      targetDocumentId := some target
                      user := some { user with id := some userId } }
                    (.sent, { healed with
                      entries := healed.entries ++ [⟨newDocumentId, row.answered status now⟩] })
      | _, _ => (.badRequest "Invalid status", store)

/-- The update of one row; a switch into "yes" is counted against its owner. -/
def update (now : Int) (store : RsvpStore) (ref : RsvpEntry → Bool) (status : Option String) :
    RsvpReply × RsvpStore :=
  match store.entries.find? ref with
  | none => (.notFound, store)
  | some entity =>
      match rsvpStatus status, status with
      | some _, some status =>
          let write : RsvpReply × RsvpStore :=
            (.sent, { store with
              entries := store.entries.map fun entry =>
                if entry.documentId = entity.documentId then
                  { entry with row := entry.row.answered status now }
                else entry })
          if status = "yes" ∧ entity.row.status ≠ some "yes" then
            match entity.row.targetDocumentId, store.availableEvent entity.row.targetDocumentId with
            | some target, some event =>
                if isAtCapacity dateParse store target event (rowUserId entity.row) then
                  (.badRequest "Event is at capacity", store)
                else write
            | _, _ => (.badRequest "Event not available for RSVP", store)
          else write
      | _, _ => (.badRequest "Invalid status", store)

def RsvpRequest.run (now : Int) (store : RsvpStore) : RsvpRequest → RsvpReply × RsvpStore
  | .create user userId targetDocumentId status newId newDocumentId =>
      Rsvp.create dateParse now store user userId targetDocumentId status newId newDocumentId
  | .update ref status => Rsvp.update dateParse now store ref status

end Seats

end Sinnlos.Cms.Rsvp

import Sinnlos.Lib.Distinct
import Sinnlos.Lib.OrderedMap
import Sinnlos.Lib.Runs
import Sinnlos.Lib.Slices
import Sinnlos.Live.Contract

/-! # The emitter of live events

`apps/cms/src/utils/live-events.ts`: events wait in a map by their dedupe key until a
timer flushes it, and a flush posts what it took in chunks, one after the other. Flushes
may overlap, since each waits for its own POSTs only. How a POST ends is decided outside.
-/

namespace Sinnlos.Live
open Sinnlos.Runs

def maxEventsPerEmit : Nat := 1000

/-- `process.env`; what is not set is empty. -/
structure EmitEnv where
  webInternalUrl : String
  revalidateSecret : String
  liveEventsDisabled : String

def EmitEnv.liveEventsEnabled (env : EmitEnv) : Bool :=
  env.webInternalUrl ≠ "" && env.revalidateSecret ≠ "" && env.liveEventsDisabled ≠ "1"

def dedupeKey : LiveEvent → String
  | .content targetType targetDocumentId =>
      "c:" ++ (channelFor targetType targetDocumentId).getD "null"
  | .notification recipientId => s!"n:{recipientId}"
  | .announcements => "a"
  | .keepalive => "k"

/-- A flush under way. -/
structure Flush where
  events : List LiveEvent
  start : Nat
  /-- The POSTs that came back, and how they failed. -/
  settled : List (List LiveEvent × Option String)
  /-- The POST that is waited for. -/
  current : Option (List LiveEvent)
deriving DecidableEq

structure LiveEmitter where
  pending : OrderedMap String LiveEvent
  timer : Bool
  /-- In the order they began. -/
  flushes : List Flush
deriving DecidableEq

inductive EmitterEvent
  | emitLiveEvent (event : LiveEvent)
  | timerFired
  | flushForTest
  | postSettled (flush : Nat) (failure : Option String)
deriving DecidableEq

/-- The head of the loop: the next POST, or the end. -/
def Flush.next (flush : Flush) : Flush :=
  { flush with
    current :=
      if flush.start < flush.events.length then
        some (slice flush.events flush.start (flush.start + maxEventsPerEmit))
      else none }

/-- A POST came back: whatever it says, the loop goes on. -/
def Flush.settle (flush : Flush) (posted : List LiveEvent) (failure : Option String) : Flush :=
  Flush.next { flush with
    start := flush.start + maxEventsPerEmit
    settled := flush.settled ++ [(posted, failure)] }

namespace LiveEmitter

def initial : LiveEmitter := ⟨.empty, false, []⟩

/-- Whether an event enters the queue. -/
def queues (env : EmitEnv) : LiveEvent → Bool
  | .content targetType targetDocumentId =>
      env.liveEventsEnabled && (channelFor targetType targetDocumentId).isSome
  | _ => env.liveEventsEnabled

def emitLiveEvent (env : EmitEnv) (s : LiveEmitter) (event : LiveEvent) : LiveEmitter :=
  if queues env event then
    { s with pending := s.pending.set (dedupeKey event) event, timer := true }
  else s

def flush (env : EmitEnv) (s : LiveEmitter) : LiveEmitter :=
  let s := { s with timer := false }
  if s.pending.size = 0 then s
  else
    let events := s.pending.values
    let s := { s with pending := .empty }
    if env.webInternalUrl = "" ∨ env.revalidateSecret = "" then s
    else { s with flushes := s.flushes ++ [Flush.next ⟨events, 0, [], none⟩] }

/-- One step; none where it cannot happen. -/
def step (env : EmitEnv) (s : LiveEmitter) : EmitterEvent → Option LiveEmitter
  | .emitLiveEvent event => some (s.emitLiveEvent env event)
  | .timerFired => if s.timer then some (s.flush env) else none
  | .flushForTest => some (s.flush env)
  | .postSettled i failure =>
      s.flushes[i]?.bind fun flush =>
        flush.current.map fun posted =>
          { s with flushes := s.flushes.set i (flush.settle posted failure) }

end LiveEmitter

def EmitterStep (env : EmitEnv) (s : LiveEmitter) (event : EmitterEvent) (s' : LiveEmitter) :
    Prop := s.step env event = some s'

/-! ## What a flush owes -/

/-- The queued events of a run: those each flush that found some was the next one for, and
those behind the last flush. -/
def cutBatch (env : EmitEnv) (batches : List (List LiveEvent) × List LiveEvent) :
    EmitterEvent → List (List LiveEvent) × List LiveEvent
  | .emitLiveEvent event =>
      if LiveEmitter.queues env event then (batches.1, batches.2 ++ [event]) else batches
  | .timerFired | .flushForTest =>
      if batches.2 = [] then batches else (batches.1 ++ [batches.2], [])
  | .postSettled _ _ => batches

def batches (env : EmitEnv) (events : List EmitterEvent) : List (List LiveEvent) × List LiveEvent :=
  events.foldl (cutBatch env) ([], [])

/-- The queue that a batch leaves: of equal keys the last event, in the first one's place. -/
def queued (batch : List LiveEvent) : OrderedMap String LiveEvent :=
  .ofList (batch.map fun event => (dedupeKey event, event))

/-- The POSTs that a flush is to make. -/
def Flush.chunks (flush : Flush) : List (List LiveEvent) :=
  Sinnlos.chunks flush.events maxEventsPerEmit

/-- The POSTs that it made so far. -/
def Flush.posts (flush : Flush) : List (List LiveEvent) :=
  flush.settled.map Prod.fst ++ flush.current.toList

/-- What a flush makes of its batch. -/
structure Delivers (batch : List LiveEvent) (flush : Flush) : Prop where
  /-- Every key is in exactly one POST, -/
  once : ∀ event ∈ batch, ∃! k : Nat, ∃ chunk : List LiveEvent,
    flush.chunks[k]? = some chunk ∧ dedupeKey event ∈ chunk.map dedupeKey
  /-- and there only once, in the order of the first emissions. -/
  order : flush.chunks.flatten.map dedupeKey = Distinct.firsts id [] (batch.map dedupeKey)
  newest : ∀ event ∈ flush.chunks.flatten,
    (batch.filter fun other => dedupeKey other = dedupeKey event).getLast? = some event
  size : ∀ chunk ∈ flush.chunks, chunk.length ≤ maxEventsPerEmit
  /-- What was posted are the first of these POSTs, whatever became of each, -/
  posted : flush.posts <+: flush.chunks
  /-- and all of them where no POST is waited for. -/
  all : flush.current = none → flush.posts = flush.chunks

/-! ## The queue -/

section Queue
variable {κ ν : Type} [DecidableEq κ]

/-- A map of entries has their keys in the order they first came. -/
theorem keys_setAll (es : List (κ × ν)) (m : OrderedMap κ ν) :
    (m.setAll es).keys = m.keys ++ Distinct.firsts id m.keys (es.map Prod.fst) := by
  induction es generalizing m with
  | nil => exact (List.append_nil _).symm
  | cons e es ih =>
      have hrest : (m.setAll (e :: es)).keys = _ := ih (m.set e.1 e.2)
      rw [hrest, List.map_cons, Distinct.firsts_cons, id_eq]
      by_cases hmem : e.1 ∈ m.keys
      · rw [if_pos hmem, OrderedMap.keys_set_of_mem hmem]
      · have hkeys : (m.set e.1 e.2).keys = m.keys ++ [e.1] := by
          rw [OrderedMap.keys, OrderedMap.entries_set_of_not_mem hmem, List.map_append]
          rfl
        have hseen : ∀ k, k ∈ m.keys ++ [e.1] ↔ k ∈ e.1 :: m.keys := by
          intro k
          simp [or_comm]
        rw [if_neg hmem, hkeys, Distinct.firsts_congr hseen, List.append_assoc]
        rfl

end Queue

theorem queued_append (batch : List LiveEvent) (event : LiveEvent) :
    queued (batch ++ [event]) = (queued batch).set (dedupeKey event) event := by
  unfold queued OrderedMap.ofList OrderedMap.setAll
  rw [List.map_append, List.foldl_append]
  rfl

variable {batch posted : List LiveEvent} {event : LiveEvent}

theorem get?_queued {key : String} (h : (queued batch).get? key = some event) :
    dedupeKey event = key ∧ (batch.filter fun other => dedupeKey other = key).getLast? = some event := by
  rw [queued, OrderedMap.get?_ofList_map] at h
  have hmem := List.mem_of_getLast? h
  have hkey := (List.mem_filter.mp hmem).2
  exact ⟨of_decide_eq_true hkey, h⟩

/-- The events of the queue stand under their own keys. -/
theorem map_key_values (batch : List LiveEvent) :
    (queued batch).values.map dedupeKey = (queued batch).keys := by
  rw [OrderedMap.values, OrderedMap.keys, List.map_map]
  apply List.map_congr_left
  intro entry hmem
  have hget : (queued batch).get? entry.1 = some entry.2 := OrderedMap.get?_eq_some.mpr hmem
  exact (get?_queued hget).1

theorem keys_queued (batch : List LiveEvent) :
    (queued batch).keys = Distinct.firsts id [] (batch.map dedupeKey) := by
  have hkeys := keys_setAll (batch.map fun event => (dedupeKey event, event))
    (OrderedMap.empty : OrderedMap String LiveEvent)
  rw [OrderedMap.keys_empty, List.nil_append, List.map_map] at hkeys
  exact hkeys

theorem queued_size (batch : List LiveEvent) : (queued batch).size = 0 ↔ batch = [] := by
  rw [← OrderedMap.size_keys, List.length_eq_zero_iff, keys_queued]
  cases batch with
  | nil => simp [Distinct.firsts_nil]
  | cons event batch => simp [Distinct.firsts_cons]

/-! ## One flush -/

theorem maxEventsPerEmit_pos : 0 < maxEventsPerEmit := by decide

/-- How far the loop of a flush is: it stands behind the POSTs that came back. -/
structure Flush.Sound (batch : List LiveEvent) (flush : Flush) : Prop where
  events : flush.events = (queued batch).values
  start : flush.start = flush.settled.length * maxEventsPerEmit
  settled : flush.settled.map Prod.fst = flush.chunks.take flush.settled.length
  current : flush.next = flush

theorem Flush.current_eq_some {flush : Flush} (hnext : flush.next = flush)
    (h : flush.current = some posted) :
    flush.start < flush.events.length ∧
      posted = slice flush.events flush.start (flush.start + maxEventsPerEmit) := by
  rw [← hnext] at h
  change (if flush.start < flush.events.length then _ else none) = some posted at h
  split at h
  · rename_i hlt
    exact ⟨hlt, (Option.some.inj h).symm⟩
  · cases h

theorem Flush.current_eq_none {flush : Flush} (hnext : flush.next = flush)
    (h : flush.current = none) : flush.events.length ≤ flush.start := by
  rw [← hnext] at h
  change (if flush.start < flush.events.length then _ else none) = none at h
  split at h
  · cases h
  · rename_i hge
    exact Nat.le_of_not_lt hge

theorem Flush.Sound.start_batch (batch : List LiveEvent) :
    Flush.Sound batch (Flush.next ⟨(queued batch).values, 0, [], none⟩) where
  events := rfl
  start := by simp [Flush.next]
  settled := rfl
  current := rfl

/-- The POST that is waited for is the next of the planned ones. -/
theorem Flush.Sound.getElem?_current {flush : Flush} (h : Flush.Sound batch flush)
    (hcurrent : flush.current = some posted) :
    flush.chunks[flush.settled.length]? = some posted := by
  obtain ⟨hlt, rfl⟩ := Flush.current_eq_some h.current hcurrent
  rw [h.start] at hlt ⊢
  exact getElem?_chunks maxEventsPerEmit_pos hlt

theorem Flush.Sound.settle {flush : Flush} (h : Flush.Sound batch flush)
    (hcurrent : flush.current = some posted) (failure : Option String) :
    Flush.Sound batch (flush.settle posted failure) where
  events := h.events
  start := by
    change flush.start + maxEventsPerEmit = (flush.settled ++ [(posted, failure)]).length * _
    rw [List.length_append, List.length_singleton, Nat.succ_mul, h.start]
  settled := by
    have hplace := h.getElem?_current hcurrent
    change (flush.settled ++ [(posted, failure)]).map Prod.fst =
      flush.chunks.take (flush.settled ++ [(posted, failure)]).length
    rw [List.map_append, h.settled, List.length_append, List.length_singleton, List.take_add_one,
      hplace]
    rfl
  current := rfl

/-- A key of a batch, by the POSTs of its flush. -/
theorem Flush.Sound.once {flush : Flush} (h : Flush.Sound batch flush) (hmem : event ∈ batch) :
    ∃! k : Nat, ∃ chunk : List LiveEvent,
      flush.chunks[k]? = some chunk ∧ dedupeKey event ∈ chunk.map dedupeKey := by
  have hkeys : flush.events.map dedupeKey = (queued batch).keys := by
    rw [h.events, map_key_values]
  have hnodup : (flush.events.map dedupeKey).Nodup := hkeys ▸ (queued batch).keys_nodup
  have hin : dedupeKey event ∈ flush.events.map dedupeKey := by
    rw [hkeys, queued, OrderedMap.mem_keys_ofList, List.map_map]
    exact List.mem_map_of_mem hmem
  exact existsUnique_chunk maxEventsPerEmit_pos hnodup hin

theorem Flush.Sound.delivers {flush : Flush} (h : Flush.Sound batch flush) :
    Delivers batch flush := by
  have hflatten : flush.chunks.flatten = (queued batch).values := by
    rw [Flush.chunks, flatten_chunks _ maxEventsPerEmit_pos, h.events]
  constructor
  case once => exact fun event hmem => h.once hmem
  case order => rw [hflatten, map_key_values, keys_queued]
  case newest =>
    intro event hmem
    rw [hflatten] at hmem
    obtain ⟨entry, hentry, rfl⟩ := List.mem_map.mp hmem
    have hget : (queued batch).get? entry.1 = some entry.2 := OrderedMap.get?_eq_some.mpr hentry
    obtain ⟨hkey, hlast⟩ := get?_queued hget
    rw [hkey]
    exact hlast
  case size => exact fun chunk hmem => length_le_of_mem_chunks hmem
  case posted =>
    unfold Flush.posts
    cases hcurrent : flush.current with
    | none =>
        rw [h.settled, Option.toList_none, List.append_nil]
        exact List.take_prefix _ _
    | some posted =>
        have hplace := h.getElem?_current hcurrent
        have htake : flush.chunks.take flush.settled.length ++ [posted] =
            flush.chunks.take (flush.settled.length + 1) := by
          rw [List.take_add_one, hplace]
          rfl
        rw [h.settled, Option.toList_some, htake]
        exact List.take_prefix _ _
  case all =>
    intro hdone
    have hbehind := Flush.current_eq_none h.current hdone
    have hlength : flush.chunks.length ≤ flush.settled.length := by
      by_contra hmore
      have hplace := (lt_length_chunks maxEventsPerEmit_pos).mp (Nat.lt_of_not_le hmore)
      rw [← h.start] at hplace
      omega
    rw [Flush.posts, hdone, Option.toList_none, List.append_nil, h.settled,
      List.take_of_length_le hlength]

/-! ## Runs -/

theorem forall₂_set {α β : Type} {R : α → β → Prop} {as : List α} {bs : List β} {i : Nat} {b b' : β}
    (h : List.Forall₂ R as bs) (hb : bs[i]? = some b) (replaced : ∀ a, R a b → R a b') :
    List.Forall₂ R as (bs.set i b') := by
  induction h generalizing i with
  | nil => cases hb
  | cons hhead htail ih =>
      cases i with
      | zero =>
          cases hb
          exact .cons (replaced _ hhead) htail
      | succ i => exact .cons hhead (ih hb)

/-- The emitter after a run, against the run's batches. -/
structure LiveEmitter.Sound (batches : List (List LiveEvent) × List LiveEvent) (s : LiveEmitter) :
    Prop where
  pending : s.pending = queued batches.2
  timer : batches.2 ≠ [] → s.timer = true
  flushes : List.Forall₂ Flush.Sound batches.1 s.flushes

variable {env : EmitEnv} {s s' : LiveEmitter} {open_ : List (List LiveEvent) × List LiveEvent}

theorem LiveEmitter.Sound.emitLiveEvent (h : s.Sound open_) (event : LiveEvent) :
    (s.emitLiveEvent env event).Sound (cutBatch env open_ (.emitLiveEvent event)) := by
  simp only [LiveEmitter.emitLiveEvent, cutBatch]
  split
  · constructor
    · rw [queued_append, ← h.pending]
    · exact fun _ => rfl
    · exact h.flushes
  · exact h

/-- Only an environment that sends has anything in its queue. -/
theorem queues_env (h : LiveEmitter.queues env event = true) :
    ¬(env.webInternalUrl = "" ∨ env.revalidateSecret = "") := by
  have henabled : env.liveEventsEnabled = true := by
    cases event with
    | content targetType targetDocumentId =>
        simp only [LiveEmitter.queues, Bool.and_eq_true] at h
        exact h.1
    | notification recipientId | announcements | keepalive => exact h
  simp only [EmitEnv.liveEventsEnabled, Bool.and_eq_true, decide_eq_true_eq] at henabled
  tauto

theorem LiveEmitter.Sound.flush (h : s.Sound open_)
    (hsends : open_.2 ≠ [] → ¬(env.webInternalUrl = "" ∨ env.revalidateSecret = "")) :
    (s.flush env).Sound (cutBatch env open_ .timerFired) := by
  have hsize : s.pending.size = 0 ↔ open_.2 = [] := by rw [h.pending, queued_size]
  unfold LiveEmitter.flush cutBatch
  dsimp only
  by_cases hnone : open_.2 = []
  · rw [if_pos (hsize.mpr hnone), if_pos hnone]
    constructor
    · exact h.pending
    · exact fun hne => absurd hnone hne
    · exact h.flushes
  · rw [if_neg (fun hzero => hnone (hsize.mp hzero)), if_neg hnone, if_neg (hsends hnone)]
    constructor
    · rfl
    · exact fun hne => absurd rfl hne
    · apply List.rel_append h.flushes
      rw [h.pending]
      exact .cons (Flush.Sound.start_batch open_.2) .nil

theorem LiveEmitter.Sound.postSettled (h : s.Sound open_) {i : Nat} {flush : Flush}
    (hflush : s.flushes[i]? = some flush) (hcurrent : flush.current = some posted)
    (failure : Option String) :
    LiveEmitter.Sound open_
      { s with flushes := s.flushes.set i (flush.settle posted failure) } where
  pending := h.pending
  timer := h.timer
  flushes := forall₂_set h.flushes hflush fun _ hsound => hsound.settle hcurrent failure

/-- A flush finds something in the queue only where the environment sends. -/
theorem batches_env (events : List EmitterEvent) (h : (batches env events).2 ≠ []) :
    ¬(env.webInternalUrl = "" ∨ env.revalidateSecret = "") := by
  induction events using List.reverseRecOn with
  | nil => exact absurd rfl h
  | append_singleton events event ih =>
      have hsplit : batches env (events ++ [event]) = cutBatch env (batches env events) event := by
        rw [batches, List.foldl_append]
        rfl
      rw [hsplit] at h
      cases event with
      | emitLiveEvent event =>
          simp only [cutBatch] at h
          split at h
          · rename_i hqueues
            exact queues_env hqueues
          · exact ih h
      | timerFired | flushForTest =>
          simp only [cutBatch] at h
          split at h
          · exact ih h
          · exact absurd rfl h
      | postSettled i failure => exact ih h

theorem LiveEmitter.Sound.step {events : List EmitterEvent} {event : EmitterEvent}
    (h : s.Sound (batches env events)) (hstep : EmitterStep env s event s') :
    s'.Sound (batches env (events ++ [event])) := by
  have hsplit : batches env (events ++ [event]) = cutBatch env (batches env events) event := by
    rw [batches, List.foldl_append]
    rfl
  rw [hsplit]
  unfold EmitterStep at hstep
  cases event with
  | emitLiveEvent event =>
      cases hstep
      exact h.emitLiveEvent event
  | timerFired =>
      simp only [LiveEmitter.step] at hstep
      split at hstep
      · cases hstep
        exact h.flush (batches_env events)
      · cases hstep
  | flushForTest =>
      cases hstep
      exact h.flush (batches_env events)
  | postSettled i failure =>
      obtain ⟨flush, hflush, hrest⟩ := Option.bind_eq_some_iff.mp hstep
      obtain ⟨posted, hcurrent, rfl⟩ := Option.map_eq_some_iff.mp hrest
      exact h.postSettled hflush hcurrent failure

def sendingEnv : EmitEnv := ⟨"http://web:3000", "secret", ""⟩

/-- A page twice and a list once, flushed, and the POST fails. -/
def burst : List EmitterEvent :=
  [.emitLiveEvent (.content "wiki-page" "a"), .emitLiveEvent .announcements,
    .emitLiveEvent (.content "wiki-page" "a"), .timerFired, .postSettled 0 (some "status=500")]

end Sinnlos.Live

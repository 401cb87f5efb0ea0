import Sinnlos.Lib.Runs
import Sinnlos.Web.UploadBlockCache

/-! # Revocation within the time to live

Every answer comes from a probe of its own session, sent within the time to
live or in flight when the request joined it; no key has two probes in flight.
The invariant says of every entry, waiting request and answer which probe it
rests on. It needs that the tokens of the run have different tags.
-/

namespace Sinnlos.Web

open Sinnlos.Runs Text

/-! ## Keys and entries -/

theorem entryKey_injective {user user' : Nat} {tag tag' : String}
    (h : entryKey user tag = entryKey user' tag') : user = user' ∧ tag = tag' := by
  have hchars : (toString user).toList ++ ':' :: tag.toList =
      (toString user').toList ++ ':' :: tag'.toList := by
    have hlists := congrArg String.toList h
    simpa [entryKey, String.toList_append] using hlists
  have hcolon : ':'.isDigit = false := by decide
  have hparts := join_injective (not_mem_toString hcolon user) (not_mem_toString hcolon user') hchars
  exact ⟨toString_injective (String.toList_inj.mp hparts.1), String.toList_inj.mp hparts.2⟩

namespace BlockStatusCache
variable {cache : BlockStatusCache} {entries : Entries} {key : String} {now : Int}
  {status : AccountStatus}

theorem get_hit {entries' : Entries} (h : get entries key now = (some status, entries')) :
    entries' = entries ∧ ∃ entry, entries.get? key = some entry ∧ entry.status = status ∧
      now < entry.expiresAt := by
  unfold get at h
  cases hget : entries.get? key with
  | none =>
      rw [hget] at h
      cases h
  | some entry =>
      rw [hget] at h
      dsimp only at h
      split at h
      · cases h
      · rename_i hfresh
        cases h
        exact ⟨rfl, entry, rfl, rfl, Int.lt_of_not_ge hfresh⟩

variable {k : String} {entry : Entry}

theorem get_entries (h : (get entries key now).2.get? k = some entry) :
    entries.get? k = some entry := by
  unfold get at h
  cases hget : entries.get? key with
  | none =>
      rw [hget] at h
      exact h
  | some old =>
      rw [hget] at h
      dsimp only at h
      split at h
      · rw [OrderedMap.get?_erase] at h
        split at h
        · cases h
        · exact h
      · exact h

theorem get_size : (get entries key now).2.size ≤ entries.size := by
  unfold get
  cases entries.get? key with
  | none => exact Nat.le_refl _
  | some entry =>
      dsimp only
      split
      · exact List.length_filter_le _ _
      · exact Nat.le_refl _

theorem bounded_get? (fuel : Nat) :
    ∀ entries : Entries, (cache.bounded fuel entries).get? k = some entry →
      entries.get? k = some entry := by
  induction fuel with
  | zero => exact fun _ h => h
  | succ fuel ih =>
      intro entries h
      unfold bounded at h
      split at h
      · split at h
        · exact h
        · rename_i oldest _
          have hafter := ih _ h
          rw [OrderedMap.get?_erase] at hafter
          split at hafter
          · cases hafter
          · exact hafter
      · exact h

/-- Dropping the first key drops an entry. -/
theorem size_erase_head {oldest : String} (h : entries.keys.head? = some oldest) :
    (entries.erase oldest).size + 1 = entries.size := by
  obtain ⟨entry, hget⟩ := OrderedMap.mem_keys.mp (List.mem_of_head? h)
  have hcount := OrderedMap.count_erase (fun _ => true) hget
  rw [OrderedMap.size_eq_count, OrderedMap.size_eq_count]
  simpa using hcount.symm

theorem bounded_size (fuel : Nat) :
    ∀ entries : Entries, entries.size ≤ cache.maxEntries + fuel →
      (cache.bounded fuel entries).size ≤ cache.maxEntries := by
  induction fuel with
  | zero => exact fun _ h => h
  | succ fuel ih =>
      intro entries h
      unfold bounded
      split
      · rename_i hfull
        split
        · rename_i hnone
          have hnil : entries.entries = [] := by
            simpa [OrderedMap.keys] using hnone
          rw [OrderedMap.size, hnil] at hfull
          exact absurd hfull (Nat.not_lt_zero _)
        · rename_i oldest holdest
          have hsize := size_erase_head holdest
          exact ih _ (by omega)
      · rename_i hfits
        exact Nat.le_of_not_lt hfits

theorem set_size (status : AccountStatus) (checkedAt : Int) :
    (cache.set entries key status checkedAt).size ≤ cache.maxEntries :=
  bounded_size _ _ (Nat.le_add_left _ _)

theorem set_get? {checkedAt : Int}
    (h : (cache.set entries key status checkedAt).get? k = some entry) :
    entries.get? k = some entry ∨ k = key ∧ entry = ⟨status, checkedAt + cache.ttlMs⟩ := by
  have hbefore := bounded_get? _ _ h
  rw [OrderedMap.get?_set] at hbefore
  split at hbefore
  · rename_i hk
    cases hbefore
    exact .inr ⟨hk, rfl⟩
  · rename_i hk
    rw [OrderedMap.get?_erase_of_ne _ hk] at hbefore
    exact .inl hbefore

end BlockStatusCache

/-! ## Probes -/

/-- A probe later on: the same session and time, and what it answered it has answered. -/
structure Probe.Later (probe probe' : Probe) : Prop where
  userId : probe'.userId = probe.userId
  jwt : probe'.jwt = probe.jwt
  startedAt : probe'.startedAt = probe.startedAt
  access : ∀ access, probe.phase.access? = some access → probe'.phase.access? = some access

def Grown (probes probes' : List Probe) : Prop :=
  ∀ (number : Nat) (probe : Probe), probes[number]? = some probe →
    ∃ probe', probes'[number]? = some probe' ∧ probe.Later probe'

theorem Probe.Later.refl (probe : Probe) : probe.Later probe := ⟨rfl, rfl, rfl, fun _ h => h⟩

theorem grown_refl (probes : List Probe) : Grown probes probes :=
  fun _ probe h => ⟨probe, h, .refl probe⟩

theorem grown_append (probes : List Probe) (probe : Probe) : Grown probes (probes ++ [probe]) := by
  intro number old h
  refine ⟨old, ?_, .refl old⟩
  rw [List.getElem?_append_left (List.getElem?_eq_some_iff.mp h).1]
  exact h

theorem grown_set {probes : List Probe} {number : Nat} {probe probe' : Probe}
    (h : probes[number]? = some probe) (later : probe.Later probe') :
    Grown probes (probes.set number probe') := by
  intro other old hold
  have hlt := (List.getElem?_eq_some_iff.mp hold).1
  rw [List.getElem?_set]
  by_cases heq : number = other
  · subst heq
    rw [h] at hold
    cases hold
    exact ⟨probe', by simp [hlt], later⟩
  · exact ⟨old, by simpa [heq] using hold, .refl old⟩

/-! ## What rests on a probe -/

section Sound
variable (cache : BlockStatusCache) (tokenTag : String → String) (probes : List Probe)

def EntrySound (key : String) (entry : Entry) : Prop :=
  ∃ (number : Nat) (probe : Probe) (user : Nat), probes[number]? = some probe ∧
    probe.userId = some user ∧ key = entryKey user (tokenTag probe.jwt) ∧
    probe.phase.access? = some (.status entry.status) ∧
    entry.expiresAt = probe.startedAt + cache.ttlMs

def WaitingSound (waiting : Waiting) : Prop :=
  waiting.phase.inFlight = true ∧ ∃ probe, probes[waiting.probe]? = some probe ∧
    probe.userId = waiting.userId ∧ probe.jwt = waiting.jwt

/-- The answer is that of a probe of the same session, which is fresh or was in
flight when the request joined it. -/
def AnswerSound (answer : Answer) : Prop :=
  ∃ (number : Nat) (probe : Probe), probes[number]? = some probe ∧
    probe.userId = answer.userId ∧ probe.jwt = answer.jwt ∧
    probe.phase.access? = some answer.access ∧
    (answer.time - cache.ttlMs ≤ probe.startedAt ∨
      ∃ phase, answer.joined = some (number, phase) ∧ phase.inFlight = true)

end Sound

section Grow
variable {cache : BlockStatusCache} {tokenTag : String → String} {probes probes' : List Probe}

theorem EntrySound.grown {key : String} {entry : Entry}
    (h : EntrySound cache tokenTag probes key entry) (grown : Grown probes probes') :
    EntrySound cache tokenTag probes' key entry := by
  obtain ⟨number, probe, user, hprobe, huser, hkey, haccess, hexpires⟩ := h
  obtain ⟨probe', hprobe', hlater⟩ := grown number probe hprobe
  refine ⟨number, probe', user, hprobe', ?_, ?_, hlater.access _ haccess, ?_⟩
  · rw [hlater.userId, huser]
  · rw [hlater.jwt, hkey]
  · rw [hlater.startedAt, hexpires]

theorem WaitingSound.grown {waiting : Waiting} (h : WaitingSound probes waiting)
    (grown : Grown probes probes') : WaitingSound probes' waiting := by
  obtain ⟨hphase, probe, hprobe, huser, hjwt⟩ := h
  obtain ⟨probe', hprobe', hlater⟩ := grown _ probe hprobe
  exact ⟨hphase, probe', hprobe', hlater.userId.trans huser, hlater.jwt.trans hjwt⟩

theorem AnswerSound.grown {answer : Answer} (h : AnswerSound cache probes answer)
    (grown : Grown probes probes') : AnswerSound cache probes' answer := by
  obtain ⟨number, probe, hprobe, huser, hjwt, haccess, hfresh⟩ := h
  obtain ⟨probe', hprobe', hlater⟩ := grown number probe hprobe
  refine ⟨number, probe', hprobe', hlater.userId.trans huser, hlater.jwt.trans hjwt,
    hlater.access _ haccess, ?_⟩
  rw [hlater.startedAt]
  exact hfresh

end Grow

/-- A probe that is in flight for a user has this key. -/
def Probe.Holds (tokenTag : String → String) (probe : Probe) (key : String) : Prop :=
  probe.phase.inFlight = true ∧ ∃ user, probe.userId = some user ∧
    key = entryKey user (tokenTag probe.jwt)

structure Gate.Sound (cache : BlockStatusCache) (tokenTag : String → String)
    (Known : String → Prop) (gate : Gate) : Prop where
  known : ∀ probe ∈ gate.probes, Known probe.jwt
  entries : ∀ key entry, gate.entries.get? key = some entry →
    EntrySound cache tokenTag gate.probes key entry
  inflight : ∀ key number, gate.inflight.get? key = some number ↔
    ∃ probe, gate.probes[number]? = some probe ∧ probe.Holds tokenTag key
  waiting : ∀ waiting ∈ gate.waiting, WaitingSound gate.probes waiting
  answers : ∀ answer ∈ gate.answers, AnswerSound cache gate.probes answer
  size : gate.entries.size ≤ cache.maxEntries

section Steps
variable {cache : BlockStatusCache} {tokenTag : String → String} {Known : String → Prop}
  {gate : Gate} {gate' : Gate}

/-- A gate whose probes have grown, and whose entries, probes in flight, waiting
requests and answers are what they were or sound anew. -/
theorem Gate.Sound.grown (sound : gate.Sound cache tokenTag Known)
    (grown : Grown gate.probes gate'.probes) (known : ∀ probe ∈ gate'.probes, Known probe.jwt)
    (entries : ∀ key entry, gate'.entries.get? key = some entry →
      gate.entries.get? key = some entry ∨ EntrySound cache tokenTag gate'.probes key entry)
    (inflight : ∀ key number, gate'.inflight.get? key = some number ↔
      ∃ probe, gate'.probes[number]? = some probe ∧ probe.Holds tokenTag key)
    (waiting : ∀ waiting ∈ gate'.waiting,
      waiting ∈ gate.waiting ∨ WaitingSound gate'.probes waiting)
    (answers : ∀ answer ∈ gate'.answers,
      answer ∈ gate.answers ∨ AnswerSound cache gate'.probes answer)
    (size : gate'.entries.size ≤ cache.maxEntries) : gate'.Sound cache tokenTag Known where
  known := known
  inflight := inflight
  size := size
  entries := by
    intro key entry hget
    rcases entries key entry hget with hold | hnew
    · exact (sound.entries key entry hold).grown grown
    · exact hnew
  waiting := by
    intro waiting' hmem
    rcases waiting waiting' hmem with hold | hnew
    · exact (sound.waiting waiting' hold).grown grown
    · exact hnew
  answers := by
    intro answer hmem
    rcases answers answer hmem with hold | hnew
    · exact (sound.answers answer hold).grown grown
    · exact hnew

theorem getElem?_sent (probes : List Probe) (probe : Probe) (number : Nat) :
    (probes ++ [probe])[number]? =
      if number = probes.length then some probe else probes[number]? := by
  split
  · rename_i h
    rw [h, List.getElem?_concat_length]
  · rename_i h
    by_cases hlt : number < probes.length
    · exact List.getElem?_append_left hlt
    · have hnone : probes[number]? = none := List.getElem?_eq_none_iff.mpr (by omega)
      rw [hnone]
      apply List.getElem?_eq_none_iff.mpr
      rw [List.length_append, List.length_singleton]
      omega

variable {jwt : String} {number : Nat} {probe : Probe} {userId : Option Nat} {stamp : Int}
  {user : Nat} {probe' : Probe}

theorem mem_sent_known (sound : gate.Sound cache tokenTag Known) (known : Known jwt) :
    ∀ probe ∈ (gate.send userId jwt stamp).probes, Known probe.jwt := by
  intro probe hmem
  rcases List.mem_append.mp hmem with hold | hnew
  · exact sound.known probe hold
  · rw [List.mem_singleton.mp hnew]
    exact known

theorem waiting_sent :
    ∀ waiting ∈ (gate.send userId jwt stamp).waiting, waiting ∈ gate.waiting ∨
      WaitingSound (gate.send userId jwt stamp).probes waiting := by
  intro waiting hmem
  rcases List.mem_append.mp hmem with hold | hnew
  · exact .inl hold
  · rw [List.mem_singleton.mp hnew]
    exact .inr ⟨rfl, _, List.getElem?_concat_length, rfl, rfl⟩

/-- A request without a user id has a probe of its own. -/
theorem Gate.Sound.send_unshared (sound : gate.Sound cache tokenTag Known) (known : Known jwt)
    (stamp : Int) : (gate.send none jwt stamp).Sound cache tokenTag Known := by
  refine sound.grown ?_ ?_ ?_ ?_ ?_ ?_ ?_
  · exact grown_append _ _
  · exact mem_sent_known sound known
  · exact fun _ _ h => .inl h
  · intro key number
    unfold Gate.send
    dsimp only
    rw [getElem?_sent, sound.inflight]
    split
    · rename_i hnew
      constructor
      · rintro ⟨probe, hprobe, -⟩
        have hlt := (List.getElem?_eq_some_iff.mp hprobe).1
        omega
      · rintro ⟨probe, hprobe, -, user, huser, -⟩
        cases hprobe
        cases huser
    · exact Iff.rfl
  · exact waiting_sent
  · exact fun _ h => .inl h
  · exact sound.size

theorem Gate.Sound.send_shared (sound : gate.Sound cache tokenTag Known) (known : Known jwt)
    (stamp : Int) (free : gate.inflight.get? (entryKey user (tokenTag jwt)) = none) :
    ({ gate.send (some user) jwt stamp with
      inflight := gate.inflight.set (entryKey user (tokenTag jwt)) gate.probes.length } :
        Gate).Sound cache tokenTag Known := by
  refine sound.grown ?_ ?_ ?_ ?_ ?_ ?_ ?_
  · exact grown_append _ _
  · exact mem_sent_known sound known
  · exact fun _ _ h => .inl h
  · intro key number
    unfold Gate.send
    dsimp only
    rw [getElem?_sent, OrderedMap.get?_set]
    by_cases hkey : key = entryKey user (tokenTag jwt)
    · subst hkey
      rw [if_pos rfl]
      constructor
      · intro heq
        cases heq
        rw [if_pos rfl]
        exact ⟨_, rfl, rfl, user, rfl, rfl⟩
      · rintro ⟨probe, hprobe, hholds⟩
        split at hprobe
        · rename_i hnew
          rw [hnew]
        · have hbusy := (sound.inflight _ _).mpr ⟨probe, hprobe, hholds⟩
          rw [free] at hbusy
          cases hbusy
    · rw [if_neg hkey, sound.inflight]
      split
      · rename_i hnew
        constructor
        · rintro ⟨probe, hprobe, -⟩
          have hlt := (List.getElem?_eq_some_iff.mp hprobe).1
          omega
        · rintro ⟨probe, hprobe, -, user', huser, hother⟩
          cases hprobe
          cases huser
          exact absurd hother hkey
      · exact Iff.rfl
  · exact waiting_sent
  · exact fun _ h => .inl h
  · exact sound.size

theorem Gate.Sound.request (sound : gate.Sound cache tokenTag Known)
    (distinct : ∀ jwt jwt', Known jwt → Known jwt' → tokenTag jwt = tokenTag jwt' → jwt = jwt')
    (userId : Option Nat) (known : Known jwt) (now stamp : Int) :
    (checkUploadAccess tokenTag gate userId jwt now stamp).Sound cache tokenTag Known := by
  unfold checkUploadAccess
  cases userId with
  | none => exact sound.send_unshared known stamp
  | some user =>
      dsimp only
      have hkept : ∀ key entry, (BlockStatusCache.get gate.entries
          (entryKey user (tokenTag jwt)) now).2.get? key = some entry →
          gate.entries.get? key = some entry := fun _ _ => BlockStatusCache.get_entries
      have hsize : (BlockStatusCache.get gate.entries (entryKey user (tokenTag jwt)) now).2.size ≤
          cache.maxEntries := Nat.le_trans BlockStatusCache.get_size sound.size
      cases hcached : BlockStatusCache.get gate.entries (entryKey user (tokenTag jwt)) now with
      | mk hit entries =>
          rw [hcached] at hkept hsize
          have hpruned : ({ gate with entries := entries } : Gate).Sound cache tokenTag Known := by
            refine sound.grown (grown_refl _) sound.known ?_ sound.inflight ?_ ?_ hsize
            · exact fun key entry h => .inl (hkept key entry h)
            · exact fun _ h => .inl h
            · exact fun _ h => .inl h
          cases hit with
          | some status =>
              refine hpruned.grown (grown_refl _) hpruned.known ?_ hpruned.inflight ?_ ?_ hsize
              · exact fun _ _ h => .inl h
              · exact fun _ h => .inl h
              · intro answer hmem
                rcases List.mem_append.mp hmem with hold | hnew
                · exact .inl hold
                · rw [List.mem_singleton.mp hnew]
                  obtain ⟨-, entry, hget, hstatus, hfresh⟩ := BlockStatusCache.get_hit hcached
                  obtain ⟨number, probe, owner, hprobe, howner, hkey, haccess, hexpires⟩ :=
                    sound.entries _ entry hget
                  obtain ⟨huser, htag⟩ := entryKey_injective hkey
                  have hjwt := distinct jwt probe.jwt known
                    (sound.known probe (List.mem_of_getElem? hprobe)) htag
                  refine .inr ⟨number, probe, hprobe, ?_, hjwt.symm, ?_, .inl ?_⟩
                  · rw [howner, huser]
                  · rw [haccess, hstatus]
                  · dsimp only
                    omega
          | none =>
              dsimp only
              cases hrunning : gate.inflight.get? (entryKey user (tokenTag jwt)) with
              | none => exact hpruned.send_shared known stamp hrunning
              | some running =>
                  refine hpruned.grown (grown_refl _) hpruned.known ?_ hpruned.inflight ?_ ?_ hsize
                  · exact fun _ _ h => .inl h
                  · intro waiting hmem
                    rcases List.mem_append.mp hmem with hold | hnew
                    · exact .inl hold
                    · rw [List.mem_singleton.mp hnew]
                      obtain ⟨probe, hprobe, hphase, owner, howner, hkey⟩ :=
                        (sound.inflight _ _).mp hrunning
                      obtain ⟨huser, htag⟩ := entryKey_injective hkey
                      have hjwt := distinct jwt probe.jwt known
                        (sound.known probe (List.mem_of_getElem? hprobe)) htag
                      refine .inr ⟨?_, probe, hprobe, ?_, hjwt.symm⟩
                      · dsimp only
                        rw [hprobe]
                        exact hphase
                      · rw [howner, huser]
                  · exact fun _ h => .inl h

theorem mem_set_known (sound : gate.Sound cache tokenTag Known)
    (h : gate.probes[number]? = some probe) (jwt : probe'.jwt = probe.jwt) :
    ∀ other ∈ gate.probes.set number probe', Known other.jwt := by
  intro other hmem
  rcases List.mem_or_eq_of_mem_set hmem with hold | rfl
  · exact sound.known other hold
  · rw [jwt]
    exact sound.known probe (List.mem_of_getElem? h)

theorem getElem?_replaced {probes : List Probe} (h : probes[number]? = some probe)
    (probe' : Probe) (other : Nat) :
    (probes.set number probe')[other]? = if other = number then some probe' else probes[other]? := by
  have hlt := (List.getElem?_eq_some_iff.mp h).1
  rw [List.getElem?_set]
  by_cases heq : number = other
  · subst heq
    simp [hlt]
  · rw [if_neg heq, if_neg (Ne.symm heq)]

/-- A changed probe that holds the same keys. -/
theorem holds_replaced (sound : gate.Sound cache tokenTag Known)
    (h : gate.probes[number]? = some probe)
    (same : ∀ key, probe'.Holds tokenTag key ↔ probe.Holds tokenTag key) (key : String)
    (other : Nat) : gate.inflight.get? key = some other ↔
      ∃ p, (gate.probes.set number probe')[other]? = some p ∧ p.Holds tokenTag key := by
  rw [sound.inflight, getElem?_replaced h]
  split
  · rename_i heq
    subst heq
    simp only [h, Option.some.injEq, exists_eq_left', same]
  · exact Iff.rfl

theorem Gate.Sound.reply (sound : gate.Sound cache tokenTag Known)
    (h : gate.probes[number]? = some probe) (unanswered : probe.phase = .sent)
    (access : UploadAccess) :
    (gate.replied cache tokenTag number probe access).Sound cache tokenTag Known := by
  have hlater : ∀ phase, probe.Later { probe with phase := phase } := by
    intro phase
    refine ⟨rfl, rfl, rfl, ?_⟩
    intro answered hanswered
    rw [unanswered] at hanswered
    cases hanswered
  unfold Gate.replied
  cases huser : probe.userId with
  | none =>
      refine sound.grown (grown_set h ?_) (mem_set_known sound h ?_) ?_ (holds_replaced sound h ?_)
        ?_ ?_ sound.size
      · exact huser ▸ hlater (.done access)
      · rfl
      · exact fun _ _ hget => .inl hget
      · intro key
        simp only [Probe.Holds, huser, reduceCtorEq, false_and, exists_const, and_false]
      · exact fun _ hmem => .inl hmem
      · exact fun _ hmem => .inl hmem
  | some user =>
      have hgrown : Grown gate.probes (gate.probes.set number
          { probe with userId := some user, phase := .answered access }) :=
        grown_set h (huser ▸ hlater (.answered access))
      have hsame : ∀ key, Probe.Holds tokenTag
          { probe with userId := some user, phase := .answered access } key ↔
            probe.Holds tokenTag key := by
        intro key
        simp only [Probe.Holds, huser, unanswered, Phase.inFlight]
      cases access with
      | unavailable =>
          refine sound.grown hgrown (mem_set_known sound h ?_) ?_ (holds_replaced sound h hsame)
            ?_ ?_ sound.size
          · rfl
          · exact fun _ _ hget => .inl hget
          · exact fun _ hmem => .inl hmem
          · exact fun _ hmem => .inl hmem
      | status status =>
          refine sound.grown hgrown (mem_set_known sound h ?_) ?_ (holds_replaced sound h hsame)
            ?_ ?_ (BlockStatusCache.set_size status probe.startedAt)
          · rfl
          · intro key entry hget
            rcases BlockStatusCache.set_get? hget with hold | ⟨rfl, rfl⟩
            · exact .inl hold
            · right
              refine ⟨number, ⟨some user, probe.jwt, probe.startedAt, .answered (.status status)⟩,
                user, ?_, rfl, rfl, rfl, rfl⟩
              exact (getElem?_replaced h _ number).trans (if_pos rfl)
          · exact fun _ hmem => .inl hmem
          · exact fun _ hmem => .inl hmem

theorem Gate.Sound.finished (sound : gate.Sound cache tokenTag Known) {startedAt : Int}
    {access : UploadAccess}
    (h : gate.probes[number]? = some ⟨some user, jwt, startedAt, .answered access⟩) :
    ({ gate with
      probes := gate.probes.set number ⟨some user, jwt, startedAt, .done access⟩
      inflight := gate.inflight.erase (entryKey user (tokenTag jwt)) } : Gate).Sound cache tokenTag
        Known := by
  have hlater : Probe.Later ⟨some user, jwt, startedAt, .answered access⟩
      ⟨some user, jwt, startedAt, .done access⟩ := ⟨rfl, rfl, rfl, fun _ hanswered => hanswered⟩
  have hown := (sound.inflight _ _).mpr ⟨_, h, rfl, user, rfl, rfl⟩
  refine sound.grown (grown_set h hlater) (mem_set_known sound h ?_) ?_ ?_ ?_ ?_ sound.size
  · rfl
  · exact fun _ _ hget => .inl hget
  · intro key other
    dsimp only
    rw [OrderedMap.get?_erase, getElem?_replaced h]
    by_cases hother : other = number
    · rw [if_pos hother]
      constructor
      · intro hget
        split at hget
        · cases hget
        · rename_i hkey
          rw [hother] at hget
          obtain ⟨probe, hprobe, -, owner, howner, hheld⟩ := (sound.inflight _ _).mp hget
          rw [h] at hprobe
          cases hprobe
          cases howner
          exact absurd hheld hkey
      · rintro ⟨probe, hprobe, hphase, -⟩
        cases hprobe
        cases hphase
    · rw [if_neg hother]
      split
      · rename_i hkey
        constructor
        · intro hget
          cases hget
        · intro hholds
          rw [← sound.inflight, hkey] at hholds
          dsimp only at hown
          rw [hown] at hholds
          cases hholds
          exact absurd rfl hother
      · exact sound.inflight key other
  · exact fun _ hmem => .inl hmem
  · exact fun _ hmem => .inl hmem

theorem Gate.Sound.answer (sound : gate.Sound cache tokenTag Known) {number : Nat}
    {waiting : Waiting} (hwaiting : gate.waiting[number]? = some waiting) {access : UploadAccess}
    (hdone : gate.probes[waiting.probe]?.map Probe.phase = some (.done access)) (now : Int) :
    ({ gate with
      waiting := gate.waiting.eraseIdx number
      answers := gate.answers ++ [⟨waiting.userId, waiting.jwt, access, now,
        some (waiting.probe, waiting.phase)⟩]
      clock := now } : Gate).Sound cache tokenTag Known := by
  refine sound.grown (grown_refl _) sound.known ?_ sound.inflight ?_ ?_ sound.size
  · exact fun _ _ hget => .inl hget
  · exact fun _ hmem => .inl (List.mem_of_mem_eraseIdx hmem)
  · intro answer hmem
    rcases List.mem_append.mp hmem with hold | hnew
    · exact .inl hold
    · rw [List.mem_singleton.mp hnew]
      obtain ⟨hphase, probe, hprobe, huser, hjwt⟩ :=
        sound.waiting waiting (List.mem_of_getElem? hwaiting)
      rw [hprobe] at hdone
      have hanswered : probe.phase = .done access := Option.some.inj hdone
      refine .inr ⟨waiting.probe, probe, hprobe, huser, hjwt, ?_, .inr ⟨waiting.phase, rfl, hphase⟩⟩
      rw [hanswered]
      rfl

/-! ## Runs -/

def GateStep (cache : BlockStatusCache) (tokenTag : String → String) (gate : Gate)
    (event : GateEvent) (gate' : Gate) : Prop :=
  gate.after cache tokenTag event = some gate'

/-- The tokens that requests of a run present. -/
def GateEvent.jwt? : GateEvent → Option String
  | .request _ jwt _ _ => some jwt
  | _ => none

theorem Gate.Sound.step (sound : gate.Sound cache tokenTag Known)
    (distinct : ∀ jwt jwt', Known jwt → Known jwt' → tokenTag jwt = tokenTag jwt' → jwt = jwt')
    {event : GateEvent} (known : ∀ jwt, event.jwt? = some jwt → Known jwt)
    (step : GateStep cache tokenTag gate event gate') : gate'.Sound cache tokenTag Known := by
  unfold GateStep at step
  cases event with
  | request userId jwt now stamp =>
      simp only [Gate.after] at step
      split at step
      · cases step
        obtain ⟨hknown, hentries, hinflight, hwaiting, hanswers, hsize⟩ :=
          sound.request distinct userId (known jwt rfl) now stamp
        exact ⟨hknown, hentries, hinflight, hwaiting, hanswers, hsize⟩
      · cases step
  | reply number reply =>
      simp only [Gate.after] at step
      split at step
      · cases step
      · rename_i probe hprobe
        split at step
        · rename_i hsent
          cases step
          exact sound.reply hprobe hsent reply.access
        · cases step
  | finished number =>
      simp only [Gate.after] at step
      split at step
      · rename_i hprobe
        cases step
        exact sound.finished hprobe
      · cases step
  | answer number now =>
      simp only [Gate.after] at step
      split at step
      · cases step
      · rename_i waiting hwaiting
        split at step
        · rename_i access hdone
          split at step
          · cases step
            exact sound.answer hwaiting hdone now
          · cases step
        · cases step

theorem Gate.sound_start (clock : Int) : (Gate.start clock).Sound cache tokenTag Known where
  known := nofun
  entries := nofun
  inflight := fun _ _ => ⟨nofun, nofun⟩
  waiting := nofun
  answers := nofun
  size := Nat.zero_le _

end Steps

/-- **Revocation takes effect within the time to live.** In every run whose
tokens have different tags, every answer is that of a probe of its own session
that was sent no longer than the time to live before the answer or was in flight
when the request joined it; no session has two probes in flight; and the cache
stays within its maximum. -/
theorem upload_revocation_bounded (cache : BlockStatusCache) (tokenTag : String → String)
    {clock : Int} {events : List GateEvent} {gate : Gate}
    (distinct : ∀ jwt ∈ events.filterMap GateEvent.jwt?, ∀ jwt' ∈ events.filterMap GateEvent.jwt?,
      tokenTag jwt = tokenTag jwt' → jwt = jwt')
    (run : Run (GateStep cache tokenTag) (Gate.start clock) events gate) :
    (∀ answer ∈ gate.answers, ∃ number probe, gate.probes[number]? = some probe ∧
      probe.userId = answer.userId ∧ probe.jwt = answer.jwt ∧
      probe.phase.access? = some answer.access ∧
      (answer.time - cache.ttlMs ≤ probe.startedAt ∨
        ∃ phase, answer.joined = some (number, phase) ∧ phase.inFlight = true)) ∧
    (∀ (first second : Nat) (probe probe' : Probe) (user : Nat),
      gate.probes[first]? = some probe → gate.probes[second]? = some probe' →
      probe.userId = some user → probe'.userId = some user → probe.jwt = probe'.jwt →
      probe.phase.inFlight = true → probe'.phase.inFlight = true → first = second) ∧
    gate.entries.size ≤ cache.maxEntries := by
  have hsound : gate.Sound cache tokenTag (· ∈ events.filterMap GateEvent.jwt?) := by
    apply run.invariant_of_labels
      (P := fun gate => gate.Sound cache tokenTag (· ∈ events.filterMap GateEvent.jwt?))
      (Q := fun event => ∀ jwt, event.jwt? = some jwt → jwt ∈ events.filterMap GateEvent.jwt?)
    · intro gate event gate' hknown hstep hsound
      exact hsound.step (fun jwt jwt' h h' => distinct jwt h jwt' h') hknown hstep
    · intro event hmem jwt hjwt
      exact List.mem_filterMap.mpr ⟨event, hmem, hjwt⟩
    · exact Gate.sound_start clock
  refine ⟨hsound.answers, ?_, hsound.size⟩
  intro first second probe probe' user hfirst hsecond huser huser' hjwt hphase hphase'
  have hheld := (hsound.inflight _ first).mpr ⟨probe, hfirst, hphase, user, huser, rfl⟩
  have hheld' := (hsound.inflight _ second).mpr ⟨probe', hsecond, hphase', user, huser', rfl⟩
  rw [← hjwt, hheld] at hheld'
  exact Option.some.inj hheld'

/-- The tags of two tokens of one user. -/
def twoTags (jwt : String) : String :=
  if jwt = "anna-laptop" then "3e73e156e51b2368983ab4594b91688ec412f76902dfadea9738dab211ea7d82"
  else "c6247c542e15ae1ed8b162848b4cd976d2edbf4c24c7d92d4b3fb39f34c36a27"

def uploadCache : BlockStatusCache := ⟨BLOCK_STATUS_TTL_MS, BLOCK_STATUS_MAX_ENTRIES⟩

def profileReply : Reply :=
  .response 200 (some (.obj [("data", .obj [("blocked", .bool false)])]))

/-- The laptop's second request joins its probe, its third one finds the answer
cached; the phone has a probe of its own. -/
def twoSessions : List GateEvent :=
  [.request (some 7) "anna-laptop" 0 0, .request (some 7) "anna-laptop" 5 5,
    .request (some 7) "anna-phone" 6 6, .reply 0 profileReply, .finished 0, .answer 0 20,
    .answer 0 20, .request (some 7) "anna-laptop" 1000 1000, .reply 1 .failed]

theorem twoSessions_follow :
    (follow (Gate.after uploadCache twoTags) (Gate.start 0) twoSessions).isSome := by
  decide +kernel

def twoSessionsGate : Gate :=
  (follow (Gate.after uploadCache twoTags) (Gate.start 0) twoSessions).get twoSessions_follow

theorem upload_revocation_bounded_two_sessions :
    twoSessionsGate.answers.length = 3 ∧ twoSessionsGate.entries.size ≤ uploadCache.maxEntries ∧
      ∀ answer ∈ twoSessionsGate.answers, ∃ number probe,
        twoSessionsGate.probes[number]? = some probe ∧ probe.userId = answer.userId ∧
        probe.jwt = answer.jwt ∧ probe.phase.access? = some answer.access ∧
        (answer.time - uploadCache.ttlMs ≤ probe.startedAt ∨
          ∃ phase, answer.joined = some (number, phase) ∧ phase.inFlight = true) := by
  have hrun : Run (GateStep uploadCache twoTags) (Gate.start 0) twoSessions twoSessionsGate :=
    run_of_follow (Option.some_get twoSessions_follow).symm
  have hbounded := upload_revocation_bounded uploadCache twoTags (by decide +kernel) hrun
  exact ⟨by decide +kernel, hbounded.2.2, hbounded.1⟩

end Sinnlos.Web

import Sinnlos.Live.DispatchLoops

/-! # Pings and the catch-up queue over runs

A ping stays answered: its timer is armed, or the loop of its channel is dirty
and will go round again, or a round that began after it read the listeners.
A queued channel moves forward with every released slot.
-/

namespace Sinnlos.Live
open Sinnlos.Runs

/-! ## Listener sets -/

/-- A mapped set belongs to one channel and was made before. -/
structure Listeners.Owned (l : Listeners) : Prop where
  fresh : ∀ channel set, l.map.get? channel = some set → set < l.nextSet
  own : ∀ channel channel' set, l.map.get? channel = some set →
    l.map.get? channel' = some set → channel = channel'

namespace Listeners

variable {l : Listeners} {channel : Channel}

theorem on_of_map {set : SetId} (h : l.map.get? channel = some set) :
    l.on channel = l.members set := by
  rw [on, h]

theorem on_of_unmapped (h : l.map.get? channel = none) : l.on channel = [] := by
  rw [on, h]

theorem members_add (l : Listeners) (set other : SetId) (listener : ListenerId) :
    (l.add set listener).members other =
      if other = set then
        if listener ∈ l.members set then l.members set else l.members set ++ [listener]
      else l.members other := by
  simp only [add, members, OrderedMap.get?_set]
  split <;> rfl

theorem ensure_map (l : Listeners) (channel : Channel) :
    (l.ensure channel).1.map.get? channel = some (l.ensure channel).2 := by
  rw [ensure]
  split
  · assumption
  · simp

theorem Owned.ensure (h : l.Owned) (channel : Channel) : (l.ensure channel).1.Owned := by
  rw [Listeners.ensure]
  split
  · exact h
  · obtain ⟨fresh, own⟩ := h
    constructor
    · intro ch set hset
      simp only [OrderedMap.get?_set] at hset
      split at hset
      · cases hset
        exact Nat.lt_succ_self _
      · exact Nat.lt_succ_of_lt (fresh ch set hset)
    · intro ch ch' set hset hset'
      simp only [OrderedMap.get?_set] at hset hset'
      split at hset
      · split at hset'
        · rename_i h₁ h₂
          rw [h₁, h₂]
        · cases hset
          exact absurd (fresh ch' _ hset') (Nat.lt_irrefl _)
      · split at hset'
        · cases hset'
          exact absurd (fresh ch _ hset) (Nat.lt_irrefl _)
        · exact own ch ch' set hset hset'

theorem Owned.add (h : l.Owned) (set : SetId) (listener : ListenerId) :
    (l.add set listener).Owned :=
  ⟨h.fresh, h.own⟩

theorem Owned.delete (h : l.Owned) (removal : Removal) : (l.delete removal).Owned := by
  simp only [Listeners.delete]
  split
  · obtain ⟨fresh, own⟩ := h
    constructor
    · intro ch set hset
      simp only [OrderedMap.get?_erase] at hset
      split at hset
      · cases hset
      · exact fresh ch set hset
    · intro ch ch' set hset hset'
      simp only [OrderedMap.get?_erase] at hset hset'
      split at hset
      · cases hset
      · split at hset'
        · cases hset'
        · exact own ch ch' set hset hset'
  · exact ⟨h.fresh, h.own⟩

theorem on_ensure (l : Listeners) (channel other : Channel) :
    (l.ensure channel).1.on other ⊆ l.on other ∧
      ∀ set, (l.ensure channel).1.map.get? other = some set → other ≠ channel →
        l.map.get? other = some set := by
  rw [ensure]
  split
  · exact ⟨fun _ hx => hx, fun _ hset _ => hset⟩
  · rename_i hnone
    constructor
    · intro x hx
      simp only [on, members, OrderedMap.get?_set] at hx
      by_cases hch : other = channel
      · simp [hch] at hx
      · simp only [hch, if_false] at hx
        cases hset : l.map.get? other with
        | none => simp [hset] at hx
        | some set =>
            simp only [hset] at hx
            split at hx
            · simp at hx
            · rw [on_of_map hset]
              exact hx
    · intro set hset hne
      simpa [OrderedMap.get?_set, hne] using hset

variable {x : ListenerId}

/-- A registration adds its listener to its channel and nothing else. -/
theorem mem_on_registered (h : l.Owned) {other : Channel} {listener : ListenerId}
    (hx : x ∈ ((l.ensure channel).1.add (l.ensure channel).2 listener).on other) :
    x ∈ l.on other ∨ other = channel ∧ x = listener := by
  have hown := h.ensure channel
  have hmap := ensure_map l channel
  have hsub := (on_ensure l channel other).1
  generalize (l.ensure channel).1 = l₁ at hown hmap hsub hx
  generalize (l.ensure channel).2 = set at hmap hx
  cases hset : l₁.map.get? other with
  | none =>
      have hnone : (l₁.add set listener).map.get? other = none := hset
      rw [on_of_unmapped hnone] at hx
      cases hx
  | some set' =>
      have hsome : (l₁.add set listener).map.get? other = some set' := hset
      rw [on_of_map hsome, members_add] at hx
      rw [on_of_map hset] at hsub
      split at hx
      · rename_i heq
        subst heq
        have hch : other = channel := hown.own other channel set' hset hmap
        split at hx
        · exact Or.inl (hsub hx)
        · rw [List.mem_append, List.mem_singleton] at hx
          rcases hx with hold | hnew
          · exact Or.inl (hsub hold)
          · exact Or.inr ⟨hch, hnew⟩
      · exact Or.inl (hsub hx)

/-- A removal adds nobody. -/
theorem mem_on_deleted {removal : Removal} (hx : x ∈ (l.delete removal).on channel) :
    x ∈ l.on channel := by
  have hmembers : ∀ set, x ∈ ((l.sets.set removal.set
      ((l.members removal.set).filter (· ≠ removal.listener))).get? set).getD [] →
      x ∈ l.members set := by
    intro set hmem
    rw [OrderedMap.get?_set] at hmem
    split at hmem
    · rename_i heq
      rw [heq]
      exact (List.mem_filter.mp hmem).1
    · exact hmem
  simp only [delete] at hx
  split at hx
  · simp only [on, members, OrderedMap.get?_erase] at hx
    split at hx
    · cases hx
    · rename_i set hset
      split at hset
      · cases hset
      · rw [on_of_map hset]
        exact hmembers set hx
  · simp only [on, members] at hx
    split at hx
    · cases hx
    · rename_i set hset
      rw [on_of_map hset]
      exact hmembers set hx

end Listeners

/-! ## An answered ping -/

namespace Dispatch

/-- The running loop of the channel is dirty. -/
def DirtyOn (d : Dispatch) (channel : Channel) : Prop :=
  ∃ id loop, d.inflight.get? channel = some id ∧ d.loops.get? id = some loop ∧ loop.dirty = true

/-- A round on the channel began at or after position `n` of the history, and
every listener now registered was started by it or registered after it. -/
def RoundSince (l : Listeners) (d : Dispatch) (channel : Channel) (n : Nat) : Prop :=
  ∃ i started, n ≤ i ∧ d.history[i]? = some (.round channel started) ∧
    ∀ x ∈ l.on channel, x ∈ started ∨
      ∃ j, i < j ∧ d.history[j]? = some (.registered channel x)

def Answered (l : Listeners) (d : Dispatch) (channel : Channel) (n : Nat) : Prop :=
  channel ∈ d.coalesceTimers ∨ d.DirtyOn channel ∨ d.RoundSince l channel n

variable {more : List Happening} {l l' : Listeners} {d d' : Dispatch} {channel : Channel}
  {n owed : Nat} {id : LoopId} {loop : Loop} {hidden : Prop} {event : TabEvent}

theorem getElem?_of_append {history : List Happening} {i : Nat} {h : Happening}
    (hi : history[i]? = some h) : (history ++ more)[i]? = some h := by
  rw [List.getElem?_append_left (List.getElem?_eq_some_iff.mp hi).choose]
  exact hi

/-- The history goes on and nobody unregistered appears among the listeners. -/
theorem RoundSince.extend (h : d.RoundSince l channel n)
    (history : d'.history = d.history ++ more)
    (appears : ∀ x ∈ l'.on channel, x ∈ l.on channel ∨ .registered channel x ∈ more) :
    d'.RoundSince l' channel n := by
  obtain ⟨i, started, hn, hi, hall⟩ := h
  refine ⟨i, started, hn, ?_, ?_⟩
  · rw [history]
    exact getElem?_of_append hi
  · intro x hx
    rcases appears x hx with hold | hnew
    · rcases hall x hold with hstarted | ⟨j, hij, hj⟩
      · exact Or.inl hstarted
      · right
        refine ⟨j, hij, ?_⟩
        rw [history]
        exact getElem?_of_append hj
    · right
      obtain ⟨k, hk⟩ := List.getElem?_of_mem hnew
      have hlt := (List.getElem?_eq_some_iff.mp hi).choose
      refine ⟨d.history.length + k, by omega, ?_⟩
      rw [history, List.getElem?_append_right (Nat.le_add_right _ _), Nat.add_sub_cancel_left]
      exact hk

theorem RoundSince.grow (h : d.RoundSince l channel n) (history : d'.history = d.history ++ more) :
    d'.RoundSince l channel n :=
  h.extend history fun _ hx => Or.inl hx

theorem round_history (l : Listeners) (d : Dispatch) (id : LoopId) (loop : Loop) :
    (d.round l id loop).history = d.history ++ [.round loop.channel (l.on loop.channel)] := by
  simp only [round]
  split <;> rfl

/-- A round answers every earlier ping of its channel. -/
theorem round_answers (loop : Loop) (hn : n ≤ d.history.length) :
    (d.round l id loop).RoundSince l loop.channel n := by
  refine ⟨d.history.length, l.on loop.channel, hn, ?_, fun x hx => Or.inl hx⟩
  rw [round_history, List.getElem?_append_right (Nat.le_refl _), Nat.sub_self]
  rfl

theorem DirtyOn.finish (h : d.DirtyOn channel) (other : channel ≠ loop.channel)
    (apart : ∀ id', d.inflight.get? channel = some id' → id' ≠ id) :
    (d.finish id loop).DirtyOn channel := by
  obtain ⟨id', loop', hid, hl, hdirty⟩ := h
  refine ⟨id', loop', ?_, ?_, hdirty⟩
  · rw [Dispatch.finish, OrderedMap.get?_erase_of_ne _ other]
    exact hid
  · rw [Dispatch.finish, OrderedMap.get?_erase_of_ne _ (apart id' hid)]
    exact hl

theorem DirtyOn.round (h : d.DirtyOn channel) (other : channel ≠ loop.channel)
    (apart : ∀ id', d.inflight.get? channel = some id' → id' ≠ id) :
    (d.round l id loop).DirtyOn channel := by
  simp only [Dispatch.round]
  split
  · exact DirtyOn.finish (d := { d with history := _ }) h other apart
  · obtain ⟨id', loop', hid, hl, hdirty⟩ := h
    refine ⟨id', loop', hid, ?_, hdirty⟩
    rw [OrderedMap.get?_set_of_ne _ _ (apart id' hid)]
    exact hl

theorem DirtyOn.markDirty (h : d.DirtyOn channel) (id : LoopId) :
    (d.markDirty id).DirtyOn channel := by
  rw [Dispatch.markDirty]
  split
  · exact h
  · rename_i found hfound
    obtain ⟨id', loop', hid, hl, hdirty⟩ := h
    by_cases heq : id' = id
    · exact ⟨id', { found with dirty := true }, hid, by simp [heq], rfl⟩
    · refine ⟨id', loop', hid, ?_, hdirty⟩
      simpa [OrderedMap.get?_set, heq] using hl

theorem DirtyOn.settle (h : d.DirtyOn channel) (id : LoopId) : (d.settle id).DirtyOn channel := by
  rw [Dispatch.settle]
  split
  · exact h
  · rename_i found hfound
    obtain ⟨id', loop', hid, hl, hdirty⟩ := h
    by_cases heq : id' = id
    · rw [heq, hfound] at hl
      cases hl
      exact ⟨id', { found with running := found.running - 1 }, hid, by simp [heq], hdirty⟩
    · refine ⟨id', loop', hid, ?_, hdirty⟩
      simpa [OrderedMap.get?_set, heq] using hl

/-- The loops of other channels are other loops. -/
theorem LoopsAgree.apart (h : d.LoopsAgree owed) (hl : d.loops.get? id = some loop)
    (other : channel ≠ loop.channel) : ∀ id', d.inflight.get? channel = some id' → id' ≠ id := by
  intro id' hid heq
  obtain ⟨loop', hl', hch⟩ := h.loopOf channel id' hid
  rw [heq, hl] at hl'
  cases hl'
  exact other hch.symm

theorem markDirty_history (d : Dispatch) (id : LoopId) :
    (d.markDirty id).history = d.history := by
  rw [markDirty]
  split <;> rfl

theorem runChannel_history (l : Listeners) (d : Dispatch) (channel : Channel) (catchup : Bool) :
    ∃ more, (d.runChannel l channel catchup).history = d.history ++ more := by
  simp only [runChannel]
  split
  · exact ⟨[], by rw [markDirty_history, List.append_nil]⟩
  · exact ⟨_, round_history _ _ _ _⟩

/-- Running a channel answers its pings: a loop in flight goes round again, a
new one starts with a round. -/
theorem runChannel_answers (h : d.LoopsAgree owed) (hn : n ≤ d.history.length) (channel : Channel)
    (catchup : Bool) : Answered l (d.runChannel l channel catchup) channel n := by
  right
  simp only [runChannel]
  split
  · rename_i id hid
    left
    obtain ⟨loop, hl, _⟩ := h.loopOf channel id hid
    refine ⟨id, { loop with dirty := true }, ?_, ?_, rfl⟩
    · simpa [markDirty, hl] using hid
    · simp [markDirty, hl]
  · right
    exact round_answers ⟨channel, false, 0, catchup⟩ hn

theorem Answered.runChannel (ha : Answered l d channel n) (h : d.LoopsAgree owed)
    (hn : n ≤ d.history.length) (run : Channel) (catchup : Bool) :
    Answered l (d.runChannel l run catchup) channel n := by
  by_cases hrun : channel = run
  · rw [hrun]
    exact runChannel_answers h hn run catchup
  · obtain ⟨more, hmore⟩ := runChannel_history l d run catchup
    rcases ha with htimer | hdirty | hround
    · left
      rw [(runChannel_waiting l d run catchup).timers]
      exact htimer
    · right
      left
      simp only [Dispatch.runChannel]
      split
      · exact hdirty.markDirty _
      · obtain ⟨id', loop', hid, hl, hd⟩ := hdirty
        have hentered : (d.enter run).DirtyOn channel :=
          ⟨id', loop', by simpa [enter, OrderedMap.get?_set, hrun] using hid, hl, hd⟩
        refine DirtyOn.round hentered hrun ?_
        intro id'' hid'' heq
        simp only [enter, OrderedMap.get?_set, hrun, if_false] at hid''
        rw [hid] at hid''
        cases hid''
        rw [heq] at hl
        exact Nat.lt_irrefl _ (h.fresh _ _ hl)
    · exact Or.inr (Or.inr (hround.grow hmore))

variable {queue : List Channel} {j : Nat}

theorem Answered.pump (ha : Answered l d channel n) (h : d.LoopsAgree 0)
    (hn : n ≤ d.history.length) : Answered l (pump l queue d) channel n := by
  induction queue generalizing d with
  | nil => exact ha
  | cons next rest ih =>
      rw [Dispatch.pump]
      split
      · rename_i hroom
        have htaken : Answered l (d.take next) channel n := by
          rcases ha with htimer | hdirty | hround
          · exact Or.inl htimer
          · exact Or.inr (Or.inl hdirty)
          · exact Or.inr (Or.inr (hround.grow rfl))
        have hagree := h.take hroom next
        have hlen : n ≤ (d.take next).history.length := by
          simp only [take, List.length_append]
          omega
        obtain ⟨more, hmore⟩ := runChannel_history l (d.take next) next true
        refine ih (htaken.runChannel hagree hlen next true)
          (LoopsAgree.runChannel true hagree l next) ?_
        rw [hmore, List.length_append]
        omega
      · exact ha

/-! ## The queue -/

/-- The channel got a slot at or after position `n` of the history. -/
def Taken (d : Dispatch) (channel : Channel) (n : Nat) : Prop :=
  ∃ i, n ≤ i ∧ d.history[i]? = some (.taken channel)

theorem Taken.grow (h : d.Taken channel n) (history : d'.history = d.history ++ more) :
    d'.Taken channel n := by
  obtain ⟨i, hn, hi⟩ := h
  refine ⟨i, hn, ?_⟩
  rw [history]
  exact getElem?_of_append hi

theorem taken_of_mem (hn : n ≤ d.history.length) (history : d'.history = d.history ++ more)
    (h : .taken channel ∈ more) : d'.Taken channel n := by
  obtain ⟨k, hk⟩ := List.getElem?_of_mem h
  refine ⟨d.history.length + k, by omega, ?_⟩
  rw [history, List.getElem?_append_right (Nat.le_add_right _ _), Nat.add_sub_cancel_left]
  exact hk

/-- The pump takes channels from the front, at least one when a slot is free. -/
theorem pump_spec (l : Listeners) (queue : List Channel) (d : Dispatch) :
    ∃ q more, (pump l queue d).catchupQueue = queue.drop q ∧
      (pump l queue d).history = d.history ++ more ∧
      (∀ channel ∈ queue.take q, .taken channel ∈ more) ∧
      (queue ≠ [] → d.catchupActive < catchupConcurrency → 0 < q) := by
  induction queue generalizing d with
  | nil =>
      refine ⟨0, [], rfl, (List.append_nil _).symm, ?_, fun hne => absurd rfl hne⟩
      intro channel hmem
      cases hmem
  | cons next rest ih =>
      rw [pump]
      split
      · obtain ⟨q, more, hqueue, hhist, htaken, _⟩ :=
          ih ((d.take next).runChannel l next true)
        obtain ⟨ran, hran⟩ := runChannel_history l (d.take next) next true
        refine ⟨q + 1, .taken next :: (ran ++ more), hqueue, ?_, ?_, fun _ _ => Nat.succ_pos q⟩
        · rw [hhist, hran, take]
          simp only [List.append_assoc, List.cons_append, List.nil_append]
        · intro channel hmem
          rw [List.take_succ_cons, List.mem_cons] at hmem
          rcases hmem with heq | hrest
          · rw [heq]
            exact List.mem_cons_self
          · exact List.mem_cons_of_mem _ (List.mem_append_right _ (htaken channel hrest))
      · rename_i hfull
        refine ⟨0, [], rfl, (List.append_nil _).symm, ?_, fun _ hroom => absurd hroom hfull⟩
        intro channel hmem
        cases hmem

theorem foldl_enqueue (queue channels : List Channel) :
    ∃ extra, channels.foldl enqueue queue = queue ++ extra := by
  induction channels generalizing queue with
  | nil => exact ⟨[], (List.append_nil _).symm⟩
  | cons channel rest ih =>
      obtain ⟨extra, hextra⟩ := ih (enqueue queue channel)
      rw [List.foldl_cons, hextra, enqueue]
      split
      · exact ⟨extra, rfl⟩
      · exact ⟨channel :: extra, by rw [List.append_assoc]; rfl⟩

/-- Where a queued channel is after the pump: taken, or that much further. -/
theorem pump_progress (hn : n ≤ d.history.length) (hj : queue[j]? = some channel) :
    (pump l queue d).Taken channel n ∨
      ∃ j', (pump l queue d).catchupQueue[j']? = some channel ∧ j' ≤ j ∧
        (d.catchupActive < catchupConcurrency → j' < j) := by
  obtain ⟨q, more, hqueue, hhist, htaken, hsome⟩ := pump_spec l queue d
  have hne : queue ≠ [] := by
    intro hnil
    rw [hnil] at hj
    cases hj
  by_cases hq : j < q
  · left
    refine taken_of_mem hn hhist (htaken channel ?_)
    refine List.mem_of_getElem? (i := j) ?_
    rw [List.getElem?_take, if_pos hq]
    exact hj
  · right
    refine ⟨j - q, ?_, Nat.sub_le _ _, ?_⟩
    · rw [hqueue, List.getElem?_drop, Nat.add_sub_cancel' (Nat.not_lt.mp hq)]
      exact hj
    · intro hroom
      have hpos := hsome hne hroom
      omega

/-! ## One event -/

/-- An event that finds no hidden tab and is no stop. -/
def Awake (hidden : Prop) (event : TabEvent) : Prop :=
  event ≠ .stop ∧ (hidden → ∀ now, event ≠ .visibilityEvent now)

theorem release_history (l : Listeners) (d : Dispatch) :
    ∃ more, (d.release l).history = d.history ++ more := by
  obtain ⟨_, more, _, hhist, _, _⟩ := pump_spec l d.catchupQueue
    { d with releases := d.releases - 1, catchupActive := d.catchupActive - 1 }
  exact ⟨more, hhist⟩

theorem enqueueCatchup_history (l : Listeners) (d : Dispatch) :
    ∃ more, (d.enqueueCatchup l).history = d.history ++ more := by
  obtain ⟨_, more, _, hhist, _, _⟩ := pump_spec l
    ((catchupChannels l).foldl enqueue d.catchupQueue)
    { d with catchupQueue := (catchupChannels l).foldl enqueue d.catchupQueue }
  exact ⟨more, hhist⟩

theorem settle_history (d : Dispatch) (id : LoopId) : (d.settle id).history = d.history := by
  rw [settle]
  split <;> rfl

theorem resume_history (l : Listeners) (d : Dispatch) (id : LoopId) :
    ∃ more, (d.resume l id).history = d.history ++ more := by
  rw [resume]
  split
  · exact ⟨[], (List.append_nil _).symm⟩
  · split
    · exact ⟨_, round_history _ _ _ _⟩
    · exact ⟨[], (List.append_nil _).symm⟩

/-- The history only grows. -/
theorem history_move (hm : Moves l d hidden event l' d') :
    ∃ more, d'.history = d.history ++ more := by
  cases hm with
  | same event hne | cleared event how | scheduled now data frame hframe =>
      exact ⟨[], (List.append_nil _).symm⟩
  | caughtUp now data => exact enqueueCatchup_history l d
  | fired channel armed => exact runChannel_history l _ channel false
  | settled id => exact ⟨[], by rw [settle_history, List.append_nil]⟩
  | resumed id => exact resume_history l d id
  | released waiting => exact release_history l d
  | registered channel listener => exact ⟨_, rfl⟩
  | removed removal => exact ⟨[], (List.append_nil _).symm⟩

theorem Answered.resume (ha : Answered l d channel n) (h : d.LoopsAgree 0)
    (hn : n ≤ d.history.length) (id : LoopId) : Answered l (d.resume l id) channel n := by
  obtain ⟨more, hmore⟩ := resume_history l d id
  rcases ha with htimer | hdirty | hround
  · left
    rw [(resume_waiting l d id).timers]
    exact htimer
  · right
    simp only [Dispatch.resume]
    split
    · exact Or.inl hdirty
    · rename_i loop hl
      by_cases hch : channel = loop.channel
      · -- the loop of the channel is this one, and it is dirty
        obtain ⟨id', loop', hid, hl', hd⟩ := hdirty
        have hsame := h.inflightOf id loop hl
        rw [← hch, hid] at hsame
        cases hsame
        rw [hl] at hl'
        cases hl'
        rw [if_pos hd, hch]
        exact Or.inr (round_answers loop hn)
      · split
        · exact Or.inl (hdirty.round hch (h.apart hl hch))
        · exact Or.inl (hdirty.finish hch (h.apart hl hch))
  · exact Or.inr (Or.inr (hround.grow hmore))

theorem Answered.same (ha : Answered l d channel n)
    (timers : d.coalesceTimers ⊆ d'.coalesceTimers) (inflight : d'.inflight = d.inflight)
    (loops : d'.loops = d.loops) (history : d'.history = d.history) : Answered l d' channel n := by
  rw [Answered, DirtyOn, RoundSince, inflight, loops, history]
  rcases ha with htimer | hrest
  · exact Or.inl (timers htimer)
  · exact Or.inr hrest

/-- A ping stays answered while the tab is awake. -/
theorem Answered.move (hm : Moves l d hidden event l' d') (awake : Awake hidden event)
    (hs : d.Sound) (owned : l.Owned) (hn : n ≤ d.history.length) (ha : Answered l d channel n) :
    Answered l' d' channel n := by
  cases hm with
  | same event hne => exact ha
  | cleared event how =>
      rcases how with hstop | ⟨hhidden, now, hevent⟩
      · exact absurd hstop awake.1
      · exact absurd hevent (awake.2 hhidden now)
  | scheduled now data frame hframe =>
      exact ha.same (Finset.subset_insert _ _) rfl rfl rfl
  | caughtUp now data =>
      refine Answered.pump (ha.same ?_ ?_ ?_ ?_) (hs.loops.of_same rfl rfl rfl rfl rfl) hn
      · exact Finset.Subset.refl _
      · rfl
      · rfl
      · rfl
  | fired fired armed =>
      have hagree : LoopsAgree { d with
          coalesceTimers := d.coalesceTimers.erase fired } 0 :=
        hs.loops.of_same rfl rfl rfl rfl rfl
      by_cases hch : channel = fired
      · rw [hch]
        exact runChannel_answers hagree hn fired false
      · refine Answered.runChannel ?_ hagree hn fired false
        rcases ha with htimer | hrest
        · exact Or.inl (Finset.mem_erase.mpr ⟨hch, htimer⟩)
        · exact Or.inr hrest
  | settled id =>
      rcases ha with htimer | hdirty | hround
      · left
        rw [(settle_waiting d id).timers]
        exact htimer
      · exact Or.inr (Or.inl (hdirty.settle id))
      · have hhist : (d.settle id).history = d.history ++ [] := by
          rw [settle_history, List.append_nil]
        exact Or.inr (Or.inr (hround.grow hhist))
  | resumed id => exact ha.resume hs.loops hn id
  | released waiting =>
      obtain ⟨h₁, h₂, h₃, h₄, h₅⟩ := hs.loops
      refine Answered.pump (ha.same ?_ ?_ ?_ ?_) ⟨h₁, h₂, h₃, ?_, ?_⟩ hn
      · exact Finset.Subset.refl _
      · rfl
      · rfl
      · rfl
      · show d.catchupActive - 1 = d.loops.count Loop.catchup + (d.releases - 1) + 0
        omega
      · show d.catchupActive - 1 ≤ catchupConcurrency
        omega
  | registered added listener =>
      rcases ha with htimer | hdirty | hround
      · exact Or.inl htimer
      · exact Or.inr (Or.inl hdirty)
      · refine Or.inr (Or.inr (hround.extend rfl fun x hx => ?_))
        rcases Listeners.mem_on_registered owned hx with hold | ⟨hch, hx'⟩
        · exact Or.inl hold
        · rw [hch, hx']
          exact Or.inr List.mem_cons_self
  | removed removal =>
      rcases ha with htimer | hdirty | hround
      · exact Or.inl htimer
      · exact Or.inr (Or.inl hdirty)
      · exact Or.inr (Or.inr (hround.extend (List.append_nil _).symm fun x hx =>
          Or.inl (Listeners.mem_on_deleted hx)))

/-- A queued channel is taken, or keeps its place, or moves forward; a release
moves it. -/
theorem queue_move (hm : Moves l d hidden event l' d') (awake : Awake hidden event) (hs : d.Sound)
    (hn : n ≤ d.history.length) (hj : d.catchupQueue[j]? = some channel) :
    d'.Taken channel n ∨ ∃ j', d'.catchupQueue[j']? = some channel ∧ j' ≤ j ∧
      (event = .release → j' < j) := by
  cases hm with
  | same event hne => exact Or.inr ⟨j, hj, Nat.le_refl j, fun h => absurd h hne⟩
  | cleared event how =>
      rcases how with hstop | ⟨hhidden, now, hevent⟩
      · exact absurd hstop awake.1
      · exact absurd hevent (awake.2 hhidden now)
  | scheduled now data frame hframe =>
      exact Or.inr ⟨j, hj, Nat.le_refl j, fun h => by cases h⟩
  | caughtUp now data =>
      obtain ⟨extra, hextra⟩ := foldl_enqueue d.catchupQueue (catchupChannels l)
      have hj' : ((catchupChannels l).foldl enqueue d.catchupQueue)[j]? = some channel := by
        rw [hextra, List.getElem?_append_left (List.getElem?_eq_some_iff.mp hj).choose]
        exact hj
      rcases pump_progress (l := l) (d := { d with
        catchupQueue := (catchupChannels l).foldl enqueue d.catchupQueue }) hn hj' with
        htaken | ⟨j', hat, hle, _⟩
      · exact Or.inl htaken
      · exact Or.inr ⟨j', hat, hle, fun h => by cases h⟩
  | fired fired armed =>
      refine Or.inr ⟨j, ?_, Nat.le_refl j, fun h => by cases h⟩
      rw [coalesceFired, (runChannel_waiting _ _ _ _).queue]
      exact hj
  | settled id =>
      refine Or.inr ⟨j, ?_, Nat.le_refl j, fun h => by cases h⟩
      rw [(settle_waiting d id).queue]
      exact hj
  | resumed id =>
      refine Or.inr ⟨j, ?_, Nat.le_refl j, fun h => by cases h⟩
      rw [(resume_waiting l d id).queue]
      exact hj
  | released waiting =>
      rcases pump_progress (l := l) (d := { d with
        releases := d.releases - 1, catchupActive := d.catchupActive - 1 }) hn hj with
        htaken | ⟨j', hat, hle, hlt⟩
      · exact Or.inl htaken
      · refine Or.inr ⟨j', hat, hle, fun _ => hlt ?_⟩
        have hslots := hs.loops.slots
        have hbounded := hs.loops.bounded
        show d.catchupActive - 1 < catchupConcurrency
        omega
  | registered added listener | removed removal =>
      exact Or.inr ⟨j, hj, Nat.le_refl j, fun h => by cases h⟩

end Dispatch

/-! ## Over runs -/

variable {event : TabEvent}

theorem Listeners.Owned.move {l l' : Listeners} {d d' : Dispatch} {hidden : Prop}
    (hm : Moves l d hidden event l' d') (h : l.Owned) : l'.Owned := by
  cases hm with
  | registered channel listener => exact (h.ensure channel).add _ listener
  | removed removal => exact h.delete removal
  | same event hne | cleared event how | scheduled now data frame hframe | caughtUp now data
  | fired channel armed | settled id | resumed id | released waiting => exact h

variable {t t' : Tab} {labels : List TabEvent} {channel : Channel} {n : Nat}

theorem owned_reachable (h : Reachable Tab.Initial TabStep t) : t.client.listeners.Owned := by
  refine h.invariant (P := fun t => t.client.listeners.Owned) ?_ ?_
  · intro t h
    obtain ⟨visible, ht⟩ := h
    rw [ht]
    refine ⟨?_, ?_⟩
    · intro channel set hset
      cases hset
    · intro channel channel' set hset
      cases hset
  · intro t event t' hs ho
    exact ho.move (moves_of_step hs)

/-- A step that finds no hidden tab and does not stop the client. -/
def AwakeStep (t : Tab) (event : TabEvent) (t' : Tab) : Prop :=
  TabStep t event t' ∧ Dispatch.Awake (t.visible = false) event

/-- What a run carries from one event to the next. -/
structure Tab.Settled (t : Tab) : Prop where
  sound : t.client.dispatch.Sound
  owned : t.client.listeners.Owned

theorem settled_reachable (h : Reachable Tab.Initial TabStep t) : t.Settled :=
  ⟨sound_reachable h, owned_reachable h⟩

theorem Tab.Settled.step (hs : TabStep t event t') (h : t.Settled) : t'.Settled :=
  ⟨h.sound.move (moves_of_step hs), h.owned.move (moves_of_step hs)⟩

/-- The ping at position `n` of the history stays answered. -/
theorem answered_run (hr : Run AwakeStep t labels t') (h : t.Settled)
    (hn : n ≤ t.client.dispatch.history.length)
    (ha : Dispatch.Answered t.client.listeners t.client.dispatch channel n) :
    Dispatch.Answered t'.client.listeners t'.client.dispatch channel n := by
  induction hr with
  | refl t => exact ha
  | cons hs _ ih =>
      have hm := moves_of_step hs.1
      obtain ⟨more, hmore⟩ := Dispatch.history_move hm
      refine ih (h.step hs.1) ?_ (ha.move hm hs.2 h.sound h.owned hn)
      rw [hmore, List.length_append]
      omega

theorem taken_run (hr : Run AwakeStep t labels t') (h : t.client.dispatch.Taken channel n) :
    t'.client.dispatch.Taken channel n := by
  induction hr with
  | refl t => exact h
  | cons hs _ ih =>
      obtain ⟨more, hmore⟩ := Dispatch.history_move (moves_of_step hs.1)
      exact ih (h.grow hmore)

/-- Every release moves a queued channel forward until it is taken. -/
theorem queue_run {j : Nat} (hr : Run AwakeStep t labels t') (h : t.Settled)
    (hn : n ≤ t.client.dispatch.history.length)
    (hj : t.client.dispatch.catchupQueue[j]? = some channel) :
    t'.client.dispatch.Taken channel n ∨
      ∃ j', t'.client.dispatch.catchupQueue[j']? = some channel ∧
        j' + labels.count .release ≤ j := by
  induction hr generalizing j with
  | refl t => exact Or.inr ⟨j, hj, Nat.le_refl j⟩
  | @cons t m t' event labels hs hrest ih =>
      have hm := moves_of_step hs.1
      obtain ⟨more, hmore⟩ := Dispatch.history_move hm
      have hn' : n ≤ m.client.dispatch.history.length := by
        rw [hmore, List.length_append]
        omega
      rcases Dispatch.queue_move hm hs.2 h.sound hn hj with htaken | ⟨j', hat', hle, hlt⟩
      · exact Or.inl (taken_run hrest htaken)
      · rcases ih (h.step hs.1) hn' hat' with hdone | ⟨j'', hat'', hsum⟩
        · exact Or.inl hdone
        · refine Or.inr ⟨j'', hat'', ?_⟩
          rw [List.count_cons]
          split
          · rename_i hevent
            have hless := hlt (beq_iff_eq.mp hevent)
            omega
          · omega

/-- A ping is answered in every state of every run that finds no hidden tab
and does not stop the client; a channel has one dispatch loop; the catch-up
slots in use never exceed two, and every release takes the queue forward. -/
theorem no_live_ping_lost :
    (∀ s now data frame s' labels t, Reachable Tab.Initial TabStep s →
      data.bind parseLiveFrame = some frame → TabStep s (.source now (.ping data)) s' →
      Run AwakeStep s' labels t →
      frameChannel frame ∈ t.client.dispatch.coalesceTimers ∨
      (∃ id loop, t.client.dispatch.inflight.get? (frameChannel frame) = some id ∧
        t.client.dispatch.loops.get? id = some loop ∧ loop.dirty = true) ∨
      ∃ i started, s'.client.dispatch.history.length ≤ i ∧
        t.client.dispatch.history[i]? = some (.round (frameChannel frame) started) ∧
        ∀ listener ∈ t.client.listeners.on (frameChannel frame), listener ∈ started ∨
          ∃ j, i < j ∧
            t.client.dispatch.history[j]? = some (.registered (frameChannel frame) listener)) ∧
    (∀ t, Reachable Tab.Initial TabStep t →
      (∀ id id' loop loop', t.client.dispatch.loops.get? id = some loop →
        t.client.dispatch.loops.get? id' = some loop' → loop.channel = loop'.channel →
        id = id') ∧
      t.client.dispatch.catchupActive =
        t.client.dispatch.loops.count Loop.catchup + t.client.dispatch.releases ∧
      t.client.dispatch.catchupActive ≤ 2 ∧
      (t.client.dispatch.catchupQueue ≠ [] → t.client.dispatch.catchupActive = 2)) ∧
    (∀ s place channel labels t, Reachable Tab.Initial TabStep s →
      s.client.dispatch.catchupQueue[place]? = some channel → Run AwakeStep s labels t →
      place < labels.count .release →
      ∃ i, s.client.dispatch.history.length ≤ i ∧
        t.client.dispatch.history[i]? = some (.taken channel)) := by
  refine ⟨?_, ?_, ?_⟩
  · intro s now data frame s' labels t hreach hframe hping hrun
    have hsettled := settled_reachable (hreach.next hping)
    refine answered_run hrun hsettled (Nat.le_refl _) (Or.inl ?_)
    obtain ⟨_, rfl⟩ := of_guard hping
    simp only [Tab.withClient, LiveClient.onSourceEvent, LiveClient.onPing, hframe,
      Dispatch.scheduleChannel]
    exact Finset.mem_insert_self _ _
  · intro t hreach
    have hsound := sound_reachable hreach
    refine ⟨fun id id' loop loop' hl hl' hch => hsound.loops.unique hl hl' hch,
      hsound.loops.slots, hsound.loops.bounded, hsound.pumped⟩
  · intro s place channel labels t hreach hplace hrun hreleases
    rcases queue_run hrun (settled_reachable hreach) (Nat.le_refl _) hplace with htaken | hwaits
    · exact htaken
    · obtain ⟨j, _, hsum⟩ := hwaits
      omega

/-! ## A listener that comes after the round -/

/-- An open stream and one listener on the announcements. -/
def oneListener : List TabEvent :=
  [.start 0,
    .source 1 (.hello (some (.obj [("connId", .str "c"), ("emitFresh", .bool true)]))),
    .syncMicrotask, .register announcementsChannel 1]

def announcementsPing : Json := .obj [("type", .str "announcements")]

def pinged : List TabEvent := [.source 2 (.ping (some announcementsPing))]

/-- The ping's dispatch runs to its end; then another listener registers. -/
def dispatchedThenRegistered : List TabEvent :=
  [.coalesceTimer announcementsChannel, .settle 0, .resume 0, .register announcementsChannel 2]

/-- The tab after these events. -/
def seen (events : List TabEvent) : Tab :=
  (follow Tab.step (.loaded true) events).getD (.loaded true)

/-- The second listener is started by no dispatch of the ping. -/
theorem later_listener_not_started :
    ¬ ∀ s now data frame s' labels t, Reachable Tab.Initial TabStep s →
      data.bind parseLiveFrame = some frame → TabStep s (.source now (.ping data)) s' →
      Run AwakeStep s' labels t → s'.client.listeners.on (frameChannel frame) ≠ [] →
      frameChannel frame ∈ t.client.dispatch.coalesceTimers ∨
      (∃ id loop, t.client.dispatch.inflight.get? (frameChannel frame) = some id ∧
        t.client.dispatch.loops.get? id = some loop ∧ loop.dirty = true) ∨
      ∀ listener ∈ t.client.listeners.on (frameChannel frame), ∃ i started,
        s'.client.dispatch.history.length ≤ i ∧
        t.client.dispatch.history[i]? = some (.round (frameChannel frame) started) ∧
        listener ∈ started := by
  intro claimed
  have hs : Run TabStep (.loaded true) oneListener (seen oneListener) := run_of_follow (by rfl)
  have hping : TabStep (seen oneListener) (.source 2 (.ping (some announcementsPing)))
    (seen (oneListener ++ pinged)) := by rfl
  have hrun : Run TabStep (seen (oneListener ++ pinged)) dispatchedThenRegistered
      (seen (oneListener ++ pinged ++ dispatchedThenRegistered)) := run_of_follow (by rfl)
  have hawake := hrun.restrict AwakeStep (by
    intro event hmem s t hs
    refine ⟨hs, ?_, fun _ now => ?_⟩
    · intro heq
      subst heq
      revert hmem
      decide
    · intro heq
      subst heq
      simp [dispatchedThenRegistered] at hmem)
  have hfail := claimed _ 2 (some announcementsPing) .announcements _ _ _
    ⟨_, _, ⟨true, rfl⟩, hs⟩ rfl hping hawake (by decide)
  rcases hfail with htimer | ⟨id, loop, hid, _⟩ | hstarted
  · revert htimer
    decide
  · have hnone : (seen (oneListener ++ pinged ++
      dispatchedThenRegistered)).client.dispatch.inflight.get? announcementsChannel =
        none := by decide
    rw [show frameChannel .announcements = announcementsChannel from rfl, hnone] at hid
    cases hid
  · obtain ⟨i, started, _, hi, hmem⟩ := hstarted 2 (by decide)
    have hhistory : (seen (oneListener ++ pinged ++
        dispatchedThenRegistered)).client.dispatch.history =
        [.registered announcementsChannel 1, .round announcementsChannel [1],
          .registered announcementsChannel 2] := by decide
    have hround := List.mem_of_getElem? hi
    rw [hhistory] at hround
    simp [frameChannel] at hround
    rw [hround] at hmem
    simp at hmem

end Sinnlos.Live

import Mathlib.Data.List.Perm.Subperm
import Mathlib.Data.Option.Basic
import Sinnlos.Web.LoginRateLimit

/-! # What the limiter's operations do to its buckets

Every operation on a store, bucket by bucket. Pruning, refunds and failures
touch the bucket of their key alone; only an append to a full store can take
another bucket, the one of `evicted`.
-/

namespace Sinnlos.Web

section Buckets
variable (dim : Dimension) (store : Store) (key : String) (now : Int)

theorem bucket_set (k : String) (attempts : List Attempt) :
    Store.bucket (OrderedMap.set store key attempts) k =
      if k = key then attempts else store.bucket k := by
  unfold Store.bucket
  rw [OrderedMap.get?_set]
  split <;> rfl

theorem bucket_erase (k : String) :
    Store.bucket (OrderedMap.erase store key) k = if k = key then [] else store.bucket k := by
  unfold Store.bucket
  rw [OrderedMap.get?_erase]
  split <;> rfl

/-- What is live of a bucket. -/
def Store.live : List Attempt := (store.bucket key).filter (·.live dim now)

@[simp] theorem liveAttempts_fst : (liveAttempts dim store key now).1 = store.live dim key now := by
  unfold liveAttempts Store.live Store.bucket
  cases store.get? key with
  | none => rfl
  | some attempts =>
      simp only [Option.getD_some]
      split
      · rfl
      · split <;> rfl

theorem liveAttempts_bucket (k : String) :
    Store.bucket (liveAttempts dim store key now).2 k =
      if k = key then store.live dim key now else store.bucket k := by
  have hsame : store.live dim key now = store.bucket key →
      store.bucket k = if k = key then store.live dim key now else store.bucket k := by
    intro heq
    split
    · rename_i hk
      rw [hk, heq]
    · rfl
  unfold liveAttempts
  cases hget : store.get? key with
  | none =>
      apply hsame
      simp only [Store.live, Store.bucket, hget, Option.getD_none, List.filter_nil]
  | some attempts =>
      have hbucket : store.bucket key = attempts := by simp only [Store.bucket, hget, Option.getD_some]
      dsimp only
      split
      · rename_i hnil
        rw [bucket_erase, Store.live, hbucket, hnil]
      · split
        · rw [bucket_set, Store.live, hbucket]
        · rename_i hlen
          apply hsame
          rw [Store.live, hbucket]
          exact List.filter_sublist.eq_of_length (Decidable.not_not.mp hlen)

theorem size_erase_le : (OrderedMap.erase store key).size ≤ store.size :=
  List.length_filter_le _ _

theorem size_set_le (attempts : List Attempt) (h : key ∈ store.keys) :
    (OrderedMap.set store key attempts).size = store.size := by
  rw [← OrderedMap.size_keys, OrderedMap.keys_set_of_mem h, OrderedMap.size_keys]

theorem liveAttempts_size : (liveAttempts dim store key now).2.size ≤ store.size := by
  unfold liveAttempts
  cases hget : store.get? key with
  | none => exact Nat.le_refl _
  | some attempts =>
      dsimp only
      split
      · exact size_erase_le store key
      · split
        · exact Nat.le_of_eq (size_set_le store key _ (OrderedMap.mem_keys_of_get? hget))
        · exact Nat.le_refl _

/-- The bucket an append takes out of a full store. -/
def evicted : Option String :=
  let rest := OrderedMap.erase (liveAttempts dim store key now).2 key
  if MAX_TRACKED_KEYS ≤ rest.size then victim dim rest now else none

/-- Nothing is evicted from a store below its maximum. -/
theorem evicted_none (h : store.size < MAX_TRACKED_KEYS) : evicted dim store key now = none := by
  have hlive := liveAttempts_size dim store key now
  have herase := size_erase_le (liveAttempts dim store key now).2 key
  unfold evicted
  rw [if_neg (by omega)]

theorem append_bucket (attempt : Attempt) (k : String) :
    Store.bucket (append dim store key attempt now) k =
      if k = key then store.live dim key now ++ [attempt]
      else if evicted dim store key now = some k then [] else store.bucket k := by
  unfold append evicted
  simp only [bucket_set, liveAttempts_fst]
  by_cases hk : k = key
  · rw [if_pos hk, if_pos hk]
  · rw [if_neg hk, if_neg hk]
    have hrest : Store.bucket (OrderedMap.erase (liveAttempts dim store key now).2 key) k =
        store.bucket k := by
      rw [bucket_erase, if_neg hk, liveAttempts_bucket, if_neg hk]
    split
    · unfold evictOne
      cases victim dim (OrderedMap.erase (liveAttempts dim store key now).2 key) now with
      | none => simpa using hrest
      | some other =>
          rw [bucket_erase, hrest]
          simp only [Option.some.injEq, eq_comm]
    · simpa using hrest

/-- A new attempt is live, and an attempt stays live when its place is settled. -/
theorem live_now (attempt : Attempt) (h : 0 < dim.windowMs) (time : attempt.time = now) :
    attempt.live dim now = true := by
  simpa [Attempt.live, time] using h

@[simp] theorem settled_time (ticket : Nat) (attempt : Attempt) :
    (attempt.settled ticket).time = attempt.time := by
  unfold Attempt.settled
  split <;> rfl

@[simp] theorem settled_ticket (ticket : Nat) (attempt : Attempt) :
    (attempt.settled ticket).ticket = attempt.ticket := by
  unfold Attempt.settled
  split <;> rfl

/-- The bucket a failure leaves under its key. -/
def confirmed (ticket : Nat) : List Attempt :=
  if (store.live dim key now).any (·.reservedBy ticket) then
    (store.live dim key now).map (·.settled ticket)
  else store.live dim key now ++ [⟨none, now, false⟩]

theorem confirmed_live (h : 0 < dim.windowMs) (ticket : Nat) :
    (confirmed dim store key now ticket).filter (·.live dim now) =
      confirmed dim store key now ticket := by
  have hlive : ∀ attempt ∈ store.live dim key now, attempt.live dim now = true := by
    intro attempt hmem
    exact (List.mem_filter.mp hmem).2
  rw [List.filter_eq_self]
  intro attempt hmem
  unfold confirmed at hmem
  split at hmem
  · obtain ⟨before, hbefore, rfl⟩ := List.mem_map.mp hmem
    simpa only [Attempt.live, settled_time] using hlive before hbefore
  · rcases List.mem_append.mp hmem with hmem | hmem
    · exact hlive attempt hmem
    · rw [List.mem_singleton] at hmem
      subst hmem
      exact live_now dim now _ h rfl

/-- Whether the failure finds its place gone and counts afresh. -/
def recounts (ticket : Nat) : Bool := !(store.live dim key now).any (·.reservedBy ticket)

theorem confirm_bucket (h : 0 < dim.windowMs) (ticket : Nat) (k : String) :
    Store.bucket (confirm dim store key ticket now).2 k =
      if k = key then confirmed dim store key now ticket
      else if recounts dim store key now ticket ∧
          evicted dim (liveAttempts dim store key now).2 key now = some k then []
      else store.bucket k := by
  have hlive := confirmed_live dim store key now h ticket
  have hagain : Store.live dim (liveAttempts dim store key now).2 key now =
      store.live dim key now := by
    simp only [Store.live, liveAttempts_bucket, if_true, List.filter_filter, Bool.and_self]
  simp only [confirm, liveAttempts_bucket, liveAttempts_fst]
  by_cases hk : k = key
  · rw [if_pos hk, if_pos hk]
    unfold confirmed at hlive ⊢
    split
    · rename_i hany
      rw [if_pos hany] at hlive
      rw [Store.live, bucket_set, if_pos rfl, hlive]
    · rename_i hany
      rw [if_neg hany] at hlive
      rw [Store.live, append_bucket, if_pos rfl, hagain, hlive]
  · rw [if_neg hk, if_neg hk]
    unfold recounts
    split
    · rename_i hany
      rw [bucket_set, if_neg hk, liveAttempts_bucket, if_neg hk]
      simp only [hany, Bool.not_true, Bool.false_eq_true, false_and, if_false]
    · rename_i hany
      rw [append_bucket, if_neg hk, liveAttempts_bucket, if_neg hk]
      rw [Bool.not_eq_true] at hany
      simp only [hany, Bool.not_false, true_and]

/-- A failure tips the bucket when its live failures are exactly the maximum. -/
theorem confirm_fst (h : 0 < dim.windowMs) (ticket : Nat) :
    (confirm dim store key ticket now).1 =
      decide (((confirmed dim store key now ticket).filter fun a => !a.pending).length =
        dim.maxFailures) := by
  have hbucket := confirm_bucket dim store key now h ticket key
  rw [if_pos rfl] at hbucket
  simp only [confirm, liveAttempts_bucket, liveAttempts_fst, if_true] at hbucket ⊢
  rw [hbucket]

theorem refund_bucket (ticket : Nat) (k : String) :
    Store.bucket (refund store key ticket) k =
      if k = key then (store.bucket key).eraseP (·.reservedBy ticket) else store.bucket k := by
  have hsame : (store.bucket key).eraseP (·.reservedBy ticket) = store.bucket key →
      store.bucket k = if k = key then (store.bucket key).eraseP (·.reservedBy ticket)
        else store.bucket k := by
    intro heq
    split
    · rename_i hk
      rw [hk, heq]
    · rfl
  unfold refund
  cases hget : store.get? key with
  | none =>
      apply hsame
      simp only [Store.bucket, hget, Option.getD_none, List.eraseP_nil]
  | some attempts =>
      have hbucket : store.bucket key = attempts := by simp only [Store.bucket, hget, Option.getD_some]
      dsimp only
      split
      · split
        · rename_i hnil
          rw [bucket_erase, hbucket, hnil]
        · rw [bucket_set, hbucket]
      · rename_i hany
        apply hsame
        rw [hbucket]
        apply List.eraseP_of_forall_not
        intro attempt hmem hreserved
        exact hany (List.any_eq_true.mpr ⟨attempt, hmem, hreserved⟩)

end Buckets

/-! ## Places -/

/-- A bucket holds the place of a ticket, reserved at `time`. -/
def HasPlace (bucket : List Attempt) (ticket : Nat) (time : Int) : Prop :=
  ∃ attempt ∈ bucket, attempt.ticket = some ticket ∧ attempt.time = time

/-- Different tickets have different places. -/
theorem tickets_le_places {tickets : List Nat} {bucket : List Attempt} (distinct : tickets.Nodup)
    (h : ∀ ticket ∈ tickets, ∃ attempt ∈ bucket, attempt.ticket = some ticket) :
    tickets.length ≤ bucket.length := by
  have hnodup : (tickets.map some).Nodup := distinct.map (Option.some_injective Nat)
  have hsubset : tickets.map some ⊆ bucket.map Attempt.ticket := by
    intro place hplace
    obtain ⟨ticket, hmem, rfl⟩ := List.mem_map.mp hplace
    obtain ⟨attempt, hattempt, hticket⟩ := h ticket hmem
    exact hticket ▸ List.mem_map_of_mem hattempt
  have hle := (List.subperm_of_subset hnodup hsubset).length_le
  simpa only [List.length_map] using hle

section Places
variable {dim : Dimension} {store : Store} {key : String} {now time : Int} {bucket : List Attempt}
  {ticket : Nat}

theorem HasPlace.live (h : HasPlace (store.bucket key) ticket time)
    (fresh : now - time < dim.windowMs) : HasPlace (store.live dim key now) ticket time := by
  obtain ⟨attempt, hmem, hticket, htime⟩ := h
  refine ⟨attempt, List.mem_filter.mpr ⟨hmem, ?_⟩, hticket, htime⟩
  rw [Attempt.live, htime]
  exact decide_eq_true fresh

theorem HasPlace.append (h : HasPlace bucket ticket time) (more : List Attempt) :
    HasPlace (bucket ++ more) ticket time := by
  obtain ⟨attempt, hmem, hplace⟩ := h
  exact ⟨attempt, List.mem_append_left _ hmem, hplace⟩

/-- Settling a ticket leaves every place. -/
theorem HasPlace.settled (h : HasPlace bucket ticket time) (settled : Nat) :
    HasPlace (bucket.map (·.settled settled)) ticket time := by
  obtain ⟨attempt, hmem, hticket, htime⟩ := h
  refine ⟨attempt.settled settled, List.mem_map_of_mem hmem, ?_, ?_⟩
  · rw [settled_ticket, hticket]
  · rw [settled_time, htime]

/-- A refund takes no other ticket's place. -/
theorem HasPlace.erased {other : Nat} (h : HasPlace bucket ticket time) (ne : ticket ≠ other) :
    HasPlace (bucket.eraseP (·.reservedBy other)) ticket time := by
  obtain ⟨attempt, hmem, hticket, htime⟩ := h
  have hkept : ¬ attempt.reservedBy other = true := by
    simp only [Attempt.reservedBy, hticket, Option.some.injEq, decide_eq_true_eq]
    exact ne
  exact ⟨attempt, (List.mem_eraseP_of_neg hkept).mpr hmem, hticket, htime⟩

theorem HasPlace.confirmed {settled : Nat} (h : HasPlace (store.bucket key) ticket time)
    (fresh : now - time < dim.windowMs) :
    HasPlace (confirmed dim store key now settled) ticket time := by
  unfold Web.confirmed
  split
  · exact (h.live fresh).settled settled
  · exact (h.live fresh).append _

end Places

end Sinnlos.Web

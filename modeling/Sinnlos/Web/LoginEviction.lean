import Sinnlos.Web.LoginFlights

/-! # Which buckets a full store forgets

Every bucket a call evicts, with the store the eviction looked at. A run of any calls
at any times keeps both stores within their maximum; a blocked bucket is given up only
where the eviction saw blocked ones alone, and a bucket that was blocked goes in no
other way than by an eviction or by the success of its own identifier.
-/

namespace Sinnlos.Web

open Sinnlos.Runs

/-! ## Evictions -/

/-- A bucket that was taken out of a full store, and the store as the eviction saw it. -/
structure Eviction where
  dim : Dimension
  seen : Store
  gone : String

/-- The live attempts of a bucket have reached the maximum. -/
def Store.Blocked (dim : Dimension) (store : Store) (key : String) (now : Int) : Prop :=
  dim.maxFailures ≤ (store.live dim key now).length

section
variable (dim : Dimension) (store : Store) (key : String) (now : Int)

/-- What an append evicts. Its own key moves to the end and is not looked at. -/
def appendEvictions : List Eviction :=
  let seen := OrderedMap.erase (liveAttempts dim store key now).2 key
  (evicted dim store key now).toList.map fun gone => ⟨dim, seen, gone⟩

/-- A failure evicts where it is counted afresh. -/
def confirmEvictions (ticket : Nat) : List Eviction :=
  if recounts dim store key now ticket then
    appendEvictions dim (liveAttempts dim store key now).2 key now
  else []

end

/-- What a call evicts from the two stores. -/
def Limiter.evictions (toLowerCase : String → String) (limiter : Limiter) :
    LimiterCall → List Eviction
  | .isBlocked _ _ _ => []
  | .tryAcquire ip identifier now =>
      let (blocked, limiter) := isBlocked toLowerCase limiter ip identifier now
      if blocked then []
      else
        appendEvictions ipDimension limiter.ipAttempts (rateLimitKeyForIp toLowerCase ip) now ++
          appendEvictions identifierDimension limiter.identifierAttempts
            (normalizeIdentifier toLowerCase identifier) now
  | .settle ticket outcome now =>
      match limiter.openTickets.get? ticket with
      | none => []
      | some reservation =>
          if outcome = .failure then
            confirmEvictions ipDimension limiter.ipAttempts reservation.ipKey now ticket ++
              confirmEvictions identifierDimension limiter.identifierAttempts
                reservation.identifierKey now ticket
          else []

/-- Whether an eviction spared what it could: a blocked bucket goes only where every
bucket looked at is blocked. -/
def Eviction.Fair (eviction : Eviction) (now : Int) : Prop :=
  eviction.seen.Blocked eviction.dim eviction.gone now →
    ∀ entry ∈ eviction.seen.entries.take EVICTION_SCAN_LIMIT,
      eviction.seen.Blocked eviction.dim entry.1 now

/-! ## The bucket that is chosen -/

section Choice
variable {dim : Dimension} {store : Store} {key : String} {now : Int}

theorem bucket_of_mem {entry : String × List Attempt} (h : entry ∈ store.entries) :
    store.bucket entry.1 = entry.2 := by
  have hget : store.get? entry.1 = some entry.2 := OrderedMap.get?_eq_some.mpr h
  rw [Store.bucket, hget, Option.getD_some]

/-- The chosen bucket is in the store. -/
theorem victim_mem (h : victim dim store now = some key) : key ∈ store.keys := by
  unfold victim at h
  obtain ⟨entry, hentry, rfl⟩ := Option.map_eq_some_iff.mp h
  apply List.mem_map_of_mem
  rcases Option.or_eq_some_iff.mp hentry with hfind | ⟨-, hhead⟩
  · exact List.mem_of_mem_take (List.mem_of_find?_eq_some hfind)
  · exact List.mem_of_mem_head? hhead

/-- A store with buckets has one to choose. -/
theorem victim_isSome (dim : Dimension) (now : Int) (h : 0 < store.size) : ∃ key, victim dim store now = some key := by
  obtain ⟨entries, hnodup⟩ := store
  cases entries with
  | nil => simp [OrderedMap.size] at h
  | cons entry entries =>
      unfold victim
      cases hfind : List.find? (fun entry : String × List Attempt =>
        decide ((entry.2.filter (·.live dim now)).length < dim.maxFailures))
          ((entry :: entries).take EVICTION_SCAN_LIMIT) with
      | none => exact ⟨entry.1, by simp [hfind]⟩
      | some found => exact ⟨found.1, by simp [hfind]⟩

/-- A blocked bucket is chosen only where every probed one is blocked. -/
theorem victim_fair (h : victim dim store now = some key) : Eviction.Fair ⟨dim, store, key⟩ now := by
  intro hblocked entry hentry
  have hopen : ∀ entry ∈ store.entries, ¬store.Blocked dim entry.1 now ↔
      decide ((entry.2.filter (·.live dim now)).length < dim.maxFailures) = true := by
    intro entry hmem
    rw [Store.Blocked, Store.live, bucket_of_mem hmem, decide_eq_true_eq]
    omega
  by_contra hnot
  unfold victim at h
  obtain ⟨chosen, hchosen, rfl⟩ := Option.map_eq_some_iff.mp h
  rcases Option.or_eq_some_iff.mp hchosen with hfind | ⟨hnone, -⟩
  · have hmem := List.mem_of_mem_take (List.mem_of_find?_eq_some hfind)
    have hshort := List.find?_some hfind
    exact (hopen chosen hmem).mpr hshort hblocked
  · have hclosed := List.find?_eq_none.mp hnone entry hentry
    exact hclosed ((hopen entry (List.mem_of_mem_take hentry)).mp hnot)

end Choice

/-! ## Sizes -/

section Sizes
variable (dim : Dimension) (store : Store) (key : String) (now : Int)

theorem size_erase_of_mem (h : key ∈ store.keys) :
    (OrderedMap.erase store key).size < store.size := by
  have hle := size_erase_le store key
  have hkeys : (OrderedMap.erase store key).size ≠ store.size := by
    intro heq
    have hentries : (OrderedMap.erase store key).entries = store.entries :=
      List.filter_sublist.eq_of_length heq
    have hmem : key ∈ (OrderedMap.erase store key).keys := by
      rw [OrderedMap.keys, hentries]
      exact h
    exact (OrderedMap.mem_keys_erase.mp hmem).2 rfl
  omega

theorem size_set_le_succ (attempts : List Attempt) :
    (OrderedMap.set store key attempts).size ≤ store.size + 1 := by
  by_cases h : key ∈ store.keys
  · rw [size_set_le store key attempts h]
    omega
  · rw [OrderedMap.size, OrderedMap.entries_set_of_not_mem h, List.length_append]
    exact Nat.le_refl _

theorem evictOne_size (h : MAX_TRACKED_KEYS ≤ store.size) :
    (evictOne dim store now).size < store.size := by
  have hpos : 0 < store.size := Nat.lt_of_lt_of_le (by decide) h
  obtain ⟨gone, hgone⟩ := victim_isSome dim now hpos
  rw [evictOne, hgone]
  exact size_erase_of_mem store gone (victim_mem hgone)

/-- An append makes room before it adds a bucket. -/
theorem append_size (attempt : Attempt) (h : store.size ≤ MAX_TRACKED_KEYS) :
    (append dim store key attempt now).size ≤ MAX_TRACKED_KEYS := by
  have hlive := liveAttempts_size dim store key now
  have herase := size_erase_le (liveAttempts dim store key now).2 key
  unfold append
  dsimp only
  split
  · rename_i hfull
    have hroom := evictOne_size dim _ now hfull
    have hset := size_set_le_succ (evictOne dim
        (OrderedMap.erase (liveAttempts dim store key now).2 key) now) key
      ((liveAttempts dim store key now).1 ++ [attempt])
    omega
  · have hset := size_set_le_succ (OrderedMap.erase (liveAttempts dim store key now).2 key) key
      ((liveAttempts dim store key now).1 ++ [attempt])
    omega

theorem mem_keys_of_bucket (h : store.bucket key ≠ []) : key ∈ store.keys := by
  by_contra hnot
  apply h
  rw [Store.bucket, OrderedMap.get?_eq_none.mpr hnot, Option.getD_none]

theorem confirm_size (ticket : Nat) (h : store.size ≤ MAX_TRACKED_KEYS) :
    (confirm dim store key ticket now).2.size ≤ MAX_TRACKED_KEYS := by
  have hlive := liveAttempts_size dim store key now
  simp only [confirm, liveAttempts_fst]
  split
  · rename_i hany
    have hmem : key ∈ (liveAttempts dim store key now).2.keys := by
      apply mem_keys_of_bucket _ key
      rw [liveAttempts_bucket, if_pos rfl]
      intro hnil
      rw [hnil] at hany
      cases hany
    have hset := size_set_le _ key ((store.live dim key now).map (·.settled ticket)) hmem
    have hagain := liveAttempts_size dim (OrderedMap.set (liveAttempts dim store key now).2 key
      ((store.live dim key now).map (·.settled ticket))) key now
    omega
  · have happend := append_size dim _ key now ⟨none, now, false⟩ (Nat.le_trans hlive h)
    have hagain := liveAttempts_size dim
      (append dim (liveAttempts dim store key now).2 key ⟨none, now, false⟩ now) key now
    omega

theorem refund_size (ticket : Nat) : (refund store key ticket).size ≤ store.size := by
  unfold refund
  cases hget : store.get? key with
  | none => exact Nat.le_refl _
  | some attempts =>
      dsimp only
      split
      · split
        · exact size_erase_le store key
        · exact Nat.le_of_eq (size_set_le store key _ (OrderedMap.mem_keys_of_get? hget))
      · exact Nat.le_refl _

end Sizes

/-! ## One call -/

/-- Both stores within their maximum. -/
def Limiter.Bounded (limiter : Limiter) : Prop :=
  limiter.ipAttempts.size ≤ MAX_TRACKED_KEYS ∧ limiter.identifierAttempts.size ≤ MAX_TRACKED_KEYS

section Calls
variable (toLowerCase : String → String) {limiter : Limiter} {ip identifier key : String}
  {now : Int} {ticket : Nat} {outcome : Outcome}

theorem Limiter.Bounded.isBlocked (h : limiter.Bounded) (ip identifier : String) (now : Int) :
    (isBlocked toLowerCase limiter ip identifier now).2.Bounded := by
  have hip := liveAttempts_size ipDimension limiter.ipAttempts
    (rateLimitKeyForIp toLowerCase ip) now
  have hidentifier := liveAttempts_size identifierDimension limiter.identifierAttempts
    (normalizeIdentifier toLowerCase identifier) now
  unfold Web.isBlocked
  dsimp only
  split
  · exact ⟨Nat.le_trans hip h.1, h.2⟩
  · exact ⟨Nat.le_trans hip h.1, Nat.le_trans hidentifier h.2⟩

theorem Limiter.Bounded.after (h : limiter.Bounded) (call : LimiterCall) :
    (limiter.after toLowerCase call).Bounded := by
  cases call with
  | isBlocked ip identifier now => exact h.isBlocked toLowerCase ip identifier now
  | tryAcquire ip identifier now =>
      have hchecked := h.isBlocked toLowerCase ip identifier now
      show (tryAcquire toLowerCase limiter ip identifier now).2.Bounded
      unfold tryAcquire
      dsimp only
      split
      · exact hchecked
      · exact ⟨append_size _ _ _ now _ hchecked.1, append_size _ _ _ now _ hchecked.2⟩
  | settle ticket outcome now =>
      show (settle limiter ticket outcome now).2.Bounded
      cases hopen : limiter.openTickets.get? ticket with
      | none => simpa only [settle, hopen] using h
      | some own =>
          simp only [settle, hopen]
          split
          · exact ⟨confirm_size _ _ _ now ticket h.1, confirm_size _ _ _ now ticket h.2⟩
          · constructor
            · exact Nat.le_trans (refund_size _ _ ticket) h.1
            · have hrefund := refund_size limiter.identifierAttempts own.identifierKey ticket
              have herase := size_erase_le
                (refund limiter.identifierAttempts own.identifierKey ticket) own.identifierKey
              have hbound := h.2
              dsimp only
              split
              · omega
              · omega

theorem appendEvictions_fair (dim : Dimension) (store : Store) :
    ∀ eviction ∈ appendEvictions dim store key now, eviction.Fair now := by
  intro eviction hmem
  obtain ⟨gone, hgone, rfl⟩ := List.mem_map.mp hmem
  rw [Option.mem_toList] at hgone
  unfold evicted at hgone
  dsimp only at hgone
  split at hgone
  · exact victim_fair hgone
  · cases hgone

theorem confirmEvictions_fair (dim : Dimension) (store : Store) :
    ∀ eviction ∈ confirmEvictions dim store key now ticket, eviction.Fair now := by
  intro eviction hmem
  unfold confirmEvictions at hmem
  split at hmem
  · exact appendEvictions_fair dim _ eviction hmem
  · cases hmem

theorem evictions_fair (call : LimiterCall) :
    ∀ eviction ∈ limiter.evictions toLowerCase call, eviction.Fair call.now := by
  intro eviction hmem
  cases call with
  | isBlocked ip identifier now => cases hmem
  | tryAcquire ip identifier now =>
      simp only [Limiter.evictions] at hmem
      split at hmem
      · cases hmem
      · rcases List.mem_append.mp hmem with hmem | hmem
        · exact appendEvictions_fair _ _ eviction hmem
        · exact appendEvictions_fair _ _ eviction hmem
  | settle ticket outcome now =>
      simp only [Limiter.evictions] at hmem
      split at hmem
      · cases hmem
      · split at hmem
        · rcases List.mem_append.mp hmem with hmem | hmem
          · exact confirmEvictions_fair _ _ eviction hmem
          · exact confirmEvictions_fair _ _ eviction hmem
        · cases hmem

/-! ## Blocked buckets that go -/

variable {dim : Dimension} {store : Store}

theorem Store.Blocked.live_ne_nil (h : store.Blocked dim key now) (hmax : 0 < dim.maxFailures) :
    store.live dim key now ≠ [] := by
  intro hnil
  rw [Store.Blocked, hnil, List.length_nil] at h
  omega

theorem Store.Blocked.bucket_ne_nil (h : store.Blocked dim key now) (hmax : 0 < dim.maxFailures) :
    store.bucket key ≠ [] := by
  intro hnil
  apply h.live_ne_nil hmax
  rw [Store.live, hnil, List.filter_nil]

variable {own : String}

theorem append_forgets {attempt : Attempt} (hbucket : store.bucket key ≠ [])
    (hgone : Store.bucket (append dim store own attempt now) key = []) :
    ∃ eviction ∈ appendEvictions dim store own now, eviction.dim = dim ∧ eviction.gone = key := by
  rw [append_bucket] at hgone
  split at hgone
  · simp at hgone
  · split at hgone
    · rename_i hevicted
      have hmem : key ∈ (evicted dim store own now).toList := Option.mem_toList.mpr hevicted
      exact ⟨_, List.mem_map_of_mem hmem, rfl, rfl⟩
    · exact absurd hgone hbucket

theorem confirm_forgets (hwindow : 0 < dim.windowMs) (hbucket : store.bucket key ≠ [])
    (hgone : Store.bucket (confirm dim store own ticket now).2 key = []) :
    (∃ eviction ∈ confirmEvictions dim store own now ticket,
        eviction.dim = dim ∧ eviction.gone = key) := by
  rw [confirm_bucket dim store own now hwindow] at hgone
  split at hgone
  · unfold confirmed at hgone
    split at hgone
    · rename_i hany
      rw [List.map_eq_nil_iff.mp hgone] at hany
      cases hany
    · simp at hgone
  · split at hgone
    · rename_i hevicted
      obtain ⟨hrecounts, hevicted⟩ := hevicted
      have hmem : key ∈ (evicted dim (liveAttempts dim store own now).2 own now).toList :=
        Option.mem_toList.mpr hevicted
      rw [confirmEvictions, if_pos hrecounts]
      exact ⟨_, List.mem_map_of_mem hmem, rfl, rfl⟩
    · exact absurd hgone hbucket

/-- A refund takes one attempt, so a blocked bucket keeps the others. -/
theorem refund_keeps (own : String) (ticket : Nat) (h : store.Blocked dim key now)
    (hmax : 1 < dim.maxFailures) : Store.bucket (refund store own ticket) key ≠ [] := by
  have hne := h.bucket_ne_nil (by omega)
  rw [refund_bucket]
  split
  · rename_i hkey
    rw [← hkey]
    intro hnil
    have hlive : (store.live dim key now).length ≤ (store.bucket key).length :=
      List.length_filter_le _ _
    have hmost : (store.bucket key).length - 1 ≤
        ((store.bucket key).eraseP (·.reservedBy ticket)).length := List.le_length_eraseP
    rw [hnil, List.length_nil] at hmost
    rw [Store.Blocked] at h
    omega
  · exact hne

theorem isBlocked_ip_keeps (ip identifier : String)
    (h : limiter.ipAttempts.Blocked ipDimension key now) :
    Store.bucket (isBlocked toLowerCase limiter ip identifier now).2.ipAttempts key ≠ [] := by
  rw [isBlocked_ipBucket]
  split
  · rename_i hkey
    exact hkey ▸ h.live_ne_nil (by decide)
  · exact h.bucket_ne_nil (by decide)

theorem isBlocked_identifier_keeps (ip identifier : String)
    (h : limiter.identifierAttempts.Blocked identifierDimension key now) :
    Store.bucket (isBlocked toLowerCase limiter ip identifier now).2.identifierAttempts key ≠
      [] := by
  rw [isBlocked_identifierBucket]
  split
  · rename_i hkey
    exact hkey.2 ▸ h.live_ne_nil (by decide)
  · exact h.bucket_ne_nil (by decide)

/-- A blocked client goes only by an eviction. -/
theorem ip_forgotten (call : LimiterCall)
    (h : limiter.ipAttempts.Blocked ipDimension key call.now)
    (hgone : Store.bucket (limiter.after toLowerCase call).ipAttempts key = []) :
    ∃ eviction ∈ limiter.evictions toLowerCase call,
      eviction.dim = ipDimension ∧ eviction.gone = key := by
  cases call with
  | isBlocked ip identifier now =>
      exact absurd hgone (isBlocked_ip_keeps toLowerCase ip identifier h)
  | tryAcquire ip identifier now =>
      have hkept := isBlocked_ip_keeps toLowerCase ip identifier h
      change Store.bucket (tryAcquire toLowerCase limiter ip identifier now).2.ipAttempts key = []
        at hgone
      unfold tryAcquire at hgone
      unfold Limiter.evictions
      dsimp only at hgone ⊢
      split at hgone
      · exact absurd hgone hkept
      · rename_i hopen
        rw [if_neg hopen]
        obtain ⟨eviction, hmem, hspec⟩ := append_forgets hkept hgone
        exact ⟨eviction, List.mem_append_left _ hmem, hspec⟩
  | settle ticket outcome now =>
      have hkept := h.bucket_ne_nil (by decide)
      change Store.bucket (settle limiter ticket outcome now).2.ipAttempts key = [] at hgone
      unfold Limiter.evictions
      cases hopen : limiter.openTickets.get? ticket with
      | none =>
          simp only [settle, hopen] at hgone
          exact absurd hgone hkept
      | some own =>
          simp only [settle, hopen] at hgone ⊢
          split at hgone
          · rename_i hfailure
            rw [if_pos hfailure]
            obtain ⟨eviction, hmem, hspec⟩ := confirm_forgets (by decide) hkept hgone
            exact ⟨eviction, List.mem_append_left _ hmem, hspec⟩
          · exact absurd hgone (refund_keeps own.ipKey ticket h (by decide))

/-- A blocked identifier goes by an eviction or by a success of its own. -/
theorem identifier_forgotten (call : LimiterCall)
    (h : limiter.identifierAttempts.Blocked identifierDimension key call.now)
    (hgone : Store.bucket (limiter.after toLowerCase call).identifierAttempts key = []) :
    (∃ eviction ∈ limiter.evictions toLowerCase call,
        eviction.dim = identifierDimension ∧ eviction.gone = key) ∨
      ∃ ticket own, call = .settle ticket .success call.now ∧
        limiter.openTickets.get? ticket = some own ∧ own.identifierKey = key := by
  cases call with
  | isBlocked ip identifier now =>
      exact absurd hgone (isBlocked_identifier_keeps toLowerCase ip identifier h)
  | tryAcquire ip identifier now =>
      have hkept := isBlocked_identifier_keeps toLowerCase ip identifier h
      change Store.bucket (tryAcquire toLowerCase limiter ip identifier now).2.identifierAttempts
        key = [] at hgone
      unfold tryAcquire at hgone
      unfold Limiter.evictions
      dsimp only at hgone ⊢
      left
      split at hgone
      · exact absurd hgone hkept
      · rename_i hopen
        rw [if_neg hopen]
        obtain ⟨eviction, hmem, hspec⟩ := append_forgets hkept hgone
        exact ⟨eviction, List.mem_append_right _ hmem, hspec⟩
  | settle ticket outcome now =>
      have hkept := h.bucket_ne_nil (by decide)
      change Store.bucket (settle limiter ticket outcome now).2.identifierAttempts key = []
        at hgone
      unfold Limiter.evictions
      cases hopen : limiter.openTickets.get? ticket with
      | none =>
          simp only [settle, hopen] at hgone
          exact absurd hgone hkept
      | some own =>
          simp only [settle, hopen] at hgone ⊢
          split at hgone
          · rename_i hfailure
            rw [if_pos hfailure]
            left
            obtain ⟨eviction, hmem, hspec⟩ := confirm_forgets (by decide) hkept hgone
            exact ⟨eviction, List.mem_append_right _ hmem, hspec⟩
          · have hrefunded := refund_keeps own.identifierKey ticket h (by decide)
            right
            dsimp only at hgone
            split at hgone
            · rename_i hsuccess
              rw [bucket_erase] at hgone
              split at hgone
              · rename_i hkey
                exact ⟨ticket, own, by rw [hsuccess]; rfl, hopen, hkey.symm⟩
              · exact absurd hgone hrefunded
            · exact absurd hgone hrefunded

end Calls

/-! ## Runs -/

/-- One call, at any time. -/
def AnyCall (toLowerCase : String → String) (limiter : Limiter) (call : LimiterCall)
    (limiter' : Limiter) : Prop :=
  limiter' = limiter.after toLowerCase call

/-- In every run the stores keep within their maximum. What the next call evicts is a
blocked bucket only where all that the eviction looked at are blocked; and a bucket that
was blocked is gone after the call only where it was evicted, or where its own identifier
succeeded. -/
theorem blocked_buckets_go_last (toLowerCase : String → String) {limiter : Limiter}
    (h : Reachable (· = createLoginRateLimiter) (AnyCall toLowerCase) limiter) :
    (limiter.ipAttempts.size ≤ MAX_TRACKED_KEYS ∧
        limiter.identifierAttempts.size ≤ MAX_TRACKED_KEYS) ∧
      ∀ call : LimiterCall,
        (∀ eviction ∈ limiter.evictions toLowerCase call,
          eviction.seen.Blocked eviction.dim eviction.gone call.now →
            ∀ entry ∈ eviction.seen.entries.take EVICTION_SCAN_LIMIT,
              eviction.seen.Blocked eviction.dim entry.1 call.now) ∧
        (∀ key, limiter.ipAttempts.Blocked ipDimension key call.now →
          key ∉ (limiter.after toLowerCase call).ipAttempts.keys →
            ∃ eviction ∈ limiter.evictions toLowerCase call,
              eviction.dim = ipDimension ∧ eviction.gone = key) ∧
        ∀ key, limiter.identifierAttempts.Blocked identifierDimension key call.now →
          key ∉ (limiter.after toLowerCase call).identifierAttempts.keys →
            (∃ eviction ∈ limiter.evictions toLowerCase call,
                eviction.dim = identifierDimension ∧ eviction.gone = key) ∨
              ∃ ticket own, call = .settle ticket .success call.now ∧
                limiter.openTickets.get? ticket = some own ∧ own.identifierKey = key := by
  have hbounded : limiter.Bounded := by
    apply h.invariant
    · rintro _ rfl
      exact ⟨Nat.zero_le _, Nat.zero_le _⟩
    · rintro before call _ rfl hbefore
      exact hbefore.after toLowerCase call
  have hempty (store : Store) (key : String) (hnot : key ∉ store.keys) : store.bucket key = [] := by
    rw [Store.bucket, OrderedMap.get?_eq_none.mpr hnot, Option.getD_none]
  constructor
  · exact hbounded
  · intro call
    constructor
    · exact evictions_fair toLowerCase call
    constructor
    · intro key hblocked hgone
      exact ip_forgotten toLowerCase call hblocked (hempty _ key hgone)
    · intro key hblocked hgone
      exact identifier_forgotten toLowerCase call hblocked (hempty _ key hgone)

/-- After an attempt that is still in flight the stores hold one bucket each. -/
theorem blocked_buckets_go_last_once :
    ((createLoginRateLimiter.after id firstGuess).ipAttempts.size ≤ MAX_TRACKED_KEYS ∧
      (createLoginRateLimiter.after id firstGuess).identifierAttempts.size ≤ MAX_TRACKED_KEYS) ∧
      (createLoginRateLimiter.after id firstGuess).ipAttempts.keys = ["192.0.2.1"] := by
  have hreach : Reachable (· = createLoginRateLimiter) (AnyCall id)
      (createLoginRateLimiter.after id firstGuess) :=
    Reachable.next (Reachable.refl (· = createLoginRateLimiter) rfl) rfl
  exact ⟨(blocked_buckets_go_last id hreach).1, by decide +kernel⟩

end Sinnlos.Web

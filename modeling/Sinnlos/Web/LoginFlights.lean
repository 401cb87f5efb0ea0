import Sinnlos.Lib.Runs
import Sinnlos.Web.LoginBuckets

/-! # Attempts in flight

How many attempts of one identifier can be acquired and not settled. Each one
needs its place in the identifier's bucket; the bound holds in every run in
which no call takes the place of an attempt in flight, and a success that
resets the bucket does.
-/

namespace Sinnlos.Web

open Sinnlos.Runs

variable (toLowerCase : String → String)

/-! ## Calls -/

def Limiter.after (limiter : Limiter) : LimiterCall → Limiter
  | .isBlocked ip identifier now => (isBlocked toLowerCase limiter ip identifier now).2
  | .tryAcquire ip identifier now => (tryAcquire toLowerCase limiter ip identifier now).2
  | .settle ticket outcome now => (settle limiter ticket outcome now).2

/-- A limiter and the time of its last call. -/
structure Clocked where
  limiter : Limiter
  clock : Int

/-- One call, no earlier than the last one. -/
def LimiterStep (s : Clocked) (call : LimiterCall) (s' : Clocked) : Prop :=
  s.clock ≤ call.now ∧ s' = ⟨s.limiter.after toLowerCase call, call.now⟩

def ipBlocked (limiter : Limiter) (ip : String) (now : Int) : Bool :=
  ipDimension.maxFailures ≤ (limiter.ipAttempts.live ipDimension
    (rateLimitKeyForIp toLowerCase ip) now).length

def identifierBlocked (limiter : Limiter) (identifier : String) (now : Int) : Bool :=
  identifierDimension.maxFailures ≤ (limiter.identifierAttempts.live identifierDimension
    (normalizeIdentifier toLowerCase identifier) now).length

section Blocked
variable (limiter : Limiter) (ip identifier : String) (now : Int)

theorem isBlocked_fst : (isBlocked toLowerCase limiter ip identifier now).1 =
    (ipBlocked toLowerCase limiter ip now || identifierBlocked toLowerCase limiter identifier now) := by
  unfold isBlocked ipBlocked identifierBlocked
  dsimp only
  rw [liveAttempts_fst]
  split
  · rename_i h
    simp [h]
  · rename_i h
    simp [h]

@[simp] theorem isBlocked_openTickets :
    (isBlocked toLowerCase limiter ip identifier now).2.openTickets = limiter.openTickets := by
  unfold isBlocked
  dsimp only
  split <;> rfl

@[simp] theorem isBlocked_nextTicket :
    (isBlocked toLowerCase limiter ip identifier now).2.nextTicket = limiter.nextTicket := by
  unfold isBlocked
  dsimp only
  split <;> rfl

theorem isBlocked_ipBucket (k : String) :
    Store.bucket (isBlocked toLowerCase limiter ip identifier now).2.ipAttempts k =
      if k = rateLimitKeyForIp toLowerCase ip then
        limiter.ipAttempts.live ipDimension (rateLimitKeyForIp toLowerCase ip) now
      else limiter.ipAttempts.bucket k := by
  rw [← liveAttempts_bucket]
  unfold isBlocked
  dsimp only
  split <;> rfl

/-- A blocked IP spares the identifier's bucket the pruning. -/
theorem isBlocked_identifierBucket (k : String) :
    Store.bucket (isBlocked toLowerCase limiter ip identifier now).2.identifierAttempts k =
      if ipBlocked toLowerCase limiter ip now = false ∧
          k = normalizeIdentifier toLowerCase identifier then
        limiter.identifierAttempts.live identifierDimension
          (normalizeIdentifier toLowerCase identifier) now
      else limiter.identifierAttempts.bucket k := by
  unfold isBlocked ipBlocked
  dsimp only
  rw [liveAttempts_fst]
  split
  · rename_i h
    simp [h]
  · rename_i h
    simp [h, liveAttempts_bucket]

end Blocked

/-! ## Places -/

/-- The attempts of an identifier that are acquired and not settled. -/
def Limiter.inFlight (limiter : Limiter) (identifierKey : String) : Nat :=
  limiter.openTickets.count fun reservation => reservation.identifierKey = identifierKey

/-- The reservation has been in flight for the whole identifier window. -/
def Reservation.Expired (reservation : Reservation) (now : Int) : Prop :=
  IDENTIFIER_WINDOW_MS ≤ now - reservation.time

/-- The call takes the place of an attempt in flight that it does not settle: it
prunes an expired one, resets the bucket of another one, or evicts its bucket. -/
def LosesPlace (limiter : Limiter) : LimiterCall → Prop
  | .isBlocked ip identifier now => ipBlocked toLowerCase limiter ip now = false ∧
      ∃ ticket reservation, limiter.openTickets.get? ticket = some reservation ∧
        reservation.identifierKey = normalizeIdentifier toLowerCase identifier ∧
        reservation.Expired now
  | .tryAcquire ip identifier now => ipBlocked toLowerCase limiter ip now = false ∧
      ∃ ticket reservation, limiter.openTickets.get? ticket = some reservation ∧
        (reservation.identifierKey = normalizeIdentifier toLowerCase identifier ∧
            reservation.Expired now ∨
          identifierBlocked toLowerCase limiter identifier now = false ∧
            evicted identifierDimension
              (isBlocked toLowerCase limiter ip identifier now).2.identifierAttempts
              (normalizeIdentifier toLowerCase identifier) now = some reservation.identifierKey)
  | .settle settled outcome now => ∃ own, limiter.openTickets.get? settled = some own ∧
      ∃ ticket reservation, ticket ≠ settled ∧
        limiter.openTickets.get? ticket = some reservation ∧
        (outcome = .success ∧ reservation.identifierKey = own.identifierKey ∨
          outcome = .failure ∧ (reservation.identifierKey = own.identifierKey ∧
              reservation.Expired now ∨
            recounts identifierDimension limiter.identifierAttempts own.identifierKey now settled ∧
              evicted identifierDimension (liveAttempts identifierDimension
                limiter.identifierAttempts own.identifierKey now).2 own.identifierKey now =
                  some reservation.identifierKey))

instance (reservation : Reservation) (now : Int) : Decidable (reservation.Expired now) :=
  inferInstanceAs (Decidable (_ ≤ _))

/-- Every attempt in flight has its place, and no identifier has too many. -/
structure Limiter.Held (limiter : Limiter) : Prop where
  numbered : ∀ ticket reservation, limiter.openTickets.get? ticket = some reservation →
    ticket < limiter.nextTicket
  places : ∀ ticket reservation, limiter.openTickets.get? ticket = some reservation →
    HasPlace (limiter.identifierAttempts.bucket reservation.identifierKey) ticket
      reservation.time
  bounded : ∀ key, limiter.inFlight key ≤ IDENTIFIER_MAX_FAILURES

variable {now : Int}

/-- A place that has not expired is live. -/
theorem Reservation.live_of_fresh {reservation : Reservation} (fresh : ¬ reservation.Expired now) :
    now - reservation.time < identifierDimension.windowMs := by
  unfold Reservation.Expired at fresh
  exact Int.lt_of_not_ge fresh

/-- Where no attempt in flight has expired, the live places bound them. -/
theorem Limiter.Held.inFlight_le {limiter : Limiter} (held : limiter.Held) {key : String}
    (fresh : ∀ ticket reservation, limiter.openTickets.get? ticket = some reservation →
      reservation.identifierKey = key → ¬ reservation.Expired now) :
    limiter.inFlight key ≤ (limiter.identifierAttempts.live identifierDimension key now).length := by
  have hcount : limiter.inFlight key =
      ((limiter.openTickets.entries.filter fun e => e.2.identifierKey = key).map Prod.fst).length := by
    rw [List.length_map, Limiter.inFlight, OrderedMap.count, OrderedMap.values, List.countP_map,
      List.countP_eq_length_filter]
    rfl
  rw [hcount]
  apply tickets_le_places
  · exact (List.filter_sublist.map Prod.fst).nodup limiter.openTickets.nodup
  · intro ticket hticket
    obtain ⟨entry, hmem, rfl⟩ := List.mem_map.mp hticket
    obtain ⟨hentry, hkey⟩ := List.mem_filter.mp hmem
    rw [decide_eq_true_eq] at hkey
    have hopen : limiter.openTickets.get? entry.1 = some entry.2 :=
      OrderedMap.get?_eq_some.mpr hentry
    have hplace := held.places entry.1 entry.2 hopen
    rw [hkey] at hplace
    obtain ⟨attempt, hattempt, hplaced, -⟩ := hplace.live (Reservation.live_of_fresh (fresh entry.1 entry.2 hopen hkey))
    exact ⟨attempt, hattempt, hplaced⟩

/-! ## One call -/

section Call
variable {toLowerCase} {limiter : Limiter} {ip identifier : String} {now : Int}

theorem Limiter.Held.isBlocked (held : limiter.Held)
    (keeps : ¬ LosesPlace toLowerCase limiter (.isBlocked ip identifier now)) :
    (isBlocked toLowerCase limiter ip identifier now).2.Held where
  numbered := by
    simpa only [isBlocked_openTickets, isBlocked_nextTicket] using held.numbered
  bounded := by
    simpa only [Limiter.inFlight, isBlocked_openTickets] using held.bounded
  places := by
    intro ticket reservation hopen
    rw [isBlocked_openTickets] at hopen
    have hplace := held.places ticket reservation hopen
    rw [isBlocked_identifierBucket]
    split
    · rename_i hpruned
      rw [hpruned.2] at hplace
      apply hplace.live
      apply Reservation.live_of_fresh
      intro hexpired
      exact keeps ⟨hpruned.1, ticket, reservation, hopen, hpruned.2, hexpired⟩
    · exact hplace

theorem tryAcquire_blocked (h : (Web.isBlocked toLowerCase limiter ip identifier now).1 = true) :
    tryAcquire toLowerCase limiter ip identifier now =
      (none, (Web.isBlocked toLowerCase limiter ip identifier now).2) := by
  simp only [tryAcquire, h, if_true]

theorem tryAcquire_reserved (h : (Web.isBlocked toLowerCase limiter ip identifier now).1 = false) :
    tryAcquire toLowerCase limiter ip identifier now = (some limiter.nextTicket,
      { ipAttempts := append ipDimension
          (Web.isBlocked toLowerCase limiter ip identifier now).2.ipAttempts
          (rateLimitKeyForIp toLowerCase ip) ⟨some limiter.nextTicket, now, true⟩ now
        identifierAttempts := append identifierDimension
          (Web.isBlocked toLowerCase limiter ip identifier now).2.identifierAttempts
          (normalizeIdentifier toLowerCase identifier) ⟨some limiter.nextTicket, now, true⟩ now
        openTickets := limiter.openTickets.set limiter.nextTicket
          ⟨rateLimitKeyForIp toLowerCase ip, normalizeIdentifier toLowerCase identifier, now⟩
        nextTicket := limiter.nextTicket + 1 }) := by
  simp only [tryAcquire, h, Bool.false_eq_true, if_false, isBlocked_nextTicket,
    isBlocked_openTickets]

theorem inFlight_acquired (held : limiter.Held) (reservation : Reservation) (key : String) :
    (limiter.openTickets.set limiter.nextTicket reservation).count
        (fun r => r.identifierKey = key) =
      limiter.inFlight key + if reservation.identifierKey = key then 1 else 0 := by
  have hnew : limiter.nextTicket ∉ limiter.openTickets.keys := by
    intro hmem
    obtain ⟨other, hother⟩ := OrderedMap.mem_keys.mp hmem
    exact absurd (held.numbered _ _ hother) (Nat.lt_irrefl _)
  unfold Limiter.inFlight OrderedMap.count OrderedMap.values
  rw [OrderedMap.entries_set_of_not_mem hnew]
  by_cases hkey : reservation.identifierKey = key
  · simp [hkey]
  · simp [hkey]

theorem Limiter.Held.tryAcquire (held : limiter.Held)
    (keeps : ¬ LosesPlace toLowerCase limiter (.tryAcquire ip identifier now)) :
    (tryAcquire toLowerCase limiter ip identifier now).2.Held := by
  have hfresh : ipBlocked toLowerCase limiter ip now = false →
      ∀ ticket reservation, limiter.openTickets.get? ticket = some reservation →
        reservation.identifierKey = normalizeIdentifier toLowerCase identifier →
          ¬ reservation.Expired now := by
    intro hip ticket reservation hopen hkey hexpired
    exact keeps ⟨hip, ticket, reservation, hopen, .inl ⟨hkey, hexpired⟩⟩
  have hchecked : (Web.isBlocked toLowerCase limiter ip identifier now).2.Held := by
    apply held.isBlocked
    rintro ⟨hip, ticket, reservation, hopen, hkey, hexpired⟩
    exact hfresh hip ticket reservation hopen hkey hexpired
  cases hblocked : (Web.isBlocked toLowerCase limiter ip identifier now).1 with
  | true =>
      rw [tryAcquire_blocked hblocked]
      exact hchecked
  | false =>
      rw [tryAcquire_reserved hblocked]
      rw [isBlocked_fst, Bool.or_eq_false_iff] at hblocked
      obtain ⟨hip, hidentifier⟩ := hblocked
      have hroom : (limiter.identifierAttempts.live identifierDimension
          (normalizeIdentifier toLowerCase identifier) now).length < IDENTIFIER_MAX_FAILURES :=
        Nat.lt_of_not_le (of_decide_eq_false hidentifier)
      have hlive := held.inFlight_le (hfresh hip)
      refine ⟨?_, ?_, ?_⟩
      · intro ticket reservation hopen
        rw [OrderedMap.get?_set] at hopen
        split at hopen
        · rename_i hticket
          rw [hticket]
          exact Nat.lt_succ_self _
        · exact Nat.lt_succ_of_lt (held.numbered ticket reservation hopen)
      · intro ticket reservation hopen
        rw [OrderedMap.get?_set] at hopen
        rw [append_bucket]
        split at hopen
        · rename_i hticket
          cases hopen
          rw [if_pos rfl]
          exact ⟨_, List.mem_append_right _ List.mem_cons_self, congrArg some hticket.symm, rfl⟩
        · have hplace := hchecked.places ticket reservation (by rwa [isBlocked_openTickets])
          split
          · rename_i hkey
            rw [hkey] at hplace
            exact (hplace.live (Reservation.live_of_fresh (hfresh hip ticket reservation hopen hkey))).append _
          · split
            · rename_i hevicted
              exact absurd ⟨hip, ticket, reservation, hopen, .inr ⟨hidentifier, hevicted⟩⟩ keeps
            · exact hplace
      · intro key
        have hbounded := held.bounded key
        rw [Limiter.inFlight, inFlight_acquired held]
        split
        · rename_i hkey
          dsimp only at hkey
          rw [← hkey]
          omega
        · omega

theorem inFlight_settled (ticket : Nat) (key : String) :
    (limiter.openTickets.erase ticket).count (fun r => r.identifierKey = key) ≤
      limiter.inFlight key :=
  OrderedMap.count_erase_le limiter.openTickets ticket _

/-- Where every other attempt in flight keeps its place, a settled ticket leaves
the rest held. -/
theorem Limiter.Held.settled (held : limiter.Held) (settled : Nat) {limiter' : Limiter}
    (opened : limiter'.openTickets = limiter.openTickets.erase settled)
    (next : limiter'.nextTicket = limiter.nextTicket)
    (places : ∀ ticket reservation, ticket ≠ settled →
      limiter.openTickets.get? ticket = some reservation →
      HasPlace (limiter.identifierAttempts.bucket reservation.identifierKey) ticket
        reservation.time →
      HasPlace (limiter'.identifierAttempts.bucket reservation.identifierKey) ticket
        reservation.time) :
    limiter'.Held := by
  have hstill : ∀ ticket reservation, limiter'.openTickets.get? ticket = some reservation →
      ticket ≠ settled ∧ limiter.openTickets.get? ticket = some reservation := by
    intro ticket reservation hopen
    rw [opened, OrderedMap.get?_erase] at hopen
    split at hopen
    · cases hopen
    · rename_i hne
      exact ⟨hne, hopen⟩
  refine ⟨?_, ?_, ?_⟩
  · intro ticket reservation hopen
    rw [next]
    exact held.numbered ticket reservation (hstill ticket reservation hopen).2
  · intro ticket reservation hopen
    obtain ⟨hne, hbefore⟩ := hstill ticket reservation hopen
    exact places ticket reservation hne hbefore (held.places ticket reservation hbefore)
  · intro key
    rw [Limiter.inFlight, opened]
    exact Nat.le_trans (inFlight_settled settled key) (held.bounded key)

theorem Limiter.Held.settle (held : limiter.Held) {settled : Nat} {outcome : Outcome}
    (keeps : ¬ LosesPlace toLowerCase limiter (.settle settled outcome now)) :
    (settle limiter settled outcome now).2.Held := by
  unfold Web.settle
  cases hown : limiter.openTickets.get? settled with
  | none => exact held
  | some own =>
      dsimp only
      split
      · rename_i houtcome
        refine held.settled settled ?_ ?_ ?_
        · rfl
        · rfl
        intro ticket reservation hne hopen hplace
        dsimp only
        rw [confirm_bucket _ _ _ _ (by decide)]
        split
        · rename_i hkey
          rw [hkey] at hplace
          apply hplace.confirmed
          apply Reservation.live_of_fresh
          intro hexpired
          exact keeps ⟨own, hown, ticket, reservation, hne, hopen,
            .inr ⟨houtcome, .inl ⟨hkey, hexpired⟩⟩⟩
        · split
          · rename_i hevicted
            exact absurd ⟨own, hown, ticket, reservation, hne, hopen,
              .inr ⟨houtcome, .inr hevicted⟩⟩ keeps
          · exact hplace
      · refine held.settled settled ?_ ?_ ?_
        · rfl
        · rfl
        intro ticket reservation hne hopen hplace
        have hrefunded : HasPlace (Store.bucket (refund limiter.identifierAttempts
            own.identifierKey settled) reservation.identifierKey) ticket reservation.time := by
          rw [refund_bucket]
          split
          · rename_i hkey
            rw [hkey] at hplace
            exact hplace.erased hne
          · exact hplace
        dsimp only
        split
        · rename_i hsuccess
          rw [bucket_erase]
          split
          · rename_i hkey
            exact absurd ⟨own, hown, ticket, reservation, hne, hopen, .inl ⟨hsuccess, hkey⟩⟩ keeps
          · exact hrefunded
        · exact hrefunded

end Call

/-! ## Runs -/

/-- A call that takes no place of an attempt in flight. -/
def KeepingStep (s : Clocked) (call : LimiterCall) (s' : Clocked) : Prop :=
  LimiterStep toLowerCase s call s' ∧ ¬ LosesPlace toLowerCase s.limiter call

def Clocked.start (clock : Int) : Clocked := ⟨createLoginRateLimiter, clock⟩

theorem held_start : createLoginRateLimiter.Held where
  numbered := nofun
  places := nofun
  bounded := fun _ => Nat.zero_le _

variable {toLowerCase}

theorem KeepingStep.held {s s' : Clocked} {call : LimiterCall}
    (h : KeepingStep toLowerCase s call s') (held : s.limiter.Held) : s'.limiter.Held := by
  obtain ⟨⟨-, rfl⟩, hkeeps⟩ := h
  cases call with
  | isBlocked ip identifier now => exact held.isBlocked hkeeps
  | tryAcquire ip identifier now => exact held.tryAcquire hkeeps
  | settle ticket outcome now => exact held.settle hkeeps

/-- **Parallel guesses stay within the identifier limit** in every run in which
no call takes the place of an attempt in flight. -/
theorem guesses_in_flight_bounded (toLowerCase : String → String) {clock : Int}
    {calls : List LimiterCall} {s : Clocked}
    (run : Run (KeepingStep toLowerCase) (Clocked.start clock) calls s) (identifierKey : String) :
    s.limiter.inFlight identifierKey ≤ IDENTIFIER_MAX_FAILURES := by
  have hheld : s.limiter.Held :=
    run.invariant (P := fun s => s.limiter.Held) (fun _ _ _ hstep => hstep.held) held_start
  exact hheld.bounded identifierKey

def firstGuess : LimiterCall := .tryAcquire "192.0.2.1" "anna" 0
def secondGuess : LimiterCall := .tryAcquire "192.0.2.2" "anna" 100

/-- Two overlapping attempts; the first one fails while the second is in flight. -/
theorem guesses_in_flight_bounded_two :
    (((createLoginRateLimiter.after id firstGuess).after id secondGuess).after id
      (.settle 0 .failure 200)).inFlight "anna" ≤ IDENTIFIER_MAX_FAILURES := by
  have hopen : (createLoginRateLimiter.after id firstGuess).openTickets =
      OrderedMap.empty.set 0 ⟨"192.0.2.1", "anna", 0⟩ := by
    decide +kernel
  have hopen₂ : ((createLoginRateLimiter.after id firstGuess).after id secondGuess).openTickets =
      (OrderedMap.empty.set 0 ⟨"192.0.2.1", "anna", 0⟩).set 1 ⟨"192.0.2.2", "anna", 100⟩ := by
    decide +kernel
  have hfirst : ¬ LosesPlace id createLoginRateLimiter firstGuess := by
    rintro ⟨-, ticket, reservation, hget, -⟩
    cases hget
  have hsecond : ¬ LosesPlace id (createLoginRateLimiter.after id firstGuess) secondGuess := by
    rintro ⟨-, ticket, reservation, hget, hlost⟩
    rw [hopen, OrderedMap.get?_set] at hget
    split at hget
    · cases hget
      rcases hlost with ⟨-, hexpired⟩ | ⟨-, hevicted⟩
      · exact absurd hexpired (by decide)
      · exact absurd hevicted (by decide +kernel)
    · cases hget
  have hthird : ¬ LosesPlace id ((createLoginRateLimiter.after id firstGuess).after id secondGuess)
      (.settle 0 .failure 200) := by
    rintro ⟨own, hown, ticket, reservation, hne, hget, hlost⟩
    rw [hopen₂] at hown hget
    cases hown
    rw [OrderedMap.get?_set] at hget
    split at hget
    · cases hget
      rcases hlost with ⟨hsuccess, -⟩ | ⟨-, hexpired | hevicted⟩
      · cases hsuccess
      · exact absurd hexpired.2 (by decide)
      · exact absurd hevicted.1 (by decide +kernel)
    · rw [OrderedMap.get?_set, if_neg hne] at hget
      cases hget
  have hrun : Run (KeepingStep id) (Clocked.start 0)
      [firstGuess, secondGuess, .settle 0 .failure 200]
      ⟨((createLoginRateLimiter.after id firstGuess).after id secondGuess).after id
        (.settle 0 .failure 200), 200⟩ := by
    apply Run.cons (t := ⟨createLoginRateLimiter.after id firstGuess, 0⟩)
    · exact ⟨⟨Int.le_refl _, rfl⟩, hfirst⟩
    apply Run.cons (t := ⟨(createLoginRateLimiter.after id firstGuess).after id secondGuess, 100⟩)
    · exact ⟨⟨by decide, rfl⟩, hsecond⟩
    exact .single ⟨⟨by decide, rfl⟩, hthird⟩
  exact guesses_in_flight_bounded id hrun "anna"

/-! ## A success among parallel guesses -/

theorem run_at_once (toLowerCase : String → String) (limiter : Limiter) (clock : Int)
    {calls : List LimiterCall} (h : ∀ call ∈ calls, call.now = clock) :
    Run (LimiterStep toLowerCase) ⟨limiter, clock⟩ calls
      ⟨calls.foldl (Limiter.after toLowerCase) limiter, clock⟩ := by
  induction calls generalizing limiter with
  | nil => exact .refl _
  | cons call calls ih =>
      rw [List.forall_mem_cons] at h
      refine .cons ⟨?_, ?_⟩ (ih (limiter.after toLowerCase call) h.2)
      · exact Int.le_of_eq h.1.symm
      · rw [h.1]

/-- Ten guesses from ten addresses, one of which succeeds, and ten more. -/
def guessesAroundSuccess : List LimiterCall :=
  (List.range 10).map (fun i => .tryAcquire (toString i) "anna" 0) ++
    .settle 0 .success 0 ::
      (List.range 10).map (fun i => .tryAcquire (toString (10 + i)) "anna" 0)

/-- The success resets the identifier's bucket, the nine attempts still in
flight lose their places, and ten more get in: nineteen are in flight. -/
theorem success_forgets_parallel_guesses :
    ¬ ∀ (calls : List LimiterCall) (s : Clocked) (identifierKey : String),
      Run (LimiterStep id) (Clocked.start 0) calls s →
        s.limiter.inFlight identifierKey ≤ IDENTIFIER_MAX_FAILURES := by
  intro hbounded
  have hrun := run_at_once id createLoginRateLimiter 0
    (show ∀ call ∈ guessesAroundSuccess, call.now = 0 by decide)
  have hle := hbounded guessesAroundSuccess _ "anna" hrun
  exact absurd hle (by decide +kernel)

end Sinnlos.Web

import Sinnlos.Web.LoginFlights

/-! # Attempts in a window

The limiter beside a ledger of every attempt it ever let in. In every interval
as long as a store's window at most its maximum of attempts, refunded ones left
out, fall on one key; a ticket is settled once; and a settled failure reports
exactly the transition of a bucket's live failures to the maximum.
-/

namespace Sinnlos.Web

open Sinnlos.Runs

/-! ## The ledger -/

/-- An attempt that was let in, and how it was first settled. -/
structure LoggedAttempt where
  ticket : Nat
  reservation : Reservation
  outcome : Option Outcome

/-- Not refunded: in flight or failed. -/
def LoggedAttempt.standing (entry : LoggedAttempt) : Bool :=
  entry.outcome = none || entry.outcome = some .failure

def LoggedAttempt.settledAs (ticket : Nat) (outcome : Outcome) (entry : LoggedAttempt) :
    LoggedAttempt :=
  if entry.ticket = ticket ∧ entry.outcome = none then { entry with outcome := some outcome }
  else entry

structure Observed where
  limiter : Limiter
  clock : Int
  ledger : List LoggedAttempt

def Observed.start (clock : Int) : Observed := ⟨createLoginRateLimiter, clock, []⟩

section
variable (toLowerCase : String → String)

def Observed.ledgerAfter (s : Observed) : LimiterCall → List LoggedAttempt
  | .isBlocked _ _ _ => s.ledger
  | .tryAcquire ip identifier now =>
      match (tryAcquire toLowerCase s.limiter ip identifier now).1 with
      | none => s.ledger
      | some ticket => s.ledger ++ [⟨ticket, ⟨rateLimitKeyForIp toLowerCase ip,
          normalizeIdentifier toLowerCase identifier, now⟩, none⟩]
  | .settle ticket outcome _ => s.ledger.map (·.settledAs ticket outcome)

def Observed.after (s : Observed) (call : LimiterCall) : Observed :=
  ⟨s.limiter.after toLowerCase call, call.now, s.ledgerAfter toLowerCase call⟩

/-- No store has reached its maximum of tracked keys. -/
def Limiter.Uncapped (limiter : Limiter) : Prop :=
  limiter.ipAttempts.size < MAX_TRACKED_KEYS ∧ limiter.identifierAttempts.size < MAX_TRACKED_KEYS

/-- One call, no earlier than the last one, on a limiter below its maximum. -/
def UncappedStep (s : Observed) (call : LimiterCall) (s' : Observed) : Prop :=
  s.clock ≤ call.now ∧ s.limiter.Uncapped ∧ s' = s.after toLowerCase call

end

@[simp] theorem settledAs_ticket (ticket : Nat) (outcome : Outcome) (entry : LoggedAttempt) :
    (entry.settledAs ticket outcome).ticket = entry.ticket := by
  unfold LoggedAttempt.settledAs
  split <;> rfl

@[simp] theorem settledAs_reservation (ticket : Nat) (outcome : Outcome) (entry : LoggedAttempt) :
    (entry.settledAs ticket outcome).reservation = entry.reservation := by
  unfold LoggedAttempt.settledAs
  split <;> rfl

/-- Settling never lets an attempt stand that did not. -/
theorem standing_of_settledAs {ticket : Nat} {outcome : Outcome} {entry : LoggedAttempt}
    (h : (entry.settledAs ticket outcome).standing = true) : entry.standing = true := by
  unfold LoggedAttempt.settledAs at h
  split at h
  · rename_i hnone
    simp only [LoggedAttempt.standing, hnone.2, decide_true, Bool.true_or]
  · exact h

/-- The attempts of an interval that count against a limit. -/
def countsIn (dim : Dimension) (keyOf : Reservation → String) (key : String) (start : Int)
    (entry : LoggedAttempt) : Bool :=
  entry.standing && decide (keyOf entry.reservation = key) &&
    decide (start ≤ entry.reservation.time) &&
    decide (entry.reservation.time < start + dim.windowMs)

/-! ## Tickets and their places -/

/-- The places of a store: tickets that were given out, each at most once in a
bucket, and pending while their ticket is open. -/
structure TicketsSound (store : Store) (opened : OrderedMap Nat Reservation) (next : Nat) : Prop where
  numbered : ∀ key, ∀ attempt ∈ store.bucket key, ∀ ticket, attempt.ticket = some ticket →
    ticket < next
  distinct : ∀ key, ((store.bucket key).filterMap Attempt.ticket).Nodup
  pending : ∀ ticket reservation, opened.get? ticket = some reservation →
    ∀ key, ∀ attempt ∈ store.bucket key, attempt.ticket = some ticket → attempt.pending = true

section Tickets
variable {dim : Dimension} {store store' : Store} {opened opened' : OrderedMap Nat Reservation}
  {next : Nat} {key : String} {now : Int}

/-- Buckets that only lose attempts keep their tickets sound. -/
theorem TicketsSound.of_sublist (sound : TicketsSound store opened next)
    (buckets : ∀ key, (store'.bucket key).Sublist (store.bucket key))
    (still : ∀ ticket reservation, opened'.get? ticket = some reservation →
      opened.get? ticket = some reservation) : TicketsSound store' opened' next where
  numbered := fun key attempt hmem => sound.numbered key attempt ((buckets key).subset hmem)
  distinct := fun key => ((buckets key).filterMap Attempt.ticket).nodup (sound.distinct key)
  pending := fun ticket reservation hopen key attempt hmem =>
    sound.pending ticket reservation (still ticket reservation hopen) key attempt
      ((buckets key).subset hmem)

theorem still_of_erase {settled : Nat} :
    ∀ ticket reservation, (opened.erase settled).get? ticket = some reservation →
      opened.get? ticket = some reservation := by
  intro ticket reservation hopen
  rw [OrderedMap.get?_erase] at hopen
  split at hopen
  · cases hopen
  · exact hopen

theorem live_sublist (dim : Dimension) (store : Store) (key : String) (now : Int) :
    (store.live dim key now).Sublist (store.bucket key) :=
  List.filter_sublist

theorem TicketsSound.append (sound : TicketsSound store opened next) (dim : Dimension)
    (key : String) (now : Int) (reservation : Reservation)
    (uncapped : evicted dim store key now = none) :
    TicketsSound (Web.append dim store key ⟨some next, now, true⟩ now) (opened.set next reservation)
      (next + 1) := by
  have hbucket : ∀ k, Store.bucket (Web.append dim store key ⟨some next, now, true⟩ now) k =
      if k = key then store.live dim key now ++ [⟨some next, now, true⟩] else store.bucket k := by
    intro k
    simp only [append_bucket, uncapped, reduceCtorEq, if_false]
  have hmem : ∀ k attempt, attempt ∈ Store.bucket (Web.append dim store key
      ⟨some next, now, true⟩ now) k →
      attempt ∈ store.bucket k ∨ attempt = ⟨some next, now, true⟩ := by
    intro k attempt h
    rw [hbucket] at h
    split at h
    · rename_i hk
      rcases List.mem_append.mp h with h | h
      · exact .inl (hk ▸ (live_sublist dim store key now).subset h)
      · exact .inr (List.mem_singleton.mp h)
    · exact .inl h
  refine ⟨?_, ?_, ?_⟩
  · intro k attempt h ticket hticket
    rcases hmem k attempt h with h | rfl
    · exact Nat.lt_succ_of_lt (sound.numbered k attempt h ticket hticket)
    · cases hticket
      exact Nat.lt_succ_self _
  · intro k
    rw [hbucket]
    split
    · simp only [List.filterMap_append, List.filterMap_cons, List.filterMap_nil]
      have hdistinct := ((live_sublist dim store key now).filterMap Attempt.ticket).nodup
        (sound.distinct key)
      apply List.Nodup.append hdistinct (List.nodup_singleton _)
      intro ticket hold hnew
      rw [List.mem_singleton] at hnew
      obtain ⟨attempt, hattempt, hticket⟩ := List.mem_filterMap.mp hold
      have hlt := sound.numbered key attempt ((live_sublist dim store key now).subset hattempt)
        ticket hticket
      omega
    · exact sound.distinct k
  · intro ticket other hopen k attempt h hticket
    rcases hmem k attempt h with h | rfl
    · rw [OrderedMap.get?_set] at hopen
      split at hopen
      · rename_i hnext
        have hlt := sound.numbered k attempt h ticket hticket
        omega
      · exact sound.pending ticket other hopen k attempt h hticket
    · rfl

variable {attempt : Attempt} {ticket : Nat} {reservation : Reservation}

/-- The bucket of a failure, attempt by attempt: a live one, settled where it is
the ticket's, or the failure counted afresh. -/
theorem mem_confirmed {settled : Nat} (h : attempt ∈ confirmed dim store key now settled) :
    (∃ before ∈ store.bucket key, attempt = before ∨ attempt = before.settled settled) ∨
      attempt.ticket = none := by
  unfold confirmed at h
  split at h
  · obtain ⟨before, hbefore, rfl⟩ := List.mem_map.mp h
    exact .inl ⟨before, (live_sublist dim store key now).subset hbefore, .inr rfl⟩
  · rcases List.mem_append.mp h with h | h
    · exact .inl ⟨attempt, (live_sublist dim store key now).subset h, .inl rfl⟩
    · rw [List.mem_singleton] at h
      subst h
      exact .inr rfl

theorem confirmed_tickets (settled : Nat) :
    ((confirmed dim store key now settled).filterMap Attempt.ticket).Sublist
      ((store.bucket key).filterMap Attempt.ticket) := by
  have hlive := (live_sublist dim store key now).filterMap Attempt.ticket
  unfold confirmed
  split
  · rw [List.filterMap_map]
    simpa only [Function.comp_def, settled_ticket] using hlive
  · simpa only [List.filterMap_append, List.filterMap_cons, List.filterMap_nil, List.append_nil]
      using hlive

theorem settled_pending_of_ne {settled : Nat} (ne : ticket ≠ settled)
    (h : attempt.ticket = some ticket) : attempt.settled settled = attempt := by
  unfold Attempt.settled Attempt.reservedBy
  rw [if_neg]
  simpa [h] using ne

theorem TicketsSound.confirm (sound : TicketsSound store opened next) (window : 0 < dim.windowMs)
    (key : String) (now : Int) (settled : Nat) (uncapped : store.size < MAX_TRACKED_KEYS) :
    TicketsSound (Web.confirm dim store key settled now).2 (opened.erase settled) next := by
  have hkept : evicted dim (liveAttempts dim store key now).2 key now = none :=
    evicted_none _ _ _ _ (Nat.lt_of_le_of_lt (liveAttempts_size dim store key now) uncapped)
  have hbucket : ∀ k, Store.bucket (Web.confirm dim store key settled now).2 k =
      if k = key then confirmed dim store key now settled else store.bucket k := by
    intro k
    simp only [confirm_bucket dim store key now window, hkept, reduceCtorEq, and_false, if_false]
  refine ⟨?_, ?_, ?_⟩
  · intro k attempt h ticket hticket
    rw [hbucket] at h
    split at h
    · rcases mem_confirmed h with ⟨before, hmem, rfl | rfl⟩ | hnone
      · exact sound.numbered key _ hmem ticket hticket
      · rw [settled_ticket] at hticket
        exact sound.numbered key before hmem ticket hticket
      · rw [hnone] at hticket
        cases hticket
    · exact sound.numbered k attempt h ticket hticket
  · intro k
    rw [hbucket]
    split
    · exact (confirmed_tickets settled).nodup (sound.distinct key)
    · exact sound.distinct k
  · intro ticket reservation hopen k attempt h hticket
    have hne : ticket ≠ settled := by
      rintro rfl
      rw [OrderedMap.get?_erase_self] at hopen
      cases hopen
    have hbefore := still_of_erase ticket reservation hopen
    rw [hbucket] at h
    split at h
    · rcases mem_confirmed h with ⟨before, hmem, rfl | rfl⟩ | hnone
      · exact sound.pending ticket reservation hbefore key _ hmem hticket
      · rw [settled_ticket] at hticket
        rw [settled_pending_of_ne hne hticket]
        exact sound.pending ticket reservation hbefore key before hmem hticket
      · rw [hnone] at hticket
        cases hticket
    · exact sound.pending ticket reservation hbefore k attempt h hticket

theorem refund_sublist (store : Store) (key : String) (ticket : Nat) (k : String) :
    (Store.bucket (refund store key ticket) k).Sublist (store.bucket k) := by
  rw [refund_bucket]
  split
  · rename_i hk
    rw [hk]
    exact List.eraseP_sublist
  · exact List.Sublist.refl _

theorem erase_sublist (store : Store) (key k : String) :
    (Store.bucket (OrderedMap.erase store key) k).Sublist (store.bucket k) := by
  rw [bucket_erase]
  split
  · exact List.nil_sublist _
  · exact List.Sublist.refl _

/-! ## The report -/

/-- The live failures of a bucket. -/
def failures (dim : Dimension) (store : Store) (key : String) (now : Int) : Nat :=
  (store.live dim key now).countP fun attempt => !attempt.pending

/-- Settling the one pending place of a ticket makes one failure more. -/
theorem countP_settled {bucket : List Attempt}
    (distinct : (bucket.filterMap Attempt.ticket).Nodup)
    (pending : ∀ attempt ∈ bucket, attempt.ticket = some ticket → attempt.pending = true)
    (present : bucket.any (·.reservedBy ticket) = true) :
    (bucket.map (·.settled ticket)).countP (fun attempt => !attempt.pending) =
      bucket.countP (fun attempt => !attempt.pending) + 1 := by
  induction bucket with
  | nil => cases present
  | cons attempt bucket ih =>
      rw [List.forall_mem_cons] at pending
      by_cases hown : attempt.ticket = some ticket
      · have hrest : bucket.map (·.settled ticket) = bucket := by
          nth_rewrite 2 [← List.map_id bucket]
          apply List.map_congr_left
          intro other hmem
          rw [id]
          unfold Attempt.settled Attempt.reservedBy
          rw [if_neg]
          rw [decide_eq_true_eq]
          intro hother
          rw [List.filterMap_cons_some hown, List.nodup_cons] at distinct
          exact distinct.1 (List.mem_filterMap.mpr ⟨other, hmem, hother⟩)
        have hsettled : (attempt.settled ticket).pending = false := by
          simp [Attempt.settled, Attempt.reservedBy, hown]
        have hpending := pending.1 hown
        rw [List.map_cons, hrest, List.countP_cons_of_pos (by simp [hsettled]),
          List.countP_cons_of_neg (by simp [hpending])]
      · have hkept : attempt.settled ticket = attempt := by
          simp [Attempt.settled, Attempt.reservedBy, hown]
        have hdistinct : (bucket.filterMap Attempt.ticket).Nodup :=
          ((List.sublist_cons_self attempt bucket).filterMap Attempt.ticket).nodup distinct
        have hpresent : bucket.any (·.reservedBy ticket) = true := by
          simpa [Attempt.reservedBy, hown] using present
        have hih := ih hdistinct pending.2 hpresent
        rw [List.map_cons, hkept, List.countP_cons, List.countP_cons, hih]
        omega

/-- A settled failure is one live failure more in its bucket. -/
theorem failures_confirm (key : String) (now : Int) (sound : TicketsSound store opened next)
    (window : 0 < dim.windowMs) {settled : Nat} (opened' : opened.get? settled = some reservation) :
    failures dim (confirm dim store key settled now).2 key now = failures dim store key now + 1 := by
  have hlive : Store.live dim (Web.confirm dim store key settled now).2 key now =
      confirmed dim store key now settled := by
    rw [Store.live, confirm_bucket dim store key now window, if_pos rfl,
      confirmed_live dim store key now window]
  have hsub := live_sublist dim store key now
  unfold failures
  rw [hlive]
  unfold confirmed
  split
  · rename_i hpresent
    apply countP_settled
    · exact (hsub.filterMap Attempt.ticket).nodup (sound.distinct key)
    · intro attempt hmem
      exact sound.pending settled reservation opened' key attempt (hsub.subset hmem)
    · exact hpresent
  · rw [List.countP_append]
    rfl

/-- The bucket's live failures go to the maximum. -/
def ReachesMaximum (dim : Dimension) (before after : Store) (key : String) (now : Int) : Prop :=
  failures dim before key now < dim.maxFailures ∧ failures dim after key now = dim.maxFailures

theorem confirm_reports (key : String) (now : Int) (sound : TicketsSound store opened next)
    (window : 0 < dim.windowMs) {settled : Nat} (opened' : opened.get? settled = some reservation) :
    (confirm dim store key settled now).1 = true ↔
      ReachesMaximum dim store (confirm dim store key settled now).2 key now := by
  have hmore := failures_confirm key now sound window opened'
  have hafter : ((confirmed dim store key now settled).filter fun a => !a.pending).length =
      failures dim (Web.confirm dim store key settled now).2 key now := by
    rw [failures, Store.live, confirm_bucket dim store key now window, if_pos rfl,
      confirmed_live dim store key now window, List.countP_eq_length_filter]
  rw [confirm_fst dim store key now window, decide_eq_true_eq, hafter]
  unfold ReachesMaximum
  omega

end Tickets

/-! ## The ledger of a run -/

/-- Every ticket is logged once, and it is open until its outcome is logged. -/
structure LedgerSound (ledger : List LoggedAttempt) (opened : OrderedMap Nat Reservation)
    (next : Nat) : Prop where
  distinct : (ledger.map LoggedAttempt.ticket).Nodup
  numbered : ∀ entry ∈ ledger, entry.ticket < next
  opened : ∀ entry ∈ ledger, opened.get? entry.ticket =
    if entry.outcome = none then some entry.reservation else none

section Ledger
variable {ledger : List LoggedAttempt} {opened : OrderedMap Nat Reservation} {next : Nat}

theorem LedgerSound.acquired (sound : LedgerSound ledger opened next) (reservation : Reservation) :
    LedgerSound (ledger ++ [⟨next, reservation, none⟩]) (opened.set next reservation)
      (next + 1) where
  distinct := by
    rw [List.map_append]
    apply List.Nodup.append sound.distinct (List.nodup_singleton _)
    intro ticket hold hnew
    obtain ⟨entry, hmem, rfl⟩ := List.mem_map.mp hold
    have hlt := sound.numbered entry hmem
    have heq : entry.ticket = next := List.mem_singleton.mp hnew
    omega
  numbered := by
    intro entry hmem
    rcases List.mem_append.mp hmem with hmem | hmem
    · exact Nat.lt_succ_of_lt (sound.numbered entry hmem)
    · rw [List.mem_singleton.mp hmem]
      exact Nat.lt_succ_self next
  opened := by
    intro entry hmem
    rcases List.mem_append.mp hmem with hmem | hmem
    · have hlt := sound.numbered entry hmem
      rw [OrderedMap.get?_set, if_neg (by omega)]
      exact sound.opened entry hmem
    · rw [List.mem_singleton.mp hmem, OrderedMap.get?_set, if_pos rfl]
      rfl

theorem LedgerSound.settled (sound : LedgerSound ledger opened next) (ticket : Nat)
    (outcome : Outcome) :
    LedgerSound (ledger.map (·.settledAs ticket outcome)) (opened.erase ticket) next where
  distinct := by
    rw [List.map_map]
    simpa only [Function.comp_def, settledAs_ticket] using sound.distinct
  numbered := by
    intro entry hmem
    obtain ⟨before, hbefore, rfl⟩ := List.mem_map.mp hmem
    rw [settledAs_ticket]
    exact sound.numbered before hbefore
  opened := by
    intro entry hmem
    obtain ⟨before, hbefore, rfl⟩ := List.mem_map.mp hmem
    have hopened := sound.opened before hbefore
    rw [settledAs_ticket, settledAs_reservation, OrderedMap.get?_erase]
    by_cases hticket : before.ticket = ticket
    · rw [if_pos hticket]
      by_cases hnone : before.outcome = none
      · have hlogged : before.settledAs ticket outcome = { before with outcome := some outcome } :=
          if_pos ⟨hticket, hnone⟩
        rw [hlogged, if_neg (by simp)]
      · have hkept : before.settledAs ticket outcome = before := if_neg fun h => hnone h.2
        rw [hkept, if_neg hnone]
    · have hkept : before.settledAs ticket outcome = before := if_neg fun h => hticket h.1
      rw [hkept, if_neg hticket]
      exact hopened

variable {ticket : Nat}

/-- Settling a ticket that is not open logs nothing. -/
theorem LedgerSound.unopened (sound : LedgerSound ledger opened next)
    (closed : opened.get? ticket = none) (outcome : Outcome) :
    ledger.map (·.settledAs ticket outcome) = ledger := by
  nth_rewrite 2 [← List.map_id ledger]
  apply List.map_congr_left
  intro entry hmem
  have hopened := sound.opened entry hmem
  rw [id, LoggedAttempt.settledAs, if_neg]
  rintro ⟨hticket, hnone⟩
  rw [hticket, closed, if_pos hnone] at hopened
  cases hopened

/-- A ticket settled without a failure stands no longer. -/
theorem LedgerSound.standing_ne (sound : LedgerSound ledger opened next)
    {reservation : Reservation} (open_ : opened.get? ticket = some reservation)
    {outcome : Outcome} (refunded : outcome ≠ .failure) {entry : LoggedAttempt}
    (mem : entry ∈ ledger) (h : (entry.settledAs ticket outcome).standing = true) :
    entry.ticket ≠ ticket := by
  intro hticket
  have hopened := sound.opened entry mem
  rw [hticket, open_] at hopened
  by_cases hnone : entry.outcome = none
  · rw [LoggedAttempt.settledAs, if_pos ⟨hticket, hnone⟩] at h
    simp [LoggedAttempt.standing, refunded] at h
  · rw [if_neg hnone] at hopened
    cases hopened

end Ledger

/-! ## Windows -/

/-- The standing attempts of the last window have their places, and no window
holds more of them than the maximum. -/
structure WindowSound (dim : Dimension) (keyOf : Reservation → String) (store : Store) (clock : Int)
    (ledger : List LoggedAttempt) : Prop where
  places : ∀ entry ∈ ledger, entry.standing = true → clock - entry.reservation.time < dim.windowMs →
    HasPlace (store.bucket (keyOf entry.reservation)) entry.ticket entry.reservation.time
  windows : ∀ key start, ledger.countP (countsIn dim keyOf key start) ≤ dim.maxFailures

section Windows
variable {dim : Dimension} {keyOf : Reservation → String} {store store' : Store} {clock now : Int}
  {ledger : List LoggedAttempt}

/-- Pruning takes no place that is still in the window. -/
theorem WindowSound.pruned (sound : WindowSound dim keyOf store clock ledger) (le : clock ≤ now)
    (buckets : ∀ key, store'.bucket key = store.live dim key now ∨
      store'.bucket key = store.bucket key) : WindowSound dim keyOf store' now ledger where
  windows := sound.windows
  places := by
    intro entry hmem hstanding hfresh
    have hplace := sound.places entry hmem hstanding (by omega)
    rcases buckets (keyOf entry.reservation) with hlive | hsame
    · rw [hlive]
      exact hplace.live hfresh
    · rw [hsame]
      exact hplace

/-- The attempts of a window that ends now all have live places. -/
theorem WindowSound.count_le_live (sound : WindowSound dim keyOf store now ledger)
    (distinct : (ledger.map LoggedAttempt.ticket).Nodup) (key : String) {start : Int}
    (inside : now < start + dim.windowMs) :
    ledger.countP (countsIn dim keyOf key start) ≤ (store.live dim key now).length := by
  have htickets : ledger.countP (countsIn dim keyOf key start) =
      ((ledger.filter (countsIn dim keyOf key start)).map LoggedAttempt.ticket).length := by
    rw [List.length_map, List.countP_eq_length_filter]
  rw [htickets]
  apply tickets_le_places
  · exact (List.filter_sublist.map LoggedAttempt.ticket).nodup distinct
  · intro ticket hticket
    obtain ⟨entry, hentry, rfl⟩ := List.mem_map.mp hticket
    obtain ⟨hmem, hcounts⟩ := List.mem_filter.mp hentry
    simp only [countsIn, Bool.and_eq_true, decide_eq_true_eq] at hcounts
    obtain ⟨⟨⟨hstanding, hkey⟩, hstart⟩, -⟩ := hcounts
    have hfresh : now - entry.reservation.time < dim.windowMs := by omega
    have hplace := (sound.places entry hmem hstanding hfresh)
    rw [hkey] at hplace
    obtain ⟨attempt, hattempt, hplaced, -⟩ := hplace.live hfresh
    exact ⟨attempt, hattempt, hplaced⟩

/-- An attempt let in below the maximum. -/
theorem WindowSound.acquired (sound : WindowSound dim keyOf store now ledger)
    (distinct : (ledger.map LoggedAttempt.ticket).Nodup) (ticket : Nat) (reservation : Reservation)
    (time : reservation.time = now)
    (room : (store.live dim (keyOf reservation) now).length < dim.maxFailures)
    (uncapped : evicted dim store (keyOf reservation) now = none) :
    WindowSound dim keyOf
      (append dim store (keyOf reservation) ⟨some ticket, now, true⟩ now) now
      (ledger ++ [⟨ticket, reservation, none⟩]) where
  places := by
    intro entry hmem hstanding hfresh
    rw [append_bucket]
    simp only [uncapped, reduceCtorEq, if_false]
    rcases List.mem_append.mp hmem with hmem | hmem
    · have hplace := sound.places entry hmem hstanding hfresh
      split
      · rename_i hkey
        rw [hkey] at hplace
        exact (hplace.live hfresh).append _
      · exact hplace
    · rw [List.mem_singleton.mp hmem, if_pos rfl]
      exact ⟨_, List.mem_append_right _ List.mem_cons_self, rfl, time.symm⟩
  windows := by
    intro key start
    have hbefore := sound.windows key start
    rw [List.countP_append, List.countP_singleton]
    split
    · rename_i hcounts
      simp only [countsIn, Bool.and_eq_true, decide_eq_true_eq] at hcounts
      obtain ⟨⟨⟨-, hkey⟩, -⟩, hinside⟩ := hcounts
      rw [time] at hinside
      have hlive := sound.count_le_live distinct key hinside
      rw [← hkey] at hlive ⊢
      omega
    · omega

/-- A settled ticket leaves the windows sound where the attempts that stand
after it keep their places. -/
theorem WindowSound.settled (sound : WindowSound dim keyOf store clock ledger) (le : clock ≤ now)
    (ticket : Nat) (outcome : Outcome)
    (places : ∀ entry ∈ ledger, (entry.settledAs ticket outcome).standing = true →
      now - entry.reservation.time < dim.windowMs →
      HasPlace (store.bucket (keyOf entry.reservation)) entry.ticket entry.reservation.time →
      HasPlace (store'.bucket (keyOf entry.reservation)) entry.ticket entry.reservation.time) :
    WindowSound dim keyOf store' now (ledger.map (·.settledAs ticket outcome)) where
  places := by
    intro entry hmem hstanding hfresh
    obtain ⟨before, hbefore, rfl⟩ := List.mem_map.mp hmem
    rw [settledAs_reservation] at hfresh
    rw [settledAs_reservation, settledAs_ticket]
    apply places before hbefore hstanding hfresh
    exact sound.places before hbefore (standing_of_settledAs hstanding) (by omega)
  windows := by
    intro key start
    have hle : ledger.countP (countsIn dim keyOf key start ∘ (·.settledAs ticket outcome)) ≤
        ledger.countP (countsIn dim keyOf key start) := by
      apply List.countP_mono_left
      intro entry _ hcounts
      simp only [Function.comp_def, countsIn, settledAs_reservation, Bool.and_eq_true,
        decide_eq_true_eq] at hcounts ⊢
      obtain ⟨⟨⟨hstanding, hkey⟩, hstart⟩, hinside⟩ := hcounts
      exact ⟨⟨⟨standing_of_settledAs hstanding, hkey⟩, hstart⟩, hinside⟩
    rw [List.countP_map]
    exact Nat.le_trans hle (sound.windows key start)

theorem WindowSound.failed (sound : WindowSound dim keyOf store clock ledger) (le : clock ≤ now)
    (window : 0 < dim.windowMs) (ticket : Nat) (key : String)
    (uncapped : store.size < MAX_TRACKED_KEYS) :
    WindowSound dim keyOf (confirm dim store key ticket now).2 now
      (ledger.map (·.settledAs ticket .failure)) := by
  have hkept : evicted dim (liveAttempts dim store key now).2 key now = none :=
    evicted_none _ _ _ _ (Nat.lt_of_le_of_lt (liveAttempts_size dim store key now) uncapped)
  apply sound.settled le
  intro entry _ _ hfresh hplace
  rw [confirm_bucket dim store key now window]
  simp only [hkept, reduceCtorEq, and_false, if_false]
  split
  · rename_i hkey
    rw [hkey] at hplace
    exact hplace.confirmed hfresh
  · exact hplace

theorem WindowSound.refunded (sound : WindowSound dim keyOf store clock ledger) (le : clock ≤ now)
    {opened : OrderedMap Nat Reservation} {next : Nat} (entries : LedgerSound ledger opened next)
    {ticket : Nat} {reservation : Reservation} (open_ : opened.get? ticket = some reservation)
    {outcome : Outcome} (neutral : outcome ≠ .failure) (key : String) :
    WindowSound dim keyOf (refund store key ticket) now
      (ledger.map (·.settledAs ticket outcome)) := by
  apply sound.settled le
  intro entry hmem hstanding _ hplace
  have hne := entries.standing_ne open_ neutral hmem hstanding
  rw [refund_bucket]
  split
  · rename_i hkey
    rw [hkey] at hplace
    exact hplace.erased hne
  · exact hplace

end Windows

/-! ## The check before a reservation -/

section Checked
variable (toLowerCase : String → String) (limiter : Limiter) (ip identifier : String) (now : Int)

theorem isBlocked_ipBuckets (key : String) :
    Store.bucket (isBlocked toLowerCase limiter ip identifier now).2.ipAttempts key =
        limiter.ipAttempts.live ipDimension key now ∨
      Store.bucket (isBlocked toLowerCase limiter ip identifier now).2.ipAttempts key =
        limiter.ipAttempts.bucket key := by
  rw [isBlocked_ipBucket]
  split
  · rename_i hkey
    exact .inl (hkey ▸ rfl)
  · exact .inr rfl

theorem isBlocked_identifierBuckets (key : String) :
    Store.bucket (isBlocked toLowerCase limiter ip identifier now).2.identifierAttempts key =
        limiter.identifierAttempts.live identifierDimension key now ∨
      Store.bucket (isBlocked toLowerCase limiter ip identifier now).2.identifierAttempts key =
        limiter.identifierAttempts.bucket key := by
  rw [isBlocked_identifierBucket]
  split
  · rename_i hkey
    exact .inl (hkey.2 ▸ rfl)
  · exact .inr rfl

theorem isBlocked_uncapped {limiter : Limiter} (uncapped : limiter.Uncapped) :
    (isBlocked toLowerCase limiter ip identifier now).2.Uncapped := by
  have hip := liveAttempts_size ipDimension limiter.ipAttempts
    (rateLimitKeyForIp toLowerCase ip) now
  have hidentifier := liveAttempts_size identifierDimension limiter.identifierAttempts
    (normalizeIdentifier toLowerCase identifier) now
  unfold Limiter.Uncapped at uncapped ⊢
  unfold isBlocked
  dsimp only
  split
  · exact ⟨Nat.lt_of_le_of_lt hip uncapped.1, uncapped.2⟩
  · exact ⟨Nat.lt_of_le_of_lt hip uncapped.1, Nat.lt_of_le_of_lt hidentifier uncapped.2⟩

variable {dim : Dimension} {store store' : Store}

/-- What a pruned bucket had live it still has. -/
theorem live_of_buckets {key : String}
    (buckets : store'.bucket key = store.live dim key now ∨
      store'.bucket key = store.bucket key) : store'.live dim key now = store.live dim key now := by
  unfold Store.live at *
  rcases buckets with hlive | hsame
  · rw [hlive, List.filter_filter]
    simp only [Bool.and_self]
  · rw [hsame]

theorem TicketsSound.pruned {opened : OrderedMap Nat Reservation} {next : Nat}
    (sound : TicketsSound store opened next)
    (buckets : ∀ key, store'.bucket key = store.live dim key now ∨
      store'.bucket key = store.bucket key) : TicketsSound store' opened next := by
  apply sound.of_sublist
  · intro key
    rcases buckets key with hlive | hsame
    · rw [hlive]
      exact live_sublist dim store key now
    · rw [hsame]
  · exact fun _ _ hopen => hopen

end Checked

/-! ## One call -/

structure Observed.Sound (s : Observed) : Prop where
  entries : LedgerSound s.ledger s.limiter.openTickets s.limiter.nextTicket
  ipTickets : TicketsSound s.limiter.ipAttempts s.limiter.openTickets s.limiter.nextTicket
  identifierTickets :
    TicketsSound s.limiter.identifierAttempts s.limiter.openTickets s.limiter.nextTicket
  ipWindows : WindowSound ipDimension Reservation.ipKey s.limiter.ipAttempts s.clock s.ledger

def Observed.IdentifierSound (s : Observed) : Prop :=
  WindowSound identifierDimension Reservation.identifierKey s.limiter.identifierAttempts s.clock
    s.ledger

section Steps
variable {toLowerCase : String → String} {s : Observed} {ip identifier : String} {now : Int}

theorem Observed.Sound.isBlocked (sound : s.Sound) (le : s.clock ≤ now) :
    (s.after toLowerCase (.isBlocked ip identifier now)).Sound := by
  have hip := isBlocked_ipBuckets toLowerCase s.limiter ip identifier now
  have hidentifier := isBlocked_identifierBuckets toLowerCase s.limiter ip identifier now
  unfold Observed.after Limiter.after
  constructor
  · simpa only [isBlocked_openTickets, isBlocked_nextTicket, Observed.ledgerAfter] using sound.entries
  · simpa only [isBlocked_openTickets, isBlocked_nextTicket] using sound.ipTickets.pruned _ hip
  · simpa only [isBlocked_openTickets, isBlocked_nextTicket] using
      sound.identifierTickets.pruned _ hidentifier
  · exact sound.ipWindows.pruned le hip

theorem Observed.IdentifierSound.isBlocked (sound : s.IdentifierSound) (le : s.clock ≤ now) :
    (s.after toLowerCase (.isBlocked ip identifier now)).IdentifierSound :=
  WindowSound.pruned sound le (isBlocked_identifierBuckets toLowerCase s.limiter ip identifier now)

/-- A refused attempt does what the check alone does. -/
theorem after_tryAcquire_blocked
    (h : (Web.isBlocked toLowerCase s.limiter ip identifier now).1 = true) :
    s.after toLowerCase (.tryAcquire ip identifier now) =
      s.after toLowerCase (.isBlocked ip identifier now) := by
  simp only [Observed.after, Limiter.after, Observed.ledgerAfter, tryAcquire_blocked h,
    LimiterCall.now]

theorem ledgerAfter_tryAcquire
    (h : (Web.isBlocked toLowerCase s.limiter ip identifier now).1 = false) :
    s.ledgerAfter toLowerCase (.tryAcquire ip identifier now) = s.ledger ++
      [⟨s.limiter.nextTicket, ⟨rateLimitKeyForIp toLowerCase ip,
        normalizeIdentifier toLowerCase identifier, now⟩, none⟩] := by
  simp only [Observed.ledgerAfter, tryAcquire_reserved h]

/-- The room that the check found, in the buckets it left. -/
theorem room_checked (h : (Web.isBlocked toLowerCase s.limiter ip identifier now).1 = false) :
    (Store.live ipDimension (Web.isBlocked toLowerCase s.limiter ip identifier now).2.ipAttempts
        (rateLimitKeyForIp toLowerCase ip) now).length < ipDimension.maxFailures ∧
      (Store.live identifierDimension
        (Web.isBlocked toLowerCase s.limiter ip identifier now).2.identifierAttempts
        (normalizeIdentifier toLowerCase identifier) now).length <
          identifierDimension.maxFailures := by
  rw [live_of_buckets now (isBlocked_ipBuckets toLowerCase s.limiter ip identifier now _),
    live_of_buckets now (isBlocked_identifierBuckets toLowerCase s.limiter ip identifier now _)]
  rw [isBlocked_fst, Bool.or_eq_false_iff] at h
  exact ⟨Nat.lt_of_not_le (of_decide_eq_false h.1), Nat.lt_of_not_le (of_decide_eq_false h.2)⟩

theorem Observed.Sound.tryAcquire (sound : s.Sound) (le : s.clock ≤ now)
    (uncapped : s.limiter.Uncapped) :
    (s.after toLowerCase (.tryAcquire ip identifier now)).Sound := by
  have hchecked : (s.after toLowerCase (.isBlocked ip identifier now)).Sound := sound.isBlocked le
  cases hblocked : (Web.isBlocked toLowerCase s.limiter ip identifier now).1 with
  | true =>
      rw [after_tryAcquire_blocked hblocked]
      exact hchecked
  | false =>
      have hroom := room_checked hblocked
      have hbelow := isBlocked_uncapped toLowerCase ip identifier now uncapped
      have hip := evicted_none ipDimension _ (rateLimitKeyForIp toLowerCase ip) now hbelow.1
      have hidentifier := evicted_none identifierDimension _
        (normalizeIdentifier toLowerCase identifier) now hbelow.2
      obtain ⟨-, hipTickets, hidentifierTickets, hipWindows⟩ := hchecked
      simp only [Observed.after, Limiter.after, LimiterCall.now, isBlocked_openTickets,
        isBlocked_nextTicket] at hipTickets hidentifierTickets hipWindows
      unfold Observed.after
      rw [ledgerAfter_tryAcquire hblocked]
      simp only [Limiter.after, tryAcquire_reserved hblocked, LimiterCall.now]
      constructor <;> dsimp only
      · exact sound.entries.acquired _
      · exact hipTickets.append ipDimension _ now _ hip
      · exact hidentifierTickets.append identifierDimension _ now _ hidentifier
      · exact hipWindows.acquired sound.entries.distinct s.limiter.nextTicket
          ⟨rateLimitKeyForIp toLowerCase ip, normalizeIdentifier toLowerCase identifier, now⟩
          rfl hroom.1 hip

theorem Observed.IdentifierSound.tryAcquire (windows : s.IdentifierSound) (sound : s.Sound)
    (le : s.clock ≤ now) (uncapped : s.limiter.Uncapped) :
    (s.after toLowerCase (.tryAcquire ip identifier now)).IdentifierSound := by
  have hchecked : (s.after toLowerCase (.isBlocked ip identifier now)).IdentifierSound :=
    windows.isBlocked le
  cases hblocked : (Web.isBlocked toLowerCase s.limiter ip identifier now).1 with
  | true =>
      rw [after_tryAcquire_blocked hblocked]
      exact hchecked
  | false =>
      have hroom := room_checked hblocked
      have hbelow := isBlocked_uncapped toLowerCase ip identifier now uncapped
      have hidentifier := evicted_none identifierDimension _
        (normalizeIdentifier toLowerCase identifier) now hbelow.2
      unfold Observed.IdentifierSound Observed.after at hchecked ⊢
      rw [ledgerAfter_tryAcquire hblocked]
      simp only [Limiter.after, tryAcquire_reserved hblocked, LimiterCall.now] at hchecked ⊢
      exact hchecked.acquired sound.entries.distinct s.limiter.nextTicket
        ⟨rateLimitKeyForIp toLowerCase ip, normalizeIdentifier toLowerCase identifier, now⟩
        rfl hroom.2 hidentifier

variable {ticket : Nat} {outcome : Outcome}

theorem settle_closed (limiter : Limiter) (closed : limiter.openTickets.get? ticket = none) :
    settle limiter ticket outcome now = (false, limiter) := by
  simp only [settle, closed]

variable {own : Reservation}

theorem settle_failed (limiter : Limiter) (open_ : limiter.openTickets.get? ticket = some own) :
    settle limiter ticket .failure now =
      ((confirm ipDimension limiter.ipAttempts own.ipKey ticket now).1 ||
          (confirm identifierDimension limiter.identifierAttempts own.identifierKey ticket now).1,
        { ipAttempts := (confirm ipDimension limiter.ipAttempts own.ipKey ticket now).2
          identifierAttempts := (confirm identifierDimension limiter.identifierAttempts
            own.identifierKey ticket now).2
          openTickets := limiter.openTickets.erase ticket
          nextTicket := limiter.nextTicket }) := by
  simp only [settle, open_, if_true]

theorem settle_refunded (limiter : Limiter) (open_ : limiter.openTickets.get? ticket = some own)
    (refunded : outcome ≠ .failure) :
    settle limiter ticket outcome now =
      (false,
        { ipAttempts := refund limiter.ipAttempts own.ipKey ticket
          identifierAttempts :=
            if outcome = .success then
              (refund limiter.identifierAttempts own.identifierKey ticket).erase own.identifierKey
            else refund limiter.identifierAttempts own.identifierKey ticket
          openTickets := limiter.openTickets.erase ticket
          nextTicket := limiter.nextTicket }) := by
  simp only [settle, open_, refunded, if_false]

theorem WindowSound.later {dim : Dimension} {keyOf : Reservation → String} {store : Store}
    {clock : Int} {ledger : List LoggedAttempt} (sound : WindowSound dim keyOf store clock ledger)
    (le : clock ≤ now) : WindowSound dim keyOf store now ledger :=
  sound.pruned le fun _ => .inr rfl

theorem after_settle_closed (sound : s.Sound)
    (closed : s.limiter.openTickets.get? ticket = none) :
    s.after toLowerCase (.settle ticket outcome now) = ⟨s.limiter, now, s.ledger⟩ := by
  simp only [Observed.after, Limiter.after, Observed.ledgerAfter, settle_closed s.limiter closed,
    sound.entries.unopened closed, LimiterCall.now]

theorem Observed.Sound.settle (sound : s.Sound) (le : s.clock ≤ now)
    (uncapped : s.limiter.Uncapped) :
    (s.after toLowerCase (.settle ticket outcome now)).Sound := by
  cases hown : s.limiter.openTickets.get? ticket with
  | none =>
      rw [after_settle_closed sound hown]
      exact ⟨sound.entries, sound.ipTickets, sound.identifierTickets, sound.ipWindows.later le⟩
  | some own =>
      have hentries := sound.entries.settled ticket outcome
      by_cases houtcome : outcome = .failure
      · subst houtcome
        simp only [Observed.after, Limiter.after, Observed.ledgerAfter,
          settle_failed s.limiter hown, LimiterCall.now]
        constructor <;> dsimp only
        · exact hentries
        · exact sound.ipTickets.confirm (by decide) own.ipKey now ticket uncapped.1
        · exact sound.identifierTickets.confirm (by decide) own.identifierKey now ticket uncapped.2
        · exact sound.ipWindows.failed le (by decide) ticket own.ipKey uncapped.1
      · simp only [Observed.after, Limiter.after, Observed.ledgerAfter,
          settle_refunded s.limiter hown houtcome, LimiterCall.now]
        constructor <;> dsimp only
        · exact hentries
        · exact sound.ipTickets.of_sublist (refund_sublist _ _ _) still_of_erase
        · apply sound.identifierTickets.of_sublist _ still_of_erase
          intro key
          have hrefund := refund_sublist s.limiter.identifierAttempts own.identifierKey ticket key
          split
          · exact (erase_sublist _ _ key).trans hrefund
          · exact hrefund
        · exact sound.ipWindows.refunded le sound.entries hown houtcome own.ipKey

/-- A success resets the identifier's bucket, so its windows start over. -/
theorem Observed.IdentifierSound.settle (windows : s.IdentifierSound) (sound : s.Sound)
    (le : s.clock ≤ now) (uncapped : s.limiter.Uncapped) (fails : outcome ≠ .success) :
    (s.after toLowerCase (.settle ticket outcome now)).IdentifierSound := by
  unfold Observed.IdentifierSound at windows ⊢
  cases hown : s.limiter.openTickets.get? ticket with
  | none =>
      rw [after_settle_closed sound hown]
      exact windows.later le
  | some own =>
      by_cases houtcome : outcome = .failure
      · subst houtcome
        simp only [Observed.after, Limiter.after, Observed.ledgerAfter,
          settle_failed s.limiter hown, LimiterCall.now]
        exact windows.failed le (by decide) ticket own.identifierKey uncapped.2
      · simp only [Observed.after, Limiter.after, Observed.ledgerAfter,
          settle_refunded s.limiter hown houtcome, LimiterCall.now, if_neg fails]
        exact windows.refunded le sound.entries hown houtcome own.identifierKey

/-- What a settled ticket reports. -/
theorem settle_reports (limiter : Limiter)
    (ipTickets : TicketsSound limiter.ipAttempts limiter.openTickets limiter.nextTicket)
    (identifierTickets :
      TicketsSound limiter.identifierAttempts limiter.openTickets limiter.nextTicket)
    (ticket : Nat) (outcome : Outcome) (now : Int) :
    (settle limiter ticket outcome now).1 = true ↔
      ∃ own, limiter.openTickets.get? ticket = some own ∧ outcome = .failure ∧
        (ReachesMaximum ipDimension limiter.ipAttempts (settle limiter ticket outcome now).2.ipAttempts
            own.ipKey now ∨
          ReachesMaximum identifierDimension limiter.identifierAttempts
            (settle limiter ticket outcome now).2.identifierAttempts own.identifierKey now) := by
  cases hown : limiter.openTickets.get? ticket with
  | none => simp [settle_closed limiter hown]
  | some own =>
      by_cases houtcome : outcome = .failure
      · subst houtcome
        have hip := confirm_reports own.ipKey now ipTickets
          (show 0 < ipDimension.windowMs by decide) hown
        have hidentifier := confirm_reports own.identifierKey now identifierTickets
          (show 0 < identifierDimension.windowMs by decide) hown
        simp only [settle_failed limiter hown, Bool.or_eq_true, hip, hidentifier,
          Option.some.injEq, exists_eq_left', true_and]
      · simp [settle_refunded limiter hown houtcome, houtcome]

end Steps

/-! ## Runs -/

section Runs
variable {toLowerCase : String → String} {s s' : Observed} {call : LimiterCall} {limiter : Limiter}
  {ticket : Nat}

theorem UncappedStep.sound (h : UncappedStep toLowerCase s call s') (sound : s.Sound) :
    s'.Sound := by
  obtain ⟨hle, huncapped, rfl⟩ := h
  cases call with
  | isBlocked ip identifier now => exact sound.isBlocked hle
  | tryAcquire ip identifier now => exact sound.tryAcquire hle huncapped
  | settle ticket outcome now => exact sound.settle hle huncapped

theorem UncappedStep.identifierSound (h : UncappedStep toLowerCase s call s')
    (fails : ∀ ticket now, call ≠ .settle ticket .success now) (sound : s.Sound)
    (windows : s.IdentifierSound) : s'.IdentifierSound := by
  obtain ⟨hle, huncapped, rfl⟩ := h
  cases call with
  | isBlocked ip identifier now => exact windows.isBlocked hle
  | tryAcquire ip identifier now => exact windows.tryAcquire sound hle huncapped
  | settle ticket outcome now =>
      apply windows.settle sound hle huncapped
      rintro rfl
      exact fails ticket now rfl

theorem Observed.sound_start (clock : Int) : (Observed.start clock).Sound where
  entries := ⟨List.nodup_nil, nofun, nofun⟩
  ipTickets := ⟨nofun, fun _ => List.nodup_nil, nofun⟩
  identifierTickets := ⟨nofun, fun _ => List.nodup_nil, nofun⟩
  ipWindows := ⟨nofun, fun _ _ => Nat.zero_le _⟩

/-- A ticket that was given out and is settled stays so. -/
def Limiter.Settled (limiter : Limiter) (ticket : Nat) : Prop :=
  ticket < limiter.nextTicket ∧ limiter.openTickets.get? ticket = none

theorem Limiter.Settled.after (h : limiter.Settled ticket) (call : LimiterCall) :
    (limiter.after toLowerCase call).Settled ticket := by
  obtain ⟨hgiven, hclosed⟩ := h
  unfold Limiter.Settled
  cases call with
  | isBlocked ip identifier now =>
      unfold Limiter.after
      simpa only [isBlocked_openTickets, isBlocked_nextTicket] using ⟨hgiven, hclosed⟩
  | tryAcquire ip identifier now =>
      unfold Limiter.after
      cases hblocked : (isBlocked toLowerCase limiter ip identifier now).1 with
      | true =>
          simpa only [tryAcquire_blocked hblocked, isBlocked_openTickets, isBlocked_nextTicket] using
            ⟨hgiven, hclosed⟩
      | false =>
          simp only [tryAcquire_reserved hblocked]
          rw [OrderedMap.get?_set, if_neg (by omega)]
          exact ⟨Nat.lt_succ_of_lt hgiven, hclosed⟩
  | settle other outcome now =>
      change ticket < (settle limiter other outcome now).2.nextTicket ∧
        (settle limiter other outcome now).2.openTickets.get? ticket = none
      have herased : (limiter.openTickets.erase other).get? ticket = none := by
        rw [OrderedMap.get?_erase, hclosed]
        exact ite_self none
      cases hown : limiter.openTickets.get? other with
      | none =>
          rw [settle_closed limiter hown]
          exact ⟨hgiven, hclosed⟩
      | some own =>
          by_cases houtcome : outcome = .failure
          · subst houtcome
            rw [settle_failed limiter hown]
            exact ⟨hgiven, herased⟩
          · rw [settle_refunded limiter hown houtcome]
            exact ⟨hgiven, herased⟩

theorem settled_after_settle (given : ticket < limiter.nextTicket) (outcome : Outcome) (now : Int) :
    (limiter.after toLowerCase (.settle ticket outcome now)).Settled ticket := by
  unfold Limiter.after Limiter.Settled
  dsimp only
  cases hown : limiter.openTickets.get? ticket with
  | none =>
      rw [settle_closed limiter hown]
      exact ⟨given, hown⟩
  | some own =>
      by_cases houtcome : outcome = .failure
      · subst houtcome
        rw [settle_failed limiter hown]
        exact ⟨given, OrderedMap.get?_erase_self _ _⟩
      · rw [settle_refunded limiter hown houtcome]
        exact ⟨given, OrderedMap.get?_erase_self _ _⟩

/-- **The limiter bounds the attempts of every window**, in every run below the
stores' maximum: per client IP always, per identifier where no login succeeds; a
ticket is settled at most once, a failure counts once in each of its buckets,
and it reports exactly that a bucket's live failures reach their maximum. -/
theorem login_attempts_bounded (toLowerCase : String → String) {clock : Int}
    {calls : List LimiterCall} {s : Observed}
    (run : Run (UncappedStep toLowerCase) (Observed.start clock) calls s) :
    (∀ key start, s.ledger.countP (countsIn ipDimension Reservation.ipKey key start) ≤
      IP_MAX_FAILURES) ∧
    ((∀ call ∈ calls, ∀ ticket now, call ≠ .settle ticket .success now) → ∀ key start,
      s.ledger.countP (countsIn identifierDimension Reservation.identifierKey key start) ≤
        IDENTIFIER_MAX_FAILURES) ∧
    (∀ before ticket outcome now after m, calls = before ++ .settle ticket outcome now :: after →
      Run (UncappedStep toLowerCase) (Observed.start clock) before m →
      ticket < m.limiter.nextTicket →
      ∀ outcome' now', settle s.limiter ticket outcome' now' = (false, s.limiter)) ∧
    (∀ ticket own now, s.limiter.openTickets.get? ticket = some own →
      failures ipDimension (settle s.limiter ticket .failure now).2.ipAttempts own.ipKey now =
          failures ipDimension s.limiter.ipAttempts own.ipKey now + 1 ∧
        failures identifierDimension (settle s.limiter ticket .failure now).2.identifierAttempts
            own.identifierKey now =
          failures identifierDimension s.limiter.identifierAttempts own.identifierKey now + 1) ∧
    ∀ ticket outcome now, (settle s.limiter ticket outcome now).1 = true ↔
      ∃ own, s.limiter.openTickets.get? ticket = some own ∧ outcome = .failure ∧
        (ReachesMaximum ipDimension s.limiter.ipAttempts
            (settle s.limiter ticket outcome now).2.ipAttempts own.ipKey now ∨
          ReachesMaximum identifierDimension s.limiter.identifierAttempts
            (settle s.limiter ticket outcome now).2.identifierAttempts own.identifierKey now) := by
  have hsound : s.Sound :=
    run.invariant (P := Observed.Sound) (fun _ _ _ hstep => hstep.sound) (Observed.sound_start clock)
  refine ⟨hsound.ipWindows.windows, ?_, ?_, ?_, ?_⟩
  · intro hfails
    have hboth : s.Sound ∧ s.IdentifierSound := by
      apply run.invariant_of_labels (P := fun s => s.Sound ∧ s.IdentifierSound) _ hfails
      · exact ⟨Observed.sound_start clock, ⟨nofun, fun _ _ => Nat.zero_le _⟩⟩
      · intro s call t hcall hstep hs
        exact ⟨hstep.sound hs.1, hstep.identifierSound hcall hs.1 hs.2⟩
    exact hboth.2.windows
  · intro before ticket outcome now after m hcalls hbefore hgiven outcome' now'
    subst hcalls
    obtain ⟨m', hrun, hrest⟩ := run.split
    have hm := hrun.unique (fun _ _ _ _ h h' => h.2.2.trans h'.2.2.symm) hbefore
    subst hm
    cases hrest with
    | cons hstep hlater =>
        have hsettled : s.limiter.Settled ticket := by
          apply hlater.invariant (P := fun s => s.limiter.Settled ticket)
          · intro s call t hstep hs
            rw [hstep.2.2]
            exact hs.after call
          · have hfirst : (m'.limiter.after toLowerCase (.settle ticket outcome now)).Settled ticket :=
              settled_after_settle hgiven outcome now
            rw [hstep.2.2]
            exact hfirst
        exact settle_closed s.limiter hsettled.2
  · intro ticket own now hown
    rw [settle_failed s.limiter hown]
    exact ⟨failures_confirm own.ipKey now hsound.ipTickets (by decide) hown,
      failures_confirm own.identifierKey now hsound.identifierTickets (by decide) hown⟩
  · exact settle_reports s.limiter hsound.ipTickets hsound.identifierTickets

/-- Two overlapping attempts, the first of which fails. -/
theorem login_attempts_bounded_two :
    ((((Observed.start 0).after id firstGuess).after id secondGuess).after id
      (.settle 0 .failure 200)).ledger.countP
        (countsIn identifierDimension Reservation.identifierKey "anna" 0) ≤
          IDENTIFIER_MAX_FAILURES := by
  have hrun : Run (UncappedStep id) (Observed.start 0)
      [firstGuess, secondGuess, .settle 0 .failure 200]
      ((((Observed.start 0).after id firstGuess).after id secondGuess).after id
        (.settle 0 .failure 200)) := by
    apply Run.cons
    · exact ⟨Int.le_refl _, ⟨by decide, by decide⟩, rfl⟩
    apply Run.cons
    · exact ⟨by decide, ⟨by decide +kernel, by decide +kernel⟩, rfl⟩
    apply Run.single
    exact ⟨by decide, ⟨by decide +kernel, by decide +kernel⟩, rfl⟩
  apply (login_attempts_bounded id hrun).2.1 _ "anna" 0
  intro call hcall ticket now hsuccess
  simp only [List.mem_cons, List.not_mem_nil, or_false] at hcall
  rcases hcall with rfl | rfl | rfl
  · cases hsuccess
  · cases hsuccess
  · cases hsuccess

end Runs

end Sinnlos.Web

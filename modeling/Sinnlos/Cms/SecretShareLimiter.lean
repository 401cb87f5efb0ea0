import Mathlib.Data.List.Dedup
import Mathlib.Data.List.Perm.Subperm
import Sinnlos.Lib.OrderedMap
import Sinnlos.Lib.Runs

/-!
# The limiter of creates

How many shares a sender may create in a minute (`reserveCreate` in
`apps/cms/src/utils/secret-shares.ts`). Times are epoch milliseconds.
-/

namespace Sinnlos.Cms.SecretLimiter

open Runs

/-! ## Reservations -/

def MINUTE_MS : Int := 60000

/-- Senders tracked at most. -/
def LIMITER_MAX_SENDERS : Nat := 10000

def SECRET_CREATES_PER_MINUTE : Nat := 10

/-- The recent creates of each sender, the least recently used sender first. -/
abbrev RecentCreates := OrderedMap Nat (List Int)

/-- The loop that drops the least recently used senders; it ends within as many turns
as there are senders. -/
def dropOldest : Nat → RecentCreates → RecentCreates
  | 0, recentCreates => recentCreates
  | fuel + 1, recentCreates =>
      if LIMITER_MAX_SENDERS < recentCreates.size then
        match recentCreates.keys.head? with
        | some oldest => dropOldest fuel (recentCreates.erase oldest)
        | none => recentCreates
      else recentCreates

/-- Reserve one create, or false when the minute is full. -/
def reserveCreate (recentCreates : RecentCreates) (senderId : Nat) (now : Int) :
    Bool × RecentCreates :=
  let recent := ((recentCreates.get? senderId).getD []).filter fun time => now - time < MINUTE_MS
  let others := recentCreates.erase senderId
  if SECRET_CREATES_PER_MINUTE ≤ recent.length then (false, others.set senderId recent)
  else
    let reserved := others.set senderId (recent ++ [now])
    (true, dropOldest reserved.size reserved)

/-! ## Runs -/

/-- A reservation that was asked for. -/
structure Reservation where
  senderId : Nat
  time : Int
  granted : Bool
deriving DecidableEq

/-- The limiter and every reservation so far, in order. -/
structure Limiter where
  recentCreates : RecentCreates
  log : List Reservation

def Limiter.new : Limiter := ⟨.empty, []⟩

/-- A reservation at a time that is not before those so far. -/
def Limiter.step (s : Limiter) (call : Nat × Int) : Option Limiter :=
  if s.log.all fun reservation => reservation.time ≤ call.2 then
    let reserved := reserveCreate s.recentCreates call.1 call.2
    some ⟨reserved.2, s.log ++ [⟨call.1, call.2, reserved.1⟩]⟩
  else none

def LimiterStep (s : Limiter) (call : Nat × Int) (t : Limiter) : Prop := s.step call = some t

def Limiter.Initial (s : Limiter) : Prop := s = .new

/-- At most as many senders as the limiter tracks. -/
def FewSenders (log : List Reservation) : Prop :=
  (log.map Reservation.senderId).dedup.length ≤ LIMITER_MAX_SENDERS

instance (log : List Reservation) : Decidable (FewSenders log) :=
  inferInstanceAs (Decidable (_ ≤ _))

/-- When the creates of a sender were granted. -/
def grantedTimes (log : List Reservation) (senderId : Nat) : List Int :=
  (log.filter fun reservation => reservation.granted && reservation.senderId = senderId).map
    Reservation.time

/-- How many creates of a sender were granted in the minute before a time. -/
def inLastMinute (log : List Reservation) (senderId : Nat) (now : Int) : Nat :=
  ((grantedTimes log senderId).filter fun time => now - time < MINUTE_MS).length

variable {s t : Limiter} {log : List Reservation} {reservation : Reservation}

theorem grantedTimes_append (log : List Reservation) (reservation : Reservation) (senderId : Nat) :
    grantedTimes (log ++ [reservation]) senderId = grantedTimes log senderId ++
      if reservation.granted && reservation.senderId = senderId then [reservation.time]
      else [] := by
  rw [grantedTimes, List.filter_append, List.map_append, List.filter_singleton]
  cases reservation.granted && decide (reservation.senderId = senderId) <;> rfl

/-! ## The minute before -/

/-- What the limiter remembers of each sender is what was granted, as far as it still
counts; and that decided every reservation. -/
structure Remembers (s : Limiter) : Prop where
  senders : ∀ senderId ∈ s.recentCreates.keys, senderId ∈ s.log.map Reservation.senderId
  remembered : ∀ senderId now, (∀ reservation ∈ s.log, reservation.time ≤ now) →
    (((s.recentCreates.get? senderId).getD []).filter fun time => now - time < MINUTE_MS) =
      (grantedTimes s.log senderId).filter fun time => now - time < MINUTE_MS
  decided : ∀ before reservation after, s.log = before ++ reservation :: after →
    (reservation.granted = true ↔
      inLastMinute before reservation.senderId reservation.time < SECRET_CREATES_PER_MINUTE)
  ordered : s.log.Pairwise fun a b => a.time ≤ b.time

variable {recentCreates : RecentCreates} {now : Int}

/-- Nobody is dropped while there are few senders. -/
theorem dropOldest_of_le (fuel : Nat) (h : recentCreates.size ≤ LIMITER_MAX_SENDERS) :
    dropOldest fuel recentCreates = recentCreates := by
  cases fuel with
  | zero => rfl
  | succ fuel => rw [dropOldest, if_neg (by omega)]

/-- The map holds no more senders than have asked. -/
theorem size_le_of_senders (few : FewSenders log)
    (h : ∀ senderId ∈ recentCreates.keys, senderId ∈ log.map Reservation.senderId) :
    recentCreates.size ≤ LIMITER_MAX_SENDERS := by
  have hsubset : recentCreates.keys ⊆ (log.map Reservation.senderId).dedup :=
    fun senderId hmem => List.mem_dedup.mpr (h senderId hmem)
  have hle := (List.subperm_of_subset recentCreates.keys_nodup hsubset).length_le
  rw [OrderedMap.size_keys] at hle
  exact Nat.le_trans hle few

variable {senderId : Nat} {call : Nat × Int}

/-- What a reservation leaves in the map where nobody is dropped, and when it is granted. -/
theorem reserveCreate_spec {recent : List Int}
    (hrecent : (((recentCreates.get? senderId).getD []).filter fun time =>
      now - time < MINUTE_MS) = recent)
    (hsize : ((recentCreates.erase senderId).set senderId (recent ++ [now])).size ≤
      LIMITER_MAX_SENDERS) :
    reserveCreate recentCreates senderId now =
      if recent.length < SECRET_CREATES_PER_MINUTE then
        (true, (recentCreates.erase senderId).set senderId (recent ++ [now]))
      else (false, (recentCreates.erase senderId).set senderId recent) := by
  unfold reserveCreate
  rw [hrecent]
  dsimp only
  by_cases hfull : SECRET_CREATES_PER_MINUTE ≤ recent.length
  · rw [if_pos hfull, if_neg (by omega)]
  · rw [if_neg hfull, if_pos (by omega), dropOldest_of_le _ hsize]

/-- Times that no longer count now do not count later. -/
theorem filter_later {later : Int} (h : now ≤ later) (times : List Int) :
    ((times.filter fun time => now - time < MINUTE_MS).filter fun time =>
        later - time < MINUTE_MS) =
      times.filter fun time => later - time < MINUTE_MS := by
  rw [List.filter_filter]
  apply List.filter_congr
  intro time _
  by_cases hlater : later - time < MINUTE_MS
  · have hnow : now - time < MINUTE_MS := by omega
    simp [hlater, hnow]
  · simp [hlater]

/-- The map after a reservation has no one who did not ask. -/
theorem Remembers.senders_set (remembers : Remembers s) (senderId : Nat) (times : List Int)
    (now : Int) (granted : Bool) :
    ∀ other ∈ ((s.recentCreates.erase senderId).set senderId times).keys,
      other ∈ (s.log ++ [(⟨senderId, now, granted⟩ : Reservation)]).map Reservation.senderId := by
  intro other hother
  rw [List.map_append]
  rcases OrderedMap.mem_keys_set.mp hother with heq | hkept
  · rw [heq]
    exact List.mem_append_right _ List.mem_cons_self
  · exact List.mem_append_left _
      (remembers.senders other (OrderedMap.mem_keys_erase.mp hkept).1)

/-- A reservation that is decided by the minute before it is remembered with the others. -/
theorem Remembers.grow (remembers : Remembers s) {granted : Bool}
    (clock : ∀ reservation ∈ s.log, reservation.time ≤ now)
    (hgranted : granted = true ↔ inLastMinute s.log senderId now < SECRET_CREATES_PER_MINUTE) :
    Remembers ⟨(s.recentCreates.erase senderId).set senderId
        (((grantedTimes s.log senderId).filter fun time => now - time < MINUTE_MS) ++
          if granted then [now] else []),
      s.log ++ [⟨senderId, now, granted⟩]⟩ where
  senders := remembers.senders_set senderId _ now granted
  remembered := by
    intro other later hlater
    have hnow : now ≤ later :=
      hlater ⟨senderId, now, granted⟩ (List.mem_append_right _ List.mem_cons_self)
    dsimp only
    rw [grantedTimes_append, List.filter_append]
    dsimp only
    by_cases hother : other = senderId
    · rw [hother, OrderedMap.get?_set_self, Option.getD_some, List.filter_append,
        filter_later hnow]
      simp
    · have hne : ¬ senderId = other := fun heq => hother heq.symm
      rw [OrderedMap.get?_set_of_ne _ _ hother, OrderedMap.get?_erase_of_ne _ hother,
        remembers.remembered other later
          (fun reservation hmem => hlater reservation (List.mem_append_left _ hmem))]
      simp [hne]
  decided := by
    intro before reservation after hsplit
    rcases List.eq_nil_or_concat' after with hlast | ⟨front, last, hlast⟩
    · rw [hlast] at hsplit
      obtain ⟨hfront, hsame⟩ := List.append_inj' hsplit rfl
      rw [← hfront, ← (List.cons.inj hsame).1]
      exact hgranted
    · dsimp only at hsplit
      rw [hlast, ← List.cons_append, ← List.append_assoc] at hsplit
      obtain ⟨hfront, -⟩ := List.append_inj' hsplit rfl
      exact remembers.decided before reservation front hfront
  ordered := by
    rw [List.pairwise_append]
    refine ⟨remembers.ordered, List.pairwise_singleton _ _, ?_⟩
    intro a ha b hb
    rw [List.mem_singleton.mp hb]
    exact clock a ha

theorem remembers_step (hstep : LimiterStep s call t) (few : FewSenders t.log)
    (remembers : Remembers s) : Remembers t := by
  obtain ⟨senderId, now⟩ := call
  simp only [LimiterStep, Limiter.step] at hstep
  split at hstep
  case isFalse => cases hstep
  case isTrue hclock =>
    have clock : ∀ reservation ∈ s.log, reservation.time ≤ now := fun reservation hmem =>
      of_decide_eq_true (List.all_eq_true.mp hclock reservation hmem)
    have ht := Option.some.inj hstep
    have hfew : FewSenders (s.log ++ [⟨senderId, now, (reserveCreate s.recentCreates senderId
        now).1⟩]) := by
      rw [← ht] at few
      exact few
    have hspec := reserveCreate_spec (remembers.remembered senderId now clock)
      (size_le_of_senders hfew (remembers.senders_set senderId _ now _))
    have hcount : ((grantedTimes s.log senderId).filter fun time =>
        now - time < MINUTE_MS).length = inLastMinute s.log senderId now := rfl
    rw [hcount] at hspec
    by_cases hroom : inLastMinute s.log senderId now < SECRET_CREATES_PER_MINUTE
    · rw [if_pos hroom] at hspec
      rw [hspec] at ht
      rw [← ht]
      exact remembers.grow clock (iff_of_true rfl hroom)
    · rw [if_neg hroom] at hspec
      rw [hspec] at ht
      have hrefused : false = true ↔
          inLastMinute s.log senderId now < SECRET_CREATES_PER_MINUTE :=
        iff_of_false Bool.false_ne_true hroom
      have hgrown := remembers.grow clock hrefused
      rw [if_neg Bool.false_ne_true, List.append_nil] at hgrown
      rw [← ht]
      exact hgrown

theorem fewSenders_of_step (hstep : LimiterStep s call t) (few : FewSenders t.log) :
    FewSenders s.log := by
  obtain ⟨reservation, hlog⟩ : ∃ reservation, t.log = s.log ++ [reservation] := by
    simp only [LimiterStep, Limiter.step] at hstep
    split at hstep
    · exact ⟨_, congrArg Limiter.log (Option.some.inj hstep).symm⟩
    · cases hstep
  have hsubset : (s.log.map Reservation.senderId).dedup ⊆
      (t.log.map Reservation.senderId).dedup := by
    intro senderId hmem
    rw [hlog, List.map_append]
    exact List.mem_dedup.mpr (List.mem_append_left _ (List.mem_dedup.mp hmem))
  exact Nat.le_trans (List.subperm_of_subset (List.nodup_dedup _) hsubset).length_le few

/-! ## What is granted -/

/-- Of a log whose reservations were decided by the minute before, at most so many
creates of a sender lie within a minute. -/
theorem granted_in_minute (log : List Reservation)
    (decided : ∀ before reservation after, log = before ++ reservation :: after →
      (reservation.granted = true ↔
        inLastMinute before reservation.senderId reservation.time < SECRET_CREATES_PER_MINUTE))
    (senderId : Nat) (start : Int) :
    ((grantedTimes log senderId).filter fun time =>
      start ≤ time ∧ time < start + MINUTE_MS).length ≤ SECRET_CREATES_PER_MINUTE := by
  induction log using List.reverseRecOn with
  | nil => exact Nat.zero_le _
  | append_singleton before reservation ih =>
      have hbefore := ih fun front other after hsplit =>
        decided front other (after ++ [reservation]) (by simp [hsplit])
      rw [grantedTimes_append, List.filter_append, List.length_append]
      by_cases hown : (reservation.granted && reservation.senderId = senderId) = true
      · rw [if_pos hown]
        by_cases hinside : start ≤ reservation.time ∧ reservation.time < start + MINUTE_MS
        · have hparts := Bool.and_eq_true_iff.mp hown
          have hsender := of_decide_eq_true hparts.2
          have hroom := (decided before reservation [] rfl).mp hparts.1
          -- what lies within the minute from `start` on lies within the last one
          have hle : ((grantedTimes before senderId).filter fun time =>
              start ≤ time ∧ time < start + MINUTE_MS).length ≤
                inLastMinute before senderId reservation.time := by
            unfold inLastMinute
            rw [← List.countP_eq_length_filter, ← List.countP_eq_length_filter]
            apply List.countP_mono_left
            intro time _ htime
            have hrange := of_decide_eq_true htime
            exact decide_eq_true (by omega)
          rw [hsender] at hroom
          simp only [List.filter_cons, hinside, List.filter_nil]
          simp only [and_self, decide_true, if_true, List.length_singleton]
          omega
        · simp only [List.filter_cons, hinside, List.filter_nil]
          simpa using hbefore
      · rw [if_neg hown]
        simpa using hbefore

/-- Of one sender at most ten creates are granted within a minute, and a sender without
a create in the last minute is never refused, whenever the clock does not go back and no
more senders ask than are tracked. -/
theorem creates_per_minute (h : Reachable Limiter.Initial LimiterStep s)
    (few : FewSenders s.log) :
    (∀ senderId start, ((grantedTimes s.log senderId).filter fun time =>
        start ≤ time ∧ time < start + MINUTE_MS).length ≤ SECRET_CREATES_PER_MINUTE) ∧
      ∀ before reservation after, s.log = before ++ reservation :: after →
        (∀ other ∈ before, other.senderId = reservation.senderId → other.granted = true →
          MINUTE_MS ≤ reservation.time - other.time) →
        reservation.granted = true := by
  have remembers : FewSenders s.log → Remembers s := by
    apply h.invariant
    · intro first hfirst _
      rw [hfirst]
      constructor
      · exact fun senderId hmem => absurd hmem List.not_mem_nil
      · exact fun _ _ _ => rfl
      · intro before reservation after hsplit
        exact absurd hsplit.symm (by simp [Limiter.new])
      · exact List.Pairwise.nil
    · intro a call b hstep ih fewAfter
      exact remembers_step hstep fewAfter (ih (fewSenders_of_step hstep fewAfter))
  have remembers := remembers few
  refine ⟨granted_in_minute s.log remembers.decided, ?_⟩
  intro before reservation after hsplit hidle
  apply (remembers.decided before reservation after hsplit).mpr
  have hnone : inLastMinute before reservation.senderId reservation.time = 0 := by
    unfold inLastMinute
    rw [List.length_eq_zero_iff, List.filter_eq_nil_iff]
    intro time htime
    obtain ⟨other, hother, hat⟩ := List.mem_map.mp htime
    have hparts := Bool.and_eq_true_iff.mp (List.mem_filter.mp hother).2
    have hage := hidle other (List.mem_filter.mp hother).1 (of_decide_eq_true hparts.2) hparts.1
    rw [decide_eq_true_eq]
    omega
  rw [hnone]
  decide

/-- Eleven creates within a minute, and one a minute after the first. -/
def burst : List (Nat × Int) := (List.range 11).map (fun i : Nat => (7, (i : Int))) ++ [(7, 60000)]

theorem creates_per_minute_burst :
    ∃ s, Run LimiterStep .new burst s ∧
      s.log.map Reservation.granted = List.replicate 10 true ++ [false, true] ∧
      (∀ senderId start, ((grantedTimes s.log senderId).filter fun time =>
        start ≤ time ∧ time < start + MINUTE_MS).length ≤ SECRET_CREATES_PER_MINUTE) ∧
      ∀ before reservation after, s.log = before ++ reservation :: after →
        (∀ other ∈ before, other.senderId = reservation.senderId → other.granted = true →
          MINUTE_MS ≤ reservation.time - other.time) →
        reservation.granted = true := by
  have hend : ((follow Limiter.step .new burst).map fun s =>
      (s.log.map Reservation.granted, decide (FewSenders s.log))) =
        some (List.replicate 10 true ++ [false, true], true) := by
    decide +kernel
  obtain ⟨s, hrun, hlast⟩ := Option.map_eq_some_iff.mp hend
  have hparts := Prod.mk.inj hlast
  have run : Run LimiterStep .new burst s := run_of_follow hrun
  exact ⟨s, run, hparts.1,
    creates_per_minute ⟨.new, burst, rfl, run⟩ (of_decide_eq_true hparts.2)⟩

end Sinnlos.Cms.SecretLimiter

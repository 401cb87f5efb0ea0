import Sinnlos.Cms.Polls
import Sinnlos.Cms.ReactionCreates

/-! # One voter's ballots without locks

`castVote` of `apps/cms/src/api/poll-vote/controllers/poll-vote.ts`, from its lookup
on: the votes of one voter in one poll that no lock serialises. The rows are the
ballots of this voter; every event is one statement of one vote, and the next one sees
what it wrote.
-/

namespace Sinnlos.Cms.BallotRaces

open Collapse Runs

/-- Where a vote stands; `vote` is the ballot as it was read back. -/
inductive Phase
  | lookup
  | inserting
  | inserted (id : Nat)
  | checking (vote : Option Nat)
  | collapsing (vote first : Option Nat) (later : List Nat)
  | done (outcome : VoteOutcome)
deriving DecidableEq

def afterLookup (found : Option Ballot) : Phase :=
  if found.isSome then .done (.badRequest "Already voted") else .inserting

/-- The listed ballots in ascending order: the first is kept. -/
def afterListing (vote : Option Nat) (mine : List Ballot) : Phase :=
  .collapsing vote (mine.head?.map Ballot.id) (mine.tail.map Ballot.id)

/-- A ballot that is gone, or came second, does not count. -/
def outcomeOf (vote first : Option Nat) : VoteOutcome :=
  match vote with
  | none => .badRequest "Already voted"
  | some id => if first.any (· ≠ id) then .badRequest "Already voted" else .voted id

abbrev State (ι : Type) := Table ι Ballot Phase

/-- One statement of a vote; a lookup answers any ballot of the voter. -/
inductive Event (ι : Type)
  | lookup (vote : ι) (found : Option Ballot)
  | insert (vote : ι) (id : Nat)
  | run (vote : ι)

variable {ι : Type}

namespace State

/-- What a lookup can answer. -/
def Finds (s : State ι) : Option Ballot → Prop
  | some ballot => ballot ∈ s.rows
  | none => s.rows = []

instance (s : State ι) (found : Option Ballot) : Decidable (Finds s found) :=
  match found with
  | some ballot => inferInstanceAs (Decidable (ballot ∈ s.rows))
  | none => inferInstanceAs (Decidable (s.rows = []))

/-- The ballot as `create` reads it back. -/
def readBack (s : State ι) (id : Nat) : Option Nat :=
  (s.rows.find? (·.id = id)).map Ballot.id

def listing (s : State ι) : List Ballot := s.rows.insertionSort fun a b => a.id ≤ b.id

section Statements

variable [DecidableEq ι]

/-- The next statement of a vote, other than its lookup and its insert. -/
def run (s : State ι) (vote : ι) : Option (State ι) :=
  match s.phase vote with
  | .inserted id => some (s.setPhase vote (.checking (readBack s id)))
  | .checking ballot => some (s.setPhase vote (afterListing ballot (listing s)))
  | .collapsing ballot first [] => some (s.setPhase vote (.done (outcomeOf ballot first)))
  | .collapsing ballot first (id :: later) =>
      some ((s.delete Ballot.id id).setPhase vote (.collapsing ballot first later))
  | _ => none

def next (votes : ι → VoteRequest) (s : State ι) : Event ι → Option (State ι)
  | .lookup vote found =>
      if s.phase vote = .lookup ∧ Finds s found then
        some (s.setPhase vote (afterLookup found))
      else none
  | .insert vote id =>
      if s.phase vote = .inserting ∧ id ∉ s.ever then
        some ((s.insertRow Ballot.id ((votes vote).ballot id)).setPhase vote (.inserted id))
      else none
  | .run vote => run s vote

def Step (votes : ι → VoteRequest) (s : State ι) (event : Event ι) (t : State ι) : Prop :=
  next votes s event = some t

end Statements

/-- No vote has looked yet, and the voter has one ballot at most. -/
structure Start (s : State ι) : Prop where
  phases : ∀ vote, s.phase vote = .lookup
  single : s.rows.length ≤ 1
  ever : s.ever = s.rows.map Ballot.id

def Finished (s : State ι) : Prop := ∀ vote, ∃ outcome, s.phase vote = .done outcome

end State

/-! ## The votes as parties -/

def Phase.intent : Phase → Intent
  | inserted _ | checking _ => .checking
  | collapsing _ _ later => .collapsing later
  | lookup | inserting | done _ => .idle

namespace State

/-- A vote that is past its insert has met or made a ballot. -/
structure Sound (s : State ι) : Prop where
  keyed : s.Keyed Ballot.id
  looked : ∀ vote, s.phase vote ≠ .lookup → s.phase vote = .inserting ∨ s.ever ≠ []

variable {votes : ι → VoteRequest} {s t : State ι} {vote : ι} {phase : Phase} {id : Nat}

theorem Sound.delete (h : Sound s) : Sound (s.delete Ballot.id id) where
  keyed := h.keyed.delete
  looked := h.looked

theorem Sound.insertRow (h : Sound s) {ballot : Ballot} (fresh : ballot.id ∉ s.ever) :
    Sound (s.insertRow Ballot.id ballot) where
  keyed := h.keyed.insertRow fresh
  looked other hother := (h.looked other hother).imp id fun _ => List.cons_ne_nil _ _

theorem Start.table (start : Start s) : Table.Start Ballot.id Phase.intent s where
  idle vote := by rw [start.phases]; rfl
  single := start.single
  ever := start.ever

theorem Start.sound (start : Start s) : Sound s where
  keyed := start.table.keyed
  looked vote hlook := absurd (start.phases vote) hlook

theorem Finished.settled (finished : Finished s) : (s.view Ballot.id Phase.intent).Settled := by
  intro vote
  obtain ⟨outcome, hdone⟩ := finished vote
  show (s.phase vote).intent = _
  rw [hdone]
  rfl

/-! ## What a statement does -/

variable [DecidableEq ι]

theorem Sound.setPhase (h : Sound s)
    (looks : phase ≠ .lookup → phase = .inserting ∨ s.ever ≠ []) :
    Sound (s.setPhase vote phase) where
  keyed := ⟨h.keyed.once, h.keyed.known⟩
  looked other := by
    by_cases hother : other = vote
    · rw [hother]
      simpa [Table.setPhase] using looks
    · simpa [Table.setPhase, Function.update_of_ne hother] using h.looked other

theorem Sound.turn {current : Phase} (h : Sound s) (hphase : s.phase vote = current)
    (started : current ≠ .lookup) (past : current ≠ .inserting) :
    Sound (s.setPhase vote phase) := by
  rw [← hphase] at started past
  exact h.setPhase fun _ => Or.inr ((h.looked vote started).resolve_left past)

/-- A statement is a move of its vote; no vote removes on purpose. -/
def Moves (s t : State ι) : Prop := Table.Moves Ballot.id Phase.intent False s t

theorem lookup_step {found : Option Ballot} (h : Sound s) (hphase : s.phase vote = .lookup)
    (finds : Finds s found) :
    Sound (s.setPhase vote (afterLookup found)) ∧
      Moves s (s.setPhase vote (afterLookup found)) := by
  have hidle : (s.phase vote).intent = .idle := by rw [hphase]; rfl
  cases found with
  | some ballot =>
      have hsome : s.ever ≠ [] := List.ne_nil_of_mem (h.keyed.known ballot finds)
      exact ⟨h.setPhase fun _ => Or.inr hsome, .stay hidle⟩
  | none => exact ⟨h.setPhase fun _ => Or.inl rfl, .stay hidle⟩

theorem insert_step (h : Sound s) (hphase : s.phase vote = .inserting) (fresh : id ∉ s.ever) :
    Sound ((s.insertRow Ballot.id ((votes vote).ballot id)).setPhase vote (.inserted id)) ∧
      Moves s ((s.insertRow Ballot.id ((votes vote).ballot id)).setPhase vote (.inserted id)) := by
  have hidle : (s.phase vote).intent = .idle := by rw [hphase]; rfl
  have hinserted : Sound (s.insertRow Ballot.id ((votes vote).ballot id)) := h.insertRow fresh
  exact ⟨hinserted.setPhase fun _ => Or.inr (List.cons_ne_nil _ _), .insert hidle rfl⟩

theorem run_step (h : Sound s) (step : run s vote = some t) : Sound t ∧ Moves s t := by
  rw [run] at step
  split at step
  case h_1 id hphase =>
    cases step
    have hchecking : (s.phase vote).intent = .checking := by rw [hphase]; rfl
    exact ⟨h.turn hphase (fun h => nomatch h) (fun h => nomatch h), .stay hchecking⟩
  case h_2 ballot hphase =>
    cases step
    have hchecking : (s.phase vote).intent = .checking := by rw [hphase]; rfl
    exact ⟨h.turn hphase (fun h => nomatch h) (fun h => nomatch h),
      .list h.keyed hchecking rfl⟩
  case h_3 ballot first hphase =>
    cases step
    have hsettled : (s.phase vote).intent = .collapsing [] := by rw [hphase]; rfl
    exact ⟨h.turn hphase (fun h => nomatch h) (fun h => nomatch h), .settle hsettled rfl⟩
  case h_4 ballot first id later hphase =>
    cases step
    have hcollapsing : (s.phase vote).intent = .collapsing (id :: later) := by rw [hphase]; rfl
    exact ⟨h.delete.turn hphase (fun h => nomatch h) (fun h => nomatch h),
      .collapse hcollapsing rfl⟩
  case h_5 => cases step

theorem step_sound (h : Sound s) {event : Event ι} (step : Step votes s event t) :
    Sound t ∧ Moves s t := by
  rw [Step] at step
  cases event with
  | lookup vote found =>
      rw [next] at step
      split at step
      · next hlook =>
          cases step
          exact lookup_step h hlook.1 hlook.2
      · cases step
  | insert vote id =>
      rw [next] at step
      split at step
      · next hinsert =>
          cases step
          exact insert_step h hinsert.1 hinsert.2
      · cases step
  | run vote => exact run_step h step

/-! ## Whole runs -/

variable {events : List (Event ι)}

theorem run_sound (run : Run (Step votes) s events t) (start : Start s) :
    Sound t ∧ (t.view Ballot.id Phase.intent).Guarded ∧
      (t.view Ballot.id Phase.intent).Grounded := by
  apply run.invariant (P := fun s => Sound s ∧ (s.view Ballot.id Phase.intent).Guarded ∧
      (s.view Ballot.id Phase.intent).Grounded) _
    ⟨start.sound, start.table.guarded, start.table.grounded⟩
  intro s event t step h
  obtain ⟨hsound, hmoves⟩ := step_sound h.1 step
  exact ⟨hsound, hmoves.guarded h.2.1, hmoves.grounded id h.2.2⟩

/-- However the statements of the votes interleave, the voter's lowest ballot is the
only one left. -/
theorem collapses (start : Start s) (run : Run (Step votes) s events t) (finished : Finished t) :
    t.rows.length ≤ 1 ∧ (Nonempty ι →
      ∃ ballot, t.rows = [ballot] ∧ ∀ id ∈ t.ever, ballot.id ≤ id) := by
  obtain ⟨hsound, hguarded, hgrounded⟩ := run_sound run start
  have hshort := hsound.keyed.short hguarded finished.settled
  refine ⟨hshort, fun hvote => ?_⟩
  obtain ⟨vote⟩ := hvote
  obtain ⟨outcome, hdone⟩ := finished vote
  have hever := hsound.looked vote (by rw [hdone]; exact fun h => nomatch h)
  rw [hdone] at hever
  exact Table.lowest_of_short hshort hgrounded (hever.resolve_left fun h => nomatch h)

end State

open Reactions in
/-- Create requests of one user with one emoji on one target, and votes of one voter in
one poll without locks: when all are done, one row at most is left, and unless a removal
was asked for it is the lowest one there ever was. -/
theorem concurrent_creates_leave_one {ι κ : Type} [DecidableEq ι] [DecidableEq κ]
    {reacted : ι → Reacted} {s t : Reactions.State ι} {events : List (Reactions.Event ι)}
    (start : Reactions.State.Start s) (run : Run (Reactions.State.Step reacted) s events t)
    (finished : Reactions.State.Finished t)
    {votes : κ → VoteRequest} {u v : State κ} {statements : List (Event κ)}
    (unvoted : State.Start u) (cast : Run (State.Step votes) u statements v)
    (counted : State.Finished v) :
    (t.rows.length ≤ 1 ∧ (Nonempty ι → (∀ request, reacted request = some true) →
      ∃ row, t.rows = [row] ∧ ∀ id ∈ t.ever, row.id ≤ id)) ∧
    (v.rows.length ≤ 1 ∧ (Nonempty κ →
      ∃ ballot, v.rows = [ballot] ∧ ∀ id ∈ v.ever, ballot.id ≤ id)) :=
  ⟨Reactions.State.collapses start run finished, State.collapses unvoted cast counted⟩

/-! ## Two requests and two votes at once -/

def noReactions : Reactions.State Bool := ⟨[], [], fun _ => .lookup⟩

/-- The second insert commits under the lower id, after the first request listed. -/
def reactionRace : List (Reactions.Event Bool) :=
  [.lookup true none, .lookup false none, .insert true ⟨2, "b"⟩, .run true, .run true,
    .insert false ⟨1, "a"⟩, .run false, .run false, .run false, .run false]

def racedReactions : Reactions.State Bool :=
  (follow (Reactions.State.next fun _ => some true) noReactions reactionRace).get
    (by decide +kernel)

def noBallots : State Bool := ⟨[], [], fun _ => .lookup⟩

def ballotRace : List (Event Bool) :=
  [.lookup true none, .lookup false none, .insert true 2, .insert false 1, .run false, .run false,
    .run false, .run true, .run true, .run true, .run false]

def racedVote (_ : Bool) : VoteRequest := ⟨⟨true, true, true⟩, 7, 0, none, 0⟩

def racedBallots : State Bool :=
  (follow (State.next racedVote) noBallots ballotRace).get (by decide +kernel)

theorem raced_requests_leave_the_lowest :
    (∃ row, racedReactions.rows = [row] ∧ ∀ id ∈ racedReactions.ever, row.id ≤ id) ∧
      ∃ ballot, racedBallots.rows = [ballot] ∧ ∀ id ∈ racedBallots.ever, ballot.id ≤ id := by
  have reactions : Run (Reactions.State.Step fun _ => some true) noReactions reactionRace
      racedReactions := run_of_follow (Option.some_get _).symm
  have answered : Reactions.State.Finished racedReactions := Bool.forall_bool.mpr
    ⟨⟨.created (some ⟨1, "a"⟩), by decide +kernel⟩, ⟨.created (some ⟨2, "b"⟩), by decide +kernel⟩⟩
  have ballots : Run (State.Step racedVote) noBallots ballotRace racedBallots :=
    run_of_follow (Option.some_get _).symm
  have counted : State.Finished racedBallots := Bool.forall_bool.mpr
    ⟨⟨.voted 1, by decide +kernel⟩, ⟨.badRequest "Already voted", by decide +kernel⟩⟩
  have both := concurrent_creates_leave_one ⟨fun _ => rfl, Nat.zero_le _, rfl⟩ reactions answered
    ⟨fun _ => rfl, Nat.zero_le _, rfl⟩ ballots counted
  exact ⟨both.1.2 ⟨true⟩ fun _ => rfl, both.2.2 ⟨true⟩⟩

end Sinnlos.Cms.BallotRaces

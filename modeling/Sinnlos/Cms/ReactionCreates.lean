import Sinnlos.Lib.Collapse
import Sinnlos.Lib.Runs

/-! # Concurrent reactions

`apps/cms/src/api/reaction/controllers/reaction.ts`: the create requests of one user
with one emoji on one target, from the lookup on. The rows are the matching ones;
every event is one statement of one request, in any order. An insert gets an id no
row has had: ids are drawn before the commit, so a later row can have a lower one.
-/

namespace Sinnlos.Cms.Reactions

open Collapse Runs

structure Reaction where
  id : Nat
  documentId : String
deriving DecidableEq

inductive Answer
  | existing (row : Reaction)
  | created (row : Option Reaction)
  | removed
  | nothing
deriving DecidableEq

/-- Where a request stands. -/
inductive Phase
  | lookup
  | finding
  | removing (rest : List Nat)
  | inserting
  | inserted (id : Nat)
  | checking (created : Option Reaction)
  | collapsing (created : Option Reaction) (kept : Reaction) (rest : List Nat)
  | reading (created : Option Reaction) (kept : Reaction)
  | done (answer : Answer)
deriving DecidableEq

/-- The desired end state: the reaction is there, is gone, or toggles. -/
abbrev Reacted := Option Bool

def afterLookup (reacted : Reacted) : Option Reaction → Phase
  | some existing => if reacted = some true then .done (.existing existing) else .finding
  | none => if reacted = some false then .done .nothing else .inserting

/-- The listed rows in ascending order: the first is kept. -/
def afterListing (created : Option Reaction) : List Reaction → Phase
  | kept :: extra =>
      if extra = [] then .done (.created created)
      else .collapsing created kept (extra.map Reaction.id)
  | [] => .done (.created created)

def afterCollapse (created : Option Reaction) (kept : Reaction) : Phase :=
  if created.map Reaction.documentId = some kept.documentId then .done (.created created)
  else .reading created kept

def afterReading (created survivor : Option Reaction) : Phase :=
  match survivor with
  | none => .done (.created created)
  | some row => .done (.existing row)

abbrev State (ι : Type) := Table ι Reaction Phase

/-- One statement of a request; a lookup answers any matching row. -/
inductive Event (ι : Type)
  | lookup (request : ι) (found : Option Reaction)
  | insert (request : ι) (row : Reaction)
  | run (request : ι)

variable {ι : Type}

namespace State

/-- What a lookup can answer. -/
def Finds (s : State ι) : Option Reaction → Prop
  | some row => row ∈ s.rows
  | none => s.rows = []

instance (s : State ι) (found : Option Reaction) : Decidable (Finds s found) :=
  match found with
  | some row => inferInstanceAs (Decidable (row ∈ s.rows))
  | none => inferInstanceAs (Decidable (s.rows = []))

def find (s : State ι) (id : Nat) : Option Reaction := s.rows.find? (·.id = id)

/-- The matching rows in ascending order. -/
def listing (s : State ι) : List Reaction := s.rows.insertionSort fun a b => a.id ≤ b.id

section Statements

variable [DecidableEq ι]

/-- The next statement of a request, other than its lookup and its insert. -/
def run (s : State ι) (request : ι) : Option (State ι) :=
  match s.phase request with
  | .finding => some (s.setPhase request (.removing (s.rows.map Reaction.id)))
  | .removing [] => some (s.setPhase request (.done .removed))
  | .removing (id :: rest) =>
      some ((s.delete Reaction.id id).setPhase request (.removing rest))
  | .inserted id => some (s.setPhase request (.checking (find s id)))
  | .checking created => some (s.setPhase request (afterListing created (listing s)))
  | .collapsing created kept [] => some (s.setPhase request (afterCollapse created kept))
  | .collapsing created kept (id :: rest) =>
      some ((s.delete Reaction.id id).setPhase request (.collapsing created kept rest))
  | .reading created kept => some (s.setPhase request (afterReading created (find s kept.id)))
  | _ => none

def next (reacted : ι → Reacted) (s : State ι) : Event ι → Option (State ι)
  | .lookup request found =>
      if s.phase request = .lookup ∧ Finds s found then
        some (s.setPhase request (afterLookup (reacted request) found))
      else none
  | .insert request row =>
      if s.phase request = .inserting ∧ row.id ∉ s.ever then
        some ((s.insertRow Reaction.id row).setPhase request (.inserted row.id))
      else none
  | .run request => run s request

def Step (reacted : ι → Reacted) (s : State ι) (event : Event ι) (t : State ι) : Prop :=
  next reacted s event = some t

end Statements

/-- Nobody has looked yet, and there is one matching row at most. -/
structure Start (s : State ι) : Prop where
  phases : ∀ request, s.phase request = .lookup
  single : s.rows.length ≤ 1
  ever : s.ever = s.rows.map Reaction.id

def Finished (s : State ι) : Prop := ∀ request, ∃ answer, s.phase request = .done answer

end State

/-! ## The requests as parties -/

def Phase.intent : Phase → Intent
  | inserted _ | checking _ => .checking
  | collapsing _ _ rest => .collapsing rest
  | finding | removing _ => .clearing
  | lookup | inserting | reading _ _ | done _ => .idle

namespace State

/-- Only who asked for it removes, and who keeps a reaction has met or made one. -/
structure Sound (reacted : ι → Reacted) (s : State ι) : Prop where
  keyed : s.Keyed Reaction.id
  removers : ∀ request, (s.phase request).intent = .clearing → reacted request ≠ some true
  looked : ∀ request, s.phase request ≠ .lookup → reacted request = some true →
    s.phase request = .inserting ∨ s.ever ≠ []

variable {reacted : ι → Reacted} {s t : State ι} {request : ι} {phase : Phase} {id : Nat}

theorem Sound.delete (h : Sound reacted s) : Sound reacted (s.delete Reaction.id id) where
  keyed := h.keyed.delete
  removers := h.removers
  looked := h.looked

variable {row : Reaction}

theorem Sound.insertRow (h : Sound reacted s) (fresh : row.id ∉ s.ever) :
    Sound reacted (s.insertRow Reaction.id row) where
  keyed := h.keyed.insertRow fresh
  removers := h.removers
  looked other hother hreacted := (h.looked other hother hreacted).imp id fun _ =>
    List.cons_ne_nil _ _

theorem Start.table (start : Start s) : Table.Start Reaction.id Phase.intent s where
  idle request := by rw [start.phases]; rfl
  single := start.single
  ever := start.ever

theorem Start.sound (start : Start s) : Sound reacted s where
  keyed := start.table.keyed
  removers request hclear := by rw [start.phases] at hclear; cases hclear
  looked request hlook := absurd (start.phases request) hlook

theorem Finished.settled (finished : Finished s) : (s.view Reaction.id Phase.intent).Settled := by
  intro request
  obtain ⟨answer, hdone⟩ := finished request
  show (s.phase request).intent = _
  rw [hdone]
  rfl

/-! ## What a statement does -/

variable [DecidableEq ι]

theorem Sound.setPhase (h : Sound reacted s)
    (removes : phase.intent = .clearing → reacted request ≠ some true)
    (looks : phase ≠ .lookup → reacted request = some true → phase = .inserting ∨ s.ever ≠ []) :
    Sound reacted (s.setPhase request phase) where
  keyed := ⟨h.keyed.once, h.keyed.known⟩
  removers other := by
    by_cases hother : other = request
    · rw [hother]
      simpa [Table.setPhase] using removes
    · simpa [Table.setPhase, Function.update_of_ne hother] using h.removers other
  looked other := by
    by_cases hother : other = request
    · rw [hother]
      simpa [Table.setPhase] using looks
    · simpa [Table.setPhase, Function.update_of_ne hother] using h.looked other

/-- A request that has inserted or removed can turn to any phase of its own. -/
theorem Sound.turn {current : Phase} (h : Sound reacted s) (hphase : s.phase request = current)
    (started : current ≠ .lookup) (past : current ≠ .inserting)
    (removes : phase.intent = .clearing → current.intent = .clearing) :
    Sound reacted (s.setPhase request phase) := by
  rw [← hphase] at started past removes
  exact h.setPhase (fun hclear => h.removers request (removes hclear)) fun _ hreacted =>
    Or.inr ((h.looked request started hreacted).resolve_left past)

/-- A statement is a move of its request, and only who asked for it removes. -/
def Moves (reacted : ι → Reacted) (s t : State ι) : Prop :=
  Table.Moves Reaction.id Phase.intent (∃ request, reacted request ≠ some true) s t

theorem lookup_step {found : Option Reaction} (h : Sound reacted s)
    (hphase : s.phase request = .lookup) (finds : Finds s found) :
    Sound reacted (s.setPhase request (afterLookup (reacted request) found)) ∧
      Moves reacted s (s.setPhase request (afterLookup (reacted request) found)) := by
  have hidle : (s.phase request).intent = .idle := by rw [hphase]; rfl
  cases found with
  | some row =>
      have hsome : s.ever ≠ [] := List.ne_nil_of_mem (h.keyed.known row finds)
      rw [afterLookup]
      by_cases hkeep : reacted request = some true
      · rw [if_pos hkeep]
        exact ⟨h.setPhase (fun h => nomatch h) (fun _ _ => Or.inr hsome), .stay hidle⟩
      · rw [if_neg hkeep]
        exact ⟨h.setPhase (fun _ => hkeep) (fun _ _ => Or.inr hsome),
          .clear ⟨request, hkeep⟩ hidle rfl⟩
  | none =>
      rw [afterLookup]
      by_cases hgone : reacted request = some false
      · rw [if_pos hgone]
        refine ⟨h.setPhase (fun h => nomatch h) fun _ hkeep => ?_, .stay hidle⟩
        rw [hgone] at hkeep
        cases hkeep
      · rw [if_neg hgone]
        exact ⟨h.setPhase (fun h => nomatch h) (fun _ _ => Or.inl rfl), .stay hidle⟩

theorem insert_step (h : Sound reacted s) (hphase : s.phase request = .inserting)
    (fresh : row.id ∉ s.ever) :
    Sound reacted ((s.insertRow Reaction.id row).setPhase request (.inserted row.id)) ∧
      Moves reacted s ((s.insertRow Reaction.id row).setPhase request (.inserted row.id)) := by
  have hidle : (s.phase request).intent = .idle := by rw [hphase]; rfl
  exact ⟨(h.insertRow fresh).setPhase (fun h => nomatch h)
    (fun _ _ => Or.inr (List.cons_ne_nil _ _)), .insert hidle rfl⟩

theorem intent_afterListing (created : Option Reaction) (rows : List Reaction) :
    (afterListing created rows).intent = .collapsing (rows.tail.map Reaction.id) ∨
      rows.tail = [] ∧ (afterListing created rows).intent = .idle := by
  cases rows with
  | nil => exact Or.inr ⟨rfl, rfl⟩
  | cons kept extra =>
      rw [afterListing]
      split
      · next hextra => exact Or.inr ⟨hextra, rfl⟩
      · exact Or.inl rfl

theorem listing_step {created : Option Reaction} (h : Sound reacted s)
    (hphase : s.phase request = .checking created) :
    Sound reacted (s.setPhase request (afterListing created (listing s))) ∧
      Moves reacted s (s.setPhase request (afterListing created (listing s))) := by
  have hchecking : (s.phase request).intent = .checking := by rw [hphase]; rfl
  rcases intent_afterListing created (listing s) with hintent | ⟨htail, hintent⟩
  · refine ⟨h.turn hphase (fun h => nomatch h) (fun h => nomatch h) fun hclear => ?_,
      .list h.keyed hchecking hintent⟩
    rw [hintent] at hclear
    cases hclear
  · refine ⟨h.turn hphase (fun h => nomatch h) (fun h => nomatch h) fun hclear => ?_,
      .alone h.keyed hchecking htail hintent⟩
    rw [hintent] at hclear
    cases hclear

theorem intent_afterCollapse (created : Option Reaction) (kept : Reaction) :
    (afterCollapse created kept).intent = .idle := by
  rw [afterCollapse]
  split <;> rfl

theorem intent_afterReading (created survivor : Option Reaction) :
    (afterReading created survivor).intent = .idle := by
  cases survivor <;> rfl

/-- What is left of a request is a move of it, statement by statement. -/
theorem run_step (h : Sound reacted s) (step : run s request = some t) :
    Sound reacted t ∧ Moves reacted s t := by
  rw [run] at step
  split at step
  case h_1 hphase =>
    cases step
    have hclear : (s.phase request).intent = .clearing := by rw [hphase]; rfl
    exact ⟨h.turn hphase (fun h => nomatch h) (fun h => nomatch h) fun _ => rfl, .stay hclear⟩
  case h_2 hphase =>
    cases step
    have hclear : (s.phase request).intent = .clearing := by rw [hphase]; rfl
    exact ⟨h.turn hphase (fun h => nomatch h) (fun h => nomatch h) (fun h => nomatch h),
      .cleared ⟨request, h.removers request hclear⟩ hclear rfl⟩
  case h_3 id rest hphase =>
    cases step
    have hclear : (s.phase request).intent = .clearing := by rw [hphase]; rfl
    exact ⟨h.delete.turn hphase (fun h => nomatch h) (fun h => nomatch h) fun _ => rfl,
      .remove ⟨request, h.removers request hclear⟩ hclear rfl⟩
  case h_4 id hphase =>
    cases step
    have hchecking : (s.phase request).intent = .checking := by rw [hphase]; rfl
    exact ⟨h.turn hphase (fun h => nomatch h) (fun h => nomatch h) (fun h => nomatch h),
      .stay hchecking⟩
  case h_5 created hphase =>
    cases step
    exact listing_step h hphase
  case h_6 created kept hphase =>
    cases step
    have hsettled : (s.phase request).intent = .collapsing [] := by rw [hphase]; rfl
    have hafter := intent_afterCollapse created kept
    refine ⟨h.turn hphase (fun h => nomatch h) (fun h => nomatch h) ?_, .settle hsettled hafter⟩
    rw [hafter]
    exact fun h => nomatch h
  case h_7 created kept id rest hphase =>
    cases step
    have hcollapsing : (s.phase request).intent = .collapsing (id :: rest) := by rw [hphase]; rfl
    exact ⟨h.delete.turn hphase (fun h => nomatch h) (fun h => nomatch h) (fun h => nomatch h),
      .collapse hcollapsing rfl⟩
  case h_8 created kept hphase =>
    cases step
    have hidle : (s.phase request).intent = .idle := by rw [hphase]; rfl
    have hafter := intent_afterReading created (find s kept.id)
    refine ⟨h.turn hphase (fun h => nomatch h) (fun h => nomatch h) ?_,
      .stay (hidle.trans hafter.symm)⟩
    rw [hafter]
    exact fun h => nomatch h
  case h_9 => cases step

theorem step_sound (h : Sound reacted s) {event : Event ι} (step : Step reacted s event t) :
    Sound reacted t ∧ Moves reacted s t := by
  rw [Step] at step
  cases event with
  | lookup request found =>
      rw [next] at step
      split at step
      · next hlook =>
          cases step
          exact lookup_step h hlook.1 hlook.2
      · cases step
  | insert request row =>
      rw [next] at step
      split at step
      · next hinsert =>
          cases step
          exact insert_step h hinsert.1 hinsert.2
      · cases step
  | run request => exact run_step h step

/-! ## Whole runs -/

variable {events : List (Event ι)}

theorem run_guarded (run : Run (Step reacted) s events t) (start : Start s) :
    Sound reacted t ∧ (t.view Reaction.id Phase.intent).Guarded := by
  apply run.invariant (P := fun s => Sound reacted s ∧ (s.view Reaction.id Phase.intent).Guarded) _
    ⟨start.sound, start.table.guarded⟩
  intro s event t step h
  obtain ⟨hsound, hmoves⟩ := step_sound h.1 step
  exact ⟨hsound, hmoves.guarded h.2⟩

theorem run_grounded (run : Run (Step reacted) s events t) (start : Start s)
    (keep : ∀ request, reacted request = some true) :
    Sound reacted t ∧ (t.view Reaction.id Phase.intent).Grounded := by
  apply run.invariant (P := fun s => Sound reacted s ∧ (s.view Reaction.id Phase.intent).Grounded) _
    ⟨start.sound, start.table.grounded⟩
  intro s event t step h
  obtain ⟨hsound, hmoves⟩ := step_sound h.1 step
  refine ⟨hsound, hmoves.grounded ?_ h.2⟩
  intro hremoves
  obtain ⟨request, hrequest⟩ := hremoves
  exact hrequest (keep request)

/-- Whatever the requests ask for and however their statements interleave, one matching
row at most is left, and it is the lowest one where they all ask to keep it. -/
theorem collapses (start : Start s) (run : Run (Step reacted) s events t) (finished : Finished t) :
    t.rows.length ≤ 1 ∧ (Nonempty ι → (∀ request, reacted request = some true) →
      ∃ row, t.rows = [row] ∧ ∀ id ∈ t.ever, row.id ≤ id) := by
  obtain ⟨hsound, hguarded⟩ := run_guarded run start
  have hshort := hsound.keyed.short hguarded finished.settled
  refine ⟨hshort, fun hrequest keep => ?_⟩
  obtain ⟨request⟩ := hrequest
  obtain ⟨answer, hdone⟩ := finished request
  have hever := hsound.looked request (by rw [hdone]; exact fun h => nomatch h) (keep request)
  rw [hdone] at hever
  exact Table.lowest_of_short hshort (run_grounded run start keep).2
    (hever.resolve_left fun h => nomatch h)

end State

end Sinnlos.Cms.Reactions

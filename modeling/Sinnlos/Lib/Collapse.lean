import Mathlib.Data.List.Sort
import Mathlib.Data.Set.Insert
import Mathlib.Logic.Function.Basic
import Mathlib.Order.WellFounded

/-! # Many inserts, one row

Parties share rows that no constraint keeps unique. Each looks at the rows after its
own insert and deletes, one by one, all of them but the lowest; some delete whatever
they saw. Once nobody has anything left to do, there is one row at most, and where
nobody removes, it is the lowest there ever was.
-/

namespace Sinnlos.Collapse

/-- What a party still has to do to the rows. -/
inductive Intent
  | idle
  | checking
  | collapsing (rest : List Nat)
  | clearing
deriving DecidableEq

/-- The rows there are, the rows there ever were, and the parties. -/
structure Rows (ι : Type) where
  rows : Set Nat
  ever : Set Nat
  intent : ι → Intent

namespace Rows

variable {ι : Type}

def add (s : Rows ι) (id : Nat) : Rows ι :=
  { s with rows := insert id s.rows, ever := insert id s.ever }

def drop (s : Rows ι) (id : Nat) : Rows ι := { s with rows := s.rows \ {id} }

/-- The party will delete the row, or look at it. -/
def Pending (s : Rows ι) (party : ι) (id : Nat) : Prop :=
  s.intent party = .checking ∨ ∃ rest, s.intent party = .collapsing rest ∧ id ∈ rest

/-- The upper one of two rows is still to be deleted by somebody. -/
def Guarded (s : Rows ι) : Prop :=
  ∀ lower ∈ s.rows, ∀ id ∈ s.rows, lower < id → ∃ party, s.Pending party id

/-- A row that is gone, or about to go, had a lower one. -/
structure Grounded (s : Rows ι) : Prop where
  known : s.rows ⊆ s.ever
  gone : ∀ id ∈ s.ever, id ∉ s.rows → ∃ lower ∈ s.ever, lower < id
  going : ∀ party rest, s.intent party = .collapsing rest → ∀ id ∈ rest,
    ∃ lower ∈ s.ever, lower < id

/-- Nobody has anything left to delete. -/
def Settled (s : Rows ι) : Prop := ∀ party, s.intent party = .idle

variable {s : Rows ι} {party : ι} {intent : Intent} {id : Nat}

theorem not_pending (h : s.intent party = intent) (checking : intent ≠ .checking)
    (collapsing : ∀ rest, intent = .collapsing rest → rest = []) (id : Nat) :
    ¬ s.Pending party id := by
  intro hpending
  rcases hpending with hcheck | ⟨rest, hrest, hmem⟩
  · exact checking (h.symm.trans hcheck)
  · rw [collapsing rest (h.symm.trans hrest)] at hmem
    cases hmem

theorem Guarded.drop (h : s.Guarded) : (s.drop id).Guarded :=
  fun lower hlower other hother hlt => h lower hlower.1 other hother.1 hlt

theorem Grounded.add (h : s.Grounded) : (s.add id).Grounded where
  known := Set.insert_subset_insert h.known
  gone other hever hrows := by
    rcases hever with heq | hever
    · exact absurd (Or.inl heq) hrows
    · obtain ⟨lower, hlower, hlt⟩ := h.gone other hever fun hmem => hrows (Or.inr hmem)
      exact ⟨lower, Or.inr hlower, hlt⟩
  going party rest hrest other hother := by
    obtain ⟨lower, hlower, hlt⟩ := h.going party rest hrest other hother
    exact ⟨lower, Or.inr hlower, hlt⟩

theorem Grounded.drop {lower : Nat} (h : s.Grounded) (hlower : lower ∈ s.ever) (hlt : lower < id) :
    (s.drop id).Grounded where
  known := Set.sdiff_subset.trans h.known
  gone other hever hrows := by
    by_cases hother : other = id
    · exact ⟨lower, hlower, hother ▸ hlt⟩
    · exact h.gone other hever fun hmem => hrows ⟨hmem, hother⟩
  going := h.going

/-- Once all is done, there is one row at most. -/
theorem Guarded.subsingleton (h : s.Guarded) (settled : s.Settled) : s.rows.Subsingleton := by
  have hnone : ∀ lower ∈ s.rows, ∀ id ∈ s.rows, ¬ lower < id := by
    intro lower hlower id hid hlt
    obtain ⟨party, hpending⟩ := h lower hlower id hid hlt
    exact not_pending (settled party) (fun h => nomatch h) (fun _ h => nomatch h) id hpending
  intro a ha b hb
  have hab := hnone a ha b hb
  have hba := hnone b hb a ha
  omega

/-- The lowest row there ever was is still there. -/
theorem Grounded.lowest (h : s.Grounded) (some : s.ever.Nonempty) :
    ∃ id ∈ s.rows, ∀ other ∈ s.ever, id ≤ other := by
  obtain ⟨id, hid, hleast⟩ := WellFounded.has_min Nat.lt_wfRel.wf s.ever some
  refine ⟨id, ?_, fun other hother => Nat.le_of_not_lt (hleast other hother)⟩
  by_contra hgone
  obtain ⟨lower, hlower, hlt⟩ := h.gone id hid hgone
  exact hleast lower hlower hlt

/-! ## Moves -/

variable [DecidableEq ι]

def setIntent (s : Rows ι) (party : ι) (intent : Intent) : Rows ι :=
  { s with intent := Function.update s.intent party intent }

/-- The moves of the parties; the label says that rows are removed on purpose. -/
inductive Move : Rows ι → Bool → Rows ι → Prop
  | stay (s : Rows ι) : Move s false s
  | add {s : Rows ι} (party : ι) (id : Nat) (idle : s.intent party = .idle) :
      Move s false ((s.add id).setIntent party .checking)
  | check {s : Rows ι} (party : ι) (rest : List Nat) (checking : s.intent party = .checking)
      (extra : ∀ id, id ∈ rest ↔ id ∈ s.rows ∧ ∃ lower ∈ s.rows, lower < id) :
      Move s false (s.setIntent party (.collapsing rest))
  | alone {s : Rows ι} (party : ι) (checking : s.intent party = .checking)
      (single : ∀ id ∈ s.rows, ¬ ∃ lower ∈ s.rows, lower < id) :
      Move s false (s.setIntent party .idle)
  | collapse {s : Rows ι} (party : ι) (id : Nat) (rest : List Nat)
      (collapsing : s.intent party = .collapsing (id :: rest)) :
      Move s false ((s.drop id).setIntent party (.collapsing rest))
  | settle {s : Rows ι} (party : ι) (collapsing : s.intent party = .collapsing []) :
      Move s false (s.setIntent party .idle)
  | clear {s : Rows ι} (party : ι) (idle : s.intent party = .idle) :
      Move s true (s.setIntent party .clearing)
  | remove {s : Rows ι} (party : ι) (id : Nat) (clearing : s.intent party = .clearing) :
      Move s true (s.drop id)
  | cleared {s : Rows ι} (party : ι) (clearing : s.intent party = .clearing) :
      Move s true (s.setIntent party .idle)

variable {t : Rows ι}

theorem Pending.setIntent_of_ne {other : ι} (h : s.Pending other id) (hne : other ≠ party) :
    (s.setIntent party intent).Pending other id := by
  rw [Pending, setIntent]
  dsimp only
  rw [Function.update_of_ne hne]
  exact h

/-- A party that has nothing to delete can turn to anything. -/
theorem Guarded.setIntent (h : s.Guarded) (free : ∀ id, ¬ s.Pending party id) :
    (s.setIntent party intent).Guarded := by
  intro lower hlower id hid hlt
  obtain ⟨other, hpending⟩ := h lower hlower id hid hlt
  have hne : other ≠ party := fun heq => free id (heq ▸ hpending)
  exact ⟨other, hpending.setIntent_of_ne hne⟩

theorem Guarded.move {removal : Bool} (h : s.Guarded) (move : Move s removal t) : t.Guarded := by
  cases move with
  | stay => exact h
  | add party new idle =>
      exact fun _ _ _ _ _ => ⟨party, Or.inl (Function.update_self ..)⟩
  | check party rest checking extra =>
      intro lower hlower id hid hlt
      have hmem := (extra id).mpr ⟨hid, lower, hlower, hlt⟩
      exact ⟨party, Or.inr ⟨rest, Function.update_self .., hmem⟩⟩
  | alone party checking single =>
      exact fun lower hlower id hid hlt => absurd ⟨lower, hlower, hlt⟩ (single id hid)
  | collapse party dropped rest collapsing =>
      intro lower hlower id hid hlt
      obtain ⟨other, hpending⟩ := h lower hlower.1 id hid.1 hlt
      refine ⟨other, ?_⟩
      by_cases hother : other = party
      · rcases hpending with hcheck | ⟨all, hall, hmem⟩
        · rw [hother, collapsing] at hcheck
          cases hcheck
        · rw [hother, collapsing] at hall
          cases hall
          have hrest := (List.mem_cons.mp hmem).resolve_left hid.2
          exact Or.inr ⟨rest, hother ▸ Function.update_self .., hrest⟩
      · have hdropped : (s.drop dropped).Pending other id := hpending
        exact hdropped.setIntent_of_ne hother
  | settle party collapsing =>
      apply h.setIntent
      apply not_pending collapsing (fun h => nomatch h)
      intro rest heq
      cases heq
      rfl
  | clear party idle =>
      exact h.setIntent (not_pending idle (fun h => nomatch h) (fun _ h => nomatch h))
  | remove party id clearing => exact h.drop
  | cleared party clearing =>
      exact h.setIntent (not_pending clearing (fun h => nomatch h) (fun _ h => nomatch h))

theorem Grounded.setIntent (h : s.Grounded)
    (going : ∀ rest, intent = .collapsing rest → ∀ id ∈ rest, ∃ lower ∈ s.ever, lower < id) :
    (s.setIntent party intent).Grounded where
  known := h.known
  gone := h.gone
  going other rest hrest := by
    rw [Rows.setIntent] at hrest
    dsimp only at hrest
    by_cases hother : other = party
    · rw [hother, Function.update_self] at hrest
      exact going rest hrest
    · rw [Function.update_of_ne hother] at hrest
      exact h.going other rest hrest

/-- Where nobody removes, only what has a lower one goes. -/
theorem Grounded.move (h : s.Grounded) (move : Move s false t) : t.Grounded := by
  cases move with
  | stay => exact h
  | add party new idle => exact h.add.setIntent (fun _ h => nomatch h)
  | check party rest checking extra =>
      apply h.setIntent
      intro all heq id hid
      cases heq
      obtain ⟨-, lower, hlower, hlt⟩ := (extra id).mp hid
      exact ⟨lower, h.known hlower, hlt⟩
  | alone party checking single => exact h.setIntent (fun _ h => nomatch h)
  | collapse party id rest collapsing =>
      have hgoing := h.going party _ collapsing
      obtain ⟨lower, hlower, hlt⟩ := hgoing id List.mem_cons_self
      apply (h.drop hlower hlt).setIntent
      intro all heq other hother
      cases heq
      exact hgoing other (List.mem_cons_of_mem _ hother)
  | settle party collapsing => exact h.setIntent (fun _ h => nomatch h)

end Rows

/-! ## Rows as a list -/

theorem short_of_one_key {α : Type} (key : α → Nat) {rows : List α} (once : (rows.map key).Nodup)
    (one : ∀ a ∈ rows.map key, ∀ b ∈ rows.map key, a = b) : rows.length ≤ 1 := by
  cases rows with
  | nil => exact Nat.zero_le _
  | cons a rest =>
      cases rest with
      | nil => exact Nat.le_refl _
      | cons b rest =>
          have hsame := one (key a) (by simp) (key b) (by simp)
          simp [hsame] at once

theorem eq_singleton_of_short {α : Type} {rows : List α} {row : α} (short : rows.length ≤ 1)
    (h : row ∈ rows) : rows = [row] := by
  obtain ⟨only, rfl⟩ := List.length_eq_one_iff.mp
    (Nat.le_antisymm short (List.length_pos_of_mem h))
  rw [List.mem_singleton.mp h]

/-- In ascending order the first row is the lowest one, and the others have a lower
one. -/
theorem mem_tail_ascending {α : Type} (key : α → Nat) (rows : List α)
    (once : (rows.map key).Nodup) (id : Nat) :
    id ∈ ((rows.insertionSort fun a b => key a ≤ key b).tail.map key) ↔
      id ∈ rows.map key ∧ ∃ lower ∈ rows.map key, lower < id := by
  have hperm := List.perm_insertionSort (fun a b : α => key a ≤ key b) rows
  have hsorted : (rows.insertionSort fun a b => key a ≤ key b).Pairwise
      fun a b => key a ≤ key b := List.pairwise_insertionSort _ _
  rw [← (hperm.map key).nodup_iff] at once
  simp only [← (hperm.map key).mem_iff]
  cases hlist : rows.insertionSort fun a b => key a ≤ key b with
  | nil => simp
  | cons first rest =>
      rw [hlist] at hsorted once
      rw [List.map_cons, List.nodup_cons] at once
      have hfirst := (List.pairwise_cons.mp hsorted).1
      simp only [List.tail_cons, List.map_cons, List.mem_cons]
      constructor
      · intro hid
        obtain ⟨row, hrow, heq⟩ := List.mem_map.mp hid
        have hle := hfirst row hrow
        have hne : key first ≠ id := fun h => once.1 (h ▸ hid)
        exact ⟨Or.inr hid, key first, Or.inl rfl, by omega⟩
      · intro h
        obtain ⟨hid, lower, hlower, hlt⟩ := h
        rcases hid with heq | hid
        · rcases hlower with hlow | hlow
          · omega
          · obtain ⟨row, hrow, hkey⟩ := List.mem_map.mp hlow
            have hle := hfirst row hrow
            omega
        · exact hid

/-! ## Tables -/

/-- A table of rows, the ids that rows of it ever had, and where each party stands. -/
structure Table (ι ρ φ : Type) where
  rows : List ρ
  ever : List Nat
  phase : ι → φ

namespace Table

variable {ι ρ φ : Type} (key : ρ → Nat) (intent : φ → Intent)

def delete (s : Table ι ρ φ) (id : Nat) : Table ι ρ φ :=
  { s with rows := s.rows.filter (key · ≠ id) }

def insertRow (s : Table ι ρ φ) (row : ρ) : Table ι ρ φ :=
  { s with rows := s.rows ++ [row], ever := key row :: s.ever }

def setPhase [DecidableEq ι] (s : Table ι ρ φ) (party : ι) (phase : φ) : Table ι ρ φ :=
  { s with phase := Function.update s.phase party phase }

def view (s : Table ι ρ φ) : Rows ι where
  rows := { id | id ∈ s.rows.map key }
  ever := { id | id ∈ s.ever }
  intent party := intent (s.phase party)

/-- The keys are those of a primary key. -/
structure Keyed (s : Table ι ρ φ) : Prop where
  once : (s.rows.map key).Nodup
  known : ∀ row ∈ s.rows, key row ∈ s.ever

/-- Nobody has anything to delete, and there is one row at most. -/
structure Start (s : Table ι ρ φ) : Prop where
  idle : ∀ party, intent (s.phase party) = .idle
  single : s.rows.length ≤ 1
  ever : s.ever = s.rows.map key

variable {key intent} {s : Table ι ρ φ} {id : Nat} {row : ρ}

theorem view_delete : (s.delete key id).view key intent = (s.view key intent).drop id := by
  simp only [view, delete, Rows.drop, Rows.mk.injEq, and_true]
  ext other
  simp only [List.mem_map, List.mem_filter, decide_eq_true_eq, Set.mem_ofPred_eq, Set.mem_sdiff,
    Set.mem_singleton_iff]
  constructor
  · intro h
    obtain ⟨row, ⟨hrow, hne⟩, rfl⟩ := h
    exact ⟨⟨row, hrow, rfl⟩, hne⟩
  · intro h
    obtain ⟨⟨row, hrow, rfl⟩, hne⟩ := h
    exact ⟨row, ⟨hrow, hne⟩, rfl⟩

theorem view_insertRow :
    (s.insertRow key row).view key intent = (s.view key intent).add (key row) := by
  simp only [view, insertRow, Rows.add, Rows.mk.injEq, and_true]
  constructor
  · ext other
    simp [or_comm, eq_comm]
  · ext other
    simp

theorem Keyed.delete (h : s.Keyed key) : (s.delete key id).Keyed key where
  once := h.once.sublist ((List.filter_sublist).map _)
  known row hrow := h.known row (List.mem_filter.mp hrow).1

theorem Keyed.insertRow (h : s.Keyed key) (fresh : key row ∉ s.ever) :
    (s.insertRow key row).Keyed key where
  once := by
    rw [Table.insertRow, List.map_append, List.nodup_append]
    refine ⟨h.once, List.nodup_singleton _, ?_⟩
    intro a ha b hb heq
    obtain ⟨old, hold, rfl⟩ := List.mem_map.mp ha
    rw [List.map_singleton, List.mem_singleton] at hb
    exact fresh (hb ▸ heq ▸ h.known old hold)
  known old hold := by
    rcases List.mem_append.mp hold with hold | hnew
    · exact List.mem_cons_of_mem _ (h.known old hold)
    · exact List.mem_singleton.mp hnew ▸ List.mem_cons_self

theorem Start.keyed (start : s.Start key intent) : s.Keyed key where
  once := by
    have hsingle := start.single
    cases hrows : s.rows with
    | nil => exact List.nodup_nil
    | cons row rest =>
        rw [hrows, List.length_cons] at hsingle
        rw [List.eq_nil_of_length_eq_zero (by omega : rest.length = 0)]
        exact List.nodup_singleton _
  known row hrow := start.ever ▸ List.mem_map_of_mem hrow

theorem Start.guarded (start : s.Start key intent) : (s.view key intent).Guarded := by
  intro lower hlower id hid hlt
  have hsingle := start.single
  obtain ⟨a, ha, rfl⟩ := List.mem_map.mp hlower
  obtain ⟨b, hb, rfl⟩ := List.mem_map.mp hid
  obtain ⟨i, hi, rfl⟩ := List.mem_iff_getElem.mp ha
  obtain ⟨j, hj, rfl⟩ := List.mem_iff_getElem.mp hb
  have hsame : i = j := by omega
  subst hsame
  omega

theorem Start.grounded (start : s.Start key intent) : (s.view key intent).Grounded where
  known := by
    intro id hid
    rw [view, start.ever]
    exact hid
  gone id hever hrows := by
    rw [view, start.ever] at hever
    exact absurd hever hrows
  going party rest hrest := by
    rw [view] at hrest
    dsimp only at hrest
    rw [start.idle] at hrest
    cases hrest

theorem Keyed.short (h : s.Keyed key) (guarded : (s.view key intent).Guarded)
    (settled : (s.view key intent).Settled) : s.rows.length ≤ 1 :=
  short_of_one_key key h.once fun _ ha _ hb => guarded.subsingleton settled ha hb

/-- Where nobody removes, the one row left is the lowest there ever was. -/
theorem lowest_of_short (short : s.rows.length ≤ 1) (grounded : (s.view key intent).Grounded)
    (some : s.ever ≠ []) : ∃ row, s.rows = [row] ∧ ∀ id ∈ s.ever, key row ≤ id := by
  have hnonempty : (s.view key intent).ever.Nonempty := List.exists_mem_of_ne_nil _ some
  obtain ⟨id, hid, hleast⟩ := grounded.lowest hnonempty
  obtain ⟨row, hrow, rfl⟩ := List.mem_map.mp hid
  exact ⟨row, eq_singleton_of_short short hrow, hleast⟩

variable [DecidableEq ι] {party : ι} {phase : φ}

theorem view_setPhase : (s.setPhase party phase).view key intent =
    (s.view key intent).setIntent party (intent phase) := by
  simp only [view, setPhase, Rows.setIntent, Rows.mk.injEq, true_and]
  funext other
  by_cases hother : other = party
  · rw [hother, Function.update_self, Function.update_self]
  · rw [Function.update_of_ne hother, Function.update_of_ne hother]

/-- A turn that leaves the intent as it is cannot be seen. -/
theorem view_setPhase_same (h : intent (s.phase party) = intent phase) :
    (s.setPhase party phase).view key intent = s.view key intent := by
  rw [view_setPhase, Rows.setIntent]
  congr 1
  exact Function.update_eq_self_iff.mpr h.symm

variable (key intent)

/-- The table makes one move; `removes` holds where somebody removes on purpose. -/
def Moves (removes : Prop) (s t : Table ι ρ φ) : Prop :=
  ∃ removal, Rows.Move (s.view key intent) removal (t.view key intent) ∧
    (removal = true → removes)

variable {key intent} {removes : Prop} {rest : List Nat} {t : Table ι ρ φ}

theorem Moves.keep (move : Rows.Move (s.view key intent) false (t.view key intent)) :
    Moves key intent removes s t :=
  ⟨false, move, fun h => nomatch h⟩

theorem Moves.stay (same : intent (s.phase party) = intent phase) :
    Moves key intent removes s (s.setPhase party phase) := by
  apply Moves.keep
  rw [view_setPhase_same same]
  exact .stay _

theorem Moves.insert (idle : intent (s.phase party) = .idle) (checking : intent phase = .checking) :
    Moves key intent removes s ((s.insertRow key row).setPhase party phase) := by
  apply Moves.keep
  rw [view_setPhase, view_insertRow, checking]
  exact .add party (key row) idle

/-- After its listing a party deletes all the rows but the lowest. -/
theorem Moves.list (keyed : s.Keyed key) (checking : intent (s.phase party) = .checking)
    (collapsing : intent phase =
      .collapsing ((s.rows.insertionSort fun a b => key a ≤ key b).tail.map key)) :
    Moves key intent removes s (s.setPhase party phase) := by
  apply Moves.keep
  rw [view_setPhase, collapsing]
  exact .check party _ checking (mem_tail_ascending key s.rows keyed.once)

/-- A listing of one row leaves nothing to do. -/
theorem Moves.alone (keyed : s.Keyed key) (checking : intent (s.phase party) = .checking)
    (single : (s.rows.insertionSort fun a b => key a ≤ key b).tail = [])
    (idle : intent phase = .idle) : Moves key intent removes s (s.setPhase party phase) := by
  apply Moves.keep
  rw [view_setPhase, idle]
  apply Rows.Move.alone party checking
  intro id hid hlower
  have hmem := (mem_tail_ascending key s.rows keyed.once id).mpr ⟨hid, hlower⟩
  rw [single] at hmem
  cases hmem

theorem Moves.collapse (collapsing : intent (s.phase party) = .collapsing (id :: rest))
    (next : intent phase = .collapsing rest) :
    Moves key intent removes s ((s.delete key id).setPhase party phase) := by
  apply Moves.keep
  rw [view_setPhase, view_delete, next]
  exact .collapse party id rest collapsing

theorem Moves.settle (collapsing : intent (s.phase party) = .collapsing [])
    (idle : intent phase = .idle) : Moves key intent removes s (s.setPhase party phase) := by
  apply Moves.keep
  rw [view_setPhase, idle]
  exact .settle party collapsing

theorem Moves.clear (asked : removes) (idle : intent (s.phase party) = .idle)
    (clearing : intent phase = .clearing) :
    Moves key intent removes s (s.setPhase party phase) := by
  refine ⟨true, ?_, fun _ => asked⟩
  rw [view_setPhase, clearing]
  exact .clear party idle

theorem Moves.remove (asked : removes) (clearing : intent (s.phase party) = .clearing)
    (next : intent phase = .clearing) :
    Moves key intent removes s ((s.delete key id).setPhase party phase) := by
  refine ⟨true, ?_, fun _ => asked⟩
  have same : intent ((s.delete key id).phase party) = intent phase := clearing.trans next.symm
  rw [view_setPhase_same same, view_delete]
  exact .remove party id clearing

theorem Moves.cleared (asked : removes) (clearing : intent (s.phase party) = .clearing)
    (idle : intent phase = .idle) : Moves key intent removes s (s.setPhase party phase) := by
  refine ⟨true, ?_, fun _ => asked⟩
  rw [view_setPhase, idle]
  exact .cleared party clearing

theorem Moves.guarded (moves : Moves key intent removes s t) (h : (s.view key intent).Guarded) :
    (t.view key intent).Guarded := by
  obtain ⟨removal, move, -⟩ := moves
  exact h.move move

theorem Moves.grounded (moves : Moves key intent removes s t) (nobody : ¬ removes)
    (h : (s.view key intent).Grounded) : (t.view key intent).Grounded := by
  obtain ⟨removal, move, asked⟩ := moves
  cases removal with
  | false => exact h.move move
  | true => exact absurd (asked rfl) nobody

end Table

end Sinnlos.Collapse

import Mathlib.Data.List.Basic
import Sinnlos.Lib.Keyset
import Sinnlos.Lib.Runs

/-! # Turns round a table

A table read in the order of its keys, from behind a cursor and from the start
after the end. A turn either serves everything that is ready, or it stops early,
at least `quota` rows on, with the cursor on the last row it read. Then a row that
stays ready is served after as many turns as it takes to go round once.
-/

namespace Sinnlos.RoundRobin

open Keyset Runs

variable {α ι : Type} {key : α → Nat} {rows : List α} {quota cursor cursor' : Nat}

/-- The rows up to a key. -/
def upTo (key : α → Nat) (rows : List α) (cursor : Nat) : List α :=
  rows.filter fun row => key row ≤ cursor

/-- The whole table as it is read from behind a cursor. -/
def ring (key : α → Nat) (rows : List α) (cursor : Nat) : List α :=
  behind key rows cursor ++ upTo key rows cursor

/-! ## The ring -/

theorem upTo_append_behind (sorted : rows.Pairwise fun a b => key a < key b) (cursor : Nat) :
    upTo key rows cursor ++ behind key rows cursor = rows := by
  induction rows with
  | nil => rfl
  | cons row rows ih =>
      obtain ⟨hrow, hrest⟩ := List.pairwise_cons.mp sorted
      unfold upTo behind at ih ⊢
      by_cases h : key row ≤ cursor
      · have hnot : ¬ cursor < key row := by omega
        simp [h, hnot, ih hrest]
      · have hlt : cursor < key row := by omega
        have hnone : rows.filter (fun row => decide (key row ≤ cursor)) = [] := by
          rw [List.filter_eq_nil_iff]
          intro other hother
          have hother := hrow other hother
          simp only [decide_eq_true_eq]
          omega
        have hall := ih hrest
        rw [hnone, List.nil_append] at hall
        simp [h, hlt, hnone, hall]

theorem length_ring (sorted : rows.Pairwise fun a b => key a < key b) (cursor : Nat) :
    (ring key rows cursor).length = rows.length := by
  have hlength := congrArg List.length (upTo_append_behind sorted cursor)
  rw [List.length_append] at hlength
  rw [ring, List.length_append]
  omega

variable {a : α}

theorem mem_ring : a ∈ ring key rows cursor ↔ a ∈ rows := by
  unfold ring behind upTo
  simp only [List.mem_append, List.mem_filter, decide_eq_true_eq]
  constructor
  · exact fun h => h.elim And.left And.left
  · intro h
    by_cases hle : key a ≤ cursor
    · exact Or.inr ⟨h, hle⟩
    · exact Or.inl ⟨h, by omega⟩

variable {front back : List α} {last : α}

/-- Behind one of its rows a table starts with the rows after it. -/
theorem ring_at (sorted : rows.Pairwise fun a b => key a < key b)
    (h : rows = front ++ last :: back) : ring key rows (key last) = back ++ (front ++ [last]) := by
  subst h
  rw [List.pairwise_append, List.pairwise_cons] at sorted
  obtain ⟨_, ⟨hback, _⟩, hfront⟩ := sorted
  have hfrontLt (row : α) (h : row ∈ front) : key row < key last :=
    hfront row h last List.mem_cons_self
  have hbehind : behind key (front ++ last :: back) (key last) = back := by
    unfold behind
    rw [List.filter_append, List.filter_cons_of_neg (by simp), List.filter_eq_nil_iff.mpr,
      List.filter_eq_self.mpr, List.nil_append]
    · intro row hrow
      simpa using hback row hrow
    · intro row hrow
      have hlt := hfrontLt row hrow
      simp only [decide_eq_true_eq]
      omega
  have hupTo : upTo key (front ++ last :: back) (key last) = front ++ [last] := by
    unfold upTo
    rw [List.filter_append, List.filter_cons_of_pos (by simp), List.filter_eq_self.mpr,
      List.filter_eq_nil_iff.mpr]
    · intro row hrow
      have hlt := hback row hrow
      simp only [decide_eq_true_eq]
      omega
    · intro row hrow
      have hlt := hfrontLt row hrow
      simp only [decide_eq_true_eq]
      omega
  rw [ring, hbehind, hupTo]

/-- Behind the row where a turn stops come the rows it left, then those it read. -/
theorem ring_next (sorted : rows.Pairwise fun a b => key a < key b)
    (h : ring key rows cursor = front ++ last :: back) :
    ring key rows (key last) = back ++ (front ++ [last]) := by
  have hrows := upTo_append_behind sorted cursor
  unfold ring at h
  rcases List.append_eq_append_iff.mp h with ⟨rest, hfront, hupTo⟩ | ⟨rest, hbehind, hcons⟩
  · -- the turn went over the end of the table
    rw [hupTo, List.append_assoc, List.cons_append] at hrows
    rw [ring_at sorted hrows.symm, hfront]
    simp
  · cases rest with
    | nil =>
        rw [List.append_nil] at hbehind
        rw [List.nil_append] at hcons
        rw [← hcons, List.cons_append, ← List.nil_append (last :: _)] at hrows
        rw [ring_at sorted hrows.symm, hbehind]
        simp
    | cons first rest =>
        obtain ⟨rfl, rfl⟩ := List.cons.inj hcons
        rw [hbehind, ← List.append_assoc] at hrows
        rw [ring_at sorted hrows.symm]
        simp

/-! ## Turns -/

/-- What one turn from `cursor` to `cursor'` serves. -/
def Turn (key : α → Nat) (rows : List α) (quota : Nat) (ready served : α → Prop)
    (cursor cursor' : Nat) : Prop :=
  (∀ a ∈ rows, ready a → served a) ∨
    ∃ front last back, ring key rows cursor = front ++ last :: back ∧ quota ≤ front.length + 1 ∧
      cursor' = key last ∧ ∀ a ∈ front ++ [last], ready a → served a

/-- A row comes within `n` rows behind the cursor. -/
def Within (key : α → Nat) (rows : List α) (a : α) (n cursor : Nat) : Prop :=
  ∃ front back, ring key rows cursor = front ++ a :: back ∧ front.length < n

theorem within_length (sorted : rows.Pairwise fun a b => key a < key b) (h : a ∈ rows)
    (cursor : Nat) : Within key rows a rows.length cursor := by
  obtain ⟨front, back, hring⟩ := List.append_of_mem (mem_ring.mpr h : a ∈ ring key rows cursor)
  refine ⟨front, back, hring, ?_⟩
  have hlength := length_ring sorted cursor
  rw [hring, List.length_append, List.length_cons] at hlength
  omega

/-- A turn that does not serve a ready row comes `quota` rows closer to it. -/
theorem Turn.closer (sorted : rows.Pairwise fun a b => key a < key b) {ready served : α → Prop}
    {n : Nat} (turn : Turn key rows quota ready served cursor cursor') (mem : a ∈ rows)
    (isReady : ready a) (missed : ¬ served a) (h : Within key rows a n cursor) :
    quota ≤ n ∧ Within key rows a (n - quota) cursor' := by
  rcases turn with hall | ⟨front, last, back, hring, hquota, hcursor, hserved⟩
  · exact absurd (hall a mem isReady) missed
  · obtain ⟨before, after, hsplit, hlt⟩ := h
    have hnot : a ∉ front ++ [last] := fun hin => missed (hserved a hin isReady)
    have heq : (front ++ [last]) ++ back = before ++ a :: after := by
      rw [← hsplit, hring]
      simp
    -- what the turn read ends before the row
    obtain ⟨middle, hbefore, hback⟩ : ∃ middle, before = (front ++ [last]) ++ middle ∧
        back = middle ++ a :: after := by
      rcases List.append_eq_append_iff.mp heq with ⟨middle, hbefore, hback⟩ | ⟨middle, hread, hcons⟩
      · exact ⟨middle, hbefore, hback⟩
      · cases middle with
        | nil => exact ⟨[], by simpa using hread.symm, by simpa using hcons.symm⟩
        | cons first middle =>
            obtain ⟨hfirst, -⟩ := List.cons.inj hcons
            exact absurd (by rw [hread, hfirst]; simp) hnot
    have hlength := congrArg List.length hbefore
    simp only [List.length_append, List.length_cons, List.length_nil] at hlength
    refine ⟨by omega, middle, after ++ (front ++ [last]), ?_, by omega⟩
    rw [hcursor, ring_next sorted hring, hback]
    simp

variable {ready served : ι → α → Prop}

/-- A row that is ready in every turn is served after one round. -/
theorem served_of_round (sorted : rows.Pairwise fun a b => key a < key b) {turns : List ι}
    (run : Run (fun cursor turn cursor' =>
      Turn key rows quota (ready turn) (served turn) cursor cursor') cursor turns cursor')
    (mem : a ∈ rows) (isReady : ∀ turn ∈ turns, ready turn a)
    (round : rows.length ≤ quota * turns.length) : ∃ turn ∈ turns, served turn a := by
  by_contra hmissed
  have hclose : ∀ n, Within key rows a n cursor → quota * turns.length < n := by
    clear round
    induction run with
    | refl cursor =>
        intro n h
        obtain ⟨front, back, -, hlt⟩ := h
        rw [List.length_nil, Nat.mul_zero]
        omega
    | @cons cursor next last turn turns hturn _ ih =>
        intro n h
        have hfirst : ¬ served turn a := fun hs => hmissed ⟨turn, List.mem_cons_self, hs⟩
        obtain ⟨hle, hnext⟩ :=
          hturn.closer sorted mem (isReady turn List.mem_cons_self) hfirst h
        have hrest := ih (fun t ht => isReady t (List.mem_cons_of_mem turn ht))
          (fun hs => hmissed (hs.imp fun t ht => ⟨List.mem_cons_of_mem turn ht.1, ht.2⟩)) _ hnext
        rw [List.length_cons, Nat.mul_succ]
        omega
  have hlt := hclose rows.length (within_length sorted mem cursor)
  omega

end Sinnlos.RoundRobin

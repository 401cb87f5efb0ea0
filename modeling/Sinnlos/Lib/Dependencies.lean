import Mathlib.Data.Fintype.Card
import Mathlib.Data.List.Basic
import Mathlib.Data.Set.Finite.List
import Mathlib.Logic.Relation
import Mathlib.Order.WellFounded

/-! # What has to come first

Elements that need others, in a list in which everything comes after what it needs.
An element can stand in such a list unless it leads to a cycle, and of a finite
number of elements that cannot be placed each leads to one.
-/

namespace Sinnlos.Dependencies

open Relation

variable {ι : Type} (needs : ι → ι → Prop)

/-- A list in which what an element needs stands before it. -/
def InOrder (list : List ι) : Prop :=
  ∀ sooner x later, list = sooner ++ x :: later → ∀ y, needs x y → y ∈ sooner

/-- An element that needs, over any number of steps, one that needs itself. -/
def LeadsToCycle (x : ι) : Prop := ∃ y, ReflTransGen needs x y ∧ TransGen needs y y

variable {needs} {list nodes rest : List ι} {x y : ι}

theorem LeadsToCycle.exists_needs (h : LeadsToCycle needs x) : ∃ y, needs x y := by
  obtain ⟨y, hreach, hcycle⟩ := h
  obtain ⟨z, hstep, -⟩ := TransGen.head'_iff.mp (TransGen.trans_right hreach hcycle)
  exact ⟨z, hstep⟩

theorem inOrder_nil : InOrder needs [] := by
  intro sooner x later h
  simp at h

theorem InOrder.concat (h : InOrder needs list) (hx : ∀ y, needs x y → y ∈ list) :
    InOrder needs (list ++ [x]) := by
  intro sooner z later heq y hneeds
  rcases List.eq_nil_or_concat later with hnil | hsome
  · rw [hnil] at heq
    have hsplit := List.append_inj' heq rfl
    rw [← hsplit.1]
    have hsame : x = z := by simpa using hsplit.2
    exact hx y (hsame ▸ hneeds)
  · obtain ⟨later', last, hlast⟩ := hsome
    rw [hlast, List.concat_eq_append, ← List.cons_append, ← List.append_assoc] at heq
    have hsplit := List.append_inj' heq rfl
    exact h sooner z later' hsplit.1 y hneeds

section

variable [DecidableEq ι]

theorem InOrder.idxOf_lt (h : InOrder needs list) (hx : x ∈ list) (hneeds : needs x y) :
    y ∈ list ∧ list.idxOf y < list.idxOf x := by
  obtain ⟨sooner, later, heq, hnew⟩ := List.eq_append_cons_of_mem hx
  have hy := h sooner x later heq y hneeds
  rw [heq]
  refine ⟨List.mem_append_left _ hy, ?_⟩
  rw [List.idxOf_append_of_mem hy, List.idxOf_append_of_notMem hnew, List.idxOf_cons_self]
  have hlt := List.idxOf_lt_length_of_mem hy
  omega

theorem InOrder.idxOf_lt_of_transGen (h : InOrder needs list) (hx : x ∈ list)
    (hneeds : TransGen needs x y) : y ∈ list ∧ list.idxOf y < list.idxOf x := by
  induction hneeds with
  | single hstep => exact h.idxOf_lt hx hstep
  | tail _ hstep ih =>
      have hnext := h.idxOf_lt ih.1 hstep
      exact ⟨hnext.1, by omega⟩

/-- What stands in the list leads to no cycle. -/
theorem InOrder.not_leadsToCycle (h : InOrder needs list) (hx : x ∈ list) :
    ¬ LeadsToCycle needs x := by
  intro hleads
  obtain ⟨y, hreach, hcycle⟩ := hleads
  have hy : y ∈ list := by
    rcases reflTransGen_iff_eq_or_transGen.mp hreach with heq | htrans
    · exact heq ▸ hx
    · exact (h.idxOf_lt_of_transGen hx htrans).1
  have hlt := (h.idxOf_lt_of_transGen hy hcycle).2
  omega

end

/-- A finite number of nodes have no endless way without a cycle. -/
theorem wellFounded_of_acyclic {step : ι → ι → Prop} (h : ∀ x, ¬ TransGen step x x) :
    WellFounded (fun x y : {x // x ∈ nodes} => TransGen step x y) := by
  have hfinite : Finite {x // x ∈ nodes} := (List.finite_toSet nodes).to_subtype
  have htrans : IsTrans {x // x ∈ nodes} fun x y => TransGen step x y :=
    ⟨fun _ _ _ hxy hyz => TransGen.trans hxy hyz⟩
  have hirrefl : Std.Irrefl fun x y : {x // x ∈ nodes} => TransGen step x y :=
    ⟨fun x hx => h x hx⟩
  exact Finite.wellFounded_of_trans_of_irrefl _

/-- Each of some elements leads to a cycle if each needs another of them. -/
theorem leadsToCycle_of_stuck (stuck : ∀ x ∈ rest, ∃ y ∈ rest, needs x y) (hx : x ∈ rest) :
    LeadsToCycle needs x := by
  by_contra hnot
  -- the steps backwards among what the element reaches
  have hacyclic (y : ι) : ¬ TransGen (fun b a => needs a b ∧ ReflTransGen needs x a) y y := by
    intro hcycle
    have hback : TransGen needs y y :=
      transGen_swap.mp (TransGen.mono (fun b a hab => hab.1) y y hcycle)
    obtain ⟨b, -, hstep⟩ := TransGen.tail'_iff.mp hcycle
    exact hnot ⟨y, hstep.2, hback⟩
  have hwell : WellFounded fun a b : {a // a ∈ rest} =>
      TransGen (fun b a => needs a b ∧ ReflTransGen needs x a) a b :=
    wellFounded_of_acyclic hacyclic
  obtain ⟨last, hreach, hlast⟩ :=
    hwell.has_min {a | ReflTransGen needs x a} ⟨⟨x, hx⟩, ReflTransGen.refl⟩
  obtain ⟨y, hy, hneeds⟩ := stuck last last.2
  have hnext : ReflTransGen needs x y := ReflTransGen.tail hreach hneeds
  exact hlast ⟨y, hy⟩ hnext (TransGen.single ⟨hneeds, hreach⟩)

end Sinnlos.Dependencies

import Mathlib.Data.List.Nodup
import Mathlib.Data.List.Perm.Subperm
import Mathlib.Logic.Relation

/-! # Walks on a finite graph

A search with a stack and a set of seen nodes, and what it finds: exactly what
can be reached. Cycles of a list of edges, and why a graph stays acyclic as long
as no new edge lies on a cycle.
-/

namespace Sinnlos.Walk

universe u
variable {α : Type u}

open Relation

/-! ## The search -/

/-- The nodes seen so far, and those whose successors are still to be seen. -/
structure Frontier (α : Type u) where
  seen : List α
  stack : List α

section Search
variable [DecidableEq α]

def see (w : Frontier α) (node : α) : Frontier α :=
  if node ∈ w.seen then w else ⟨w.seen ++ [node], node :: w.stack⟩

/-- Whether the goal is found; a round takes one node off the stack. -/
def finds (next : α → List α) (goal : α) : Nat → Frontier α → Bool
  | 0, _ => false
  | _ + 1, ⟨_, []⟩ => false
  | fuel + 1, ⟨seen, node :: stack⟩ =>
      if node = goal then true else finds next goal fuel ((next node).foldl see ⟨seen, stack⟩)

/-- What seeing some nodes does to the frontier. -/
structure Seen (w : Frontier α) (nodes : List α) (w' : Frontier α) : Prop where
  kept : ∀ n ∈ w.seen, n ∈ w'.seen
  added : ∀ n ∈ nodes, n ∈ w'.seen
  only : ∀ n ∈ w'.seen, n ∈ w.seen ∨ n ∈ nodes
  stacked : ∀ n ∈ w'.seen, n ∉ w'.stack → n ∈ w.seen ∧ n ∉ w.stack
  pushed : ∀ n ∈ w'.stack, n ∈ w.stack ∨ n ∈ w'.seen
  nodup : w.seen.Nodup → w'.seen.Nodup
  size : w'.seen.length + w.stack.length = w.seen.length + w'.stack.length

theorem seen_foldl (nodes : List α) : ∀ w : Frontier α, Seen w nodes (nodes.foldl see w) := by
  induction nodes with
  | nil => exact fun w => ⟨fun _ h => h, nofun, fun _ h => .inl h, fun _ h h' => ⟨h, h'⟩,
      fun _ h => .inl h, id, rfl⟩
  | cons node nodes ih =>
      intro w
      have hrest := ih (see w node)
      rw [List.foldl_cons]
      unfold see at hrest ⊢
      split at hrest
      · rename_i hin
        rw [if_pos hin]
        refine ⟨hrest.kept, ?_, ?_, hrest.stacked, hrest.pushed, hrest.nodup, hrest.size⟩
        · intro n hn
          rcases List.mem_cons.mp hn with rfl | hn
          · exact hrest.kept n hin
          · exact hrest.added n hn
        · intro n hn
          rcases hrest.only n hn with hn | hn
          · exact .inl hn
          · exact .inr (List.mem_cons_of_mem _ hn)
      · rename_i hout
        rw [if_neg hout]
        have hsize := hrest.size
        rw [List.length_append, List.length_singleton, List.length_cons] at hsize
        refine ⟨?_, ?_, ?_, ?_, ?_, ?_, by omega⟩
        · exact fun n hn => hrest.kept n (List.mem_append_left _ hn)
        · intro n hn
          rcases List.mem_cons.mp hn with rfl | hn
          · exact hrest.kept n (List.mem_append_right _ List.mem_cons_self)
          · exact hrest.added n hn
        · intro n hn
          rcases hrest.only n hn with hn | hn
          · rcases List.mem_append.mp hn with hn | hn
            · exact .inl hn
            · exact .inr (List.mem_singleton.mp hn ▸ List.mem_cons_self)
          · exact .inr (List.mem_cons_of_mem _ hn)
        · intro n hn hoff
          obtain ⟨hseen, hstack⟩ := hrest.stacked n hn hoff
          rw [List.mem_cons, not_or] at hstack
          rcases List.mem_append.mp hseen with hseen | hseen
          · exact ⟨hseen, hstack.2⟩
          · exact absurd (List.mem_singleton.mp hseen) hstack.1
        · intro n hn
          rcases hrest.pushed n hn with hold | hnew
          · rcases List.mem_cons.mp hold with rfl | hold
            · exact .inr (hrest.kept n (List.mem_append_right _ List.mem_cons_self))
            · exact .inl hold
          · exact .inr hnew
        · intro hnodup
          apply hrest.nodup
          apply List.Nodup.append hnodup (List.nodup_singleton node)
          intro n hn hnode
          exact hout (List.mem_singleton.mp hnode ▸ hn)

/-- The search so far: everything seen can be reached, and what is off the stack
is not the goal and has all its successors seen. -/
structure Searching (next : α → List α) (start goal : α) (nodes : List α) (w : Frontier α) :
    Prop where
  began : start ∈ w.seen
  reached : ∀ n ∈ w.seen, ReflTransGen (fun a b => b ∈ next a) start n
  within : ∀ n ∈ w.seen, n ∈ start :: nodes
  stacked : ∀ n ∈ w.stack, n ∈ w.seen
  done : ∀ n ∈ w.seen, n ∉ w.stack → n ≠ goal ∧ ∀ m ∈ next n, m ∈ w.seen
  nodup : w.seen.Nodup

variable {next : α → List α} {start goal : α} {nodes : List α}

theorem Searching.pop (closed : ∀ a, ∀ b ∈ next a, b ∈ nodes) {seen stack : List α} {node : α}
    (h : Searching next start goal nodes ⟨seen, node :: stack⟩) (ne : node ≠ goal) :
    Searching next start goal nodes ((next node).foldl see ⟨seen, stack⟩) := by
  have hseen := seen_foldl (next node) ⟨seen, stack⟩
  have hnode : node ∈ seen := h.stacked node List.mem_cons_self
  refine ⟨hseen.kept _ h.began, ?_, ?_, ?_, ?_, hseen.nodup h.nodup⟩
  · intro n hn
    rcases hseen.only n hn with hn | hn
    · exact h.reached n hn
    · exact (h.reached node hnode).tail hn
  · intro n hn
    rcases hseen.only n hn with hn | hn
    · exact h.within n hn
    · exact List.mem_cons_of_mem _ (closed node n hn)
  · intro n hn
    rcases hseen.pushed n hn with hold | hnew
    · exact hseen.kept n (h.stacked n (List.mem_cons_of_mem _ hold))
    · exact hnew
  · intro n hn hoff
    obtain ⟨hold, hstack⟩ := hseen.stacked n hn hoff
    by_cases heq : n = node
    · subst heq
      exact ⟨ne, hseen.added⟩
    · have hdone := h.done n hold (by simpa [heq] using hstack)
      exact ⟨hdone.1, fun m hm => hseen.kept m (hdone.2 m hm)⟩

/-- Every node seen but the start is one of the nodes, so the search has fuel
until its stack is empty. -/
theorem Searching.finds_iff (closed : ∀ a, ∀ b ∈ next a, b ∈ nodes) (fuel : Nat) :
    ∀ w : Frontier α, Searching next start goal nodes w →
      nodes.length + 1 + w.stack.length ≤ w.seen.length + fuel →
      (finds next goal fuel w = true ↔ ReflTransGen (fun a b => b ∈ next a) start goal) := by
  have hbound : ∀ w : Frontier α, Searching next start goal nodes w →
      w.seen.length ≤ nodes.length + 1 := by
    intro w hw
    have hle := (List.subperm_of_subset hw.nodup hw.within).length_le
    rwa [List.length_cons] at hle
  have hempty : ∀ seen : List α, Searching next start goal nodes ⟨seen, []⟩ →
      ¬ ReflTransGen (fun a b => b ∈ next a) start goal := by
    intro seen h hreach
    have hall : ∀ n, ReflTransGen (fun a b => b ∈ next a) start n → n ∈ seen := by
      intro n hn
      induction hn with
      | refl => exact h.began
      | tail _ hstep ih => exact (h.done _ ih (by simp)).2 _ hstep
    exact (h.done goal (hall goal hreach) (by simp)).1 rfl
  induction fuel with
  | zero =>
      rintro ⟨seen, stack⟩ h hfuel
      have hle := hbound _ h
      cases stack with
      | nil =>
          have hnot := hempty seen h
          simp [finds, hnot]
      | cons node stack =>
          dsimp only at hle hfuel
          rw [List.length_cons] at hfuel
          omega
  | succ fuel ih =>
      rintro ⟨seen, stack⟩ h hfuel
      cases stack with
      | nil =>
          have hnot := hempty seen h
          simp [finds, hnot]
      | cons node stack =>
          unfold finds
          split
          · rename_i heq
            subst heq
            have hreach := h.reached node (h.stacked node List.mem_cons_self)
            exact ⟨fun _ => hreach, fun _ => rfl⟩
          · rename_i hne
            have hsize := (seen_foldl (next node) ⟨seen, stack⟩).size
            apply ih _ (h.pop closed hne)
            rw [List.length_cons] at hfuel
            dsimp only at hsize hfuel
            omega

/-- The search from one node finds exactly what can be reached from it. -/
theorem finds_iff (closed : ∀ a, ∀ b ∈ next a, b ∈ nodes) (start goal : α) :
    finds next goal (nodes.length + 1) ⟨[start], [start]⟩ = true ↔
      ReflTransGen (fun a b => b ∈ next a) start goal := by
  apply Searching.finds_iff closed (nodes.length + 1)
  · refine ⟨List.mem_cons_self, ?_, ?_, fun _ h => h, ?_, List.nodup_singleton start⟩
    · intro n hn
      rw [List.mem_singleton.mp hn]
    · intro n hn
      rw [List.mem_singleton.mp hn]
      exact List.mem_cons_self
    · exact fun n hn hoff => absurd hn hoff
  · simp only [List.length_singleton]
    omega

end Search

/-! ## Cycles -/

/-- The edges of a list. -/
def Edge (edges : List (α × α)) (a b : α) : Prop := (a, b) ∈ edges

/-- An edge whose start can be reached from its end. -/
def OnCycle (edges : List (α × α)) (e : α × α) : Prop :=
  e ∈ edges ∧ ReflTransGen (Edge edges) e.2 e.1

def Acyclic (edges : List (α × α)) : Prop := ∀ a, ¬ TransGen (Edge edges) a a

/-- The edges of a walk that leads back are on cycles. -/
theorem transGen_of_back {R S : α → α → Prop}
    (h : ∀ a b, R a b → ReflTransGen R b a → S a b) {a b : α} (walk : TransGen R a b)
    (back : ReflTransGen R b a) : TransGen S a b := by
  induction walk using TransGen.head_induction_on with
  | single hstep => exact .single (h _ _ hstep back)
  | head hstep hrest ih =>
      have hfirst := h _ _ hstep (hrest.to_reflTransGen.trans back)
      exact TransGen.head hfirst (ih (back.tail hstep))

/-- A graph whose cycles use old edges only is acyclic where the old one was. -/
theorem acyclic_of_old {before after : List (α × α)} (acyclic : Acyclic before)
    (old : ∀ e, OnCycle after e → e ∈ before) : Acyclic after := by
  intro a hcycle
  apply acyclic a
  apply transGen_of_back (R := Edge after) _ hcycle .refl
  exact fun b c hedge hback => old (b, c) ⟨hedge, hback⟩

end Sinnlos.Walk

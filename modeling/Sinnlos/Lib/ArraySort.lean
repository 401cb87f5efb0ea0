import Mathlib.Data.List.Sort

/-! # Sorting by a comparator

A sort is given a comparator that answers a number, or none where it is not a
number. Whatever the comparator answers, sorting permutes the elements and looks
at them through the comparator only; where its answers are those of an order, no
element stands before a smaller one.
-/

namespace Sinnlos

variable {α β : Type}

/-- The comparator does not put `a` behind `b`. -/
def NotAfter (cmp : α → α → Option Int) (a b : α) : Prop := ∃ n, cmp a b = some n ∧ n ≤ 0

/-- On these elements the comparator answers the numbers of one order. -/
structure Consistent (cmp : α → α → Option Int) (items : List α) : Prop where
  opposite : ∀ a ∈ items, ∀ b ∈ items, ∃ m n,
    cmp a b = some m ∧ cmp b a = some n ∧ n.sign = -m.sign
  trans : ∀ a ∈ items, ∀ b ∈ items, ∀ c ∈ items,
    NotAfter cmp a b → NotAfter cmp b c → NotAfter cmp a c

/-- A sort by comparators of elements of any type. -/
structure ArraySort where
  sort : {α : Type} → (α → α → Option Int) → List α → List α
  perm : ∀ {α : Type} (cmp : α → α → Option Int) (items : List α), (sort cmp items).Perm items
  map : ∀ {α β : Type} (f : α → β) (cmp : β → β → Option Int) (items : List α),
    (sort (fun a b => cmp (f a) (f b)) items).map f = sort cmp (items.map f)
  ordered : ∀ {α : Type} (cmp : α → α → Option Int) (items : List α),
    Consistent cmp items → (sort cmp items).Pairwise (NotAfter cmp)

variable {cmp : α → α → Option Int} {items : List α}

theorem Consistent.total (h : Consistent cmp items) {a b : α} (ha : a ∈ items) (hb : b ∈ items) :
    NotAfter cmp a b ∨ NotAfter cmp b a := by
  obtain ⟨m, n, hm, hn, hsign⟩ := h.opposite a ha b hb
  by_cases hle : m ≤ 0
  · exact Or.inl ⟨m, hm, hle⟩
  · have hone : m.sign = 1 := Int.sign_eq_one_of_pos (by omega)
    have hneg : n < 0 := Int.sign_eq_neg_one_iff_neg.mp (by rw [hsign, hone])
    exact Or.inr ⟨n, hn, by omega⟩

/-- Consistent answers on some elements are so on fewer. -/
theorem Consistent.subset {fewer : List α} (h : Consistent cmp items) (hsub : fewer ⊆ items) :
    Consistent cmp fewer where
  opposite a ha b hb := h.opposite a (hsub ha) b (hsub hb)
  trans a ha b hb c hc := h.trans a (hsub ha) b (hsub hb) c (hsub hc)

namespace ArraySort

variable {cmp : α → α → Option Int} {items : List α}

theorem mem_sort (s : ArraySort) {a : α} : a ∈ s.sort cmp items ↔ a ∈ items :=
  (s.perm cmp items).mem_iff

/-- Where no two different elements tie, the order in which they come to the sort
does not matter. -/
theorem sort_eq_of_perm (s : ArraySort) {other : List α} (same : items.Perm other)
    (consistent : Consistent cmp items)
    (noTie : ∀ a ∈ items, ∀ b ∈ items, NotAfter cmp a b → NotAfter cmp b a → a = b) :
    s.sort cmp items = s.sort cmp other := by
  have hother : Consistent cmp other := consistent.subset same.symm.subset
  have hsame : (s.sort cmp items).Perm (s.sort cmp other) :=
    ((s.perm cmp items).trans same).trans (s.perm cmp other).symm
  refine hsame.eq_of_pairwise ?_ (s.ordered cmp items consistent) (s.ordered cmp other hother)
  intro a b ha hb
  exact noTie a (s.mem_sort.mp ha) b (same.mem_iff.mpr (s.mem_sort.mp hb))

/-- The merge sort, an answer that is not a number counting as 0. -/
def merge : ArraySort where
  sort cmp items := items.mergeSort fun a b => (cmp a b).all (· ≤ 0)
  perm _ items := List.mergeSort_perm items _
  map _ _ _ := List.map_mergeSort fun _ _ _ _ => rfl
  ordered cmp items h := by
    have hle : ∀ {a b}, a ∈ items → b ∈ items →
        ((cmp a b).all (· ≤ 0) = true ↔ NotAfter cmp a b) := by
      intro a b ha hb
      obtain ⟨m, n, hm, -, -⟩ := h.opposite a ha b hb
      simp [NotAfter, hm]
    let le (a b : {a // a ∈ items}) : Bool := (cmp a.1 b.1).all (· ≤ 0)
    have hsorted : (items.attach.mergeSort le).Pairwise fun a b => le a b = true := by
      apply List.pairwise_mergeSort
      · intro a b c hab hbc
        exact (hle a.2 c.2).mpr (h.trans a a.2 b b.2 c c.2 ((hle a.2 b.2).mp hab)
          ((hle b.2 c.2).mp hbc))
      · intro a b
        rw [Bool.or_eq_true]
        exact (h.total a.2 b.2).imp (hle a.2 b.2).mpr (hle b.2 a.2).mpr
    have hvals : (items.attach.mergeSort le).map Subtype.val =
        items.mergeSort fun a b => (cmp a b).all (· ≤ 0) := by
      rw [List.map_mergeSort (s := fun a b => (cmp a b).all (· ≤ 0)) fun _ _ _ _ => rfl,
        List.attach_map_subtype_val]
    rw [← hvals, List.pairwise_map]
    exact hsorted.imp fun {a b} hab => (hle a.2 b.2).mp hab

end ArraySort

end Sinnlos

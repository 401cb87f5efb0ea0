import Mathlib.Algebra.BigOperators.Group.List.Lemmas
import Mathlib.Algebra.Order.Ring.Int
import Mathlib.Data.List.Dedup
import Mathlib.Data.List.Perm.Lattice

/-! # Statements over tables

Three-valued conditions, joins and grouping as SQL reads them. A column value
is an option, none for NULL: a comparison with it is unknown, and a row is kept
where its condition is true. NULL is one group. The order of a result is left to
the database; the lists here are one of the orders.
-/

namespace Sinnlos.Sql

universe u v w

/-! ## Conditions -/

/-- True, false, or unknown. -/
abbrev Truth := Option Bool

def holds (condition : Truth) : Bool := condition == some true

def eq {α : Type u} [DecidableEq α] : Option α → Option α → Truth
  | some a, some b => some (decide (a = b))
  | _, _ => none

def less : Option Nat → Option Nat → Truth
  | some a, some b => some (decide (a < b))
  | _, _ => none

/-- False wherever one side is false, else unknown where one side is. -/
def conj : Truth → Truth → Truth
  | some false, _ => some false
  | _, some false => some false
  | some true, some true => some true
  | _, _ => none

/-- `IN` a list of values. -/
def inList {α : Type u} [DecidableEq α] (value : Option α) (list : List α) : Truth :=
  value.map fun a => decide (a ∈ list)

def notExists {α : Type u} (rows : List α) : Truth := some rows.isEmpty

@[simp] theorem holds_eq {α : Type u} [DecidableEq α] {a b : Option α} :
    holds (eq a b) = true ↔ ∃ value, a = some value ∧ b = some value := by
  cases a with
  | none => simp [holds, eq]
  | some a =>
      cases b with
      | none => simp [holds, eq]
      | some b => simp [holds, eq, eq_comm]

@[simp] theorem holds_less {a b : Option Nat} :
    holds (less a b) = true ↔ ∃ x y, a = some x ∧ b = some y ∧ x < y := by
  cases a with
  | none => simp [holds, less]
  | some a =>
      cases b with
      | none | some b => simp [holds, less]

@[simp] theorem holds_conj {a b : Truth} : holds (conj a b) = (holds a && holds b) := by
  rcases a with _ | _ | _ <;> rcases b with _ | _ | _ <;> rfl

@[simp] theorem holds_inList {α : Type u} [DecidableEq α] {a : Option α} {list : List α} :
    holds (inList a list) = true ↔ ∃ value ∈ list, a = some value := by
  cases a with
  | none | some a => simp [holds, inList]

@[simp] theorem holds_notExists {α : Type u} {rows : List α} :
    holds (notExists rows) = true ↔ rows = [] := by
  simp [holds, notExists]

/-! ## Joins -/

section Joins
variable {α : Type u} {β : Type v}

def join (left : List α) (right : List β) (on : α → β → Truth) : List (α × β) :=
  left.flatMap fun l => (right.filter fun r => holds (on l r)).map fun r => (l, r)

/-- A row without a match stays, with NULL in the other table's columns. -/
def leftJoin (left : List α) (right : List β) (on : α → β → Truth) : List (α × Option β) :=
  left.flatMap fun l =>
    match right.filter fun r => holds (on l r) with
    | [] => [(l, none)]
    | found => found.map fun r => (l, some r)

def select (rows : List α) (condition : α → Truth) : List α :=
  rows.filter fun row => holds (condition row)

variable {left : List α} {right : List β} {on : α → β → Truth}

theorem mem_join {l : α} {r : β} :
    (l, r) ∈ join left right on ↔ l ∈ left ∧ r ∈ right ∧ holds (on l r) = true := by
  simp [join]

theorem mem_select {rows : List α} {condition : α → Truth} {row : α} :
    row ∈ select rows condition ↔ row ∈ rows ∧ holds (condition row) = true := by
  simp [select]

/-- Where at most one row matches, a left join adds the match or NULL. -/
theorem leftJoin_eq_map (unique : ∀ l ∈ left, (right.filter fun r => holds (on l r)).length ≤ 1) :
    leftJoin left right on =
      left.map fun l => (l, (right.filter fun r => holds (on l r)).head?) := by
  unfold leftJoin
  rw [← List.flatMap_singleton' (left.map _), List.flatMap_map]
  apply List.flatMap_congr
  intro l hl
  have hle := unique l hl
  cases hfound : right.filter fun r => holds (on l r) with
  | nil => rfl
  | cons r rest =>
      rw [hfound, List.length_cons] at hle
      have hrest : rest = [] := List.eq_nil_of_length_eq_zero (by omega)
      subst hrest
      rfl

end Joins

/-! ## Grouping -/

section Grouping
variable {α : Type u} {κ : Type v} [DecidableEq κ]

/-- The rows of every key that occurs. -/
def groupBy (key : α → κ) (rows : List α) : List (κ × List α) :=
  (rows.map key).dedup.map fun k => (k, rows.filter fun row => key row = k)

/-- `sum(CASE WHEN condition THEN 1 ELSE 0 END)`. -/
def sumWhere (condition : α → Truth) (rows : List α) : Nat :=
  rows.countP fun row => holds (condition row)

theorem mem_groupBy {key : α → κ} {rows : List α} {k : κ} {group : List α} :
    (k, group) ∈ groupBy key rows ↔
      k ∈ rows.map key ∧ group = rows.filter fun row => key row = k := by
  unfold groupBy
  rw [List.mem_map]
  constructor
  · rintro ⟨k', hk, heq⟩
    cases heq
    exact ⟨List.mem_dedup.mp hk, rfl⟩
  · rintro ⟨hk, rfl⟩
    exact ⟨k, List.mem_dedup.mpr hk, rfl⟩

theorem groupBy_keys (key : α → κ) (rows : List α) :
    (groupBy key rows).map Prod.fst = (rows.map key).dedup := by
  unfold groupBy
  rw [List.map_map]
  exact List.map_id _

theorem groupBy_keys_nodup (key : α → κ) (rows : List α) :
    ((groupBy key rows).map Prod.fst).Nodup := by
  rw [groupBy_keys]
  exact List.nodup_dedup _

theorem groupBy_nodup (key : α → κ) (rows : List α) : (groupBy key rows).Nodup :=
  (groupBy_keys_nodup key rows).of_map _

/-- A sum over one key of distinct ones. -/
theorem sum_map_ite_of_nodup {keys : List κ} (distinct : keys.Nodup) (f : κ → Nat) (k : κ) :
    (keys.map fun k' => if k' = k then f k' else 0).sum = if k ∈ keys then f k else 0 := by
  induction keys with
  | nil => rfl
  | cons head keys ih =>
      rw [List.nodup_cons] at distinct
      rw [List.map_cons, List.sum_cons, ih distinct.2]
      by_cases hk : head = k
      · subst hk
        rw [if_pos rfl, if_neg distinct.1, if_pos List.mem_cons_self, Nat.add_zero]
      · rw [if_neg hk, Nat.zero_add]
        simp only [List.mem_cons, Ne.symm hk, false_or]

/-- The rows of a key are counted by its group, by none where there is none. -/
theorem sum_groupBy_key (key : α → κ) (rows : List α) (k : κ) :
    ((groupBy key rows).map fun g => if g.1 = k then g.2.length else 0).sum =
      rows.countP fun row => key row = k := by
  unfold groupBy
  rw [List.map_map]
  have hsum := sum_map_ite_of_nodup (List.nodup_dedup (rows.map key))
    (fun k' => (rows.filter fun row => key row = k').length) k
  rw [Function.comp_def, hsum, List.countP_eq_length_filter]
  split
  · rfl
  · rename_i hk
    rw [List.mem_dedup] at hk
    symm
    rw [List.length_eq_zero_iff, List.filter_eq_nil_iff]
    intro row hrow hkey
    rw [decide_eq_true_eq] at hkey
    exact hk (hkey ▸ List.mem_map_of_mem hrow)

/-- The groups hold every row once. -/
theorem sum_groupBy_length (key : α → κ) (rows : List α) :
    ((groupBy key rows).map fun g => g.2.length).sum = rows.length := by
  unfold groupBy
  rw [List.map_map]
  simp only [Function.comp_def, ← List.countP_eq_length_filter]
  have hsum := List.sum_map_count_dedup_eq_length (rows.map key)
  rw [List.length_map] at hsum
  rw [← hsum]
  apply congrArg List.sum
  apply List.map_congr_left
  intro k _
  rw [List.count, List.countP_map]
  rfl

/-- Grouping by two keys and keeping one first key is grouping its rows by the
second. -/
theorem groupBy_pair_perm {κ' : Type w} [DecidableEq κ'] (key : α → κ) (key' : α → κ')
    (rows : List α) (k : κ) :
    (((groupBy (fun row => (key row, key' row)) rows).filter fun g => g.1.1 = k).map
        fun g => (g.1.2, g.2)).Perm
      (groupBy key' (rows.filter fun row => key row = k)) := by
  have hinjective : ∀ g ∈ (groupBy (fun row => (key row, key' row)) rows).filter fun g => g.1.1 = k,
      ∀ g' ∈ (groupBy (fun row => (key row, key' row)) rows).filter fun g => g.1.1 = k,
      (g.1.2, g.2) = (g'.1.2, g'.2) → g = g' := by
    rintro ⟨⟨a, b⟩, group⟩ hg ⟨⟨a', b'⟩, group'⟩ hg' heq
    have ha : a = k := of_decide_eq_true (List.mem_filter.mp hg).2
    have ha' : a' = k := of_decide_eq_true (List.mem_filter.mp hg').2
    cases heq
    rw [ha, ha']
  rw [List.perm_ext_iff_of_nodup]
  · rintro ⟨k', group⟩
    rw [List.mem_map, mem_groupBy]
    constructor
    · rintro ⟨⟨⟨a, b⟩, group'⟩, hg, heq⟩
      obtain ⟨hgroup, ha⟩ := List.mem_filter.mp hg
      rw [decide_eq_true_eq] at ha
      dsimp only at ha
      cases heq
      subst ha
      obtain ⟨hmem, rfl⟩ := mem_groupBy.mp hgroup
      obtain ⟨row, hrow, hkeys⟩ := List.mem_map.mp hmem
      cases hkeys
      constructor
      · exact List.mem_map_of_mem (List.mem_filter.mpr ⟨hrow, decide_eq_true rfl⟩)
      · rw [List.filter_filter]
        apply List.filter_congr
        intro other _
        simp [Bool.and_comm]
    · rintro ⟨hmem, rfl⟩
      obtain ⟨row, hrow, rfl⟩ := List.mem_map.mp hmem
      obtain ⟨hin, hkey⟩ := List.mem_filter.mp hrow
      rw [decide_eq_true_eq] at hkey
      refine ⟨((k, key' row), rows.filter fun r => (key r, key' r) = (k, key' row)), ?_, ?_⟩
      · rw [List.mem_filter, mem_groupBy]
        refine ⟨⟨?_, rfl⟩, decide_eq_true rfl⟩
        exact List.mem_map.mpr ⟨row, hin, by rw [hkey]⟩
      · dsimp only
        rw [List.filter_filter]
        congr 1
        apply List.filter_congr
        intro other _
        simp [Bool.and_comm]
  · exact (((groupBy_nodup _ rows).filter _)).map_on hinjective
  · exact groupBy_nodup _ _

end Grouping

end Sinnlos.Sql

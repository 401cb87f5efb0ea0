import Mathlib.Data.List.Nodup

/-! # Lookups by a key

Rows found by a key that no two of them share, and lists read element by
element where each may fail.
-/

namespace Sinnlos.Lookup

universe u v
variable {α : Type u} {κ : Type v} [DecidableEq κ] {key : α → κ} {rows : List α} {row : α}

/-- The first row under a key has that key. -/
theorem key_of_find {k : κ} (h : (rows.find? fun r => key r = k) = some row) : key row = k := by
  have hpred := List.find?_some (p := fun r => decide (key r = k)) h
  exact of_decide_eq_true hpred

/-- A row is found under its own key, where no other row has it. -/
theorem find_own_key (unique : (rows.map key).Nodup) (hrow : row ∈ rows) :
    (rows.find? fun r => key r = key row) = some row := by
  cases hfind : rows.find? fun r => key r = key row with
  | none =>
      have hnot := List.find?_eq_none.mp hfind row hrow
      exact absurd (decide_eq_true rfl) hnot
  | some found =>
      have hsame := List.inj_on_of_nodup_map unique (List.mem_of_find?_eq_some hfind) hrow
        (key_of_find hfind)
      rw [hsame]

/-- All rows under the key of one are this row, where no other row has it. -/
theorem filter_own_key (unique : (rows.map key).Nodup) (hrow : row ∈ rows) :
    (rows.filter fun r => key r = key row) = [row] := by
  induction rows with
  | nil => cases hrow
  | cons first rest ih =>
      rw [List.map_cons, List.nodup_cons] at unique
      rcases List.mem_cons.mp hrow with rfl | hrest
      · rw [List.filter_cons_of_pos (by simp), List.cons_inj_right, List.filter_eq_nil_iff]
        intro other hother heq
        exact unique.1 (List.mem_map.mpr ⟨other, hother, of_decide_eq_true heq⟩)
      · have hne : key first ≠ key row := by
          intro heq
          exact unique.1 (List.mem_map.mpr ⟨row, hrest, heq.symm⟩)
        rw [List.filter_cons_of_neg (by simpa using hne), ih unique.2 hrest]

/-- Every element of a list read by `mapM` is read from one of the original. -/
theorem mem_of_mapM {β : Type u} {f : α → Option β} {list : List α} {read : List β} {b : β}
    (h : list.mapM f = some read) (hb : b ∈ read) : ∃ a ∈ list, f a = some b := by
  induction list generalizing read with
  | nil =>
      cases h
      cases hb
  | cons first rest ih =>
      rw [List.mapM_cons] at h
      obtain ⟨head, hhead, h⟩ := Option.bind_eq_some_iff.mp h
      obtain ⟨tail, htail, h⟩ := Option.bind_eq_some_iff.mp h
      cases h
      rcases List.mem_cons.mp hb with hfirst | hrest
      · exact ⟨first, List.mem_cons_self, hfirst ▸ hhead⟩
      · obtain ⟨a, ha, hread⟩ := ih htail hrest
        exact ⟨a, List.mem_cons_of_mem first ha, hread⟩

end Sinnlos.Lookup

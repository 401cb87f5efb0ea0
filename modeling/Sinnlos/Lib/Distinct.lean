import Mathlib.Data.List.Nodup
import Mathlib.Data.List.Perm.Subperm

/-! # The first of each key

A list without the elements whose key an earlier element has. It keeps the order,
has every key once and does not depend on the elements that are left out.
-/

namespace Sinnlos.Distinct

variable {α κ : Type} [DecidableEq κ] (key : α → κ)

/-- The first element of each key that is not seen. -/
def firsts (seen : List κ) : List α → List α
  | [] => []
  | a :: as => if key a ∈ seen then firsts seen as else a :: firsts (key a :: seen) as

variable {key} {seen : List κ} {as bs : List α}

theorem firsts_nil : firsts key seen [] = [] := rfl

theorem firsts_cons (a : α) (as : List α) (seen : List κ) :
    firsts key seen (a :: as) =
      if key a ∈ seen then firsts key seen as else a :: firsts key (key a :: seen) as := rfl

theorem firsts_sublist (as : List α) (seen : List κ) : (firsts key seen as).Sublist as := by
  induction as generalizing seen with
  | nil => exact List.Sublist.refl _
  | cons a as ih =>
      rw [firsts_cons]
      split
      · exact (ih seen).cons a
      · exact (ih _).cons_cons a

theorem not_seen_of_mem {a : α} (h : a ∈ firsts key seen as) : key a ∉ seen := by
  induction as generalizing seen with
  | nil => cases h
  | cons b as ih =>
      rw [firsts_cons] at h
      split at h
      · exact ih h
      · next hnew =>
          rcases List.mem_cons.mp h with heq | hrest
          · exact heq ▸ hnew
          · exact fun hseen => ih hrest (List.mem_cons_of_mem _ hseen)

theorem nodup_firsts (as : List α) (seen : List κ) : ((firsts key seen as).map key).Nodup := by
  induction as generalizing seen with
  | nil => exact List.nodup_nil
  | cons a as ih =>
      rw [firsts_cons]
      split
      · exact ih seen
      · rw [List.map_cons, List.nodup_cons]
        refine ⟨?_, ih _⟩
        intro h
        obtain ⟨b, hb, hkey⟩ := List.mem_map.mp h
        exact not_seen_of_mem hb (hkey ▸ List.mem_cons_self)

/-- What is kept is the first element of its key. -/
theorem find_of_mem_firsts {a : α} (h : a ∈ firsts key seen as) :
    as.find? (fun b => decide (key b = key a)) = some a := by
  induction as generalizing seen with
  | nil => cases h
  | cons b as ih =>
      rw [firsts_cons] at h
      by_cases hkey : key b = key a
      · split at h
        · next hseen => exact absurd (hkey ▸ hseen) (not_seen_of_mem h)
        · rcases List.mem_cons.mp h with heq | hrest
          · rw [List.find?_cons_of_pos (by simpa using hkey), heq]
          · exact absurd (hkey ▸ List.mem_cons_self) (not_seen_of_mem hrest)
      · rw [List.find?_cons_of_neg (by simpa using hkey)]
        split at h
        · exact ih h
        · rcases List.mem_cons.mp h with heq | hrest
          · exact absurd (heq ▸ rfl) hkey
          · exact ih hrest

/-- Every key is kept unless it was seen. -/
theorem mem_keys_firsts {k : κ} :
    k ∈ (firsts key seen as).map key ↔ k ∈ as.map key ∧ k ∉ seen := by
  induction as generalizing seen with
  | nil => simp [firsts_nil]
  | cons a as ih =>
      rw [firsts_cons]
      split
      · next hseen =>
          rw [ih, List.map_cons, List.mem_cons]
          constructor
          · exact fun h => ⟨Or.inr h.1, h.2⟩
          · intro h
            rcases h.1 with heq | hmem
            · exact absurd (heq ▸ hseen) h.2
            · exact ⟨hmem, h.2⟩
      · next hnew =>
          rw [List.map_cons, List.map_cons, List.mem_cons, List.mem_cons, ih, List.mem_cons, not_or]
          by_cases heq : k = key a
          · rw [heq]
            exact iff_of_true (Or.inl rfl) ⟨Or.inl rfl, hnew⟩
          · simp [heq]

/-- Only which keys are seen counts. -/
theorem firsts_congr {seen' : List κ} (h : ∀ k, k ∈ seen ↔ k ∈ seen') (as : List α) :
    firsts key seen as = firsts key seen' as := by
  induction as generalizing seen seen' with
  | nil => rfl
  | cons a as ih =>
      have hnext : ∀ k, k ∈ key a :: seen ↔ k ∈ key a :: seen' := by
        intro k
        rw [List.mem_cons, List.mem_cons, h k]
      simp only [firsts_cons, h (key a), ih h, ih hnext]

/-- The first ones of two lists are those of the one and what the other adds. -/
theorem firsts_append (as bs : List α) (seen : List κ) :
    firsts key seen (as ++ bs) =
      firsts key seen as ++ firsts key ((firsts key seen as).map key ++ seen) bs := by
  induction as generalizing seen with
  | nil => rfl
  | cons a as ih =>
      rw [List.cons_append, firsts_cons, firsts_cons]
      split
      · exact ih seen
      · rw [ih, List.cons_append]
        congr 2
        apply firsts_congr
        intro k
        simp only [List.map_cons, List.mem_append, List.mem_cons]
        tauto

theorem map_firsts (as : List α) (seen : List κ) :
    (firsts key seen as).map key = firsts id seen (as.map key) := by
  induction as generalizing seen with
  | nil => rfl
  | cons a as ih =>
      simp only [firsts_cons, List.map_cons, id_eq]
      split
      · exact ih seen
      · rw [List.map_cons, ih]

omit [DecidableEq κ] in
/-- A list with all the keys of another one, each of which stands there once, is at
least as long. -/
theorem length_le_of_keys (once : (as.map key).Nodup)
    (all : ∀ a ∈ as, ∃ b ∈ bs, key b = key a) : as.length ≤ bs.length := by
  have hsub : as.map key ⊆ bs.map key := by
    intro k hk
    obtain ⟨a, ha, rfl⟩ := List.mem_map.mp hk
    obtain ⟨b, hb, hkey⟩ := all a ha
    exact List.mem_map.mpr ⟨b, hb, hkey⟩
  have hle := (once.subperm hsub).length_le
  simpa using hle

/-- In whatever order the elements come, as many keys are kept. -/
theorem length_firsts_perm (h : as.Perm bs) :
    (firsts key seen as).length = (firsts key seen bs).length := by
  have hkeys : ((firsts key seen as).map key).Perm ((firsts key seen bs).map key) := by
    rw [List.perm_ext_iff_of_nodup (nodup_firsts as seen) (nodup_firsts bs seen)]
    intro k
    rw [mem_keys_firsts, mem_keys_firsts, (h.map key).mem_iff]
  simpa using hkeys.length_eq

end Sinnlos.Distinct

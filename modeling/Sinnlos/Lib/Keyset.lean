import Mathlib.Data.List.Sort

/-! # Keyset paging

Reading a table page by page, each page the rows behind the last key of the page
before. Over rows of increasing keys the pages make up the whole table.
-/

namespace Sinnlos.Keyset

universe u
variable {ρ : Type u} (key : ρ → Nat) (size : Nat)

/-- The rows behind a key. -/
def behind (rows : List ρ) (cursor : Nat) : List ρ :=
  rows.filter fun row => cursor < key row

/-- Read pages until one is short. -/
def readPages (rows : List ρ) : Nat → Nat → List ρ
  | 0, _ => []
  | fuel + 1, cursor =>
      let page := (behind key rows cursor).take size
      match page.getLast? with
      | none => page
      | some last =>
          if page.length < size then page else page ++ readPages rows fuel (key last)

variable {key size} {rows : List ρ} {cursor : Nat}

theorem behind_behind {later : Nat} (h : cursor ≤ later) :
    behind key (behind key rows cursor) later = behind key rows later := by
  unfold behind
  rw [List.filter_filter]
  apply List.filter_congr
  intro row _
  by_cases hrow : later < key row
  · have hcursor : cursor < key row := by omega
    simp [hrow, hcursor]
  · simp [hrow]

/-- The rows behind the last key of a page are those that the page left. -/
theorem behind_getLast {page rest : List ρ} {last : ρ}
    (hsorted : rows.Pairwise fun a b => key a < key b)
    (hsplit : behind key rows cursor = page ++ [last] ++ rest) :
    behind key rows (key last) = rest := by
  have hlast : cursor < key last := by
    have hmem : last ∈ behind key rows cursor := by
      rw [hsplit]
      simp
    simpa [behind] using (List.mem_filter.mp hmem).2
  have hnarrow : behind key rows (key last) = behind key (behind key rows cursor) (key last) :=
    (behind_behind (Nat.le_of_lt hlast)).symm
  have hpairs : (page ++ [last] ++ rest).Pairwise fun a b => key a < key b := by
    rw [← hsplit]
    exact hsorted.filter _
  rw [List.pairwise_append, List.pairwise_append] at hpairs
  obtain ⟨⟨_, _, hfront⟩, _, hback⟩ := hpairs
  have hpage : page.filter (fun row => key last < key row) = [] := by
    rw [List.filter_eq_nil_iff]
    intro row hrow
    have hlt := hfront row hrow last (by simp)
    simp only [decide_eq_true_eq]
    omega
  have hrest : rest.filter (fun row => key last < key row) = rest := by
    rw [List.filter_eq_self]
    intro row hrow
    have hlt := hback last (by simp) row hrow
    simpa using hlt
  rw [hnarrow, hsplit]
  unfold behind
  rw [List.filter_append, List.filter_append, hpage, hrest]
  simp

/-- The pages are the rows behind the first cursor. -/
theorem readPages_eq (hsorted : rows.Pairwise fun a b => key a < key b) (hsize : 0 < size)
    {fuel : Nat} (hfuel : (behind key rows cursor).length < fuel) :
    readPages key size rows fuel cursor = behind key rows cursor := by
  induction fuel generalizing cursor with
  | zero => omega
  | succ fuel ih =>
      rw [readPages]
      obtain ⟨page, hpage⟩ : ∃ page, page = (behind key rows cursor).take size := ⟨_, rfl⟩
      have hwhole := List.take_append_drop size (behind key rows cursor)
      rw [← hpage] at hwhole ⊢
      split
      · next hlast =>
          have hempty : page = [] := List.getLast?_eq_none_iff.mp hlast
          rw [hempty] at hpage ⊢
          cases hrows : behind key rows cursor with
          | nil => rfl
          | cons row rest =>
              rw [hrows] at hpage
              cases size with
              | zero => omega
              | succ size => cases hpage
      · next last hlast =>
          split
          · next hshort =>
              rw [hpage, List.take_of_length_le]
              rw [hpage, List.length_take] at hshort
              omega
          · next hfull =>
              obtain ⟨front, hfront⟩ := List.getLast?_eq_some_iff.mp hlast
              have hrest := behind_getLast hsorted (hwhole.symm.trans (by rw [hfront]))
              have hshorter : (behind key rows (key last)).length < fuel := by
                have hlength := congrArg List.length hwhole
                rw [hrest]
                rw [List.length_append] at hlength
                omega
              rw [ih hshorter, hrest, hwhole]

/-! ## Pages of ids -/

/-- The smallest ids, in their order. -/
def firstPage (size : Nat) (ids : List Nat) : List Nat := (ids.insertionSort (· ≤ ·)).take size

/-- The page behind a cursor. -/
def page (size : Nat) (ids : List Nat) (cursor : Nat) : List Nat :=
  firstPage size (ids.filter fun id => cursor < id)

section Pages
variable {ids : List Nat} {cursor last id : Nat}

theorem mem_of_mem_firstPage (h : id ∈ firstPage size ids) : id ∈ ids :=
  (List.mem_insertionSort (· ≤ ·)).mp (List.mem_of_mem_take h)

theorem firstPage_nodup (h : ids.Nodup) : (firstPage size ids).Nodup := by
  have hsorted := (List.perm_insertionSort (· ≤ ·) ids).nodup_iff.mpr h
  exact hsorted.sublist (List.take_sublist _ _)

theorem firstPage_eq_nil (hsize : 0 < size) : firstPage size ids = [] ↔ ids = [] := by
  have hlength := List.length_insertionSort (· ≤ ·) ids
  rw [firstPage, List.take_eq_nil_iff, ← List.length_eq_zero_iff, hlength,
    List.length_eq_zero_iff]
  constructor
  · intro h
    exact h.resolve_left (Nat.ne_of_gt hsize)
  · exact Or.inr

/-- An id that is not on the first page is behind its last one. -/
theorem le_of_not_mem_firstPage (hlast : (firstPage size ids).getLast? = some last)
    (hid : id ∈ ids) (hnot : id ∉ firstPage size ids) : last ≤ id := by
  have hpairs := List.pairwise_insertionSort (· ≤ ·) ids
  rw [← List.take_append_drop size (ids.insertionSort (· ≤ ·)), List.pairwise_append] at hpairs
  have hrest : id ∈ (ids.insertionSort (· ≤ ·)).drop size := by
    have hmem := (List.mem_insertionSort (· ≤ ·)).mpr hid
    rw [← List.take_append_drop size (ids.insertionSort (· ≤ ·)), List.mem_append] at hmem
    exact hmem.resolve_left hnot
  exact hpairs.2.2 last (List.mem_of_getLast? hlast) id hrest

theorem mem_of_mem_page (h : id ∈ page size ids cursor) : id ∈ ids ∧ cursor < id := by
  simpa using List.mem_filter.mp (mem_of_mem_firstPage h)

theorem page_nodup (h : ids.Nodup) : (page size ids cursor).Nodup :=
  firstPage_nodup (h.filter _)

/-- An empty page is behind every id. -/
theorem le_of_page_eq_nil (hsize : 0 < size) (h : page size ids cursor = []) (hid : id ∈ ids) :
    id ≤ cursor := by
  have hnone := List.filter_eq_nil_iff.mp ((firstPage_eq_nil hsize).mp h) id hid
  simpa using hnone

/-- Up to its last id a page leaves out none. -/
theorem mem_page_of_le (hlast : (page size ids cursor).getLast? = some last) (hid : id ∈ ids)
    (hcursor : cursor < id) (hle : id ≤ last) : id ∈ page size ids cursor := by
  by_contra hnot
  have hbehind : id ∈ ids.filter fun id => cursor < id := List.mem_filter.mpr ⟨hid, by simpa⟩
  have hge := le_of_not_mem_firstPage hlast hbehind hnot
  have hsame : id = last := Nat.le_antisymm hle hge
  exact hnot (hsame ▸ List.mem_of_getLast? hlast)

/-- The ids of a page are none behind its last one. -/
theorem le_last_of_mem_page (hlast : (page size ids cursor).getLast? = some last)
    (hid : id ∈ page size ids cursor) : id ≤ last := by
  have hpairs : (page size ids cursor).Pairwise (· ≤ ·) :=
    (List.pairwise_insertionSort (· ≤ ·) _).sublist (List.take_sublist _ _)
  obtain ⟨front, hfront⟩ := List.getLast?_eq_some_iff.mp hlast
  rw [hfront] at hid hpairs
  rw [List.pairwise_append] at hpairs
  rcases List.mem_append.mp hid with hold | hnew
  · exact hpairs.2.2 id hold last (List.mem_singleton_self last)
  · exact Nat.le_of_eq (List.mem_singleton.mp hnew)

end Pages

end Sinnlos.Keyset

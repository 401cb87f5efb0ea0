import Mathlib.Data.List.Basic
import Mathlib.Data.List.Nodup

/-! # Slices of a list

A list read in pieces of one size: the pieces in their order are the list, and
where no element repeats no two pieces share one.
-/

namespace Sinnlos

universe u
variable {α : Type u}

/-- The elements at the places `start`, …, `stop - 1`. -/
def slice (items : List α) (start stop : Nat) : List α := (items.take stop).drop start

/-- The list in pieces of `size`; the last one may be shorter. -/
def chunks (items : List α) (size : Nat) : List (List α) :=
  (List.range ((items.length + size - 1) / size)).map fun k =>
    slice items (k * size) (k * size + size)

theorem slice_map {β : Type u} (f : α → β) (items : List α) (start stop : Nat) :
    slice (items.map f) start stop = (slice items start stop).map f := by
  simp [slice, List.map_take, List.map_drop]

theorem slice_sublist (items : List α) (start stop : Nat) :
    (slice items start stop).Sublist items :=
  (List.drop_sublist ..).trans (List.take_sublist ..)

/-- A slice behind the first `start` elements continues them. -/
theorem take_append_slice (items : List α) (start size : Nat) :
    items.take start ++ slice items start (start + size) = items.take (start + size) := by
  rw [slice, List.drop_take, Nat.add_sub_cancel_left, ← List.take_add]

/-- The first `n` pieces in their order are the beginning of the list. -/
theorem flatten_slices (items : List α) (size n : Nat) :
    ((List.range n).map fun k => slice items (k * size) (k * size + size)).flatten =
      items.take (n * size) := by
  induction n with
  | zero => simp
  | succ n ih =>
      rw [List.range_succ, List.map_append, List.flatten_append, ih, List.map_singleton,
        List.flatten_singleton, take_append_slice, Nat.succ_mul]

variable {size : Nat} {items : List α}

theorem flatten_chunks (items : List α) (hsize : 0 < size) :
    (chunks items size).flatten = items := by
  rw [chunks, flatten_slices]
  apply List.take_of_length_le
  have hceil := Nat.lt_mul_div_succ (items.length + size - 1) hsize
  rw [Nat.mul_add, Nat.mul_comm] at hceil
  omega

variable {a : α} {k : Nat}

theorem mem_chunks (hsize : 0 < size) : a ∈ items ↔ ∃ chunk ∈ chunks items size, a ∈ chunk := by
  rw [← List.mem_flatten, flatten_chunks items hsize]

/-- Every element is in one of the slices. -/
theorem exists_slice (hsize : 0 < size) (h : a ∈ items) :
    ∃ k, a ∈ slice items (k * size) (k * size + size) := by
  obtain ⟨chunk, hchunk, hmem⟩ := (mem_chunks hsize).mp h
  obtain ⟨k, -, rfl⟩ := List.mem_map.mp hchunk
  exact ⟨k, hmem⟩

/-- Two slices of a list without repetition have no element in common. -/
theorem slice_disjoint (distinct : items.Nodup) {i j : Nat} (hij : i < j) :
    (slice items (i * size) (i * size + size)).Disjoint
      (slice items (j * size) (j * size + size)) := by
  have hstop : i * size + size ≤ j * size := by
    rw [← Nat.succ_mul]
    exact Nat.mul_le_mul_right size hij
  have hsplit : (items.take (j * size) ++ slice items (j * size) (j * size + size)).Nodup := by
    rw [take_append_slice]
    exact distinct.sublist (List.take_sublist ..)
  intro a hi hj
  have hfirst : a ∈ items.take (j * size) := by
    have htake := List.mem_of_mem_drop hi
    exact (List.take_sublist_take_left hstop).subset htake
  exact (List.nodup_append.mp hsplit).2.2 a hfirst a hj rfl

/-! ## The pieces by their places -/

theorem getElem?_chunks (hsize : 0 < size) (hk : k * size < items.length) :
    (chunks items size)[k]? = some (slice items (k * size) (k * size + size)) := by
  have hcount : k < (items.length + size - 1) / size := by
    rw [Nat.lt_div_iff_mul_lt hsize]
    omega
  rw [chunks, List.getElem?_map, List.getElem?_range hcount, Option.map_some]

/-- There is a piece for every place that begins before the end. -/
theorem lt_length_chunks (hsize : 0 < size) :
    k < (chunks items size).length ↔ k * size < items.length := by
  rw [chunks, List.length_map, List.length_range, Nat.lt_div_iff_mul_lt hsize]
  omega

theorem length_le_of_mem_chunks {chunk : List α} (h : chunk ∈ chunks items size) :
    chunk.length ≤ size := by
  obtain ⟨k, -, rfl⟩ := List.mem_map.mp h
  rw [slice, List.length_drop, List.length_take]
  omega

/-- A key that no two elements share is in exactly one piece. -/
theorem existsUnique_chunk {β : Type u} {key : α → β} (hsize : 0 < size)
    (distinct : (items.map key).Nodup) {b : β} (h : b ∈ items.map key) :
    ∃! k : Nat, ∃ chunk : List α, (chunks items size)[k]? = some chunk ∧ b ∈ chunk.map key := by
  obtain ⟨k, hk⟩ := exists_slice hsize h
  have hplace : k * size < items.length := by
    have hlength := List.length_pos_of_mem hk
    rw [slice, List.length_drop, List.length_take, List.length_map] at hlength
    omega
  rw [slice_map] at hk
  refine ⟨k, ⟨_, getElem?_chunks hsize hplace, hk⟩, ?_⟩
  rintro j ⟨chunk, hchunk, hj⟩
  obtain ⟨hlt, -⟩ := List.getElem?_eq_some_iff.mp hchunk
  rw [getElem?_chunks hsize ((lt_length_chunks hsize).mp hlt)] at hchunk
  cases hchunk
  rw [← slice_map] at hj hk
  rcases Nat.lt_trichotomy j k with hless | heq | hmore
  · exact absurd hk (slice_disjoint distinct hless hj)
  · exact heq
  · exact absurd hj (slice_disjoint distinct hmore hk)

end Sinnlos

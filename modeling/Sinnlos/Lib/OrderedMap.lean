import Mathlib.Data.List.Induction
import Mathlib.Data.List.Nodup

/-! # Maps that keep their insertion order

A key occurs once and keeps its place while its value changes; a new key goes
to the end. Iteration follows that order.
-/

namespace Sinnlos

universe u v w

/-- A finite map with its entries in insertion order. -/
structure OrderedMap (κ : Type u) (ν : Type v) where
  entries : List (κ × ν)
  nodup : (entries.map Prod.fst).Nodup
deriving DecidableEq

namespace OrderedMap

variable {κ : Type u} {ν : Type v} [DecidableEq κ]

/-- The value of the first entry under `k`. -/
def find (k : κ) : List (κ × ν) → Option ν
  | [] => none
  | e :: es => if e.1 = k then some e.2 else find k es

/-- Replace the value under `k` in place. -/
def put (k : κ) (v : ν) (es : List (κ × ν)) : List (κ × ν) :=
  es.map fun e => if e.1 = k then (k, v) else e

theorem map_fst_put (k : κ) (v : ν) (es : List (κ × ν)) :
    (put k v es).map Prod.fst = es.map Prod.fst := by
  simp only [put, List.map_map, List.map_inj_left, Function.comp_apply]
  intro e _
  split
  · exact (‹e.1 = k›).symm
  · rfl

variable {k j : κ} {es : List (κ × ν)} {v : ν} {m : OrderedMap κ ν}

theorem find_eq_none : find k es = none ↔ k ∉ es.map Prod.fst := by
  induction es with
  | nil => simp [find]
  | cons e es ih =>
      by_cases h : e.1 = k
      · simp [find, h]
      · simp only [find, h, if_false, ih, List.map_cons, List.mem_cons, not_or]
        exact ⟨fun hn => ⟨fun hk => h hk.symm, hn⟩, fun hn => hn.2⟩

theorem find_eq_some (hn : (es.map Prod.fst).Nodup) : find k es = some v ↔ (k, v) ∈ es := by
  induction es with
  | nil => simp [find]
  | cons e es ih =>
      obtain ⟨hhead, htail⟩ := List.nodup_cons.mp hn
      by_cases h : e.1 = k
      · subst h
        simp only [find, if_true, Option.some.injEq, List.mem_cons]
        constructor
        · intro heq
          exact Or.inl (by rw [← heq])
        · intro hmem
          rcases hmem with he | he
          · exact (congrArg Prod.snd he).symm
          · exact absurd (List.mem_map_of_mem (f := Prod.fst) he) hhead
      · simp only [find, h, if_false, ih htail, List.mem_cons]
        constructor
        · exact Or.inr
        · intro hmem
          rcases hmem with he | he
          · exact absurd (congrArg Prod.fst he).symm h
          · exact he

def empty : OrderedMap κ ν := ⟨[], List.nodup_nil⟩

def get? (m : OrderedMap κ ν) (k : κ) : Option ν := find k m.entries

def keys (m : OrderedMap κ ν) : List κ := m.entries.map Prod.fst

def values (m : OrderedMap κ ν) : List ν := m.entries.map Prod.snd

def size (m : OrderedMap κ ν) : Nat := m.entries.length

/-- A known key keeps its place; a new one goes to the end. -/
def set (m : OrderedMap κ ν) (k : κ) (v : ν) : OrderedMap κ ν :=
  if h : k ∈ m.keys then ⟨put k v m.entries, by rw [map_fst_put]; exact m.nodup⟩
  else ⟨m.entries ++ [(k, v)], by
    rw [List.map_append, List.nodup_append]
    exact ⟨m.nodup, by simp, by
      intro a ha b hb heq
      subst heq
      simp only [List.map_cons, List.map_nil, List.mem_singleton] at hb
      exact h (hb ▸ ha)⟩⟩

def erase (m : OrderedMap κ ν) (k : κ) : OrderedMap κ ν :=
  ⟨m.entries.filter fun e => !decide (e.1 = k),
    m.nodup.sublist (List.filter_sublist.map Prod.fst)⟩

theorem get?_eq_none : m.get? k = none ↔ k ∉ m.keys :=
  find_eq_none

theorem get?_eq_some : m.get? k = some v ↔ (k, v) ∈ m.entries :=
  find_eq_some m.nodup

theorem mem_keys : k ∈ m.keys ↔ ∃ v, m.get? k = some v := by
  rw [← not_iff_not, ← get?_eq_none]
  cases m.get? k <;> simp

theorem mem_keys_of_get? (h : m.get? k = some v) : k ∈ m.keys :=
  mem_keys.mpr ⟨v, h⟩

theorem mem_values : v ∈ m.values ↔ ∃ k, m.get? k = some v := by
  simp only [values, List.mem_map, Prod.exists, get?_eq_some]
  constructor
  · intro h
    obtain ⟨k, w, hw, rfl⟩ := h
    exact ⟨k, hw⟩
  · intro h
    obtain ⟨k, h⟩ := h
    exact ⟨k, v, h, rfl⟩

@[simp] theorem get?_empty (k : κ) : (empty : OrderedMap κ ν).get? k = none := rfl

omit [DecidableEq κ] in
@[simp] theorem keys_empty : (empty : OrderedMap κ ν).keys = [] := rfl

omit [DecidableEq κ] in
theorem keys_nodup (m : OrderedMap κ ν) : m.keys.Nodup := m.nodup

theorem find_put (k j : κ) (v : ν) (es : List (κ × ν)) :
    find j (put k v es) = if j = k then (find j es).map (fun _ => v) else find j es := by
  induction es with
  | nil => simp [put, find]
  | cons e es ih =>
      simp only [put, List.map_cons] at ih ⊢
      by_cases hk : e.1 = k
      · by_cases hj : j = k
        · simp [find, hk, hj]
        · have hne : ¬ k = j := fun h => hj h.symm
          simp [find, hk, hj, hne, ih]
      · by_cases hj : e.1 = j
        · have hne : ¬ j = k := fun h => hk (hj.trans h)
          simp [find, hj, hne]
        · by_cases hjk : j = k
          · subst hjk
            simpa [find, hj] using ih
          · simpa [find, hk, hj, hjk] using ih

theorem find_append (j : κ) (es fs : List (κ × ν)) :
    find j (es ++ fs) = (find j es).or (find j fs) := by
  induction es with
  | nil => simp [find]
  | cons e es ih =>
      by_cases h : e.1 = j <;> simp [find, h, ih]

theorem get?_set (m : OrderedMap κ ν) (k j : κ) (v : ν) :
    (m.set k v).get? j = if j = k then some v else m.get? j := by
  unfold set
  split
  · rename_i h
    obtain ⟨w, hw⟩ := mem_keys.mp h
    simp only [get?, find_put] at hw ⊢
    split
    · subst_vars
      simp [hw]
    · rfl
  · rename_i h
    rw [← get?_eq_none] at h
    simp only [get?, find_append] at h ⊢
    by_cases hj : j = k
    · subst hj
      simp [h, find]
    · have hne : ¬ k = j := fun h => hj h.symm
      simp [find, hj, hne]

@[simp] theorem get?_set_self (m : OrderedMap κ ν) (k : κ) (v : ν) :
    (m.set k v).get? k = some v := by
  simp [get?_set]

theorem get?_set_of_ne (m : OrderedMap κ ν) (v : ν) (h : j ≠ k) :
    (m.set k v).get? j = m.get? j := by
  simp [get?_set, h]

theorem get?_erase (m : OrderedMap κ ν) (k j : κ) :
    (m.erase k).get? j = if j = k then none else m.get? j := by
  obtain ⟨es, hn⟩ := m
  simp only [get?, erase]
  clear hn
  induction es with
  | nil => simp [find]
  | cons e es ih =>
      by_cases hk : e.1 = k
      · by_cases hj : j = k
        · simp only [hj, if_true] at ih
          simp [hk, hj, ih]
        · have hne : ¬ k = j := fun h => hj h.symm
          simp only [hj, if_false] at ih
          simp [find, hk, hj, hne, ih]
      · by_cases hj : e.1 = j
        · have hne : ¬ j = k := fun h => hk (hj.trans h)
          simp [find, hj, hne]
        · simpa [find, hk, hj] using ih

@[simp] theorem get?_erase_self (m : OrderedMap κ ν) (k : κ) : (m.erase k).get? k = none := by
  simp [get?_erase]

theorem get?_erase_of_ne (m : OrderedMap κ ν) (h : j ≠ k) : (m.erase k).get? j = m.get? j := by
  simp [get?_erase, h]

theorem keys_erase (m : OrderedMap κ ν) (k : κ) : (m.erase k).keys = m.keys.filter (· ≠ k) := by
  simp [keys, erase, List.filter_map, Function.comp_def]

theorem mem_keys_erase : j ∈ (m.erase k).keys ↔ j ∈ m.keys ∧ j ≠ k := by
  simp [keys_erase]

theorem mem_keys_set : j ∈ (m.set k v).keys ↔ j = k ∨ j ∈ m.keys := by
  rw [mem_keys, mem_keys, get?_set]
  split
  · simp [*]
  · simp [*]

theorem keys_set_of_mem (h : k ∈ m.keys) : (m.set k v).keys = m.keys := by
  unfold set
  rw [dif_pos h]
  exact map_fst_put k v m.entries

theorem entries_set_of_not_mem (h : k ∉ m.keys) : (m.set k v).entries = m.entries ++ [(k, v)] := by
  simp [set, h]

theorem erase_of_not_mem (h : k ∉ m.keys) : m.erase k = m := by
  obtain ⟨es, hn⟩ := m
  simp only [erase, mk.injEq, List.filter_eq_self]
  intro e he
  obtain ⟨j, v⟩ := e
  rw [Bool.not_eq_true', decide_eq_false_iff_not]
  intro heq
  subst heq
  exact h (List.mem_map_of_mem (f := Prod.fst) he)

omit [DecidableEq κ] in
@[simp] theorem size_keys (m : OrderedMap κ ν) : m.keys.length = m.size := by
  simp [keys, size]

/-! ## Changing every value -/

omit [DecidableEq κ] in
theorem map_fst_mapValues {μ : Type w} (f : ν → μ) (es : List (κ × ν)) :
    (es.map fun e => (e.1, f e.2)).map Prod.fst = es.map Prod.fst := by
  rw [List.map_map]
  rfl

/-- The same keys with other values. -/
def mapValues {μ : Type w} (f : ν → μ) (m : OrderedMap κ ν) : OrderedMap κ μ :=
  ⟨m.entries.map fun e => (e.1, f e.2), (map_fst_mapValues f m.entries).symm ▸ m.nodup⟩

theorem get?_mapValues {μ : Type w} (f : ν → μ) (m : OrderedMap κ ν) (k : κ) :
    (m.mapValues f).get? k = (m.get? k).map f := by
  obtain ⟨es, hn⟩ := m
  simp only [get?, mapValues]
  clear hn
  induction es with
  | nil => rfl
  | cons e es ih =>
      by_cases hk : e.1 = k
      · simp [find, hk]
      · simpa [find, hk] using ih

omit [DecidableEq κ] in
theorem keys_mapValues {μ : Type w} (f : ν → μ) (m : OrderedMap κ ν) :
    (m.mapValues f).keys = m.keys :=
  map_fst_mapValues f m.entries

/-! ## Counting values -/

/-- How many values satisfy `p`. -/
def count (m : OrderedMap κ ν) (p : ν → Bool) : Nat := m.values.countP p

theorem countP_find (p : ν → Bool) (hn : (es.map Prod.fst).Nodup) (h : find k es = some v) :
    (es.map Prod.snd).countP p =
      ((es.filter fun e => !decide (e.1 = k)).map Prod.snd).countP p + if p v then 1 else 0 := by
  induction es with
  | nil => simp [find] at h
  | cons e es ih =>
      obtain ⟨hhead, htail⟩ := List.nodup_cons.mp hn
      by_cases hk : e.1 = k
      · subst hk
        simp only [find, if_true, Option.some.injEq] at h
        subst h
        have hkeep : es.filter (fun x => !decide (x.1 = e.1)) = es := by
          refine List.filter_eq_self.mpr fun x hx => ?_
          rw [Bool.not_eq_true', decide_eq_false_iff_not]
          intro hxe
          exact hhead (hxe ▸ List.mem_map_of_mem (f := Prod.fst) hx)
        simp only [List.map_cons, List.countP_cons, decide_true, Bool.not_true,
          Bool.false_eq_true, not_false_eq_true, List.filter_cons_of_neg, hkeep]
      · simp only [find, hk, if_false] at h
        have hrest := ih htail h
        simp only [List.map_cons, List.countP_cons, hk, decide_false, Bool.not_false,
          List.filter_cons_of_pos, hrest]
        omega

theorem countP_put (p : ν → Bool) (hn : (es.map Prod.fst).Nodup) (h : k ∈ es.map Prod.fst) :
    ((put k v es).map Prod.snd).countP p =
      ((es.filter fun e => !decide (e.1 = k)).map Prod.snd).countP p + if p v then 1 else 0 := by
  have hfind : find k (put k v es) = some v := by
    rw [find_put, if_pos rfl]
    cases hf : find k es with
    | none => exact absurd h (find_eq_none.mp hf)
    | some w => rfl
  have hkeys : ((put k v es).map Prod.fst).Nodup := by
    rw [map_fst_put]
    exact hn
  rw [countP_find p hkeys hfind]
  have hrest : (put k v es).filter (fun e => !decide (e.1 = k)) =
      es.filter fun e => !decide (e.1 = k) := by
    clear hn h hfind hkeys
    induction es with
    | nil => rfl
    | cons e es ih =>
        simp only [put, List.map_cons] at ih ⊢
        by_cases hk : e.1 = k <;> simp [hk, ih]
  rw [hrest]

/-- Erasing a key removes its value from every count. -/
theorem count_erase (p : ν → Bool) (h : m.get? k = some v) :
    m.count p = (m.erase k).count p + if p v then 1 else 0 :=
  countP_find p m.nodup h

/-- Setting a key counts the new value beside the other keys' values. -/
theorem count_set (m : OrderedMap κ ν) (k : κ) (v : ν) (p : ν → Bool) :
    (m.set k v).count p = (m.erase k).count p + if p v then 1 else 0 := by
  by_cases h : k ∈ m.keys
  · unfold set
    rw [dif_pos h]
    exact countP_put p m.nodup h
  · rw [erase_of_not_mem h]
    simp only [count, values, entries_set_of_not_mem h, List.map_append, List.countP_append,
      List.map_cons, List.map_nil, List.countP_singleton]

theorem count_erase_le (m : OrderedMap κ ν) (k : κ) (p : ν → Bool) :
    (m.erase k).count p ≤ m.count p := by
  cases h : m.get? k with
  | none => exact Nat.le_of_eq (by rw [erase_of_not_mem (get?_eq_none.mp h)])
  | some v => rw [count_erase p h]; omega

/-- A value replaced by one of the same kind leaves the count as it was. -/
theorem count_set_of_get? {w : ν} (p : ν → Bool) (h : m.get? k = some w) (hp : p v = p w) :
    (m.set k v).count p = m.count p := by
  rw [count_set, count_erase p h, hp]

omit [DecidableEq κ] in
theorem size_eq_count (m : OrderedMap κ ν) : m.size = m.count fun _ => true := by
  simp [size, count, values]

/-- Counted are the keys whose value is one of `p`. -/
theorem count_eq_length (m : OrderedMap κ ν) (p : ν → Bool) :
    m.count p = (m.keys.filter fun k => (m.get? k).any p).length := by
  unfold count values keys
  rw [List.countP_map, List.filter_map, List.length_map, List.countP_eq_length_filter]
  congr 1
  apply List.filter_congr
  intro e he
  have hfind : m.get? e.1 = some e.2 := (get?_eq_some (m := m)).mpr he
  simp [Function.comp_apply, hfind]

/-! ## Groups -/

/-- The values of the items under the key of each, in their order. -/
def collectBy {α : Type v} {γ : Type v} (key : α → Option κ) (value : α → γ) (items : List α) :
    OrderedMap κ (List γ) :=
  items.foldl (fun m a =>
    match key a with
    | none => m
    | some k => m.set k ((m.get? k).getD [] ++ [value a])) empty

/-- The items under the key of each, in their order. -/
def collect {α : Type v} (key : α → Option κ) (items : List α) : OrderedMap κ (List α) :=
  collectBy key id items

theorem get?_collectBy {α γ : Type v} (key : α → Option κ) (value : α → γ) (items : List α)
    (k : κ) :
    (collectBy key value items).get? k =
      if (items.filter fun a => key a = some k) = [] then none
      else some ((items.filter fun a => key a = some k).map value) := by
  unfold collectBy
  induction items using List.reverseRecOn with
  | nil => rfl
  | append_singleton items a ih =>
      rw [List.foldl_append, List.foldl_cons, List.foldl_nil, List.filter_append]
      generalize items.foldl _ empty = m at ih ⊢
      cases hkey : key a with
      | none => simpa [hkey] using ih
      | some j =>
          by_cases heq : k = j
          · subst heq
            by_cases hempty : (items.filter fun a => decide (key a = some k)) = []
            · simp only [hempty, if_true] at ih
              simp [ih, hempty, hkey]
            · rw [if_neg hempty] at ih
              simp [ih, hkey]
          · rw [get?_set_of_ne m _ heq]
            simpa [hkey, Ne.symm heq] using ih

theorem get?_collect {α : Type v} (key : α → Option κ) (items : List α) (k : κ) :
    (collect key items).get? k =
      if (items.filter fun a => key a = some k) = [] then none
      else some (items.filter fun a => key a = some k) := by
  unfold collect
  rw [get?_collectBy, List.map_id]

/-- What a key has collected, nothing where it is missing. -/
theorem getD_collectBy {α γ : Type v} (key : α → Option κ) (value : α → γ) (items : List α)
    (k : κ) :
    ((collectBy key value items).get? k).getD [] =
      (items.filter fun a => key a = some k).map value := by
  rw [get?_collectBy]
  split
  · next hempty =>
      rw [hempty]
      rfl
  · rfl

theorem mem_keys_collect {α : Type v} {key : α → Option κ} {items : List α} :
    k ∈ (collect key items).keys ↔ ∃ a ∈ items, key a = some k := by
  rw [mem_keys, get?_collect]
  split
  · next hempty =>
      rw [List.filter_eq_nil_iff] at hempty
      simpa using hempty
  · next hne =>
      obtain ⟨a, ha⟩ := List.exists_mem_of_ne_nil _ hne
      rw [List.mem_filter, decide_eq_true_eq] at ha
      exact iff_of_true ⟨_, rfl⟩ ⟨a, ha.1, ha.2⟩

/-! ## Maps from maps -/

/-- The map of a list of entries; of equal keys the last counts. -/
def setAll (m : OrderedMap κ ν) (es : List (κ × ν)) : OrderedMap κ ν :=
  es.foldl (fun m e => m.set e.1 e.2) m

def ofList (es : List (κ × ν)) : OrderedMap κ ν := empty.setAll es

/-- The entries of `m` with those of `other` over them. -/
def overlay (m other : OrderedMap κ ν) : OrderedMap κ ν := m.setAll other.entries

theorem get?_setAll (hn : (es.map Prod.fst).Nodup) :
    ∀ m : OrderedMap κ ν, (m.setAll es).get? k = (find k es).or (m.get? k) := by
  induction es with
  | nil => exact fun _ => rfl
  | cons e es ih =>
      intro m
      obtain ⟨hhead, htail⟩ := List.nodup_cons.mp hn
      have hrest : (m.setAll (e :: es)).get? k = (find k es).or ((m.set e.1 e.2).get? k) :=
        ih htail (m.set e.1 e.2)
      rw [hrest, get?_set]
      by_cases hk : e.1 = k
      · subst hk
        rw [find_eq_none.mpr hhead]
        simp [find]
      · have hne : ¬ k = e.1 := fun heq => hk heq.symm
        simp [find, hk, hne]

theorem get?_overlay (m other : OrderedMap κ ν) (k : κ) :
    (m.overlay other).get? k = (other.get? k).or (m.get? k) :=
  get?_setAll other.nodup m

/-- Of equal keys the last counts. -/
theorem get?_ofList (es : List (κ × ν)) (k : κ) : (ofList es).get? k = find k es.reverse := by
  have hall : ∀ m : OrderedMap κ ν, (m.setAll es).get? k = (find k es.reverse).or (m.get? k) := by
    induction es with
    | nil => exact fun _ => rfl
    | cons e es ih =>
        intro m
        have hrest : (m.setAll (e :: es)).get? k =
            (find k es.reverse).or ((m.set e.1 e.2).get? k) := ih (m.set e.1 e.2)
        rw [hrest, get?_set, List.reverse_cons, find_append, Option.or_assoc]
        by_cases hk : e.1 = k
        · simp [find, hk]
        · have hne : ¬ k = e.1 := fun heq => hk heq.symm
          simp [find, hk, hne]
  exact (hall empty).trans (Option.or_none)

theorem find_eq_head? (k : κ) (es : List (κ × ν)) :
    find k es = (es.filter fun e => e.1 = k).head?.map Prod.snd := by
  induction es with
  | nil => rfl
  | cons e es ih => by_cases h : e.1 = k <;> simp [find, h, ih]

theorem get?_ofList_eq_getLast? (es : List (κ × ν)) (k : κ) :
    (ofList es).get? k = (es.filter fun e => e.1 = k).getLast?.map Prod.snd := by
  rw [get?_ofList, find_eq_head?, List.filter_reverse, List.head?_reverse]

/-- Rows under their own keys: the last row with the key. -/
theorem get?_ofList_map (key : ν → κ) (rows : List ν) (k : κ) :
    (ofList (rows.map fun row => (key row, row))).get? k =
      (rows.filter fun row => key row = k).getLast? := by
  rw [get?_ofList_eq_getLast?, List.filter_map, List.getLast?_map, Option.map_map]
  exact congrFun Option.map_id _

theorem mem_keys_setAll :
    ∀ m : OrderedMap κ ν, k ∈ (m.setAll es).keys ↔ k ∈ es.map Prod.fst ∨ k ∈ m.keys := by
  induction es with
  | nil => simp [setAll]
  | cons e es ih =>
      intro m
      have hstep := ih (m.set e.1 e.2)
      rw [mem_keys_set] at hstep
      rw [List.map_cons, List.mem_cons]
      exact hstep.trans (by tauto)

theorem mem_keys_ofList : k ∈ (ofList es).keys ↔ k ∈ es.map Prod.fst := by
  unfold ofList
  rw [mem_keys_setAll, keys_empty]
  simp

/-- Change the values, and drop those that become none. -/
def filterMap {μ : Type v} (m : OrderedMap κ ν) (f : κ → ν → Option μ) : OrderedMap κ μ where
  entries := m.entries.filterMap fun e => (f e.1 e.2).map fun value => (e.1, value)
  nodup := by
    have hkeys : m.entries.Pairwise fun a b => a.1 ≠ b.1 := List.pairwise_map.mp m.nodup
    unfold List.Nodup
    rw [List.pairwise_map, List.pairwise_filterMap]
    apply hkeys.imp
    intro a b hne x hx y hy
    obtain ⟨_, _, rfl⟩ := Option.map_eq_some_iff.mp hx
    obtain ⟨_, _, rfl⟩ := Option.map_eq_some_iff.mp hy
    exact hne

theorem get?_filterMap {μ : Type v} (m : OrderedMap κ ν) (f : κ → ν → Option μ) (k : κ) :
    (m.filterMap f).get? k = (m.get? k).bind (f k) := by
  rw [Option.ext_iff]
  intro value
  rw [get?_eq_some, Option.bind_eq_some_iff]
  dsimp only [filterMap]
  rw [List.mem_filterMap]
  constructor
  · intro h
    obtain ⟨e, he, hvalue⟩ := h
    obtain ⟨found, hfound, heq⟩ := Option.map_eq_some_iff.mp hvalue
    cases heq
    exact ⟨e.2, get?_eq_some.mpr he, hfound⟩
  · intro h
    obtain ⟨old, hold, hvalue⟩ := h
    exact ⟨(k, old), get?_eq_some.mp hold, by rw [hvalue]; rfl⟩

/-! ## Maps related key by key -/

/-- Two maps with the same keys in the same order, and related values. -/
def Related {μ : Type v} (R : κ → ν → μ → Prop) (m : OrderedMap κ ν) (m' : OrderedMap κ μ) : Prop :=
  List.Forall₂ (fun e e' => e.1 = e'.1 ∧ R e.1 e.2 e'.2) m.entries m'.entries

section Related

variable {μ : Type v} {R : κ → ν → μ → Prop} {m : OrderedMap κ ν} {m' : OrderedMap κ μ}

omit [DecidableEq κ] in
theorem Related.keys (h : Related R m m') : m.keys = m'.keys := by
  obtain ⟨es, hn⟩ := m
  obtain ⟨es', hn'⟩ := m'
  unfold OrderedMap.keys
  unfold Related at h
  dsimp only at h ⊢
  clear hn hn'
  induction h with
  | nil => rfl
  | cons hhead _ ih => rw [List.map_cons, List.map_cons, hhead.1, ih]

theorem find_related {es' : List (κ × μ)} (k : κ)
    (h : List.Forall₂ (fun e e' => e.1 = e'.1 ∧ R e.1 e.2 e'.2) es es') :
    (find k es = none ∧ find k es' = none) ∨
      ∃ v v', find k es = some v ∧ find k es' = some v' ∧ R k v v' := by
  induction h with
  | nil => exact Or.inl ⟨rfl, rfl⟩
  | @cons e e' es es' hhead _ ih =>
      simp only [find]
      rw [← hhead.1]
      by_cases hk : e.1 = k
      · rw [if_pos hk, if_pos hk]
        exact Or.inr ⟨e.2, e'.2, rfl, rfl, hk ▸ hhead.2⟩
      · rw [if_neg hk, if_neg hk]
        exact ih

theorem Related.get? (h : Related R m m') (k : κ) :
    (m.get? k = none ∧ m'.get? k = none) ∨
      ∃ v v', m.get? k = some v ∧ m'.get? k = some v' ∧ R k v v' :=
  find_related k h

theorem Related.set (h : Related R m m') {v' : μ} (hv : R k v v') :
    Related R (m.set k v) (m'.set k v') := by
  unfold Related OrderedMap.set
  by_cases hk : k ∈ m.keys
  · have hk' : k ∈ m'.keys := h.keys ▸ hk
    rw [dif_pos hk, dif_pos hk']
    dsimp only [put]
    rw [List.forall₂_map_left_iff, List.forall₂_map_right_iff]
    apply h.imp
    intro e e' he
    rw [← he.1]
    split
    · exact ⟨rfl, hv⟩
    · exact he
  · have hk' : k ∉ m'.keys := h.keys ▸ hk
    rw [dif_neg hk, dif_neg hk']
    exact List.rel_append h (List.Forall₂.cons ⟨rfl, hv⟩ List.Forall₂.nil)

omit [DecidableEq κ] in
/-- What is the same of related values makes the same map. -/
theorem Related.filterMap_eq (h : Related R m m') {γ : Type v} {f : κ → ν → Option γ}
    {g : κ → μ → Option γ} (hfg : ∀ k v v', R k v v' → f k v = g k v') :
    m.filterMap f = m'.filterMap g := by
  obtain ⟨es, hn⟩ := m
  obtain ⟨es', hn'⟩ := m'
  unfold OrderedMap.filterMap
  rw [mk.injEq]
  unfold Related at h
  dsimp only at h ⊢
  clear hn hn'
  induction h with
  | nil => rfl
  | cons hhead _ ih =>
      rw [List.filterMap_cons, List.filterMap_cons, ih, ← hhead.1, hfg _ _ _ hhead.2]

omit [DecidableEq κ] in
theorem Related.filterMap {γ δ : Type v} {S : κ → γ → δ → Prop} (h : Related R m m')
    {f : κ → ν → γ} {g : κ → μ → δ} (hfg : ∀ k v v', R k v v' → S k (f k v) (g k v')) :
    Related S (m.filterMap fun k v => some (f k v)) (m'.filterMap fun k v => some (g k v)) := by
  obtain ⟨es, hn⟩ := m
  obtain ⟨es', hn'⟩ := m'
  unfold Related OrderedMap.filterMap
  unfold Related at h
  dsimp only at h ⊢
  clear hn hn'
  induction h with
  | nil => exact List.Forall₂.nil
  | @cons e e' es es' hhead _ ih =>
      have hvalues : S e.1 (f e.1 e.2) (g e'.1 e'.2) := hhead.1 ▸ hfg e.1 e.2 e'.2 hhead.2
      exact List.Forall₂.cons ⟨hhead.1, hvalues⟩ ih

end Related

end OrderedMap

end Sinnlos

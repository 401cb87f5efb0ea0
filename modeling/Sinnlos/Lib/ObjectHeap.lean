import Mathlib.Data.List.Nodup
import Mathlib.Data.List.Forall2
import Sinnlos.Lib.Json

/-! # Objects by reference

A finite heap of arrays and records as a program with references sees it, and the
trees that lie in it: data in which no object is held twice.
-/

namespace Sinnlos.ObjectHeap

inductive Scalar
  | null
  | bool (value : Bool)
  | num (value : Rat)
  | str (value : String)
deriving DecidableEq

inductive Value (n : Nat)
  | scalar (scalar : Scalar)
  | ref (address : Fin n)
deriving DecidableEq

inductive Object (n : Nat)
  | array (items : List (Value n))
  | record (fields : List (String × Value n))
deriving DecidableEq

abbrev Heap (n : Nat) : Type := Fin n → Object n

/-- The first value under a key. -/
def lookup {ν : Type} (key : String) (fields : List (String × ν)) : Option ν :=
  (fields.find? fun field => field.1 == key).map Prod.snd

/-- The property of an object; an array has no named ones. -/
def Object.property? {n : Nat} (key : String) : Object n → Option (Value n)
  | .array _ => none
  | .record fields => lookup key fields

variable {key : String}

theorem mem_of_lookup {ν : Type} {fields : List (String × ν)} {value : ν}
    (h : lookup key fields = some value) : (key, value) ∈ fields := by
  unfold lookup at h
  obtain ⟨field, hfind, hvalue⟩ := Option.map_eq_some_iff.mp h
  have hfound := List.find?_some hfind
  rw [← eq_of_beq hfound, ← hvalue]
  exact List.mem_of_find?_eq_some hfind

theorem lookup_eq_none {ν : Type} {fields : List (String × ν)} :
    lookup key fields = none ↔ key ∉ fields.map Prod.fst := by
  unfold lookup
  rw [Option.map_eq_none_iff, List.find?_eq_none, List.mem_map]
  simp only [beq_iff_eq, not_exists, not_and]

theorem lookup_map {ν μ : Type} (f : String → ν → μ) (key : String) (fields : List (String × ν)) :
    lookup key (fields.map fun field => (field.1, f field.1 field.2)) =
      (lookup key fields).map (f key) := by
  induction fields with
  | nil => rfl
  | cons field fields ih =>
      by_cases h : field.1 = key
      · simp [lookup, h]
      · have hne : (field.1 == key) = false := beq_false_of_ne h
        simpa [lookup, hne] using ih

theorem lookup_map_value {ν μ : Type} (f : ν → μ) (key : String) (fields : List (String × ν)) :
    lookup key (fields.map fun field => (field.1, f field.2)) = (lookup key fields).map f :=
  lookup_map (fun _ => f) key fields

theorem lookup_filter {ν : Type} (keeps : String → Bool) (key : String)
    (fields : List (String × ν)) :
    lookup key (fields.filter fun field => keeps field.1) =
      if keeps key then lookup key fields else none := by
  induction fields with
  | nil => simp [lookup]
  | cons field fields ih =>
      by_cases h : field.1 = key
      · cases hkeeps : keeps key with
        | true => simp [lookup, h, hkeeps]
        | false =>
            rw [List.filter_cons, h, hkeeps, if_neg Bool.false_ne_true, ih, hkeeps]
            rfl
      · have hne : (field.1 == key) = false := beq_false_of_ne h
        have hskip : lookup key (field :: fields) = lookup key fields := by
          simp [lookup, hne]
        rw [hskip, ← ih, List.filter_cons]
        split
        · simp [lookup, hne]
        · rfl

/-! ## Trees -/

/-- A tree of data; every array and every record has a label. -/
inductive DataTree (α : Type)
  | scalar (scalar : Scalar)
  | array (label : α) (items : List (DataTree α))
  | record (label : α) (fields : List (String × DataTree α))

namespace DataTree

variable {α : Type}

/-- Induction on a tree, with the hypothesis for every item and every field. -/
theorem induct {P : DataTree α → Prop} (scalar : ∀ s, P (.scalar s))
    (array : ∀ label items, (∀ t ∈ items, P t) → P (.array label items))
    (record : ∀ label fields, (∀ field ∈ fields, P field.2) → P (.record label fields)) :
    ∀ t, P t := by
  intro t
  refine DataTree.rec (motive_1 := P) (motive_2 := fun items => ∀ t ∈ items, P t)
    (motive_3 := fun fields => ∀ field ∈ fields, P field.2)
    (motive_4 := fun field => P field.2) scalar array record ?_ ?_ ?_ ?_ ?_ t
  · exact fun t h => absurd h List.not_mem_nil
  · intro t items ht hitems t' h
    rcases List.mem_cons.mp h with heq | hmem
    · exact heq ▸ ht
    · exact hitems t' hmem
  · exact fun t h => absurd h List.not_mem_nil
  · intro field fields hfield hfields field' h
    rcases List.mem_cons.mp h with heq | hmem
    · exact heq ▸ hfield
    · exact hfields field' hmem
  · exact fun _ _ h => h

/-! ## Trees as JSON -/

def scalarJson : Scalar → Json
  | .null => .null
  | .bool value => .bool value
  | .num value => .num value
  | .str value => .str value

mutual

/-- A tree as JSON text shows it: without the labels. -/
def json : DataTree α → Json
  | .scalar s => scalarJson s
  | .array _ items => .arr (jsonItems items)
  | .record _ fields => .obj (jsonFields fields)

def jsonItems : List (DataTree α) → List Json
  | [] => []
  | t :: items => json t :: jsonItems items

def jsonFields : List (String × DataTree α) → List (String × Json)
  | [] => []
  | (key, t) :: fields => (key, json t) :: jsonFields fields

end

theorem jsonItems_eq (items : List (DataTree α)) : jsonItems items = items.map json := by
  induction items with
  | nil => rfl
  | cons t items ih => rw [jsonItems, ih, List.map_cons]

theorem jsonFields_eq (fields : List (String × DataTree α)) :
    jsonFields fields = fields.map fun field => (field.1, json field.2) := by
  induction fields with
  | nil => rfl
  | cons field fields ih => rw [jsonFields, ih, List.map_cons]

/-! ## What a path shows -/

inductive PathStep
  | item (index : Nat)
  | key (key : String)
deriving DecidableEq

/-- A value without what lies in it. -/
inductive Shape
  | scalar (scalar : Scalar)
  | items (count : Nat)
  | keys (keys : List String)
deriving DecidableEq

def shape : DataTree α → Shape
  | .scalar s => .scalar s
  | .array _ items => .items items.length
  | .record _ fields => .keys (fields.map Prod.fst)

def shapeAt : DataTree α → List PathStep → Option Shape
  | t, [] => some t.shape
  | .array _ items, .item i :: path => items[i]?.bind fun t => shapeAt t path
  | .record _ fields, .key key :: path => (lookup key fields).bind fun t => shapeAt t path
  | _, _ => none

/-- No record has a key twice. -/
inductive Keyed : DataTree α → Prop
  | scalar (s : Scalar) : Keyed (.scalar s)
  | array {label : α} {items : List (DataTree α)} (items_keyed : ∀ t ∈ items, Keyed t) :
      Keyed (.array label items)
  | record {label : α} {fields : List (String × DataTree α)} (nodup : (fields.map Prod.fst).Nodup)
      (fields_keyed : ∀ field ∈ fields, Keyed field.2) : Keyed (.record label fields)

theorem lookup_of_mem {ν : Type} {key : String} {value : ν} {fields : List (String × ν)}
    (nodup : (fields.map Prod.fst).Nodup) (hmem : (key, value) ∈ fields) :
    lookup key fields = some value := by
  cases h : lookup key fields with
  | none =>
      rw [lookup_eq_none] at h
      exact absurd (List.mem_map_of_mem hmem) h
  | some other =>
      have hpair := List.inj_on_of_nodup_map nodup (mem_of_lookup h) hmem rfl
      exact congrArg some (congrArg Prod.snd hpair)

/-- Trees that show the same on every path are the same JSON. -/
theorem json_eq_of_shapeAt {β : Type} (t : DataTree α) : ∀ t' : DataTree β, t.Keyed → t'.Keyed →
    (∀ path, t.shapeAt path = t'.shapeAt path) → t.json = t'.json := by
  induction t using DataTree.induct with
  | scalar s =>
      intro t' _ _ same
      have hshape := same []
      cases t' with
      | scalar s' =>
          simp only [shapeAt, shape, Option.some.injEq, Shape.scalar.injEq] at hshape
          rw [hshape, json, json]
      | array _ _ | record _ _ => simp [shapeAt, shape] at hshape
  | array label items ih =>
      intro t' keyed keyed' same
      have hshape := same []
      cases t' with
      | scalar _ | record _ _ => simp [shapeAt, shape] at hshape
      | array label' items' =>
          cases keyed with
          | array hkeyed =>
              cases keyed' with
              | array hkeyed' =>
                  simp only [shapeAt, shape, Option.some.injEq, Shape.items.injEq] at hshape
                  rw [json, json, jsonItems_eq, jsonItems_eq]
                  congr 1
                  apply List.ext_getElem
                  · simpa using hshape
                  · intro i hi hi'
                    rw [List.length_map] at hi hi'
                    rw [List.getElem_map, List.getElem_map]
                    apply ih _ (List.getElem_mem hi) _ (hkeyed _ (List.getElem_mem hi))
                      (hkeyed' _ (List.getElem_mem hi'))
                    intro path
                    have hpath := same (.item i :: path)
                    simpa [shapeAt, List.getElem?_eq_getElem hi, List.getElem?_eq_getElem hi']
                      using hpath
  | record label fields ih =>
      intro t' keyed keyed' same
      have hshape := same []
      cases t' with
      | scalar _ | array _ _ => simp [shapeAt, shape] at hshape
      | record label' fields' =>
          cases keyed with
          | record hnodup hkeyed =>
              cases keyed' with
              | record hnodup' hkeyed' =>
                  simp only [shapeAt, shape, Option.some.injEq, Shape.keys.injEq] at hshape
                  have hlength : fields.length = fields'.length := by
                    simpa using congrArg List.length hshape
                  rw [json, json, jsonFields_eq, jsonFields_eq]
                  congr 1
                  apply List.ext_getElem
                  · simpa using hlength
                  · intro i hi hi'
                    rw [List.length_map] at hi hi'
                    rw [List.getElem_map, List.getElem_map]
                    have hkey : fields[i].1 = fields'[i].1 := by
                      have hget := congrArg (fun keys => keys[i]?) hshape
                      simpa [hi, hi'] using hget
                    rw [Prod.mk.injEq]
                    refine ⟨hkey, ?_⟩
                    apply ih _ (List.getElem_mem hi) _ (hkeyed _ (List.getElem_mem hi))
                      (hkeyed' _ (List.getElem_mem hi'))
                    intro path
                    have hpath := same (.key fields[i].1 :: path)
                    have hlookup : lookup fields[i].1 fields = some fields[i].2 :=
                      lookup_of_mem hnodup (List.getElem_mem hi)
                    have hlookup' : lookup fields[i].1 fields' = some fields'[i].2 := by
                      rw [hkey]
                      exact lookup_of_mem hnodup' (List.getElem_mem hi')
                    simpa [shapeAt, hlookup, hlookup'] using hpath

/-! ## Trees in a heap -/

section Laid
variable {n : Nat}

/-- How a tree is held. -/
def value : DataTree (Fin n) → Value n
  | .scalar s => .scalar s
  | .array a _ => .ref a
  | .record a _ => .ref a

mutual

/-- The objects of a tree with their addresses. -/
def nodes : DataTree (Fin n) → List (Fin n × Object n)
  | .scalar _ => []
  | .array a items => (a, .array (items.map value)) :: nodesItems items
  | .record a fields =>
      (a, .record (fields.map fun field => (field.1, value field.2))) :: nodesFields fields

def nodesItems : List (DataTree (Fin n)) → List (Fin n × Object n)
  | [] => []
  | t :: items => nodes t ++ nodesItems items

def nodesFields : List (String × DataTree (Fin n)) → List (Fin n × Object n)
  | [] => []
  | (_, t) :: fields => nodes t ++ nodesFields fields

end

theorem nodesItems_eq (items : List (DataTree (Fin n))) : nodesItems items = items.flatMap nodes := by
  induction items with
  | nil => rfl
  | cons t items ih => rw [nodesItems, ih, List.flatMap_cons]

theorem nodesFields_eq (fields : List (String × DataTree (Fin n))) :
    nodesFields fields = fields.flatMap fun field => nodes field.2 := by
  induction fields with
  | nil => rfl
  | cons field fields ih => rw [nodesFields, ih, List.flatMap_cons]

/-- The addresses of a tree. -/
def footprint (t : DataTree (Fin n)) : List (Fin n) := t.nodes.map Prod.fst

/-- The heap holds a tree, and no address of it twice. -/
structure Laid (heap : Heap n) (t : DataTree (Fin n)) : Prop where
  holds : ∀ node ∈ t.nodes, heap node.1 = node.2
  nodup : t.footprint.Nodup

variable {heap : Heap n} {a : Fin n} {t : DataTree (Fin n)}

theorem Laid.frame {heap' : Heap n} (laid : Laid heap t)
    (same : ∀ a ∈ t.footprint, heap' a = heap a) : Laid heap' t where
  holds := fun node hnode => (same node.1 (List.mem_map_of_mem hnode)).trans (laid.holds node hnode)
  nodup := laid.nodup

theorem nodes_array (a : Fin n) (items : List (DataTree (Fin n))) :
    (array a items).nodes = (a, .array (items.map value)) :: items.flatMap nodes := by
  rw [nodes, nodesItems_eq]

theorem nodes_record (a : Fin n) (fields : List (String × DataTree (Fin n))) :
    (record a fields).nodes =
      (a, .record (fields.map fun field => (field.1, value field.2))) ::
        (fields.map Prod.snd).flatMap nodes := by
  rw [nodes, nodesFields_eq, List.flatMap_map]

theorem footprint_array (a : Fin n) (items : List (DataTree (Fin n))) :
    (array a items).footprint = a :: items.flatMap footprint := by
  unfold footprint
  rw [nodes_array, List.map_cons, List.map_flatMap]

theorem footprint_record (a : Fin n) (fields : List (String × DataTree (Fin n))) :
    (record a fields).footprint = a :: (fields.map Prod.snd).flatMap footprint := by
  unfold footprint
  rw [nodes_record, List.map_cons, List.map_flatMap]

/-- Trees that a heap holds apart from each other. -/
structure Forest (heap : Heap n) (trees : List (DataTree (Fin n))) : Prop where
  laid : ∀ t ∈ trees, t.Laid heap
  apart : trees.Pairwise fun t t' => List.Disjoint t.footprint t'.footprint

theorem forest_iff {trees : List (DataTree (Fin n))} : Forest heap trees ↔
    (∀ node ∈ trees.flatMap nodes, heap node.1 = node.2) ∧ (trees.flatMap footprint).Nodup := by
  rw [List.nodup_flatMap]
  constructor
  · intro forest
    refine ⟨?_, fun t ht => (forest.laid t ht).nodup, forest.apart⟩
    intro node hnode
    obtain ⟨t, ht, hin⟩ := List.mem_flatMap.mp hnode
    exact (forest.laid t ht).holds node hin
  · intro h
    obtain ⟨holds, nodup, apart⟩ := h
    have hlaid (t : DataTree (Fin n)) (ht : t ∈ trees) : t.Laid heap := {
      holds := fun node hnode => holds node (List.mem_flatMap.mpr ⟨t, ht, hnode⟩)
      nodup := nodup t ht }
    exact ⟨hlaid, apart⟩

theorem laid_iff {object : Object n} {parts : List (DataTree (Fin n))}
    (hnodes : t.nodes = (a, object) :: parts.flatMap nodes) :
    t.Laid heap ↔
      heap a = object ∧ (∀ part ∈ parts, a ∉ part.footprint) ∧ Forest heap parts := by
  have hfootprint : t.footprint = a :: parts.flatMap footprint := by
    unfold footprint
    rw [hnodes, List.map_cons, List.map_flatMap]
  have hfresh : a ∉ parts.flatMap footprint ↔ ∀ part ∈ parts, a ∉ part.footprint := by
    simp only [List.mem_flatMap, not_exists, not_and]
  rw [forest_iff, ← hfresh]
  constructor
  · intro laid
    have hnodup := laid.nodup
    have hholds := laid.holds
    rw [hfootprint, List.nodup_cons] at hnodup
    rw [hnodes] at hholds
    exact ⟨hholds _ List.mem_cons_self, hnodup.1,
      fun node hnode => hholds node (List.mem_cons_of_mem _ hnode), hnodup.2⟩
  · intro h
    constructor
    · rw [hnodes]
      intro node hnode
      rcases List.mem_cons.mp hnode with heq | hrest
      · rw [heq]
        exact h.1
      · exact h.2.2.1 node hrest
    · rw [hfootprint, List.nodup_cons]
      exact ⟨h.2.1, h.2.2.2⟩

theorem laid_array {items : List (DataTree (Fin n))} :
    (array a items).Laid heap ↔
      heap a = .array (items.map value) ∧ (∀ t ∈ items, a ∉ t.footprint) ∧ Forest heap items :=
  laid_iff (nodes_array a items)

theorem laid_record {fields : List (String × DataTree (Fin n))} :
    (record a fields).Laid heap ↔
      heap a = .record (fields.map fun field => (field.1, value field.2)) ∧
        (∀ t ∈ fields.map Prod.snd, a ∉ t.footprint) ∧ Forest heap (fields.map Prod.snd) :=
  laid_iff (nodes_record a fields)

/-- Trees stay apart when their footprints shrink. -/
theorem apart_of_subset {ι : Type} {items : List ι} {before after : ι → DataTree (Fin n)}
    (apart : (items.map before).Pairwise fun t t' => List.Disjoint t.footprint t'.footprint)
    (within : ∀ item ∈ items, (after item).footprint ⊆ (before item).footprint) :
    (items.map after).Pairwise fun t t' => List.Disjoint t.footprint t'.footprint := by
  rw [List.pairwise_map] at apart ⊢
  apply apart.imp_of_mem
  intro item item' hitem hitem' hdisjoint a ha ha'
  exact hdisjoint (within item hitem ha) (within item' hitem' ha')

end Laid

end DataTree

end Sinnlos.ObjectHeap

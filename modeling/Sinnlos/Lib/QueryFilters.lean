import Sinnlos.Lib.Json
import Sinnlos.Lib.Sql

/-! # Filter objects

The condition that a tree of filters puts on a row. The properties of an object
and the items of an array restrict together; `$and`, `$or` and `$not` group and
negate. What a property of another name asks of the row is a parameter. A group
without a condition adds nothing to the statement.
-/

namespace Sinnlos.QueryFilters

open Sql (Truth conj holds)

/-- Its truth on a row, none where nothing is asked. -/
abbrev Condition := Option Truth

def disj (a b : Truth) : Truth := (conj (a.map (!·)) (b.map (!·))).map (!·)

/-- The conditions that ask something, put together. -/
def together (op : Truth → Truth → Truth) : List Condition → Condition
  | [] => none
  | none :: rest => together op rest
  | some truth :: rest =>
      match together op rest with
      | none => some truth
      | some other => some (op truth other)

def allOf (conditions : List Condition) : Condition := together conj conditions

def anyOf (conditions : List Condition) : Condition := together disj conditions

def negated (condition : Condition) : Condition := condition.map fun truth => truth.map (!·)

/-- The row stays in the result. -/
def kept (condition : Condition) : Bool := condition.all holds

theorem kept_allOf (conditions : List Condition) :
    kept (allOf conditions) = conditions.all kept := by
  unfold allOf
  induction conditions with
  | nil => rfl
  | cons condition rest ih =>
      cases condition with
      | none =>
          rw [together, ih]
          rfl
      | some truth =>
          rw [together, List.all_cons, ← ih]
          cases together conj rest with
          | none | some other => simp [kept]

mutual

/-- What a filter tree asks; a value that is no tree fails the statement. -/
def conditionOf (leaf : String → Json → Condition) : Json → Condition
  | .obj fields => allOf (ofFields leaf fields)
  | .arr items => allOf (ofItems leaf items)
  | _ => some (some false)

/-- What the property `key` of a filter asks. -/
def ofField (leaf : String → Json → Condition) (key : String) : Json → Condition
  | .arr items =>
      if key = "$and" then allOf (ofItems leaf items)
      else if key = "$or" then anyOf (ofItems leaf items)
      else if key = "$not" then negated (allOf (ofItems leaf items))
      else leaf key (.arr items)
  | .obj fields =>
      if key = "$not" then negated (allOf (ofFields leaf fields))
      else leaf key (.obj fields)
  | value => leaf key value

def ofFields (leaf : String → Json → Condition) : List (String × Json) → List Condition
  | [] => []
  | (key, value) :: rest => ofField leaf key value :: ofFields leaf rest

def ofItems (leaf : String → Json → Condition) : List Json → List Condition
  | [] => []
  | item :: rest => conditionOf leaf item :: ofItems leaf rest

end

variable {leaf : String → Json → Condition}

/-- A row kept by an object meets each of its properties. -/
theorem kept_field {fields : List (String × Json)} {key : String} {value : Json}
    (h : kept (conditionOf leaf (.obj fields)) = true)
    (hfield : Json.field? key fields = some value) :
    kept (ofField leaf key value) = true := by
  rw [conditionOf, kept_allOf] at h
  induction fields with
  | nil => cases hfield
  | cons field rest ih =>
      obtain ⟨name, own⟩ := field
      rw [ofFields, List.all_cons, Bool.and_eq_true] at h
      rw [Json.field?] at hfield
      split at hfield
      · rw [← Option.some.inj hfield, ← ‹name = key›]
        exact h.1
      · exact ih h.2 hfield

/-- A row kept by a list of filters is kept by each. -/
theorem kept_item {items : List Json} {item : Json}
    (h : (ofItems leaf items).all kept = true) (hitem : item ∈ items) :
    kept (conditionOf leaf item) = true := by
  induction items with
  | nil => cases hitem
  | cons first rest ih =>
      rw [ofItems, List.all_cons, Bool.and_eq_true] at h
      rcases List.mem_cons.mp hitem with rfl | hrest
      · exact h.1
      · exact ih h.2 hrest

end Sinnlos.QueryFilters

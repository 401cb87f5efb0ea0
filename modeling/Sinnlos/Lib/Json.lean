import Mathlib.Data.Rat.Defs

/-! # JSON values

Parsed JSON, its decidable equality and the accessors of a reader that takes
nothing for granted about the shape of what it got.
-/

namespace Sinnlos

inductive Json
  | null
  | bool (value : Bool)
  | num (value : Rat)
  | str (value : String)
  | arr (items : List Json)
  | obj (fields : List (String × Json))

namespace Json

mutual

def decEq : (a b : Json) → Decidable (a = b)
  | .null, .null => isTrue rfl
  | .bool a, .bool b => decidable_of_iff (a = b) (by rw [bool.injEq])
  | .num a, .num b => decidable_of_iff (a = b) (by rw [num.injEq])
  | .str a, .str b => decidable_of_iff (a = b) (by rw [str.injEq])
  | .arr a, .arr b => @decidable_of_iff _ (a = b) (by rw [arr.injEq]) (decEqItems a b)
  | .obj a, .obj b => @decidable_of_iff _ (a = b) (by rw [obj.injEq]) (decEqFields a b)
  | .null, .bool _ | .null, .num _ | .null, .str _ | .null, .arr _ | .null, .obj _
  | .bool _, .null | .bool _, .num _ | .bool _, .str _ | .bool _, .arr _ | .bool _, .obj _
  | .num _, .null | .num _, .bool _ | .num _, .str _ | .num _, .arr _ | .num _, .obj _
  | .str _, .null | .str _, .bool _ | .str _, .num _ | .str _, .arr _ | .str _, .obj _
  | .arr _, .null | .arr _, .bool _ | .arr _, .num _ | .arr _, .str _ | .arr _, .obj _
  | .obj _, .null | .obj _, .bool _ | .obj _, .num _ | .obj _, .str _ | .obj _, .arr _ =>
      isFalse nofun

def decEqItems : (a b : List Json) → Decidable (a = b)
  | [], [] => isTrue rfl
  | [], _ :: _ => isFalse nofun
  | _ :: _, [] => isFalse nofun
  | a :: as, b :: bs =>
      @decidable_of_iff _ (a = b ∧ as = bs) (by rw [List.cons.injEq])
        (@instDecidableAnd _ _ (decEq a b) (decEqItems as bs))

def decEqFields : (a b : List (String × Json)) → Decidable (a = b)
  | [], [] => isTrue rfl
  | [], _ :: _ => isFalse nofun
  | _ :: _, [] => isFalse nofun
  | (k, a) :: as, (l, b) :: bs =>
      @decidable_of_iff _ (k = l ∧ a = b ∧ as = bs)
        (by rw [List.cons.injEq, Prod.mk.injEq, and_assoc])
        (@instDecidableAnd _ _ (inferInstance)
          (@instDecidableAnd _ _ (decEq a b) (decEqFields as bs)))

end

instance : DecidableEq Json := decEq

/-- The properties of a value of type "object" that is not null; an array has
no named ones. -/
def fields? : Json → Option (List (String × Json))
  | obj fields => some fields
  | arr _ => some []
  | _ => none

/-- A property of a field list; none is `undefined`. -/
def field? (key : String) : List (String × Json) → Option Json
  | [] => none
  | f :: fs => if f.1 = key then some f.2 else field? key fs

/-- The property `key` of any value, none where there is no such property. -/
def get? (value : Json) (key : String) : Option Json := value.fields?.bind (field? key)

def str? : Json → Option String
  | str value => some value
  | _ => none

theorem field?_isSome_iff {key : String} {fields : List (String × Json)} :
    (field? key fields).isSome ↔ key ∈ fields.map Prod.fst := by
  induction fields with
  | nil => simp [field?]
  | cons f fs ih =>
      by_cases h : f.1 = key
      · simp [field?, h]
      · simp only [field?, h, if_false, ih, List.map_cons, List.mem_cons]
        constructor
        · exact Or.inr
        · intro hmem
          rcases hmem with heq | hrest
          · exact absurd heq.symm h
          · exact hrest

end Json

end Sinnlos

import Mathlib.Logic.Function.Basic
import Sinnlos.Lib.ObjectHeap
import Sinnlos.Lib.OrderedMap

/-! # Contact fields in the output

`apps/cms/src/utils/sanitize-user-contact.ts`: the response is changed in place,
object by object, with the schema at hand; and the tree that a response without
shared objects becomes.
-/

namespace Sinnlos.Cms.UserContact

open ObjectHeap (Heap Object Value Scalar DataTree lookup)

def USER_UID : String := "plugin::users-permissions.user"

def SENSITIVE_USER_FIELDS : List String :=
  ["email", "phone", "hireDate", "officeLocation", "microsoftOid"]

/-- What is left of a blocked user. -/
def BLOCKED_USER_FIELDS : List String :=
  ["id", "documentId", "displayName", "username", "blocked"]

structure AttributeSchema where
  type : Option String
  /-- The uid of a relation's target. -/
  target : Option String
  /-- The uid of a component. -/
  component : Option String
deriving DecidableEq

structure ModelSchema where
  uid : Option String
  attributes : Option (OrderedMap String AttributeSchema)
deriving DecidableEq

/-- The attributes in their order; none where the model declares none. -/
def ModelSchema.entries (schema : ModelSchema) : List (String × AttributeSchema) :=
  (schema.attributes.map OrderedMap.entries).getD []

structure StripOptions where
  getModel : String → Option ModelSchema
  /-- Only false keeps the contact fields. -/
  contact : Option Bool

/-- A text that counts as true. -/
def truthy (text : Option String) : Option String := text.filter (· ≠ "")

/-! ## The visit -/

/-- The heap as it is, and the records seen. -/
structure StripState (n : Nat) where
  heap : Heap n
  seen : List (Fin n)

section Visit
variable {n : Nat} (options : StripOptions)

/-- How a value is visited with the schema of its model. -/
abbrev Visitor (n : Nat) : Type :=
  Value n → Option ModelSchema → StripState n → Option (StripState n)

/-- An entry of a dynamic zone names its own component. -/
def visitZoneItem (visit : Visitor n) (item : Value n) (st : StripState n) :
    Option (StripState n) :=
  match item with
  | .scalar _ => some st
  | .ref a =>
      match (st.heap a).property? "__component" with
      | some (.scalar (.str componentUid)) =>
          match options.getModel componentUid with
          | some target => visit item (some target) st
          | none => some st
      | _ => some st

def visitDynamicZone (visit : Visitor n) (value : Value n) (st : StripState n) :
    Option (StripState n) :=
  match value with
  | .scalar _ => some st
  | .ref a =>
      let items :=
        match st.heap a with
        | .array items => items
        | .record _ => [value]
      items.foldlM (fun st item => visitZoneItem options visit item st) st

/-- How the value of an attribute is visited. -/
inductive Lead
  | model (schema : ModelSchema)
  | zone
  | zoneItem
  | nothing

/-- Where an attribute leads: to a model, a zone or nothing to visit. -/
def AttributeSchema.lead (attr : AttributeSchema) : Lead :=
  match if attr.type = some "relation" then truthy attr.target else none with
  | some target => (options.getModel target).elim .nothing .model
  | none =>
      match if attr.type = some "component" then truthy attr.component else none with
      | some component => (options.getModel component).elim .nothing .model
      | none => if attr.type = some "dynamiczone" then .zone else .nothing

def Lead.follow (visit : Visitor n) (lead : Lead) (value : Value n) (st : StripState n) :
    Option (StripState n) :=
  match lead with
  | .model schema => visit value (some schema) st
  | .zone => visitDynamicZone options visit value st
  | .zoneItem => visitZoneItem options visit value st
  | .nothing => some st

/-- The property of an attribute; without an object there is nothing to visit. -/
def visitAttribute (visit : Visitor n) (a : Fin n) (st : StripState n)
    (entry : String × AttributeSchema) : Option (StripState n) :=
  match (st.heap a).property? entry.1 with
  | some (.ref b) => (entry.2.lead options).follow options visit (.ref b) st
  | some (.scalar _) | none => some st

/-- `blocked` is true. -/
def isBlocked {ν : Type} (isTrue : ν → Bool) (fields : List (String × ν)) : Bool :=
  (lookup "blocked" fields).any isTrue

def Value.isTrue : Value n → Bool
  | .scalar (.bool value) => value
  | _ => false

/-- The fields that a node of a model does not keep. -/
def withheld (schema : ModelSchema) (blocked : Bool) (key : String) : Bool :=
  schema.uid == some USER_UID &&
    if blocked then !BLOCKED_USER_FIELDS.contains key
    else options.contact != some false && SENSITIVE_USER_FIELDS.contains key

/-- One visit; `none` is a visit that has not ended at this depth. -/
def visit : Nat → Visitor n
  | _, .scalar _, _, st => some st
  | 0, .ref _, _, _ => none
  | depth + 1, .ref a, schema, st =>
      match st.heap a with
      | .array items => items.foldlM (fun st item => visit depth item schema st) st
      | .record fields =>
          if a ∈ st.seen then some st
          else
            let seen := a :: st.seen
            match schema with
            | none => some { st with seen := seen }
            | some schema =>
                let blocked := isBlocked Value.isTrue fields
                let kept := fields.filter fun field => !withheld options schema blocked field.1
                let st : StripState n :=
                  { heap := Function.update st.heap a (.record kept), seen := seen }
                -- Of a blocked user nothing is visited.
                if schema.uid = some USER_UID ∧ blocked then some st
                else
                  schema.entries.foldlM (visitAttribute options (visit depth) a) st

/-- The response is stripped in place: the heap after a visit that ends. -/
def StripsTo (heap : Heap n) (data : Value n) (schema : Option ModelSchema) (after : Heap n) :
    Prop :=
  ∃ depth seen, visit options depth data schema ⟨heap, []⟩ = some ⟨after, seen⟩

end Visit

/-! ## Trees -/

section Trees
variable {α : Type} (options : StripOptions)

/-- How the items of a value are visited. -/
def Lead.ofItem : Lead → Lead
  | .model schema => .model schema
  | .zone => .zoneItem
  | .zoneItem | .nothing => .nothing

/-- The component that an entry of a zone names. -/
def componentOf (fields : List (String × DataTree α)) : Option ModelSchema :=
  match lookup "__component" fields with
  | some (.scalar (.str componentUid)) => options.getModel componentUid
  | _ => none

/-- The model of which a record is reached. -/
def Lead.modelAt (lead : Lead) (fields : List (String × DataTree α)) : Option ModelSchema :=
  match lead with
  | .model schema => some schema
  | .zone | .zoneItem => componentOf options fields
  | .nothing => none

/-- Where a field leads by the attributes given. -/
def leadIn (entries : List (String × AttributeSchema)) (key : String) : Lead :=
  match lookup key entries with
  | some attr => attr.lead options
  | none => .nothing

def isTrueTree : DataTree α → Bool
  | .scalar (.bool value) => value
  | _ => false

/-- Where a field of a record leads that is reached as a model; nowhere from a blocked user. -/
def ModelSchema.next (schema : ModelSchema) (blocked : Bool) (key : String) : Lead :=
  if schema.uid = some USER_UID ∧ blocked then .nothing else leadIn options schema.entries key

mutual

/-- The tree without what is withheld. -/
def strip (lead : Lead) : DataTree α → DataTree α
  | .scalar s => .scalar s
  | .array a items => .array a (stripItems lead.ofItem items)
  | .record a fields =>
      match lead.modelAt options fields with
      | none => .record a fields
      | some schema => .record a (stripFields schema (isBlocked isTrueTree fields) fields)

def stripItems (lead : Lead) : List (DataTree α) → List (DataTree α)
  | [] => []
  | t :: items => strip lead t :: stripItems lead items

def stripFields (schema : ModelSchema) (blocked : Bool) :
    List (String × DataTree α) → List (String × DataTree α)
  | [] => []
  | (key, t) :: fields =>
      if withheld options schema blocked key then stripFields schema blocked fields
      else (key, strip (schema.next options blocked key) t) :: stripFields schema blocked fields

end

end Trees

end Sinnlos.Cms.UserContact
